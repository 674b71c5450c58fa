import ActorFramework.Io.Basp.Instance

/-!
# The BASP broker

The broker reads headers and payloads from its connections, hands them to the
instance, and cleans up after connections that are gone.  A step that runs
into a null pointer is not enabled.
-/

namespace ActorFramework.Io.Basp

open ActorFramework.Core Foundation

variable {υ ν : Type}

/--
`register` and `unregister` stand for the rest of the actor system, `dispatch`
for messages of local actors to remote ones.  The connections of `tick` are
those that reached the connection timeout.
-/
inductive BrokerAction (υ : Type) where
  | connect (hdl : ConnectionHandle)
  | newData (hdl : ConnectionHandle) (buf : List Byte)
  | connectionClosed (hdl : ConnectionHandle)
  | receive
  | work (i : Nat)
  | tick (silent : List ConnectionHandle)
  | dispatch (dest : NodeId υ)
  | register (aid : ActorId)
  | unregister (aid : ActorId)

namespace Broker

def initial (thisNode : NodeData υ) (appIdentifiers : List (List Byte))
    (automaticConnections configServ spawnServ : Bool)
    (registry : List ActorId) (workers : Nat) : Broker υ ν :=
  { thisNode, appIdentifiers, automaticConnections, configServ, spawnServ
    registry
    table := .empty
    proxies := []
    spawnServers := []
    contexts := ∅
    idleWorkers := workers
    jobs := []
    queue := .empty
    inbox := []
    events := [] }

variable [DecidableEq υ] (b : Broker υ ν)

/-- The cleanup code of `instance::handle` on errors. -/
def dropConnection (hdl : ConnectionHandle) : Broker υ ν :=
  match b.table.eraseDirect hdl with
  | (none, table) => { b with table }
  | (some nid, table) => purgeState { b with table } nid

/-- `instance::handle` for new data; the header is that of the context. -/
def handleData (codec : Codec υ ν) (hdl : ConnectionHandle)
    (hdr : Header) (isPayload : Bool) (buf : List Byte) :
    Except Fault (Broker υ ν × Header × ConnectionState) :=
  if isPayload then
    if buf.length ≠ hdr.payloadLen.toNat then
      .ok (b.dropConnection hdl, hdr, .malformedMessage)
    else do
      let (b, state) ← b.handle codec hdl hdr (some buf)
      .ok (b, hdr, state)
  else
    match Header.load buf with
    | none => .ok (b.dropConnection hdl, hdr, .malformedMessage)
    | some (hdr, _) =>
      if hdr.valid = false then
        .ok (b.dropConnection hdl, hdr, .malformedMessage)
      else if hdr.payloadLen ≠ 0 then .ok (b, hdr, .awaitPayload)
      else do
        let (b, state) ← b.handle codec hdl hdr none
        .ok (b, hdr, state)

def freshContext : Context υ :=
  ⟨.awaitHeader, ⟨.serverHandshake, 0, 0, 0, 0, 0⟩, none, false⟩

def context (hdl : ConnectionHandle) : Context υ :=
  (b.contexts.lookup hdl).getD freshContext

def setContext (hdl : ConnectionHandle) : Broker υ ν :=
  { b with contexts := b.contexts.insert hdl (b.context hdl) }

/-- `connection_cleanup` up to the routing table and the observers. -/
def disconnect (hdl : ConnectionHandle) (code : Sec) :
    Broker υ ν :=
  match b.table.eraseDirect hdl with
  | (none, table) => { b with table }
  | (some nid, table) =>
    purgeState (emit { b with table } (.nodeDown nid code)) nid

def eraseContext (hdl : ConnectionHandle) (code : Sec) :
    Broker υ ν :=
  match b.contexts.lookup hdl with
  | none => b
  | some context =>
    let b :=
      if context.callback then
        b.emit (.handshakeFailed hdl
          (if code = .none then .disconnectDuringHandshake else code))
      else b
    { b with contexts := b.contexts.erase hdl }

def connectionCleanup (hdl : ConnectionHandle) (code : Sec) : Broker υ ν :=
  (b.disconnect hdl code).eraseContext hdl code

def proceed (hdl : ConnectionHandle) (hdr : Header)
    (next : ConnectionState) : Broker υ ν :=
  if next.requiresShutdown then
    (b.connectionCleanup hdl next.toSec).emit (.closed hdl)
  else
    { b with
      contexts := b.contexts.insert hdl
        { b.context hdl with hdr, state := next } }

def newData (codec : Codec υ ν) (hdl : ConnectionHandle)
    (buf : List Byte) : Except Fault (Broker υ ν) := do
  let (b, hdr, next) ← (b.setContext hdl).handleData codec hdl
    (b.context hdl).hdr ((b.context hdl).state = .awaitPayload) buf
  .ok (b.proceed hdl hdr next)

def tick (silent : List ConnectionHandle) : Broker υ ν :=
  let b := b.table.directByHdl.keys.foldl
    (fun b hdl => b.emit (.heartbeat hdl)) b
  (silent.filter fun hdl => hdl ∈ b.contexts.keys).foldl
    (fun b hdl =>
      (b.connectionCleanup hdl .connectionTimeout).emit (.closed hdl)) b

def receive : Content υ ν → Broker υ ν
  | .message _ _ _ _ => b
  | .deleteConnection hdl => b.connectionCleanup hdl .none
  | .deleteProxy nid aid _ =>
    { b with
      proxies := b.proxies.filter fun p =>
        ¬(some p.node = nid ∧ p.aid = aid) }

def step (codec : Codec υ ν) (b : Broker υ ν) :
    BrokerAction υ → Option (Broker υ ν)
  | .connect hdl => some { b with
      contexts := b.contexts.insert hdl
        { b.context hdl with state := .awaitHeader, callback := true } }
  | .newData hdl buf => (b.newData codec hdl buf).toOption
  | .connectionClosed hdl =>
    let (msgId, queue) := b.queue.newId
    some (pushMessage { b with queue } msgId (some (.deleteConnection hdl)))
  | .receive =>
    match b.inbox with
    | [] => none
    | content :: inbox => some (receive { b with inbox } content)
  | .work i =>
    match b.jobs[i]? with
    | none => none
    | some job => (handleRemoteMessage { b with
        jobs := b.jobs.eraseIdx i, idleWorkers := b.idleWorkers + 1 }
        codec job).toOption
  | .tick silent => some (b.tick silent)
  | .dispatch dest => some (b.dispatch dest).2
  | .register aid => some { b with registry := aid :: b.registry }
  | .unregister aid => some { b with registry := b.registry.filter (· ≠ aid) }

end Broker

end ActorFramework.Io.Basp
