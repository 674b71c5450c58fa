import ActorFramework.Core.MessageId
import ActorFramework.Io.Basp.Header
import ActorFramework.Io.Basp.MessageQueue
import ActorFramework.Io.Basp.RoutingTable

/-!
# The BASP instance

`instance` interprets the messages of all peers and calls back into the broker
that owns it.  One record holds the state of both.  The two uses of a null
pointer are faults: the payload is a pointer that is null for a header without
payload, and so is the sender of a message.

`υ` is the type of URIs and `ν` the type of the values in a message.
-/

namespace ActorFramework.Io.Basp

open ActorFramework.Core

variable {υ ν : Type}

abbrev ConnectionHandle := Nat

structure Proxy (υ : Type) where
  node : NodeData υ
  aid : ActorId
  valid : aid ≠ 0#64
  deriving DecidableEq

inductive ActorRef (υ : Type) where
  | registered (aid : ActorId)
  | named (id : ActorId)
  | proxy (value : Proxy υ)

inductive Fault where
  | nullPayload
  | nullSender

inductive Rejection where
  | remoteLinkUnreachable
  | malformedMessage

inductive Content (υ ν : Type) where
  | message (dst : ActorRef υ) (src : Option (ActorRef υ)) (mid : MessageId)
      (elements : List (Element υ ν))
  | deleteConnection (hdl : ConnectionHandle)
  | deleteProxy (nid : NodeId υ) (aid : ActorId)
      (reason : Option (Codec.ErrorData υ ν))

inductive Event (υ ν : Type) where
  | dispatched (hdl : ConnectionHandle) (dest : NodeId υ)
  | forwarded (hdl : ConnectionHandle) (hdr : Header) (payload : List Byte)
  | downMessage (hdl : ConnectionHandle) (dest : NodeId υ) (aid : ActorId)
  | monitored (nid : NodeId υ) (aid : ActorId)
  | handshake (nid : NodeId υ) (ptr : Option (ActorRef υ))
      (sigs : List (List Byte))
  | handshakeFailed (hdl : ConnectionHandle) (code : Sec)
  | purged (nid : NodeData υ)
  | nodeDown (nid : NodeData υ) (code : Sec)
  | rejected (sender : ActorRef υ) (mid : MessageId) (reason : Rejection)
  | linked (target dst : ActorRef υ)
  | unlinked (target dst : ActorRef υ)
  | delivered (content : Content υ ν)
  | heartbeat (hdl : ConnectionHandle)
  | closed (hdl : ConnectionHandle)

structure Job (υ : Type) where
  msgId : Nat
  lastHop : NodeId υ
  hdr : Header
  payload : List Byte

def Job.mid (job : Job υ) : MessageId := ⟨job.hdr.operationData⟩

/-- `endpoint_context`; of a pending callback only the presence counts. -/
structure Context (υ : Type) where
  state : ConnectionState
  hdr : Header
  id : NodeId υ
  callback : Bool

structure Broker (υ ν : Type) where
  thisNode : NodeData υ
  appIdentifiers : List (List Byte)
  automaticConnections : Bool
  registry : List ActorId
  configServ : Bool
  spawnServ : Bool
  table : RoutingTable ConnectionHandle (NodeData υ)
  proxies : List (Proxy υ)
  spawnServers : List (NodeId υ)
  contexts : AList fun _ : ConnectionHandle => Context υ
  idleWorkers : Nat
  jobs : List (Job υ)
  queue : MessageQueue (Content υ ν)
  inbox : List (Content υ ν)
  events : List (Event υ ν)

namespace Broker

def emit (b : Broker υ ν) (event : Event υ ν) : Broker υ ν :=
  { b with events := b.events ++ [event] }

/-- Results for actors leave the broker; its own ones wait in its mailbox. -/
def accept (b : Broker υ ν) : Content υ ν → Broker υ ν
  | .message dst src mid elements =>
    b.emit (.delivered (.message dst src mid elements))
  | content => { b with inbox := b.inbox ++ [content] }

def pushMessage (b : Broker υ ν) (id : Nat) (content : Option (Content υ ν)) :
    Broker υ ν :=
  let (delivered, queue) := b.queue.push id content
  delivered.foldl accept { b with queue }

variable [DecidableEq υ] (b : Broker υ ν)

def registryGet (aid : ActorId) : Option (ActorRef υ) :=
  if aid ∈ b.registry then some (.registered aid) else none

/-- `dispatch`: whether there is a route to write to. -/
def dispatch (dest : NodeId υ) : Bool × Broker υ ν :=
  match b.table.lookup dest with
  | (none, table) => (false, { b with table })
  | (some route, table) =>
    (true, emit { b with table } (.dispatched route.hdl dest))

def forward (dest : NodeId υ) (hdr : Header)
    (payload : List Byte) : Broker υ ν :=
  match b.table.lookup dest with
  | (none, table) => { b with table }
  | (some route, table) =>
    emit { b with table } (.forwarded route.hdl hdr payload)

def learnedNewNode (nid : NodeId υ) : Broker υ ν :=
  if nid ∈ b.spawnServers then b
  else (dispatch { b with spawnServers := nid :: b.spawnServers } nid).2

def learnedNewNodeDirectly (nid : NodeId υ) (wasIndirect : Bool) : Broker υ ν :=
  if wasIndirect then b else b.learnedNewNode nid

def learnedNewNodeIndirectly (nid : NodeId υ) : Broker υ ν :=
  let b := b.learnedNewNode nid
  if b.automaticConnections then (b.dispatch nid).2 else b

def offerRoute (lastHop nid : NodeId υ) : Broker υ ν :=
  if nid = lastHop then b
  else
    match b.table.addIndirect lastHop nid with
    | (true, table) => learnedNewNodeIndirectly { b with table } nid
    | (false, table) => { b with table }

def getOrPut (lastHop nid : NodeId υ) (aid : ActorId) :
    Option (ActorRef υ) × Broker υ ν :=
  match nid with
  | none => (none, b)
  | some node =>
    if h : aid = 0#64 then (none, b)
    else if ⟨node, aid, h⟩ ∈ b.proxies then (some (.proxy ⟨node, aid, h⟩), b)
    else
      let b := b.offerRoute lastHop (some node)
      (some (.proxy ⟨node, aid, h⟩),
        { b with proxies := ⟨node, aid, h⟩ :: b.proxies })

def loadActor (lastHop : NodeId υ)
    (handle : ActorHandle υ) : Option (ActorRef υ) × Broker υ ν :=
  if handle.nid = some b.thisNode then (b.registryGet handle.aid, b)
  else b.getOrPut lastHop handle.nid handle.aid

def loadActors (lastHop : NodeId υ)
    (handles : List (ActorHandle υ)) : Broker υ ν :=
  handles.foldl (fun b handle => (b.loadActor lastHop handle).2) b

def purgeState (nid : NodeData υ) : Broker υ ν :=
  emit { b with proxies := b.proxies.filter fun p => p.node ≠ nid }
    (.purged nid)

def publishedActor (nid : NodeId υ) (aid : ActorId) :
    Option (ActorRef υ) × Broker υ ν :=
  if aid = 0#64 then (none, b)
  else if nid = some b.thisNode then (b.registryGet aid, b)
  else b.getOrPut nid nid aid

def finalizeHandshake (hdl : ConnectionHandle)
    (nid : NodeId υ) (aid : ActorId) (sigs : List (List Byte)) :
    Broker υ ν :=
  match b.contexts.lookup hdl with
  | none => b
  | some context =>
    let contexts := b.contexts.insert hdl
      { context with id := nid, callback := false }
    if context.callback then
      let (ptr, b) := b.publishedActor nid aid
      emit { b with contexts } (.handshake nid ptr sigs)
    else { b with contexts }

def sendBaspDownMessage (nid : NodeId υ) (aid : ActorId) :
    Broker υ ν :=
  match b.table.lookup nid with
  | (none, table) => { b with table }
  | (some route, table) =>
    emit { b with table } (.downMessage route.hdl nid aid)

def proxyAnnounced (nid : NodeId υ) (aid : ActorId) :
    Broker υ ν :=
  match b.registryGet aid with
  | none => b.sendBaspDownMessage nid aid
  | some _ => b.emit (.monitored nid aid)

def receiver (hdr : Header) : Option (ActorRef υ) :=
  if hdr.has Header.namedReceiverFlag then
    if hdr.destActor = Header.configServerId then
      if b.configServ then some (.named Header.configServerId) else none
    else if hdr.destActor = Header.spawnServerId then
      if b.spawnServ then some (.named Header.spawnServerId) else none
    else none
  else b.registryGet hdr.destActor

def sourceAndDest (codec : Codec υ ν) : Reader (NodeId υ × NodeId υ) := do
  let source ← codec.nodeId
  let dest ← codec.nodeId
  pure (source, dest)

def routedSender (lastHop source : NodeId υ)
    (aid : ActorId) : Option (ActorRef υ) × Broker υ ν :=
  if aid = 0#64 then (none, b)
  else if source = some b.thisNode then (b.registryGet aid, b)
  else b.getOrPut lastHop source aid

def linkTarget (codec : Codec υ ν) (atom : TypeId)
    (elements : List (Element υ ν)) : Option (Option (ActorHandle υ)) :=
  match elements with
  | [first, second] =>
    if first.type = atom ∧ second.type = codec.strongActorPtr then
      some second.handles.head?
    else none
  | _ => none

def loadedActor (job : Job υ)
    (handle : Option (ActorHandle υ)) : Option (ActorRef υ) :=
  handle.bind fun handle => (b.loadActor job.lastHop handle).1

def ship (codec : Codec υ ν) (job : Job υ) (dst : ActorRef υ)
    (src : Option (ActorRef υ)) (elements : List (Element υ ν)) : Broker υ ν :=
  match linkTarget codec codec.linkAtom elements with
  | some handle =>
    match b.loadedActor job handle with
    | some target => (b.emit (.linked target dst)).pushMessage job.msgId none
    | none => b.pushMessage job.msgId none
  | none =>
    match linkTarget codec codec.unlinkAtom elements with
    | some handle =>
      match b.loadedActor job handle with
      | some target =>
        (b.emit (.unlinked target dst)).pushMessage job.msgId none
      | none => b.pushMessage job.msgId none
    | none =>
      b.pushMessage job.msgId (some (.message dst src job.mid elements))

def deliverRemote (codec : Codec υ ν) (job : Job υ)
    (dst src : Option (ActorRef υ)) (content : List Byte) :
    Except Fault (Broker υ ν) :=
  match dst with
  | none =>
    match src with
    | some sender => .ok
        ((b.emit (.rejected sender job.mid .remoteLinkUnreachable)).pushMessage
          job.msgId none)
    | none => .ok (b.pushMessage job.msgId none)
  | some receiver =>
    match codec.message content with
    | ⟨handles, none⟩ =>
      match src with
      | some sender => .ok
          ((emit (b.loadActors job.lastHop handles)
            (.rejected sender job.mid .malformedMessage)).pushMessage
            job.msgId none)
      -- `src->enqueue` follows without a check.
      | none => .error .nullSender
    | ⟨handles, some (elements, _)⟩ => .ok
        ((b.loadActors job.lastHop handles).ship codec job receiver src
          elements)

def handleRemoteMessage (codec : Codec υ ν) (job : Job υ) :
    Except Fault (Broker υ ν) :=
  if b.receiver job.hdr = none ∧ job.mid.isRequest = false then
    .ok (b.pushMessage job.msgId none)
  else if job.hdr.operation = .routedMessage then
    match sourceAndDest codec job.payload with
    | none => .ok (b.pushMessage job.msgId none)
    | some ((source, _), content) =>
      match b.routedSender job.lastHop source job.hdr.sourceActor with
      | (src, b') =>
        b'.deliverRemote codec job (b.receiver job.hdr) src content
  else
    match b.getOrPut job.lastHop job.lastHop job.hdr.sourceActor with
    | (src, b') =>
      b'.deliverRemote codec job (b.receiver job.hdr) src job.payload

def loadServerHandshake (codec : Codec υ ν) :
    Reader (NodeId υ × List (List Byte) × ActorId × List (List Byte)) := do
  let sourceNode ← codec.nodeId
  let appIds ← Reader.list Reader.string
  let aid ← Reader.int 64
  let sigs ← Reader.list Reader.string
  pure (sourceNode, appIds, aid, sigs)

def sharesApplication (appIds : List (List Byte)) : Bool :=
  appIds.any fun id => id ∈ b.appIdentifiers

def serverHandshake (codec : Codec υ ν)
    (hdl : ConnectionHandle) (payload : List Byte) :
    Broker υ ν × ConnectionState :=
  match loadServerHandshake codec payload with
  | none => (b, .serializingBaspPayloadFailed)
  | some ((sourceNode, appIds, aid, sigs), _) =>
    if b.sharesApplication appIds = false then
      (b, .incompatibleApplicationIds)
    else if sourceNode = some b.thisNode then
      (b.finalizeHandshake hdl sourceNode aid sigs, .redundantConnection)
    else if (b.table.lookupDirect sourceNode).isSome then
      (b.finalizeHandshake hdl sourceNode aid sigs, .redundantConnection)
    else
      let (wasIndirect, table) :=
        (b.table.addDirect hdl sourceNode).eraseIndirect sourceNode
      match table.lookup sourceNode with
      | (none, table) => ({ b with table }, .noRouteToReceivingNode)
      | (some _, table) =>
        let b := learnedNewNodeDirectly { b with table } sourceNode wasIndirect
        (b.finalizeHandshake hdl sourceNode aid sigs, .awaitHeader)

def clientHandshake (codec : Codec υ ν)
    (hdl : ConnectionHandle) (payload : List Byte) :
    Broker υ ν × ConnectionState :=
  match codec.nodeId payload with
  | none => (b, .serializingBaspPayloadFailed)
  | some (sourceNode, _) =>
    if (b.table.lookupDirect sourceNode).isSome then (b, .awaitHeader)
    else
      let (wasIndirect, table) :=
        (b.table.addDirect hdl sourceNode).eraseIndirect sourceNode
      (learnedNewNodeDirectly { b with table } sourceNode wasIndirect,
        .awaitHeader)

def directMessage (codec : Codec υ ν)
    (hdl : ConnectionHandle) (hdr : Header) (payload : List Byte) :
    Except Fault (Broker υ ν × ConnectionState) :=
  let (msgId, queue) := b.queue.newId
  let job : Job υ := ⟨msgId, b.table.lookupNode hdl, hdr, payload⟩
  if 0 < b.idleWorkers then
    .ok ({ b with
      queue, idleWorkers := b.idleWorkers - 1, jobs := b.jobs ++ [job] },
      .awaitHeader)
  else do
    let b ← handleRemoteMessage { b with queue } codec job
    .ok (b, .awaitHeader)

def routedMessage (codec : Codec υ ν)
    (hdl : ConnectionHandle) (hdr : Header) (payload : List Byte) :
    Except Fault (Broker υ ν × ConnectionState) :=
  match sourceAndDest codec payload with
  | none => .ok (b, .serializingBaspPayloadFailed)
  | some ((source, dest), _) =>
    if dest ≠ some b.thisNode then
      .ok (b.forward dest hdr payload, .awaitHeader)
    else
      let lastHop := b.table.lookupNode hdl
      let b :=
        if source = none ∨ source = some b.thisNode then b
        else b.offerRoute lastHop source
      b.directMessage codec hdl hdr payload

def monitorMessage (codec : Codec υ ν) (hdr : Header)
    (payload : List Byte) : Broker υ ν × ConnectionState :=
  match sourceAndDest codec payload with
  | none => (b, .serializingBaspPayloadFailed)
  | some ((source, dest), _) =>
    if dest = some b.thisNode then
      (b.proxyAnnounced source hdr.destActor, .awaitHeader)
    else (b.forward dest hdr payload, .awaitHeader)

/-- A down message must not overtake messages that are still on their way. -/
def proxyDown (hdr : Header) (source dest : NodeId υ)
    (reason : Option (Codec.ErrorData υ ν)) (payload : List Byte) :
    Broker υ ν :=
  if dest = some b.thisNode then
    pushMessage { b with queue := b.queue.newId.2 } b.queue.newId.1
      (some (.deleteProxy source hdr.sourceActor reason))
  else b.forward dest hdr payload

def contextNode (hdl : ConnectionHandle) : NodeId υ :=
  (b.contexts.lookup hdl).bind Context.id

def downMessage (codec : Codec υ ν)
    (hdl : ConnectionHandle) (hdr : Header) (payload : List Byte) :
    Broker υ ν × ConnectionState :=
  match sourceAndDest codec payload with
  | none => (b, .serializingBaspPayloadFailed)
  | some ((source, dest), rest) =>
    match codec.error rest with
    | ⟨handles, none⟩ =>
      (b.loadActors (b.contextNode hdl) handles, .serializingBaspPayloadFailed)
    | ⟨handles, some (reason, _)⟩ =>
      ((b.loadActors (b.contextNode hdl) handles).proxyDown hdr source
        dest reason payload, .awaitHeader)

def dereference : Option (List Byte) → Except Fault (List Byte)
  | none => .error .nullPayload
  | some payload => .ok payload

def handle (codec : Codec υ ν) (hdl : ConnectionHandle)
    (hdr : Header) (payload : Option (List Byte)) :
    Except Fault (Broker υ ν × ConnectionState) :=
  if payload.elim 0 List.length ≠ hdr.payloadLen.toNat then
    .ok (b, .malformedMessage)
  else
    match hdr.operation with
    | .serverHandshake => do
        let bytes ← dereference payload
        .ok (b.serverHandshake codec hdl bytes)
    | .clientHandshake => do
        let bytes ← dereference payload
        .ok (b.clientHandshake codec hdl bytes)
    | .routedMessage => do
        let bytes ← dereference payload
        b.routedMessage codec hdl hdr bytes
    | .directMessage => do
        let bytes ← dereference payload
        b.directMessage codec hdl hdr bytes
    | .monitorMessage => do
        let bytes ← dereference payload
        .ok (b.monitorMessage codec hdr bytes)
    | .downMessage => do
        let bytes ← dereference payload
        .ok (b.downMessage codec hdl hdr bytes)
    | .heartbeat => .ok (b, .awaitHeader)

end Broker

end ActorFramework.Io.Basp
