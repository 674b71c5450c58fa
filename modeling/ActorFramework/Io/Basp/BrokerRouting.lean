import ActorFramework.Io.Basp.Broker

/-!
# Direct routes

Only two things change the direct maps of the routing table: a handshake of a
node without direct connection adds an entry, and the end of a connection
removes one.  Everything else leaves them alone.
-/

namespace ActorFramework.Io.Basp

open ActorFramework.Core Foundation

variable {υ ν : Type}

namespace Broker

structure Frame (b b' : Broker υ ν) : Prop where
  thisNode : b'.thisNode = b.thisNode
  registry : b'.registry = b.registry
  configServ : b'.configServ = b.configServ
  spawnServ : b'.spawnServ = b.spawnServ
  idleWorkers : b'.idleWorkers = b.idleWorkers
  direct : b.table.SameDirect b'.table

theorem Frame.refl (b : Broker υ ν) : b.Frame b :=
  ⟨rfl, rfl, rfl, rfl, rfl, .refl _⟩

variable {b b' : Broker υ ν} {codec : Codec υ ν} {hdl : ConnectionHandle}
  {hdr : Header} {payload : List Byte} {state : ConnectionState}

theorem Frame.trans {a c : Broker υ ν} (hab : a.Frame b) (hbc : b.Frame c) :
    a.Frame c :=
  ⟨hbc.thisNode.trans hab.thisNode, hbc.registry.trans hab.registry,
    hbc.configServ.trans hab.configServ, hbc.spawnServ.trans hab.spawnServ,
    hbc.idleWorkers.trans hab.idleWorkers, hab.direct.trans hbc.direct⟩

variable {table : RoutingTable ConnectionHandle (NodeData υ)} {job : Job υ}
  {buf : List Byte}

theorem frame_table (b : Broker υ ν) (h : b.table.SameDirect table) :
    b.Frame { b with table } :=
  ⟨rfl, rfl, rfl, rfl, rfl, h⟩

theorem frame_state (b : Broker υ ν) (proxies : List (Proxy υ))
    (spawnServers : List (NodeId υ))
    (contexts : AList fun _ : ConnectionHandle => Context υ)
    (queue : MessageQueue (Content υ ν)) (inbox : List (Content υ ν))
    (events : List (Event υ ν)) :
    b.Frame { b with proxies, spawnServers, contexts, queue, inbox, events } :=
  ⟨rfl, rfl, rfl, rfl, rfl, .refl _⟩

theorem frame_emit (b : Broker υ ν) (event : Event υ ν) :
    b.Frame (b.emit event) :=
  b.frame_state _ _ _ _ _ _

theorem frame_foldl {τ : Type*} {f : Broker υ ν → τ → Broker υ ν}
    (hf : ∀ b x, Frame b (f b x)) (xs : List τ) (b : Broker υ ν) :
    b.Frame (xs.foldl f b) := by
  induction xs generalizing b with
  | nil => exact .refl b
  | cons x xs ih => exact (hf b x).trans (ih (f b x))

theorem frame_pushMessage (b : Broker υ ν) (id : Nat)
    (content : Option (Content υ ν)) : b.Frame (b.pushMessage id content) := by
  have haccept : ∀ (b : Broker υ ν) (content : Content υ ν),
      b.Frame (b.accept content) := by
    intro b content
    cases content <;> exact b.frame_state _ _ _ _ _ _
  have hqueue : b.Frame { b with queue := (b.queue.push id content).2 } :=
    b.frame_state _ _ _ _ _ _
  exact hqueue.trans (frame_foldl haccept _ _)

theorem ok_of_bind {σ τ : Type} {x : Except Fault σ} {f : σ → Except Fault τ}
    {r : τ} (h : x >>= f = .ok r) : ∃ c, x = .ok c ∧ f c = .ok r := by
  cases x with
  | error fault => contradiction
  | ok c => exact ⟨c, rfl, h⟩

private theorem toOption_eq_some {x : Except Fault (Broker υ ν)}
    (h : x.toOption = some b) : x = .ok b := by
  cases x with
  | error fault => contradiction
  | ok c =>
    cases h
    rfl

variable [DecidableEq υ]

section

variable (b : Broker υ ν)

theorem frame_lookup {dest : NodeId υ}
    {route : Option (Route ConnectionHandle (NodeData υ))}
    (h : b.table.lookup dest = (route, table)) : b.Frame { b with table } := by
  have hsame := b.table.lookup_sameDirect dest
  rw [h] at hsame
  exact b.frame_table hsame

theorem frame_dispatch (dest : NodeId υ) : b.Frame (b.dispatch dest).2 := by
  unfold dispatch
  split
  · rename_i hlookup
    exact b.frame_lookup hlookup
  · rename_i hlookup
    exact (b.frame_lookup hlookup).trans (frame_emit _ _)

theorem frame_forward (dest : NodeId υ) (hdr : Header) (payload : List Byte) :
    b.Frame (b.forward dest hdr payload) := by
  unfold forward
  split
  · rename_i hlookup
    exact b.frame_lookup hlookup
  · rename_i hlookup
    exact (b.frame_lookup hlookup).trans (frame_emit _ _)

theorem frame_learnedNewNode (nid : NodeId υ) :
    b.Frame (b.learnedNewNode nid) := by
  unfold learnedNewNode
  split
  · exact .refl b
  · have hspawn : b.Frame { b with spawnServers := nid :: b.spawnServers } :=
      b.frame_state _ _ _ _ _ _
    exact hspawn.trans (frame_dispatch _ nid)

theorem frame_learnedNewNodeDirectly (nid : NodeId υ) (wasIndirect : Bool) :
    b.Frame (b.learnedNewNodeDirectly nid wasIndirect) := by
  unfold learnedNewNodeDirectly
  split
  · exact .refl b
  · exact b.frame_learnedNewNode nid

theorem frame_learnedNewNodeIndirectly (nid : NodeId υ) :
    b.Frame (b.learnedNewNodeIndirectly nid) := by
  simp only [learnedNewNodeIndirectly]
  split
  · exact (b.frame_learnedNewNode nid).trans (frame_dispatch _ nid)
  · exact b.frame_learnedNewNode nid

theorem frame_offerRoute (lastHop nid : NodeId υ) :
    b.Frame (b.offerRoute lastHop nid) := by
  have hsame := b.table.addIndirect_sameDirect lastHop nid
  unfold offerRoute
  split
  · exact .refl b
  · split
    · rename_i table hadd
      rw [hadd] at hsame
      exact (b.frame_table hsame).trans (frame_learnedNewNodeIndirectly _ nid)
    · rename_i table hadd
      rw [hadd] at hsame
      exact b.frame_table hsame

theorem frame_getOrPut (lastHop nid : NodeId υ) (aid : ActorId) :
    b.Frame (b.getOrPut lastHop nid aid).2 := by
  unfold getOrPut
  split
  · exact .refl b
  · rename_i node
    split
    · exact .refl b
    · split
      · exact .refl b
      · have hoffer := b.frame_offerRoute lastHop (some node)
        exact hoffer.trans (frame_state _ _ _ _ _ _ _)

theorem frame_loadActors (lastHop : NodeId υ) (handles : List (ActorHandle υ)) :
    b.Frame (b.loadActors lastHop handles) := by
  refine frame_foldl ?_ handles b
  intro b handle
  unfold loadActor
  split
  · exact .refl b
  · exact b.frame_getOrPut _ _ _

theorem frame_finalizeHandshake (hdl : ConnectionHandle) (nid : NodeId υ)
    (aid : ActorId) (sigs : List (List Byte)) :
    b.Frame (b.finalizeHandshake hdl nid aid sigs) := by
  have hcontexts : ∀ (b : Broker υ ν) contexts, b.Frame { b with contexts } :=
    fun b contexts => b.frame_state _ _ contexts _ _ _
  unfold finalizeHandshake
  split
  · exact .refl b
  · split
    · have hpublished : b.Frame (b.publishedActor nid aid).2 := by
        unfold publishedActor
        split
        · exact .refl b
        · split
          · exact .refl b
          · exact b.frame_getOrPut _ _ _
      exact hpublished.trans ((hcontexts _ _).trans (frame_emit _ _))
    · exact hcontexts b _

theorem frame_proxyAnnounced (nid : NodeId υ) (aid : ActorId) :
    b.Frame (b.proxyAnnounced nid aid) := by
  unfold proxyAnnounced
  split
  · unfold sendBaspDownMessage
    split
    · rename_i hlookup
      exact b.frame_lookup hlookup
    · rename_i hlookup
      exact (b.frame_lookup hlookup).trans (frame_emit _ _)
  · exact b.frame_emit _

end

theorem frame_ship (b : Broker υ ν) (codec : Codec υ ν) (job : Job υ)
    (dst : ActorRef υ) (src : Option (ActorRef υ))
    (elements : List (Element υ ν)) :
    b.Frame (b.ship codec job dst src elements) := by
  unfold ship
  split
  · split
    · exact (b.frame_emit _).trans (frame_pushMessage _ _ _)
    · exact b.frame_pushMessage _ _
  · split
    · split
      · exact (b.frame_emit _).trans (frame_pushMessage _ _ _)
      · exact b.frame_pushMessage _ _
    · exact b.frame_pushMessage _ _

theorem frame_deliverRemote {dst src : Option (ActorRef υ)}
    {content : List Byte}
    (h : b.deliverRemote codec job dst src content = .ok b') : b.Frame b' := by
  unfold deliverRemote at h
  split at h
  · split at h
    · cases h
      exact (b.frame_emit _).trans (frame_pushMessage _ _ _)
    · cases h
      exact b.frame_pushMessage _ _
  · split at h
    · split at h
      · cases h
        exact (b.frame_loadActors _ _).trans
          ((frame_emit _ _).trans (frame_pushMessage _ _ _))
      · contradiction
    · cases h
      exact (b.frame_loadActors _ _).trans (frame_ship _ _ _ _ _ _)

theorem frame_routedSender (b : Broker υ ν) (lastHop source : NodeId υ)
    (aid : ActorId) : b.Frame (b.routedSender lastHop source aid).2 := by
  unfold routedSender
  split
  · exact .refl b
  · split
    · exact .refl b
    · exact b.frame_getOrPut _ _ _

theorem frame_handleRemoteMessage
    (h : b.handleRemoteMessage codec job = .ok b') : b.Frame b' := by
  unfold handleRemoteMessage at h
  split at h
  · cases h
    exact b.frame_pushMessage _ _
  · split at h
    · split at h
      · cases h
        exact b.frame_pushMessage _ _
      · exact (b.frame_routedSender _ _ _).trans (frame_deliverRemote h)
    · exact (b.frame_getOrPut _ _ _).trans (frame_deliverRemote h)

theorem direct_directMessage
    (h : b.directMessage codec hdl hdr payload = .ok (b', state)) :
    b.table.SameDirect b'.table := by
  simp only [directMessage] at h
  split at h
  · cases h
    exact .refl _
  · obtain ⟨c, hremote, hc⟩ := ok_of_bind h
    cases hc
    exact (frame_handleRemoteMessage hremote).direct

theorem direct_routedMessage
    (h : b.routedMessage codec hdl hdr payload = .ok (b', state)) :
    b.table.SameDirect b'.table := by
  unfold routedMessage at h
  split at h
  · cases h
    exact .refl _
  · split at h
    · cases h
      exact (b.frame_forward _ _ _).direct
    · split at h
      · exact direct_directMessage h
      · exact (b.frame_offerRoute _ _).direct.trans (direct_directMessage h)

theorem frame_proxyDown (b : Broker υ ν) (hdr : Header) (source dest : NodeId υ)
    (reason : Option (Codec.ErrorData υ ν)) (payload : List Byte) :
    b.Frame (b.proxyDown hdr source dest reason payload) := by
  have hqueue : b.Frame { b with queue := b.queue.newId.2 } :=
    b.frame_state _ _ _ _ _ _
  unfold proxyDown
  split
  · exact hqueue.trans (frame_pushMessage _ _ _)
  · exact b.frame_forward _ _ _

/--
The node a handshake introduces: it has no direct connection yet, and a server
passed the checks of its application and of its node.
-/
def handshakeNode (b : Broker υ ν) (codec : Codec υ ν) (hdr : Header)
    (payload : List Byte) : Option (NodeId υ) :=
  match hdr.operation with
  | .serverHandshake =>
    match loadServerHandshake codec payload with
    | none => none
    | some ((nid, appIds, _), _) =>
      if b.sharesApplication appIds ∧ nid ≠ some b.thisNode ∧
          b.table.lookupDirect nid = none then some nid
      else none
  | .clientHandshake =>
    match codec.nodeId payload with
    | none => none
    | some (nid, _) =>
      if b.table.lookupDirect nid = none then some nid else none
  | _ => none

theorem handshakeNode_unknown {nid : NodeId υ}
    (h : b.handshakeNode codec hdr payload = some nid) :
    b.table.directByNid.lookup nid = none := by
  unfold handshakeNode at h
  split at h
  · split at h
    · contradiction
    · obtain ⟨hchecks, rfl⟩ := of_guard h
      exact hchecks.2.2
  · split at h
    · contradiction
    · obtain ⟨hunknown, rfl⟩ := of_guard h
      exact hunknown
  · contradiction

inductive Connects (b : Broker υ ν) (hdl : ConnectionHandle)
    (node : Option (NodeId υ)) (b' : Broker υ ν) : Prop
  | kept (h : b.table.SameDirect b'.table)
  | added (nid : NodeId υ) (hnode : node = some nid)
      (h : (b.table.addDirect hdl nid).SameDirect b'.table)

theorem connects_serverHandshake (b : Broker υ ν) (codec : Codec υ ν)
    (hdl : ConnectionHandle) (payload : List Byte)
    (hop : hdr.operation = .serverHandshake) :
    b.Connects hdl (b.handshakeNode codec hdr payload)
      (b.serverHandshake codec hdl payload).1 := by
  unfold serverHandshake
  split
  · exact .kept (.refl _)
  · rename_i nid appIds aid sigs rest hload
    split
    · exact .kept (.refl _)
    · rename_i happ
      split
      · exact .kept (b.frame_finalizeHandshake _ _ _ _).direct
      · rename_i hself
        split
        · exact .kept (b.frame_finalizeHandshake _ _ _ _).direct
        · rename_i hknown
          have hnode : b.handshakeNode codec hdr payload = some nid := by
            simp only [handshakeNode, hop, hload]
            rw [if_pos]
            simpa using ⟨by simpa using happ, hself, by simpa using hknown⟩
          have herase :=
            (b.table.addDirect hdl nid).eraseIndirect_sameDirect nid
          split
          rename_i wasIndirect table herases
          rw [herases] at herase
          have hlookup := table.lookup_sameDirect nid
          split
          · rename_i table' hnone
            rw [hnone] at hlookup
            exact .added nid hnode (herase.trans hlookup)
          · rename_i route table' hsome
            rw [hsome] at hlookup
            refine .added nid hnode ((herase.trans hlookup).trans ?_)
            exact (frame_learnedNewNodeDirectly _ _ _).direct.trans
              (frame_finalizeHandshake _ _ _ _ _).direct

theorem connects_clientHandshake (b : Broker υ ν) (codec : Codec υ ν)
    (hdl : ConnectionHandle) (payload : List Byte)
    (hop : hdr.operation = .clientHandshake) :
    b.Connects hdl (b.handshakeNode codec hdr payload)
      (b.clientHandshake codec hdl payload).1 := by
  unfold clientHandshake
  split
  · exact .kept (.refl _)
  · rename_i nid rest hload
    split_ifs with hknown
    · exact .kept (.refl _)
    · have hnode : b.handshakeNode codec hdr payload = some nid := by
        simp only [handshakeNode, hop, hload]
        rw [if_pos]
        simpa using hknown
      have herase := (b.table.addDirect hdl nid).eraseIndirect_sameDirect nid
      refine .added nid hnode (herase.trans ?_)
      exact (frame_learnedNewNodeDirectly _ _ _).direct

theorem connects_handle {payload : Option (List Byte)}
    (h : b.handle codec hdl hdr payload = .ok (b', state)) :
    b.Connects hdl (payload.bind (b.handshakeNode codec hdr)) b' := by
  unfold handle at h
  split at h
  · cases h
    exact .kept (.refl _)
  · cases payload with
    | none =>
      split at h
      case h_7 =>
        cases h
        exact .kept (.refl _)
      all_goals contradiction
    | some bytes =>
      split at h
      · rename_i hop
        have hconnects := b.connects_serverHandshake codec hdl bytes hop
        rwa [Except.ok.inj h] at hconnects
      · rename_i hop
        have hconnects := b.connects_clientHandshake codec hdl bytes hop
        rwa [Except.ok.inj h] at hconnects
      · exact .kept (direct_routedMessage h)
      · exact .kept (direct_directMessage h)
      · have hb : (b.monitorMessage codec hdr bytes).1 = b' := by
          rw [Except.ok.inj h]
        rw [← hb, monitorMessage]
        split
        · exact .kept (.refl _)
        · split
          · exact .kept (b.frame_proxyAnnounced _ _).direct
          · exact .kept (b.frame_forward _ _ _).direct
      · have hb : (b.downMessage codec hdl hdr bytes).1 = b' := by
          rw [Except.ok.inj h]
        rw [← hb, downMessage]
        split
        · exact .kept (.refl _)
        · split
          · exact .kept (b.frame_loadActors _ _).direct
          · exact .kept ((b.frame_loadActors _ _).direct.trans
              (frame_proxyDown _ _ _ _ _ _).direct)
      · cases h
        exact .kept (.refl _)

theorem table_dropConnection (b : Broker υ ν) (hdl : ConnectionHandle) :
    (b.dropConnection hdl).table = (b.table.eraseDirect hdl).2 := by
  unfold dropConnection
  split
  · rename_i herase
    rw [herase]
  · rename_i herase
    rw [herase]
    rfl

theorem table_connectionCleanup (b : Broker υ ν) (hdl : ConnectionHandle)
    (code : Sec) :
    (b.connectionCleanup hdl code).table = (b.table.eraseDirect hdl).2 := by
  have hdisconnect : (b.disconnect hdl code).table =
      (b.table.eraseDirect hdl).2 := by
    unfold disconnect
    split
    · rename_i herase
      rw [herase]
    · rename_i herase
      rw [herase]
      rfl
  rw [connectionCleanup, ← hdisconnect]
  unfold eraseContext
  split
  · rfl
  · rename_i context hcontext
    cases context.callback <;> rfl

theorem inverse_connectionCleanup (hb : b.table.Inverse)
    (hdl : ConnectionHandle) (code : Sec) :
    (b.connectionCleanup hdl code).table.Inverse := by
  rw [table_connectionCleanup]
  exact hb.eraseDirect hdl

def introduces (b : Broker υ ν) (codec : Codec υ ν) (hdl : ConnectionHandle)
    (buf : List Byte) : Option (NodeId υ) :=
  if (b.context hdl).state = .awaitPayload ∧
      buf.length = (b.context hdl).hdr.payloadLen.toNat then
    b.handshakeNode codec (b.context hdl).hdr buf
  else none

/--
The condition on the peers: a handshake that introduces a node comes over a
connection without direct entry.
-/
def freshHandshake (codec : Codec υ ν) (b : Broker υ ν) :
    BrokerAction υ → Bool
  | .newData hdl buf =>
    (b.introduces codec hdl buf).isNone ||
      (b.table.directByHdl.lookup hdl).isNone
  | _ => true

theorem Connects.inverse {node : Option (NodeId υ)}
    (h : b.Connects hdl node b') (hb : b.table.Inverse)
    (hfresh : ∀ nid, node = some nid →
      b.table.directByHdl.lookup hdl = none ∧
        b.table.directByNid.lookup nid = none) : b'.table.Inverse := by
  cases h with
  | kept h => exact h.inverse hb
  | added nid hnode h =>
    obtain ⟨hhdl, hnid⟩ := hfresh nid hnode
    exact h.inverse (hb.addDirect hhdl hnid)

section

variable (hb : b.table.Inverse)
include hb

theorem inverse_handleData {codec : Codec υ ν} {hdr hdr' : Header}
    {isPayload : Bool} {state : ConnectionState}
    (hfresh : isPayload = true → buf.length = hdr.payloadLen.toNat →
      b.handshakeNode codec hdr buf ≠ none → b.table.directByHdl.lookup hdl =
      none)
    (h : b.handleData codec hdl hdr isPayload buf = .ok (b', hdr', state)) :
    b'.table.Inverse := by
  have hdrop : (b.dropConnection hdl).table.Inverse := by
    rw [table_dropConnection]
    exact hb.eraseDirect hdl
  unfold handleData at h
  split at h
  · rename_i hpay
    split at h
    · cases h
      exact hdrop
    · rename_i hlen
      obtain ⟨result, hhandle, hres⟩ := ok_of_bind h
      cases hres
      -- The node is unknown by its own check, the handle by assumption.
      refine (connects_handle hhandle).inverse hb ?_
      intro nid hnid
      refine ⟨hfresh hpay (not_not.mp hlen) ?_,
        handshakeNode_unknown hnid⟩
      rw [show b.handshakeNode codec hdr buf = some nid from hnid]
      simp
  · split at h
    · cases h
      exact hdrop
    · split at h
      · cases h
        exact hdrop
      · split at h
        · cases h
          exact hb
        · obtain ⟨result, hhandle, hres⟩ := ok_of_bind h
          cases hres
          refine (connects_handle hhandle).inverse hb ?_
          intro nid hnid
          contradiction

theorem inverse_newData
    (hfresh : b.freshHandshake codec (.newData hdl buf) = true)
    (h : b.newData codec hdl buf = .ok b') : b'.table.Inverse := by
  unfold newData at h
  obtain ⟨⟨c, hdr, next⟩, hdata, hres⟩ := ok_of_bind h
  cases hres
  have hc : c.table.Inverse := by
    have hset : (b.setContext hdl).table.Inverse := hb
    refine inverse_handleData hset ?_ hdata
    intro hpay hlen hnode
    have hintroduces : b.introduces codec hdl buf ≠ none := by
      rw [introduces, if_pos ⟨of_decide_eq_true hpay, hlen⟩]
      exact hnode
    change b.table.directByHdl.lookup hdl = none
    simpa [freshHandshake, hintroduces] using hfresh
  unfold proceed
  split
  · exact inverse_connectionCleanup hc hdl next.toSec
  · exact hc

theorem inverse_tick (silent : List ConnectionHandle) :
    (b.tick silent).table.Inverse := by
  have hcleanup : ∀ (hdls : List ConnectionHandle) (b : Broker υ ν),
      b.table.Inverse → (hdls.foldl (fun b hdl =>
        (b.connectionCleanup hdl .connectionTimeout).emit (.closed hdl))
        b).table.Inverse := by
    intro hdls
    induction hdls with
    | nil => exact fun _ hb => hb
    | cons hdl hdls ih =>
      intro b hb
      apply ih
      exact inverse_connectionCleanup hb hdl .connectionTimeout
  apply hcleanup
  have hbeats : b.Frame (b.table.directByHdl.keys.foldl
      (fun b hdl => b.emit (.heartbeat hdl)) b) :=
    frame_foldl (fun b hdl => b.frame_emit _) _ b
  exact hbeats.direct.inverse hb

theorem inverse_receive (content : Content υ ν) :
    (b.receive content).table.Inverse := by
  cases content with
  | message => exact hb
  | deleteProxy => exact hb
  | deleteConnection hdl => exact inverse_connectionCleanup hb hdl .none

theorem step_inverse {action : BrokerAction υ}
    (hfresh : b.freshHandshake codec action = true)
    (hstep : b.step codec action = some b') : b'.table.Inverse := by
  cases action with
  | connect hdl | register aid | unregister aid =>
    cases hstep
    exact hb
  | newData hdl buf =>
    exact inverse_newData hb hfresh (toOption_eq_some hstep)
  | connectionClosed hdl =>
    cases hstep
    exact (frame_pushMessage _ _ _).direct.inverse hb
  | receive =>
    simp only [step] at hstep
    split at hstep
    · contradiction
    · rename_i content inbox hinbox
      cases hstep
      have hrest : { b with inbox }.table.Inverse := hb
      exact inverse_receive hrest content
  | work i =>
    simp only [step] at hstep
    split at hstep
    · contradiction
    · have hframe := frame_handleRemoteMessage (toOption_eq_some hstep)
      exact hframe.direct.inverse hb
  | tick silent =>
    cases hstep
    exact inverse_tick hb silent
  | dispatch dest =>
    cases hstep
    exact (b.frame_dispatch dest).direct.inverse hb

end

theorem basp_direct_routes_inverse (codec : Codec υ ν)
    (thisNode : NodeData υ) (appIdentifiers : List (List Byte))
    (automaticConnections configServ spawnServ : Bool)
    (registry : List ActorId) (workers : Nat)
    (actions : List (BrokerAction υ)) {b : Broker υ ν}
    (hfresh : Along (step codec)
      (fun b action => b.freshHandshake codec action = true)
      (initial thisNode appIdentifiers automaticConnections configServ
        spawnServ registry workers) actions)
    (hrun : exec (step codec)
      (initial thisNode appIdentifiers automaticConnections configServ
        spawnServ registry workers) actions = some b) :
    (∀ hdl nid, b.table.directByHdl.lookup hdl = some nid ↔
      b.table.directByNid.lookup nid = some hdl) ∧
    ∀ hdl nid,
      (b.table.eraseDirect hdl).2.directByNid.lookup nid ≠ some hdl := by
  have hinverse : b.table.Inverse :=
    exec_invariant_along (fun b => b.table.Inverse)
      (fun b action b' hb hguard hstep => step_inverse hb hguard hstep)
      RoutingTable.inverse_empty hfresh hrun
  exact ⟨hinverse, hinverse.erased⟩

def plainCodec : Codec Unit Unit := ⟨failure, fun _ => none, 1, 2, 3⟩

def hashedNode (x : Byte) : NodeData Unit :=
  .hashed 0 (List.replicate 20 x)

def nodeBytes (x : Byte) : List Byte :=
  [1#8, 0#8, 0#8, 0#8, 0#8] ++ List.replicate 20 x

def clientHeader : List Byte :=
  [1#8, 0#8, 0#8, 0#8, 0#8, 0#8, 0#8, 25#8] ++ List.replicate 24 0#8

def introduce (hdl : ConnectionHandle) (x : Byte) : List (BrokerAction Unit) :=
  [.newData hdl clientHeader, .newData hdl (nodeBytes x)]

def soleBroker : Broker Unit Unit :=
  initial (hashedNode 0) [] false false false [] 1

theorem basp_direct_routes_inverse_neighbors :
    ∃ b, exec (step plainCodec) soleBroker
        (introduce 1 7 ++ introduce 2 8) = some b ∧
      b.table.directByHdl.lookup 2 = some (some (hashedNode 8)) ∧
      b.table.directByNid.lookup (some (hashedNode 8)) = some 2 :=
  ⟨_, rfl, rfl, ((basp_direct_routes_inverse plainCodec (hashedNode 0) []
    false false false [] 1 (introduce 1 7 ++ introduce 2 8) (by decide)
    rfl).1 2 (some (hashedNode 8))).mp rfl⟩

theorem basp_second_handshake_breaks_routes :
    ∃ b, exec (step plainCodec) soleBroker
        (introduce 1 7 ++ introduce 1 8) = some b ∧
      b.table.directByNid.lookup (some (hashedNode 8)) = some 1 ∧
      b.table.directByHdl.lookup 1 ≠ some (some (hashedNode 8)) ∧
      (b.table.eraseDirect 1).2.directByNid.lookup
        (some (hashedNode 8)) = some 1 :=
  ⟨_, rfl, rfl, by decide, rfl⟩

end Broker

end ActorFramework.Io.Basp
