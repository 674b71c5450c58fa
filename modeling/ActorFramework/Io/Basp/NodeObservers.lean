import ActorFramework.Io.Basp.FramesRead

/-!
# Observers of nodes

An actor asks the broker to tell it when the connection to a node is lost.  The
broker calls `emit_node_down_msg` where its model has a `nodeDown` event, and
nothing else in a step of the broker looks at the observers.
-/

namespace ActorFramework.Io.Basp

open ActorFramework.Core Foundation List

variable {υ ν : Type}

inductive DownReason where
  | code (code : Sec)
  | noContext

structure NodeDownMsg (υ : Type) where
  observer : ActorId
  node : NodeData υ
  reason : DownReason

/-- `expired` has the actors that are gone, `sent` all messages so far. -/
structure Observed (υ ν : Type) where
  broker : Broker υ ν
  nodeObservers : AList fun _ : NodeData υ => List ActorId
  expired : List ActorId
  sent : List (NodeDownMsg υ)

inductive ObservedAction (υ : Type) where
  | broker (action : BrokerAction υ)
  | monitor (node : NodeData υ) (observer : ActorId)
  | demonitor (node : NodeData υ) (observer : ActorId)
  | expire (actor : ActorId)

namespace Observed

variable [DecidableEq υ]

variable (o : Observed υ ν)

def observers (node : NodeData υ) : List ActorId :=
  (o.nodeObservers.lookup node).getD []

def send (node : NodeData υ) (reason : DownReason)
    (observer : ActorId) : Observed υ ν :=
  if observer ∈ o.expired then o
  else { o with sent := o.sent ++ [⟨observer, node, reason⟩] }

def emitNodeDownMsg (node : NodeData υ) (reason : DownReason) : Observed υ ν :=
  match o.nodeObservers.lookup node with
  | none => o
  | some observers =>
    let o := observers.foldl (fun o observer => o.send node reason observer) o
    { o with nodeObservers := o.nodeObservers.erase node }

def notify : Event υ ν → Observed υ ν
  | .nodeDown node code => o.emitNodeDownMsg node (.code code)
  | _ => o

def monitor (node : NodeData υ) (observer : ActorId) :
    Observed υ ν :=
  match o.nodeObservers.lookup node with
  | some observers =>
    { o with
      nodeObservers := o.nodeObservers.insert node (observers ++ [observer]) }
  | none =>
    match o.broker.table.lookup (some node) with
    | (none, table) =>
      send { o with broker := { o.broker with table } } node .noContext observer
    | (some _, table) =>
      { o with
        broker := { o.broker with table }
        nodeObservers := o.nodeObservers.insert node [observer] }

def demonitor (node : NodeData υ) (observer : ActorId) :
    Observed υ ν :=
  match o.nodeObservers.lookup node with
  | none => o
  | some observers =>
    if observers.erase observer = [] then
      { o with nodeObservers := o.nodeObservers.erase node }
    else
      { o with
        nodeObservers :=
          o.nodeObservers.insert node (observers.erase observer) }

def step (codec : Codec υ ν) (o : Observed υ ν) :
    ObservedAction υ → Option (Observed υ ν)
  | .broker action =>
    (Broker.step codec { o.broker with events := [] } action).map fun b =>
      b.events.foldl notify { o with broker := b }
  | .monitor node observer => some (o.monitor node observer)
  | .demonitor node observer => some (o.demonitor node observer)
  | .expire actor => some { o with expired := actor :: o.expired }

def told (messages : List (NodeDownMsg υ)) (node : NodeData υ) : List ActorId :=
  (messages.filter fun m => m.node = node).map NodeDownMsg.observer

def alive (o : Observed υ ν) (observers : List ActorId) : List ActorId :=
  observers.filter fun observer => observer ∉ o.expired

omit [DecidableEq υ] in
theorem foldl_send (o : Observed υ ν) (node : NodeData υ)
    (reason : DownReason) (observers : List ActorId) :
    observers.foldl (fun o => o.send node reason) o =
      { o with
        sent := o.sent ++ (o.alive observers).map fun observer =>
          ⟨observer, node, reason⟩ } := by
  induction observers generalizing o with
  | nil => simp [alive]
  | cons observer observers ih =>
    rw [foldl_cons, ih, send]
    split_ifs with hexpired
    · simp [alive, hexpired]
    · simp [alive, hexpired]

theorem told_append (messages messages' : List (NodeDownMsg υ))
    (node : NodeData υ) :
    told (messages ++ messages') node =
      told messages node ++ told messages' node := by
  simp [told]

structure Tells (o o' : Observed υ ν) (node : NodeData υ) (lost : Prop) :
    Prop where
  broker : o'.broker = o.broker
  expired : o'.expired = o.expired
  news : ∃ news, o'.sent = o.sent ++ news ∧
    (lost → told news node = o.alive (o.observers node)) ∧
      (¬lost → told news node = [])
  observers : (lost → o'.observers node = []) ∧
    (¬lost → o'.observers node = o.observers node)

theorem tells_nothing (o : Observed υ ν) (node : NodeData υ) {lost : Prop}
    (h : ¬lost) : o.Tells o node lost :=
  ⟨rfl, rfl, ⟨[], (append_nil _).symm, fun hlost => absurd hlost h,
    fun _ => rfl⟩, fun hlost => absurd hlost h, fun _ => rfl⟩

theorem tells_emit (o : Observed υ ν) (node other : NodeData υ)
    (reason : DownReason) :
    o.Tells (o.emitNodeDownMsg other reason) node (other = node) := by
  unfold emitNodeDownMsg
  split
  · rename_i hnone
    refine ⟨rfl, rfl, ⟨[], (append_nil _).symm, ?_, fun _ => rfl⟩, ?_,
      fun _ => rfl⟩
    · rintro rfl
      simp [observers, hnone, alive, told]
    · rintro rfl
      simp [observers, hnone]
  · rename_i list hsome
    rw [foldl_send]
    refine ⟨rfl, rfl, ⟨_, rfl, ?_, fun hne => by simp [told, hne]⟩, ?_, ?_⟩
    · rintro rfl
      simp [told, observers, hsome, filter_map, Function.comp_def]
    · rintro rfl
      simp [observers]
    · intro hne
      simp only [observers]
      rw [AList.lookup_erase_ne (Ne.symm hne)]

theorem Tells.trans {o o' o'' : Observed υ ν} {node : NodeData υ}
    {lost lost' : Prop} (h : o.Tells o' node lost)
    (h' : o'.Tells o'' node lost') : o.Tells o'' node (lost ∨ lost') := by
  obtain ⟨news, hsent, htold, hquiet⟩ := h.news
  obtain ⟨news', hsent', htold', hquiet'⟩ := h'.news
  refine ⟨h'.broker.trans h.broker, h'.expired.trans h.expired,
    ⟨news ++ news', by rw [hsent', hsent, append_assoc], ?_, ?_⟩, ?_, ?_⟩
  · intro hlost
    rw [told_append]
    by_cases hfirst : lost
    · -- The second round finds no observers any more.
      have hnone : told news' node = [] := by
        by_cases hsecond : lost'
        · rw [htold' hsecond, h.observers.1 hfirst]
          rfl
        · exact hquiet' hsecond
      rw [htold hfirst, hnone, append_nil]
    · have hsecond := hlost.resolve_left hfirst
      rw [hquiet hfirst, htold' hsecond, h.observers.2 hfirst,
        nil_append, alive, alive, h.expired]
  · intro hkept
    rw [told_append, hquiet fun hl => hkept (.inl hl),
      hquiet' fun hl => hkept (.inr hl), nil_append]
  · intro hlost
    by_cases hsecond : lost'
    · exact h'.observers.1 hsecond
    · rw [h'.observers.2 hsecond, h.observers.1 (hlost.resolve_right hsecond)]
  · intro hkept
    rw [h'.observers.2 fun hl => hkept (.inr hl),
      h.observers.2 fun hl => hkept (.inl hl)]

def IsDown (node : NodeData υ) : Event υ ν → Prop
  | .nodeDown other _ => other = node
  | _ => False

theorem tells_notify (o : Observed υ ν) (node : NodeData υ)
    (event : Event υ ν) :
    o.Tells (o.notify event) node (IsDown node event) := by
  cases event with
  | nodeDown other code => exact tells_emit o node other (.code code)
  | _ => exact tells_nothing o node id

theorem tells_events (o : Observed υ ν) (node : NodeData υ)
    (events : List (Event υ ν)) :
    o.Tells (events.foldl notify o) node (∃ e ∈ events, IsDown node e) := by
  induction events generalizing o with
  | nil => exact tells_nothing o node (by simp)
  | cons event events ih =>
    have hall := (tells_notify o node event).trans (ih (o.notify event))
    simpa using hall

end Observed

namespace Broker

open Observed

/-- The new data is rejected by `instance::handle` itself, which removes the
connection from the routing table on its own. -/
def Malformed (b : Broker υ ν) : BrokerAction υ → Prop
  | .newData hdl buf => (b.endpoint hdl).receive buf = .malformed
  | _ => False

instance Malformed.decidable (b : Broker υ ν) :
    (action : BrokerAction υ) → Decidable (b.Malformed action)
  | .newData hdl buf =>
    inferInstanceAs (Decidable ((b.endpoint hdl).receive buf = .malformed))
  | .connect _ | .connectionClosed _ | .receive | .work _ | .tick _
  | .dispatch _ | .register _ | .unregister _ => .isFalse id

structure Announces (b b' : Broker υ ν) : Prop where
  events : ∀ e ∈ b.events, e ∈ b'.events
  lost : ∀ hdl node, b.table.directByHdl.lookup hdl = some (some node) →
    b'.table.directByHdl.lookup hdl = some (some node) ∨
      ∃ e ∈ b'.events, IsDown node e

variable {b b' : Broker υ ν} {hdl : ConnectionHandle} {codec : Codec υ ν}

theorem Announces.trans {a c : Broker υ ν} (hab : a.Announces b)
    (hbc : b.Announces c) : a.Announces c := by
  refine ⟨fun e he => hbc.events e (hab.events e he), ?_⟩
  intro hdl node hnode
  rcases hab.lost hdl node hnode with hkept | ⟨e, he, hdown⟩
  · exact hbc.lost hdl node hkept
  · exact .inr ⟨e, hbc.events e he, hdown⟩

theorem announces_same (hevs : b'.events = b.events)
    (htable : b'.table = b.table) : b.Announces b' := by
  refine ⟨fun e he => hevs ▸ he, fun hdl node hnode => .inl ?_⟩
  rw [htable]
  exact hnode

theorem announces_emit (b : Broker υ ν) (event : Event υ ν) :
    b.Announces (b.emit event) :=
  ⟨fun _ he => mem_append_left _ he, fun _ _ hnode => .inl hnode⟩

variable [DecidableEq υ]

theorem announces_disconnect (b : Broker υ ν) (hdl : ConnectionHandle)
    (code : Sec) : b.Announces (b.disconnect hdl code) := by
  unfold disconnect RoutingTable.eraseDirect
  split
  · rename_i table herase
    refine ⟨fun _ he => he, fun hdl' node hnode => .inl ?_⟩
    split at herase
    · cases herase
      exact hnode
    · -- A connection without node ID is removed in silence.
      rename_i nid hnid
      cases herase
      have hne : hdl' ≠ hdl := by
        rintro rfl
        rw [hnid] at hnode
        cases hnode
      exact (AList.lookup_erase_ne hne).trans hnode
  · rename_i nid table herase
    split at herase
    · cases herase
    · rename_i nid' hnid
      cases herase
      refine ⟨fun e he => ?_, fun hdl' node hnode => ?_⟩
      · exact mem_append_left _ (mem_append_left _ he)
      · by_cases heq : hdl' = hdl
        · subst heq
          rw [hnid] at hnode
          cases hnode
          exact .inr ⟨.nodeDown nid code, mem_append_left _
            (mem_append_right _ mem_cons_self), rfl⟩
        · exact .inl ((AList.lookup_erase_ne heq).trans hnode)

theorem announces_cleanup (b : Broker υ ν) (hdl : ConnectionHandle)
    (code : Sec) : b.Announces (b.connectionCleanup hdl code) := by
  refine (b.announces_disconnect hdl code).trans ?_
  rw [connectionCleanup]
  unfold eraseContext
  split
  · exact announces_same rfl rfl
  · rename_i context hcontext
    cases context.callback with
    | false => exact announces_same rfl rfl
    | true => exact (announces_emit _ _).trans (announces_same rfl rfl)

theorem announces_close (b : Broker υ ν) (hdl : ConnectionHandle) (code : Sec) :
    b.Announces ((b.connectionCleanup hdl code).emit (.closed hdl)) :=
  (b.announces_cleanup hdl code).trans (announces_emit _ _)

omit [DecidableEq υ] in
theorem announces_of_direct (hevs : b.events = [])
    (h : b.table.SameDirect b'.table) : b.Announces b' := by
  refine ⟨by simp [hevs], fun hdl node hnode => .inl ?_⟩
  rw [h.1]
  exact hnode

theorem Connects.announces {node : Option (NodeId υ)}
    (hevs : b.events = []) (h : b.Connects hdl node b') :
    b.Announces b' := by
  cases h with
  | kept h => exact announces_of_direct hevs h
  | added nid hnode h =>
    refine ⟨by simp [hevs], fun hdl' node' hnode' => .inl ?_⟩
    rw [h.1]
    change (emplace b.table.directByHdl hdl nid).lookup hdl' = _
    unfold emplace
    split
    · exact hnode'
    · rename_i hnone
      have hne : hdl' ≠ hdl := by
        rintro rfl
        rw [hnone] at hnode'
        cases hnode'
      exact (AList.lookup_insert_ne hne).trans hnode'

theorem announces_proceed (b : Broker υ ν) (hdl : ConnectionHandle)
    (hdr : Header) (next : ConnectionState) :
    b.Announces (b.proceed hdl hdr next) := by
  unfold proceed
  split
  · exact b.announces_close hdl next.toSec
  · exact announces_same rfl rfl

theorem announces_newData {buf : List Byte} (hevs : b.events = [])
    (hwell : (b.endpoint hdl).receive buf ≠ .malformed)
    (h : b.newData codec hdl buf = .ok b') : b.Announces b' := by
  have hset : b.Announces (b.setContext hdl) := announces_same rfl rfl
  cases hreceive : (b.endpoint hdl).receive buf with
  | malformed => contradiction
  | await hdr =>
    rw [newData_await hreceive] at h
    cases h
    exact hset.trans (announces_proceed _ _ _ _)
  | message hdr payload =>
    rw [newData_message hreceive] at h
    obtain ⟨⟨c, next⟩, hhandle, hproceed⟩ := ok_of_bind h
    cases hproceed
    have hconnects := Connects.announces
      (show (b.setContext hdl).events = [] from hevs)
      (connects_handle hhandle)
    exact hset.trans (hconnects.trans (announces_proceed _ _ _ _))

theorem announces_tick (silent : List ConnectionHandle) :
    b.Announces (b.tick silent) := by
  have hfold : ∀ {τ : Type} {f : Broker υ ν → τ → Broker υ ν},
      (∀ (b : Broker υ ν) (x : τ), b.Announces (f b x)) →
        ∀ (xs : List τ) (b : Broker υ ν), b.Announces (xs.foldl f b) := by
    intro τ f hf xs
    induction xs with
    | nil => exact fun b => announces_same rfl rfl
    | cons x xs ih => exact fun b => (hf b x).trans (ih (f b x))
  exact (hfold (fun b hdl => announces_emit b (.heartbeat hdl)) _ b).trans
    (hfold (fun b hdl => announces_close b hdl .connectionTimeout) _ _)

theorem announces_step {action : BrokerAction υ} (hevs : b.events = [])
    (hwell : ¬b.Malformed action) (hstep : b.step codec action = some b') :
    b.Announces b' := by
  have hok : ∀ {x : Except Fault (Broker υ ν)}, x.toOption = some b' →
      x = .ok b' := by
    intro x hx
    cases x with
    | error fault => cases hx
    | ok c =>
      cases hx
      rfl
  cases action with
  | connect hdl | register aid | unregister aid =>
    cases hstep
    exact announces_of_direct hevs (.refl _)
  | newData hdl buf => exact announces_newData hevs hwell (hok hstep)
  | connectionClosed hdl =>
    cases hstep
    exact announces_of_direct hevs (frame_pushMessage _ _ _).direct
  | receive =>
    simp only [step] at hstep
    split at hstep
    · contradiction
    · rename_i content inbox hinbox
      cases hstep
      cases content with
      | message | deleteProxy => exact announces_of_direct hevs (.refl _)
      | deleteConnection hdl =>
        have hinbox : b.Announces { b with inbox } := announces_same rfl rfl
        exact hinbox.trans (announces_cleanup _ hdl .none)
  | work i =>
    simp only [step] at hstep
    split at hstep
    · contradiction
    · have hframe := frame_handleRemoteMessage (hok hstep)
      exact announces_of_direct hevs hframe.direct
  | tick silent =>
    cases hstep
    exact announces_tick silent
  | dispatch dest =>
    cases hstep
    exact announces_of_direct hevs (b.frame_dispatch dest).direct

end Broker

namespace Observed

variable [DecidableEq υ]

/-- A step that removes the connection to a node tells the observers of this
node, each as often as it monitors the node, and forgets them. -/
theorem node_down_for_each_monitor (codec : Codec υ ν) {o o' : Observed υ ν}
    {action : BrokerAction υ} (hstep : o.step codec (.broker action) = some o')
    (hwell : ¬o.broker.Malformed action) {hdl : ConnectionHandle}
    {node : NodeData υ}
    (hnode : o.broker.table.directByHdl.lookup hdl = some (some node))
    (hremoved : o'.broker.table.directByHdl.lookup hdl ≠ some (some node)) :
    ∃ news, o'.sent = o.sent ++ news ∧
      told news node = o.alive (o.observers node) ∧
      o'.observers node = [] := by
  simp only [step, Option.map_eq_some_iff] at hstep
  obtain ⟨b, hb, rfl⟩ := hstep
  have htells := tells_events { o with broker := b } node b.events
  have hwell' : ¬Broker.Malformed { o.broker with events := [] } action := by
    cases action <;> exact hwell
  have hannounces := Broker.announces_step rfl hwell' hb
  have hlost : ∃ e ∈ b.events, IsDown node e := by
    rcases hannounces.lost hdl node hnode with hkept | hdown
    · rw [htells.broker] at hremoved
      exact absurd hkept hremoved
    · exact hdown
  obtain ⟨news, hsent, htold, -⟩ := htells.news
  exact ⟨news, hsent, htold hlost, htells.observers.1 hlost⟩

def soleObserved : Observed Unit Unit := ⟨Broker.soleBroker, ∅, [], []⟩

def monitored (times : Nat) : List (ObservedAction Unit) :=
  (Broker.introduce 1 7).map .broker ++
    List.replicate times (.monitor (Broker.hashedNode 7) 5)

def afterMonitors (times : Nat) : Observed Unit Unit :=
  (exec (step Broker.plainCodec) soleObserved (monitored times)).getD
    soleObserved

theorem node_down_for_each_monitor_timeout :
    ∃ o', (afterMonitors 1).step Broker.plainCodec (.broker (.tick [1])) =
        some o' ∧
      ∃ news, o'.sent = (afterMonitors 1).sent ++ news ∧
        told news (Broker.hashedNode 7) = [5] ∧
        o'.observers (Broker.hashedNode 7) = [] := by
  refine ⟨_, rfl, ?_⟩
  exact @node_down_for_each_monitor Unit Unit _ Broker.plainCodec
    (afterMonitors 1) _ (.tick [1]) rfl id 1 (Broker.hashedNode 7) rfl
    (fun h => by cases h)

/-- An actor that monitors a node twice gets two messages, and for an invalid
header it gets none although the connection is removed. -/
theorem node_down_twice_or_never :
    (∃ o, exec (step Broker.plainCodec) soleObserved
        (monitored 2 ++ [.broker (.tick [1])]) = some o ∧
      told o.sent (Broker.hashedNode 7) = [5, 5]) ∧
    ∃ o', (afterMonitors 1).step Broker.plainCodec
          (.broker (.newData 1 (List.replicate 32 255#8))) = some o' ∧
      (afterMonitors 1).broker.table.directByHdl.lookup 1 =
        some (some (Broker.hashedNode 7)) ∧
      o'.broker.table.directByHdl.lookup 1 = none ∧ o'.sent = [] :=
  ⟨⟨_, rfl, rfl⟩, _, rfl, rfl, rfl, rfl⟩

end Observed

end ActorFramework.Io.Basp
