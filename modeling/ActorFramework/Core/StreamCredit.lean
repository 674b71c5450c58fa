import ActorFramework.Core.StreamBridge

/-!
# The credit of a stream

Without cancellation, `in_flight_batches_` is the credit between the two actors
until the source ends: in demand messages, unused at the source, or turned into
batches that are under way.  A demand message has 32 bits, so credit is lost if
the sink wants to grant more than that at once.
-/

namespace ActorFramework.Core

open Foundation List Option ToSink Bool

variable {τ : Type*} {cfg : StreamConfig}

def ToSource.credit : ToSource → Nat
  | .demand true newDemand => newDemand
  | _ => 0

def creditOf (msgs : List ToSource) : Nat := (msgs.map ToSource.credit).sum

@[simp] theorem creditOf_nil : creditOf [] = 0 := rfl

@[simp] theorem creditOf_cons (msg : ToSource) (msgs : List ToSource) :
    creditOf (msg :: msgs) = msg.credit + creditOf msgs := by
  simp [creditOf]

@[simp] theorem creditOf_append (xs ys : List ToSource) :
    creditOf (xs ++ ys) = creditOf xs + creditOf ys := by
  simp [creditOf]

def ToSink.input : ToSink τ → Option τ
  | .batch input => some input
  | _ => none

def ToSink.isAck : ToSink τ → Bool
  | .ack _ => true
  | _ => false

def ToSink.isLast : ToSink τ → Bool
  | .close => true
  | .abort _ => true
  | _ => false

def inputsOf (msgs : List (ToSink τ)) : List τ := msgs.filterMap ToSink.input

@[simp] theorem inputsOf_nil : inputsOf ([] : List (ToSink τ)) = [] := rfl

@[simp] theorem inputsOf_append (xs ys : List (ToSink τ)) :
    inputsOf (xs ++ ys) = inputsOf xs ++ inputsOf ys :=
  filterMap_append

@[simp] theorem inputsOf_cons (msg : ToSink τ) (msgs : List (ToSink τ)) :
    inputsOf (msg :: msgs) = msg.input.toList ++ inputsOf msgs := by
  cases msg <;> rfl

theorem sizeSub_of_le {a b : Nat} (hle : b ≤ a) (hlt : a < 2 ^ 64) :
    sizeSub a b = a - b := by
  unfold sizeSub
  omega

namespace StreamBridgeSub

/-- Every amount the sink grants at once fits into a demand message. -/
def Fits (cfg : StreamConfig) : Prop :=
  cfg.announced = 0 ∨ batchLimit cfg cfg.announced < 2 ^ 32

instance (cfg : StreamConfig) : Decidable (Fits cfg) :=
  inferInstanceAs (Decidable (_ ∨ _))

theorem batchLimit_pos (cfg : StreamConfig) (m : Nat) : 0 < batchLimit cfg m :=
  Nat.lt_of_lt_of_le (by decide) (Nat.le_max_left minBatchBuffering _)

theorem batchLimit_lt (cfg : StreamConfig) (m : Nat) :
    batchLimit cfg m < 2 ^ 64 := by
  refine Nat.max_lt.mpr ⟨by decide, ?_⟩
  exact Nat.lt_of_le_of_lt (Nat.div_le_self _ m) cfg.capacity_lt

theorem batchThreshold_le (m : Nat)
    (hle : cfg.requestThreshold ≤ cfg.bufCapacity) :
    batchThreshold cfg m ≤ batchLimit cfg m := by
  have hdiv := Nat.div_le_div_right (c := m) hle
  have hmin : minBatchRequestThreshold ≤ minBatchBuffering := by decide
  unfold batchThreshold batchLimit
  omega

structure SinkOk (cfg : StreamConfig) (s : StreamBridgeSub τ) : Prop where
  fresh : s.initialized = false →
    s.inFlightBatches = 0 ∧ s.buf = [] ∧ s.pc = .idle ∧ s.pushes = 0
  setup : s.initialized = true →
    cfg.announced ≠ 0 ∧ s.maxInFlightBatches = batchLimit cfg cfg.announced ∧
      s.lowBatchesThreshold = batchThreshold cfg cfg.announced
  bounded : s.inFlightBatches + s.buf.length ≤ s.maxInFlightBatches
  supplied : cfg.requestThreshold ≤ cfg.bufCapacity →
    s.initialized = true → s.pc = .idle →
      0 < s.inFlightBatches + s.buf.length
  active : s.pc ≠ .idle → s.initialized = true ∧ s.registered = true
  source : s.hasSrc = false → s.registered = false ∨ cfg.announced = 0
  drops : 0 < s.drops → cfg.announced = 0

/-- The handler found `before` batches in flight, took `received` from the
channel and sent the messages `result.2`. -/
structure SinkStep (cfg : StreamConfig) (received before : Nat)
    (result : StreamBridgeSub τ × List ToSource) : Prop where
  ok : SinkOk cfg result.1
  ledger : ∃ lost,
    result.1.inFlightBatches + received =
        before + creditOf result.2 + lost ∧
      (Fits cfg → lost = 0)

/-- A step of a bridge that stays as set up and registered as it is. -/
structure SinkMove (cfg : StreamConfig) (received : Nat)
    (s : StreamBridgeSub τ) (result : StreamBridgeSub τ × List ToSource) :
    Prop extends SinkStep cfg received s.inFlightBatches result where
  initialized : result.1.initialized = s.initialized
  registered : result.1.registered = s.registered

variable {s : StreamBridgeSub τ}

theorem SinkOk.initialized_of_pos (hs : SinkOk cfg s)
    (hpos : 0 < s.inFlightBatches + s.pushes) : s.initialized = true := by
  rw [← not_eq_false]
  intro hnot
  obtain ⟨hflight, _, _, hpushes⟩ := hs.fresh hnot
  omega

theorem SinkOk.not_initialized (hs : SinkOk cfg s) (hzero : cfg.announced = 0) :
    s.initialized = false := by
  rw [← not_eq_true]
  exact fun hinit => (hs.setup hinit).1 hzero

theorem SinkOk.hasSrc (hs : SinkOk cfg s) (hinit : s.initialized = true)
    (hreg : s.registered = true) : s.hasSrc = true := by
  rw [← not_eq_false]
  intro hnone
  rcases hs.source hnone with hgone | hzero
  · rw [hreg] at hgone
    cases hgone
  · exact (hs.setup hinit).1 hzero

theorem onNext_eq (s : StreamBridgeSub τ) (input : τ) :
    ∃ events, s.onNext input = { s with events := events } := by
  unfold onNext
  split
  · exact ⟨_, rfl⟩
  · exact ⟨s.events, rfl⟩

theorem finish_eq (s : StreamBridgeSub τ) (event : StreamEvent τ) :
    ∃ hasOut events,
      s.finish event = { s with hasOut := hasOut, events := events } := by
  unfold finish
  split
  · exact ⟨_, _, rfl⟩
  · exact ⟨s.hasOut, s.events, rfl⟩

/-- The sink asks for everything it has room for, or it has less room than the
threshold and therefore something left. -/
theorem doCheckCredit_eq (hinit : s.initialized = true) (hsrc : s.hasSrc = true)
    (hann : cfg.announced ≠ 0)
    (hmax : s.maxInFlightBatches = batchLimit cfg cfg.announced)
    (hlow : s.lowBatchesThreshold = batchThreshold cfg cfg.announced)
    (hbound : s.inFlightBatches + s.buf.length ≤ s.maxInFlightBatches) :
    ∃ granted msgs,
      s.doCheckCredit =
          ({ s with inFlightBatches := s.inFlightBatches + granted }, msgs) ∧
        s.inFlightBatches + granted + s.buf.length ≤ s.maxInFlightBatches ∧
        (cfg.requestThreshold ≤ cfg.bufCapacity →
          0 < s.inFlightBatches + granted + s.buf.length) ∧
        ∃ lost, granted = creditOf msgs + lost ∧ (Fits cfg → lost = 0) := by
  have hpos := batchLimit_pos cfg cfg.announced
  have hlt := batchLimit_lt cfg cfg.announced
  have hcap :
      sizeSub (sizeSub s.maxInFlightBatches s.inFlightBatches)
        s.buf.length =
        s.maxInFlightBatches - s.inFlightBatches - s.buf.length := by
    have hfirst : sizeSub s.maxInFlightBatches s.inFlightBatches =
        s.maxInFlightBatches - s.inFlightBatches :=
      sizeSub_of_le (by omega) (by omega)
    rw [hfirst]
    exact sizeSub_of_le (by omega) (by omega)
  simp only [doCheckCredit, hcap]
  split
  · refine ⟨_, _, rfl, by omega, fun _ => by omega,
      s.maxInFlightBatches - s.inFlightBatches - s.buf.length -
        (s.maxInFlightBatches - s.inFlightBatches - s.buf.length) % 2 ^ 32,
      ?_, ?_⟩
    · simp only [send, hsrc, hinit, if_true, creditOf_cons, creditOf_nil,
        ToSource.credit]
      omega
    · intro hfits
      have hshort := hfits.resolve_left hann
      rw [Nat.mod_eq_of_lt (by omega), Nat.sub_self]
  · refine ⟨0, [], rfl, by omega, fun hle => ?_, 0, rfl, fun _ => rfl⟩
    have hthreshold := batchThreshold_le cfg.announced hle
    omega

section

variable (hs : SinkOk cfg s)
include hs

theorem checkCredit_step (hinit : s.initialized = true)
    (hreg : s.registered = true) :
    SinkMove cfg 0 s ({ s with pc := .idle }.doCheckCredit) := by
  have hsrc := hs.hasSrc hinit hreg
  obtain ⟨hann, hmax, hlow⟩ := hs.setup hinit
  obtain ⟨granted, msgs, heq, hbound, hpos, lost, hlost, hfits⟩ :=
    @doCheckCredit_eq τ cfg { s with pc := .idle } hinit hsrc hann
      hmax hlow hs.bounded
  rw [heq]
  refine ⟨⟨⟨fun hnot => absurd hinit (ne_true_of_eq_false hnot), hs.setup,
    hbound, fun hle _ _ => hpos hle, fun hbusy => absurd rfl hbusy,
    hs.source, hs.drops⟩, lost, ?_, hfits⟩, rfl, rfl⟩
  · change s.inFlightBatches + granted + 0 =
      s.inFlightBatches + creditOf msgs + lost
    omega

theorem push_step (hinit : s.initialized = true) (hreg : s.registered = true) :
    SinkMove cfg 0 s s.push := by
  unfold push
  split
  · exact checkCredit_step hs hinit hreg
  · rename_i input rest hbuf
    split
    · obtain ⟨events, hnext⟩ :=
        onNext_eq { s with demand := s.demand - 1, pc := .inPush } input
      rw [hnext]
      exact ⟨⟨⟨fun hnot => absurd hinit (ne_true_of_eq_false hnot), hs.setup,
        hs.bounded, nofun, fun _ => ⟨hinit, hreg⟩, hs.source,
        hs.drops⟩, 0, rfl, fun _ => rfl⟩, rfl, rfl⟩
    · exact checkCredit_step hs hinit hreg

theorem ret_step {result : StreamBridgeSub τ × List ToSource}
    (hret : s.ret = some result) : SinkMove cfg 0 s result := by
  have hbound := hs.bounded
  unfold ret at hret
  split at hret
  · cases hret
  · rename_i hpc
    cases hret
    obtain ⟨hinit, hreg⟩ := hs.active (by rw [hpc]; nofun)
    exact checkCredit_step hs hinit hreg
  · rename_i hpc
    cases hret
    obtain ⟨hinit, hreg⟩ := hs.active (by rw [hpc]; nofun)
    have htail : SinkOk cfg { s with buf := s.buf.tail } := by
      refine { hs with
        fresh := fun hnot => absurd hinit (ne_true_of_eq_false hnot)
        bounded := ?_
        supplied := ?_ }
      · change s.inFlightBatches + s.buf.tail.length ≤ s.maxInFlightBatches
        rw [length_tail]
        omega
      · simp [hpc]
    exact { push_step htail hinit hreg with }

theorem tryPushStream_step (hpushes : 0 < s.pushes) :
    SinkMove cfg 0 s { s with pushes := s.pushes - 1 }.tryPushStream := by
  have hinit := hs.initialized_of_pos (Nat.add_pos_right _ hpushes)
  have hs' : SinkOk cfg { s with pushes := s.pushes - 1 } :=
    { hs with fresh := fun hnot => absurd hinit (ne_true_of_eq_false hnot) }
  unfold tryPushStream
  split_ifs with hreg
  · exact { push_step hs' hinit hreg with }
  · exact ⟨⟨hs', 0, rfl, fun _ => rfl⟩, rfl, rfl⟩

theorem request_ok (n : Nat) : SinkOk cfg (s.request n) := by
  refine { hs with fresh := ?_ }
  intro hnot
  obtain ⟨hflight, hbuf, hpc, hpushes⟩ := hs.fresh hnot
  refine ⟨hflight, hbuf, hpc, ?_⟩
  change (if s.buf = [] then s.pushes else s.pushes + 1) = 0
  rw [if_pos hbuf, hpushes]

theorem pushInput_step (input : τ) (hreg : s.registered = true)
    (hflight : 0 < s.inFlightBatches) :
    SinkMove cfg 1 s (s.pushInput input) := by
  have hinit := hs.initialized_of_pos (Nat.add_pos_left hflight _)
  have hbound := hs.bounded
  unfold pushInput
  rw [if_neg (by omega)]
  split
  · obtain ⟨events, hnext⟩ :=
      onNext_eq
        { s with
          inFlightBatches := s.inFlightBatches - 1
          demand := s.demand - 1
          pc := .inPushInput } input
    rw [hnext]
    refine ⟨⟨⟨fun hnot => absurd hinit (ne_true_of_eq_false hnot), hs.setup,
      ?_, nofun, fun _ => ⟨hinit, hreg⟩, hs.source, hs.drops⟩, 0, ?_,
      fun _ => rfl⟩, rfl, rfl⟩
    · change s.inFlightBatches - 1 + s.buf.length ≤ s.maxInFlightBatches
      omega
    · change s.inFlightBatches - 1 + 1 = s.inFlightBatches + 0 + 0
      omega
  · refine ⟨⟨⟨fun hnot => absurd hinit (ne_true_of_eq_false hnot), hs.setup,
      ?_, ?_, hs.active, hs.source, hs.drops⟩, 0, ?_, fun _ => rfl⟩, rfl, rfl⟩
    · change s.inFlightBatches - 1 + (s.buf ++ [input]).length ≤
        s.maxInFlightBatches
      rw [length_append, length_singleton]
      omega
    · intro _ _ _
      change 0 < s.inFlightBatches - 1 + (s.buf ++ [input]).length
      rw [length_append, length_singleton]
      omega
    · change s.inFlightBatches - 1 + 1 = s.inFlightBatches + 0 + 0
      omega

theorem ack_step (hreg : s.registered = true) (hfresh : s.initialized = false) :
    SinkStep cfg 0 s.inFlightBatches (s.ack cfg cfg.announced) := by
  obtain ⟨hflight, hbuf, hpc, hpushes⟩ := hs.fresh hfresh
  unfold ack
  split
  · rename_i hzero
    unfold doAbort
    obtain ⟨hasOut, events, hfinish⟩ :=
      finish_eq { s with hasSrc := false, drops := s.drops + 1 }
        (.error .protocolError)
    rw [hfinish]
    refine ⟨{ hs with
      source := fun _ => .inr hzero
      drops := fun _ => hzero }, 0, ?_, fun _ => rfl⟩
    unfold send
    split <;> rfl
  · rename_i hann
    have hsrc : s.hasSrc = true := by
      rw [← not_eq_false]
      intro hnone
      rcases hs.source hnone with hgone | hzero
      · rw [hreg] at hgone
        cases hgone
      · exact hann hzero
    have hpos := batchLimit_pos cfg cfg.announced
    refine ⟨⟨nofun, fun _ => ⟨hann, rfl, rfl⟩, ?_, ?_, ?_, hs.source,
      hs.drops⟩, batchLimit cfg cfg.announced -
        batchLimit cfg cfg.announced % 2 ^ 32, ?_, ?_⟩
    · change batchLimit cfg cfg.announced + s.buf.length ≤
        batchLimit cfg cfg.announced
      exact Nat.le_of_eq (by rw [hbuf, length_nil, Nat.add_zero])
    · intro _ _ _
      change 0 < batchLimit cfg cfg.announced + s.buf.length
      omega
    · intro hbusy
      exact absurd hpc hbusy
    · simp only [send, hsrc, if_true, creditOf_cons, creditOf_nil,
        ToSource.credit]
      omega
    · intro hfits
      have hshort := hfits.resolve_left hann
      rw [Nat.mod_eq_of_lt hshort, Nat.sub_self]

theorem drop_step (event : StreamEvent τ) (hidle : s.pc = .idle) :
    SinkStep cfg 0 s.inFlightBatches
      ({ s with registered := false }.drop event) := by
  unfold drop
  obtain ⟨hasOut, events, hfinish⟩ :=
    finish_eq { s with registered := false, hasSrc := false } event
  rw [hfinish]
  refine ⟨{ hs with
    active := ?_
    source := fun _ => .inl rfl }, 0, ?_, fun _ => rfl⟩
  · intro hbusy
    exact absurd hidle hbusy
  · unfold send
    split <;> rfl

end

section

variable (s : StreamBridgeSub τ)

theorem doCheckCredit_shape :
    ∃ n msgs, s.doCheckCredit = ({ s with inFlightBatches := n }, msgs) := by
  simp only [doCheckCredit]
  split
  · exact ⟨_, _, rfl⟩
  · exact ⟨s.inFlightBatches, [], rfl⟩

theorem push_shape :
    (∃ n msgs,
      s.push = ({ s with pc := .idle, inFlightBatches := n }, msgs)) ∨
    ∃ input rest, s.buf = input :: rest ∧
      s.push =
        ({ s with demand := s.demand - 1, pc := .inPush }.onNext input,
          []) := by
  unfold push
  split
  · exact .inl (doCheckCredit_shape _)
  · rename_i input rest hbuf
    split
    · exact .inr ⟨input, rest, hbuf, rfl⟩
    · exact .inl (doCheckCredit_shape _)

theorem ack_registered (m : Nat) :
    (s.ack cfg m).1.registered = s.registered := by
  unfold ack
  split
  · obtain ⟨hasOut, events, hfinish⟩ :=
      finish_eq { s with hasSrc := false, drops := s.drops + 1 }
        (.error .protocolError)
    rw [doAbort, hfinish]
  · rfl

theorem drop_initialized (event : StreamEvent τ) :
    (s.drop event).1.initialized = s.initialized := by
  obtain ⟨hasOut, events, hfinish⟩ :=
    finish_eq { s with hasSrc := false } event
  rw [drop, hfinish]

end

end StreamBridgeSub

namespace StreamSystem

open StreamBridgeSub

structure Ledger (cfg : StreamConfig) (s : StreamSystem τ) : Prop where
  sinkOk : SinkOk cfg s.sink
  balance : ∃ lost,
    creditOf s.toSource + s.source.credit + (inputsOf s.toSink).length +
        lost = s.sink.inFlightBatches ∧
      (Fits cfg → s.source.subscribed = true → lost = 0)
  gone : s.sink.registered = false → inputsOf s.toSink = [] ∧
    (s.source.subscribed = false ∨ cfg.announced = 0)
  acks : s.toSink.countP ToSink.isAck +
    (if s.sink.initialized then 1 else 0) ≤ if s.source.opened then 1 else 0
  announced : ∀ m, .ack m ∈ s.toSink → m = cfg.announced
  order : s.toSink.Pairwise fun msg later =>
    msg.isLast = true → later.input = none
  last : s.source.subscribed = true → ∀ msg ∈ s.toSink, msg.isLast = false
  closed : s.source.opened = false →
    s.source.subscribed = false ∧ s.toSink = [] ∧
      (s.sink.registered = true ∨ cfg.announced = 0)

theorem ledger_initial : Ledger cfg (initial : StreamSystem τ) where
  sinkOk := ⟨fun _ => ⟨rfl, rfl, rfl, rfl⟩, nofun, Nat.le_refl _, nofun,
    fun hbusy => absurd rfl hbusy, nofun, nofun⟩
  balance := ⟨0, rfl, fun _ _ => rfl⟩
  gone := nofun
  acks := Nat.le_refl _
  announced _ hm := nomatch hm
  order := List.Pairwise.nil
  last := nofun
  closed _ := ⟨rfl, rfl, .inl rfl⟩

variable {result : StreamBridgeSub τ × List ToSource}
  {actions : List (StreamAction τ)}

theorem Ledger.updateSink {s : StreamSystem τ} (hs : Ledger cfg s)
    (hstep : SinkMove cfg 0 s.sink result) :
    Ledger cfg (s.updateSink result) := by
  obtain ⟨lost, hbal, hfits⟩ := hs.balance
  obtain ⟨more, hledger, hmore⟩ := hstep.ledger
  refine ⟨hstep.ok, ⟨lost + more, ?_, ?_⟩, ?_, ?_, hs.announced, hs.order,
    hs.last, ?_⟩
  · simp only [StreamSystem.updateSink, creditOf_append]
    omega
  · intro hall hsub
    rw [hfits hall hsub, hmore hall]
  · intro hgone
    exact hs.gone (hstep.registered.symm.trans hgone)
  · have hacks := hs.acks
    rw [← hstep.initialized] at hacks
    exact hacks
  · intro hclosed
    have hbefore := hs.closed hclosed
    rw [← hstep.registered] at hbefore
    exact hbefore

variable {s : StreamSystem τ} {msg : ToSink τ} {rest : List (ToSink τ)}

theorem isLast_kind (hlast : msg.isLast = true) :
    msg.input = none ∧ msg.isAck = false := by
  cases msg with
  | ack m => cases hlast
  | batch input => cases hlast
  | close => exact ⟨rfl, rfl⟩
  | abort reason => exact ⟨rfl, rfl⟩

theorem Ledger.unsubscribe (hs : Ledger cfg s)
    (hsub : s.source.subscribed = true) (hlast : msg.isLast = true) :
    Ledger cfg (s.unsubscribe msg) := by
  obtain ⟨hinput, hack⟩ := isLast_kind hlast
  have hinputs : inputsOf (s.toSink ++ [msg]) = inputsOf s.toSink := by
    simp [hinput]
  have hacks : (s.toSink ++ [msg]).countP isAck =
      s.toSink.countP isAck := by
    simp [hack]
  refine ⟨hs.sinkOk, ?_, ?_, ?_, ?_, ?_, nofun, ?_⟩
  · change ∃ lost, creditOf s.toSource + s.source.credit +
      (inputsOf (s.toSink ++ [msg])).length + lost = _ ∧ _
    rw [hinputs]
    obtain ⟨lost, hbal, _⟩ := hs.balance
    exact ⟨lost, hbal, nofun⟩
  · intro hgone
    refine ⟨?_, .inl rfl⟩
    change inputsOf (s.toSink ++ [msg]) = []
    rw [hinputs]
    exact (hs.gone hgone).1
  · change (s.toSink ++ [msg]).countP isAck + _ ≤ _
    rw [hacks]
    exact hs.acks
  · intro m hm
    rcases mem_append.mp hm with hm | hm
    · exact hs.announced m hm
    · rw [← mem_singleton.mp hm] at hack
      cases hack
  · refine pairwise_append.mpr ⟨hs.order, by simp, ?_⟩
    intro _ _ later hlater _
    rw [mem_singleton.mp hlater]
    exact hinput
  · intro hclosed
    rw [(hs.closed hclosed).1] at hsub
    cases hsub

theorem Ledger.openStream (result : OpenResult) (hs : Ledger cfg s)
    (hopened : s.source.opened = false) :
    Ledger cfg (s.openStream cfg result) := by
  obtain ⟨hsub, htoSink, hreg⟩ := hs.closed hopened
  have hacks := hs.acks
  obtain ⟨lost, hbal, -⟩ := hs.balance
  rw [htoSink] at hbal
  rw [htoSink, hopened] at hacks
  have hfresh : s.sink.initialized = false := by
    rw [← not_eq_true]
    intro hinit
    simp [hinit] at hacks
  have hgone : s.sink.registered = false → cfg.announced = 0 := by
    intro hgone
    exact hreg.resolve_left (ne_true_of_eq_false hgone)
  constructor
  · cases result <;> exact hs.sinkOk
  · have hflight := (hs.sinkOk.fresh hfresh).1
    refine ⟨lost, ?_, fun _ _ => by omega⟩
    cases result <;> simpa [StreamSystem.openStream, htoSink, input]
      using hbal
  · cases result <;>
      simp_all [StreamSystem.openStream, input]
  · cases result <;>
      simp [StreamSystem.openStream, htoSink, hfresh, isAck]
  · cases result <;> simp [StreamSystem.openStream, htoSink]
  · cases result <;> simp [StreamSystem.openStream, htoSink, input]
  · cases result <;>
      simp [StreamSystem.openStream, htoSink, hsub, isLast]
  · cases result <;> nofun

theorem Ledger.receive {s : StreamSystem τ} {msg : ToSink τ}
    {rest : List (ToSink τ)} (hs : Ledger cfg s)
    (htoSink : s.toSink = msg :: rest)
    (hstep : SinkStep cfg msg.input.toList.length s.sink.inFlightBatches result)
    (hinit : result.1.initialized = true →
      s.sink.initialized = true ∨ msg.isAck = true)
    (hgone : result.1.registered = false →
      s.sink.registered = false ∨ msg.isLast = true) :
    Ledger cfg ({ s with toSink := rest }.updateSink result) := by
  obtain ⟨lost, hbal, hfits⟩ := hs.balance
  obtain ⟨more, hledger, hmore⟩ := hstep.ledger
  have hacks := hs.acks
  have horder := hs.order
  rw [htoSink, inputsOf_cons, length_append] at hbal
  rw [htoSink, countP_cons] at hacks
  rw [htoSink, pairwise_cons] at horder
  refine ⟨hstep.ok, ⟨lost + more, ?_, ?_⟩, ?_, ?_, ?_, horder.2, ?_, ?_⟩
  · simp only [StreamSystem.updateSink, creditOf_append]
    omega
  · intro hall hsub
    rw [hfits hall hsub, hmore hall]
  · intro hreg
    rcases hgone hreg with hgone | hlast
    · obtain ⟨hinputs, hsrc⟩ := hs.gone hgone
      rw [htoSink, inputsOf_cons, append_eq_nil_iff] at hinputs
      exact ⟨hinputs.2, hsrc⟩
    · refine ⟨filterMap_eq_nil_iff.mpr fun later hlater =>
        horder.1 later hlater hlast, .inl ?_⟩
      rw [← not_eq_true]
      intro hsub
      have hnot := hs.last hsub msg (htoSink ▸ mem_cons_self)
      rw [hlast] at hnot
      cases hnot
  · change rest.countP isAck +
      (if result.1.initialized then 1 else 0) ≤
        if s.source.opened then 1 else 0
    split
    · rename_i hnow
      rcases hinit hnow with hbefore | hack
      · rw [if_pos hbefore] at hacks
        omega
      · rw [if_pos hack] at hacks
        omega
    · omega
  · intro m hm
    exact hs.announced m (htoSink ▸ mem_cons_of_mem msg hm)
  · intro hsub later hlater
    exact hs.last hsub later (htoSink ▸ mem_cons_of_mem msg hlater)
  · intro hclosed
    have hempty := (hs.closed hclosed).2.1
    rw [htoSink] at hempty
    cases hempty

section

variable (hs : Ledger cfg s)
include hs

theorem Ledger.batch_credit {input : τ}
    (htoSink : s.toSink = .batch input :: rest) :
    0 < s.sink.inFlightBatches := by
  obtain ⟨lost, hbal, _⟩ := hs.balance
  simp only [htoSink, inputsOf_cons, ToSink.input, toList_some,
    singleton_append, length_cons] at hbal
  omega

theorem Ledger.sinkReceive (hidle : s.sink.pc = .idle)
    (htoSink : s.toSink = msg :: rest) :
    Ledger cfg
      ({ s with toSink := rest }.updateSink (s.sink.handle cfg msg)) := by
  have hnothing : SinkStep cfg 0 s.sink.inFlightBatches (s.sink, []) :=
    ⟨hs.sinkOk, 0, rfl, fun _ => rfl⟩
  cases msg with
  | ack m =>
    have hm := hs.announced m (htoSink ▸ mem_cons_self)
    have hacks := hs.acks
    rw [htoSink, countP_cons_of_pos rfl] at hacks
    have hfresh : s.sink.initialized = false := by
      rw [← not_eq_true]
      intro hinit
      rw [if_pos hinit] at hacks
      split at hacks <;> omega
    simp only [handle]
    split_ifs with hreg
    · rw [hm]
      refine hs.receive htoSink (ack_step hs.sinkOk hreg hfresh)
        (fun _ => .inr rfl) fun hgone => .inl ?_
      rw [← hgone, ack_registered]
    · exact hs.receive htoSink hnothing .inl .inl
  | batch input =>
    have hflight := hs.batch_credit htoSink
    simp only [handle]
    split_ifs with hreg
    · have hmove := pushInput_step hs.sinkOk input hreg hflight
      exact hs.receive htoSink hmove.toSinkStep
        (fun hnow => .inl (hmove.initialized.symm.trans hnow))
        fun hgone => .inl (hmove.registered.symm.trans hgone)
    · have hinputs := (hs.gone (not_eq_true _ ▸ hreg)).1
      rw [htoSink] at hinputs
      cases hinputs
  | close =>
    simp only [handle]
    split
    · refine hs.receive htoSink (drop_step hs.sinkOk .complete hidle)
        (fun hnow => .inl ?_) fun _ => .inr rfl
      rw [drop_initialized] at hnow
      exact hnow
    · exact hs.receive htoSink hnothing .inl .inl
  | abort reason =>
    simp only [handle]
    split
    · refine hs.receive htoSink (drop_step hs.sinkOk (.error reason) hidle)
        (fun hnow => .inl ?_) fun _ => .inr rfl
      rw [drop_initialized] at hnow
      exact hnow
    · exact hs.receive htoSink hnothing .inl .inl

theorem Ledger.sourceHandle {msg : ToSource} {rest : List ToSource}
    (htoSource : s.toSource = msg :: rest) :
    Ledger cfg ({ s with toSource := rest }.sourceHandle msg) := by
  obtain ⟨lost, hbal, hfits⟩ := hs.balance
  rw [htoSource, creditOf_cons] at hbal
  have hquiet (hzero : msg.credit = 0) :
      Ledger cfg { s with toSource := rest } := by
    refine { hs with balance := ⟨lost, ?_, hfits⟩ }
    rw [hzero, Nat.zero_add] at hbal
    exact hbal
  cases msg with
  | demand known newDemand =>
    cases known with
    | false => exact hquiet rfl
    | true =>
      simp only [ToSource.credit] at hbal
      simp only [StreamSystem.sourceHandle, Bool.true_and]
      split_ifs with hsub
      · refine { hs with balance := ⟨lost, ?_, hfits⟩ }
        change creditOf rest + (s.source.credit + newDemand) +
          (inputsOf s.toSink).length + lost = s.sink.inFlightBatches
        omega
      -- The source has forgotten the stream, so the credit is lost.
      · refine { hs with balance := ⟨lost + newDemand, ?_, ?_⟩ }
        · change creditOf rest + s.source.credit + (inputsOf s.toSink).length +
            (lost + newDemand) = s.sink.inFlightBatches
          omega
        · exact fun _ hnow => absurd hnow hsub
  | cancel known =>
    simp only [StreamSystem.sourceHandle]
    split_ifs with hboth
    · rw [and_eq_true] at hboth
      exact (hquiet rfl).unsubscribe hboth.2 rfl
    · exact hquiet rfl

theorem Ledger.emit (input : τ) (hsub : s.source.subscribed = true)
    (hcredit : 0 < s.source.credit) :
    Ledger cfg
      { s with
        source :=
          { s.source with
            credit := s.source.credit - 1
            sent := s.source.sent ++ [input] }
        toSink := s.toSink ++ [.batch input] } := by
  obtain ⟨lost, hbal, hfits⟩ := hs.balance
  refine ⟨hs.sinkOk, ⟨lost, ?_, hfits⟩, ?_, ?_, ?_, ?_, ?_, ?_⟩
  · simp only [inputsOf_append, length_append, inputsOf_cons, ToSink.input,
      toList_some, inputsOf_nil, append_nil, length_singleton]
    omega
  -- The credit of a source whose batch size was refused is 0.
  · intro hgone
    rcases (hs.gone hgone).2 with hnot | hzero
    · rw [hsub] at hnot
      cases hnot
    · have hfresh := hs.sinkOk.not_initialized hzero
      have hflight := (hs.sinkOk.fresh hfresh).1
      omega
  · simp only [countP_append]
    exact hs.acks
  · intro m hm
    rcases mem_append.mp hm with hm | hm
    · exact hs.announced m hm
    · cases mem_singleton.mp hm
  · refine pairwise_append.mpr ⟨hs.order, by simp, ?_⟩
    intro msg hmsg _ _ hlast
    rw [hs.last hsub msg hmsg] at hlast
    cases hlast
  · intro _ msg hmsg
    rcases mem_append.mp hmsg with hmsg | hmsg
    · exact hs.last hsub msg hmsg
    · rw [mem_singleton.mp hmsg]
      rfl
  · intro hclosed
    rw [(hs.closed hclosed).1] at hsub
    cases hsub

theorem Ledger.dropFlowState (hidle : s.sink.pc = .idle)
    (hdrops : 0 < s.sink.drops) :
    Ledger cfg
      { s with
        sink :=
          { s.sink with
            drops := s.sink.drops - 1, registered := false } } := by
  have hzero := hs.sinkOk.drops hdrops
  obtain ⟨lost, hbal, hfits⟩ := hs.balance
  have hfresh := hs.sinkOk.not_initialized hzero
  have hflight := (hs.sinkOk.fresh hfresh).1
  refine ⟨{ hs.sinkOk with
    active := ?_
    source := fun _ => .inr hzero
    drops := fun _ => hzero },
    ⟨lost, hbal, hfits⟩, ?_, hs.acks, hs.announced, hs.order, hs.last, ?_⟩
  · intro hbusy
    exact absurd hidle hbusy
  · intro _
    refine ⟨length_eq_zero_iff.mp ?_, .inr hzero⟩
    change (inputsOf s.toSink).length = 0
    omega
  · intro hclosed
    obtain ⟨hsub, htoSink, _⟩ := hs.closed hclosed
    exact ⟨hsub, htoSink, .inr hzero⟩

theorem step_ledger {t : StreamSystem τ} {action : StreamAction τ}
    (hcancel : action ≠ .cancel) (hstep : s.step cfg action = some t) :
    Ledger cfg t := by
  cases action with
  | openStream result =>
    obtain ⟨hopened, ht⟩ := ite_none_left_eq_some.mp hstep
    cases ht
    exact hs.openStream result (not_eq_true _ ▸ hopened)
  | sourceReceive =>
    simp only [step] at hstep
    split at hstep
    · cases hstep
    · rename_i msg rest htoSource
      cases hstep
      exact hs.sourceHandle htoSource
  | emit input =>
    obtain ⟨⟨hsub, hcredit⟩, rfl⟩ := of_guard hstep
    exact hs.emit input hsub hcredit
  | complete | fail reason =>
    obtain ⟨hsub, rfl⟩ := of_guard hstep
    exact hs.unsubscribe hsub rfl
  | sinkReceive =>
    obtain ⟨hidle, ht⟩ := ite_none_right_eq_some.mp hstep
    split at ht
    · cases ht
    · rename_i msg rest htoSink
      cases ht
      exact hs.sinkReceive hidle htoSink
  | ret =>
    obtain ⟨result, hret, ht⟩ := map_eq_some_iff.mp hstep
    rw [← ht]
    exact hs.updateSink (ret_step hs.sinkOk hret)
  | request n =>
    cases hstep
    exact { hs with sinkOk := request_ok hs.sinkOk n }
  | tryPushStream =>
    obtain ⟨⟨_, hpushes⟩, rfl⟩ := of_guard hstep
    exact hs.updateSink (tryPushStream_step hs.sinkOk hpushes)
  | dropFlowState =>
    obtain ⟨⟨hidle, hdrops⟩, rfl⟩ := of_guard hstep
    exact hs.dropFlowState hidle hdrops
  | cancel => exact absurd rfl hcancel
  | dispose =>
    cases (step_dispose s cfg).symm.trans hstep
    exact hs

end

theorem along_not_cancel (hcancel : .cancel ∉ actions) (s : StreamSystem τ) :
    Along (step cfg) (fun _ action => action ≠ .cancel) s actions := by
  refine Along.of_forall_mem (fun _ action hmem hkind => ?_) s
  exact hcancel (hkind ▸ hmem)

theorem exec_ledger (hrun : exec (step cfg) initial actions = some s)
    (hcancel : .cancel ∉ actions) : Ledger cfg s := by
  exact exec_invariant_along (Ledger cfg)
    (fun _ _ _ hu hguard hstep => step_ledger hu hguard hstep)
    ledger_initial (along_not_cancel hcancel _) hrun

def outstanding (s : StreamSystem τ) : Nat :=
  creditOf s.toSource + s.source.credit + (inputsOf s.toSink).length

theorem first_demand_truncated (hfits : ¬ Fits cfg) :
    ∃ s : StreamSystem τ,
      exec (step cfg) initial [.openStream .subscribed, .sinkReceive] =
          some s ∧
        s.source.subscribed = true ∧
        s.sink.inFlightBatches ≠ s.outstanding := by
  have hann : cfg.announced ≠ 0 := fun hzero => hfits (.inl hzero)
  have hlarge : ¬ batchLimit cfg cfg.announced < 2 ^ 32 :=
    fun hshort => hfits (.inr hshort)
  refine ⟨_, rfl, rfl, ?_⟩
  simp only [StreamSystem.updateSink, outstanding, initial, openStream, handle,
    StreamBridgeSub.ack, if_neg hann, send, if_true, nil_append, creditOf_cons,
    creditOf_nil, ToSource.credit, inputsOf_nil, length_nil]
  omega

/-- In every run without cancellation, and as long as the source is subscribed
to its flow, the batches in flight are exactly the credit that is outstanding
if and only if the sink's limit fits into a demand message.  In any case the
sink never has more in flight and in its buffer than the limit, a batch never
arrives without credit, and the sink is never left without both. -/
theorem stream_credit_conserved (hle : cfg.requestThreshold ≤ cfg.bufCapacity) :
    ((∀ (actions : List (StreamAction τ)) (s : StreamSystem τ),
        exec (step cfg) initial actions = some s → .cancel ∉ actions →
          s.source.subscribed = true →
            s.sink.inFlightBatches = s.outstanding) ↔ Fits cfg) ∧
    ∀ (actions : List (StreamAction τ)) (s : StreamSystem τ),
      exec (step cfg) initial actions = some s → .cancel ∉ actions →
        s.sink.inFlightBatches + s.sink.buf.length ≤
            s.sink.maxInFlightBatches ∧
          (∀ input rest, s.toSink = .batch input :: rest →
            s.sink.inFlightBatches ≠ 0) ∧
          (s.sink.initialized = true → s.sink.pc = .idle →
            ¬ (s.sink.inFlightBatches = 0 ∧ s.sink.buf = [])) := by
  refine ⟨⟨fun hall => ?_, fun hfits actions s hrun hcancel hsub => ?_⟩,
    fun actions s hrun hcancel => ⟨?_, ?_, ?_⟩⟩
  · by_contra hnot
    obtain ⟨s, hrun, hsub, hne⟩ := @first_demand_truncated τ cfg hnot
    exact hne (hall _ s hrun (by simp) hsub)
  · obtain ⟨lost, hbalance, hnone⟩ := (exec_ledger hrun hcancel).balance
    rw [hnone hfits hsub, Nat.add_zero] at hbalance
    exact hbalance.symm
  · exact (exec_ledger hrun hcancel).sinkOk.bounded
  · intro input rest htoSink
    exact Nat.ne_of_gt ((exec_ledger hrun hcancel).batch_credit htoSink)
  · rintro hinit hidle ⟨hflight, hbuf⟩
    have hsupplied :=
      (exec_ledger hrun hcancel).sinkOk.supplied hle hinit hidle
    rw [hflight, hbuf] at hsupplied
    exact Nat.lt_irrefl 0 hsupplied

def smallStream : StreamConfig := ⟨128, 32, 16, by decide⟩

theorem stream_credit_conserved_small :
    ∃ s : StreamSystem Nat,
      exec (step smallStream) initial
          [.openStream .subscribed, .sinkReceive, .sourceReceive, .emit 1,
            .emit 2, .sinkReceive] = some s ∧
        s.sink.inFlightBatches = 7 ∧ s.sink.buf = [1] ∧
        s.sink.inFlightBatches = s.outstanding := by
  refine ⟨?s, ?hrun, ?_, ?_, (stream_credit_conserved (by decide)).1.mpr
    (by decide) _ _ ?hrun (by decide) ?_⟩
  case hrun => rfl
  all_goals rfl

def hugeStream : StreamConfig := ⟨2 ^ 32, 0, 1, by decide⟩

/-- The limit is 2 ^ 32 batches, and the demand message says 0. -/
theorem stream_credit_lost :
    ∃ s : StreamSystem Nat,
      exec (step hugeStream) initial
          [.openStream .subscribed, .sinkReceive] = some s ∧
        s.sink.inFlightBatches = 2 ^ 32 ∧ s.outstanding = 0 :=
  ⟨_, rfl, rfl, rfl⟩

end StreamSystem

end ActorFramework.Core
