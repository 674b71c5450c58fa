import ActorFramework.Flow.Merge
import ActorFramework.Foundation.Counting
import Mathlib.Algebra.BigOperators.Intervals
import Mathlib.Algebra.Order.BigOperators.Group.Finset

/-!
# The invariant of the merge operator

Every input is a channel of its own: what the observer got and what is in the
buffer are the items of the source.  The counters of the operator are sums
over all inputs.
-/

namespace ActorFramework.Flow

open Foundation List MergeInput

variable {τ : Type*}

theorem itemsOf_concat_self (key : Nat) (log : List (Nat × τ)) (item : τ) :
    itemsOf key (log ++ [(key, item)]) = itemsOf key log ++ [item] := by
  simp [itemsOf]

theorem itemsOf_concat_other {key other : Nat} (h : other ≠ key)
    (log : List (Nat × τ)) (item : τ) :
    itemsOf other (log ++ [(key, item)]) = itemsOf other log := by
  simp [itemsOf, h.symm]

namespace MergeInput

def bufLength : Option (MergeInput τ) → Nat
  | none => 0
  | some input => input.buf.length

def presence : Option (MergeInput τ) → Nat
  | none => 0
  | some _ => 1

section

variable (input : Option (MergeInput τ))

theorem bufLength_stop : bufLength (input.bind stop) = bufLength input := by
  cases input with
  | none => rfl
  | some input =>
    cases hbuf : input.buf with
    | nil | cons item rest => simp [stop, bufLength, hbuf]

theorem presence_stop_le : presence (input.bind stop) ≤ presence input := by
  cases input with
  | none => exact le_rfl
  | some input =>
    cases hstop : input.stop with
    | none => simp [presence, hstop]
    | some stopped => simp [presence, hstop]

theorem presence_le_one : presence input ≤ 1 := by
  cases input with
  | none => exact Nat.zero_le 1
  | some input => exact Nat.le_refl 1

end

end MergeInput

/-- One input with its source and with the items that the observer got from
it.  `failed` says that the operator has cancelled its subscriptions. -/
structure Channel (cfg : MergeConfig) (failed : Bool)
    (input : Option (MergeInput τ)) (source : InnerSource τ)
    (emitted : List τ) : Prop where
  present : ∀ x, input = some x → emitted ++ x.buf = source.items
  gone : input = none → emitted <+: source.items
  complete : failed = false → input = none →
    source.ended = true ∧ emitted = source.items
  pending : source.requested ≤ emitted.length + cfg.maxPendingPerInput
  unsubscribed : source.subscribed = false →
    source.requested = 0 ∧ source.items = []
  released : failed = false → ∀ x, input = some x → x.sub = false →
    source.subscribed = true → source.ended = true

namespace Channel

variable {cfg : MergeConfig} {failed : Bool} {source : InnerSource τ}
  {emitted : List τ} {input : MergeInput τ}

theorem initial : Channel cfg failed (some {}) ({} : InnerSource τ) [] :=
  ⟨fun _ h => by cases h; rfl, nofun, nofun, Nat.zero_le _,
    fun _ => ⟨rfl, rfl⟩, nofun⟩

theorem subscribe (h : Channel cfg failed (some input) source emitted)
    (hsrc : source.subscribed = false) :
    Channel cfg failed (some { input with sub := true })
      { source with
        subscribed := true
        requested := source.requested + cfg.maxPendingPerInput } emitted := by
  obtain ⟨hreq, _⟩ := h.unsubscribed hsrc
  refine ⟨?_, nofun, nofun, ?_, nofun, ?_⟩
  · intro x hx
    cases hx
    exact h.present input rfl
  · change source.requested + cfg.maxPendingPerInput ≤
      emitted.length + cfg.maxPendingPerInput
    omega
  · intro _ x hx hsub
    cases hx
    cases hsub

variable {x : Option (MergeInput τ)}

theorem refuse (h : Channel cfg failed x source emitted)
    (hsub : ∀ y, x = some y → y.sub = true) :
    Channel cfg failed x { source with subscribed := true } emitted := by
  refine { h with unsubscribed := nofun, released := ?_ }
  intro _ y hy hopen
  cases (hsub y hy) ▸ hopen

section

variable (hsrc : source.subscribed = true)
include hsrc

section

variable (h : Channel cfg failed (some input) source emitted)
include h

theorem forward (item : τ) (requested : Nat) (hbuf : input.buf = [])
    (hreq : requested ≤ source.requested + 1) :
    Channel cfg failed (some input)
      { source with items := source.items ++ [item], requested }
      (emitted ++ [item]) := by
  have hpresent := h.present input rfl
  have hpend := h.pending
  rw [hbuf, append_nil] at hpresent
  refine ⟨?_, nofun, nofun, ?_, ?_, h.released⟩
  · intro x hx
    cases hx
    rw [hbuf, append_nil, hpresent]
  · change requested ≤ (emitted ++ [item]).length + cfg.maxPendingPerInput
    rw [length_append, length_singleton]
    omega
  · simp [hsrc]

theorem store (item : τ) :
    Channel cfg failed (some { input with buf := input.buf ++ [item] })
      { source with items := source.items ++ [item] } emitted := by
  refine ⟨?_, nofun, nofun, h.pending, ?_, ?_⟩
  · intro x hx
    cases hx
    rw [← append_assoc, h.present input rfl]
  · simp [hsrc]
  · intro hfailed x hx
    cases hx
    exact h.released hfailed input rfl

end

/-- An item of an input that was erased is lost.  Only a source that was
cancelled still emits it. -/
theorem lose (h : Channel cfg failed none source emitted) (item : τ)
    (hended : source.ended = false) :
    Channel cfg failed none
      { source with items := source.items ++ [item] } emitted := by
  refine ⟨nofun, ?_, ?_, h.pending, ?_, nofun⟩
  · intro _
    exact (h.gone rfl).trans (prefix_append _ _)
  · intro hfailed _
    cases (h.complete hfailed rfl).1 ▸ hended
  · simp [hsrc]

end

theorem done (h : Channel cfg failed x source emitted) :
    Channel cfg failed x { source with ended := true } emitted :=
  { h with
    complete := fun hfailed hx => ⟨rfl, (h.complete hfailed hx).2⟩
    released := fun _ _ _ _ _ => rfl }

section

variable (h : Channel cfg failed (some input) source emitted)
include h

theorem release (hended : source.ended = true) :
    Channel cfg failed (some { input with sub := false }) source emitted := by
  refine ⟨?_, nofun, nofun, h.pending, h.unsubscribed, fun _ _ _ _ _ => hended⟩
  intro x hx
  cases hx
  exact h.present input rfl

theorem erase (hbuf : input.buf = []) (hended : source.ended = true) :
    Channel cfg failed none source emitted := by
  have hpresent := h.present input rfl
  rw [hbuf, append_nil] at hpresent
  exact ⟨nofun, fun _ => ⟨[], by rw [append_nil, hpresent]⟩,
    fun _ _ => ⟨hended, hpresent⟩, h.pending, h.unsubscribed, nofun⟩

end

theorem stop (h : Channel cfg failed x source emitted) :
    Channel cfg true (x.bind stop) source emitted := by
  refine ⟨?_, ?_, nofun, h.pending, h.unsubscribed, nofun⟩
  · intro y hy
    obtain ⟨input, rfl, hstop⟩ := Option.bind_eq_some_iff.mp hy
    obtain ⟨_, ⟨⟩⟩ := Option.ite_none_left_eq_some.mp hstop
    exact h.present input rfl
  · intro hnone
    cases x with
    | none => exact h.gone rfl
    | some input =>
      have hbuf : input.buf = [] := by
        by_contra hne
        simp [stop, hne] at hnone
      have hpresent := h.present input rfl
      rw [hbuf] at hpresent
      exact ⟨[], hpresent⟩

theorem pop {sub : Bool} {item : τ} {rest : List τ}
    (h : Channel cfg failed (some ⟨sub, item :: rest⟩) source emitted)
    (requested : Nat) (hreq : requested ≤ source.requested + 1) :
    Channel cfg failed
      (if sub || !rest.isEmpty then some ⟨sub, rest⟩ else none)
      { source with requested } (emitted ++ [item]) := by
  have hpresent := h.present _ rfl
  have hpend := h.pending
  have hsrc : source.subscribed = true := by
    by_contra hnot
    rw [Bool.not_eq_true] at hnot
    rw [(h.unsubscribed hnot).2] at hpresent
    simp at hpresent
  have hmove : (emitted ++ [item]) ++ rest = source.items := by
    rw [append_assoc, singleton_append]
    exact hpresent
  refine ⟨?_, ?_, ?_, ?_, ?_, ?_⟩
  · intro x hx
    obtain ⟨_, rfl⟩ := of_guard hx
    exact hmove
  · exact fun _ => ⟨rest, hmove⟩
  · intro hfailed hnone
    cases sub with
    | true => simp at hnone
    | false =>
      cases rest with
      | cons _ _ => simp at hnone
      | nil =>
        rw [append_nil] at hmove
        exact ⟨h.released hfailed _ rfl rfl hsrc, hmove⟩
  · change requested ≤ (emitted ++ [item]).length + cfg.maxPendingPerInput
    rw [length_append, length_singleton]
    omega
  · simp [hsrc]
  · intro hfailed x hx
    obtain ⟨_, rfl⟩ := of_guard hx
    exact h.released hfailed ⟨sub, item :: rest⟩ rfl

end Channel

def inputTotal (weight : Option (MergeInput τ) → Nat) (n : Nat)
    (inputs : Nat → Option (MergeInput τ)) : Nat :=
  ∑ key ∈ Finset.range n, weight (inputs key)

section InputMap

variable {cfg : MergeConfig} {failed : Bool} {n key : Nat}
  {weight : Option (MergeInput τ) → Nat}
  {inputs inputs' : Nat → Option (MergeInput τ)}
  {sources sources' : Nat → InnerSource τ} {log log' : List (Nat × τ)}

theorem inputTotal_update (hkey : key < n)
    (hother : ∀ k, k ≠ key → inputs' k = inputs k) :
    inputTotal weight n inputs' + weight (inputs key) =
      inputTotal weight n inputs + weight (inputs' key) :=
  sum_range_update hkey fun k hk => congrArg weight (hother k hk)

theorem inputTotal_add (input : MergeInput τ) :
    inputTotal weight (n + 1)
        (fun k => if k = n then some input else inputs k) =
      inputTotal weight n inputs + weight (some input) := by
  have hrest : inputTotal weight n
      (fun k => if k = n then some input else inputs k) =
        inputTotal weight n inputs := by
    refine Finset.sum_congr rfl fun k hk => ?_
    exact congrArg weight (if_neg (Nat.ne_of_lt (Finset.mem_range.mp hk)))
  rw [inputTotal, Finset.sum_range_succ, if_pos rfl]
  exact congrArg (· + weight (some input)) hrest

theorem inputTotal_eq_zero (hweight : weight none = 0)
    (hnone : ∀ k < n, inputs k = none) : inputTotal weight n inputs = 0 := by
  refine Finset.sum_eq_zero fun k hk => ?_
  rw [hnone k (Finset.mem_range.mp hk), hweight]

theorem le_inputTotal (hkey : key < n) :
    weight (inputs key) ≤ inputTotal weight n inputs :=
  Finset.single_le_sum (fun k _ => Nat.zero_le (weight (inputs k)))
    (Finset.mem_range.mpr hkey)

theorem exists_of_inputTotal_pos (h : 0 < inputTotal weight n inputs) :
    ∃ key < n, 0 < weight (inputs key) := by
  obtain ⟨key, hkey, hne⟩ :=
    Finset.exists_ne_zero_of_sum_ne_zero (Nat.ne_of_gt h)
  exact ⟨key, Finset.mem_range.mp hkey, Nat.pos_of_ne_zero hne⟩

theorem inputTotal_stop :
    inputTotal bufLength n (stopAll inputs) =
      inputTotal bufLength n inputs :=
  Finset.sum_congr rfl fun k _ => bufLength_stop (inputs k)

structure Lanes (cfg : MergeConfig) (failed : Bool) (n : Nat)
    (inputs : Nat → Option (MergeInput τ)) (sources : Nat → InnerSource τ)
    (log : List (Nat × τ)) : Prop where
  bound : 0 < n
  channel : ∀ key, 0 < key → key < n →
    Channel cfg failed (inputs key) (sources key) (itemsOf key log)
  unused : ∀ key, ¬ (0 < key ∧ key < n) →
    inputs key = none ∧ sources key = {} ∧ itemsOf key log = []

section

variable (h : Lanes cfg failed n inputs sources log)
include h

theorem Lanes.of_some {input : MergeInput τ} (hinput : inputs key = some input)
    : 0 < key ∧ key < n := by
  by_contra hnot
  cases (h.unused key hnot).1 ▸ hinput

theorem Lanes.of_subscribed (hsrc : (sources key).subscribed = true) :
    0 < key ∧ key < n := by
  by_contra hnot
  rw [(h.unused key hnot).2.1] at hsrc
  cases hsrc

theorem Lanes.update (hkey : 0 < key ∧ key < n)
    (hinputs : ∀ k, k ≠ key → inputs' k = inputs k)
    (hsources : ∀ k, k ≠ key → sources' k = sources k)
    (hlog : ∀ k, k ≠ key → itemsOf k log' = itemsOf k log)
    (hchan : Channel cfg failed (inputs' key) (sources' key) (itemsOf key log'))
    : Lanes cfg failed n inputs' sources' log' := by
  refine ⟨h.bound, fun k hpos hlt => ?_, fun k hnot => ?_⟩
  · rcases eq_or_ne k key with rfl | hne
    · exact hchan
    · rw [hinputs k hne, hsources k hne, hlog k hne]
      exact h.channel k hpos hlt
  · have hne : k ≠ key := fun heq => hnot (heq ▸ hkey)
    rw [hinputs k hne, hsources k hne, hlog k hne]
    exact h.unused k hnot

theorem Lanes.add :
    Lanes cfg failed (n + 1) (fun k => if k = n then some {} else inputs k)
      sources log := by
  refine ⟨Nat.succ_pos n, fun k hpos hlt => ?_, fun k hnot => ?_⟩
  · rcases eq_or_ne k n with rfl | hne
    · obtain ⟨_, hsrc, hitems⟩ :=
        h.unused k fun hboth => Nat.lt_irrefl k hboth.2
      rw [if_pos rfl, hsrc, hitems]
      exact .initial
    · rw [if_neg hne]
      exact h.channel k hpos (by omega)
  · have hbound := h.bound
    have hne : k ≠ n := by omega
    rw [if_neg hne]
    exact h.unused k (by omega)

theorem Lanes.stop : Lanes cfg true n (stopAll inputs) sources log := by
  refine ⟨h.bound, fun k hpos hlt => (h.channel k hpos hlt).stop, ?_⟩
  intro k hnot
  obtain ⟨hinput, hrest⟩ := h.unused k hnot
  exact ⟨by rw [stopAll, hinput]; rfl, hrest⟩

end

end InputMap

/-- The inputs and what the outer source may still emit are not more than
`max_concurrent`. -/
structure Room (cfg : MergeConfig) (sub : Bool) (outer : SourceState)
    (count : Nat) : Prop where
  few : count ≤ cfg.maxConcurrent
  left : sub = true →
    count + outer.requested ≤ cfg.maxConcurrent + outer.emitted
  early : outer.subscribed = false →
    outer.requested = 0 ∧ outer.emitted = 0 ∧ count = 0
  closed : outer.ended = true → outer.subscribed = true ∧ sub = false

variable {sub : Bool} {outer : SourceState}
  {count demand inFlight requested : Nat} {out : Observer τ}
  {log : List (Nat × τ)}

theorem Room.less {cfg : MergeConfig} {count' : Nat}
    (h : Room cfg sub outer count) (hle : count' ≤ count) :
    Room cfg sub outer count' := by
  obtain ⟨hfew, hleft, hearly, hclosed⟩ := h
  refine ⟨by omega, fun hsub => ?_, fun hfresh => ?_, hclosed⟩
  · have hroom := hleft hsub
    omega
  · obtain ⟨hreq, hemitted, hzero⟩ := hearly hfresh
    exact ⟨hreq, hemitted, by omega⟩

theorem Room.replace {cfg : MergeConfig} (h : Room cfg sub outer (count + 1)) :
    Room cfg sub { outer with requested := outer.requested + 1 } count := by
  obtain ⟨hfew, hleft, hearly, hclosed⟩ := h
  refine ⟨by omega, fun hsub => ?_, fun hfresh => ?_, hclosed⟩
  · have hroom := hleft hsub
    change count + (outer.requested + 1) ≤ cfg.maxConcurrent + outer.emitted
    omega
  · cases (hearly hfresh).2.2

/-- The demand of the observer.  `extra` is counted twice while a pull runs. -/
structure Ledger (extra : Nat) (out : Observer τ) (log : List (Nat × τ))
    (demand inFlight requested : Nat) : Prop where
  lawful : out.Lawful
  logged : out.delivered = log.map Prod.snd
  account : out.delivered.length + demand + inFlight ≤ requested + extra

theorem Ledger.emit {extra : Nat}
    (h : Ledger extra out log demand inFlight requested)
    (hvalid : out.valid = true) (hdem : 0 < demand) (key : Nat) (item : τ) :
    Ledger extra (out.onNext item) (log ++ [(key, item)]) (demand - 1) inFlight
      requested := by
  have hacc := h.account
  refine ⟨h.lawful.onNext item hvalid, ?_, ?_⟩
  · rw [Observer.onNext_delivered, h.logged, map_append]
    rfl
  · rw [Observer.onNext_delivered, length_append, length_singleton]
    omega

variable {event : FlowEvent τ}

theorem Ledger.finish {extra : Nat}
    (h : Ledger extra out log demand inFlight requested)
    (hvalid : out.valid = true) (hterm : event.isTerminal = true) :
    Ledger extra (out.finish event) log demand inFlight requested := by
  refine ⟨h.lawful.finish hterm hvalid, ?_, ?_⟩
  · rw [Observer.finish_delivered out hterm]
    exact h.logged
  · rw [Observer.finish_delivered out hterm]
    exact h.account

namespace MergeSub

def inputCount (s : MergeSub τ) : Nat :=
  inputTotal MergeInput.presence s.nextKey s.inputs

def itemCount (s : MergeSub τ) : Nat :=
  inputTotal MergeInput.bufLength s.nextKey s.inputs

variable {cfg : MergeConfig} {extra : Nat} {s t : MergeSub τ}

@[simp] theorem setInput_self (s : MergeSub τ) (key : Nat)
    (input : Option (MergeInput τ)) :
    (s.setInput key input).inputs key = input := if_pos rfl

variable {k key : Nat} {input : MergeInput τ}

section

variable (s : MergeSub τ)

theorem setInput_other (input : Option (MergeInput τ)) (h : k ≠ key) :
    (s.setInput key input).inputs k = s.inputs k := if_neg h

@[simp] theorem setSource_self (key : Nat) (source : InnerSource τ) :
    (s.setSource key source).sources key = source := if_pos rfl

theorem setSource_other (source : InnerSource τ) (h : k ≠ key) :
    (s.setSource key source).sources k = s.sources k := if_neg h

@[simp] theorem setInput_sources (key : Nat) (input : Option (MergeInput τ)) :
    (s.setInput key input).sources = s.sources := rfl

end

structure Counted (cfg : MergeConfig) (extra : Nat) (s : MergeSub τ) :
    Prop where
  lanes : Lanes cfg s.err.isSome s.nextKey s.inputs s.sources s.emitted
  total : s.buffered = s.itemCount
  room : Room cfg s.sub s.outer s.inputCount
  ledger : Ledger extra s.out s.emitted s.demand s.inFlightDemand s.requested
  finished : s.out.valid = false →
    s.sub = false ∧ s.inputCount = 0 ∧ s.out.ending.length = 1

/-- Between two calls, items wait in a buffer only while there is no demand,
and the terminal event has come once there is nothing to wait for. -/
structure Sound (cfg : MergeConfig) (s : MergeSub τ) : Prop extends
    Counted cfg 0 s where
  quiet : 0 < s.buffered → s.demand = 0
  busy : 0 < s.inFlightDemand → 0 < s.buffered
  reported : s.outer.subscribed = true → s.sub = false → s.inputCount = 0 →
    s.out.valid = false

theorem sound_initial : Sound cfg ({} : MergeSub τ) := by
  have hcount : ({} : MergeSub τ).inputCount = 0 :=
    inputTotal_eq_zero rfl fun _ _ => rfl
  have hitems : ({} : MergeSub τ).itemCount = 0 :=
    inputTotal_eq_zero rfl fun _ _ => rfl
  refine ⟨⟨⟨Nat.one_pos, ?_, fun _ _ => ⟨rfl, rfl, rfl⟩⟩, hitems.symm, ?_,
    ⟨Observer.lawful_initial, rfl, Nat.le_refl 0⟩, nofun⟩, nofun, nofun,
    nofun⟩
  · exact fun _ hpos hlt => (Nat.not_lt_of_ge hpos hlt).elim
  · exact ⟨hcount ▸ Nat.zero_le _, nofun, fun _ => ⟨rfl, rfl, hcount⟩, nofun⟩

theorem inputCount_eq_zero_iff :
    s.inputCount = 0 ↔ ∀ key < s.nextKey, s.inputs key = none := by
  refine ⟨fun hzero key hkey => ?_, fun hnone => inputTotal_eq_zero rfl hnone⟩
  have hle : presence (s.inputs key) ≤ s.inputCount :=
    le_inputTotal hkey
  cases hinput : s.inputs key with
  | none => rfl
  | some input =>
    rw [hinput, hzero] at hle
    cases hle

theorem noInputs_iff : s.noInputs = true ↔ s.inputCount = 0 := by
  rw [inputCount_eq_zero_iff]
  simp [noInputs]

section

variable (hs : Counted cfg extra s)
include hs

theorem Counted.empty (hzero : s.inputCount = 0) : s.buffered = 0 := by
  rw [hs.total]
  exact inputTotal_eq_zero rfl (inputCount_eq_zero_iff.mp hzero)

theorem Counted.buf_length_le (hinput : s.inputs key = some input) :
    input.buf.length ≤ s.buffered := by
  have hle : bufLength (s.inputs key) ≤ s.itemCount :=
    le_inputTotal (hs.lanes.of_some hinput).2
  rw [← hs.total, hinput] at hle
  exact hle

theorem Counted.valid_of_some (hinput : s.inputs key = some input) :
    s.out.valid = true := by
  by_contra hnot
  rw [Bool.not_eq_true] at hnot
  obtain ⟨_, hzero, _⟩ := hs.finished hnot
  have hnone := inputCount_eq_zero_iff.mp hzero key (hs.lanes.of_some hinput).2
  cases hnone ▸ hinput

theorem Counted.finish (hvalid : s.out.valid = true) (hsub : s.sub = false)
    (hzero : s.inputCount = 0) (hterm : event.isTerminal = true) :
    Counted cfg extra (s.finish event) := by
  refine ⟨hs.lanes, hs.total, hs.room, hs.ledger.finish hvalid hterm, ?_⟩
  exact fun _ => ⟨hsub, hzero,
    congrArg List.length (hs.ledger.lawful.ending_finish hterm hvalid)⟩

end

end MergeSub

end ActorFramework.Flow
