import ActorFramework.Flow.Concat

/-!
# Runs of the concat operator

At most one inner observable is active.  What the observer got is then the
items of all observables before it and what the active one has emitted, and
all demand that is left has been requested from the active one.
-/

namespace ActorFramework.Flow

open Foundation List Option Bool ConcatSub Observer

variable {τ : Type*}

namespace ConcatSub

theorem flatten_take_succ (inners : List (List τ)) (i : Nat) :
    (inners.take (i + 1)).flatten =
      (inners.take i).flatten ++ itemsAt inners i := by
  rw [take_add_one, flatten_append, itemsAt]
  cases inners[i]? with
  | none => rfl
  | some items => exact congrArg _ (append_nil items)

structure Active (inners : List (List τ)) (out : Observer τ)
    (emitted key inFlight i : Nat) (state : InnerState) : Prop where
  last : i + 1 = emitted
  subscribed : state.subscribed = true
  running : state.ended = false
  token : state.token = key
  order : out.delivered =
    (inners.take i).flatten ++ (itemsAt inners i).take state.emitted
  demand : state.requested = state.emitted + inFlight

section Active

variable {inners : List (List τ)} {out : Observer τ}
  {emitted key inFlight i : Nat} {state : InnerState}

section

variable (h : Active inners out emitted key inFlight i state)
include h

theorem Active.next {item : τ}
    (hitem : (itemsAt inners i)[state.emitted]? = some item)
    (hroom : state.emitted < state.requested) :
    Active inners (out.onNext item) emitted key (inFlight - 1) i
      { state with emitted := state.emitted + 1 } := by
  have hdem := h.demand
  refine { h with order := ?_, demand := ?_ }
  · rw [onNext_delivered, h.order, take_add_one, hitem, append_assoc]
    rfl
  · change state.requested = state.emitted + 1 + (inFlight - 1)
    omega

theorem Active.request (n : Nat) :
    Active inners out emitted key (inFlight + n) i
      { state with requested := state.requested + n } := by
  refine { h with demand := ?_ }
  change state.requested + n = state.emitted + (inFlight + n)
  rw [h.demand, Nat.add_assoc]

end

end Active

structure Stream (inners : List (List τ)) (s : ConcatSub τ) : Prop where
  lawful : s.out.Lawful
  account : s.inFlight + s.out.delivered.length = s.requested
  idle : s.fwdSub = none →
    s.out.delivered = (inners.take s.outer.emitted).flatten
  active : ∀ i, s.fwdSub = some i →
    Active inners s.out s.outer.emitted s.key s.inFlight i (s.inner i)
  alone : ∀ i, (s.inner i).subscribed = true → (s.inner i).ended = false →
    s.fwdSub = some i
  blank : ∀ i, s.outer.emitted ≤ i → s.inner i = {}

structure Gate (n : Nat) (outer : SourceState) (sub : Bool)
    (fwdSub : Option Nat) (out : Observer τ) : Prop where
  room : outer.ended = false → outer.requested =
    outer.emitted + if sub && fwdSub.isNone then 1 else 0
  early : outer.subscribed = false → sub = false ∧ fwdSub = none ∧
    outer.ended = false ∧ out.valid = true
  closed : outer.ended = true → sub = false ∧ outer.emitted = n
  waiting : out.valid = true → outer.subscribed = true → sub = false →
    fwdSub.isSome = true ∧ outer.ended = true
  finished : out.valid = false →
    sub = false ∧ fwdSub = none ∧ out.ending.length = 1

/-- An inner observable that fails ends the output.  The outer source ends it
otherwise. -/
structure Verdict (s : ConcatSub τ) : Prop where
  late : s.err.isSome = true → s.outer.ended = true
  failed : ∀ i what, (s.inner i).failure = some what →
    s.out.ending = [.error (some what)]
  plain : s.out.valid = false → (∀ i, (s.inner i).failure = none) →
    s.outer.ended = true ∧ s.out.ending = [s.endEvent]

structure Sound (inners : List (List τ)) (s : ConcatSub τ) : Prop where
  stream : Stream inners s
  gate : Gate inners.length s.outer s.sub s.fwdSub s.out
  verdict : Verdict s

variable {inners : List (List τ)} {s t : ConcatSub τ} {i : Nat}

@[simp] theorem setInner_self (s : ConcatSub τ) (i : Nat)
    (state : InnerState) : (s.setInner i state).inner i = state := if_pos rfl

theorem setInner_other (s : ConcatSub τ) (state : InnerState) {i j : Nat}
    (h : j ≠ i) : (s.setInner i state).inner j = s.inner j := if_neg h

variable {state : InnerState} {event : FlowEvent τ} {what token n : Nat}
  {outer : SourceState} {sub : Bool} {out : Observer τ}

theorem setInner_field {α : Type*} (f : InnerState → α)
    (h : f state = f (s.inner i)) (j : Nat) :
    f ((s.setInner i state).inner j) = f (s.inner j) := by
  by_cases hj : j = i
  · rw [hj, setInner_self]
    exact h
  · rw [setInner_other _ _ hj]

theorem sound_initial : Sound inners ({} : ConcatSub τ) := by
  refine ⟨⟨lawful_initial, rfl, fun _ => rfl, nofun, nofun,
    fun _ _ => rfl⟩, ⟨fun _ => rfl, ?_, nofun, nofun, nofun⟩,
    ⟨nofun, nofun, nofun⟩⟩
  exact fun _ => ⟨rfl, rfl, rfl, rfl⟩

theorem Sound.active_of_running (hs : Sound inners s)
    (hopen : (s.inner i).subscribed = true)
    (hruns : (s.inner i).ended = false) :
    s.fwdSub = some i ∧ s.out.valid = true ∧
      Active inners s.out s.outer.emitted s.key s.inFlight i
        (s.inner i) := by
  have hfwd := hs.stream.alone i hopen hruns
  refine ⟨hfwd, ?_, hs.stream.active i hfwd⟩
  cases hvalid : s.out.valid with
  | true => rfl
  | false => cases (hs.gate.finished hvalid).2.1 ▸ hfwd

theorem Sound.no_failure (hs : Sound inners s) (hvalid : s.out.valid = true)
    (i : Nat) : (s.inner i).failure = none := by
  cases hfail : (s.inner i).failure with
  | none => rfl
  | some what =>
    have hempty := hs.stream.lawful.running hvalid
    cases hempty ▸ (hs.verdict.failed i what hfail)

theorem Sound.onSubscribe (hs : Sound inners s)
    (h : step inners s .onSubscribe = some t) : Sound inners t := by
  obtain ⟨hfresh, ⟨⟩⟩ := ite_none_left_eq_some.mp h
  obtain ⟨hsub, hfwd, hended, hvalid⟩ :=
    hs.gate.early (not_eq_true _ ▸ hfresh)
  have hroom := hs.gate.room hended
  have hopen : (!s.sub && s.out.valid) = true := by
    rw [hsub, hvalid]
    rfl
  unfold onSubscribe
  rw [if_pos hopen]
  refine ⟨{ hs.stream with },
    ⟨?_, nofun, ?_, nofun, ?_⟩,
    { hs.verdict with }⟩
  · intro _
    change s.outer.requested + 1 =
      s.outer.emitted + if true && s.fwdSub.isNone then 1 else 0
    rw [hroom, hsub, hfwd]
    rfl
  · intro h
    cases hended ▸ h
  · intro h
    cases hvalid ▸ h

theorem onNext_eq (i : Nat) (hsub : s.sub = true) (hfwd : s.fwdSub = none) :
    s.onNext i =
      { s with key := s.key + 1, fwdSub := some i }.setInner i
        { s.inner i with
          subscribed := true
          token := s.key + 1
          requested := (s.inner i).requested + s.inFlight } := by
  unfold onNext fwdOnSubscribe
  rw [if_pos hsub]
  simp only [setInner, hfwd, bne_self_eq_false, isSome_none,
    Bool.or_self, Bool.false_eq_true, if_false]
  split_ifs with hnone
  · simp only [requestInner, setInner, if_true]
    congr 1
    funext j
    split <;> rfl
  · rw [Nat.eq_zero_of_not_pos hnone]
    rfl

theorem Sound.onNext (hs : Sound inners s)
    (h : step inners s .onNext = some t) : Sound inners t := by
  obtain ⟨hguard, rfl⟩ := of_guard h
  simp only [and_eq_true, not_eq_true', decide_eq_true_eq] at hguard
  obtain ⟨⟨⟨-, hended⟩, hroom⟩, -⟩ := hguard
  have hreq := hs.gate.room hended
  have hopen : (s.sub && s.fwdSub.isNone) = true := by
    by_contra hclosed
    rw [if_neg hclosed] at hreq
    omega
  rw [if_pos hopen] at hreq
  rw [and_eq_true, isNone_iff_eq_none] at hopen
  obtain ⟨hsub, hfwd⟩ := hopen
  have hblank := hs.stream.blank s.outer.emitted (Nat.le_refl _)
  have hnext := onNext_eq (s := { s with
    outer := { s.outer with emitted := s.outer.emitted + 1 } })
    s.outer.emitted hsub hfwd
  simp only [hblank] at hnext
  rw [hnext]
  refine ⟨⟨hs.stream.lawful, hs.stream.account, nofun, ?_, ?_, ?_⟩,
    ⟨fun _ => ?_, ?_, ?_, ?_, ?_⟩, ⟨hs.verdict.late, ?_, ?_⟩⟩
  · rintro i ⟨⟩
    rw [setInner_self]
    refine ⟨rfl, rfl, rfl, rfl, ?_, rfl⟩
    rw [take_zero, append_nil]
    exact hs.stream.idle hfwd
  · intro j hsubscribed hruns
    by_cases hj : j = s.outer.emitted
    · rw [hj]
      rfl
    · rw [setInner_other _ _ hj] at hsubscribed hruns
      cases hfwd ▸ (hs.stream.alone j hsubscribed hruns)
  · intro j hj
    change s.outer.emitted + 1 ≤ j at hj
    rw [setInner_other _ _ (by omega)]
    exact hs.stream.blank j (by omega)
  · change s.outer.requested =
      s.outer.emitted + 1 + if s.sub && false then 1 else 0
    rw [Bool.and_false]
    exact hreq
  · intro hfresh
    cases hsub ▸ (hs.gate.early hfresh).1
  · intro hclosed
    cases hended ▸ hclosed
  · intro _ _ hclosed
    cases hsub ▸ hclosed
  · intro hinv
    cases hsub ▸ (hs.gate.finished hinv).1
  · intro j what hfail
    by_cases hj : j = s.outer.emitted
    · rw [hj, setInner_self] at hfail
      cases hfail
    · rw [setInner_other _ _ hj] at hfail
      exact hs.verdict.failed j what hfail
  · intro hinv
    cases hsub ▸ (hs.gate.finished hinv).1

theorem endEvent_isTerminal (s : ConcatSub τ) :
    s.endEvent.isTerminal = true := by
  unfold endEvent
  split <;> rfl

theorem Sound.endOuter (hs : Sound inners s) (hopen : s.outer.subscribed = true)
    (hended : s.outer.ended = false) (hlast : s.outer.emitted = inners.length)
    (err : Option Nat) (hlate : s.fwdSub.isSome = true ∨ s.out.valid = false) :
    Sound inners { s with
      sub := false, err, outer := { s.outer with ended := true } } := by
  refine ⟨{ hs.stream with },
    ⟨nofun, by simp [hopen], fun _ => ⟨rfl, hlast⟩, ?_, fun hinv => ?_⟩,
    ⟨fun _ => rfl, hs.verdict.failed, fun hinv hplain => ?_⟩⟩
  · intro hvalid _ _
    refine ⟨hlate.resolve_right fun hinv => ?_, rfl⟩
    cases hvalid ▸ hinv
  · exact ⟨rfl, (hs.gate.finished hinv).2⟩
  · cases hended ▸ (hs.verdict.plain hinv hplain).1

theorem Sound.finishOuter (hs : Sound inners s)
    (hopen : s.outer.subscribed = true)
    (hlast : s.outer.emitted = inners.length) {err : Option Nat}
    (hfwd : s.fwdSub = none) (hvalid : s.out.valid = true)
    (hevent : endEvent { s with err } = event) :
    Sound inners (finish { s with
      sub := false, err, outer := { s.outer with ended := true } } event) := by
  have hterm : event.isTerminal = true := hevent ▸ endEvent_isTerminal _
  have hdeliv := finish_delivered s.out hterm
  have hlawful := hs.stream.lawful.finish hterm hvalid
  have hend := hs.stream.lawful.ending_finish hterm hvalid
  refine ⟨⟨hlawful, ?_, fun _ => ?_, ?_, hs.stream.alone, hs.stream.blank⟩,
    ⟨nofun, ?_, fun _ => ⟨rfl, hlast⟩, nofun, fun _ => ?_⟩,
    ⟨fun _ => rfl, fun i what hfail => ?_, fun _ _ => ⟨rfl, ?_⟩⟩⟩
  · exact (congrArg (s.inFlight + List.length ·) hdeliv).trans
      hs.stream.account
  · exact hdeliv.trans (hs.stream.idle hfwd)
  · intro i hi
    cases hfwd ▸ hi
  · intro hfresh
    cases hopen ▸ hfresh
  · exact ⟨rfl, hfwd, congrArg List.length hend⟩
  · cases (hs.no_failure hvalid i) ▸ hfail
  · exact hend.trans (congrArg (fun e => [e]) hevent.symm)

theorem late_of_not_idle (h : ¬(s.fwdSub.isNone && s.out.valid) = true) :
    s.fwdSub.isSome = true ∨ s.out.valid = false := by
  cases hfwd : s.fwdSub with
  | some i => exact Or.inl rfl
  | none =>
    rw [hfwd] at h
    exact Or.inr (not_eq_true _ ▸ h)

theorem Sound.onComplete (hs : Sound inners s)
    (h : step inners s .onComplete = some t) : Sound inners t := by
  obtain ⟨hguard, rfl⟩ := of_guard h
  simp only [and_eq_true, not_eq_true', beq_iff_eq] at hguard
  obtain ⟨⟨hopen, hended⟩, hlast⟩ := hguard
  have herr : s.err = none := by
    rw [← not_isSome_iff_eq_none]
    intro hsome
    cases hended ▸ (hs.verdict.late hsome)
  unfold onComplete
  split
  · rename_i hidle
    rw [and_eq_true, isNone_iff_eq_none] at hidle
    refine hs.finishOuter hopen hlast hidle.1 hidle.2 ?_
    rw [endEvent, herr]
  · rename_i hbusy
    exact hs.endOuter hopen hended hlast s.err (late_of_not_idle hbusy)

theorem Sound.onError (hs : Sound inners s)
    (h : step inners s (.onError what) = some t) : Sound inners t := by
  obtain ⟨hguard, rfl⟩ := of_guard h
  simp only [and_eq_true, not_eq_true', beq_iff_eq] at hguard
  obtain ⟨⟨hopen, hended⟩, hlast⟩ := hguard
  unfold onError
  split
  · rename_i hidle
    rw [and_eq_true, isNone_iff_eq_none] at hidle
    exact hs.finishOuter hopen hlast hidle.1 hidle.2 rfl
  · rename_i hbusy
    exact hs.endOuter hopen hended hlast (some what) (late_of_not_idle hbusy)

theorem not_bne_key (h : token = s.key) : ¬(token != s.key) = true := by
  rw [h, bne_self_eq_false]
  exact false_ne_true

section

variable (hs : Sound inners s)
include hs

theorem Sound.stay (hfwd : s.fwdSub = some i) (hvalid : s.out.valid = true)
    (hactive : Active inners t.out t.outer.emitted t.key t.inFlight i state)
    (hfail : state.failure = (s.inner i).failure) (hlawful : t.out.Lawful)
    (hacc : t.inFlight + t.out.delivered.length = t.requested)
    (hout : t.out.valid = s.out.valid) (houter : t.outer = s.outer)
    (hsub : t.sub = s.sub) (hfwd' : t.fwdSub = s.fwdSub) (herr : t.err = s.err)
    (hinner : t.inner = (s.setInner i state).inner) : Sound inners t := by
  have hlast := hactive.last
  have hopen : t.out.valid = true := hout.trans hvalid
  have hnone : ∀ j, (t.inner j).failure = none := by
    intro j
    rw [hinner, setInner_field (fun x => x.failure) hfail]
    exact hs.no_failure hvalid j
  refine ⟨⟨hlawful, hacc, fun h => ?_, fun j hj => ?_, fun j => ?_,
    fun j hj => ?_⟩, ?_, ⟨?_, fun j what h => ?_, by simp [hopen]⟩⟩
  · rw [hfwd', hfwd] at h
    cases h
  · rw [hfwd', hfwd] at hj
    cases hj
    rw [hinner, setInner_self]
    exact hactive
  · rw [hinner, hfwd']
    intro hsubscribed hruns
    by_cases hj : j = i
    · rw [hj]
      exact hfwd
    · rw [setInner_other _ _ hj] at hsubscribed hruns
      exact hs.stream.alone j hsubscribed hruns
  · rw [hinner, setInner_other _ _ (by omega)]
    exact hs.stream.blank j (houter ▸ hj)
  · rw [houter, hsub, hfwd']
    refine ⟨hs.gate.room, fun hfresh => ?_, hs.gate.closed, fun _ => ?_,
      by simp [hopen]⟩
    · rw [hout]
      exact hs.gate.early hfresh
    · exact hs.gate.waiting hvalid
  · rw [herr, houter]
    exact hs.verdict.late
  · cases (hnone j) ▸ h

theorem Sound.fwdOnNext (h : step inners s (.fwdOnNext i) = some t) :
    Sound inners t := by
  obtain ⟨hguard, hnext⟩ := ite_none_right_eq_some.mp h
  obtain ⟨item, hitem, rfl⟩ := map_eq_some_iff.mp hnext
  simp only [and_eq_true, not_eq_true', decide_eq_true_eq] at hguard
  obtain ⟨⟨hopen, hruns⟩, hroom⟩ := hguard
  obtain ⟨hfwd, hvalid, hactive⟩ := hs.active_of_running hopen hruns
  have hdem := hactive.demand
  have hacc := hs.stream.account
  have htoken : (s.inner i).token = (s.setInner i
      { s.inner i with emitted := (s.inner i).emitted + 1 }).key :=
    hactive.token
  rw [fwdOnNext, if_neg (not_bne_key htoken)]
  refine hs.stay hfwd hvalid (hactive.next hitem hroom) rfl
    (hs.stream.lawful.onNext item hvalid) ?_ rfl rfl rfl rfl rfl rfl
  change s.inFlight - 1 + (s.out.onNext item).delivered.length = s.requested
  rw [onNext_delivered, length_append, length_singleton]
  omega

theorem Sound.request (n : Nat) :
    Sound inners ({ s with requested := s.requested + n }.request n) := by
  have hacc := hs.stream.account
  have hmore : s.inFlight + n + s.out.delivered.length = s.requested + n := by
    omega
  unfold ConcatSub.request
  split
  · rename_i i hfwd
    change s.fwdSub = some i at hfwd
    have hactive := hs.stream.active i hfwd
    have hvalid :=
      (hs.active_of_running hactive.subscribed hactive.running).2.1
    exact hs.stay hfwd hvalid (hactive.request n) rfl hs.stream.lawful hmore
      rfl rfl rfl rfl rfl rfl
  · rename_i hfwd
    change s.fwdSub = none at hfwd
    refine ⟨{ hs.stream with
      account := hmore
      active := fun i hi => ?_ }, hs.gate,
      { hs.verdict with }⟩
    cases hfwd ▸ hi

theorem Sound.leave (hfwd : s.fwdSub = some i)
    (hall : (s.inner i).emitted = (itemsAt inners i).length)
    (hended : state.ended = true) (hlawful : t.out.Lawful)
    (hdeliv : t.out.delivered = s.out.delivered)
    (hflight : t.inFlight = s.inFlight) (hreq : t.requested = s.requested)
    (hemitted : t.outer.emitted = s.outer.emitted) (hnone : t.fwdSub = none)
    (hinner : t.inner = (s.setInner i state).inner) : Stream inners t := by
  have hactive := hs.stream.active i hfwd
  have hlast := hactive.last
  refine ⟨hlawful, ?_, fun _ => ?_, by simp [hnone], fun j => ?_,
    fun j hj => ?_⟩
  · rw [hflight, hdeliv, hreq]
    exact hs.stream.account
  · rw [hdeliv, hemitted]
    rw [hactive.order, hall, take_length, ← hactive.last, flatten_take_succ]
  · rw [hinner]
    intro hsub hruns
    by_cases hj : j = i
    · rw [hj, setInner_self] at hruns
      cases hended ▸ hruns
    · rw [setInner_other _ _ hj] at hsub hruns
      have hother := hs.stream.alone j hsub hruns
      cases hfwd ▸ hother
      exact absurd rfl hj
  · rw [hinner, setInner_other _ _ (by omega)]
    exact hs.stream.blank j (by omega)

end

theorem Gate.subscribed (h : Gate n outer sub (some i) out) :
    outer.subscribed = true := by
  rw [← not_eq_false]
  intro hfresh
  cases (h.early hfresh).2.1

theorem Gate.finish (h : Gate n outer sub (some i) out)
    (hend : (out.finish event).ending = [event]) :
    Gate n outer false none (out.finish event) := by
  refine ⟨fun hended => ?_, by simp [h.subscribed], fun hended => ?_, nofun,
    fun _ => ⟨rfl, rfl, congrArg List.length hend⟩⟩
  · have hroom := h.room hended
    rw [isNone_some, Bool.and_false] at hroom
    exact hroom
  · exact ⟨rfl, (h.closed hended).2⟩

theorem Sound.fwdOnComplete (hs : Sound inners s)
    (h : step inners s (.fwdOnComplete i) = some t) : Sound inners t := by
  obtain ⟨hguard, rfl⟩ := of_guard h
  simp only [and_eq_true, not_eq_true', beq_iff_eq] at hguard
  obtain ⟨⟨hopen, hruns⟩, hall⟩ := hguard
  obtain ⟨hfwd, hvalid, hactive⟩ := hs.active_of_running hopen hruns
  have htoken : (s.inner i).token =
      (s.setInner i { s.inner i with ended := true }).key := hactive.token
  have hgate := hs.gate
  rw [hfwd] at hgate
  have hsame : ({ s.inner i with ended := true } : InnerState).failure =
      (s.inner i).failure := rfl
  have hplain : ∀ j, ((s.setInner i
      { s.inner i with ended := true }).inner j).failure = none :=
    fun j => (setInner_field (fun x => x.failure) hsame j).trans
      (hs.no_failure hvalid j)
  rw [fwdOnComplete, if_neg (not_bne_key htoken)]
  split_ifs with hsub
  · change s.sub = true at hsub
    have hended : s.outer.ended = false := by
      rw [← not_eq_true]
      intro hended
      cases hsub ▸ (hgate.closed hended).1
    have hroom := hgate.room hended
    refine ⟨hs.leave hfwd hall rfl hs.stream.lawful rfl rfl rfl rfl rfl rfl,
      ⟨fun _ => ?_, fun hfresh => ?_, fun h => ?_, fun _ _ h => ?_,
        fun h => ?_⟩,
      ⟨hs.verdict.late, fun j what hfail => ?_, fun h => ?_⟩⟩
    · change s.outer.requested + 1 = s.outer.emitted +
        if s.sub && true then 1 else 0
      rw [hroom, hsub]
      rfl
    · cases hgate.subscribed ▸ hfresh
    · cases hended ▸ h
    · cases hsub ▸ h
    · cases hvalid ▸ h
    · cases (hplain j) ▸ hfail
    · cases hvalid ▸ h
  · have hclosed : s.sub = false := not_eq_true _ ▸ hsub
    have hterm := endEvent_isTerminal s
    have hend := hs.stream.lawful.ending_finish hterm hvalid
    have hended := (hgate.waiting hvalid hgate.subscribed hclosed).2
    have hgate' := hgate.finish hend
    rw [← hclosed] at hgate'
    refine ⟨hs.leave hfwd hall rfl (hs.stream.lawful.finish hterm hvalid)
      (finish_delivered s.out hterm) rfl rfl rfl rfl rfl, hgate',
      ⟨hs.verdict.late, fun j what hfail => ?_,
        fun _ _ => ⟨hended, hend⟩⟩⟩
    cases (hplain j) ▸ hfail

theorem Sound.fwdOnError (hs : Sound inners s)
    (h : step inners s (.fwdOnError i what) = some t) : Sound inners t := by
  obtain ⟨hguard, rfl⟩ := of_guard h
  simp only [and_eq_true, not_eq_true', beq_iff_eq] at hguard
  obtain ⟨⟨hopen, hruns⟩, hall⟩ := hguard
  obtain ⟨hfwd, hvalid, hactive⟩ := hs.active_of_running hopen hruns
  have htoken : (s.inner i).token = (s.setInner i
      { s.inner i with ended := true, failure := some what }).key :=
    hactive.token
  have hgate := hs.gate
  rw [hfwd] at hgate
  have hend : (s.out.finish (.error (some what))).ending =
      [.error (some what)] := hs.stream.lawful.ending_finish rfl hvalid
  rw [fwdOnError, if_neg (not_bne_key htoken)]
  refine ⟨hs.leave hfwd hall rfl (hs.stream.lawful.finish rfl hvalid)
    (finish_delivered s.out rfl) rfl rfl rfl rfl rfl,
    hgate.finish hend,
    ⟨hs.verdict.late, fun j reason hfail => ?_, fun _ hplain => ?_⟩⟩
  · change ((s.setInner i _).inner j).failure = some reason at hfail
    by_cases hj : j = i
    · rw [hj, setInner_self] at hfail
      cases hfail
      exact hend
    · rw [setInner_other _ _ hj] at hfail
      cases (hs.no_failure hvalid j) ▸ hfail
  · have hnone := hplain i
    change ((s.setInner i _).inner i).failure = none at hnone
    rw [setInner_self] at hnone
    cases hnone

theorem step_sound (a : ConcatAction) (hs : Sound inners s)
    (h : step inners s a = some t) : Sound inners t := by
  cases a with
  | onSubscribe => exact hs.onSubscribe h
  | onNext => exact hs.onNext h
  | onComplete => exact hs.onComplete h
  | onError what => exact hs.onError h
  | fwdOnNext i => exact hs.fwdOnNext h
  | fwdOnComplete i => exact hs.fwdOnComplete h
  | fwdOnError i what => exact hs.fwdOnError h
  | request n =>
    cases h
    exact hs.request n

theorem exec_sound {as : List ConcatAction}
    (hrun : exec (step inners) {} as = some t) : Sound inners t :=
  exec_invariant (Sound inners) (fun _ a _ => step_sound a)
    sound_initial hrun

theorem Sound.delivered_prefix (hs : Sound inners s) :
    s.out.delivered <+: inners.flatten := by
  have htake : ∀ n, (inners.take n).flatten <+: inners.flatten := by
    intro n
    exact ⟨(inners.drop n).flatten,
      by rw [← flatten_append, take_append_drop]⟩
  cases hfwd : s.fwdSub with
  | none =>
    rw [hs.stream.idle hfwd]
    exact htake _
  | some i =>
    rw [(hs.stream.active i hfwd).order]
    refine List.IsPrefix.trans ?_ (htake (i + 1))
    rw [flatten_take_succ]
    exact prefix_append_right_inj _ |>.mpr (List.take_prefix _ _)

theorem Sound.ended_of_ending (hs : Sound inners s) (h : s.out.ending ≠ [])
    (hopen : (s.inner i).subscribed = true) : (s.inner i).ended = true := by
  have hnone := (hs.gate.finished (hs.stream.lawful.invalid_of_ending h)).2.1
  rw [← not_eq_false]
  intro hruns
  cases hnone ▸ (hs.stream.alone i hopen hruns)

theorem Sound.invalid_of_ended (hs : Sound inners s)
    (hended : s.outer.ended = true)
    (hall : ∀ i, (s.inner i).subscribed = true → (s.inner i).ended = true) :
    s.out.valid = false := by
  rw [← not_eq_true]
  intro hvalid
  have hopen : s.outer.subscribed = true := by
    rw [← not_eq_false]
    intro hfresh
    cases hended ▸ (hs.gate.early hfresh).2.2.1
  have hsub := (hs.gate.closed hended).1
  obtain ⟨i, hfwd⟩ :=
    isSome_iff_exists.mp (hs.gate.waiting hvalid hopen hsub).1
  have hactive := hs.stream.active i hfwd
  cases hactive.running ▸ (hall i hactive.subscribed)

theorem concat_delivers_in_order (inners : List (List τ))
    (as : List ConcatAction) (t : ConcatSub τ)
    (hrun : exec (step inners) {} as = some t) :
    t.out.delivered <+: inners.flatten ∧
      t.out.delivered.length ≤ t.requested ∧
      t.inFlight = t.requested - t.out.delivered.length ∧
      (∀ i, t.fwdSub = some i →
        (t.inner i).requested = (t.inner i).emitted + t.inFlight) ∧
      t.out.events = t.out.delivered.map .next ++ t.out.ending ∧
      t.out.ending.length ≤ 1 ∧
      (t.out.ending ≠ [] → ∀ i, (t.inner i).subscribed = true →
        (t.inner i).ended = true) ∧
      (∀ i what, (t.inner i).failure = some what →
        t.out.ending = [.error (some what)]) ∧
      ((∀ i, (t.inner i).failure = none) → t.outer.ended = true →
        (∀ i, (t.inner i).subscribed = true → (t.inner i).ended = true) →
        t.out.ending = [t.endEvent]) ∧
      ((∀ i, (t.inner i).failure = none) → t.outer.ended = false →
        t.out.ending = []) ∧
      (.complete ∈ t.out.ending → t.out.delivered = inners.flatten) := by
  have ht := exec_sound hrun
  have haccount := ht.stream.account
  refine ⟨ht.delivered_prefix, by omega, by omega,
    fun i hi => (ht.stream.active i hi).demand, ht.stream.lawful.shape,
    ht.stream.lawful.once, fun h _ => ht.ended_of_ending h,
    ht.verdict.failed, fun hplain hended hall => ?_,
    fun hplain hended => ?_, fun hcompl => ?_⟩
  · exact (ht.verdict.plain (ht.invalid_of_ended hended hall) hplain).2
  · by_contra hend
    have hinvalid := ht.stream.lawful.invalid_of_ending hend
    cases hended ▸ (ht.verdict.plain hinvalid hplain).1
  · have hinvalid :=
      ht.stream.lawful.invalid_of_ending (List.ne_nil_of_mem hcompl)
    have hplain : ∀ i, (t.inner i).failure = none := by
      intro i
      cases hfailure : (t.inner i).failure with
      | none => rfl
      | some what =>
        rw [ht.verdict.failed i what hfailure] at hcompl
        cases List.mem_singleton.mp hcompl
    have hended := (ht.verdict.plain hinvalid hplain).1
    have hlast := (ht.gate.closed hended).2
    rw [ht.stream.idle (ht.gate.finished hinvalid).2.1, hlast, List.take_length]

def lateError : List ConcatAction :=
  [.onSubscribe, .request 1, .onNext, .fwdOnNext 0, .request 3, .fwdOnNext 0,
    .fwdOnComplete 0, .onNext, .onError 7, .fwdOnNext 1, .fwdOnComplete 1]

theorem concat_delivers_in_order_late_error :
    ∃ t, exec (step [[10, 11], [20]]) {} lateError = some t ∧
      t.out.events = [.next 10, .next 11, .next 20, .error (some 7)] ∧
      t.out.delivered <+: [10, 11, 20] := by
  have hevs : (exec (step [[10, 11], [20]]) {} lateError).map
      (fun t => t.out.events) =
        some [.next 10, .next 11, .next 20, .error (some 7)] := by
    decide +kernel
  obtain ⟨t, hrun, ht⟩ := Option.map_eq_some_iff.mp hevs
  exact ⟨t, hrun, ht, (concat_delivers_in_order _ _ t hrun).1⟩

/-- While an observable runs, the outer source is not asked for another. -/
theorem concat_runs_one_by_one {as : List ConcatAction}
    (hrun : exec (step inners) {} as = some t)
    (hsub : (t.inner i).subscribed = true) (hruns : (t.inner i).ended = false) :
    i + 1 = t.outer.emitted ∧
      (t.outer.ended = false → t.outer.requested = i + 1) := by
  have ht := exec_sound hrun
  have hfwd := ht.stream.alone i hsub hruns
  have hlast := (ht.stream.active i hfwd).last
  refine ⟨hlast, fun hopen => ?_⟩
  rw [ht.gate.room hopen, hfwd, hlast]
  simp

theorem concat_runs_one_by_one_first :
    ∃ t, exec (step [[7]]) {} [.onSubscribe, .onNext] = some t ∧
      0 + 1 = t.outer.emitted := by
  refine ⟨?t, ?hrun, (concat_runs_one_by_one ?hrun ?_ ?_).1⟩
  case hrun => rfl
  all_goals rfl

end ConcatSub

end ActorFramework.Flow
