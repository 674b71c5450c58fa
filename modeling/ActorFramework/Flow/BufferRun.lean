import ActorFramework.Flow.Buffer

/-!
# Runs of the buffer operator

What the observer got and what is in the buffer are the items that came while
the operator was running, in order.  The operator asks its input for as many
items as fit into the buffer, so a batch is never too large.
-/

namespace ActorFramework.Flow

open Foundation List Option BufferSub

variable {τ : Type*}

namespace BufferSub

variable {cfg : BufferConfig} {s t : BufferSub τ}

structure Core (cfg : BufferConfig) (out : Observer (List τ))
    (buf accepted : List τ) (undefined disposed : Bool) (requested : Nat) :
    Prop where
  lawful : out.Lawful
  defined : undefined = false
  small : ∀ batch ∈ out.delivered, batch.length ≤ cfg.maxBufSize
  bound : out.delivered.length ≤ requested
  taken : out.delivered.flatten <+: accepted
  flow : out.valid = true → out.delivered.flatten ++ buf = accepted
  drained : out.valid = false → disposed = false →
    out.delivered.flatten = accepted ∧ out.ending ≠ []

section Core

variable {out : Observer (List τ)} {buf accepted : List τ}
  {undefined disposed : Bool} {requested : Nat}

theorem flatten_onNext (out : Observer (List τ)) (batch : List τ) :
    (out.onNext batch).delivered.flatten =
      out.delivered.flatten ++ batch := by
  simp

theorem Core.emit (h : Core cfg out buf accepted undefined disposed requested)
    (hvalid : out.valid = true) (hsmall : buf.length ≤ cfg.maxBufSize)
    (hroom : out.delivered.length < requested) :
    Core cfg (out.onNext buf) [] accepted (undefined || !out.valid) disposed
      requested := by
  have hflow := h.flow hvalid
  have hall : (out.onNext buf).delivered.flatten = accepted := by
    rw [flatten_onNext, hflow]
  refine ⟨h.lawful.onNext buf hvalid, by simp [h.defined, hvalid], ?_, ?_, ?_,
    fun _ => ?_, by simp [hvalid]⟩
  · intro batch hbatch
    rw [Observer.onNext_delivered, mem_append, mem_singleton]
      at hbatch
    rcases hbatch with hold | rfl
    · exact h.small batch hold
    · exact hsmall
  · simp
    omega
  · simp only [hall, prefix_rfl]
  · rw [hall, append_nil]

theorem Core.finish {event : FlowEvent (List τ)}
    (h : Core cfg out [] accepted undefined disposed requested)
    (hvalid : out.valid = true) (hterm : event.isTerminal = true) :
    Core cfg (out.finish event) [] accepted (undefined || !out.valid) disposed
      requested := by
  have hdeliv := Observer.finish_delivered out hterm
  have hall := h.flow hvalid
  rw [append_nil] at hall
  refine ⟨h.lawful.finish hterm hvalid, by simp [h.defined, hvalid], ?_,
    ?_, ?_, nofun, fun _ _ => ⟨?_, ?_⟩⟩
  · rw [hdeliv]
    exact h.small
  · rw [hdeliv]
    exact h.bound
  · rw [hdeliv]
    exact h.taken
  · rw [hdeliv, hall]
  · rw [h.lawful.ending_finish hterm hvalid]
    exact cons_ne_nil _ _

end Core

structure Inputs (accepted : List τ) (value : InnerSource τ)
    (control : SourceState) (disposed : Bool) (state : OpState) : Prop where
  kept : accepted <+: value.items
  whole : control.ended = false → disposed = false → accepted = value.items
  credit : value.items.length ≤ value.requested
  live : state = .running ↔
    value.ended = false ∧ control.ended = false ∧ disposed = false

structure Sound (cfg : BufferConfig) (s : BufferSub τ) : Prop where
  core : Core cfg s.out s.buf s.accepted s.undefined s.disposed s.requested
  inputs : Inputs s.accepted s.value s.control s.disposed s.state
  room : s.out.valid = true →
    s.value.requested ≤ cfg.maxBufSize + s.out.delivered.flatten.length
  account : s.out.valid = true → s.out.delivered.length + s.demand ≤ s.requested
  phase : s.out.valid = true → s.state = .running ∨
    s.state.hasShutDown = true ∧ s.buf ≠ []
  stopped : s.out.valid = false → s.state ≠ .running
  subs : (s.valueSub || s.controlSub) = true → s.state = .running
  early : s.subscribed = false → s.state = .running
  fresh : s.value.subscribed = false →
    s.value.requested = 0 ∧ s.valueSub = false

theorem sound_initial : Sound cfg ({} : BufferSub τ) := by
  refine ⟨⟨Observer.lawful_initial, rfl, nofun, Nat.le_refl 0,
    prefix_rfl, fun _ => rfl, nofun⟩, ⟨prefix_rfl, fun _ _ => rfl,
    Nat.le_refl 0, by simp⟩, fun _ => Nat.zero_le _, fun _ => Nat.le_refl 0,
    fun _ => .inl rfl, nofun, nofun, fun _ => rfl, fun _ => ⟨rfl, rfl⟩⟩

theorem Sound.valid_of_running (h : Sound cfg s)
    (hruns : s.state = .running) : s.out.valid = true := by
  cases hvalid : s.out.valid with
  | true => rfl
  | false => exact absurd hruns (h.stopped hvalid)

theorem Sound.buf_le (h : Sound cfg s) (hvalid : s.out.valid = true) :
    s.buf.length ≤ cfg.maxBufSize := by
  have hflow := congrArg List.length (h.core.flow hvalid)
  rw [length_append] at hflow
  have hkept := h.inputs.kept.length_le
  have hcredit := h.inputs.credit
  have hroom := h.room hvalid
  omega

theorem running_iff : s.running = true ↔ s.state = .running := by
  simp [running]

theorem Sound.doEmit (h : Sound cfg s) (hruns : s.state = .running) :
    Sound cfg s.doEmit := by
  have hvalid := h.valid_of_running hruns
  unfold BufferSub.doEmit
  by_cases hzero : s.demand = 0
  · rw [if_pos hzero]
    exact h
  · rw [if_neg hzero]
    have hacc := h.account hvalid
    have hcore := h.core.emit hvalid (h.buf_le hvalid) (by omega)
    have hroom := h.room hvalid
    have hmore := congrArg List.length (flatten_onNext s.out s.buf)
    rw [length_append] at hmore
    have hlater : s.out.delivered.length + 1 + (s.demand - 1) ≤
        s.requested := by
      omega
    split
    · refine ⟨hcore, { h.inputs with
        credit := Nat.le_add_right_of_le h.inputs.credit }, fun _ => ?_,
        fun _ => ?_, fun _ => .inl hruns, ?_, fun _ => hruns,
        fun _ => hruns, fun hfresh => ?_⟩
      · change s.value.requested + s.buf.length ≤
          cfg.maxBufSize + (s.out.onNext s.buf).delivered.flatten.length
        omega
      · simpa [requestValue, emitBatch] using hlater
      · intro hinv
        cases hvalid ▸ hinv
      · rename_i hsub
        simp [(h.fresh hfresh).2] at hsub
    · refine ⟨hcore, h.inputs, fun _ => ?_, fun _ => ?_,
        fun _ => .inl hruns, ?_, fun _ => hruns, fun _ => hruns,
        h.fresh⟩
      · change s.value.requested ≤
          cfg.maxBufSize + (s.out.onNext s.buf).delivered.flatten.length
        omega
      · simpa [emitBatch] using hlater
      · intro hinv
        cases hvalid ▸ hinv

section

variable (hcore : Core cfg s.out s.buf s.accepted s.undefined
  s.disposed s.requested)
include hcore

theorem Sound.of_stopped
    (hinputs : Inputs s.accepted s.value s.control s.disposed s.state)
    (hinv : s.out.valid = false) (hstate : s.state ≠ .running)
    (hsubs : (s.valueSub || s.controlSub) = false) (hopen : s.subscribed = true)
    (hfresh : s.value.subscribed = false → s.value.requested = 0) :
    Sound cfg s := by
  obtain ⟨hvalueSub, -⟩ := Bool.or_eq_false_iff.mp hsubs
  refine ⟨hcore, hinputs, ?_, ?_, ?_, fun _ => hstate, by simp [hsubs],
    by simp [hopen], fun hnew => ⟨hfresh hnew, hvalueSub⟩⟩
  · simp [hinv]
  · simp [hinv]
  · simp [hinv]

theorem Core.shutdownNow
    (hinputs : Inputs s.accepted s.value s.control s.disposed .disposed)
    (hvalid : s.out.valid = true) (hsmall : s.buf.length ≤ cfg.maxBufSize)
    (hready : s.buf = [] ∨ s.out.delivered.length < s.requested)
    (hsubs : (s.valueSub || s.controlSub) = false) (hopen : s.subscribed = true)
    (hfresh : s.value.subscribed = false → s.value.requested = 0) :
    Sound cfg s.shutdownNow := by
  have hterm := FlowEvent.isTerminal_ofErr (τ := List τ) s.err
  unfold BufferSub.shutdownNow
  by_cases hempty : s.buf = []
  · rw [if_pos (List.isEmpty_iff.mpr hempty)]
    rw [hempty] at hcore
    refine .of_stopped ?_ hinputs rfl nofun hsubs hopen hfresh
    simpa [BufferSub.finish, hempty] using hcore.finish hvalid hterm
  · rw [if_neg (by simpa using hempty)]
    have hemitted := hcore.emit hvalid hsmall (hready.resolve_left hempty)
    exact .of_stopped (hemitted.finish hvalid hterm) hinputs rfl nofun
      hsubs hopen hfresh

end

section

variable (h : Sound cfg s)
include h

theorem Sound.shutdown (hopen : s.subscribed = true) {value : InnerSource τ}
    {control : SourceState} (valueSub controlSub : Bool) (err : Option Nat)
    (hval : value.requested = s.value.requested)
    (hsub : value.subscribed = s.value.subscribed)
    (hinputs : ∀ state, state ≠ .running → Inputs s.accepted value control
      s.disposed state) :
    Sound cfg ({ s with
      value := value
      control := control
      valueSub := valueSub
      controlSub := controlSub
      err := err }.shutdown) := by
  have hroom := h.room
  have hfresh : value.subscribed = false → value.requested = 0 := by
    rw [hval, hsub]
    exact fun hnew => (h.fresh hnew).1
  rw [← hval] at hroom
  have hlate : s.subscribed = false → ∀ P : Prop, P := by
    intro hearly
    cases hopen ▸ hearly
  unfold BufferSub.shutdown
  split
  · rename_i hruns
    split
    · have hstate : (if err.isSome then OpState.aborted
          else OpState.completed) ≠ .running := by
        split <;> decide
      refine ⟨h.core, hinputs _ hstate, hroom, h.account,
        fun _ => .inr ⟨?_, by simp_all⟩, fun _ => hstate, nofun,
        fun hearly => hlate hearly _, fun hnew => ⟨hfresh hnew, rfl⟩⟩
      change OpState.hasShutDown (if err.isSome then _ else _) = true
      split <;> rfl
    · rename_i hwait
      have hvalid := h.valid_of_running (running_iff.mp hruns)
      have hready : s.buf = [] ∨ s.out.delivered.length < s.requested := by
        have hacc := h.account hvalid
        rw [Decidable.or_iff_not_imp_left]
        intro hbuf
        have hdem : s.demand ≠ 0 := by simpa [hbuf] using hwait
        omega
      exact Core.shutdownNow h.core (hinputs .disposed nofun) hvalid
        (h.buf_le hvalid) hready rfl hopen hfresh
  · rename_i hruns
    exact ⟨h.core, hinputs _ (mt running_iff.mpr hruns), hroom, h.account,
      h.phase, h.stopped, nofun, fun hearly => hlate hearly _,
      fun hnew => ⟨hfresh hnew, rfl⟩⟩

theorem Sound.control_ended (state : OpState) (hstate : state ≠ .running) :
    Inputs s.accepted s.value { s.control with ended := true } s.disposed
      state := by
  refine ⟨h.inputs.kept, nofun, h.inputs.credit, ?_⟩
  simp [hstate]

theorem Sound.fwdOnSubscribeValue
    (hstep : step cfg s .fwdOnSubscribeValue = some t) : Sound cfg t := by
  obtain ⟨hguard, ⟨⟩⟩ := ite_none_left_eq_some.mp hstep
  simp only [Bool.or_eq_true, not_or, Bool.not_eq_true] at hguard
  have hzero := (h.fresh hguard.1).1
  have hinputs : Inputs s.accepted { s.value with subscribed := true }
      s.control s.disposed s.state :=
    { h.inputs with }
  unfold fwdOnSubscribeValue
  split_ifs with hguard
  · exact { h with inputs := hinputs, fresh := nofun }
  · simp only [Bool.or_eq_true, Bool.not_eq_true', not_or,
      Bool.not_eq_false] at hguard
    have hruns := running_iff.mp hguard.1.1
    refine ⟨h.core, { hinputs with
      credit := Nat.le_add_right_of_le hinputs.credit }, fun _ => ?_,
      h.account, h.phase, h.stopped, fun _ => hruns, h.early, nofun⟩
    change s.value.requested + cfg.maxBufSize ≤ _
    rw [hzero, Nat.zero_add]
    exact Nat.le_add_right _ _

theorem Sound.fwdOnSubscribeControl
    (hstep : step cfg s .fwdOnSubscribeControl = some t) : Sound cfg t := by
  obtain ⟨-, ⟨⟩⟩ := ite_none_left_eq_some.mp hstep
  have hinputs : Inputs s.accepted s.value
      { s.control with subscribed := true } s.disposed s.state :=
    { h.inputs with }
  unfold fwdOnSubscribeControl
  split_ifs with hguard
  · exact { h with inputs := hinputs }
  · simp only [Bool.or_eq_true, Bool.not_eq_true', not_or,
      Bool.not_eq_false] at hguard
    have hruns := running_iff.mp hguard.1.1
    refine { h with
      core := { h.core with defined := ?_ }
      inputs := { hinputs with }
      subs := fun _ => hruns }
    simp [requestControl, h.core.defined]

theorem Sound.fwdOnNextValue {item : τ}
    (hstep : step cfg s (.fwdOnNextValue item) = some t) : Sound cfg t := by
  obtain ⟨hguard, rfl⟩ := of_guard hstep
  simp only [Bool.and_eq_true, Bool.not_eq_true', decide_eq_true_eq] at hguard
  obtain ⟨hopen, hroom⟩ := hguard
  have hcredit : (s.value.items ++ [item]).length ≤ s.value.requested := by
    simp
    omega
  by_cases hruns : s.state = .running
  · have hvalid := h.valid_of_running hruns
    obtain ⟨-, hctrl, hkept⟩ := h.inputs.live.mp hruns
    have hwhole := h.inputs.whole hctrl hkept
    have hnext : Sound cfg { s with
        value := { s.value with items := s.value.items ++ [item] }
        buf := s.buf ++ [item]
        accepted := s.accepted ++ [item] } := by
      refine ⟨{ h.core with
        taken := h.core.taken.trans (prefix_append _ _)
        flow := fun _ => ?_
        drained := ?_ },
        ⟨?_, fun _ _ => ?_, hcredit, h.inputs.live⟩, h.room, h.account,
        fun _ => .inl hruns, h.stopped, h.subs, h.early, h.fresh⟩
      · rw [← append_assoc, h.core.flow hvalid]
      · simp [hvalid]
      · simp [hwhole]
      · rw [hwhole]
    unfold fwdOnNextValue
    split
    · split
      · exact hnext.doEmit hruns
      · exact hnext
    · rename_i hstate
      exact absurd (running_iff.mpr hruns) hstate
  · have hcut : ¬ (s.control.ended = false ∧ s.disposed = false) :=
      fun hlive => hruns (h.inputs.live.mpr ⟨hopen, hlive⟩)
    unfold fwdOnNextValue
    split
    · rename_i hstate
      exact absurd (running_iff.mp hstate) hruns
    · exact ⟨h.core, ⟨h.inputs.kept.trans (prefix_append _ _),
        fun hctrl hkept => absurd ⟨hctrl, hkept⟩ hcut, hcredit,
        h.inputs.live⟩, h.room, h.account, h.phase, h.stopped, h.subs,
        h.early, h.fresh⟩

end

theorem doEmit_controlSub (s : BufferSub τ) :
    s.doEmit.controlSub = s.controlSub := by
  unfold doEmit
  split
  · rfl
  · split <;> rfl

section

variable (h : Sound cfg s)
include h

theorem Sound.requestControl (hsub : s.controlSub = true) :
    Sound cfg s.requestControl := by
  refine { h with
    core := { h.core with defined := ?_ }
    inputs := { h.inputs with } }
  simp [BufferSub.requestControl, h.core.defined, hsub]

theorem Sound.fwdOnNextControl (hsub : s.controlSub = true)
    (hstep : step cfg s .fwdOnNextControl = some t) : Sound cfg t := by
  obtain ⟨-, rfl⟩ := of_guard hstep
  have hruns := h.subs (by simp [hsub])
  have hnext : Sound cfg { s with control := { s.control with
      emitted := s.control.emitted + 1 } } :=
    { h with inputs := { h.inputs with } }
  unfold fwdOnNextControl
  split
  · exact hnext.requestControl hsub
  · refine (hnext.doEmit hruns).requestControl ?_
    rw [doEmit_controlSub]
    exact hsub

theorem Sound.request (n : Nat) :
    Sound cfg ({ s with requested := s.requested + n }.request cfg n) := by
  refine { h with
    core := { h.core with bound := Nat.le_add_right_of_le h.core.bound }
    account := fun hvalid => ?_ }
  have hacc := h.account hvalid
  change s.out.delivered.length + (s.demand + n) ≤ s.requested + n
  omega

theorem Sound.emitLast (hvalid : s.out.valid = true)
    (hstate : s.state ≠ .running) (hdem : s.demand ≠ 0) :
    Sound cfg s.doEmit.finish := by
  have hsubs : (s.valueSub || s.controlSub) = false := by
    rw [← Bool.not_eq_true]
    exact fun hsub => hstate (h.subs hsub)
  have hopen : s.subscribed = true := by
    rw [← Bool.not_eq_false]
    exact fun hearly => hstate (h.early hearly)
  have hvalueSub := (Bool.or_eq_false_iff.mp hsubs).1
  have hacc := h.account hvalid
  have hcore := h.core.emit hvalid (h.buf_le hvalid) (by omega)
  unfold BufferSub.doEmit
  rw [if_neg hdem, if_neg (by simp [hvalueSub])]
  exact .of_stopped
    (hcore.finish hvalid (FlowEvent.isTerminal_ofErr s.err)) h.inputs rfl
    hstate hsubs hopen fun hnew => (h.fresh hnew).1

theorem Sound.onRequest (hatt : s.demand ≠ 0 → s.out.valid = true) :
    Sound cfg (s.onRequest cfg) := by
  unfold BufferSub.onRequest
  split
  · exact h
  · rename_i hready
    simp only [Bool.or_eq_true, decide_eq_true_eq, not_or] at hready
    have hvalid := hatt hready.1
    rcases h.phase hvalid with hruns | ⟨hshut, hbuf⟩
    · rw [if_pos (running_iff.mpr hruns)]
      exact h.doEmit hruns
    · have hstate : s.state ≠ .running := by
        intro hruns
        rw [hruns] at hshut
        cases hshut
      rw [if_neg (running_iff.not.mpr hstate), if_neg (by simpa using hbuf)]
      exact h.emitLast hvalid hstate hready.1

theorem Sound.dispose {fromExternal : Bool}
    (hstep : step cfg s (.dispose fromExternal) = some t) : Sound cfg t := by
  obtain ⟨hopen, rfl⟩ := of_guard hstep
  cases hvalid : s.out.valid with
  | false => simpa [doDispose, hvalid] using h
  | true =>
    have hinputs : Inputs s.accepted s.value s.control (s.disposed || true)
        .disposed :=
      ⟨h.inputs.kept, by simp, h.inputs.credit, by simp⟩
    have hfresh : s.value.subscribed = false → s.value.requested = 0 :=
      fun hnew => (h.fresh hnew).1
    unfold doDispose
    rw [if_neg (by simp [hvalid])]
    cases fromExternal with
    | false =>
      refine .of_stopped ⟨h.core.lawful.release, h.core.defined,
        h.core.small, h.core.bound, h.core.taken, nofun, ?_⟩ hinputs rfl
        nofun rfl hopen hfresh
      simp
    | true =>
      have hdeliv : (s.out.finish .disposed).delivered = s.out.delivered :=
        Observer.finish_delivered s.out rfl
      refine .of_stopped ⟨h.core.lawful.finish rfl hvalid,
        h.core.defined, ?_, ?_, ?_, nofun, ?_⟩ hinputs rfl nofun rfl
        hopen hfresh
      · rw [if_pos rfl, hdeliv]
        exact h.core.small
      · rw [if_pos rfl, hdeliv]
        exact h.core.bound
      · rw [if_pos rfl, hdeliv]
        exact h.core.taken
      · simp

end

/-- When no handle is used after it was released: an action with demand finds
the observer, a tick the control subscription, and the inputs do not end before the
observer has its subscription. -/
def Attached (s : BufferSub τ) : BufferAction τ → Prop
  | .onRequest => s.demand ≠ 0 → s.out.valid = true
  | .fwdOnNextControl => s.controlSub = true
  | .fwdOnCompleteValue => s.subscribed = true
  | .fwdOnErrorValue _ => s.subscribed = true
  | .fwdOnCompleteControl => s.subscribed = true
  | .fwdOnErrorControl _ => s.subscribed = true
  | _ => True

theorem step_sound (h : Sound cfg s) {a : BufferAction τ}
    (hatt : s.Attached a) (hstep : step cfg s a = some t) :
    Sound cfg t := by
  cases a with
  | fwdOnSubscribeValue => exact h.fwdOnSubscribeValue hstep
  | fwdOnNextValue item => exact h.fwdOnNextValue hstep
  | fwdOnCompleteValue | fwdOnErrorValue what =>
    obtain ⟨-, ⟨⟩⟩ := ite_none_left_eq_some.mp hstep
    exact h.shutdown hatt _ _ _ rfl rfl fun _ hstate =>
      { h.inputs with live := by simp [hstate] }
  | fwdOnSubscribeControl => exact h.fwdOnSubscribeControl hstep
  | fwdOnNextControl => exact h.fwdOnNextControl hatt hstep
  | fwdOnCompleteControl =>
    obtain ⟨-, ⟨⟩⟩ := ite_none_left_eq_some.mp hstep
    unfold fwdOnCompleteControl
    split
    · exact h.shutdown hatt _ _ _ rfl rfl h.control_ended
    · exact h.shutdown hatt _ _ _ rfl rfl h.control_ended
  | fwdOnErrorControl what =>
    obtain ⟨-, ⟨⟩⟩ := ite_none_left_eq_some.mp hstep
    exact h.shutdown hatt _ _ _ rfl rfl h.control_ended
  | subscribe =>
    obtain ⟨hguard, ⟨⟩⟩ := ite_none_left_eq_some.mp hstep
    have hruns := h.early (by simpa using hguard)
    unfold subscribe
    rw [if_pos (running_iff.mpr hruns)]
    exact { h with early := nofun }
  | request n =>
    obtain ⟨-, rfl⟩ := of_guard hstep
    exact h.request n
  | onRequest =>
    obtain ⟨-, rfl⟩ := of_guard hstep
    have hnext : Sound cfg { s with scheduled := s.scheduled - 1 } :=
      { h with }
    exact hnext.onRequest hatt
  | dispose fromExternal => exact h.dispose hstep

theorem exec_sound {actions : List (BufferAction τ)}
    (hatt : Along (step cfg) Attached {} actions)
    (hrun : exec (step cfg) {} actions = some s) : Sound cfg s :=
  exec_invariant_along (Sound cfg)
    (fun _ _ _ h hguard hstep => step_sound h hguard hstep) sound_initial
    hatt hrun

/-- The batches have the items in order.  If it was the input that ended, then
all of its items were emitted before the terminal event. -/
theorem buffer_emits_in_order {actions : List (BufferAction τ)}
    (hattached : Along (step cfg) Attached {} actions)
    (hrun : exec (step cfg) {} actions = some s) :
    s.undefined = false ∧ s.out.Lawful ∧
      s.out.delivered.flatten <+: s.value.items ∧
      (∀ batch ∈ s.out.delivered, batch.length ≤ cfg.maxBufSize) ∧
      s.out.delivered.length ≤ s.requested ∧
      (s.out.valid = true →
        s.out.delivered.flatten ++ s.buf = s.accepted ∧
          (s.value.ended = true → s.buf ≠ [])) ∧
      (s.disposed = false → s.out.ending ≠ [] →
        s.out.delivered.flatten = s.accepted ∧
          (s.control.ended = false →
            s.out.delivered.flatten = s.value.items)) := by
  have h := exec_sound hattached hrun
  refine ⟨h.core.defined, h.core.lawful, h.core.taken.trans h.inputs.kept,
    h.core.small, h.core.bound, fun hvalid => ⟨h.core.flow hvalid, ?_⟩,
    fun hkept hend => ?_⟩
  · intro hended
    rcases h.phase hvalid with hrunning | hwaiting
    · cases hended ▸ (h.inputs.live.mp hrunning).1
    · exact hwaiting.2
  · have hinvalid := h.core.lawful.invalid_of_ending hend
    have hall := (h.core.drained hinvalid hkept).1
    refine ⟨hall, fun hctrl => ?_⟩
    rw [hall, h.inputs.whole hctrl hkept]

def lateDemand : List (BufferAction Nat) :=
  [.fwdOnSubscribeValue, .fwdOnSubscribeControl, .subscribe, .request 1,
    .fwdOnNextValue 1, .fwdOnNextControl, .fwdOnNextValue 2,
    .fwdOnErrorValue 7, .request 1, .onRequest]

theorem buffer_emits_in_order_late_demand :
    ∃ s, exec (step ⟨2, false⟩) {} lateDemand = some s ∧
      s.out.events = [.next [1], .next [2], .error (some 7)] ∧
      s.undefined = false := by
  have hevs : (exec (step ⟨2, false⟩) {} lateDemand).map
      (fun s => s.out.events) =
        some [.next [1], .next [2], .error (some 7)] := by
    decide +kernel
  obtain ⟨s, hrun, hs⟩ := Option.map_eq_some_iff.mp hevs
  have hattached : Along (step ⟨2, false⟩) Attached {} lateDemand := by
    repeat' first | constructor | intro _
  exact ⟨s, hrun, hs, (buffer_emits_in_order hattached hrun).1⟩

def twoActions : List (BufferAction Nat) :=
  [.fwdOnSubscribeValue, .fwdOnSubscribeControl, .subscribe,
    .fwdOnNextValue 1, .fwdOnNextValue 2, .request 1, .fwdOnNextControl,
    .fwdOnNextValue 3, .fwdOnCompleteValue, .request 2, .onRequest,
    .onRequest]

def emptyInput : List (BufferAction Nat) :=
  [.fwdOnSubscribeValue, .fwdOnCompleteValue, .subscribe]

theorem buffer_ends_twice :
    (exec (step ⟨2, false⟩) {} twoActions).map (fun s => s.out.events) =
        some [.next [1, 2], .next [3], .complete, .complete] ∧
      (exec (step ⟨2, false⟩) {} emptyInput).map (fun s => s.out.events) =
        some [.complete, .error (some runtimeError)] := by
  decide +kernel

end BufferSub

end ActorFramework.Flow
