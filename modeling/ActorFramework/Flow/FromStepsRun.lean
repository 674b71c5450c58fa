import ActorFramework.Flow.FromSteps
import ActorFramework.Flow.StepMeaning

/-!
# An operator made of steps applies list functions

While the input is open, what was delivered, followed by what the buffer and
the steps make of the rest of the input, is the result for the whole input.
Once the input is closed, only the buffer is left to deliver.  This also holds
when the operator is called while it waits for a call of its own.
-/

namespace ActorFramework.Flow

open Foundation List Option FromStepsSub

variable {α γ : Type}

def Steps.result (steps : Steps α γ) (items : List α)
    (e : Ending (Option Nat)) : List γ × Option Nat :=
  ((steps.apply items e).1, reason (steps.apply items e).2)

namespace FromStepsSub

variable {steps : Steps α γ} {s t : FromStepsSub steps}

/-- What was received from the input so far is the start of the sequence `all`
that ends with `e`. -/
def Fits (s : FromStepsSub steps) (all : List α) (e : Ending (Option Nat)) :
    Prop :=
  s.items <+: all ∧ ∀ e', s.terminal = some e' → s.items = all ∧ e' = e

def Finished (s : FromStepsSub steps) (result : List γ × Option Nat)
    (event : FlowEvent γ) : Prop :=
  s.out.delivered = result.1 ∧ event = .ofErr result.2 ∧ s.buf = []

structure Sound (s : FromStepsSub steps) : Prop where
  lawful : s.out.Lawful
  credit : s.out.valid = true → s.out.delivered.length + s.demand = s.requested
  bounded : s.out.delivered.length ≤ s.requested
  flight : s.hasIn = true → s.inFlight + s.items.length = s.granted
  awaiting : s.hasIn = true → s.subscribed = true ∧ s.terminal = none
  fresh : s.subscribed = false → s.items = [] ∧ s.terminal = none ∧
    s.inFlight = 0 ∧ s.granted = 0
  early : (s.hasIn = true ∨ s.subscribed = false) →
    ∀ event ∈ s.out.ending, event = .disposed
  opened : s.out.valid = true → (s.hasIn = true ∨ s.subscribed = false) →
    s.chain.2.err = none ∧ ∀ more e,
      steps.result (s.items ++ more) e =
        (s.out.delivered ++ (steps.output s.chain more e).1,
          (steps.output s.chain more e).2)
  closed : s.out.valid = true → s.hasIn = false → s.subscribed = true →
    ∀ all e, s.Fits all e →
      steps.result all e = (s.out.delivered ++ s.buf, s.chain.2.err)
  ended : s.out.valid = false → ∀ all e, s.Fits all e →
    s.out.delivered <+: (steps.result all e).1 ∧
    ∀ event ∈ s.out.ending, event ≠ .disposed →
      s.Finished (steps.result all e) event

theorem sound_initial (hvalid : steps.Valid) :
    Sound ({} : FromStepsSub steps) where
  lawful := Observer.lawful_initial
  credit _ := rfl
  bounded := Nat.zero_le 0
  flight := nofun
  awaiting := nofun
  fresh _ := ⟨rfl, rfl, rfl, rfl⟩
  early _ := nofun
  opened _ _ := by
    refine ⟨rfl, fun more e => ?_⟩
    simp only [Steps.result, Steps.output, Steps.run_init steps hvalid,
      nil_append]
    rfl
  closed := nofun
  ended := nofun

variable {all : List α} {e : Ending (Option Nat)} {item : α} {call : CallOut}
  {rest : List CallOut}

section

variable (h : Sound s)
include h

theorem Sound.delivered_start (hfits : s.Fits all e) :
    s.out.delivered <+: (steps.result all e).1 := by
  cases hvalid : s.out.valid with
  | false => exact (h.ended hvalid all e hfits).1
  | true =>
    by_cases hopen : s.hasIn = true ∨ s.subscribed = false
    · obtain ⟨more, hall⟩ := hfits.1
      rw [← hall, (h.opened hvalid hopen).2]
      exact prefix_append _ _
    · simp only [not_or, Bool.not_eq_true, Bool.not_eq_false] at hopen
      rw [h.closed hvalid hopen.1 hopen.2 all e hfits]
      exact prefix_append _ _

theorem Sound.calls (callOuts : List CallOut) (delayed : Nat) (running : Bool) :
    Sound { s with callOuts, delayed, running } :=
  { h with }

theorem Sound.endRun : Sound s.endRun :=
  h.calls s.callOuts s.delayed false

theorem Sound.askMore (hin : s.hasIn = true) (call : CallOut) :
    Sound (s.askMore call) :=
  { h with
    flight := fun _ => by
      have hflight := h.flight hin
      simp only [FromStepsSub.askMore]
      omega
    fresh := fun hfresh => by
      cases (h.awaiting hin).1 ▸ hfresh }

section

variable (hvalid : s.out.valid = true)
include hvalid

theorem Sound.finish (hin : s.hasIn = false) (hsub : s.subscribed = true)
    (hbuf : s.buf = []) (calls : List CallOut) :
    Sound { s with
      out := s.out.finish (.ofErr s.chain.2.err)
      callOuts := calls } := by
  have hterm := FlowEvent.isTerminal_ofErr (τ := γ) s.chain.2.err
  have hdeliv := s.out.finish_delivered hterm
  refine ⟨h.lawful.finish hterm hvalid, nofun, ?_, h.flight, h.awaiting,
    h.fresh, fun hopen => ?_, nofun, nofun, ?_⟩
  · rw [hdeliv]
    exact h.bounded
  · rcases hopen with hopen | hopen
    · cases hin ▸ hopen
    · cases hsub ▸ hopen
  · intro _ all e hfits
    have hres := h.closed hvalid hin hsub all e hfits
    rw [hbuf, append_nil] at hres
    rw [h.lawful.ending_finish hterm hvalid, hdeliv, hres]
    refine ⟨prefix_rfl, fun event hevent _ => ?_⟩
    rw [mem_singleton] at hevent
    exact ⟨hdeliv, hevent, hbuf⟩

theorem Sound.emit {item : γ} {rest : List γ} {demand : Nat}
    (hbuf : s.buf = item :: rest) (hdem : s.demand = demand + 1)
    (calls : List CallOut) :
    Sound { s.setBuf rest with
      demand := demand
      out := s.out.onNext item
      callOuts := calls } := by
  have hcredit := h.credit hvalid
  have hdeliv := s.out.onNext_delivered item
  have hchain : s.chain.2.buf = item :: rest := hbuf
  refine ⟨h.lawful.onNext item hvalid, ?_, ?_, h.flight, h.awaiting, h.fresh,
    ?_, ?_, ?_, ?_⟩
  · intro _
    rw [hdeliv, length_append, length_singleton]
    simp only [setBuf]
    omega
  · rw [hdeliv, length_append, length_singleton]
    simp only [setBuf]
    omega
  · rw [Observer.onNext_ending]
    exact h.early
  · intro _ hopen
    obtain ⟨herr, hres⟩ := h.opened hvalid hopen
    refine ⟨herr, fun more e => ?_⟩
    refine (hres more e).trans ?_
    simp [Steps.output, setBuf, hchain]
  · intro _ hin hsub all e hfits
    refine (h.closed hvalid hin hsub all e hfits).trans ?_
    rw [hdeliv, hbuf]
    simp [setBuf, buf]
  · simp [hvalid]

theorem Sound.runEnd (hsub : s.subscribed = true) : Sound s.runEnd := by
  unfold FromStepsSub.runEnd
  split
  · rename_i hin
    split
    · exact h.askMore hin .last
    · exact h.endRun
  · rename_i hin
    split
    · rename_i hbuf
      exact h.finish hvalid (by simpa using hin) hsub
        (List.isEmpty_iff.mp hbuf) _
    · exact h.endRun

theorem Sound.runLoop (hsub : s.subscribed = true) : Sound s.runLoop := by
  unfold FromStepsSub.runLoop
  split
  · rename_i demand item rest hdem hbuf
    exact h.emit hvalid hbuf hdem _
  · exact h.runEnd hvalid hsub

end

theorem Sound.doRun (hsub : s.subscribed = true) : Sound s.doRun := by
  unfold FromStepsSub.doRun
  split_ifs with hvalid
  · exact (h.calls s.callOuts s.delayed true).runLoop hvalid hsub
  · exact h.endRun

theorem Sound.check (hsub : s.subscribed = true) : Sound s.check := by
  unfold FromStepsSub.check
  split
  · exact h
  · exact h.doRun hsub

theorem Sound.onSubscribe (hsub : s.subscribed = false) :
    Sound { s with subscribed := true }.onSubscribe := by
  obtain ⟨hitems, hterm, hflight, hgranted⟩ := h.fresh hsub
  have hin : s.hasIn = false := by
    rw [← Bool.not_eq_true]
    intro hin
    cases (h.awaiting hin).1 ▸ hsub
  have hopen : Sound { s with subscribed := true, hasIn := true } := by
    refine ⟨h.lawful, h.credit, h.bounded, fun _ => ?_,
      fun _ => ⟨rfl, hterm⟩, nofun, fun _ => h.early (.inr hsub),
      fun hvalid _ => ?_, nofun, h.ended⟩
    · simp only [hitems, hflight, hgranted]
      rfl
    · exact h.opened hvalid (.inr hsub)
  unfold FromStepsSub.onSubscribe
  rw [if_neg (by simp [hin])]
  split
  · exact hopen.askMore rfl .subscribed
  · exact hopen

theorem Sound.request (n : Nat) :
    Sound ({ s with requested := s.requested + n }.request n) := by
  have hbound := h.bounded
  have hmore : ∀ demand running delayed,
      (s.out.valid = true → demand = s.demand + n) →
      Sound { s with
        requested := s.requested + n
        demand := demand
        running := running
        delayed := delayed } := by
    intro demand running delayed hdem
    refine { h with
      credit := fun hvalid => ?_
      bounded := ?_ }
    · have hcredit := h.credit hvalid
      have hdem := hdem hvalid
      simp only
      omega
    · simp only
      omega
  unfold FromStepsSub.request
  split_ifs with hzero
  · exact hmore _ s.running s.delayed (fun _ => rfl)
  · have hdem : n = s.demand + n := by
      simp only [ne_eq, Decidable.not_not] at hzero
      omega
    unfold runLater
    split
    · exact hmore _ s.running s.delayed (fun _ => hdem)
    · exact hmore _ s.running _ (fun _ => hdem)

end

theorem Fits.of_item (hrun : s.terminal = none)
    (h : Fits { s with items := s.items ++ [item] } all e) : s.Fits all e := by
  refine ⟨(prefix_append _ _).trans h.1, fun e' he' => ?_⟩
  cases hrun ▸ he'

theorem Fits.of_terminal {e' : Ending (Option Nat)} (hrun : s.terminal = none)
    (h : Fits { s with terminal := some e' } all e) : s.Fits all e := by
  refine ⟨h.1, fun e' he' => ?_⟩
  cases hrun ▸ he'

theorem Sound.ended_of_open (h : Sound s)
    (hopen : s.hasIn = true ∨ s.subscribed = false) (hfits : s.Fits all e)
    (t : FromStepsSub steps) :
    s.out.delivered <+: (steps.result all e).1 ∧
    ∀ event ∈ s.out.ending, event ≠ .disposed →
      t.Finished (steps.result all e) event := by
  refine ⟨h.delivered_start hfits, fun event hevent hother => ?_⟩
  exact absurd (h.early hopen event hevent) hother

variable {chain : steps.State × Sink γ} {a : StepsAction α}
  {actions : List (StepsAction α)}

section

variable (h : Sound s)
include h

theorem Sound.onNext_accept (hin : s.hasIn = true)
    (hless : s.items.length < s.granted)
    (hnext : steps.handler.onNext s.chain item = (chain, true)) :
    Sound { s with
      items := s.items ++ [item]
      inFlight := s.inFlight - 1
      chain } := by
  obtain ⟨hsub, hrun⟩ := h.awaiting hin
  refine ⟨h.lawful, h.credit, h.bounded, fun _ => ?_, h.awaiting,
    by simp [hsub], h.early, fun hvalid _ => ?_, by simp [hin],
    fun _ all e hfits => ?_⟩
  · have hflight := h.flight hin
    simp only [length_append, length_singleton]
    omega
  · obtain ⟨herr, hres⟩ := h.opened hvalid (.inl hin)
    obtain ⟨hlive, hsame⟩ := steps.realizes.accept herr hnext
    refine ⟨hlive, fun more e => ?_⟩
    rw [append_assoc, singleton_append, hres, hsame]
  · exact h.ended_of_open (.inl hin) (hfits.of_item hrun) _

theorem Sound.onNext_refuse (hin : s.hasIn = true)
    (hnext : steps.handler.onNext s.chain item = (chain, false)) :
    Sound { s with
      items := s.items ++ [item]
      inFlight := s.inFlight - 1
      chain
      hasIn := false } := by
  obtain ⟨hsub, hrun⟩ := h.awaiting hin
  refine ⟨h.lawful, h.credit, h.bounded, nofun, nofun, by simp [hsub],
    fun hopen => ?_, fun _ hopen => ?_, fun hvalid _ _ all e hfits => ?_,
    fun _ all e hfits => ?_⟩
  · cases hsub ▸ (hopen.resolve_left nofun)
  · cases hsub ▸ (hopen.resolve_left nofun)
  · obtain ⟨herr, hres⟩ := h.opened hvalid (.inl hin)
    obtain ⟨more, rfl⟩ := hfits.1
    have hlast := steps.realizes.refuse herr hnext more e
    rw [append_assoc, singleton_append, hres, hlast]
    rfl
  · exact h.ended_of_open (.inl hin) (hfits.of_item hrun) _

theorem Sound.ignore (hin : s.hasIn = false) (hsub : s.subscribed = true)
    {items : List α} {terminal : Option (Ending (Option Nat))}
    (hfits : ∀ all e, Fits { s with items, terminal } all e → s.Fits all e) :
    Sound { s with items, terminal } := by
  refine ⟨h.lawful, h.credit, h.bounded, by simp [hin], by simp [hin],
    by simp [hsub], h.early, fun _ hopen => ?_,
    fun hvalid _ _ all e hmore => ?_, fun hgone all e hmore => ?_⟩
  · rcases hopen with hopen | hopen
    · cases hin ▸ hopen
    · cases hsub ▸ hopen
  · exact h.closed hvalid hin hsub all e (hfits all e hmore)
  · exact h.ended hgone all e (hfits all e hmore)

theorem Sound.onNext (hemits : s.sourceEmits = true) (item : α) :
    Sound ({ s with items := s.items ++ [item] }.onNext item) := by
  simp only [sourceEmits, Bool.and_eq_true, decide_eq_true_eq,
    isNone_iff_eq_none] at hemits
  obtain ⟨⟨hsub, hrun⟩, hless⟩ := hemits
  unfold FromStepsSub.onNext
  split_ifs with hin
  · split
    · rename_i chain hnext
      have haccept := h.onNext_accept hin hless hnext
      split
      · exact haccept.askMore hin .pulled
      · exact haccept.check hsub
    · rename_i chain hnext
      exact (h.onNext_refuse hin hnext).check hsub
  · exact h.ignore (by simpa using hin) hsub
      fun _ _ hfits => Fits.of_item hrun hfits

theorem Sound.onEnd (hends : s.sourceEnds = true) (e : Ending (Option Nat)) :
    Sound ({ s with terminal := some e }.onEnd e) := by
  simp only [sourceEnds, Bool.and_eq_true, isNone_iff_eq_none] at hends
  obtain ⟨hsub, hrun⟩ := hends
  unfold FromStepsSub.onEnd
  split_ifs with hin
  · have hin : s.hasIn = true := hin
    refine Sound.check ?_ hsub
    refine ⟨h.lawful, h.credit, h.bounded, nofun, nofun, by simp [hsub],
      fun hopen => ?_, fun _ hopen => ?_, fun hvalid _ _ all e' hfits => ?_,
      fun _ all e' hfits => ?_⟩
    · cases hsub ▸ (hopen.resolve_left nofun)
    · cases hsub ▸ (hopen.resolve_left nofun)
    · obtain ⟨herr, hres⟩ := h.opened hvalid (.inl hin)
      obtain ⟨rfl, rfl⟩ := hfits.2 e rfl
      have hlast := hres [] e
      rw [append_nil, steps.realizes.close herr] at hlast
      exact hlast
    · exact h.ended_of_open (.inl hin) (hfits.of_terminal hrun) _
  · exact h.ignore (by simpa using hin) hsub
      fun _ _ hfits => Fits.of_terminal hrun hfits

theorem Sound.giveUp {out : Observer γ} (hlawful : out.Lawful)
    (hgone : out.valid = false) (hdeliv : out.delivered = s.out.delivered)
    (hend : ∀ event ∈ out.ending, event = .disposed) :
    Sound { s.setBuf [] with hasIn := false, demand := 0, out } := by
  have hlive : ∀ {p : Prop}, out.valid = true → p := by
    intro p hvalid
    cases hgone ▸ hvalid
  refine ⟨hlawful, fun hvalid => hlive hvalid, ?_, nofun, nofun, h.fresh,
    fun _ => hend, fun hvalid => hlive hvalid, fun hvalid => hlive hvalid,
    fun _ all e hfits => ?_⟩
  · rw [hdeliv]
    exact h.bounded
  · refine ⟨?_, fun event hevent hother => ?_⟩
    · rw [hdeliv]
      exact h.delivered_start hfits
    · exact absurd (hend event hevent) hother

theorem Sound.doDispose (fromExternal : Bool) :
    Sound (s.doDispose fromExternal) := by
  unfold FromStepsSub.doDispose
  split
  · rename_i hvalid
    cases fromExternal with
    | true =>
      apply h.giveUp (h.lawful.finish rfl hvalid) rfl
      · exact s.out.finish_delivered rfl
      · have hterm : (FlowEvent.disposed : FlowEvent γ).isTerminal :=
          rfl
        simp [h.lawful.ending_finish hterm hvalid]
    | false =>
      apply h.giveUp h.lawful.release rfl rfl
      simp [h.lawful.running hvalid]
  · exact h

theorem Sound.resume (hsub : s.subscribed = true) (call : CallOut) :
    Sound (s.resume call) := by
  cases call with
  | subscribed => exact h
  | pulled => exact h.check hsub
  | emitted =>
    simp only [FromStepsSub.resume]
    split_ifs with hvalid
    · exact h.runLoop hvalid hsub
    · exact h.endRun
  | last => exact h.endRun

end

structure Stacked (s : FromStepsSub steps) : Prop where
  started : s.callOuts ≠ [] → s.subscribed = true
  running : s.callOuts.countP CallOut.inRun = s.running.toNat

theorem stacked_initial : Stacked ({} : FromStepsSub steps) :=
  ⟨fun h => absurd rfl h, rfl⟩

theorem Stacked.push (h : Stacked s) (call : CallOut)
    (hcall : call.inRun = false) (hcalls : t.callOuts = call :: s.callOuts)
    (hruns : t.running = s.running) (hsub : t.subscribed = true) :
    Stacked t := by
  refine ⟨fun _ => hsub, ?_⟩
  rw [hcalls, hruns, countP_cons_of_neg (by simp [hcall])]
  exact h.running

theorem stacked_runLoop (hsub : s.subscribed = true) (hruns : s.running = true)
    (hnone : s.callOuts.countP CallOut.inRun = 0) : Stacked s.runLoop := by
  have hend : Stacked s.endRun := ⟨fun _ => hsub, hnone⟩
  have hpush : ∀ call, call.inRun = true → ∀ t : FromStepsSub steps,
      t.callOuts = call :: s.callOuts → t.running = s.running →
      t.subscribed = s.subscribed → Stacked t := by
    intro call hcall t hcalls hsame hsub'
    refine ⟨fun _ => hsub'.trans hsub, ?_⟩
    rw [hcalls, hsame, hruns, countP_cons_of_pos hcall, hnone]
    rfl
  unfold runLoop
  split
  · exact hpush .emitted rfl _ rfl rfl rfl
  · unfold runEnd
    split
    · split
      · exact hpush .last rfl _ rfl rfl rfl
      · exact hend
    · split
      · exact hpush .last rfl _ rfl rfl rfl
      · exact hend

section

variable (h : Stacked s)
include h

theorem Stacked.doRun (hsub : s.subscribed = true) (hruns : s.running = false) :
    Stacked s.doRun := by
  have hnone := h.running
  rw [hruns] at hnone
  unfold FromStepsSub.doRun
  split
  · exact stacked_runLoop hsub rfl hnone
  · exact ⟨h.started, hnone⟩

theorem Stacked.check (hsub : s.subscribed = true) : Stacked s.check := by
  unfold FromStepsSub.check
  split_ifs with hruns
  · exact h
  · exact h.doRun hsub (by simpa using hruns)

theorem Stacked.onSubscribe :
    Stacked { s with subscribed := true }.onSubscribe := by
  unfold FromStepsSub.onSubscribe
  split
  · exact ⟨fun _ => rfl, h.running⟩
  · split
    · exact h.push .subscribed rfl rfl rfl rfl
    · exact ⟨fun _ => rfl, h.running⟩

theorem Stacked.onNext (hsub : s.subscribed = true) (item : α) :
    Stacked (s.onNext item) := by
  unfold FromStepsSub.onNext
  split
  · split
    · split
      · exact h.push .pulled rfl rfl rfl hsub
      · exact Stacked.check { h with } hsub
    · exact Stacked.check { h with } hsub
  · exact h

theorem Stacked.onEnd (hsub : s.subscribed = true) (e : Ending (Option Nat)) :
    Stacked (s.onEnd e) := by
  unfold FromStepsSub.onEnd
  split
  · exact Stacked.check { h with } hsub
  · exact h

theorem Stacked.request (n : Nat) : Stacked (s.request n) := by
  unfold FromStepsSub.request
  split
  · exact { h with }
  · unfold runLater
    split <;> exact { h with }

theorem Stacked.doDispose (fromExternal : Bool) :
    Stacked (s.doDispose fromExternal) := by
  unfold FromStepsSub.doDispose
  split
  · exact { h with }
  · exact h

theorem Stacked.pop (hcalls : s.callOuts = call :: rest) :
    s.subscribed = true ∧
    (call.inRun = true → s.running = true ∧ rest.countP CallOut.inRun = 0) ∧
    (call.inRun = false → Stacked { s with callOuts := rest }) := by
  have hsub := h.started (by simp [hcalls])
  have hcount := h.running
  rw [hcalls] at hcount
  refine ⟨hsub, fun hcall => ?_, fun hcall => ⟨fun _ => hsub, ?_⟩⟩
  · rw [countP_cons_of_pos hcall] at hcount
    cases hruns : s.running with
    | false => simp [hruns] at hcount
    | true => simpa [hruns] using hcount
  · rwa [countP_cons_of_neg (by simp [hcall])] at hcount

theorem Stacked.ret (hcalls : s.callOuts = call :: rest) :
    Stacked ({ s with callOuts := rest }.resume call) := by
  obtain ⟨hsub, hown, hother⟩ := h.pop hcalls
  cases call with
  | subscribed => exact hother rfl
  | pulled => exact (hother rfl).check hsub
  | emitted =>
    obtain ⟨hruns, hnone⟩ := hown rfl
    simp only [resume]
    split
    · exact stacked_runLoop hsub hruns hnone
    · exact ⟨fun _ => hsub, hnone⟩
  | last => exact ⟨fun _ => hsub, (hown rfl).2⟩

end

/-- All there is to emit was emitted: the items for which there is demand, and
the terminal event if the input is closed. -/
def Settled (s : FromStepsSub steps) : Prop :=
  (s.buf = [] ∨ s.demand = 0) ∧
    (s.subscribed = true → s.hasIn = false → s.buf ≠ [])

def Pending (s : FromStepsSub steps) : Prop :=
  0 < s.delayed ∨ .emitted ∈ s.callOuts ∨
    (s.running = false ∧ .pulled ∈ s.callOuts)

def Prompt (s : FromStepsSub steps) : Prop :=
  s.out.valid = true → s.Pending ∨ s.Settled

theorem prompt_runEnd (hdone : s.buf = [] ∨ s.demand = 0) :
    Prompt s.runEnd := by
  unfold Prompt runEnd
  split
  · rename_i hin
    have hset : ∀ t : FromStepsSub steps, t.buf = s.buf →
        t.demand = s.demand → t.hasIn = s.hasIn → Settled t := by
      intro t hbuf hdem hsame
      refine ⟨by rwa [hbuf, hdem], fun _ hclosed => ?_⟩
      cases (hsame.trans hin) ▸ hclosed
    split
    · exact fun _ => .inr (hset _ rfl rfl rfl)
    · exact fun _ => .inr (hset _ rfl rfl rfl)
  · split
    · exact fun hvalid => nomatch hvalid
    · rename_i hbuf
      refine fun _ => .inr ⟨hdone, fun _ _ => ?_⟩
      exact fun hnil => hbuf (List.isEmpty_iff.mpr hnil)

theorem prompt_runLoop : Prompt s.runLoop := by
  unfold runLoop
  split
  · exact fun _ => .inl (.inr (.inl mem_cons_self))
  · rename_i hnone
    apply prompt_runEnd
    cases hbuf : s.buf with
    | nil => exact .inl rfl
    | cons item rest =>
      cases hdem : s.demand with
      | zero => exact .inr rfl
      | succ demand => exact absurd hbuf (hnone demand item rest hdem)

theorem prompt_doRun : Prompt s.doRun := by
  unfold doRun
  split_ifs with hgone
  · exact prompt_runLoop
  · exact fun hvalid => absurd hvalid hgone

/-- `do_run` does not wait for the call at its end, at which it would miss what
it is told. -/
def Quiet (s : FromStepsSub steps) : StepsAction α → Prop
  | .onNext _ => s.out.valid = true → .last ∉ s.callOuts
  | .onComplete => s.out.valid = true → .last ∉ s.callOuts
  | .onError _ => s.out.valid = true → .last ∉ s.callOuts
  | .request _ => s.out.valid = true → .last ∉ s.callOuts
  | _ => True

theorem Stacked.emitted_mem (h : Stacked s) (hruns : s.running = true)
    (hlast : .last ∉ s.callOuts) : .emitted ∈ s.callOuts := by
  have hpos : 0 < s.callOuts.countP CallOut.inRun := by
    rw [h.running, hruns]
    exact Nat.one_pos
  obtain ⟨call, hmem, hcall⟩ := countP_pos_iff.mp hpos
  cases call with
  | subscribed => cases hcall
  | pulled => cases hcall
  | emitted => exact hmem
  | last => exact absurd hmem hlast

theorem prompt_check
    (hloop : s.out.valid = true → s.running = true → .emitted ∈ s.callOuts) :
    Prompt s.check := by
  unfold check
  split_ifs with hruns
  · exact fun hvalid => .inl (.inr (.inl (hloop hvalid hruns)))
  · exact prompt_doRun

section

variable (h : Prompt s)
include h

section

variable (hloop : s.out.valid = true → s.running = true → .emitted ∈ s.callOuts)
include hloop

theorem Prompt.onNext (item : α) : Prompt (s.onNext item) := by
  unfold FromStepsSub.onNext
  split
  · split
    · split
      · intro hvalid
        by_cases hruns : s.running = true
        · have hmem := hloop hvalid hruns
          exact .inl (.inr (.inl (mem_cons_of_mem _ hmem)))
        · have hidle : s.running = false := by simpa using hruns
          exact .inl (.inr (.inr ⟨hidle, mem_cons_self⟩))
      · exact prompt_check hloop
    · exact prompt_check hloop
  · exact h

theorem Prompt.onEnd (e : Ending (Option Nat)) : Prompt (s.onEnd e) := by
  unfold FromStepsSub.onEnd
  split
  · exact prompt_check hloop
  · exact h

theorem Prompt.request (n : Nat) : Prompt (s.request n) := by
  unfold FromStepsSub.request
  split_ifs with hdem
  · intro hvalid
    rcases h hvalid with hpend | ⟨hdone, hopen⟩
    · exact .inl hpend
    · exact .inr ⟨.inl (hdone.resolve_right hdem), hopen⟩
  · unfold runLater
    split_ifs with hruns
    · exact fun hvalid => .inl (.inr (.inl (hloop hvalid hruns)))
    · exact fun _ => .inl (.inl (Nat.succ_pos _))

end

theorem Prompt.onSubscribe :
    Prompt { s with subscribed := true }.onSubscribe := by
  have hopen : ∀ t : FromStepsSub steps, t.out = s.out →
      t.chain = s.chain → t.demand = s.demand → t.delayed = s.delayed →
      t.running = s.running → t.hasIn = true →
      (∀ call ∈ s.callOuts, call ∈ t.callOuts) → Prompt t := by
    intro t hout hchain hdem hdelayed hruns hin hcalls hvalid
    rw [hout] at hvalid
    rcases h hvalid with hpend | ⟨hdone, -⟩
    · refine .inl ?_
      unfold Pending
      rw [hdelayed, hruns]
      exact hpend.imp_right fun hwaits =>
        hwaits.imp (hcalls _) fun hpulled => ⟨hpulled.1, hcalls _ hpulled.2⟩
    · refine .inr ⟨?_, by simp [hin]⟩
      · rwa [buf, hchain, hdem]
  unfold FromStepsSub.onSubscribe
  split
  · rename_i hin
    exact hopen _ rfl rfl rfl rfl rfl hin fun _ hmem => hmem
  · split
    · exact hopen _ rfl rfl rfl rfl rfl rfl
        fun _ hmem => mem_cons_of_mem _ hmem
    · exact hopen _ rfl rfl rfl rfl rfl rfl fun _ hmem => hmem

theorem Prompt.doDispose (fromExternal : Bool) :
    Prompt (s.doDispose fromExternal) := by
  unfold FromStepsSub.doDispose
  split
  · cases fromExternal with
    | true => exact nofun
    | false => exact nofun
  · exact h

theorem Prompt.ret (hstack : Stacked s) (hcalls : s.callOuts = call :: rest) :
    Prompt ({ s with callOuts := rest }.resume call) := by
  obtain ⟨-, hown, -⟩ := hstack.pop hcalls
  cases call with
  | subscribed =>
    intro hvalid
    refine (h hvalid).imp_left ?_
    simp [Pending, hcalls, resume]
  | pulled =>
    simp only [resume, check]
    split_ifs with hruns
    · intro hvalid
      rcases h hvalid with (hdelayed | hmem | hidle) | hset
      · exact .inl (.inl hdelayed)
      · rw [hcalls] at hmem
        exact .inl (.inr (.inl (by simpa using hmem)))
      · cases hidle.1 ▸ hruns
      · exact .inr hset
    · exact prompt_doRun
  | emitted =>
    simp only [resume]
    split_ifs with hgone
    · exact prompt_runLoop
    · exact fun hvalid => absurd hvalid hgone
  | last =>
    obtain ⟨hruns, hnone⟩ := hown rfl
    intro hvalid
    rcases h hvalid with (hdelayed | hmem | hidle) | hset
    · exact .inl (.inl hdelayed)
    · rw [hcalls] at hmem
      have hmem : .emitted ∈ rest := by simpa using hmem
      exact absurd (countP_eq_zero.mp hnone _ hmem) (by decide)
    · cases hruns ▸ hidle.1
    · exact .inr hset

end

theorem step_sound (h : Sound s ∧ Stacked s) (hstep : step s a = some t) :
    Sound t ∧ Stacked t := by
  obtain ⟨hsound, hstack⟩ := h
  have hend : ∀ e, s.sourceEnds = true →
      Sound ({ s with terminal := some e }.onEnd e) ∧
        Stacked ({ s with terminal := some e }.onEnd e) := by
    intro e hends
    have hsub : s.subscribed = true := by
      simp only [sourceEnds, Bool.and_eq_true] at hends
      exact hends.1
    exact ⟨hsound.onEnd hends e, @Stacked.onEnd _ _ _ { s with
      terminal := some e } { hstack with } hsub e⟩
  cases a with
  | onSubscribe =>
    obtain ⟨hfresh, ⟨⟩⟩ := ite_none_left_eq_some.mp hstep
    exact ⟨hsound.onSubscribe (by simpa using hfresh), hstack.onSubscribe⟩
  | onNext item =>
    obtain ⟨hemits, rfl⟩ := of_guard hstep
    refine ⟨hsound.onNext hemits item, @Stacked.onNext _ _ _ { s with
      items := s.items ++ [item] } { hstack with } ?_ item⟩
    simp only [sourceEmits, Bool.and_eq_true] at hemits
    exact hemits.1.1
  | onComplete =>
    obtain ⟨hends, rfl⟩ := of_guard hstep
    exact hend .complete hends
  | onError what =>
    obtain ⟨hends, rfl⟩ := of_guard hstep
    exact hend (.error what) hends
  | request n =>
    cases hstep
    exact ⟨hsound.request n, @Stacked.request _ _ _ { s with
      requested := s.requested + n } { hstack with } n⟩
  | dispose =>
    cases hstep
    exact ⟨hsound.doDispose true, hstack.doDispose true⟩
  | cancel =>
    cases hstep
    exact ⟨hsound.doDispose false, hstack.doDispose false⟩
  | runDelayed =>
    obtain ⟨hready, rfl⟩ := of_guard hstep
    simp only [Bool.and_eq_true, List.isEmpty_iff] at hready
    obtain ⟨⟨hcalls, hsub⟩, -⟩ := hready
    have hidle : s.running = false := by
      have hnone := hstack.running
      rw [hcalls] at hnone
      exact Bool.toNat_eq_zero.mp hnone.symm
    exact ⟨(hsound.calls s.callOuts (s.delayed - 1) s.running).doRun hsub,
      @Stacked.doRun _ _ _ { s with delayed := s.delayed - 1 }
        { hstack with } hsub hidle⟩
  | ret =>
    simp only [step] at hstep
    split at hstep
    · cases hstep
    · rename_i call rest hcalls
      cases hstep
      exact ⟨(hsound.calls rest s.delayed s.running).resume
        (hstack.pop hcalls).1 call, hstack.ret hcalls⟩

theorem step_prompt (h : Prompt s) (hstack : Stacked s) (hquiet : s.Quiet a)
    (hstep : step s a = some t) : Prompt t := by
  have hloop : (s.out.valid = true → .last ∉ s.callOuts) →
      s.out.valid = true → s.running = true → .emitted ∈ s.callOuts :=
    fun hlast hvalid hruns => hstack.emitted_mem hruns (hlast hvalid)
  have hend := fun e hloop =>
    @Prompt.onEnd _ _ _ { s with terminal := some e } h hloop e
  cases a with
  | onSubscribe =>
    obtain ⟨-, ⟨⟩⟩ := ite_none_left_eq_some.mp hstep
    exact h.onSubscribe
  | onNext item =>
    obtain ⟨-, rfl⟩ := of_guard hstep
    exact @Prompt.onNext _ _ _ { s with items := s.items ++ [item] } h
      (hloop hquiet) item
  | onComplete =>
    obtain ⟨-, rfl⟩ := of_guard hstep
    exact hend .complete (hloop hquiet)
  | onError what =>
    obtain ⟨-, rfl⟩ := of_guard hstep
    exact hend (.error what) (hloop hquiet)
  | request n =>
    cases hstep
    exact @Prompt.request _ _ _ { s with requested := s.requested + n } h
      (hloop hquiet) n
  | dispose =>
    cases hstep
    exact h.doDispose true
  | cancel =>
    cases hstep
    exact h.doDispose false
  | runDelayed =>
    obtain ⟨-, rfl⟩ := of_guard hstep
    exact prompt_doRun
  | ret =>
    simp only [step] at hstep
    split at hstep
    · cases hstep
    · rename_i call rest hcalls
      cases hstep
      exact h.ret hstack hcalls

theorem exec_sound (hvalid : steps.Valid)
    (hrun : exec step {} actions = some s) : Sound s ∧ Stacked s :=
  exec_invariant (fun s => Sound s ∧ Stacked s)
    (fun _ _ _ => step_sound)
    ⟨sound_initial hvalid, stacked_initial⟩ hrun

theorem exec_prompt (hvalid : steps.Valid)
    (hquiet : Along step Quiet ({} : FromStepsSub steps) actions)
    (hrun : exec step {} actions = some s) : Prompt s := by
  refine (exec_invariant_along
    (fun s => (Sound s ∧ Stacked s) ∧ Prompt s) (fun _ _ _ h hguard hstep =>
      ⟨step_sound h.1 hstep, step_prompt h.2 h.1.2 hguard hstep⟩)
    ⟨⟨sound_initial hvalid, stacked_initial⟩, fun _ => ?_⟩ hquiet hrun).2
  exact .inr ⟨.inl rfl, nofun⟩

/-- When nothing is pending and the input has ended, the observer has as many
items as it has requested, and waits for more than that. -/
theorem delivered_of_idle (h : Sound s) (hprompt : Prompt s)
    (hidle : s.idle = true) (hvalid : s.out.valid = true) (hfits : s.Fits all e)
    (hended : s.terminal.isSome = true) :
    s.out.delivered = (steps.result all e).1.take s.requested ∧
      s.requested < (steps.result all e).1.length := by
  simp only [idle, Bool.and_eq_true, List.isEmpty_iff, beq_iff_eq] at hidle
  obtain ⟨hcalls, hdelayed⟩ := hidle
  have hin : s.hasIn = false := by
    rw [← Bool.not_eq_true]
    intro hin
    simp [(h.awaiting hin).2] at hended
  have hsub : s.subscribed = true := by
    rw [← Bool.not_eq_false]
    intro hfresh
    simp [(h.fresh hfresh).2.1] at hended
  have hset : s.Settled := by
    refine (hprompt hvalid).resolve_left ?_
    simp [Pending, hcalls, hdelayed]
  have hbuf := hset.2 hsub hin
  have hdem := hset.1.resolve_left hbuf
  have hcredit := h.credit hvalid
  rw [hdem, Nat.add_zero] at hcredit
  rw [h.closed hvalid hin hsub all e hfits, ← hcredit]
  refine ⟨by simp, ?_⟩
  rw [length_append]
  have hpos := length_pos_iff.mpr hbuf
  omega

/-- The observer gets the start of what the steps make of the input, as much
as it has requested at most, and the terminal event after all of it.  If
`do_run` does not miss a call, then nothing is held back for which there is
demand.  For an input that completes, the steps are the list functions. -/
theorem from_steps_applies_steps (steps : Steps α γ) (hsteps : steps.Valid)
    (actions : List (StepsAction α)) (s : FromStepsSub steps)
    (hrun : exec step {} actions = some s) (all : List α)
    (e : Ending (Option Nat)) (hfits : s.Fits all e) :
    s.out.Lawful ∧
    s.out.delivered <+: (steps.apply all e).1 ∧
    s.out.delivered.length ≤ s.requested ∧
    (∀ event ∈ s.out.ending, event ≠ .disposed →
      s.out.delivered = (steps.apply all e).1 ∧
      event = .ofErr (reason (steps.apply all e).2) ∧ s.buf = []) ∧
    (Along step Quiet ({} : FromStepsSub steps) actions →
      s.idle = true → s.out.valid = true → s.terminal.isSome = true →
      s.out.delivered = (steps.apply all e).1.take s.requested ∧
      s.requested < (steps.apply all e).1.length) ∧
    (e = .complete → (steps.apply all e).1 = steps.onList all) := by
  obtain ⟨h, -⟩ := exec_sound hsteps hrun
  refine ⟨h.lawful, h.delivered_start hfits, h.bounded,
    fun event hevent hother => ?_, fun hquiet hidle hvalid hended => ?_, ?_⟩
  · have hgone := h.lawful.invalid_of_ending (List.ne_nil_of_mem hevent)
    exact (h.ended hgone all e hfits).2 event hevent hother
  · have hprompt := exec_prompt hsteps hquiet hrun
    exact delivered_of_idle h hprompt hidle hvalid hfits hended
  · rintro rfl
    rw [Steps.apply_complete]

/-- `take` completes the flow while the input could go on. -/
theorem from_steps_applies_map_take :
    ∃ s : FromStepsSub (.cons (.map (· + 1)) (.cons (.take 2) .nil)),
      exec step {} [.onSubscribe, .ret, .request 5, .runDelayed,
        .onNext 3, .ret, .ret, .onNext 4, .ret, .ret] = some s ∧
      s.out.events = [.next 4, .next 5, .complete] ∧
      s.out.delivered <+:
        (Steps.apply (.cons (.map (· + 1)) (.cons (.take 2) .nil))
          [3, 4, 9] .complete).1 := by
  refine exists_of_map (fun s => (s.out.events, s.items, s.terminal))
    ([.next 4, .next 5, .complete], [3, 4], none) (by decide +kernel) ?_
  intro s hrun hstate
  simp only [Prod.mk.injEq] at hstate
  obtain ⟨hevs, hitems, hterminal⟩ := hstate
  have hfits : s.Fits [3, 4, 9] .complete := by
    refine ⟨⟨[9], by rw [hitems]; rfl⟩, fun e he => ?_⟩
    cases hterminal ▸ he
  refine ⟨hevs, (from_steps_applies_steps _ ?_ _ s hrun _ _ hfits).2.1⟩
  exact ⟨trivial, trivial, trivial⟩

/-- `take_last` drops its items when the input fails. -/
theorem take_last_drops_items :
    (exec step ({} : FromStepsSub (.cons (.takeLast 1) .nil))
      [.onSubscribe, .ret, .request 1, .runDelayed, .onNext 7, .ret,
        .onError (some 5), .ret]).map
      (fun s => (s.items, s.requested, s.out.events)) =
        some ([7], 1, [.error (some 5)]) ∧
    Steps.onList (.cons (.takeLast 1) .nil) [7] = [7] := by
  decide +kernel

end FromStepsSub

end ActorFramework.Flow
