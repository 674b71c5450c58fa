import ActorFramework.Flow.FromResource

/-!
# The end of reading from an asynchronous buffer

`cancel` releases everything at once if nothing is running, and otherwise
leaves it to `do_run`, which looks at the flag after each pull.  `dispose` only
sets the flag.  Its action does not call `do_run`, so that the buffer is not
cancelled or the observer is not told.
-/

namespace ActorFramework.Flow

open Foundation Option FromResourceSub

variable {τ : Type*}

namespace FromResourceSub

variable {s t : FromResourceSub τ}

def endsStream (s : FromResourceSub τ) : Bool :=
  match s.phase with
  | some (.pull _ _) => s.items.isEmpty && s.closed.isSome
  | _ => false

/-- The subscription is disposed by `cancel`, at a time when `running_` says
whether `do_run` is running, and no pull that has delivered an item to an
observer that then cancelled reports the end of the buffer. -/
def Orderly (s : FromResourceSub τ) : ResourceAction τ → Prop
  | .dispose => s.disposed = true
  | .cancel => s.disposed = true ∨ s.running = s.phase.isSome
  | .run => s.endsStream = true → s.disposed = false
  | _ => True

def Settled (s : FromResourceSub τ) : Prop :=
  match s.disposal with
  | none => True
  | some .dispose => s.cancelled = true ∧ s.out.ending.length = 1
  | some .cancel => s.cancelled = true ∧ s.out.ending = []

structure Sound (s : FromResourceSub τ) : Prop where
  lawful : s.out.Lawful
  defined : s.undefined = false
  live : s.disposed = false →
    s.buf = true ∧ s.out.valid = true ∧ s.disposal = none
  busy : s.phase ≠ none → s.buf = true ∧ s.out.valid = true
  head : s.phase = some .loop → s.disposed = false
  settled : ∀ kind, s.disposal = some kind → kind = .cancel ∧
    s.out.ending = [] ∧ (s.phase = none → s.cancelled = true)

theorem sound_initial : Sound ({} : FromResourceSub τ) :=
  ⟨Observer.lawful_initial, rfl, fun _ => ⟨rfl, rfl, rfl⟩,
    fun h => absurd rfl h, nofun, nofun⟩

section

variable (h : Sound s)
include h

theorem Sound.runLater : Sound s.runLater := by
  unfold FromResourceSub.runLater
  split
  · exact h
  · exact { h with }

theorem Sound.request (n : Nat) : Sound (s.request n) := by
  unfold FromResourceSub.request
  split
  · exact { h with }
  · exact Sound.runLater
      { h with }

theorem Sound.cancel (hord : s.disposed = true ∨ s.running = s.phase.isSome)
    (hacts : s.observerActs = true) : Sound s.cancel := by
  unfold FromResourceSub.cancel
  split
  · exact h
  · rename_i hopen
    obtain ⟨hbuf, hvalid, -⟩ := h.live (by simpa using hopen)
    have hruns := hord.resolve_left hopen
    have hend := h.lawful.running hvalid
    split
    · rename_i hrun
      rw [hrun] at hruns
      refine ⟨h.lawful, h.defined, nofun, h.busy, fun hloop => ?_,
        fun kind hkind => ?_⟩
      · have hloop : s.phase = some .loop := hloop
        simp [observerActs, hloop] at hacts
      · cases hkind
        refine ⟨rfl, hend, fun hnone => ?_⟩
        have hnone : s.phase = none := hnone
        simp [hnone] at hruns
    · rename_i hidle
      have hnone : s.phase = none := by
        simpa [hidle] using hruns.symm
      rw [dropBuffer, if_pos (by exact hbuf)]
      refine ⟨h.lawful.release, ?_, nofun, fun hbusy => ?_, fun hloop => ?_,
        fun kind hkind => ?_⟩
      · simp [cancelBuffer, h.defined, hbuf]
      · exact absurd hnone hbusy
      · cases hnone ▸ hloop
      · cases hkind
        exact ⟨rfl, hend, fun _ => rfl⟩

theorem Sound.doRun (hopen : s.disposed = false) : Sound s.doRun := by
  obtain ⟨hbuf, hvalid, hnone⟩ := h.live hopen
  unfold FromResourceSub.doRun
  rw [if_neg (by simp [hopen])]
  refine ⟨h.lawful, h.defined, h.live, fun _ => ⟨hbuf, hvalid⟩,
    fun _ => hopen, fun kind hkind => ?_⟩
  cases hnone ▸ hkind

theorem Sound.endRun (hopen : s.disposed = false) : Sound s.endRun := by
  refine ⟨h.lawful, h.defined, h.live, fun hbusy => absurd rfl hbusy, nofun,
    fun kind hkind => ?_⟩
  cases (h.live hopen).2.2 ▸ hkind

theorem Sound.pulledAgain (hbusy : s.phase ≠ none) (consumed : Nat) :
    Sound (s.pulledAgain consumed) := by
  obtain ⟨hbuf, hvalid⟩ := h.busy hbusy
  have hend := h.lawful.running hvalid
  unfold FromResourceSub.pulledAgain
  split
  · rename_i hdisp
    refine ⟨h.lawful.release, ?_, ?_, fun hphase => absurd rfl hphase, nofun,
      fun kind hkind => ?_⟩
    · simp [FromResourceSub.endRun, cancelBuffer, h.defined, hbuf]
    · intro hopen
      cases hdisp ▸ hopen
    · exact ⟨(h.settled kind hkind).1, hend, fun _ => rfl⟩
  · rename_i hopen
    have hdisp : s.disposed = false := by simpa using hopen
    split
    · exact h.endRun hdisp
    · refine ⟨h.lawful, h.defined, h.live, fun _ => ⟨hbuf, hvalid⟩,
        fun _ => hdisp, fun kind hkind => ?_⟩
      cases (h.live hdisp).2.2 ▸ hkind

theorem Sound.pulledLast (hopen : s.disposed = false) (err : Option Nat) :
    Sound (s.pulledLast err) := by
  obtain ⟨-, hvalid, hnone⟩ := h.live hopen
  refine ⟨h.lawful.finish (FlowEvent.isTerminal_ofErr err) hvalid, ?_, nofun,
    fun hphase => absurd rfl hphase, nofun, fun kind hkind => ?_⟩
  · simp [FromResourceSub.pulledLast, FromResourceSub.endRun, h.defined, hvalid]
  · cases hnone ▸ hkind

theorem Sound.emit (hbusy : s.phase ≠ none) (item : τ) (items rest : List τ)
    (demand consumed : Nat) :
    Sound ({ s with
      items := items
      phase := some (.deliver rest demand consumed) }.emit item) := by
  obtain ⟨hbuf, hvalid⟩ := h.busy hbusy
  refine ⟨h.lawful.onNext item hvalid, ?_, h.live, fun _ => ⟨hbuf, hvalid⟩,
    nofun, fun kind hkind => ?_⟩
  · simp [FromResourceSub.emit, h.defined, hvalid]
  · refine ⟨(h.settled kind hkind).1, ?_, nofun⟩
    exact (Observer.onNext_ending s.out item).trans (h.settled kind hkind).2.1

end

variable {phase : RunPhase τ} {a : ResourceAction τ}
  {actions : List (ResourceAction τ)}

theorem Sound.runPhase (h : Sound s) (hphase : s.phase = some phase)
    (hord : s.endsStream = true → s.disposed = false) :
    Sound (s.runPhase phase) := by
  have hbusy : s.phase ≠ none := by
    simp [hphase]
  have hready := h.busy hbusy
  cases phase with
  | loop =>
    have hopen := h.head hphase
    simp only [runPhase]
    split
    · refine ⟨h.lawful, h.defined, h.live, fun _ => hready, nofun,
        fun kind hkind => ?_⟩
      cases (h.live hopen).2.2 ▸ hkind
    · exact h.endRun hopen
  | pull demand consumed =>
    simp only [runPhase, runPull]
    split
    · exact h.pulledAgain hbusy consumed
    · rename_i err hitems hclosed
      refine h.pulledLast (hord ?_) err
      simp [endsStream, hphase, hitems, hclosed]
    · split
      · exact h.pulledAgain hbusy consumed
      · exact h.emit hbusy _ _ _ _ _
  | deliver rest demand consumed =>
    cases rest with
    | nil =>
      refine ⟨h.lawful, h.defined, h.live, fun _ => hready, nofun,
        fun kind hkind => ?_⟩
      exact ⟨(h.settled kind hkind).1, (h.settled kind hkind).2.1, nofun⟩
    | cons item rest => exact h.emit hbusy item s.items rest demand consumed

theorem step_sound (h : Sound s) (hord : s.Orderly a)
    (hstep : step s a = some t) : Sound t := by
  cases a with
  | push items | close err =>
    obtain ⟨-, ⟨⟩⟩ := ite_none_left_eq_some.mp hstep
    exact { h with }
  | onProducerWakeup =>
    cases hstep
    exact { h with }
  | request n =>
    obtain ⟨-, rfl⟩ := of_guard hstep
    exact h.request n
  | dispose =>
    obtain ⟨-, rfl⟩ := of_guard hstep
    rw [dispose, if_pos (by exact hord)]
    exact h
  | cancel =>
    obtain ⟨hacts, rfl⟩ := of_guard hstep
    exact h.cancel hord hacts
  | runDelayed | runWakeup =>
    obtain ⟨-, hstep⟩ := ite_none_right_eq_some.mp hstep
    split_ifs at hstep with hopen
    · cases hstep
      exact { h with }
    · cases hstep
      exact Sound.doRun { h with } (by simpa using hopen)
  | run =>
    simp only [step] at hstep
    split at hstep
    · cases hstep
    · rename_i phase hphase
      cases hstep
      exact h.runPhase hphase hord

theorem exec_sound (hord : Along step Orderly {} actions)
    (hrun : exec step {} actions = some s) : Sound s :=
  exec_invariant_along Sound
    (fun _ _ _ => step_sound) sound_initial
    hord hrun

theorem Sound.settled_of_idle (h : Sound s) (hidle : s.idle = true) :
    Settled s := by
  have hnone : s.phase = none := by
    simp only [idle, Bool.and_eq_true] at hidle
    exact isNone_iff_eq_none.mp hidle.1.1
  unfold Settled
  split
  · trivial
  · rename_i hdisposal
    cases (h.settled _ hdisposal).1
  · rename_i hdisposal
    obtain ⟨-, hend, hcanc⟩ := h.settled _ hdisposal
    exact ⟨hcanc hnone, hend⟩

/-- After `dispose`, the buffer is cancelled or the observer gets a terminal
event, but never both.  This holds on all runs. -/
structure Apart (s : FromResourceSub τ) : Prop where
  fresh : s.disposed = false → s.cancelled = false ∧ s.out.ending = []
  busy : s.disposal ≠ some .cancel → s.phase ≠ none →
    s.cancelled = false ∧ s.out.ending = []
  either : s.disposal = some .dispose →
    s.disposed = true ∧ (s.cancelled = false ∨ s.out.ending = [])

theorem apart_initial : Apart ({} : FromResourceSub τ) :=
  ⟨fun _ => ⟨rfl, rfl⟩, fun _ => fun h => absurd rfl h, nofun⟩

theorem Apart.runLater (h : Apart s) : Apart s.runLater := by
  unfold FromResourceSub.runLater
  split
  · exact h
  · exact { h with }

theorem Apart.request (h : Apart s) (n : Nat) : Apart (s.request n) := by
  unfold FromResourceSub.request
  split
  · exact { h with }
  · exact Apart.runLater { h with }

theorem Apart.dispose (h : Apart s) : Apart s.dispose := by
  unfold FromResourceSub.dispose
  split_ifs with hopen
  · exact h
  · obtain ⟨hcanc, hend⟩ := h.fresh (by simpa using hopen)
    exact Apart.runLater ⟨nofun, fun _ _ => ⟨hcanc, hend⟩,
      fun _ => ⟨rfl, .inl hcanc⟩⟩

section

variable (h : Apart s)
include h

theorem Apart.cancel : Apart s.cancel := by
  unfold FromResourceSub.cancel
  split
  · exact h
  · split
    · exact ⟨nofun, absurd rfl, nofun⟩
    · unfold dropBuffer
      split <;> exact ⟨nofun, absurd rfl, nofun⟩

theorem Apart.doRun (hopen : s.disposed = false) : Apart s.doRun := by
  unfold FromResourceSub.doRun
  rw [if_neg (by simp [hopen])]
  exact ⟨h.fresh, fun _ _ => h.fresh hopen, h.either⟩

theorem Apart.endRun : Apart s.endRun :=
  ⟨h.fresh, fun _ hbusy => absurd rfl hbusy, h.either⟩

theorem Apart.emit (hbusy : s.phase ≠ none) (item : τ) (items rest : List τ)
    (demand consumed : Nat) :
    Apart ({ s with
      items := items
      phase := some (.deliver rest demand consumed) }.emit item) := by
  have hend := Observer.onNext_ending s.out item
  exact ⟨hend ▸ h.fresh, fun hother _ => hend ▸ h.busy hother hbusy,
    hend ▸ h.either⟩

theorem Apart.pulledAgain (hbusy : s.phase ≠ none) (consumed : Nat) :
    Apart (s.pulledAgain consumed) := by
  unfold FromResourceSub.pulledAgain
  split
  · rename_i hdisp
    refine ⟨fun hopen => ?_, fun _ hrun => absurd rfl hrun,
      fun hdispose => ⟨hdisp, .inr ?_⟩⟩
    · cases hdisp ▸ hopen
    · have hdispose : s.disposal = some .dispose := hdispose
      exact (h.busy (by simp [hdispose]) hbusy).2
  · split
    · exact h.endRun
    · exact ⟨h.fresh, fun hother _ => h.busy hother hbusy, h.either⟩

theorem Apart.pulledLast (hbusy : s.phase ≠ none) (err : Option Nat) :
    Apart (s.pulledLast err) := by
  refine ⟨nofun, fun _ hrun => absurd rfl hrun, fun hdispose => ⟨rfl, .inl ?_⟩⟩
  have hdispose : s.disposal = some .dispose := hdispose
  exact (h.busy (by simp [hdispose]) hbusy).1

theorem Apart.runPhase (hphase : s.phase = some phase) :
    Apart (s.runPhase phase) := by
  have hbusy : s.phase ≠ none := by
    simp [hphase]
  cases phase with
  | loop =>
    simp only [runPhase]
    split
    · exact ⟨h.fresh, fun hother _ => h.busy hother hbusy, h.either⟩
    · exact h.endRun
  | pull demand consumed =>
    simp only [runPhase, runPull]
    split
    · exact h.pulledAgain hbusy consumed
    · exact h.pulledLast hbusy _
    · split
      · exact h.pulledAgain hbusy consumed
      · exact h.emit hbusy _ _ _ _ _
  | deliver rest demand consumed =>
    cases rest with
    | nil => exact ⟨h.fresh, fun hother _ => h.busy hother hbusy, h.either⟩
    | cons item rest => exact h.emit hbusy item s.items rest demand consumed

theorem step_apart (hstep : step s a = some t) : Apart t := by
  cases a with
  | push items | close err =>
    obtain ⟨-, ⟨⟩⟩ := ite_none_left_eq_some.mp hstep
    exact { h with }
  | onProducerWakeup =>
    cases hstep
    exact { h with }
  | request n =>
    obtain ⟨-, rfl⟩ := of_guard hstep
    exact h.request n
  | dispose =>
    obtain ⟨-, rfl⟩ := of_guard hstep
    exact h.dispose
  | cancel =>
    obtain ⟨-, rfl⟩ := of_guard hstep
    exact h.cancel
  | runDelayed | runWakeup =>
    obtain ⟨-, hstep⟩ := ite_none_right_eq_some.mp hstep
    split_ifs at hstep with hopen
    · cases hstep
      exact { h with }
    · cases hstep
      exact Apart.doRun { h with } (by simpa using hopen)
  | run =>
    simp only [step] at hstep
    split at hstep
    · cases hstep
    · rename_i phase hphase
      cases hstep
      exact h.runPhase hphase

end

theorem dispose_never_settles (hrun : exec step {} actions = some s)
    (hdispose : s.disposal = some .dispose) : ¬ Settled s := by
  have hapart : Apart s :=
    exec_invariant Apart (fun _ _ _ => step_apart)
      apart_initial hrun
  simp only [Settled, hdispose]
  rintro ⟨hcanc, hend⟩
  rcases (hapart.either hdispose).2 with hopen | hnone
  · cases hcanc ▸ hopen
  · simp [hnone] at hend

/-- A subscription that its observer has cancelled ends with a cancelled
buffer and no terminal event, if `dispose` is not called, `running_` says
whether `do_run` runs when `cancel` is called, and the pull during which it is
called does not reach the end of the buffer. -/
theorem from_resource_settles {actions : List (ResourceAction τ)}
    (horderly : Along step Orderly {} actions)
    (hrun : exec step {} actions = some s) :
    s.undefined = false ∧ (s.idle = true → Settled s) :=
  ⟨(exec_sound horderly hrun).defined,
    (exec_sound horderly hrun).settled_of_idle⟩

def cancelInOnNext : List (ResourceAction Nat) :=
  [.push [1, 2, 3], .request 2, .runDelayed, .run, .run, .cancel, .run, .run,
    .run]

theorem from_resource_settles_cancelled :
    ∃ s, exec step {} cancelInOnNext = some s ∧ s.idle = true ∧
      s.disposal = some .cancel ∧ Settled s := by
  have hends : (exec step {} cancelInOnNext).map
      (fun s => (s.idle, s.disposal)) = some (true, some .cancel) := by
    decide +kernel
  obtain ⟨s, hrun, hs⟩ := Option.map_eq_some_iff.mp hends
  obtain ⟨hidle, hdisposal⟩ := Prod.ext_iff.mp hs
  have horderly : Along step Orderly {} cancelInOnNext :=
    ⟨trivial, trivial, trivial, nofun, nofun, .inr rfl, nofun, nofun, nofun,
      trivial⟩
  exact ⟨s, hrun, hidle, hdisposal,
    (from_resource_settles horderly hrun).2 hidle⟩

/-- The action that `dispose` has delayed does nothing, so that the buffer is
not cancelled and the observer gets no event. -/
theorem dispose_leaves_buffer :
    (exec step {} [ResourceAction.push [1], .dispose, .runDelayed]).map
      (fun s => (s.idle, s.disposal, s.cancelled, s.out.events)) =
        some (true, some .dispose, false, []) := by
  decide +kernel

end FromResourceSub

end ActorFramework.Flow
