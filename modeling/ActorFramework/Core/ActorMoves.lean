import ActorFramework.Core.ScheduledActor

/-!
# What an actor can do next

`Actor.Resumes` lists what one step of a running `resume` can lead to, and
`ActorRun.Moves` what one step of the whole run can do.  Invariants of runs
are proved from these two relations only.
-/

namespace ActorFramework.Core

open Foundation Option DefaultMailbox Locals

variable {α : Type*}

namespace Locals

@[simp] theorem quit_flags (l : Locals) :
    l.quit.terminated = l.terminated ∧ l.quit.initialized = l.initialized := by
  unfold quit
  split <;> exact ⟨rfl, rfl⟩

theorem apply_flags (l : Locals) (op : LocalOp) :
    (l.apply op).terminated = l.terminated ∧
      (l.apply op).initialized = l.initialized := by
  cases op with
  | become discardOld =>
    simp only [apply, become]
    split
    · exact ⟨rfl, rfl⟩
    · split <;> exact ⟨rfl, rfl⟩
  | addMultiplexed id =>
    simp only [apply]
    split <;> exact ⟨rfl, rfl⟩
  | quit => exact l.quit_flags
  | _ => exact ⟨rfl, rfl⟩

@[simp] theorem run_flags (l : Locals) (ops : List LocalOp) :
    (l.run ops).terminated = l.terminated ∧
      (l.run ops).initialized = l.initialized := by
  induction ops generalizing l with
  | nil => exact ⟨rfl, rfl⟩
  | cons op ops ih =>
    have hfirst := l.apply_flags op
    have hrest := ih (l.apply op)
    exact ⟨hrest.1.trans hfirst.1, hrest.2.trans hfirst.2⟩

@[simp] theorem fail_flags (l : Locals) (h : Handling) :
    (l.fail h).terminated = l.terminated ∧
      (l.fail h).initialized = l.initialized := by
  simp [fail]

def Responsive (l : Locals) : Prop :=
  l.terminated = false → l.initialized = true → l.alive = true

variable {l l' : Locals}

theorem finalize_cases {h : Handling} {done : Bool}
    (hlive : l.terminated = false) (hfinal : l.finalize h = (l', done)) :
    l'.terminated = false ∧ l'.initialized = l.initialized ∧
      l'.alive = !done := by
  simp only [finalize, hlive, Bool.false_eq_true, if_false,
    Prod.mk.injEq] at hfinal
  obtain ⟨rfl, rfl⟩ := hfinal
  simp [hlive]

end Locals

theorem consume_flags {x : Letter α} {h : Handling} {verdict : Verdict}
    (hcon : consume l x h = (l', verdict)) :
    l'.terminated = l.terminated ∧ l'.initialized = l.initialized := by
  unfold consume at hcon
  split at hcon
  · split at hcon
    · cases hcon
      simp
    · split at hcon
      · cases hcon
        simp
      · split at hcon <;> cases hcon <;> simp
  · split at hcon
    · split at hcon <;> cases hcon <;> simp
    · split at hcon <;> cases hcon <;> simp

theorem consume_dropped {x : Letter α} {h : Handling}
    (hcon : consume l x h = (l', .dropped)) :
    l' = l ∧ x.value.mid.isResponse = true := by
  have hhandled : h.outcome.handled ≠ .dropped := by
    cases h.outcome <;> simp [Outcome.handled]
  have hordinary : h.outcome.ordinary l.dropsMessages ≠ .dropped := by
    cases h.outcome <;> cases l.dropsMessages <;> simp [Outcome.ordinary]
  unfold consume at hcon
  split at hcon
  · split at hcon
    · exact absurd (Prod.mk.inj hcon).2 hhandled
    · split at hcon
      · cases hcon
      · split at hcon
        · exact absurd (Prod.mk.inj hcon).2 hhandled
        · cases hcon
  · split at hcon
    · rename_i hresp
      split at hcon
      · exact absurd (Prod.mk.inj hcon).2 hhandled
      · cases hcon
        exact ⟨rfl, hresp⟩
    · split at hcon
      · exact absurd (Prod.mk.inj hcon).2 hhandled
      · exact absurd (Prod.mk.inj hcon).2 hordinary

def ResumePc.isClosing : ResumePc α → Bool
  | .closing _ => true
  | _ => false

namespace Actor

def Drained (a : Actor α) : Prop :=
  a.mailbox.urgentQueue = [] ∧ a.mailbox.normalQueue = [] ∧ a.stash = []

def Accepting (a : Actor α) : Prop :=
  ∃ list, a.mailbox.inbox = .nodes list

/--
The condition on user code: a handler that skips its message leaves the actor
alive, and nothing that runs after an exception brings it back to life.
-/
def stepsSafely (a : Actor α) (pc : ResumePc α) (h : Handling) : Bool :=
  match pc with
  | .activate =>
    a.locals.initialized || h.outcome != .threw ||
      !(((a.locals.initializeActor h).fail h).run h.actions).alive
  | .reactivate _ letter =>
    match consume a.locals letter h with
    | (l, .skipped) => l.alive
    | (l, .threw) => !((l.fail h).run h.actions).alive
    | _ => true
  | _ => true

inductive Resumes (a : Actor α) (pc : ResumePc α) (h : Handling) :
    Actor α → Progress (ResumePc α) Bool → Prop
  | working {a' pc'} (hopen : a'.Accepting)
      (hlive : a'.locals.terminated = false) (hpc : pc'.isClosing = false)
      (hresponsive : a.stepsSafely pc h = true → a.locals.Responsive →
        a'.locals.Responsive) : Resumes a pc h a' (.running pc')
  | closing {a'} (take) (hopen : a'.Accepting)
      (hterminated : a'.locals.terminated = true) (hdrained : a'.Drained) :
      Resumes a pc h a' (.running (.closing take))
  | later {a'} (hopen : a'.Accepting)
      (hlive : a'.locals.terminated = false)
      (hresponsive : a.locals.Responsive → a'.locals.Responsive) :
      Resumes a pc h a' (.returned true)
  | asleep {a'} (hblocked : a'.mailbox.inbox = .blocked)
      (hempty : a'.mailbox.cached = 0)
      (hlive : a'.locals.terminated = false)
      (hresponsive : a.locals.Responsive → a'.locals.Responsive) :
      Resumes a pc h a' (.returned false)
  | closed {a'} (hclosed : a'.mailbox.inbox = .closed)
      (hterminated : a'.locals.terminated = true) (hdrained : a'.Drained) :
      Resumes a pc h a' (.returned false)
  | stuck {a'} (hopen : a'.Accepting)
      (hlive : a'.locals.terminated = false)
      (hstuck : a.stepsSafely pc h = true → ¬a.locals.Responsive) :
      Resumes a pc h a' (.returned false)

variable {a a' b : Actor α} {pc : ResumePc α} {h : Handling}

theorem closeMailbox_open (hopen : a.Accepting) :
    a.closeMailbox = (a.dropStash.dropCached, .running .load) := by
  obtain ⟨list, hlist⟩ := hopen
  have hpointer : a.dropStash.mailbox.inbox.pointer ≠ .closed := by
    simp [dropStash, bounce, hlist]
  simp [closeMailbox, hpointer]

theorem drained_dropCached (a : Actor α) : a.dropStash.dropCached.Drained :=
  ⟨rfl, rfl, rfl⟩

theorem closeInbox_cases {pc : TakeHead} {spurious : Bool}
    {result : Progress TakeHead Unit}
    (h : a.closeInbox pc spurious = some (a', result)) :
    (∃ pc', a' = a ∧ result = .running pc') ∨
    (a' = { a.bounce a.mailbox.inbox.elements with
        mailbox := { a.mailbox with inbox := .closed } } ∧
      result = .returned ()) := by
  unfold closeInbox at h
  split at h
  · contradiction
  · rename_i mailbox pc' hclose
    cases h
    rcases closeInbox_cases hclose with
      ⟨_, rfl, -⟩ | ⟨-, hret⟩
    · exact .inl ⟨pc', rfl, rfl⟩
    · contradiction
  · rename_i mailbox letters hclose
    cases h
    rcases closeInbox_cases hclose with
      ⟨_, -, hruns⟩ | ⟨rfl, hret⟩
    · contradiction
    · cases hret
      exact .inr ⟨rfl, rfl⟩

private theorem resumes_terminate (hopen : b.Accepting)
    (hlive : b.locals.terminated = false) :
    Resumes a pc h b.terminate.1 b.terminate.2 := by
  have hclose := closeMailbox_open
    (show Accepting { b with locals := b.locals.cleanup } from hopen)
  simp only [terminate, hlive, hclose]
  exact .closing .load hopen rfl (drained_dropCached _)

private theorem resumes_fail {l : Locals} (hopen : b.Accepting)
    (hlive : l.terminated = false)
    (hsafe : a.stepsSafely pc h = true →
      ((l.fail h).run h.actions).alive = false) :
    Resumes a pc h (b.fail l h).1 (b.fail l h).2 := by
  have hfail := (l.fail_flags h).1.trans hlive
  unfold fail
  split
  · rename_i l' hfinal
    exact resumes_terminate hopen (finalize_cases hfail hfinal).1
  · rename_i l' hfinal
    refine .stuck hopen (finalize_cases hfail hfinal).1 ?_
    intro hsteps
    simp [finalize, hlive, hsafe hsteps] at hfinal

section

variable (hopen : a.Accepting)
include hopen

theorem activate_resumes (hlive : a.locals.terminated = false) (h : Handling) :
    Resumes a .activate h (a.activate h).1 (a.activate h).2 := by
  unfold activate
  split
  · rename_i hinitialized
    split_ifs with hdead
    · exact .working hopen hlive rfl fun _ hresp => hresp
    · refine .stuck hopen hlive fun _ hresp => ?_
      exact hdead (hresp hlive hinitialized)
  · rename_i hfresh
    have hfresh' := Bool.eq_false_iff.mpr hfresh
    have hrun : (a.locals.initializeActor h).terminated = false :=
      (run_flags _ _).1.trans hlive
    split_ifs with hthrew
    · refine resumes_fail hopen hrun ?_
      intro hsafe
      simpa [stepsSafely, hfresh', hthrew] using hsafe
    · split
      · rename_i l hfinal
        exact resumes_terminate hopen (finalize_cases hrun hfinal).1
      · rename_i l hfinal
        obtain ⟨hlive', -, halive⟩ := finalize_cases hrun hfinal
        exact .working hopen hlive' rfl fun _ _ _ _ => halive

theorem unstash_accepting : a.unstash.Accepting := by
  obtain ⟨list, hlist⟩ := hopen
  refine ⟨list, ?_⟩
  have hfold : ∀ (letters : List (Letter α)) (mailbox : DefaultMailbox α),
      (letters.foldl pushFront mailbox).inbox =
        mailbox.inbox := by
    intro letters
    induction letters with
    | nil => exact fun mailbox => rfl
    | cons letter letters ih =>
      intro mailbox
      rw [List.foldl_cons, ih, pushFront_inbox]
  exact (hfold _ _).trans hlist

theorem reactivate_resumes (hlive : a.locals.terminated = false)
    (consumed : Nat) (letter : Letter α) (h : Handling) :
    Resumes a (.reactivate consumed letter) h
      (a.reactivate consumed letter h).1
      (a.reactivate consumed letter h).2 := by
  unfold reactivate
  split
  · rename_i l hcon
    obtain ⟨rfl, -⟩ := consume_dropped hcon
    exact .working hopen hlive rfl fun _ hresp => hresp
  · rename_i l hcon
    have hlive' := (consume_flags hcon).1.trans hlive
    refine .working hopen hlive' rfl ?_
    intro hsafe _ _ _
    simpa only [stepsSafely, hcon] using hsafe
  · rename_i l hcon
    have hlive' := (consume_flags hcon).1.trans hlive
    split
    · rename_i l' hfinal
      exact resumes_terminate hopen (finalize_cases hlive' hfinal).1
    · rename_i l' hfinal
      obtain ⟨hlive'', -, halive⟩ := finalize_cases hlive' hfinal
      refine .working (unstash_accepting hopen) hlive'' rfl ?_
      exact fun _ _ _ _ => halive
  · rename_i l hcon
    have hlive' := (consume_flags hcon).1.trans hlive
    refine resumes_fail hopen hlive' ?_
    intro hsafe
    simpa [stepsSafely, hcon] using hsafe

theorem resume_resumes {frame : Frame α} {result : Progress (ResumePc α) Bool}
    (hterm : a.locals.terminated = frame.pc.isClosing)
    (hdrain : frame.pc.isClosing = true → a.Drained)
    (hresume : a.resume frame h = some (a', result)) :
    Resumes a frame.pc h a' result := by
  obtain ⟨list, hlist⟩ := id hopen
  unfold resume at hresume
  split at hresume
  · rename_i hpc
    rw [hpc] at hterm ⊢
    have hactivate := activate_resumes hopen hterm h
    rwa [some.inj hresume] at hactivate
  · rename_i consumed hpc
    rw [hpc] at hterm ⊢
    split at hresume
    · split at hresume
      · rename_i letter mailbox hpop
        cases hresume
        have hinbox := (popCached_cases hpop).1
        exact .working ⟨list, hinbox.trans hlist⟩ hterm rfl
          fun _ hresp => hresp
      · cases hresume
        exact .working hopen hterm rfl fun _ hresp => hresp
    · cases hresume
      exact .working hopen hterm rfl fun _ hresp => hresp
  · rename_i consumed pc hpc
    rw [hpc] at hterm ⊢
    have hkeep : ∀ {mailbox result}, a.mailbox.fetchMore pc h.spurious =
        some (mailbox, result) → ∃ list, mailbox.inbox = .nodes list := by
      intro mailbox result hfetch
      rcases fetchMore_cases hfetch with
        ⟨_, rfl, -⟩ | ⟨-, -, rfl | rfl⟩ | ⟨-, -, rfl⟩
      · exact hopen
      · exact hopen
      · exact ⟨[], rfl⟩
      · exact ⟨[], by simp [Stack.empty]⟩
    split at hresume
    · contradiction
    all_goals
      rename_i hfetch
      cases hresume
      exact .working (hkeep hfetch) hterm rfl
        fun _ hresp => hresp
  · rename_i consumed hpc
    rw [hpc] at hterm ⊢
    rcases a.mailbox.tryBlock_cases with ⟨hinit, hblock⟩ | ⟨-, hblock⟩
    · rw [hblock] at hresume
      cases hresume
      refine .asleep rfl ?_ hterm id
      rw [hinit]
      rfl
    · rw [hblock] at hresume
      cases hresume
      exact .working hopen hterm rfl fun _ hresp => hresp
  · rename_i consumed letter hpc
    rw [hpc] at hterm ⊢
    have hreactivate := reactivate_resumes hopen hterm consumed letter h
    rwa [some.inj hresume] at hreactivate
  · rename_i hpc
    rw [hpc] at hterm ⊢
    rcases a.mailbox.tryBlock_cases with ⟨hinit, hblock⟩ | ⟨-, hblock⟩
    · rw [hblock] at hresume
      cases hresume
      refine .asleep rfl ?_ hterm id
      rw [hinit]
      rfl
    · rw [hblock] at hresume
      cases hresume
      exact .later hopen hterm id
  · rename_i pc hpc
    rw [hpc] at hterm hdrain ⊢
    have hempty := hdrain rfl
    cases hclose : a.closeInbox pc h.spurious with
    | none => simp [hclose] at hresume
    | some closed =>
      obtain ⟨b, progress⟩ := closed
      rcases closeInbox_cases hclose with
        ⟨pc', rfl, rfl⟩ | ⟨rfl, rfl⟩
      · rw [hclose] at hresume
        cases hresume
        exact .closing pc' hopen hterm hempty
      · rw [hclose] at hresume
        cases hresume
        exact .closed rfl hterm hempty

end

end Actor

namespace ActorRun

inductive Moves (s : ActorRun α) : ActorAction α → ActorRun α → Prop
  | enqueue (letter) (hreaper : s.reaper = none) :
      Moves s (.enqueue letter) { s with
        calls := s.calls ++ [(letter, .load)]
        enqueued := s.enqueued ++ [letter] }
  | retry {i letter pc} (pc') (hcall : s.calls[i]? = some (letter, pc)) :
      Moves s (.push i) { s with calls := s.calls.set i (letter, pc') }
  | reject {i letter pc} (hcall : s.calls[i]? = some (letter, pc))
      (hclosed : s.actor.mailbox.inbox = .closed) :
      Moves s (.push i) { s with
        actor := s.actor.bounce [letter], calls := s.calls.eraseIdx i }
  | accept {i letter pc} (hcall : s.calls[i]? = some (letter, pc))
      (hopen : s.actor.Accepting) :
      Moves s (.push i) { s with
        actor := { s.actor with mailbox := s.actor.mailbox.accept letter }
        calls := s.calls.eraseIdx i }
  | wake {i letter pc} (hcall : s.calls[i]? = some (letter, pc))
      (hblocked : s.actor.mailbox.inbox = .blocked) :
      Moves s (.push i) { s with
        actor := { s.actor with mailbox := s.actor.mailbox.accept letter }
        calls := s.calls.eraseIdx i
        handoffs := s.handoffs + 1 }
  | schedule (hhandoffs : 0 < s.handoffs) :
      Moves s .schedule { s with
        handoffs := s.handoffs - 1, queued := s.queued + 1 }
  | dequeue (maxThroughput) (hqueued : 0 < s.queued) :
      Moves s (.dequeue maxThroughput) { s with
        queued := s.queued - 1
        frames := s.frames ++ [⟨maxThroughput, .activate⟩] }
  | work {i h frame actor pc} (hframe : s.frames[i]? = some frame)
      (hresume : s.actor.resume frame h = some (actor, .running pc)) :
      Moves s (.resume i h) { s with
        actor, frames := s.frames.set i { frame with pc } }
  | yield {i h frame actor later} (hframe : s.frames[i]? = some frame)
      (hresume : s.actor.resume frame h = some (actor, .returned later)) :
      Moves s (.resume i h) { s with
        actor, frames := s.frames.eraseIdx i
        queued := s.queued + later.toNat }
  | unreachable (hjobs : s.jobs = 0) (hcalls : s.calls = [])
      (hreaper : s.reaper = none)
      (hlive : s.actor.locals.terminated = false)
      (hopen : s.actor.mailbox.inbox ≠ .closed) :
      Moves s .unreachable { s with
        actor := s.actor.dropStash.dropCached, reaper := some .load }
  | forget (hreaper : s.reaper = none)
      (hclosed : s.actor.mailbox.inbox = .closed) :
      Moves s .unreachable { s with
        actor := { s.actor.dropStash with
          locals := s.actor.locals.cleanup } }
  | reap {pc spurious} (pc') (hreaper : s.reaper = some pc) :
      Moves s (.reap spurious) { s with reaper := some pc' }
  | reaped {pc spurious} (hreaper : s.reaper = some pc) :
      Moves s (.reap spurious) { s with
        actor := { s.actor.bounce s.actor.mailbox.inbox.elements with
          mailbox := { s.actor.mailbox with inbox := .closed }
          locals := s.actor.locals.cleanup }
        reaper := none }

variable {s t : ActorRun α} {i : Nat}

theorem push_moves (hstep : s.push i = some t) : s.Moves (.push i) t := by
  unfold push at hstep
  cases hcall : s.calls[i]? with
  | none => simp [hcall] at hstep
  | some call =>
    obtain ⟨letter, pc⟩ := call
    rcases s.actor.mailbox.pushBack_cases letter pc with
      ⟨pc', hpush⟩ | ⟨hclosed, hpush⟩ | ⟨hblk, hpush⟩ |
        ⟨list, hlist, hpush⟩
    · simp only [hcall, hpush, some.injEq] at hstep
      subst hstep
      exact .retry pc' hcall
    · simp only [hcall, hpush, some.injEq] at hstep
      subst hstep
      exact .reject hcall hclosed
    · simp only [hcall, hpush, some.injEq] at hstep
      subst hstep
      exact .wake hcall hblk
    · simp only [hcall, hpush, some.injEq] at hstep
      subst hstep
      exact .accept hcall ⟨list, hlist⟩

theorem resume_moves {h : Handling} (hstep : s.resume i h = some t) :
    s.Moves (.resume i h) t := by
  unfold resume at hstep
  split at hstep
  · contradiction
  · rename_i frame hframe
    split at hstep
    · contradiction
    · rename_i actor pc hresume
      cases hstep
      exact .work hframe hresume
    · rename_i actor later hresume
      cases hstep
      exact .yield hframe hresume

theorem unreachable_moves (hstep : s.unreachable = some t) :
    s.Moves .unreachable t := by
  obtain ⟨hguard, hstep⟩ := ite_none_right_eq_some.mp hstep
  obtain ⟨hjobs, hcalls, hreaper, hlive⟩ := hguard
  by_cases hclosed : s.actor.mailbox.inbox = .closed
  · have hclose : s.actor.closeMailbox = (s.actor.dropStash, .returned ()) := by
      simp [Actor.closeMailbox, Actor.dropStash, Actor.bounce, hclosed]
    simp only [hclose, some.injEq] at hstep
    subst hstep
    exact .forget hreaper hclosed
  · have hclose : s.actor.closeMailbox =
        (s.actor.dropStash.dropCached, .running .load) := by
      simp [Actor.closeMailbox, Actor.dropStash, Actor.bounce, hclosed]
    simp only [hclose, some.injEq] at hstep
    subst hstep
    exact .unreachable hjobs hcalls hreaper hlive hclosed

theorem reap_moves {spurious : Bool} (hstep : s.reap spurious = some t) :
    s.Moves (.reap spurious) t := by
  unfold reap at hstep
  cases hreaper : s.reaper with
  | none => simp [hreaper] at hstep
  | some pc =>
    cases hclose : s.actor.closeInbox pc spurious with
    | none => simp [hreaper, hclose] at hstep
    | some closed =>
      obtain ⟨actor, progress⟩ := closed
      rcases Actor.closeInbox_cases hclose with
        ⟨pc', rfl, rfl⟩ | ⟨rfl, rfl⟩
      · simp only [hreaper, hclose, some.injEq] at hstep
        subst hstep
        exact .reap pc' hreaper
      · simp only [hreaper, hclose, some.injEq] at hstep
        subst hstep
        exact .reaped hreaper

theorem step_moves {action : ActorAction α} (hstep : s.step action = some t) :
    s.Moves action t := by
  cases action with
  | enqueue letter =>
    simp only [step, ite_none_right_eq_some, some.injEq] at hstep
    obtain ⟨hreaper, rfl⟩ := hstep
    exact .enqueue letter hreaper
  | push i => exact push_moves hstep
  | schedule =>
    simp only [step, ite_none_right_eq_some, some.injEq] at hstep
    obtain ⟨hhand, rfl⟩ := hstep
    exact .schedule hhand
  | dequeue maxThroughput =>
    simp only [step, ite_none_right_eq_some, some.injEq] at hstep
    obtain ⟨hqueued, rfl⟩ := hstep
    exact .dequeue maxThroughput hqueued
  | resume i h => exact resume_moves hstep
  | unreachable => exact unreachable_moves hstep
  | reap spurious => exact reap_moves hstep

end ActorRun

end ActorFramework.Core
