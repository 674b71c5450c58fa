import ActorFramework.Core.ActorMoves

/-!
# Scheduling

An actor never has two jobs: its mailbox is blocked only while it has none,
and only the sender that unblocks it creates the next one.  While it has no
job the mailbox is blocked or closed, as long as handlers that skip a message
leave the actor alive and an actor that died of an exception stays dead.
-/

namespace ActorFramework.Core

open Foundation List DefaultMailbox

variable {α : Type*}

namespace ActorRun

structure Scheduled (s : ActorRun α) : Prop where
  single : s.jobs + s.reaper.toList.length ≤ 1
  asleep : s.actor.mailbox.inbox = .blocked →
    s.jobs = 0 ∧ s.actor.mailbox.cached = 0 ∧
      s.actor.locals.terminated = false
  ended : s.actor.mailbox.inbox = .closed →
    s.jobs = 0 ∧ s.reaper = none ∧ s.actor.Drained
  waiting : 0 < s.handoffs + s.queued → s.actor.locals.terminated = false
  running : ∀ frame ∈ s.frames,
    s.actor.locals.terminated = frame.pc.isClosing ∧
      (frame.pc.isClosing = true → s.actor.Drained)
  reaping : s.reaper ≠ none → s.calls = [] ∧ s.actor.Drained

theorem scheduled_launch (lazy : Bool) (letters : List (Letter α))
    (calls : List (Letter α × PushFront)) :
    (launch lazy letters calls).Scheduled := by
  cases lazy with
  | false =>
    constructor <;> simp [launch, jobs, Locals.fresh]
  | true =>
    cases letters <;> constructor <;>
      simp [launch, jobs, tryBlock, Locals.fresh,
        cached, initial, LifoInbox.tryBlock]

variable {s t : ActorRun α} {i : Nat} {h : Handling}

theorem jobs_eq_zero (h : s.jobs = 0) :
    s.handoffs = 0 ∧ s.queued = 0 ∧ s.frames = [] := by
  unfold jobs at h
  exact ⟨by omega, by omega, length_eq_zero_iff.mp (by omega)⟩

theorem Scheduled.accepting (hs : s.Scheduled) (hjobs : 0 < s.jobs) :
    s.actor.Accepting := by
  cases hinbox : s.actor.mailbox.inbox with
  | closed =>
    have hnone := (hs.ended hinbox).1
    omega
  | blocked =>
    have hnone := (hs.asleep hinbox).1
    omega
  | nodes list => exact ⟨list, hinbox⟩

variable {frame : Frame α} {action : ActorAction α}

theorem Scheduled.alone (hs : s.Scheduled)
    (hframe : s.frames[i]? = some frame) :
    i = 0 ∧ s.frames = [frame] ∧ s.handoffs = 0 ∧ s.queued = 0 ∧
      s.reaper = none := by
  have hsingle := hs.single
  unfold jobs at hsingle
  have hi : i < s.frames.length := (List.getElem?_eq_some_iff.mp hframe).1
  have hlen : s.frames.length = 1 := by omega
  obtain ⟨other, hother⟩ := length_eq_one_iff.mp hlen
  have hzero : i = 0 := by omega
  subst hzero
  have hreaper : s.reaper.toList.length = 0 := by omega
  refine ⟨rfl, ?_, by omega, by omega, ?_⟩
  · rw [hother] at hframe ⊢
    simpa using hframe
  · cases hr : s.reaper with
    | none => rfl
    | some pc => simp [hr] at hreaper

theorem Scheduled.noReaper (hs : s.Scheduled) {call : Letter α × PushFront}
    (hcall : s.calls[i]? = some call) : s.reaper = none := by
  by_contra hreaper
  have hcalls := (hs.reaping hreaper).1
  simp [hcalls] at hcall

theorem Scheduled.pass {s t : ActorRun α} (hs : s.Scheduled)
    (hactor : t.actor = s.actor) (hreaper : t.reaper = s.reaper)
    (hcalls : t.calls = s.calls) (hjobs : t.jobs = s.jobs)
    (hlive : s.actor.locals.terminated = false)
    (hframes : ∀ frame ∈ t.frames,
      frame ∈ s.frames ∨ frame.pc.isClosing = false) : t.Scheduled := by
  refine ⟨?_, ?_, ?_, ?_, ?_, ?_⟩
  · rw [hjobs, hreaper]
    exact hs.single
  · rw [hjobs, hactor]
    exact hs.asleep
  · rw [hjobs, hreaper, hactor]
    exact hs.ended
  · rw [hactor]
    exact fun _ => hlive
  · intro frame hframe
    rw [hactor]
    rcases hframes frame hframe with hold | hnew
    · exact hs.running frame hold
    · rw [hnew]
      exact ⟨hlive, fun hclosing => nomatch hclosing⟩
  · rw [hreaper, hcalls, hactor]
    exact hs.reaping

section

variable (hs : s.Scheduled)
include hs

theorem Scheduled.work {actor : Actor α} {result : Progress (ResumePc α) Bool}
    (hframe : s.frames[i]? = some frame)
    (hresume : s.actor.resume frame h = some (actor, result)) :
    Actor.Resumes s.actor frame.pc h actor result := by
  obtain ⟨-, hframes, -⟩ := hs.alone hframe
  have hjobs : 0 < s.jobs := by simp [jobs, hframes]
  obtain ⟨hterm, hdrain⟩ := hs.running frame (by simp [hframes])
  exact Actor.resume_resumes (hs.accepting hjobs) hterm hdrain hresume

theorem Scheduled.push (hmove : s.Moves (.push i) t) : t.Scheduled := by
  have hsingle := hs.single
  cases hmove with
  | retry pc' hcall | reject hcall hclosed =>
    have hreaper := hs.noReaper hcall
    exact { hs with reaping := fun hsome => absurd hreaper hsome }
  | accept hcall hopen =>
    have hreaper := hs.noReaper hcall
    refine ⟨hs.single, ?_, ?_, hs.waiting, hs.running,
      fun hsome => absurd hreaper hsome⟩
    · intro hblk
      simp [accept] at hblk
    · intro hclosed
      simp [accept] at hclosed
  | wake hcall hblk =>
    have hreaper := hs.noReaper hcall
    obtain ⟨hjobs, -, hlive⟩ := hs.asleep hblk
    unfold jobs at hjobs
    refine ⟨?_, ?_, ?_, fun _ => hlive, hs.running,
      fun hsome => absurd hreaper hsome⟩
    · simp only [jobs, hreaper, Option.toList_none, length_nil]
      omega
    · intro hblk'
      simp [accept] at hblk'
    · intro hclosed
      simp [accept] at hclosed

theorem Scheduled.resume (hmove : s.Moves (.resume i h) t) : t.Scheduled := by
  cases hmove with
  | @work _ _ frame actor pc hframe hresume =>
    obtain ⟨rfl, hframes, hhand, hqueued, hreaper⟩ := hs.alone hframe
    have hjobs : jobs { s with
        actor, frames := s.frames.set 0 { frame with pc } } = 1 := by
      simp [jobs, hframes, hhand, hqueued]
    have hruns : actor.Accepting → actor.locals.terminated = pc.isClosing →
        (pc.isClosing = true → actor.Drained) → Scheduled { s with
          actor, frames := s.frames.set 0 { frame with pc } } := by
      intro hopen hterm hdrain
      obtain ⟨list, hlist⟩ := hopen
      refine ⟨?_, ?_, ?_, ?_, ?_, fun hsome => absurd hreaper hsome⟩
      · rw [hjobs]
        simp [hreaper]
      · simp [hlist]
      · simp [hlist]
      · simp [hhand, hqueued]
      · intro frame' hframe'
        have heq : frame' = { frame with pc } := by
          simpa [hframes] using hframe'
        subst heq
        exact ⟨hterm, hdrain⟩
    cases hs.work hframe hresume with
    | working hopen hlive hpc =>
      refine hruns hopen (hlive.trans hpc.symm) ?_
      intro hclosing
      rw [hpc] at hclosing
      contradiction
    | closing take hopen hterm hdrain =>
      exact hruns hopen hterm fun _ => hdrain
  | @yield _ _ frame actor later hframe hresume =>
    obtain ⟨rfl, hframes, hhand, hqueued, hreaper⟩ := hs.alone hframe
    cases hs.work hframe hresume with
    | later hopen hlive | stuck hopen hlive =>
      obtain ⟨list, hlist⟩ := hopen
      constructor <;>
        simp [jobs, hframes, hhand, hqueued, hreaper, hlist, hlive]
    | asleep hblk hempty hlive =>
      constructor <;>
        simp [jobs, hframes, hhand, hqueued, hreaper, hblk, hempty, hlive]
    | closed hclosed hterm hdrain =>
      constructor <;>
        simp [jobs, hframes, hhand, hqueued, hreaper, hclosed, hdrain]

theorem Scheduled.unreachable (hmove : s.Moves .unreachable t) :
    t.Scheduled := by
  cases hmove with
  | unreachable hjobs hcalls hreaper hlive hopen =>
    obtain ⟨-, -, hframes⟩ := jobs_eq_zero hjobs
    refine ⟨?_, ?_, ?_, fun _ => hlive, ?_, ?_⟩
    · change s.jobs + 1 ≤ 1
      omega
    · exact fun _ => ⟨hjobs, rfl, hlive⟩
    · exact fun hclosed => absurd hclosed hopen
    · simp [hframes]
    · exact fun _ => ⟨hcalls, Actor.drained_dropCached _⟩
  | forget hreaper hclosed =>
    obtain ⟨hjobs, -, hurgent, hnormal, -⟩ := hs.ended hclosed
    obtain ⟨hhand, hqueued, hframes⟩ := jobs_eq_zero hjobs
    refine ⟨hs.single, ?_, ?_, ?_, ?_, fun hsome => absurd hreaper hsome⟩
    · intro hblk
      rw [show s.actor.mailbox.inbox = .blocked from hblk] at hclosed
      contradiction
    · exact fun _ => ⟨hjobs, hreaper, hurgent, hnormal, rfl⟩
    · simp [hhand, hqueued]
    · simp [hframes]

theorem Scheduled.reap {spurious : Bool} (hmove : s.Moves (.reap spurious) t) :
    t.Scheduled := by
  have hsingle := hs.single
  cases hmove with
  | reap pc' hreaper =>
    have hsome : s.reaper ≠ none := by simp [hreaper]
    refine ⟨?_, hs.asleep, ?_, hs.waiting, hs.running,
      fun _ => hs.reaping hsome⟩
    · simpa [hreaper, jobs] using hsingle
    · exact fun hclosed => absurd (hs.ended hclosed).2.1 hsome
  | reaped hreaper =>
    have hsome : s.reaper ≠ none := by simp [hreaper]
    have hjobs : s.jobs = 0 := by
      simp only [hreaper, Option.toList_some, length_singleton] at hsingle
      omega
    obtain ⟨hhand, hqueued, hframes⟩ := jobs_eq_zero hjobs
    refine ⟨?_, ?_, ?_, ?_, ?_, ?_⟩
    · change s.jobs + 0 ≤ 1
      omega
    · exact fun hblk => nomatch hblk
    · exact fun _ => ⟨hjobs, rfl, (hs.reaping hsome).2⟩
    · simp [hhand, hqueued]
    · simp [hframes]
    · exact fun hnone => absurd rfl hnone

theorem step_scheduled (hstep : s.step action = some t) : t.Scheduled := by
  have hmove := step_moves hstep
  cases action with
  | enqueue letter =>
    cases hmove with
    | enqueue _ hreaper =>
      exact { hs with reaping := fun hsome => absurd hreaper hsome }
  | push i => exact hs.push hmove
  | schedule =>
    cases hmove with
    | schedule hhand =>
      refine hs.pass rfl rfl rfl ?_ (hs.waiting (by omega))
        fun _ hframe => .inl hframe
      simp only [jobs]
      omega
  | dequeue maxThroughput =>
    cases hmove with
    | dequeue _ hqueued =>
      refine hs.pass rfl rfl rfl ?_ (hs.waiting (by omega)) ?_
      · simp only [jobs, length_append, length_singleton]
        omega
      · intro frame hframe
        rcases mem_append.mp hframe with hold | hnew
        · exact .inl hold
        · rw [mem_singleton.mp hnew]
          exact .inr rfl
  | resume i h => exact hs.resume hmove
  | unreachable => exact hs.unreachable hmove
  | reap spurious => exact hs.reap hmove

end

structure Awake (s : ActorRun α) : Prop where
  idle : s.jobs = 0 →
    s.actor.mailbox.inbox = .blocked ∨ s.actor.mailbox.inbox = .closed
  responsive : s.actor.locals.Responsive

/-- The condition on user code, for the call of `resume` that runs it. -/
def safely (s : ActorRun α) : ActorAction α → Bool
  | .resume i h => s.frames[i]?.all fun frame => s.actor.stepsSafely frame.pc h
  | _ => true

theorem awake_launch (lazy : Bool) (letters : List (Letter α))
    (calls : List (Letter α × PushFront)) :
    (launch lazy letters calls).Awake := by
  have hresp : Locals.fresh.Responsive := by
    intro _ hinitialized
    contradiction
  refine ⟨?_, ?_⟩
  · intro hjobs
    cases lazy with
    | false => simp [launch, jobs] at hjobs
    | true =>
      cases letters with
      | nil => exact .inl rfl
      | cons letter letters =>
        simp [launch, jobs, tryBlock, LifoInbox.tryBlock,
          cached, initial] at hjobs
  · cases lazy <;> exact hresp

theorem Awake.resume (hs : s.Scheduled) (ha : s.Awake)
    (hsafe : s.safely (.resume i h) = true) (hmove : s.Moves (.resume i h) t) :
    t.Awake := by
  cases hmove with
  | @work _ _ frame actor pc hframe hresume =>
    have hsteps : s.actor.stepsSafely frame.pc h = true := by
      simpa [safely, hframe] using hsafe
    obtain ⟨rfl, hframes, -⟩ := hs.alone hframe
    refine ⟨?_, ?_⟩
    · simp [jobs, hframes]
    · cases hs.work hframe hresume with
      | working hopen hlive hpc hresp =>
        exact hresp hsteps ha.responsive
      | closing take hopen hterm =>
        intro hlive
        rw [hterm] at hlive
        contradiction
  | @yield _ _ frame actor later hframe hresume =>
    have hsteps : s.actor.stepsSafely frame.pc h = true := by
      simpa [safely, hframe] using hsafe
    cases hs.work hframe hresume with
    | later hopen hlive hresp =>
      refine ⟨?_, hresp ha.responsive⟩
      simp [jobs]
    | asleep hblk hempty hlive hresp =>
      exact ⟨fun _ => .inl hblk, hresp ha.responsive⟩
    | closed hclosed hterm =>
      refine ⟨fun _ => .inr hclosed, ?_⟩
      intro hlive
      rw [hterm] at hlive
      contradiction
    | stuck hopen hlive hstuck =>
      exact absurd ha.responsive (hstuck hsteps)

theorem step_awake (hs : s.Scheduled) (ha : s.Awake)
    (hsafe : s.safely action = true) (hstep : s.step action = some t) :
    t.Awake := by
  have hmove := step_moves hstep
  cases action with
  | resume i h => exact ha.resume hs hsafe hmove
  | enqueue letter =>
    cases hmove
    exact { ha with }
  | push i =>
    cases hmove with
    | retry | reject => exact { ha with }
    | accept hcall hopen =>
      refine ⟨?_, ha.responsive⟩
      intro hjobs
      obtain ⟨list, hlist⟩ := hopen
      have hidle := ha.idle hjobs
      simp [hlist] at hidle
    | wake =>
      refine ⟨?_, ha.responsive⟩
      intro hjobs
      simp only [jobs] at hjobs
      omega
  | schedule =>
    cases hmove
    refine ⟨?_, ha.responsive⟩
    intro hjobs
    simp only [jobs] at hjobs
    omega
  | dequeue maxThroughput =>
    cases hmove
    refine ⟨?_, ha.responsive⟩
    intro hjobs
    simp [jobs] at hjobs
  | unreachable =>
    cases hmove with
    | unreachable => exact { ha with }
    | forget hreaper hclosed =>
      refine ⟨fun _ => .inr hclosed, ?_⟩
      intro hlive
      contradiction
  | reap spurious =>
    cases hmove with
    | reap => exact { ha with }
    | reaped =>
      refine ⟨fun _ => .inr rfl, ?_⟩
      intro hlive
      contradiction

theorem exec_scheduled {lazy : Bool} {letters : List (Letter α)}
    {calls : List (Letter α × PushFront)} {actions : List (ActorAction α)}
    (hrun : exec step (launch lazy letters calls) actions = some s) :
    s.Scheduled :=
  exec_invariant Scheduled (fun _ _ _ => step_scheduled)
    (scheduled_launch lazy letters calls) hrun

theorem Scheduled.unread_blocked (hs : s.Scheduled)
    (hblk : s.actor.mailbox.inbox = .blocked) :
    s.actor.mailbox.unread = [] := by
  have hcached := (hs.asleep hblk).2.1
  unfold cached at hcached
  have hurgent : s.actor.mailbox.urgentQueue = [] :=
    length_eq_zero_iff.mp (by omega)
  have hnormal : s.actor.mailbox.normalQueue = [] :=
    length_eq_zero_iff.mp (by omega)
  simp [unread, hurgent, hnormal, hblk]

theorem actor_scheduled_exactly_once (lazy : Bool)
    (letters : List (Letter α)) (calls : List (Letter α × PushFront))
    (actions : List (ActorAction α)) {s : ActorRun α}
    (hrun : exec step (launch lazy letters calls) actions = some s) :
    s.jobs ≤ 1 ∧
      (Along step (fun s action => s.safely action = true)
          (launch lazy letters calls) actions →
        s.actor.mailbox.unread ≠ [] → s.actor.mailbox.inbox ≠ .closed →
          s.jobs = 1) := by
  have hs := exec_scheduled hrun
  have hsingle : s.jobs ≤ 1 := Nat.le_of_add_right_le hs.single
  refine ⟨hsingle, ?_⟩
  intro hsafe hunread hopen
  have hboth : s.Scheduled ∧ s.Awake := by
    refine exec_invariant_along (fun s => s.Scheduled ∧ s.Awake) ?_
      ⟨scheduled_launch lazy letters calls, awake_launch lazy letters calls⟩
      hsafe hrun
    intro s action t hinv hguard hstep
    exact ⟨step_scheduled hinv.1 hstep, step_awake hinv.1 hinv.2 hguard hstep⟩
  by_contra hjobs
  have hnone : s.jobs = 0 := by omega
  rcases hboth.2.idle hnone with hblocked | hclosed
  · exact hunread (hs.unread_blocked hblocked)
  · exact hopen hclosed

def becomeCode : Handling :=
  { (default : Handling) with code := [.become true] }

def asyncLetter (addr : Nat) : Letter Nat :=
  ⟨addr, ⟨none, ⟨MessageId.defaultAsyncValue⟩, addr⟩⟩

def startActions : List (ActorAction Nat) :=
  [.dequeue 10, .resume 0 becomeCode, .resume 0 default, .resume 0 default,
    .resume 0 default]

def deliverActions (addr : Nat) : List (ActorAction Nat) :=
  [.enqueue (asyncLetter addr), .push 0, .push 0, .schedule, .dequeue 10,
    .resume 0 default]

def fetchActions : List (ActorAction Nat) :=
  [.resume 0 default, .resume 0 default, .resume 0 default, .resume 0 default]

theorem actor_scheduled_exactly_once_woken :
    ∃ s, exec step (launch false [] [])
        (startActions ++ deliverActions 1) = some s ∧
      s.actor.mailbox.unread = [asyncLetter 1] ∧ s.jobs = 1 :=
  ⟨_, rfl, rfl, (actor_scheduled_exactly_once false [] []
    (startActions ++ deliverActions 1) rfl).2 (by decide) (by decide)
    (by decide)⟩

/--
The default handler calls `quit` and skips the message.  Nothing finalizes the
actor, so the next message finds it waiting but not alive.
-/
def quitSkipActions : List (ActorAction Nat) :=
  [.resume 0 { (default : Handling) with code := [.quit], outcome := .skipped },
    .resume 0 default, .resume 0 default, .resume 0 default]

theorem actor_skip_after_quit_loses_message :
    ∃ s, exec step (launch false [] [])
        (startActions ++ deliverActions 1 ++ fetchActions ++
          quitSkipActions ++ deliverActions 2) = some s ∧
      s.actor.mailbox.unread = [asyncLetter 2] ∧
      s.actor.mailbox.inbox ≠ .closed ∧ s.jobs = 0 :=
  ⟨_, rfl, rfl, by decide, rfl⟩

/-- A blocked mailbox has nothing to read and no job, a closed one nothing that
was left behind. -/
theorem actor_at_rest {lazy : Bool} {letters : List (Letter α)}
    {calls : List (Letter α × PushFront)} {actions : List (ActorAction α)}
    (hrun : exec step (launch lazy letters calls) actions = some s) :
    (s.actor.mailbox.inbox = .blocked → s.jobs = 0 ∧
      s.actor.mailbox.unread = [] ∧ s.actor.locals.terminated = false) ∧
    (s.actor.mailbox.inbox = .closed → s.jobs = 0 ∧ s.actor.Drained) := by
  have hs := exec_scheduled hrun
  refine ⟨fun hblocked => ?_, fun hclosed => ?_⟩
  · obtain ⟨hjobs, -, hlive⟩ := hs.asleep hblocked
    exact ⟨hjobs, hs.unread_blocked hblocked, hlive⟩
  · obtain ⟨hjobs, -, hdrained⟩ := hs.ended hclosed
    exact ⟨hjobs, hdrained⟩

theorem actor_at_rest_started :
    ∃ s, exec step (launch false [] []) startActions = some s ∧
      s.jobs = 0 ∧ s.actor.mailbox.unread = [] := by
  refine ⟨?s, ?hrun, ((actor_at_rest ?hrun).1 ?_).imp_right And.left⟩
  case hrun => rfl
  rfl

end ActorRun

end ActorFramework.Core
