import ActorFramework.Foundation.Transition
import Mathlib.Data.List.Perm.Subperm

/-!
# Delayed actions

`delay` appends an action to `actions_`, which `run_actions` empties after
each message.  Beyond a number of actions per run it sends the action through
the mailbox instead, as the response to a request of its own.  A state lies
between two calls of user code, and an action is known by the number of the
call of `delay` it was passed to.
-/

namespace ActorFramework.Core

open Foundation List

def maxInlineActionsPerRun : Nat := 10

inductive Mail where
  | delayed (number : Nat)
  | other

def Mail.number : Mail → Option Nat
  | .delayed number => some number
  | .other => none

@[simp] theorem filterMap_number_delayed (n : Nat) (mails : List Mail) :
    (Mail.delayed n :: mails).filterMap Mail.number =
      n :: mails.filterMap Mail.number := rfl

@[simp] theorem filterMap_number_other (mails : List Mail) :
    (Mail.other :: mails).filterMap Mail.number =
      mails.filterMap Mail.number := rfl

/-- Where the actor is: between two messages, in the handler of a message (or
in its initialization), in a default handler that returns `skip`, in
`finalize`, in `on_cleanup`, or terminated. -/
inductive ActorPhase where
  | idle
  | handling
  | skipping
  | finalizing
  | cleaning
  | terminated
  deriving DecidableEq

/-- What becomes of a message other than a delayed action.  It is `answered`
if it is the response that the actor awaits. -/
inductive Reaction where
  | consumed
  | answered
  | skipped
  | dropped
  deriving DecidableEq

/-- A null pointer in `actions` is `none`.  `index` is the position of the
action that `run_actions` is running.  `stash` has its newest element first,
and `multiplexed` are the response handlers of `delay`.  `delays` counts the
calls of `delay`, and `ran` lists the actions that were run. -/
structure DelayingActor where
  phase : ActorPhase
  shuttingDown : Bool
  actions : List (Option Nat)
  index : Option Nat
  delayedActionsThisRun : Nat
  mailbox : List Mail
  stash : List Mail
  multiplexed : List Nat
  awaited : Nat
  delays : Nat
  ran : List Nat

inductive DelayAction where
  | receive (urgent : Bool)
  | consume (reaction : Reaction)
  | delay
  | addAwaited
  | quit
  | skip
  | runActions
  | nextAction
  | finalize
  | settle
  | cleanup
  | close
  deriving DecidableEq

namespace DelayingActor

def initial : DelayingActor :=
  ⟨.handling, false, [], none, 0, [], [], [], 0, 0, []⟩

def inUserCode (s : DelayingActor) : Bool :=
  match s.phase with
  | .idle => false
  | .handling => true
  | .skipping => true
  | .finalizing => s.index.isSome
  | .cleaning => true
  | .terminated => false

def delay (s : DelayingActor) : DelayingActor :=
  if s.delayedActionsThisRun < maxInlineActionsPerRun then
    { s with
      actions := s.actions ++ [some s.delays]
      delayedActionsThisRun := s.delayedActionsThisRun + 1
      delays := s.delays + 1 }
  else
    { s with
      mailbox := s.mailbox ++ [.delayed s.delays]
      multiplexed := s.delays :: s.multiplexed
      delayedActionsThisRun := s.delayedActionsThisRun + 1
      delays := s.delays + 1 }

def advance (s : DelayingActor) (index : Nat) : DelayingActor :=
  match s.actions[index]? with
  | some slot =>
    { s with
      actions := s.actions.set index none
      index := some index
      ran := s.ran ++ slot.toList }
  | none => { s with actions := [], index := none }

def runActions (s : DelayingActor) : DelayingActor :=
  match s.actions with
  | [] => { s with delayedActionsThisRun := 0 }
  -- The loop is running already; the call only resets the counter.
  | none :: _ => { s with delayedActionsThisRun := 0 }
  | some _ :: _ => { s with delayedActionsThisRun := 0 }.advance 0

/-- The response that `delay` sent: it is skipped while the actor awaits
another one and dropped if its handler is gone. -/
def consumeDelayed (s : DelayingActor) (number : Nat) : DelayingActor :=
  if 0 < s.awaited then { s with stash := .delayed number :: s.stash }
  else if number ∈ s.multiplexed then
    { s with
      phase := .handling
      multiplexed := s.multiplexed.erase number
      ran := s.ran ++ [number] }
  else s

def consumeOther (s : DelayingActor) : Reaction → Option DelayingActor
  | .consumed => some { s with phase := .handling }
  | .answered =>
    if 0 < s.awaited then
      some { s with phase := .handling, awaited := s.awaited - 1 }
    else none
  -- No handler sees the message while the actor awaits another one.
  | .skipped =>
    some (if 0 < s.awaited then { s with stash := .other :: s.stash }
      else { s with phase := .skipping })
  | .dropped => some s

def consume (s : DelayingActor) (reaction : Reaction) : Option DelayingActor :=
  match s.mailbox with
  | [] => none
  | .delayed number :: rest =>
    some ({ s with mailbox := rest }.consumeDelayed number)
  | .other :: rest => { s with mailbox := rest }.consumeOther reaction

/-- Repeated calls do nothing.  The call of `run_actions` at the end is a
step of its own, since disposing the flows runs user code before it. -/
def quit (s : DelayingActor) : DelayingActor :=
  if s.shuttingDown then s
  else { s with shuttingDown := true, awaited := 0, multiplexed := [] }

def unstash (s : DelayingActor) : DelayingActor :=
  { s with mailbox := s.stash.reverse ++ s.mailbox, stash := [] }

def step (s : DelayingActor) : DelayAction → Option DelayingActor
  -- An urgent message overtakes those of normal priority.
  | .receive urgent =>
    if s.phase = .terminated then none
    else
      some
        { s with
          mailbox :=
            if urgent then .other :: s.mailbox
            else s.mailbox ++ [.other] }
  | .consume reaction =>
    if s.phase = .idle then s.consume reaction else none
  | .delay => if s.inUserCode then some s.delay else none
  | .addAwaited =>
    if s.inUserCode then some { s with awaited := s.awaited + 1 } else none
  | .quit => if s.inUserCode then some s.quit else none
  | .runActions => if s.inUserCode then some s.runActions else none
  | .nextAction => s.index.map fun index => s.advance (index + 1)
  -- No `finalize` follows, so what was delayed stays in `actions`.
  | .skip =>
    if s.phase = .skipping ∧ s.index = none then
      some { s with phase := .idle, stash := .other :: s.stash }
    else none
  | .finalize =>
    if s.phase = .handling ∧ s.index = none then
      some { s.runActions with phase := .finalizing }
    else none
  | .settle =>
    if s.phase = .finalizing ∧ s.index = none then
      some { s.unstash with phase := .idle }
    else none
  | .cleanup =>
    if s.phase = .finalizing ∧ s.index = none then
      some { s with phase := .cleaning, awaited := 0, multiplexed := [] }
    else none
  | .close =>
    if s.phase = .cleaning ∧ s.index = none then
      some { s with phase := .terminated, mailbox := [], stash := [] }
    else none

def inline (s : DelayingActor) : List Nat := s.actions.filterMap id

def numbers (s : DelayingActor) : List Nat :=
  (s.stash.reverse ++ s.mailbox).filterMap Mail.number

def queued (s : DelayingActor) : List Nat :=
  s.numbers.filter (· ∈ s.multiplexed)

def pending (s : DelayingActor) : List Nat := s.inline ++ s.queued

def cleared (s : DelayingActor) : Nat :=
  match s.index with
  | none => 0
  | some index => index + 1

structure Routed (s : DelayingActor) : Prop where
  slots : s.actions = List.replicate s.cleared none ++ s.inline.map some
  rest : s.inUserCode = false →
    s.index = none ∧ (s.phase = .finalizing → s.actions = [])
  stash : s.phase = .idle → s.awaited = 0 → ∀ mail ∈ s.stash, mail = .other
  skipping : s.phase = .skipping → ∀ mail ∈ s.stash, mail = .other
  bound : (∀ n ∈ s.inline, n < s.delays) ∧ ∀ n ∈ s.numbers, n < s.delays

/-- A step runs the first action of a route, appends one to either route, or
drops some of those that wait in the mailbox. -/
inductive Effect (action : DelayAction) (s t : DelayingActor) : Prop where
  | quiet (ran : t.ran = s.ran) (delays : t.delays = s.delays)
      (inline : t.inline = s.inline) (queued : List.Sublist t.queued s.queued)
      (idle : t.phase = .idle →
        s.phase = .idle ∨ action = .skip ∨ s.inline = [])
  | inline (ran : t.ran = s.ran) (delays : t.delays = s.delays + 1)
      (pending : t.pending = s.inline ++ [s.delays] ++ s.queued)
      (kind : action = .delay)
      (short : s.delayedActionsThisRun < maxInlineActionsPerRun)
      (busy : t.phase ≠ .idle)
  | mail (ran : t.ran = s.ran) (delays : t.delays = s.delays + 1)
      (pending : t.pending = s.pending ++ [s.delays])
      (busy : t.phase ≠ .idle)
  | run (n : Nat) (others : List Nat) (ran : t.ran = s.ran ++ [n])
      (delays : t.delays = s.delays) (first : s.pending = n :: others)
      (pending : List.Sublist t.pending others) (busy : t.phase ≠ .idle)
  | runMail (n : Nat) (others : List Nat) (ran : t.ran = s.ran ++ [n])
      (delays : t.delays = s.delays) (first : s.queued = n :: others)
      (pending : List.Sublist t.pending (s.inline ++ others))
      (idle : s.phase = .idle) (busy : t.phase ≠ .idle)

variable {action : DelayAction}

theorem routed_initial : Routed initial where
  slots := rfl
  rest _ := ⟨rfl, fun _ => rfl⟩
  stash _ _ _ hmail := nomatch hmail
  skipping := nofun
  bound := ⟨nofun, nofun⟩

variable {s t : DelayingActor} {k n : Nat} {rest : List Mail}

variable {live : List Nat} {index : Nat} {reaction : Reaction}

theorem inUserCode_phase (hcode : s.inUserCode = true) :
    s.phase ≠ .idle ∧ s.phase ≠ .terminated := by
  unfold inUserCode at hcode
  constructor
  · intro hidle
    rw [hidle] at hcode
    cases hcode
  · intro hterm
    rw [hterm] at hcode
    cases hcode

theorem inline_of_slots
    (hslots : s.actions = List.replicate k none ++ live.map some) :
    s.inline = live := by
  simp [inline, hslots]

theorem advance_nil (hslots : s.actions = List.replicate k none) :
    s.advance k = { s with actions := [], index := none } := by
  simp [advance, hslots]

theorem advance_cons
    (hslots : s.actions = List.replicate k none ++ (n :: live).map some) :
    s.advance k =
      { s with
        actions := List.replicate (k + 1) none ++ live.map some
        index := some k
        ran := s.ran ++ [n] } := by
  simp [advance, hslots, replicate_succ']

/-- The loop of `run_actions` takes the oldest action of `actions`.  The call
may have changed `u` to `s` in other fields before. -/
theorem advance_routed {u : DelayingActor} (hran : s.ran = u.ran)
    (hdelays : s.delays = u.delays) (hfirst : s.inline = u.inline)
    (hqueued : s.queued = u.queued)
    (hslots : s.actions = List.replicate k none ++ s.inline.map some)
    (hphase : s.phase ≠ .idle ∧ s.phase ≠ .terminated)
    (hstash : s.phase = .skipping → ∀ mail ∈ s.stash, mail = .other)
    (hbound : (∀ n ∈ s.inline, n < s.delays) ∧ ∀ n ∈ s.numbers, n < s.delays) :
    Routed (s.advance k) ∧ Effect action u (s.advance k) := by
  cases hinline : s.inline with
  | nil =>
    rw [hinline, map_nil, append_nil] at hslots
    rw [advance_nil hslots]
    refine ⟨⟨rfl, fun _ => ⟨rfl, fun _ => rfl⟩,
      fun hidle => absurd hidle hphase.1, hstash, nofun, hbound.2⟩, ?_⟩
    rw [hinline] at hfirst
    refine .quiet hran hdelays hfirst (hqueued ▸ List.Sublist.refl _) ?_
    exact fun hidle => absurd hidle hphase.1
  | cons n live =>
    rw [hinline] at hslots hbound
    have hlive : (s.advance k).inline = live := by
      rw [advance_cons hslots]
      exact inline_of_slots rfl
    have hcode : (s.advance k).inUserCode = true := by
      rw [advance_cons hslots]
      obtain ⟨hidle, hterm⟩ := hphase
      cases hs : s.phase <;> simp_all [inUserCode]
    refine ⟨⟨?_, ?_, ?_, ?_, ?_⟩, ?_⟩
    · rw [hlive, advance_cons hslots]
      rfl
    · rw [hcode]
      nofun
    · rw [advance_cons hslots]
      exact fun hidle => absurd hidle hphase.1
    · rw [advance_cons hslots]
      exact hstash
    · rw [hlive, advance_cons hslots]
      exact ⟨fun m hm => hbound.1 m (mem_cons_of_mem n hm), hbound.2⟩
    · refine .run n (live ++ u.queued) ?_ ?_ ?_ ?_ ?_
      · rw [advance_cons hslots, hran]
      · rw [advance_cons hslots, hdelays]
      · rw [pending, ← hfirst, hinline, cons_append]
      · rw [pending, hlive, advance_cons hslots, ← hqueued]
        exact List.Sublist.refl _
      · rw [advance_cons hslots]
        exact hphase.1

theorem runActions_of_index_none (hs : Routed s) (hindex : s.index = none) :
    s.runActions = { s with delayedActionsThisRun := 0 }.advance 0 := by
  have hslots := hs.slots
  simp only [cleared, hindex, replicate_zero, nil_append] at hslots
  cases hinline : s.inline with
  | nil => simp_all [runActions, advance]
  | cons n live => simp [runActions, hslots, hinline]

theorem runActions_of_index_some (hs : Routed s)
    (hindex : s.index = some index) :
    s.runActions = { s with delayedActionsThisRun := 0 } := by
  have hslots := hs.slots
  simp only [cleared, hindex, replicate_succ, cons_append] at hslots
  simp [runActions, hslots]

theorem Routed.delay_inline (hs : Routed s) (hcode : s.inUserCode = true)
    (hshort : s.delayedActionsThisRun < maxInlineActionsPerRun) :
    Routed s.delay ∧ Effect .delay s s.delay := by
  obtain ⟨hinline, hnumbers⟩ := hs.bound
  rw [delay, if_pos hshort]
  have hslots : s.actions ++ [some s.delays] =
      List.replicate s.cleared none ++ (s.inline ++ [s.delays]).map some := by
    rw [map_append, ← append_assoc, ← hs.slots]
    rfl
  have happend : DelayingActor.inline
      { s with
        actions := s.actions ++ [some s.delays]
        delayedActionsThisRun := s.delayedActionsThisRun + 1
        delays := s.delays + 1 } = s.inline ++ [s.delays] :=
    inline_of_slots hslots
  refine ⟨⟨?_, ?_, hs.stash, hs.skipping, ?_⟩,
    .inline rfl rfl ?_ rfl hshort (inUserCode_phase hcode).1⟩
  · rw [happend]
    exact hslots
  · intro hnot
    exact absurd (hcode.symm.trans hnot) nofun
  · rw [happend]
    refine ⟨fun n hn => ?_, fun n hn => Nat.lt_succ_of_lt (hnumbers n hn)⟩
    rcases mem_append.mp hn with hn | hn
    · exact Nat.lt_succ_of_lt (hinline n hn)
    · rw [mem_singleton.mp hn]
      exact Nat.lt_succ_self _
  · rw [pending, happend]
    rfl

theorem Routed.delay_mail (hs : Routed s) (hcode : s.inUserCode = true)
    (hlong : ¬ s.delayedActionsThisRun < maxInlineActionsPerRun) :
    Routed s.delay ∧ Effect .delay s s.delay := by
  obtain ⟨hinline, hnumbers⟩ := hs.bound
  have happend : s.delay.numbers = s.numbers ++ [s.delays] := by
    rw [delay, if_neg hlong]
    simp [numbers, Mail.number]
  have hqueued : s.delay.queued = s.queued ++ [s.delays] := by
    have hhandlers : s.delay.multiplexed = s.delays :: s.multiplexed := by
      rw [delay, if_neg hlong]
    rw [queued, happend, hhandlers, filter_append, queued]
    congr 1
    · refine filter_congr fun n hn => ?_
      have hne := Nat.ne_of_lt (hnumbers n hn)
      simp [hne]
    · simp
  refine ⟨⟨?_, ?_, ?_, ?_, ?_⟩, .mail ?_ ?_ ?_ ?_⟩
  · rw [delay, if_neg hlong]
    exact hs.slots
  · rw [delay, if_neg hlong]
    intro hnot
    exact absurd (hcode.symm.trans hnot) nofun
  · rw [delay, if_neg hlong]
    exact hs.stash
  · rw [delay, if_neg hlong]
    exact hs.skipping
  · rw [happend]
    rw [delay, if_neg hlong]
    refine ⟨fun n hn => Nat.lt_succ_of_lt (hinline n hn), fun n hn => ?_⟩
    rcases mem_append.mp hn with hn | hn
    · exact Nat.lt_succ_of_lt (hnumbers n hn)
    · rw [mem_singleton.mp hn]
      exact Nat.lt_succ_self _
  · rw [delay, if_neg hlong]
  · rw [delay, if_neg hlong]
  · rw [pending, pending, hqueued, ← append_assoc]
    rw [delay, if_neg hlong]
    rfl
  · rw [delay, if_neg hlong]
    exact (inUserCode_phase hcode).1

/-- Steps that leave `actions` and the counters alone.  The mailbox may only
lose handlers and messages. -/
theorem Routed.frame {s t : DelayingActor} (hs : Routed s)
    (hactions : t.actions = s.actions) (hindex : t.index = s.index)
    (hran : t.ran = s.ran) (hdelays : t.delays = s.delays)
    (hnumbers : List.Sublist t.numbers s.numbers)
    (hhandlers : ∀ n ∈ t.multiplexed, n ∈ s.multiplexed)
    (hrest : t.inUserCode = false →
      t.index = none ∧ (t.phase = .finalizing → t.actions = []))
    (hstash : t.phase = .idle → t.awaited = 0 →
      ∀ mail ∈ t.stash, mail = .other)
    (hskip : t.phase = .skipping → ∀ mail ∈ t.stash, mail = .other)
    (hidle : t.phase = .idle →
      s.phase = .idle ∨ action = .skip ∨ s.inline = []) :
    Routed t ∧ Effect action s t := by
  have hinline : t.inline = s.inline := by rw [inline, hactions, inline]
  have hqueued : List.Sublist t.queued s.queued := by
    refine (hnumbers.filter _).trans ?_
    refine monotone_filter_right _ fun n hn => ?_
    simp only [decide_eq_true_eq] at hn ⊢
    exact hhandlers n hn
  refine ⟨⟨?_, hrest, hstash, hskip, ?_⟩,
    .quiet hran hdelays hinline hqueued hidle⟩
  · have hcleared : t.cleared = s.cleared := by simp only [cleared, hindex]
    rw [hinline, hactions, hcleared]
    exact hs.slots
  · rw [hinline, hdelays]
    exact ⟨hs.bound.1, fun n hn => hs.bound.2 n (hnumbers.subset hn)⟩

section

variable (hs : Routed s) (hidle : s.phase = .idle)
include hs hidle

theorem Routed.numbers_of_idle (hawaited : s.awaited = 0)
    (hstash : t.stash = s.stash) :
    t.numbers = t.mailbox.filterMap Mail.number := by
  have hothers : t.stash.reverse.filterMap Mail.number = [] := by
    refine filterMap_eq_nil_iff.mpr fun mail hmail => ?_
    rw [hstash] at hmail
    rw [hs.stash hidle hawaited mail (mem_reverse.mp hmail)]
    rfl
  rw [numbers, filterMap_append, hothers, nil_append]

theorem Routed.runDelayed (hawaited : s.awaited = 0)
    (hmailbox : s.mailbox = .delayed n :: rest) (hn : n ∈ s.multiplexed)
    (hphase : t.phase = .handling) (hactions : t.actions = s.actions)
    (hindex : t.index = s.index) (hstash : t.stash = s.stash)
    (hrest : t.mailbox = rest)
    (hhandlers : t.multiplexed = s.multiplexed.erase n)
    (hdelays : t.delays = s.delays) (hran : t.ran = s.ran ++ [n]) :
    Routed t ∧ Effect action s t := by
  have hnumbers := hs.numbers_of_idle hidle hawaited rfl
  have hleft := hs.numbers_of_idle hidle hawaited hstash
  have hinline : t.inline = s.inline := by rw [inline, hactions, inline]
  rw [hmailbox, filterMap_number_delayed] at hnumbers
  rw [hrest] at hleft
  refine ⟨⟨?_, ?_, ?_, ?_, ?_⟩, .runMail n
    ((rest.filterMap Mail.number).filter (· ∈ s.multiplexed)) hran hdelays
    ?_ ?_ hidle (by rw [hphase]; nofun)⟩
  · rw [hactions, hinline, cleared, hindex]
    exact hs.slots
  · rw [inUserCode, hphase]
    nofun
  · rw [hphase]
    nofun
  · rw [hphase]
    nofun
  · rw [hinline, hleft, hdelays]
    refine ⟨hs.bound.1, fun m hm => hs.bound.2 m ?_⟩
    rw [hnumbers]
    exact mem_cons_of_mem n hm
  · rw [queued, hnumbers]
    exact filter_cons_of_pos (by simpa using hn)
  · rw [pending, hinline, queued, hleft, hhandlers]
    refine (monotone_filter_right _ fun m hm => ?_).append_left _
    simp only [decide_eq_true_eq] at hm ⊢
    exact mem_of_mem_erase hm

theorem Routed.consumeDelayed (hmailbox : s.mailbox = .delayed n :: rest) :
    Routed ({ s with mailbox := rest }.consumeDelayed n) ∧
      Effect action s ({ s with mailbox := rest }.consumeDelayed n) := by
  have hrest := hs.rest (by rw [inUserCode, hidle])
  unfold DelayingActor.consumeDelayed
  split
  · rename_i hawaited
    refine hs.frame rfl rfl rfl rfl ?_ (fun _ hn => hn) (fun _ => hrest) ?_
      (fun hskip => nomatch hidle.symm.trans hskip) .inl
    · simp [numbers, hmailbox]
    · intro _ hnone
      exact absurd hnone (Nat.ne_of_gt hawaited)
  · rename_i hawaited
    split
    · rename_i hhandler
      exact hs.runDelayed hidle (Nat.eq_zero_of_not_pos hawaited) hmailbox
        hhandler rfl rfl rfl rfl rfl rfl rfl rfl
    · refine hs.frame rfl rfl rfl rfl ?_ (fun _ hn => hn) (fun _ => hrest)
        hs.stash hs.skipping .inl
      simp [numbers, hmailbox]

theorem Routed.consumeOther (hmailbox : s.mailbox = .other :: rest)
    (hstep : { s with mailbox := rest }.consumeOther reaction = some t) :
    Routed t ∧ Effect action s t := by
  have hrest := hs.rest (by rw [inUserCode, hidle])
  have hnumbers : s.numbers =
      (s.stash.reverse ++ rest).filterMap Mail.number := by
    simp [numbers, hmailbox]
  cases reaction with
  | consumed =>
    cases hstep
    refine hs.frame rfl rfl rfl rfl ?_ (fun _ hn => hn) nofun nofun nofun nofun
    rw [hnumbers]
    exact List.Sublist.refl _
  | answered =>
    obtain ⟨_, rfl⟩ := of_guard hstep
    refine hs.frame rfl rfl rfl rfl ?_ (fun _ hn => hn) nofun nofun nofun nofun
    rw [hnumbers]
    exact List.Sublist.refl _
  | skipped =>
    cases hstep
    split_ifs with hawaited
    · refine hs.frame rfl rfl rfl rfl ?_ (fun _ hn => hn) (fun _ => hrest)
        (fun _ hnone => absurd hnone (Nat.ne_of_gt hawaited))
        (fun hskip => nomatch hidle.symm.trans hskip) .inl
      rw [hnumbers]
      simp [numbers]
    · refine hs.frame rfl rfl rfl rfl ?_ (fun _ hn => hn) nofun nofun
        (fun _ => hs.stash hidle (Nat.eq_zero_of_not_pos hawaited)) nofun
      rw [hnumbers]
      exact List.Sublist.refl _
  | dropped =>
    cases hstep
    refine hs.frame rfl rfl rfl rfl ?_ (fun _ hn => hn) (fun _ => hrest)
      hs.stash hs.skipping .inl
    rw [hnumbers]
    exact List.Sublist.refl _

theorem Routed.consume (hstep : s.consume reaction = some t) :
    Routed t ∧ Effect action s t := by
  unfold DelayingActor.consume at hstep
  split at hstep
  · cases hstep
  · rename_i n rest hmailbox
    cases hstep
    exact hs.consumeDelayed hidle hmailbox
  · rename_i rest hmailbox
    exact hs.consumeOther hidle hmailbox hstep

end

theorem Routed.receive (urgent : Bool) (hs : Routed s) :
    Routed
        { s with
          mailbox :=
            if urgent then .other :: s.mailbox else s.mailbox ++ [.other] } ∧
      Effect action s
        { s with
          mailbox :=
            if urgent then .other :: s.mailbox
            else s.mailbox ++ [.other] } := by
  refine hs.frame rfl rfl rfl rfl ?_ (fun _ hn => hn) hs.rest hs.stash
    hs.skipping .inl
  cases urgent <;> simp [numbers]

theorem Routed.quit (hs : Routed s) (hcode : s.inUserCode = true) :
    Routed s.quit ∧ Effect action s s.quit := by
  unfold DelayingActor.quit
  split
  · exact hs.frame rfl rfl rfl rfl (List.Sublist.refl _) (fun _ hn => hn)
      hs.rest hs.stash hs.skipping .inl
  · exact hs.frame rfl rfl rfl rfl (List.Sublist.refl _) nofun hs.rest
      (fun hidle => absurd hidle (inUserCode_phase hcode).1) hs.skipping .inl

theorem Routed.runActions (hs : Routed s) (hcode : s.inUserCode = true) :
    Routed s.runActions ∧ Effect action s s.runActions := by
  have hslots := hs.slots
  cases hindex : s.index with
  | none =>
    rw [runActions_of_index_none hs hindex]
    rw [cleared, hindex] at hslots
    exact advance_routed rfl rfl rfl rfl hslots (inUserCode_phase hcode)
      hs.skipping hs.bound
  | some index =>
    rw [runActions_of_index_some hs hindex]
    exact hs.frame rfl rfl rfl rfl (List.Sublist.refl _) (fun _ hn => hn)
      hs.rest hs.stash hs.skipping .inl

theorem Routed.finalize (hs : Routed s) (hindex : s.index = none) :
    Routed { s.runActions with phase := .finalizing } ∧
      Effect action s { s.runActions with phase := .finalizing } := by
  have hslots := hs.slots
  have heq : { s.runActions with phase := .finalizing } =
      { s with phase := .finalizing, delayedActionsThisRun := 0 }.advance
        0 := by
    rw [runActions_of_index_none hs hindex, advance, advance]
    cases s.actions[0]? <;> rfl
  rw [heq]
  rw [cleared, hindex] at hslots
  exact advance_routed rfl rfl rfl rfl hslots ⟨nofun, nofun⟩ nofun hs.bound

theorem Routed.nextAction (hs : Routed s) (hindex : s.index = some index) :
    Routed (s.advance (index + 1)) ∧
      Effect action s (s.advance (index + 1)) := by
  have hslots := hs.slots
  have hcode : s.inUserCode = true := by
    rw [← Bool.not_eq_false]
    intro hnot
    rw [(hs.rest hnot).1] at hindex
    cases hindex
  rw [cleared, hindex] at hslots
  exact advance_routed rfl rfl rfl rfl hslots (inUserCode_phase hcode)
    hs.skipping hs.bound

theorem step_routed (hs : Routed s) (hstep : s.step action = some t) :
    Routed t ∧ Effect action s t := by
  cases action with
  | receive urgent =>
    obtain ⟨_, ht⟩ := Option.ite_none_left_eq_some.mp hstep
    cases ht
    exact hs.receive urgent
  | consume reaction =>
    obtain ⟨hidle, ht⟩ := Option.ite_none_right_eq_some.mp hstep
    exact hs.consume hidle ht
  | delay =>
    obtain ⟨hcode, rfl⟩ := of_guard hstep
    by_cases hshort : s.delayedActionsThisRun < maxInlineActionsPerRun
    · exact hs.delay_inline hcode hshort
    · exact hs.delay_mail hcode hshort
  | addAwaited =>
    obtain ⟨hcode, rfl⟩ := of_guard hstep
    exact hs.frame rfl rfl rfl rfl (List.Sublist.refl _) (fun _ hn => hn)
      hs.rest nofun hs.skipping .inl
  | quit =>
    obtain ⟨hcode, rfl⟩ := of_guard hstep
    exact hs.quit hcode
  | runActions =>
    obtain ⟨hcode, rfl⟩ := of_guard hstep
    exact hs.runActions hcode
  | nextAction =>
    obtain ⟨index, hindex, ht⟩ := Option.map_eq_some_iff.mp hstep
    rw [← ht]
    exact hs.nextAction hindex
  | finalize =>
    obtain ⟨⟨_, hindex⟩, rfl⟩ := of_guard hstep
    exact hs.finalize hindex
  | settle =>
    obtain ⟨⟨hphase, hindex⟩, rfl⟩ := of_guard hstep
    have hrest := hs.rest (by rw [inUserCode, hphase, hindex]; rfl)
    refine hs.frame rfl rfl rfl rfl ?_ (fun _ hn => hn)
      (fun _ => ⟨hindex, nofun⟩) nofun nofun (fun _ => .inr (.inr ?_))
    · simp [numbers, unstash]
    · rw [inline, hrest.2 hphase]
      rfl
  | skip =>
    obtain ⟨⟨hphase, hindex⟩, rfl⟩ := of_guard hstep
    refine hs.frame rfl rfl rfl rfl ?_ (fun _ hn => hn)
      (fun _ => ⟨hindex, nofun⟩) ?_ nofun (fun _ => .inr (.inl rfl))
    · simp [numbers, Mail.number]
    · intro _ _ mail hmail
      rcases mem_cons.mp hmail with hmail | hmail
      · exact hmail
      · exact hs.skipping hphase mail hmail
  | cleanup =>
    obtain ⟨_, rfl⟩ := of_guard hstep
    exact hs.frame rfl rfl rfl rfl (List.Sublist.refl _) nofun nofun nofun
      nofun nofun
  | close =>
    obtain ⟨⟨_, hindex⟩, rfl⟩ := of_guard hstep
    exact hs.frame rfl rfl rfl rfl (nil_sublist _) (fun _ hn => hn)
      (fun _ => ⟨hindex, nofun⟩) nofun nofun nofun

/-- No action takes the inline route while an older one waits in the mailbox,
and no message is skipped while both routes are in use. -/
def DelaysBehindMail (s : DelayingActor) (action : DelayAction) : Prop :=
  (action = .delay → s.delayedActionsThisRun < maxInlineActionsPerRun →
    s.queued = []) ∧
  (action = .skip → s.inline = [] ∨ s.queued = [])

instance (s : DelayingActor) (action : DelayAction) :
    Decidable (s.DelaysBehindMail action) :=
  inferInstanceAs (Decidable ((_ → _ → _) ∧ (_ → _)))

structure Ordered (s : DelayingActor) : Prop where
  routed : Routed s
  increasing : s.pending.Pairwise (· < ·)
  idle : s.phase = .idle → s.inline = [] ∨ s.queued = []

theorem Ordered.first {others : List Nat} (hs : Ordered s)
    (hidle : s.phase = .idle) (hfirst : s.queued = n :: others) :
    s.inline = [] ∧ s.pending = n :: others := by
  have hinline : s.inline = [] :=
    (hs.idle hidle).resolve_right fun hnil => nomatch hfirst.symm.trans hnil
  exact ⟨hinline, by rw [pending, hinline, hfirst, nil_append]⟩

theorem step_ordered (hs : Ordered s) (hguard : s.DelaysBehindMail action)
    (hstep : s.step action = some t) : Ordered t := by
  obtain ⟨hrouted, heffect⟩ := step_routed hs.routed hstep
  -- A new action has the largest number of all.
  have hnew : (s.pending ++ [s.delays]).Pairwise (· < ·) := by
    refine pairwise_append.mpr ⟨hs.increasing, by simp, ?_⟩
    intro n hn m hm
    rw [mem_singleton.mp hm]
    rcases mem_append.mp hn with hn | hn
    · exact hs.routed.bound.1 n hn
    · exact hs.routed.bound.2 n (mem_filter.mp hn).1
  cases heffect with
  | quiet _ _ hinline hqueued hidle =>
    refine ⟨hrouted, ?_, fun ht => ?_⟩
    · rw [pending, hinline]
      exact hs.increasing.sublist (hqueued.append_left _)
    · rw [hinline]
      have hroute : s.inline = [] ∨ s.queued = [] := by
        rcases hidle ht with hbefore | hskip | hempty
        · exact hs.idle hbefore
        · exact hguard.2 hskip
        · exact .inl hempty
      refine hroute.imp_right fun hnil => ?_
      rw [hnil] at hqueued
      exact sublist_nil.mp hqueued
  | inline _ _ hpend hkind hshort hbusy =>
    have hqueued := hguard.1 hkind hshort
    refine ⟨hrouted, ?_, fun ht => absurd ht hbusy⟩
    rw [pending, hqueued, append_nil] at hnew
    rw [hpend, hqueued, append_nil]
    exact hnew
  | mail _ _ hpend hbusy =>
    exact ⟨hrouted, hpend ▸ hnew, fun ht => absurd ht hbusy⟩
  | run n others _ _ hfirst hpend hbusy =>
    refine ⟨hrouted, ?_, fun ht => absurd ht hbusy⟩
    have hothers := hs.increasing
    rw [hfirst] at hothers
    exact (pairwise_cons.mp hothers).2.sublist hpend
  | runMail n others _ _ hfirst hpend hidle hbusy =>
    refine ⟨hrouted, ?_, fun ht => absurd ht hbusy⟩
    obtain ⟨hinline, hall⟩ := hs.first hidle hfirst
    have hothers := hs.increasing
    rw [hall] at hothers
    rw [hinline] at hpend
    exact (pairwise_cons.mp hothers).2.sublist hpend

/-- Whenever a delayed action runs, it is the oldest one that is pending. -/
theorem delayed_actions_run_in_order {s t : DelayingActor}
    {actions : List DelayAction} {n : Nat}
    (hrun : exec step initial actions = some s)
    (hguard : Along step DelaysBehindMail initial actions)
    (hstep : s.step action = some t) (hran : t.ran = s.ran ++ [n]) :
    ∀ m ∈ s.pending, n ≤ m := by
  have hs : Ordered s :=
    exec_invariant_along Ordered
      (fun _ _ _ => step_ordered)
      ⟨routed_initial, List.Pairwise.nil, nofun⟩ hguard hrun
  have hleast : ∀ {k others}, t.ran = s.ran ++ [k] →
      s.pending = k :: others → ∀ m ∈ s.pending, n ≤ m := by
    intro k others hsame hfirst
    obtain rfl : k = n := by
      have happend := hsame.symm.trans hran
      simpa using happend
    have hincreasing := hs.increasing
    rw [hfirst] at hincreasing ⊢
    intro m hm
    rcases List.mem_cons.mp hm with hm | hm
    · exact Nat.le_of_eq hm.symm
    · exact Nat.le_of_lt ((List.pairwise_cons.mp hincreasing).1 m hm)
  have hgrown : s.ran ≠ s.ran ++ [n] := by simp
  obtain ⟨_, heffect⟩ := step_routed hs.routed hstep
  cases heffect with
  | quiet hsame | inline hsame | mail hsame =>
    exact absurd (hsame.symm.trans hran) hgrown
  | run k others hsame _ hfirst => exact hleast hsame hfirst
  | runMail k others hsame _ hfirst _ hidle =>
    exact hleast hsame (hs.first hidle hfirst).2

/-- An eleventh action goes through the mailbox and runs after the others. -/
theorem delayed_actions_run_in_order_through_mailbox :
    ∃ s t : DelayingActor,
      exec step initial
          (List.replicate 11 .delay ++ .finalize ::
            List.replicate 10 .nextAction ++ [.settle]) = some s ∧
        s.step (.consume .consumed) = some t ∧ t.ran = s.ran ++ [10] ∧
        ∀ m ∈ s.pending, 10 ≤ m := by
  have hlast : ((exec step initial
      (List.replicate 11 .delay ++ .finalize ::
        List.replicate 10 .nextAction ++ [.settle])).bind fun s =>
          (s.step (.consume .consumed)).map fun t =>
            decide (t.ran = s.ran ++ [10])) = some true := by
    decide +kernel
  obtain ⟨s, hrun, hnext⟩ := Option.bind_eq_some_iff.mp hlast
  obtain ⟨t, hstep, hran⟩ := Option.map_eq_some_iff.mp hnext
  have hran' := of_decide_eq_true hran
  exact ⟨s, t, hrun, hstep, hran',
    delayed_actions_run_in_order hrun (by decide +kernel) hstep hran'⟩

/-- The first of eleven actions delays another one, after the counter was
reset; that one runs while the eleventh still waits in the mailbox. -/
theorem delayed_action_overtakes_mailbox :
    ∃ s t : DelayingActor,
      exec step initial
          (List.replicate 11 .delay ++ .finalize :: .delay ::
            List.replicate 9 .nextAction) = some s ∧
        s.step .nextAction = some t ∧ t.ran = s.ran ++ [11] ∧
        10 ∈ s.pending :=
  ⟨_, _, rfl, rfl, rfl, by decide⟩

/-- Each number that was given to an action is known once at most. -/
structure Once (s : DelayingActor) : Prop where
  routed : Routed s
  once : s.ran ++ s.pending <+~ range s.delays

theorem step_once (h : Once s) (hstep : s.step action = some t) : Once t := by
  obtain ⟨hrouted, heffect⟩ := step_routed h.routed hstep
  refine ⟨hrouted, ?_⟩
  have hnew : s.ran ++ s.pending ++ [s.delays] <+~ range (s.delays + 1) := by
    rw [range_succ]
    exact (subperm_append_right _).mpr h.once
  cases heffect with
  | quiet hran hdelays hinline hqueued =>
    rw [hran, hdelays, pending, hinline]
    exact ((hqueued.append_left _).append_left _).subperm.trans h.once
  | inline hran hdelays hpend =>
    rw [hran, hdelays, hpend]
    refine Perm.subperm ?_ |>.trans hnew
    grind [pending]
  | mail hran hdelays hpend =>
    rw [hran, hdelays, hpend, ← append_assoc]
    exact hnew
  | run n others hran hdelays hfirst hpend =>
    rw [hran, hdelays, append_assoc]
    refine ((hpend.cons_cons n).append_left _).subperm.trans ?_
    exact hfirst ▸ h.once
  | runMail n others hran hdelays hfirst hpend =>
    rw [hran, hdelays, append_assoc]
    refine ((hpend.cons_cons n).append_left _).subperm.trans ?_
    refine (Perm.append_left _ ?_).subperm.trans h.once
    rw [pending, hfirst]
    exact perm_middle.symm

/-- Whichever way it takes, an action runs once at most. -/
theorem delayed_action_runs_once {actions : List DelayAction}
    (hrun : exec step initial actions = some s) :
    (s.ran ++ s.pending).Nodup ∧ ∀ n ∈ s.ran, n < s.delays := by
  have h : Once s := exec_invariant Once (fun _ _ _ => step_once)
    ⟨routed_initial, nil_subperm⟩ hrun
  refine ⟨?_, fun n hn => ?_⟩
  · obtain ⟨l, hperm, hsub⟩ := h.once
    exact hperm.nodup_iff.mp (nodup_range.sublist hsub)
  · exact mem_range.mp (h.once.subset (mem_append_left _ hn))

theorem delayed_action_runs_once_two :
    ∃ s, exec step initial [.delay, .runActions, .delay] = some s ∧
      s.ran = [0] ∧ (s.ran ++ s.pending).Nodup := by
  refine ⟨?s, ?hrun, ?_, (delayed_action_runs_once ?hrun).1⟩
  case hrun => rfl
  rfl

end DelayingActor

end ActorFramework.Core
