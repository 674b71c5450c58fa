import ActorFramework.Core.DefaultMailbox
import ActorFramework.Foundation.Transition

/-!
# Scheduled actors

Senders enqueue messages while the scheduler resumes the actor.  A sender that
unblocks the mailbox hands the actor over to the scheduler; a resumed actor
works until its mailbox is empty, its throughput is used up or it terminates.
`frames` holds the running calls of `resume`, cut at the atomic accesses of the
mailbox.  It is a list, so that two threads running one actor could be seen.

User code enters through `Handling`, the operations on the actor's own state
in one activation, in their order.
-/

namespace ActorFramework.Core

open Foundation

variable {α : Type*}

inductive LocalOp where
  | become (discardOld : Bool)
  | unbecome
  | addAwaited (id : MessageId)
  | addMultiplexed (id : MessageId)
  | watch
  | unwatch
  | openSource
  | closeSource
  | openBridge
  | closeBridge
  | setDefaultHandler
  | quit

/-- `dropsMessages` stands for the default handler that `quit` installs. -/
structure Locals where
  initialized : Bool
  shuttingDown : Bool
  terminated : Bool
  dropsMessages : Bool
  behaviors : Nat
  awaited : List MessageId
  multiplexed : List MessageId
  watched : Nat
  sources : Nat
  bridges : Nat

namespace Locals

def fresh : Locals := ⟨false, false, false, false, 0, [], [], 0, 0, 0⟩

variable (l : Locals)

def alive : Bool :=
  l.behaviors != 0 || !l.awaited.isEmpty || !l.multiplexed.isEmpty ||
    l.watched != 0 || l.sources != 0 || l.bridges != 0

def quit : Locals :=
  if l.shuttingDown then l
  else
    { l with
      shuttingDown := true, dropsMessages := true, behaviors := 0
      awaited := [], multiplexed := [], watched := 0, sources := 0
      bridges := 0 }

def become (discardOld : Bool) : Locals :=
  if l.terminated || l.shuttingDown then l
  else if discardOld then { l with behaviors := l.behaviors - 1 + 1 }
  else { l with behaviors := l.behaviors + 1 }

def apply : LocalOp → Locals
  | .become discardOld => l.become discardOld
  | .unbecome => { l with behaviors := l.behaviors - 1 }
  | .addAwaited id => { l with awaited := id :: l.awaited }
  | .addMultiplexed id =>
    if id ∈ l.multiplexed then l
    else { l with multiplexed := id :: l.multiplexed }
  | .watch => { l with watched := l.watched + 1 }
  | .unwatch => { l with watched := l.watched - 1 }
  | .openSource => { l with sources := l.sources + 1 }
  | .closeSource => { l with sources := l.sources - 1 }
  | .openBridge => { l with bridges := l.bridges + 1 }
  | .closeBridge => { l with bridges := l.bridges - 1 }
  | .setDefaultHandler => { l with dropsMessages := false }
  | .quit => l.quit

def run (ops : List LocalOp) : Locals := ops.foldl apply l

/-- The part of `on_cleanup` before `close_mailbox`. -/
def cleanup : Locals :=
  { l with
    terminated := true, awaited := [], multiplexed := [], watched := 0
    sources := 0, bridges := 0 }

end Locals

inductive Outcome where
  | consumed
  | skipped
  | threw
  deriving DecidableEq, Inhabited

/--
What user code does in one activation: `code` is the handler (or
`make_behavior`), `handler` the exception handler, `actions` everything that
`run_actions` runs after it.  `spurious` is a spurious failure of
`compare_exchange_weak`.
-/
structure Handling where
  spurious : Bool
  internal : Bool
  code : List LocalOp
  outcome : Outcome
  handler : List LocalOp
  actions : List LocalOp
  deriving Inhabited

inductive Verdict where
  | dropped
  | consumed
  | skipped
  | threw

def Outcome.handled : Outcome → Verdict
  | .threw => .threw
  | _ => .consumed

/-- `drop_after_quit` answers a message instead of skipping it. -/
def Outcome.ordinary (dropsMessages : Bool) : Outcome → Verdict
  | .threw => .threw
  | .skipped => if dropsMessages then .consumed else .skipped
  | .consumed => .consumed

def consume (l : Locals) (x : Letter α) (h : Handling) : Locals × Verdict :=
  match l.awaited with
  | id :: rest =>
    if x.value.mid = id then
      (Locals.run { l with awaited := rest } h.code, h.outcome.handled)
    else if x.value.mid.isResponse then (l, .skipped)
    else if h.internal then (l.run h.code, h.outcome.handled)
    else (l, .skipped)
  | [] =>
    if x.value.mid.isResponse then
      if x.value.mid ∈ l.multiplexed then
        (Locals.run
          { l with multiplexed := l.multiplexed.erase x.value.mid } h.code,
          h.outcome.handled)
      else (l, .dropped)
    else if h.internal then (l.run h.code, h.outcome.handled)
    else (l.run h.code, h.outcome.ordinary l.dropsMessages)

def Locals.initializeActor (l : Locals) (h : Handling) : Locals :=
  Locals.run { l with initialized := true } h.code

def Locals.fail (l : Locals) (h : Handling) : Locals :=
  (l.run h.handler).quit

def Locals.finalize (l : Locals) (h : Handling) : Locals × Bool :=
  if l.terminated then (l, true)
  else
    let l := l.run h.actions
    (l, !l.alive)

structure Actor (α : Type*) where
  mailbox : DefaultMailbox α
  stash : List (Letter α)
  locals : Locals
  handed : List (Letter α)
  bounced : List (Letter α)
  discarded : List (Letter α)

inductive ResumePc (α : Type*) where
  | activate
  | loop (consumed : Nat)
  | fetch (consumed : Nat) (pc : TakeHead)
  | block (consumed : Nat)
  | reactivate (consumed : Nat) (letter : Letter α)
  | lastBlock
  | closing (pc : TakeHead)

structure Frame (α : Type*) where
  maxThroughput : Nat
  pc : ResumePc α

namespace Actor

variable (a : Actor α)

/-- `sync_request_bouncer` answers the requests that have a sender and ignores
other messages. -/
def bounce (letters : List (Letter α)) : Actor α :=
  { a with
    bounced := a.bounced ++ letters.filter Node.answerable
    discarded := a.discarded ++ letters.filter fun x => !x.answerable }

def dropStash : Actor α :=
  { a.bounce a.stash with stash := [] }

def dropCached : Actor α :=
  { a.bounce (a.mailbox.urgentQueue ++ a.mailbox.normalQueue) with
    mailbox := a.mailbox.drainCached }

def closeMailbox : Actor α × Progress TakeHead Unit :=
  if a.dropStash.mailbox.inbox.pointer = .closed then
    (a.dropStash, .returned ())
  else (a.dropStash.dropCached, .running .load)

def closeInbox (pc : TakeHead) (spurious : Bool) :
    Option (Actor α × Progress TakeHead Unit) :=
  match a.mailbox.closeInbox pc spurious with
  | none => none
  | some (mailbox, .running pc') => some ({ a with mailbox }, .running pc')
  | some (mailbox, .returned letters) =>
    some (bounce { a with mailbox } letters, .returned ())

def terminate : Actor α × Progress (ResumePc α) Bool :=
  if a.locals.terminated then (a, .returned false)
  else
    match closeMailbox { a with locals := a.locals.cleanup } with
    | (a, .running pc) => (a, .running (.closing pc))
    | (a, .returned ()) => (a, .returned false)

def unstash : Actor α :=
  { a with
    mailbox := a.stash.foldl DefaultMailbox.pushFront a.mailbox, stash := [] }

/-- `finalize` after an exception: its result is ignored. -/
def fail (l : Locals) (h : Handling) :
    Actor α × Progress (ResumePc α) Bool :=
  match (l.fail h).finalize h with
  | (l, true) => terminate { a with locals := l }
  | (l, false) => ({ a with locals := l }, .returned false)

def activate (h : Handling) :
    Actor α × Progress (ResumePc α) Bool :=
  if a.locals.initialized then
    if a.locals.alive then (a, .running (.loop 0)) else (a, .returned false)
  else
    if h.outcome = .threw then a.fail (a.locals.initializeActor h) h
    else
      match (a.locals.initializeActor h).finalize h with
      | (l, true) => terminate { a with locals := l }
      | (l, false) => ({ a with locals := l }, .running (.loop 0))

/-- `reactivate` and what `resume` makes of its result. -/
def reactivate (consumed : Nat) (letter : Letter α)
    (h : Handling) : Actor α × Progress (ResumePc α) Bool :=
  match consume a.locals letter h with
  | (l, .dropped) =>
    ({ a with locals := l, discarded := a.discarded ++ [letter] },
      .running (.loop consumed))
  | (l, .skipped) =>
    ({ a with locals := l, stash := letter :: a.stash },
      .running (.loop consumed))
  | (l, .consumed) =>
    let a := { a with handed := a.handed ++ [letter] }
    match l.finalize h with
    | (l, true) => terminate { a with locals := l }
    | (l, false) =>
      (unstash { a with locals := l }, .running (.loop (consumed + 1)))
  | (l, .threw) => fail { a with handed := a.handed ++ [letter] } l h

/-- One step of a running `resume`; `true` asks to be resumed later. -/
def resume (frame : Frame α) (h : Handling) :
    Option (Actor α × Progress (ResumePc α) Bool) :=
  match frame.pc with
  | .activate => some (a.activate h)
  | .loop consumed =>
    if consumed < frame.maxThroughput then
      match a.mailbox.popCached with
      | some (letter, mailbox) =>
        some ({ a with mailbox }, .running (.reactivate consumed letter))
      | none => some (a, .running (.fetch consumed .load))
    else some (a, .running .lastBlock)
  | .fetch consumed pc =>
    match a.mailbox.fetchMore pc h.spurious with
    | none => none
    | some (mailbox, .running pc') =>
      some ({ a with mailbox }, .running (.fetch consumed pc'))
    | some (mailbox, .returned true) =>
      some ({ a with mailbox }, .running (.loop consumed))
    | some (mailbox, .returned false) =>
      some ({ a with mailbox }, .running (.block consumed))
  | .block consumed =>
    match a.mailbox.tryBlock with
    | (mailbox, true) => some ({ a with mailbox }, .returned false)
    | (mailbox, false) => some ({ a with mailbox }, .running (.loop consumed))
  | .reactivate consumed letter => some (a.reactivate consumed letter h)
  | .lastBlock =>
    match a.mailbox.tryBlock with
    | (mailbox, true) => some ({ a with mailbox }, .returned false)
    | (mailbox, false) => some ({ a with mailbox }, .returned true)
  | .closing pc =>
    match a.closeInbox pc h.spurious with
    | none => none
    | some (a, .running pc') => some (a, .running (.closing pc'))
    | some (a, .returned ()) => some (a, .returned false)

end Actor

inductive ActorAction (α : Type*) where
  | enqueue (letter : Letter α)
  | push (i : Nat)
  | schedule
  | dequeue (maxThroughput : Nat)
  | resume (i : Nat) (h : Handling)
  | unreachable
  | reap (spurious : Bool)

/--
`handoffs` counts senders that unblocked the mailbox and did not call the
scheduler yet, `queued` the jobs in the scheduler's queue.  `reaper` is the
thread that released the last reference.
-/
structure ActorRun (α : Type*) where
  actor : Actor α
  calls : List (Letter α × PushFront)
  handoffs : Nat
  queued : Nat
  frames : List (Frame α)
  reaper : Option TakeHead
  enqueued : List (Letter α)

namespace ActorRun

variable (s : ActorRun α)

def jobs : Nat := s.handoffs + s.queued + s.frames.length

/--
`launch` on an actor that got `letters` before, while the senders in `calls`
are in the middle of `enqueue`.
-/
def launch (lazy : Bool) (letters : List (Letter α))
    (calls : List (Letter α × PushFront)) : ActorRun α :=
  let mailbox : DefaultMailbox α :=
    { DefaultMailbox.initial with inbox := .nodes letters }
  let (mailbox, delayed) := if lazy then mailbox.tryBlock else (mailbox, false)
  { actor := ⟨mailbox, [], .fresh, [], [], []⟩
    calls
    handoffs := 0
    queued := if delayed then 0 else 1
    frames := []
    reaper := none
    enqueued := letters ++ calls.map Prod.fst }

def push (i : Nat) : Option (ActorRun α) :=
  match s.calls[i]? with
  | none => none
  | some (letter, pc) =>
    match s.actor.mailbox.pushBack letter pc with
    | (mailbox, .running pc') =>
      some { s with
        actor := { s.actor with mailbox }
        calls := s.calls.set i (letter, pc') }
    | (mailbox, .returned .queueClosed) =>
      some { s with
        actor := Actor.bounce { s.actor with mailbox } [letter]
        calls := s.calls.eraseIdx i }
    | (mailbox, .returned .success) =>
      some { s with
        actor := { s.actor with mailbox }, calls := s.calls.eraseIdx i }
    | (mailbox, .returned .unblockedReader) =>
      some { s with
        actor := { s.actor with mailbox }, calls := s.calls.eraseIdx i
        handoffs := s.handoffs + 1 }

def resume (i : Nat) (h : Handling) : Option (ActorRun α) :=
  match s.frames[i]? with
  | none => none
  | some frame =>
    match s.actor.resume frame h with
    | none => none
    | some (actor, .running pc) =>
      some { s with
        actor, frames := s.frames.set i { frame with pc } }
    | some (actor, .returned later) =>
      some { s with
        actor, frames := s.frames.eraseIdx i
        queued := s.queued + later.toNat }

/-- `intrusive_ptr_release` of the last reference to a living actor. -/
def unreachable : Option (ActorRun α) :=
  if s.jobs = 0 ∧ s.calls = [] ∧ s.reaper = none ∧
      s.actor.locals.terminated = false then
    match s.actor.closeMailbox with
    | (actor, .running pc) => some { s with actor, reaper := some pc }
    | (actor, .returned ()) =>
      some { s with
        actor := { actor with locals := actor.locals.cleanup } }
  else none

def reap (spurious : Bool) : Option (ActorRun α) :=
  match s.reaper with
  | none => none
  | some pc =>
    match s.actor.closeInbox pc spurious with
    | none => none
    | some (actor, .running pc') =>
      some { s with actor, reaper := some pc' }
    | some (actor, .returned ()) =>
      some { s with
        actor := { actor with locals := actor.locals.cleanup }
        reaper := none }

def step : ActorAction α → Option (ActorRun α)
  | .enqueue letter =>
    if s.reaper = none then
      some { s with
        calls := s.calls ++ [(letter, .load)]
        enqueued := s.enqueued ++ [letter] }
    else none
  | .push i => s.push i
  | .schedule =>
    if 0 < s.handoffs then
      some { s with handoffs := s.handoffs - 1, queued := s.queued + 1 }
    else none
  | .dequeue maxThroughput =>
    if 0 < s.queued then
      some { s with
        queued := s.queued - 1
        frames := s.frames ++ [⟨maxThroughput, .activate⟩] }
    else none
  | .resume i h => s.resume i h
  | .unreachable => s.unreachable
  | .reap spurious => s.reap spurious

end ActorRun

end ActorFramework.Core
