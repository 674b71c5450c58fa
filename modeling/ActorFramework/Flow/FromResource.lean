import ActorFramework.Flow.Observer
import ActorFramework.Foundation.Transition

/-!
# Reading from an asynchronous buffer

`from_resource_sub` emits the items of a buffer that a producer fills from
another thread.  It pulls items in `do_run`, called from two kinds of
actions: those that `request` delays, and those that a wakeup of the producer
schedules.  The flag `running_` is set while an action of the first kind is
pending or one of the second kind runs.

The producer acts at any time, the observer between the actions or from inside
of `on_next`, while pulled items are delivered.
-/

namespace ActorFramework.Flow

open Foundation

variable {τ : Type*}

/-- Where `do_run` is: at the head of its loop or of the loop in `pull`, or in
`on_next` with more items to deliver.  `pull` has a demand of its own, from
which it takes what it has consumed. -/
inductive RunPhase (τ : Type*) where
  | loop
  | pull (demand consumed : Nat)
  | deliver (rest : List τ) (demand consumed : Nat)

inductive Disposal where
  | dispose
  | cancel
  deriving DecidableEq

/-- `buf` says whether `buf_` is set.  `items` and `closed` are the content of
the buffer and the reason it was closed with, and `cancelled` says that the
consumer has cancelled it.  `delayed` and `wakeups` count the actions of the
two kinds, and `disposal` is the call that has disposed the subscription.
`undefined` says that a handle was used that is not set. -/
structure FromResourceSub (τ : Type*) where
  buf : Bool := true
  out : Observer τ := {}
  running : Bool := false
  disposed : Bool := false
  demand : Nat := 0
  phase : Option (RunPhase τ) := none
  delayed : Nat := 0
  wakeups : Nat := 0
  items : List τ := []
  closed : Option (Option Nat) := none
  cancelled : Bool := false
  disposal : Option Disposal := none
  undefined : Bool := false

inductive ResourceAction (τ : Type*) where
  | push (items : List τ)
  | close (err : Option Nat)
  | onProducerWakeup
  | request (n : Nat)
  | dispose
  | cancel
  | runDelayed
  | runWakeup
  | run

namespace FromResourceSub

variable (s : FromResourceSub τ)

def runLater : FromResourceSub τ :=
  if s.running then s
  else { s with running := true, delayed := s.delayed + 1 }

def cancelBuffer : FromResourceSub τ :=
  { s with
    undefined := s.undefined || !s.buf
    cancelled := true
    buf := false }

def dropBuffer : FromResourceSub τ :=
  if s.buf then s.cancelBuffer else s

def dispose : FromResourceSub τ :=
  if s.disposed then s
  else { s with disposed := true, disposal := some .dispose }.runLater

/-- While `running_` is set the subscription is only tagged as disposed. -/
def cancel : FromResourceSub τ :=
  if s.disposed then s
  else if s.running then
    { s with disposed := true, disposal := some .cancel }
  else
    { s with
      disposed := true
      disposal := some .cancel
      out := s.out.release }.dropBuffer

def request (n : Nat) : FromResourceSub τ :=
  if s.demand ≠ 0 then { s with demand := s.demand + n }
  else { s with demand := n }.runLater

def endRun : FromResourceSub τ :=
  { s with running := false, phase := none }

def doRun : FromResourceSub τ :=
  if s.disposed then
    { s.dropBuffer with
      out := if s.out.valid then s.out.finish .disposed else s.out }.endRun
  else { s with phase := some .loop }

def emit (item : τ) : FromResourceSub τ :=
  { s with
    undefined := s.undefined || !s.out.valid
    out := s.out.onNext item }

def pulledAgain (consumed : Nat) : FromResourceSub τ :=
  if s.disposed then { s.cancelBuffer with out := s.out.release }.endRun
  else if consumed = 0 then s.endRun
  else { s with demand := s.demand - consumed, phase := some .loop }

def pulledLast (err : Option Nat) : FromResourceSub τ :=
  { s with
    undefined := s.undefined || !s.out.valid
    out := s.out.finish (.ofErr err)
    disposed := true
    buf := false }.endRun

def runPull (demand consumed : Nat) :
    FromResourceSub τ :=
  match s.items, s.closed with
  | [], none => s.pulledAgain consumed
  | [], some err => s.pulledLast err
  | item :: rest, _ =>
    if demand = 0 then s.pulledAgain consumed
    else
      { s with
        items := (item :: rest).drop (min demand (rest.length + 1))
        phase := some (.deliver
          (rest.take (min demand (rest.length + 1) - 1))
          (demand - min demand (rest.length + 1))
          (consumed + min demand (rest.length + 1))) }.emit item

def runPhase : RunPhase τ → FromResourceSub τ
  | .loop =>
    if 0 < s.demand then { s with phase := some (.pull s.demand 0) }
    else s.endRun
  | .pull demand consumed => s.runPull demand consumed
  | .deliver [] demand consumed =>
    { s with phase := some (.pull demand consumed) }
  | .deliver (item :: rest) demand consumed =>
    { s with phase := some (.deliver rest demand consumed) }.emit item

/-- The observer can call the subscription: no action is running, or the one
that runs is in `on_next`. -/
def observerActs : Bool :=
  match s.phase with
  | none => true
  | some (.deliver _ _ _) => true
  | _ => false

def step :
    ResourceAction τ → Option (FromResourceSub τ)
  | .push items =>
    if s.closed.isSome then none else some { s with items := s.items ++ items }
  | .close err =>
    if s.closed.isSome then none else some { s with closed := some err }
  | .onProducerWakeup => some { s with wakeups := s.wakeups + 1 }
  | .request n => if s.observerActs then some (s.request n) else none
  | .dispose => if s.observerActs then some s.dispose else none
  | .cancel => if s.observerActs then some s.cancel else none
  | .runDelayed =>
    if s.phase.isNone && 0 < s.delayed then
      if s.disposed then
        some { s with delayed := s.delayed - 1, running := false }
      else some { s with delayed := s.delayed - 1 }.doRun
    else none
  | .runWakeup =>
    if s.phase.isNone && 0 < s.wakeups then
      if s.disposed then some { s with wakeups := s.wakeups - 1 }
      else
        some { s with wakeups := s.wakeups - 1, running := true }.doRun
    else none
  | .run =>
    match s.phase with
    | none => none
    | some phase => some (s.runPhase phase)

def idle : Bool :=
  s.phase.isNone && s.delayed == 0 && s.wakeups == 0

end FromResourceSub

end ActorFramework.Flow
