import ActorFramework.Flow.Observer
import ActorFramework.Foundation.Transition

/-!
# The state of a unicast subscription

Items go to the observer at once if it has demand, otherwise into a buffer.  A
request that finds the buffer filled schedules a pull, which runs later and
takes items from the buffer; until then the demand is in flight and new items
have to wait.  `on_next` may call back into the state, so every call of it is
a frame.
-/

namespace ActorFramework.Flow

open Foundation

variable {τ : Type*}

/-- A running call: `on_next` from `push`, the loop of the pull action between
two calls of `do_pull`, or `on_next` from `do_pull`. -/
inductive Frame where
  | push
  | head
  | pull (val : Nat)
  deriving DecidableEq

/-- `scheduled` counts the delayed pull actions that did not run yet.
`pushed` and `requested` are the items and the demand of all calls, and
`accepted` the items that were pushed before the state was disposed. -/
structure UcastSubState (τ : Type*) where
  buf : List τ := []
  demand : Nat := 0
  out : Observer τ := {}
  disposed : Bool := false
  closed : Bool := false
  err : Option Nat := none
  inFlightDemand : Nat := 0
  scheduled : Nat := 0
  frames : List Frame := []
  pushed : List τ := []
  accepted : List τ := []
  requested : Nat := 0

inductive UcastAction (τ : Type*) where
  | push (item : τ)
  | close
  | abort (reason : Option Nat)
  | request (n : Nat)
  | dispose
  | cancel
  | runPull
  | iterate
  | ret

namespace UcastSubState

variable (s : UcastSubState τ)

def isPulling : Bool := 0 < s.inFlightDemand

def push (item : τ) : UcastSubState τ :=
  if s.disposed then s
  else if 0 < s.demand && !s.isPulling then
    { s with
      demand := s.demand - 1
      out := s.out.onNext item
      frames := .push :: s.frames }
  else { s with buf := s.buf ++ [item] }

def finish (event : FlowEvent τ) : UcastSubState τ :=
  if !s.isPulling && s.buf.isEmpty then
    { s with
      disposed := true
      out := if s.out.valid then s.out.finish event else s.out }
  else s

def close : UcastSubState τ :=
  if s.disposed then s else { s with closed := true }.finish .complete

def abort (reason : Option Nat) : UcastSubState τ :=
  if s.disposed || s.err.isSome then s
  else { s with closed := true, err := reason }.finish (.error reason)

def pull (n : Nat) : UcastSubState τ :=
  { s with
    scheduled :=
      if s.inFlightDemand = 0 then s.scheduled + 1 else s.scheduled
    inFlightDemand := s.inFlightDemand + n }

def request (n : Nat) : UcastSubState τ :=
  if s.buf.isEmpty then { s with demand := s.demand + n } else s.pull n

def dispose : UcastSubState τ :=
  if s.disposed then s
  else
    { s with
      buf := []
      demand := 0
      disposed := true
      out := if s.out.valid then s.out.finish .disposed else s.out }

def cancel : UcastSubState τ :=
  if s.disposed then s
  else
    { s with buf := [], demand := 0, disposed := true, out := s.out.release }

def finishIteration (val : Nat) : UcastSubState τ :=
  { s with
    inFlightDemand := s.inFlightDemand - val
    frames := if 0 < s.inFlightDemand - val then [.head] else [] }

def endEvent : FlowEvent τ :=
  match s.err with
  | none => .complete
  | some reason => .error (some reason)

def terminate : UcastSubState τ :=
  { s with out := s.out.finish s.endEvent }.dispose

def pullLoop (val : Nat) : UcastSubState τ :=
  match s.buf with
  | [] =>
    if s.closed then s.terminate.finishIteration val
    else s.finishIteration val
  | item :: _ =>
    if 0 < s.demand then
      { s with out := s.out.onNext item, frames := [.pull val] }
    else s.finishIteration val

def doPull (val : Nat) : UcastSubState τ :=
  if s.disposed then s.finishIteration val
  else { s with demand := s.demand + val }.pullLoop val

def resume (val : Nat) : UcastSubState τ :=
  if s.disposed then s.finishIteration val
  else { s with buf := s.buf.tail, demand := s.demand - 1 }.pullLoop val

/-- Between two calls of `do_pull` no other code runs. -/
def interruptible : Bool := s.frames != [.head]

def step : UcastAction τ → Option (UcastSubState τ)
  | .push item =>
    if s.interruptible then
      some
        ({ s with
          pushed := s.pushed ++ [item]
          accepted :=
            if s.disposed then s.accepted
            else s.accepted ++ [item] }.push item)
    else none
  | .close => if s.interruptible then some s.close else none
  | .abort reason => if s.interruptible then some (s.abort reason) else none
  | .request n =>
    if s.interruptible then
      some ({ s with requested := s.requested + n }.request n)
    else none
  | .dispose => if s.interruptible then some s.dispose else none
  | .cancel => if s.interruptible then some s.cancel else none
  | .runPull =>
    if s.frames = [] ∧ 0 < s.scheduled then
      some { s with scheduled := s.scheduled - 1, frames := [.head] }
    else none
  | .iterate =>
    if s.frames = [.head] then some (s.doPull s.inFlightDemand) else none
  | .ret =>
    match s.frames with
    | .push :: rest => some { s with frames := rest }
    | [.pull val] => some (s.resume val)
    | _ => none

end UcastSubState

end ActorFramework.Flow
