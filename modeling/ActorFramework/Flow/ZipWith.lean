import ActorFramework.Flow.Observer
import ActorFramework.Foundation.Transition
import Mathlib.Data.List.FinRange

/-!
# The zip-with operator

The operator has a buffer for each input.  Once all have an item it takes one
from each and emits the result of the zip function.  The item type is a
function of the input.

The constructor subscribes to the inputs one after the other, and the observer
gets its subscription after that.  Observers and sources may call the operator
from inside of `on_next`: a call of `push` that waits for `on_next` to return
is a frame with the number of results it still has to emit.
-/

namespace ActorFramework.Flow

open Foundation

structure ZipInput (τ : Type*) where
  sub : Bool := false
  buf : List τ := []

def ZipInput.atEnd {τ : Type*} (input : ZipInput τ) : Bool :=
  !input.sub && input.buf.isEmpty

def InnerSource.settled {τ : Type*} (source : InnerSource τ) : Bool :=
  source.subscribed || source.ended

variable {n : Nat} {τ : Fin (n + 1) → Type*} {β : Type*}

/-- `started` counts the inputs that the constructor has subscribed to,
`requested` is the demand of all calls, and `undefined` says that `pop` was
called on an empty buffer. -/
structure ZipWithSub (τ : Fin (n + 1) → Type*) (β : Type*) where
  inputs : (i : Fin (n + 1)) → ZipInput (τ i) := fun _ => {}
  demand : Nat := 0
  err : Option Nat := none
  out : Observer β := {}
  frames : List Nat := []
  undefined : Bool := false
  started : Nat := 0
  sources : (i : Fin (n + 1)) → InnerSource (τ i) := fun _ => {}
  requested : Nat := 0
  disposed : Bool := false

inductive ZipAction (τ : Fin (n + 1) → Type*) where
  | subscribe
  | fwdOnSubscribe (i : Fin (n + 1))
  | fwdOnNext (i : Fin (n + 1)) (item : τ i)
  | fwdOnComplete (i : Fin (n + 1))
  | fwdOnError (i : Fin (n + 1)) (what : Nat)
  | request (amount : Nat)
  | ret
  | dispose (fromExternal : Bool)

namespace ZipWithSub

variable (s : ZipWithSub τ β)

def setInput (i : Fin (n + 1)) (input : ZipInput (τ i)) :
    ZipWithSub τ β :=
  { s with inputs := Function.update s.inputs i input }

def setSource (i : Fin (n + 1)) (source : InnerSource (τ i)) : ZipWithSub τ β :=
  { s with sources := Function.update s.sources i source }

def buffered : Nat :=
  ((List.finRange (n + 1)).map fun i => (s.inputs i).buf.length).min?.getD 0

def atEnd : Bool :=
  (List.finRange (n + 1)).any fun i => (s.inputs i).atEnd

def dropInputs : ZipWithSub τ β :=
  { s with inputs := fun _ => {} }

def fin : ZipWithSub τ β :=
  { s.dropInputs with out := s.out.finish (.ofErr s.err) }

def checkEnd : ZipWithSub τ β :=
  if s.atEnd then s.fin else s

/-- `out_.on_next(fn_(x.pop()...))` in the loop of `push`, which has `rest`
iterations left after this one. -/
def emit (fn : ((i : Fin (n + 1)) → τ i) → β) (s : ZipWithSub τ β)
    (rest : Nat) : ZipWithSub τ β :=
  if h : ∀ i, (s.inputs i).buf ≠ [] then
    { s with
      inputs := fun i => { s.inputs i with buf := (s.inputs i).buf.tail }
      out := s.out.onNext (fn fun i => (s.inputs i).buf.head (h i))
      frames := rest :: s.frames }
  else { s with undefined := true }

def push (fn : ((i : Fin (n + 1)) → τ i) → β) (s : ZipWithSub τ β) :
    ZipWithSub τ β :=
  if 0 < min s.buffered s.demand then
    { s with demand := s.demand - min s.buffered s.demand }.emit fn
      (min s.buffered s.demand - 1)
  else s.checkEnd

def ret (fn : ((i : Fin (n + 1)) → τ i) → β) (s : ZipWithSub τ β) :
    Option (ZipWithSub τ β) :=
  match s.frames with
  | [] => none
  | rest :: frames =>
    some (if !s.out.valid then { s with frames := frames }
      else match rest with
        | 0 => { s with frames := frames }.checkEnd
        | rest + 1 => { s with frames := frames }.emit fn rest)

def requestInputs (amount : Nat) : ZipWithSub τ β :=
  { s with
    sources := fun i =>
      if (s.inputs i).sub then
        { s.sources i with requested := (s.sources i).requested + amount }
      else s.sources i }

def request (amount : Nat) : ZipWithSub τ β :=
  if s.out.valid then
    { s with demand := s.demand + amount }.requestInputs amount
  else s

def fwdOnSubscribe (i : Fin (n + 1)) : ZipWithSub τ β :=
  if s.out.valid && !(s.inputs i).sub then
    (s.setInput i { s.inputs i with sub := true }).setSource i
      { s.sources i with requested := (s.sources i).requested + s.demand }
  else s

/-- The common part of `fwd_on_complete` and `fwd_on_error`. -/
def closeInput (i : Fin (n + 1)) : ZipWithSub τ β :=
  if (s.inputs i).buf.isEmpty then
    (s.setInput i { s.inputs i with sub := false }).fin
  else s.setInput i { s.inputs i with sub := false }

def fwdOnComplete (i : Fin (n + 1)) : ZipWithSub τ β :=
  if s.out.valid then s.closeInput i else s

def fwdOnError (i : Fin (n + 1)) (what : Nat) :
    ZipWithSub τ β :=
  if s.out.valid then
    { s with err := s.err.or (some what) }.closeInput i
  else s

def fwdOnNext (fn : ((i : Fin (n + 1)) → τ i) → β) (s : ZipWithSub τ β)
    (i : Fin (n + 1)) (item : τ i) : ZipWithSub τ β :=
  if s.out.valid then
    (s.setInput i
      { s.inputs i with buf := (s.inputs i).buf ++ [item] }).push fn
  else s

def doDispose (fromExternal : Bool) : ZipWithSub τ β :=
  if !s.out.valid then s
  else if fromExternal then
    { s.dropInputs with out := s.out.finish (.ofDispose s.err) }
  else { s.dropInputs with out := s.out.release }

def ready : Bool :=
  (List.finRange (n + 1)).all fun i =>
    s.started ≤ i.val || (s.sources i).settled

/-- Sources call `on_subscribe` during `subscribe` if they do not end at once,
emit no more than was requested and nothing after a terminal event, but may
emit after they were cancelled. -/
def step (fn : ((i : Fin (n + 1)) → τ i) → β) (s : ZipWithSub τ β) :
    ZipAction τ → Option (ZipWithSub τ β)
  | .subscribe =>
    if s.started < n + 1 && s.ready then
      some { s with started := s.started + 1 }
    else none
  | .fwdOnSubscribe i =>
    if i.val < s.started && !(s.sources i).settled then
      some ((s.setSource i
        { s.sources i with subscribed := true }).fwdOnSubscribe i)
    else none
  | .fwdOnNext i item =>
    if (s.sources i).subscribed && !(s.sources i).ended &&
        (s.sources i).items.length < (s.sources i).requested then
      some ((s.setSource i
        { s.sources i with
          items := (s.sources i).items ++ [item] }).fwdOnNext fn i item)
    else none
  | .fwdOnComplete i =>
    if i.val < s.started && !(s.sources i).ended then
      some ((s.setSource i
        { s.sources i with ended := true }).fwdOnComplete i)
    else none
  | .fwdOnError i what =>
    if i.val < s.started && !(s.sources i).ended then
      some ((s.setSource i
        { s.sources i with ended := true }).fwdOnError i what)
    else none
  | .request amount =>
    if s.started = n + 1 && s.ready then
      some ({ s with requested := s.requested + amount }.request amount)
    else none
  | .ret => s.ret fn
  | .dispose fromExternal =>
    if s.started = n + 1 && s.ready then
      some ({ s with
        disposed := s.disposed || s.out.valid }.doDispose fromExternal)
    else none

end ZipWithSub

end ActorFramework.Flow
