import ActorFramework.Flow.Observer
import ActorFramework.Foundation.Transition

/-!
# The concat operator

The operator gets observables from an outer source, one at a time, and passes
on the items of each of them before it asks for the next one.  An observable
calls `on_subscribe` from inside of `subscribe`, so subscribing to it is part
of `on_next`.  All other calls of the sources come one after the other, and a
source never emits from inside of `request`.  Member functions call the
observer last, so a `request` from inside of that call is one that follows it.
-/

namespace ActorFramework.Flow

open Foundation

variable {τ : Type*}

/-- An inner observable with the token of its forwarder.  `failure` is the
error it has ended with. -/
structure InnerState extends SourceState where
  token : Nat := 0
  failure : Option Nat := none

/-- `fwdSub` is the number of the inner observable that the subscription
belongs to.  `requested` is the demand of all calls. -/
structure ConcatSub (τ : Type*) where
  out : Observer τ := {}
  sub : Bool := false
  fwdSub : Option Nat := none
  err : Option Nat := none
  key : Nat := 0
  inFlight : Nat := 0
  outer : SourceState := {}
  inner : Nat → InnerState := fun _ => {}
  requested : Nat := 0

inductive ConcatAction where
  | onSubscribe
  | onNext
  | onComplete
  | onError (what : Nat)
  | fwdOnNext (i : Nat)
  | fwdOnComplete (i : Nat)
  | fwdOnError (i what : Nat)
  | request (n : Nat)

namespace ConcatSub

variable (s : ConcatSub τ)

def setInner (i : Nat) (state : InnerState) : ConcatSub τ :=
  { s with inner := fun j => if j = i then state else s.inner j }

def requestOuter : ConcatSub τ :=
  { s with outer := { s.outer with requested := s.outer.requested + 1 } }

def requestInner (i n : Nat) : ConcatSub τ :=
  s.setInner i { s.inner i with requested := (s.inner i).requested + n }

/-- The terminal event increments the key to ignore any events from the last
forwarder. -/
def finish (event : FlowEvent τ) : ConcatSub τ :=
  { s with key := s.key + 1, out := s.out.finish event }

def onSubscribe : ConcatSub τ :=
  if !s.sub && s.out.valid then { s with sub := true }.requestOuter else s

def fwdOnSubscribe (key i : Nat) : ConcatSub τ :=
  if key != s.key || s.fwdSub.isSome then s
  else if 0 < s.inFlight then
    { s with fwdSub := some i }.requestInner i s.inFlight
  else { s with fwdSub := some i }

def onNext (i : Nat) : ConcatSub τ :=
  if s.sub then
    ({ s with key := s.key + 1 }.setInner i
      { s.inner i with subscribed := true, token := s.key + 1 }).fwdOnSubscribe
        (s.key + 1) i
  else s

def onError (what : Nat) : ConcatSub τ :=
  if s.fwdSub.isNone && s.out.valid then
    { s with sub := false, err := some what }.finish (.error (some what))
  else { s with sub := false, err := some what }

def onComplete : ConcatSub τ :=
  if s.fwdSub.isNone && s.out.valid then
    { s with sub := false }.finish .complete
  else { s with sub := false }

def endEvent : FlowEvent τ :=
  match s.err with
  | none => .complete
  | some what => .error (some what)

def fwdOnComplete (key : Nat) : ConcatSub τ :=
  if key != s.key then s
  else if s.sub then { s with fwdSub := none }.requestOuter
  else { s with fwdSub := none }.finish s.endEvent

def fwdOnError (key what : Nat) : ConcatSub τ :=
  if key != s.key then s
  else
    { s with sub := false, fwdSub := none }.finish (.error (some what))

def fwdOnNext (key : Nat) (item : τ) : ConcatSub τ :=
  if key != s.key then s
  else { s with inFlight := s.inFlight - 1, out := s.out.onNext item }

def request (n : Nat) : ConcatSub τ :=
  match s.fwdSub with
  | some i =>
    { s.requestInner i n with inFlight := s.inFlight + n }
  | none => { s with inFlight := s.inFlight + n }

def itemsAt (inners : List (List τ)) (i : Nat) : List τ := inners[i]?.getD []

/-- `inners` has the items of the observables that the outer source emits
before it ends.  The outer source and each observable end at the end of their
sequence, with or without an error, or not at all. -/
def step (inners : List (List τ)) (s : ConcatSub τ) :
    ConcatAction → Option (ConcatSub τ)
  | .onSubscribe =>
    if s.outer.subscribed then none
    else
      some { s with
        outer := { s.outer with subscribed := true } }.onSubscribe
  | .onNext =>
    if s.outer.subscribed && !s.outer.ended &&
        s.outer.emitted < s.outer.requested &&
        s.outer.emitted < inners.length then
      some ({ s with
        outer := { s.outer with
          emitted := s.outer.emitted + 1 } }.onNext s.outer.emitted)
    else none
  | .onComplete =>
    if s.outer.subscribed && !s.outer.ended &&
        s.outer.emitted == inners.length then
      some { s with outer := { s.outer with ended := true } }.onComplete
    else none
  | .onError what =>
    if s.outer.subscribed && !s.outer.ended &&
        s.outer.emitted == inners.length then
      some ({ s with outer := { s.outer with ended := true } }.onError what)
    else none
  | .fwdOnNext i =>
    if (s.inner i).subscribed && !(s.inner i).ended &&
        (s.inner i).emitted < (s.inner i).requested then
      (itemsAt inners i)[(s.inner i).emitted]?.map fun item =>
        (s.setInner i
          { s.inner i with
            emitted := (s.inner i).emitted + 1 }).fwdOnNext
              (s.inner i).token item
    else none
  | .fwdOnComplete i =>
    if (s.inner i).subscribed && !(s.inner i).ended &&
        (s.inner i).emitted == (itemsAt inners i).length then
      some ((s.setInner i
        { s.inner i with ended := true }).fwdOnComplete (s.inner i).token)
    else none
  | .fwdOnError i what =>
    if (s.inner i).subscribed && !(s.inner i).ended &&
        (s.inner i).emitted == (itemsAt inners i).length then
      some ((s.setInner i
        { s.inner i with ended := true, failure := some what }).fwdOnError
          (s.inner i).token what)
    else none
  | .request n => some ({ s with requested := s.requested + n }.request n)

end ConcatSub

end ActorFramework.Flow
