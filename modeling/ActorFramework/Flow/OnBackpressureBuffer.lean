import ActorFramework.Flow.Observer
import ActorFramework.Foundation.BoundedQueue

/-!
# The backpressure buffer

The operator asks its source for more items right away and keeps those without
demand in a buffer of limited size.  A strategy says what happens to an item
that finds the buffer full.  Buffered items are sent from an action that
`request` schedules.

Observers call the operator between its own calls, not from inside of
`on_next`.
-/

namespace ActorFramework.Flow

open Foundation

variable {τ : Type*}

inductive BackpressureOverflowStrategy where
  | dropNewest
  | dropOldest
  | fail
  deriving DecidableEq

def backpressureOverflow : Nat := 79

structure BackpressureConfig where
  bufferSize : Nat
  strategy : BackpressureOverflowStrategy

/-- `srcError` is `some none` if the source has completed.  `undefined` says
that `request` was called on a subscription that is not set, and `scheduled`
counts the calls of `on_request` to come.  `accepted` has the items that came
while the observer was set, and `overflown` says that the strategy `fail` has
ended the output. -/
structure OnBackpressureBufferSub (τ : Type*) where
  out : Observer τ := {}
  sub : Bool := false
  demand : Nat := 0
  srcError : Option (Option Nat) := none
  buffer : List τ := []
  undefined : Bool := false
  scheduled : Nat := 0
  source : InnerSource τ := {}
  accepted : List τ := []
  overflown : Bool := false
  disposed : Bool := false

inductive BackpressureAction (τ : Type*) where
  | onSubscribe
  | onNext (item : τ)
  | onComplete
  | onError (what : Nat)
  | request (newDemand : Nat)
  | onRequest
  | dispose (fromExternal : Bool)

namespace OnBackpressureBufferSub

variable (s : OnBackpressureBufferSub τ)

def requestSub (n : Nat) :
    OnBackpressureBufferSub τ :=
  { s with
    undefined := s.undefined || !s.sub
    source := { s.source with requested := s.source.requested + n } }

def request (newDemand : Nat) :
    OnBackpressureBufferSub τ :=
  if newDemand = 0 then s
  else
    { s with
      demand := s.demand + newDemand
      scheduled :=
        if s.demand + newDemand = newDemand && !s.buffer.isEmpty then
          s.scheduled + 1
        else s.scheduled }

variable (cfg : BackpressureConfig)

def onSubscribe (s : OnBackpressureBufferSub τ) :
    OnBackpressureBufferSub τ :=
  if s.sub then s
  else { s with sub := true }.requestSub cfg.bufferSize

def forward (item : τ) :
    OnBackpressureBufferSub τ :=
  if s.sub then
    { s with demand := s.demand - 1, out := s.out.onNext item }.requestSub 1
  else { s with demand := s.demand - 1, out := s.out.onNext item }

def overflow (s : OnBackpressureBufferSub τ)
    (item : τ) : OnBackpressureBufferSub τ :=
  match cfg.strategy with
  | .dropNewest => s.requestSub 1
  | .dropOldest =>
    { s with buffer := s.buffer.tail ++ [item] }.requestSub 1
  | .fail =>
    { s with
      sub := false
      buffer := []
      overflown := true
      out := s.out.finish (.error (some backpressureOverflow)) }

def onNext (s : OnBackpressureBufferSub τ)
    (item : τ) : OnBackpressureBufferSub τ :=
  if !s.out.valid then s
  else if 0 < s.demand && s.buffer.isEmpty then
    { s with accepted := s.accepted ++ [item] }.forward item
  else if s.buffer.length = cfg.bufferSize then
    { s with accepted := s.accepted ++ [item] }.overflow cfg item
  else
    { s with
      accepted := s.accepted ++ [item]
      buffer := s.buffer ++ [item] }.requestSub 1

/-- `on_complete`, where `err` is `none`, and `on_error`. -/
def onEnd (err : Option Nat) :
    OnBackpressureBufferSub τ :=
  if !s.out.valid || s.srcError.isSome then s
  else if s.buffer.isEmpty then
    { s with
      srcError := some err
      sub := false
      out := s.out.finish (.ofErr err) }
  else { s with srcError := some err, sub := false }

def onComplete : OnBackpressureBufferSub τ :=
  s.onEnd none

def onError (what : Nat) :
    OnBackpressureBufferSub τ :=
  s.onEnd (some what)

def drain : Nat → OnBackpressureBufferSub τ → OnBackpressureBufferSub τ
  | 0, s => s
  | fuel + 1, s =>
    match s.buffer with
    | [] => s
    | item :: rest =>
      if s.out.valid && 0 < s.demand then
        drain fuel ({ s with buffer := rest }.forward item)
      else s

def reportEnd : OnBackpressureBufferSub τ :=
  match s.srcError with
  | none => s
  | some err =>
    if s.out.valid then { s with out := s.out.finish (.ofErr err) } else s

def onRequest : OnBackpressureBufferSub τ :=
  (drain s.demand s).reportEnd

def doDispose (fromExternal : Bool) :
    OnBackpressureBufferSub τ :=
  if !s.out.valid then s
  else
    { s with
      sub := false
      out := if fromExternal then s.out.finish .disposed else s.out.release }

/-- The source calls `on_subscribe` once, then emits no more than was requested
and nothing after a terminal event, but may emit after it was cancelled. -/
def step (s : OnBackpressureBufferSub τ) :
    BackpressureAction τ → Option (OnBackpressureBufferSub τ)
  | .onSubscribe =>
    if s.source.subscribed || s.source.ended then none
    else
      some ({ s with
        source := { s.source with subscribed := true } }.onSubscribe cfg)
  | .onNext item =>
    if s.source.subscribed && !s.source.ended &&
        s.source.items.length < s.source.requested then
      some ({ s with
        source := { s.source with
          items := s.source.items ++ [item] } }.onNext cfg item)
    else none
  | .onComplete =>
    if s.source.subscribed && !s.source.ended then
      some { s with source := { s.source with ended := true } }.onComplete
    else none
  | .onError what =>
    if s.source.subscribed && !s.source.ended then
      some ({ s with
        source := { s.source with ended := true } }.onError what)
    else none
  | .request newDemand => some (s.request newDemand)
  | .onRequest =>
    if 0 < s.scheduled then
      some { s with scheduled := s.scheduled - 1 }.onRequest
    else none
  | .dispose fromExternal =>
    some ({ s with
      disposed := s.disposed || s.out.valid }.doDispose fromExternal)

end OnBackpressureBufferSub

end ActorFramework.Flow
