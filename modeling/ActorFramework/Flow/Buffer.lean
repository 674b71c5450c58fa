import ActorFramework.Flow.Observer
import ActorFramework.Foundation.Transition

/-!
# The buffer operator

The operator collects items of its input and emits them in batches: when the
buffer is full, when the control stream ticks, and when one of them ends.
Without demand a batch waits for a `request`, which schedules an action if
there is something to emit.

Observers call the operator between its own calls, not from inside of
`on_next`.  A call on a handle that is not set is undefined, and the observer
keeps it like any other.
-/

namespace ActorFramework.Flow

open Foundation

variable {τ : Type*}

inductive OpState where
  | idle
  | running
  | completed
  | aborted
  | disposed
  deriving DecidableEq

def OpState.hasShutDown : OpState → Bool
  | .completed => true
  | .aborted => true
  | _ => false

def endOfStream : Nat := 24

def runtimeError : Nat := 28

structure BufferConfig where
  maxBufSize : Nat
  skipEmpty : Bool := false

/-- `scheduled` counts the actions that call `on_request`, and `subscribed`
says that the observer got its subscription.  `requested` is the demand of all
calls, and `accepted` has the items that came while the operator ran. -/
structure BufferSub (τ : Type*) where
  buf : List τ := []
  out : Observer (List τ) := {}
  valueSub : Bool := false
  controlSub : Bool := false
  demand : Nat := 0
  state : OpState := .running
  err : Option Nat := none
  undefined : Bool := false
  scheduled : Nat := 0
  subscribed : Bool := false
  value : InnerSource τ := {}
  control : SourceState := {}
  requested : Nat := 0
  accepted : List τ := []
  disposed : Bool := false

inductive BufferAction (τ : Type*) where
  | fwdOnSubscribeValue
  | fwdOnNextValue (item : τ)
  | fwdOnCompleteValue
  | fwdOnErrorValue (what : Nat)
  | fwdOnSubscribeControl
  | fwdOnNextControl
  | fwdOnCompleteControl
  | fwdOnErrorControl (what : Nat)
  | subscribe
  | request (n : Nat)
  | onRequest
  | dispose (fromExternal : Bool)

namespace BufferSub

variable (s : BufferSub τ)

def running : Bool := s.state == .running

variable (cfg : BufferConfig)

def canEmit (s : BufferSub τ) : Bool :=
  s.buf.length == cfg.maxBufSize || s.state.hasShutDown

def requestValue (n : Nat) : BufferSub τ :=
  { s with value := { s.value with requested := s.value.requested + n } }

def requestControl : BufferSub τ :=
  { s with
    undefined := s.undefined || !s.controlSub
    control := { s.control with requested := s.control.requested + 1 } }

def emitBatch : BufferSub τ :=
  { s with
    undefined := s.undefined || !s.out.valid
    out := s.out.onNext s.buf
    buf := [] }

def finish : BufferSub τ :=
  { s with
    undefined := s.undefined || !s.out.valid
    out := s.out.finish (.ofErr s.err) }

def doEmit : BufferSub τ :=
  if s.demand = 0 then s
  else if s.valueSub && 0 < s.buf.length then
    { s with demand := s.demand - 1 }.emitBatch.requestValue s.buf.length
  else { s with demand := s.demand - 1 }.emitBatch

/-- The end of `shutdown` in the state `running` if no batch has to wait. -/
def shutdownNow : BufferSub τ :=
  { (if s.buf.isEmpty then s else s.emitBatch).finish with
    state := .disposed }

def shutdown : BufferSub τ :=
  if s.running then
    if !s.buf.isEmpty && s.demand == 0 then
      { s with
        valueSub := false
        controlSub := false
        state := if s.err.isSome then .aborted else .completed }
    else { s with valueSub := false, controlSub := false }.shutdownNow
  else { s with valueSub := false, controlSub := false }

def fwdOnSubscribeValue (s : BufferSub τ) : BufferSub τ :=
  if !s.running || s.valueSub || !s.out.valid then s
  else { s with valueSub := true }.requestValue cfg.maxBufSize

def fwdOnCompleteValue : BufferSub τ :=
  { s with valueSub := false }.shutdown

def fwdOnErrorValue (what : Nat) : BufferSub τ :=
  { s with valueSub := false, err := some what }.shutdown

def fwdOnNextValue (s : BufferSub τ) (item : τ) :
    BufferSub τ :=
  if s.running then
    if (s.buf ++ [item]).length = cfg.maxBufSize then
      { s with
        buf := s.buf ++ [item]
        accepted := s.accepted ++ [item] }.doEmit
    else
      { s with buf := s.buf ++ [item], accepted := s.accepted ++ [item] }
  else s

def fwdOnSubscribeControl : BufferSub τ :=
  if !s.running || s.controlSub || !s.out.valid then s
  else { s with controlSub := true }.requestControl

/-- The error has the text "buffer: unexpected end of the control stream". -/
def fwdOnCompleteControl : BufferSub τ :=
  if s.running then
    { s with controlSub := false, err := some endOfStream }.shutdown
  else { s with controlSub := false }.shutdown

def fwdOnErrorControl (what : Nat) : BufferSub τ :=
  { s with controlSub := false, err := some what }.shutdown

def fwdOnNextControl (s : BufferSub τ) : BufferSub τ :=
  if cfg.skipEmpty && s.buf.isEmpty then s.requestControl
  else s.doEmit.requestControl

def request (s : BufferSub τ) (n : Nat) : BufferSub τ :=
  { s with
    demand := s.demand + n
    scheduled :=
      if s.demand + n = n && s.canEmit cfg then s.scheduled + 1
      else s.scheduled }

def onRequest (s : BufferSub τ) : BufferSub τ :=
  if s.demand = 0 || !s.canEmit cfg then s
  else if s.running then s.doEmit
  else if s.buf.isEmpty then s.finish
  else s.doEmit.finish

def doDispose (fromExternal : Bool) : BufferSub τ :=
  if !s.out.valid then s
  else
    { s with
      state := .disposed
      valueSub := false
      controlSub := false
      out := if fromExternal then s.out.finish .disposed else s.out.release }

/-- The end of `buffer::subscribe`, after `init`.  The observer that is told of
the failure is the one that the operator has a copy of. -/
def subscribe : BufferSub τ :=
  if s.running then { s with subscribed := true }
  else
    { s with
      subscribed := true
      out := s.out.finish (.error (some (s.err.getD runtimeError))) }

/-- Sources call `on_subscribe` at most once, emit no more than was requested
and nothing after a terminal event, but may emit when cancelled.  The observer
calls `request` while the handle to it is set, as the code asserts. -/
def step (s : BufferSub τ) :
    BufferAction τ → Option (BufferSub τ)
  | .fwdOnSubscribeValue =>
    if s.value.subscribed || s.value.ended then none
    else
      some ({ s with
        value := { s.value with
          subscribed := true } }.fwdOnSubscribeValue cfg)
  | .fwdOnNextValue item =>
    if !s.value.ended && s.value.items.length < s.value.requested then
      some ({ s with
        value := { s.value with
          items := s.value.items ++ [item] } }.fwdOnNextValue cfg item)
    else none
  | .fwdOnCompleteValue =>
    if s.value.ended then none
    else
      some { s with
        value := { s.value with ended := true } }.fwdOnCompleteValue
  | .fwdOnErrorValue what =>
    if s.value.ended then none
    else
      some ({ s with
        value := { s.value with ended := true } }.fwdOnErrorValue what)
  | .fwdOnSubscribeControl =>
    if s.control.subscribed || s.control.ended then none
    else
      some { s with
        control := { s.control with
          subscribed := true } }.fwdOnSubscribeControl
  | .fwdOnNextControl =>
    if !s.control.ended && s.control.emitted < s.control.requested then
      some ({ s with
        control := { s.control with
          emitted := s.control.emitted + 1 } }.fwdOnNextControl cfg)
    else none
  | .fwdOnCompleteControl =>
    if s.control.ended then none
    else
      some { s with
        control := { s.control with ended := true } }.fwdOnCompleteControl
  | .fwdOnErrorControl what =>
    if s.control.ended then none
    else
      some ({ s with
        control := { s.control with ended := true } }.fwdOnErrorControl what)
  | .subscribe => if s.subscribed then none else some s.subscribe
  | .request n =>
    if s.subscribed && s.out.valid then
      some ({ s with requested := s.requested + n }.request cfg n)
    else none
  | .onRequest =>
    if 0 < s.scheduled then
      some ({ s with scheduled := s.scheduled - 1 }.onRequest cfg)
    else none
  | .dispose fromExternal =>
    if s.subscribed then
      some ({ s with
        disposed := s.disposed || s.out.valid }.doDispose fromExternal)
    else none

end BufferSub

end ActorFramework.Flow
