import ActorFramework.Flow.Observer
import ActorFramework.Flow.Step
import ActorFramework.Foundation.Transition

/-!
# An operator made of steps

`from_steps_sub` feeds the items of its input to the steps, which append to
its output buffer, and emits from the buffer while there is demand.  Its calls
of `request`, `on_next`, `on_complete` and `on_error` may call the operator
again, so in a state none of its code runs or all of it waits for such a call.
The calls that have not returned form a stack.
-/

namespace ActorFramework.Flow

open Foundation

variable {α γ : Type}

/-- A call that has not returned: `request` in `on_subscribe` or in `on_next`,
`on_next` of the observer in the loop of `do_run`, or the call at the end of
`do_run`. -/
inductive CallOut where
  | subscribed
  | pulled
  | emitted
  | last

def CallOut.inRun : CallOut → Bool
  | .emitted => true
  | .last => true
  | _ => false

/-- The state of the steps comes with the members `buf_` and `err_` that they
write to.  `delayed` counts the actions that call `do_run`, and `requested` is
the demand of all calls of `request`.  Of the input we keep whether it has
called `on_subscribe`, what it was asked for, its items and how it has ended. -/
structure FromStepsSub (steps : Steps α γ) where
  hasIn : Bool := false
  out : Observer γ := {}
  chain : steps.State × Sink γ := (steps.init, {})
  demand : Nat := 0
  inFlight : Nat := 0
  maxBufSize : Nat := 128
  running : Bool := false
  callOuts : List CallOut := []
  delayed : Nat := 0
  requested : Nat := 0
  subscribed : Bool := false
  granted : Nat := 0
  items : List α := []
  terminal : Option (Ending (Option Nat)) := none

inductive StepsAction (α : Type) where
  | onSubscribe
  | onNext (item : α)
  | onComplete
  | onError (what : Option Nat)
  | request (n : Nat)
  | dispose
  | cancel
  | runDelayed
  | ret

namespace FromStepsSub

variable {steps : Steps α γ}

variable (s : FromStepsSub steps)

def buf : List γ := s.chain.2.buf

def setBuf (items : List γ) : FromStepsSub steps :=
  { s with chain := (s.chain.1, { s.chain.2 with buf := items }) }

def wantsMore : Bool :=
  s.hasIn && decide (s.buf.length + s.inFlight < s.maxBufSize)

def askMore (call : CallOut) : FromStepsSub steps :=
  { s with
    inFlight := s.inFlight + (s.maxBufSize - (s.buf.length + s.inFlight))
    granted := s.granted + (s.maxBufSize - (s.buf.length + s.inFlight))
    callOuts := call :: s.callOuts }

def endRun : FromStepsSub steps :=
  { s with running := false }

def runEnd : FromStepsSub steps :=
  if s.hasIn then
    if s.wantsMore then s.askMore .last else s.endRun
  else if s.buf.isEmpty then
    { s with
      out := s.out.finish (.ofErr s.chain.2.err)
      callOuts := .last :: s.callOuts }
  else s.endRun

def runLoop : FromStepsSub steps :=
  match s.demand, s.buf with
  | demand + 1, item :: rest =>
    { s.setBuf rest with
      demand := demand
      out := s.out.onNext item
      callOuts := .emitted :: s.callOuts }
  | _, _ => s.runEnd

def doRun : FromStepsSub steps :=
  if s.out.valid then { s with running := true }.runLoop else s.endRun

def check : FromStepsSub steps :=
  if s.running then s else s.doRun

def onSubscribe : FromStepsSub steps :=
  if s.hasIn then s
  else if { s with hasIn := true }.wantsMore then
    { s with hasIn := true }.askMore .subscribed
  else { s with hasIn := true }

def onNext (item : α) : FromStepsSub steps :=
  if s.hasIn then
    match steps.handler.onNext s.chain item with
    | (chain, true) =>
      if { s with inFlight := s.inFlight - 1, chain }.wantsMore then
        { s with inFlight := s.inFlight - 1, chain }.askMore .pulled
      else { s with inFlight := s.inFlight - 1, chain }.check
    | (chain, false) =>
      { s with inFlight := s.inFlight - 1, chain, hasIn := false }.check
  else s

def onEnd (e : Ending (Option Nat)) :
    FromStepsSub steps :=
  if s.hasIn then
    { s with hasIn := false, chain := steps.handler.close s.chain e }.check
  else s

def runLater : FromStepsSub steps :=
  if s.running then s else { s with delayed := s.delayed + 1 }

def request (n : Nat) : FromStepsSub steps :=
  if s.demand ≠ 0 then { s with demand := s.demand + n }
  else { s with demand := n }.runLater

def doDispose (fromExternal : Bool) :
    FromStepsSub steps :=
  if s.out.valid then
    { s.setBuf [] with
      hasIn := false
      demand := 0
      out := if fromExternal then s.out.finish .disposed else s.out.release }
  else s

def resume : CallOut → FromStepsSub steps
  | .subscribed => s
  | .pulled => s.check
  | .emitted => if s.out.valid then s.runLoop else s.endRun
  | .last => s.endRun

def sourceEmits : Bool :=
  s.subscribed && s.terminal.isNone && decide (s.items.length < s.granted)

def sourceEnds : Bool :=
  s.subscribed && s.terminal.isNone

/-- The input is subscribed to before any action is run. -/
def step :
    StepsAction α → Option (FromStepsSub steps)
  | .onSubscribe =>
    if s.subscribed then none
    else some { s with subscribed := true }.onSubscribe
  | .onNext item =>
    if s.sourceEmits then
      some ({ s with items := s.items ++ [item] }.onNext item)
    else none
  | .onComplete =>
    if s.sourceEnds then
      some ({ s with terminal := some .complete }.onEnd .complete)
    else none
  | .onError what =>
    if s.sourceEnds then
      some ({ s with terminal := some (.error what) }.onEnd (.error what))
    else none
  | .request n =>
    some ({ s with requested := s.requested + n }.request n)
  | .dispose => some (s.doDispose true)
  | .cancel => some (s.doDispose false)
  | .runDelayed =>
    if s.callOuts.isEmpty && s.subscribed && 0 < s.delayed then
      some { s with delayed := s.delayed - 1 }.doRun
    else none
  | .ret =>
    match s.callOuts with
    | [] => none
    | call :: rest => some ({ s with callOuts := rest }.resume call)

def idle : Bool :=
  s.callOuts.isEmpty && s.delayed == 0

end FromStepsSub

end ActorFramework.Flow
