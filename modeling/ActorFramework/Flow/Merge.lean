import ActorFramework.Flow.Observer
import ActorFramework.Foundation.Transition

/-!
# The merge operator

The operator gets observables from an outer source, subscribes to each of them
under a new key and passes on their items.  Items without demand wait in a
buffer of their input.  A pull takes them out, going around the inputs.
The observables and the observer act between the calls of the operator, not
from inside of `request` or `on_next`.
-/

namespace ActorFramework.Flow

open Foundation

variable {τ : Type*}

structure MergeInput (τ : Type*) where
  sub : Bool := false
  buf : List τ := []

def MergeInput.stop (input : MergeInput τ) : Option (MergeInput τ) :=
  if input.buf.isEmpty then none else some { input with sub := false }

def stopAll (inputs : Nat → Option (MergeInput τ)) :
    Nat → Option (MergeInput τ) :=
  fun key => (inputs key).bind MergeInput.stop

structure MergeConfig where
  maxConcurrent : Nat
  maxPendingPerInput : Nat := 8

/-- `inputs` is the input map, which has keys below `nextKey` only.
`requested` is the demand of all calls, and `emitted` has the items that the
observer got, each with the key of its input. -/
structure MergeSub (τ : Type*) where
  err : Option Nat := none
  sub : Bool := false
  demand : Nat := 0
  out : Observer τ := {}
  inputs : Nat → Option (MergeInput τ) := fun _ => none
  nextKey : Nat := 1
  pos : Nat := 1
  buffered : Nat := 0
  inFlightDemand : Nat := 0
  scheduled : Nat := 0
  outer : SourceState := {}
  sources : Nat → InnerSource τ := fun _ => {}
  requested : Nat := 0
  emitted : List (Nat × τ) := []

inductive MergeAction (τ : Type*) where
  | onSubscribe
  | onNext
  | onComplete
  | onError (what : Nat)
  | fwdOnSubscribe (key : Nat)
  | fwdOnNext (key : Nat) (item : τ)
  | fwdOnComplete (key : Nat)
  | fwdOnError (key : Nat) (what : Nat)
  | request (n : Nat)
  | runPull

namespace MergeSub

variable (s : MergeSub τ)

def isPulling : Bool := 0 < s.inFlightDemand

def noInputs : Bool :=
  (List.range s.nextKey).all fun key => (s.inputs key).isNone

def done : Bool := !s.sub && s.noInputs

def setInput (key : Nat) (input : Option (MergeInput τ)) :
    MergeSub τ :=
  { s with
    inputs := fun other => if other = key then input else s.inputs other }

def setSource (key : Nat) (source : InnerSource τ) :
    MergeSub τ :=
  { s with
    sources := fun other => if other = key then source else s.sources other }

def requestOuter (n : Nat) : MergeSub τ :=
  { s with outer := { s.outer with requested := s.outer.requested + n } }

def requestInput (key n : Nat) : MergeSub τ :=
  s.setSource key
    { s.sources key with requested := (s.sources key).requested + n }

def emit (key : Nat) (item : τ) : MergeSub τ :=
  { s with
    out := s.out.onNext item, emitted := s.emitted ++ [(key, item)] }

def finish (event : FlowEvent τ) : MergeSub τ :=
  { s with out := s.out.finish event }

def onSubscribe (cfg : MergeConfig) (s : MergeSub τ) : MergeSub τ :=
  if !s.sub && s.out.valid then
    { s with sub := true }.requestOuter cfg.maxConcurrent
  else s

def onNext : MergeSub τ :=
  if s.sub then
    { s.setInput s.nextKey (some {}) with nextKey := s.nextKey + 1 }
  else s

def stopInputs : MergeSub τ :=
  { s with sub := false, inputs := stopAll s.inputs }

def onError (what : Nat) : MergeSub τ :=
  if s.out.valid && { s with err := some what }.stopInputs.noInputs then
    { s with err := some what }.stopInputs.finish (.error (some what))
  else { s with err := some what }.stopInputs

def onComplete : MergeSub τ :=
  if s.out.valid && s.noInputs && s.buffered == 0 then
    { s with sub := false }.finish .complete
  else { s with sub := false }

def fwdOnSubscribe (cfg : MergeConfig) (s : MergeSub τ) (key : Nat) :
    MergeSub τ :=
  match s.inputs key with
  | none => s
  | some input =>
    if input.sub then s
    else
      (s.setInput key (some { input with sub := true })).requestInput key
        cfg.maxPendingPerInput

def fwdOnComplete (key : Nat) : MergeSub τ :=
  match s.inputs key with
  | none => s
  | some input =>
    if !input.buf.isEmpty then
      s.setInput key (some { input with sub := false })
    else if s.sub then (s.setInput key none).requestOuter 1
    else if (s.setInput key none).noInputs then
      (s.setInput key none).finish .complete
    else s.setInput key none

def fwdOnError (key what : Nat) : MergeSub τ :=
  if s.err.isSome || (s.inputs key).isNone then s
  else if { s with err := some what }.stopInputs.noInputs then
    { s with err := some what }.stopInputs.finish (.error (some what))
  else { s with err := some what }.stopInputs

def fwdOnNext (key : Nat) (item : τ) : MergeSub τ :=
  match s.inputs key with
  | none => s
  | some input =>
    if !s.isPulling && 0 < s.demand then
      if input.sub then
        ({ s with demand := s.demand - 1 }.requestInput key 1).emit key item
      else { s with demand := s.demand - 1 }.emit key item
    else
      { s with buffered := s.buffered + 1 }.setInput key
        (some { input with buf := input.buf ++ [item] })

def pull (n : Nat) : MergeSub τ :=
  { s with
    scheduled :=
      if s.inFlightDemand = 0 then s.scheduled + 1 else s.scheduled
    inFlightDemand := s.inFlightDemand + n }

def request (n : Nat) : MergeSub τ :=
  if !s.out.valid then s
  else if s.buffered = 0 then { s with demand := s.demand + n }
  else s.pull n

def hasItems (key : Nat) : Bool :=
  (s.inputs key).any fun input => !input.buf.isEmpty

def selectNonEmpty (first count : Nat) : Option Nat :=
  (List.range' first count).find? s.hasItems

/-- The key of the input that `next` selects: the first one from `pos_` on, or
else the first one before it. -/
def next : Option Nat :=
  (s.selectNonEmpty s.pos (s.nextKey - s.pos)).or (s.selectNonEmpty 0 s.pos)

/-- `i = next()` if the input has no items left and others have.  There is no
result if the code would use the end iterator. -/
def advance (key : Nat) (rest : List τ) :
    Option (MergeSub τ × Nat) :=
  if rest.isEmpty && 0 < s.buffered then
    s.next.map fun other => ({ s with pos := other }, other)
  else some (s, key)

def dropItem (key : Nat) (sub : Bool) (rest : List τ) :
    MergeSub τ :=
  { s with
    demand := s.demand - 1
    buffered := s.buffered - 1 }.setInput key
      (if sub || !rest.isEmpty then some ⟨sub, rest⟩ else none)

def replenish (key : Nat) (sub : Bool) (rest : List τ) :
    MergeSub τ :=
  if sub then s.requestInput key 1
  else if rest.isEmpty && s.sub then s.requestOuter 1
  else s

def popItem (key : Nat) : Option (MergeSub τ × Nat) :=
  match s.inputs key with
  | some ⟨sub, item :: rest⟩ =>
    (((s.dropItem key sub rest).replenish key sub rest).advance key rest).map
      fun (t, other) => (t.emit key item, other)
  | _ => none

def pullLoop : Nat → MergeSub τ → Nat → Option (MergeSub τ)
  | 0, s, _ => some s
  | fuel + 1, s, key =>
    if s.out.valid && 0 < s.demand && 0 < s.buffered then
      (s.popItem key).bind fun (t, other) => pullLoop fuel t other
    else some s

def endEvent : FlowEvent τ :=
  match s.err with
  | none => .complete
  | some reason => .error (some reason)

def endPull (oldPos : Nat) : MergeSub τ :=
  { (if s.out.valid && s.done then s.finish s.endEvent else s) with
    pos := if s.pos = oldPos then s.pos + 1 else s.pos }

def doPull (n : Nat) : Option (MergeSub τ) :=
  match { s with demand := s.demand + n }.next with
  | none => some { s with demand := s.demand + n }
  | some key =>
    (pullLoop (s.demand + n) { s with demand := s.demand + n, pos := key }
      key).map fun t => t.endPull key

/-- The pull action.  Its loop ends after one round because nothing calls
`request` during `do_pull`. -/
def runPull : Option (MergeSub τ) :=
  (s.doPull s.inFlightDemand).map fun t =>
    { t with inFlightDemand := t.inFlightDemand - s.inFlightDemand }

/-- Sources call `on_subscribe` once, then emit no more than was requested and
nothing after a terminal event, but may emit after they were cancelled. -/
def step (cfg : MergeConfig) (s : MergeSub τ) :
    MergeAction τ → Option (MergeSub τ)
  | .onSubscribe =>
    if s.outer.subscribed then none
    else
      some ({ s with
        outer := { s.outer with subscribed := true } }.onSubscribe cfg)
  | .onNext =>
    if s.outer.subscribed && !s.outer.ended &&
        s.outer.emitted < s.outer.requested then
      some { s with
        outer := { s.outer with emitted := s.outer.emitted + 1 } }.onNext
    else none
  | .onComplete =>
    if s.outer.subscribed && !s.outer.ended then
      some { s with outer := { s.outer with ended := true } }.onComplete
    else none
  | .onError what =>
    if s.outer.subscribed && !s.outer.ended then
      some ({ s with outer := { s.outer with ended := true } }.onError what)
    else none
  | .fwdOnSubscribe key =>
    if 0 < key && key < s.nextKey && !(s.sources key).subscribed then
      some ((s.setSource key
        { s.sources key with subscribed := true }).fwdOnSubscribe cfg key)
    else none
  | .fwdOnNext key item =>
    if (s.sources key).subscribed && !(s.sources key).ended &&
        (s.sources key).items.length < (s.sources key).requested then
      some ((s.setSource key
        { s.sources key with
          items := (s.sources key).items ++ [item] }).fwdOnNext key item)
    else none
  | .fwdOnComplete key =>
    if (s.sources key).subscribed && !(s.sources key).ended then
      some ((s.setSource key
        { s.sources key with ended := true }).fwdOnComplete key)
    else none
  | .fwdOnError key what =>
    if (s.sources key).subscribed && !(s.sources key).ended then
      some ((s.setSource key
        { s.sources key with ended := true }).fwdOnError key what)
    else none
  | .request n =>
    some ({ s with requested := s.requested + n }.request n)
  | .runPull =>
    if 0 < s.scheduled then
      { s with scheduled := s.scheduled - 1 }.runPull
    else none

end MergeSub

def itemsOf (key : Nat) (log : List (Nat × τ)) : List τ :=
  log.filterMap fun entry => if entry.1 = key then some entry.2 else none

def MergeSub.emittedOf (s : MergeSub τ) (key : Nat) : List τ :=
  itemsOf key s.emitted

end ActorFramework.Flow
