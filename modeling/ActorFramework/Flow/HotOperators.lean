import ActorFramework.Flow.UcastSubState
import Mathlib.Algebra.GroupWithZero.Nat

/-!
# Hot operators

A `ucast` has one subscription state and passes it to its observer.  An
`mcast` makes a new state for every observer and pushes each item to all of
them.  A `publish` is an `mcast` that gets its items from a source.  One
coordinator runs all code, but observers may call back into the operator: the
running calls form a stack, and observer code acts whenever it is on top.
-/

namespace ActorFramework.Flow

variable {τ : Type*}

inductive HotKind where
  | ucast
  | mcast
  | publish
  deriving DecidableEq

/-- The classes that implement `subscription::impl_base` here.  An observer
gets a trivial subscription from an operator that has ended or has no room,
and `err` says which event comes after `on_subscribe`. -/
inductive SubscriptionImpl where
  | ucastSub
  | mcastSub
  | trivialImpl (err : Option Nat)

/-- A subscription with the observer it was made for.  `live` says that
`state_` is set, or that the trivial subscription was not disposed, and
`disposals` counts the delayed calls of `do_dispose(true)`.  `received` are the
calls to an observer that no state refers to. -/
structure Subscription (τ : Type*) where
  impl : SubscriptionImpl
  state : Nat
  live : Bool := true
  disposals : Nat := 0
  received : Option (List (FlowEvent τ)) := none

structure Cell (τ : Type*) where
  sub : UcastSubState τ
  listening : Bool

/-- A running call: the loop of `push_all` with the states that it did not
reach and its result so far, the pull action or `on_next` of a state, or
`on_subscribe` of an observer. -/
inductive Call (τ : Type*) where
  | pushAll (item : τ) (rest : List Nat) (res published : Bool)
  | observer (state : Nat)
  | onSubscribe (id : Nat)

/-- The members of `publish`.  `requests` counts the delayed actions that call
`try_request_more`; `requested` and `received` are about the current
subscription to the source. -/
structure PublishState where
  inFlight : Nat := 0
  maxBufSize : Nat := 128
  hasIn : Bool := false
  connected : Bool := false
  autoConnectThreshold : Nat := 2 ^ 64 - 1
  autoDisconnect : Bool := false
  tryRequestMorePending : Bool := false
  requests : Nat := 0
  requested : Nat := 0
  received : Nat := 0

/-- `cells` are all subscription states that were ever made, `states` the ones
that an `mcast` has in its vector. -/
structure HotOperator (τ : Type*) where
  kind : HotKind
  cells : List (Cell τ) := []
  subs : List (Subscription τ) := []
  states : List Nat := []
  closed : Bool := false
  err : Option Nat := none
  removals : List Nat := []
  stack : List (Call τ) := []
  source : PublishState := {}

inductive HotAction (τ : Type*) where
  | subscribe
  | push (item : τ)
  | next
  | close
  | abort (reason : Option Nat)
  | request (id n : Nat)
  | cancel (id : Nat)
  | dispose (id : Nat)
  | runDispose (id : Nat)
  | runPull (state : Nat)
  | iterate
  | ret
  | removeState (state : Nat)
  | connect
  | onSubscribe
  | onNext (item : τ)
  | onComplete
  | onError (reason : Option Nat)
  | tryRequestMore

def UcastSubState.consumes (s : UcastSubState τ) : Bool :=
  s.disposed || (0 < s.demand && !s.isPulling)

def UcastSubState.inPull (s : UcastSubState τ) : Bool :=
  match s.frames with
  | [.pull _] => true
  | _ => false

def FlowEvent.ofError (err : Option Nat) : FlowEvent τ :=
  match err with
  | none => .complete
  | some reason => .error (some reason)

namespace Subscription

def isTrivial (sub : Subscription τ) : Bool :=
  match sub.impl with
  | .trivialImpl _ => true
  | _ => false

def archive (events : List (FlowEvent τ)) (sub : Subscription τ) :
    Subscription τ :=
  { sub with received := some (sub.received.getD events) }

def disposeAction (sub : Subscription τ) (fromExternal : Bool) :
    Option (UcastAction τ) :=
  match sub.impl with
  | .ucastSub => if fromExternal then some .dispose else some .cancel
  | .mcastSub => some .dispose
  | .trivialImpl _ => none

/-- `fail_subscription` and `empty_subscription` after `on_subscribe`. -/
def reject (sub : Subscription τ) : Subscription τ :=
  match sub.impl with
  | .trivialImpl err =>
    if sub.live then { sub with received := some [.ofError err] } else sub
  | _ => sub

def events (cells : List (Cell τ)) (sub : Subscription τ) :
    List (FlowEvent τ) :=
  match sub.received with
  | some events => events
  | none =>
    match cells[sub.state]? with
    | none => []
    | some cell => cell.sub.out.events

end Subscription

def Call.isPushAll : Call τ → Bool
  | .pushAll .. => true
  | _ => false

def tooManyObservers : Nat := 70

namespace HotOperator

def initial (kind : HotKind) (source : PublishState) : HotOperator τ :=
  match kind with
  | .ucast =>
    { kind, source, cells := [⟨{ out := { valid := false } }, false⟩] }
  | _ => { kind, source }

variable (s : HotOperator τ)

def userCode : Bool :=
  match s.stack with
  | [] => true
  | .pushAll .. :: _ => false
  | .onSubscribe .. :: _ => true
  | .observer i :: _ => s.cells[i]?.any fun cell => cell.sub.interruptible

def iterating : Bool := s.stack.any Call.isPushAll

def callStack (i : Nat) (old new : List Frame) :
    List (Call τ) :=
  if old.length < new.length then .observer i :: s.stack
  else if new.length < old.length then s.stack.tail
  else s.stack

/-- The state in cell `i` changes.  Once it is disposed its listener, if it
still has one, has been told and removes it later. -/
def setState (i : Nat) (cell : Cell τ)
    (sub : UcastSubState τ) : HotOperator τ :=
  { s with
    cells := s.cells.set i ⟨sub, cell.listening && !sub.disposed⟩
    removals :=
      if cell.listening && sub.disposed then s.removals ++ [i]
      else s.removals
    stack := s.callStack i cell.sub.frames sub.frames }

def act (i : Nat) (action : UcastAction τ) :
    Option (HotOperator τ) :=
  match s.cells[i]? with
  | none => none
  | some cell => (cell.sub.step action).map (s.setState i cell)

def setListening (i : Nat) (listening : Bool) :
    HotOperator τ :=
  { s with
    cells := s.cells.modify i fun cell => { cell with listening } }

def actAll (action : UcastAction τ) :
    List Nat → HotOperator τ → Option (HotOperator τ)
  | [], s => some s
  | i :: rest, s =>
    ((s.setListening i false).act i action).bind (actAll action rest)

def setSub (id : Nat) (sub : Subscription τ) :
    HotOperator τ :=
  { s with subs := s.subs.set id sub }

def requestSource (n : Nat) : HotOperator τ :=
  { s with
    source := { s.source with
      inFlight := (s.source.inFlight + n) % 2 ^ 64
      requested := s.source.requested + n } }

def maxBuffered : Nat :=
  s.states.foldl
    (fun res i => max res ((s.cells[i]?.map fun c => c.sub.buf.length).getD 0))
    0

def tryRequestMore : HotOperator τ :=
  if s.source.hasIn && !s.states.isEmpty &&
      (s.maxBuffered + s.source.inFlight) % 2 ^ 64 < s.source.maxBufSize then
    { s with source := { s.source with tryRequestMorePending := false } }
      |>.requestSource (s.source.maxBufSize -
        (s.maxBuffered + s.source.inFlight) % 2 ^ 64)
  else { s with source := { s.source with tryRequestMorePending := false } }

/-- `publish::do_dispose`, which an `mcast` does not have. -/
def stateRemoved : HotOperator τ :=
  if s.kind = .publish then
    if s.source.autoDisconnect && s.source.connected &&
        s.states.isEmpty then
      { s.tryRequestMore with
        source := { s.tryRequestMore.source with
          connected := false, hasIn := false } }
    else s.tryRequestMore
  else s

def onConsumedSome : HotOperator τ :=
  if s.kind = .publish && !s.source.tryRequestMorePending then
    { s with
      source := { s.source with
        tryRequestMorePending := true
        requests := s.source.requests + 1 } }
  else s

def subscribed : HotOperator τ :=
  if s.kind = .publish && !s.source.connected &&
      s.states.length == s.source.autoConnectThreshold then
    { s with
      source := { s.source with autoConnectThreshold := 1, connected := true } }
  else s

/-- `fail_subscription` and `empty_subscription` up to `on_subscribe`. -/
def reject (err : Option Nat) : HotOperator τ :=
  { s with
    subs := s.subs ++ [⟨.trivialImpl err, 0, true, 0, some []⟩]
    stack := .onSubscribe s.subs.length :: s.stack }

def subscribe : Option (HotOperator τ) :=
  match s.kind with
  | .ucast =>
    match s.cells[0]? with
    | none => none
    | some cell =>
      if cell.sub.closed then some (s.reject cell.sub.err)
      else if cell.sub.out.valid then
        some (s.reject (some tooManyObservers))
      else
        some
          { s with
            cells := s.cells.set 0
              { cell with sub := { cell.sub with out := {} } }
            subs := s.subs.map (.archive cell.sub.out.events) ++
              [{ impl := .ucastSub, state := 0 }]
            stack := .onSubscribe s.subs.length :: s.stack }
  | _ =>
    if s.closed then some (s.reject s.err)
    -- The new state would invalidate the iterator.
    else if s.iterating then none
    else
      some
        { s with
          cells := s.cells ++ [⟨{}, true⟩]
          states := s.states ++ [s.cells.length]
          subs := s.subs ++ [{ impl := .mcastSub, state := s.cells.length }]
          stack := .onSubscribe s.subs.length :: s.stack }

def pushAll (item : τ) (published : Bool) : HotOperator τ :=
  { s with stack := .pushAll item s.states true published :: s.stack }

def push (item : τ) : Option (HotOperator τ) :=
  match s.kind with
  | .ucast => s.act 0 (.push item)
  | _ => some (s.pushAll item false)

def pushed (res published : Bool) : HotOperator τ :=
  if published && res && s.source.hasIn && !s.states.isEmpty then
    s.requestSource 1
  else s

def next : Option (HotOperator τ) :=
  match s.stack with
  | .pushAll item (i :: rest) res published :: calls =>
    match s.cells[i]? with
    | none => none
    | some cell =>
      { s with
        stack := .pushAll item rest (res && cell.sub.consumes) published ::
          calls }.act i (.push item)
  | .pushAll _ [] res published :: calls =>
    some ({ s with stack := calls }.pushed res published)
  | _ => none

def close : Option (HotOperator τ) :=
  match s.kind with
  | .ucast => s.act 0 .close
  | _ =>
    if s.closed then some s
    else if s.iterating then none
    else
      (actAll .close s.states { s with closed := true }).map fun t =>
        { t with states := [] }

def abort (reason : Option Nat) : Option (HotOperator τ) :=
  match s.kind with
  | .ucast => s.act 0 (.abort reason)
  | _ =>
    if s.closed then some s
    else if s.iterating then none
    else
      (actAll (.abort reason) s.states { s with closed := true }).map fun t =>
        { t with states := [], err := reason }

def request (id n : Nat) : Option (HotOperator τ) :=
  match s.subs[id]? with
  | none => none
  | some sub =>
    match sub.impl, sub.live with
    | .trivialImpl _, _ => some s
    | .ucastSub, false => some s
    -- `mcast_sub` does not check its pointer.
    | .mcastSub, false => none
    | _, true => s.act sub.state (.request n)

def doDispose (id : Nat) (fromExternal : Bool) :
    Option (HotOperator τ) :=
  match s.subs[id]? with
  | none => none
  | some sub =>
    if sub.live then
      match sub.disposeAction fromExternal with
      | none => some (s.setSub id { sub with live := false })
      | some action =>
        (s.setSub id { sub with live := false }).act sub.state action
    else some s

def isDisposed (sub : Subscription τ) : Bool :=
  !sub.live || (!sub.isTrivial &&
    s.cells[sub.state]?.any fun cell => cell.sub.disposed)

def dispose (id : Nat) : Option (HotOperator τ) :=
  s.subs[id]?.map fun sub =>
    if s.isDisposed sub then s
    else s.setSub id { sub with disposals := sub.disposals + 1 }

def runDispose (id : Nat) : Option (HotOperator τ) :=
  match s.subs[id]? with
  | none => none
  | some sub =>
    if 0 < sub.disposals then
      (s.setSub id { sub with disposals := sub.disposals - 1 }).doDispose id
        true
    else none

def swapPop (states : List Nat) (i : Nat) : List Nat :=
  match states.getLast? with
  | none => states
  | some last => (states.set (states.idxOf i) last).dropLast

def removeState (i : Nat) : Option (HotOperator τ) :=
  if i ∈ s.removals then
    if i ∈ s.states then
      some
        { s with
          removals := s.removals.erase i
          states := swapPop s.states i }.stateRemoved
    else some { s with removals := s.removals.erase i }
  else none

def ret : Option (HotOperator τ) :=
  match s.stack with
  | .observer i :: _ =>
    match s.cells[i]? with
    | none => none
    | some cell =>
      (cell.sub.step .ret).map fun sub =>
        if cell.listening && cell.sub.inPull && !sub.inPull &&
            !cell.sub.disposed && !sub.disposed then
          (s.setState i cell sub).onConsumedSome
        else s.setState i cell sub
  | .onSubscribe id :: calls =>
    some
      { s with
        stack := calls, subs := s.subs.modify id .reject }.subscribed
  | _ => none

def sourceSubscribed : HotOperator τ :=
  if s.source.hasIn then s
  else
    { s with
      source := { s.source with
        hasIn := true
        inFlight := s.source.maxBufSize
        requested := s.source.maxBufSize
        received := 0 } }

def onNext (item : τ) : HotOperator τ :=
  { s with
    source := { s.source with
      inFlight := (s.source.inFlight + (2 ^ 64 - 1)) % 2 ^ 64
      received := s.source.received + 1 } }.pushAll item true

/-- Actions of the coordinator start when no call is running. -/
def step : HotAction τ → Option (HotOperator τ)
  | .subscribe => if s.userCode then s.subscribe else none
  | .push item => if s.userCode then s.push item else none
  | .next => s.next
  | .close => if s.userCode then s.close else none
  | .abort reason => if s.userCode then s.abort reason else none
  | .request id n => if s.userCode then s.request id n else none
  | .cancel id => if s.userCode then s.doDispose id false else none
  | .dispose id => if s.userCode then s.dispose id else none
  | .runDispose id => if s.stack.isEmpty then s.runDispose id else none
  | .runPull i => if s.stack.isEmpty then s.act i .runPull else none
  | .iterate =>
    match s.stack with
    | .observer i :: _ => s.act i .iterate
    | _ => none
  | .ret => s.ret
  | .removeState i => if s.stack.isEmpty then s.removeState i else none
  | .connect =>
    if s.userCode && s.kind = .publish && !s.source.connected then
      some { s with source := { s.source with connected := true } }
    else none
  | .onSubscribe =>
    if s.userCode && s.kind = .publish then some s.sourceSubscribed
    else none
  | .onNext item =>
    if s.userCode && s.kind = .publish then some (s.onNext item) else none
  | .onComplete =>
    if s.userCode && s.kind = .publish then s.close else none
  | .onError reason =>
    if s.userCode && s.kind = .publish then s.abort reason else none
  | .tryRequestMore =>
    if s.stack.isEmpty && 0 < s.source.requests then
      some
        { s with
          source := { s.source with
            requests := s.source.requests - 1 } }.tryRequestMore
    else none

def events (id : Nat) : List (FlowEvent τ) :=
  match s.subs[id]? with
  | none => []
  | some sub => sub.events s.cells

end HotOperator

end ActorFramework.Flow
