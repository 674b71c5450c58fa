import ActorFramework.Foundation.Transition
import Mathlib.Algebra.GroupWithZero.Nat

/-!
# Streams between two actors

A stream connects a flow of batches in a source actor with an observer in a
sink actor.  The sink grants credit in demand messages, the source answers
with batches, and both directions are FIFO channels.  A step is a message
handler, a delayed action or a call of the observer; `on_next` is a call of its
own, so the observer can make requests from inside of it.
-/

namespace ActorFramework.Core

open Foundation

variable {τ : Type*}

def minBatchBuffering : Nat := 5

def minBatchRequestThreshold : Nat := 3

structure StreamConfig where
  bufCapacity : Nat
  requestThreshold : Nat
  maxItemsPerBatch : Nat
  capacity_lt : bufCapacity < 2 ^ 64

/-- The batch size in the ack message, which has 32 bits for it. -/
def StreamConfig.announced (cfg : StreamConfig) : Nat :=
  cfg.maxItemsPerBatch % 2 ^ 32

inductive StreamError where
  | protocolError
  | invalidStream
  | streamAborted
  | other (code : Nat)
  deriving DecidableEq

/-- `known` is false if the message carries the flow id 0, which the sink has
before the ack. -/
inductive ToSource where
  | demand (known : Bool) (newDemand : Nat)
  | cancel (known : Bool)

inductive ToSink (τ : Type*) where
  | ack (maxItemsPerBatch : Nat)
  | batch (input : τ)
  | close
  | abort (reason : StreamError)

inductive StreamEvent (τ : Type*) where
  | next (input : τ)
  | complete
  | error (reason : StreamError)

inductive SinkPc where
  | idle
  | inPushInput
  | inPush
  deriving DecidableEq

def sizeSub (a b : Nat) : Nat := (a + 2 ^ 64 - b) % 2 ^ 64

/-- `hasSrc` and `hasOut` say whether the pointers are set, `registered`
whether the actor still has the bridge in its table and `initialized` whether
`src_flow_id_` is set.  `pushes` and `drops` count the delayed calls of
`try_push_stream` and `drop_flow_state`. -/
structure StreamBridgeSub (τ : Type*) where
  hasSrc : Bool := true
  hasOut : Bool := true
  registered : Bool := true
  initialized : Bool := false
  maxInFlightBatches : Nat := 0
  inFlightBatches : Nat := 0
  lowBatchesThreshold : Nat := 0
  demand : Nat := 0
  buf : List τ := []
  pc : SinkPc := .idle
  pushes : Nat := 0
  drops : Nat := 0
  events : List (StreamEvent τ) := []

namespace StreamBridgeSub

variable (s : StreamBridgeSub τ)

def send (msg : ToSource) : List ToSource :=
  if s.hasSrc then [msg] else []

def onNext (input : τ) : StreamBridgeSub τ :=
  if s.hasOut then { s with events := s.events ++ [.next input] } else s

def finish (event : StreamEvent τ) :
    StreamBridgeSub τ :=
  if s.hasOut then
    { s with hasOut := false, events := s.events ++ [event] }
  else s

def drop (event : StreamEvent τ) :
    StreamBridgeSub τ × List ToSource :=
  ({ s with hasSrc := false }.finish event, s.send (.cancel s.initialized))

def doAbort (reason : StreamError) :
    StreamBridgeSub τ × List ToSource :=
  ({ s with hasSrc := false, drops := s.drops + 1 }.finish (.error reason),
    s.send (.cancel s.initialized))

def doDispose : StreamBridgeSub τ × List ToSource :=
  if s.hasSrc then
    ({ s with hasSrc := false, drops := s.drops + 1 },
      s.send (.cancel s.initialized))
  else (s, [])

def disposed : Bool := s.hasSrc

/-- The delayed call of `do_dispose` finds no source whenever it runs. -/
def dispose : StreamBridgeSub τ × List ToSource :=
  if s.disposed then (s, []) else s.doDispose

theorem dispose_eq : s.dispose = (s, []) := by
  unfold dispose disposed doDispose
  split <;> rfl

def doCheckCredit : StreamBridgeSub τ × List ToSource :=
  let capacity :=
    sizeSub (sizeSub s.maxInFlightBatches s.inFlightBatches) s.buf.length
  if s.lowBatchesThreshold ≤ capacity then
    ({ s with inFlightBatches := s.inFlightBatches + capacity },
      s.send (.demand s.initialized (capacity % 2 ^ 32)))
  else (s, [])

def batchLimit (cfg : StreamConfig) (maxItemsPerBatch : Nat) : Nat :=
  max minBatchBuffering (cfg.bufCapacity / maxItemsPerBatch)

def batchThreshold (cfg : StreamConfig) (maxItemsPerBatch : Nat) : Nat :=
  max minBatchRequestThreshold (cfg.requestThreshold / maxItemsPerBatch)

def ack (cfg : StreamConfig)
    (maxItemsPerBatch : Nat) : StreamBridgeSub τ × List ToSource :=
  if maxItemsPerBatch = 0 then s.doAbort .protocolError
  else
    ({ s with
        initialized := true
        maxInFlightBatches := batchLimit cfg maxItemsPerBatch
        lowBatchesThreshold := batchThreshold cfg maxItemsPerBatch
        inFlightBatches := batchLimit cfg maxItemsPerBatch },
      s.send (.demand true (batchLimit cfg maxItemsPerBatch % 2 ^ 32)))

def pushInput (input : τ) :
    StreamBridgeSub τ × List ToSource :=
  if s.inFlightBatches = 0 then s.doAbort .protocolError
  else if 0 < s.demand then
    ({ s with
        inFlightBatches := s.inFlightBatches - 1
        demand := s.demand - 1
        pc := .inPushInput }.onNext input, [])
  else
    ({ s with
        inFlightBatches := s.inFlightBatches - 1
        buf := s.buf ++ [input] }, [])

/-- The loop head of `push()`; the batch leaves the buffer after the call of
`on_next`. -/
def push : StreamBridgeSub τ × List ToSource :=
  match s.buf with
  | [] => { s with pc := .idle }.doCheckCredit
  | input :: _ =>
    if 0 < s.demand then
      ({ s with demand := s.demand - 1, pc := .inPush }.onNext input, [])
    else { s with pc := .idle }.doCheckCredit

def ret : Option (StreamBridgeSub τ × List ToSource) :=
  match s.pc with
  | .idle => none
  | .inPushInput => some ({ s with pc := .idle }.doCheckCredit)
  | .inPush => some ({ s with buf := s.buf.tail }.push)

def request (n : Nat) : StreamBridgeSub τ :=
  { s with
    demand := (s.demand + n) % 2 ^ 64
    pushes := if s.buf = [] then s.pushes else s.pushes + 1 }

/-- `handle_stream_msgs` in the sink; close and abort erase the bridge before
they drop it. -/
def handle (cfg : StreamConfig) :
    ToSink τ → StreamBridgeSub τ × List ToSource
  | .ack maxItemsPerBatch =>
    if s.registered then s.ack cfg maxItemsPerBatch else (s, [])
  | .batch input => if s.registered then s.pushInput input else (s, [])
  | .close =>
    if s.registered then { s with registered := false }.drop .complete
    else (s, [])
  | .abort reason =>
    if s.registered then { s with registered := false }.drop (.error reason)
    else (s, [])

def tryPushStream : StreamBridgeSub τ × List ToSource :=
  if s.registered then s.push else (s, [])

end StreamBridgeSub

inductive OpenResult where
  | subscribed
  | failed (reason : StreamError)
  | completed
  deriving DecidableEq

/-- `opened` says that the open message was handled and `subscribed` that the
forwarder is subscribed to the flow.  `credit` is the demand that arrived while
it was, minus the batches that were sent, and `sent` lists the latter. -/
structure StreamSource (τ : Type*) where
  opened : Bool := false
  subscribed : Bool := false
  credit : Nat := 0
  sent : List τ := []

structure StreamSystem (τ : Type*) where
  sink : StreamBridgeSub τ := {}
  source : StreamSource τ := {}
  toSource : List ToSource := []
  toSink : List (ToSink τ) := []

inductive StreamAction (τ : Type*) where
  | openStream (result : OpenResult)
  | sourceReceive
  | emit (input : τ)
  | complete
  | fail (reason : StreamError)
  | sinkReceive
  | ret
  | request (n : Nat)
  | tryPushStream
  | dropFlowState
  | cancel
  | dispose
  deriving DecidableEq

namespace StreamSystem

def initial : StreamSystem τ := {}

variable (s : StreamSystem τ)

/-- The messages that answer `stream_open_msg`.  A flow that completes at once
has already sent a close message when the open handler finds the forwarder
unsubscribed. -/
def openStream (cfg : StreamConfig) :
    OpenResult → StreamSystem τ
  | .subscribed =>
    { s with
      source := { s.source with opened := true, subscribed := true }
      toSink := s.toSink ++ [.ack cfg.announced] }
  | .failed reason =>
    { s with
      source := { s.source with opened := true }
      toSink := s.toSink ++ [.abort reason] }
  | .completed =>
    { s with
      source := { s.source with opened := true }
      toSink := s.toSink ++ [.close, .abort .invalidStream] }

def unsubscribe (msg : ToSink τ) : StreamSystem τ :=
  { s with
    source := { s.source with subscribed := false }
    toSink := s.toSink ++ [msg] }

def sourceHandle : ToSource → StreamSystem τ
  | .demand known newDemand =>
    if known && s.source.subscribed then
      { s with
        source := { s.source with credit := s.source.credit + newDemand } }
    else s
  | .cancel known =>
    if known && s.source.subscribed then
      s.unsubscribe (.abort .streamAborted)
    else s

def updateSink (result : StreamBridgeSub τ × List ToSource) : StreamSystem τ :=
  { s with sink := result.1, toSource := s.toSource ++ result.2 }

def step (cfg : StreamConfig) (s : StreamSystem τ) :
    StreamAction τ → Option (StreamSystem τ)
  | .openStream result =>
    if s.source.opened then none else some (s.openStream cfg result)
  | .sourceReceive =>
    match s.toSource with
    | [] => none
    | msg :: rest => some ({ s with toSource := rest }.sourceHandle msg)
  -- The flow emits a batch only if it has unused credit.
  | .emit input =>
    if s.source.subscribed ∧ 0 < s.source.credit then
      some
        { s with
          source :=
            { s.source with
              credit := s.source.credit - 1
              sent := s.source.sent ++ [input] }
          toSink := s.toSink ++ [.batch input] }
    else none
  | .complete =>
    if s.source.subscribed then some (s.unsubscribe .close) else none
  | .fail reason =>
    if s.source.subscribed then some (s.unsubscribe (.abort reason))
    else none
  | .sinkReceive =>
    if s.sink.pc = .idle then
      match s.toSink with
      | [] => none
      | msg :: rest =>
        some ({ s with toSink := rest }.updateSink (s.sink.handle cfg msg))
    else none
  | .ret => s.sink.ret.map s.updateSink
  | .request n => some { s with sink := s.sink.request n }
  | .tryPushStream =>
    if s.sink.pc = .idle ∧ 0 < s.sink.pushes then
      some
        (s.updateSink
          { s.sink with pushes := s.sink.pushes - 1 }.tryPushStream)
    else none
  | .dropFlowState =>
    if s.sink.pc = .idle ∧ 0 < s.sink.drops then
      some
        { s with
          sink :=
            { s.sink with
              drops := s.sink.drops - 1, registered := false } }
    else none
  | .cancel => some (s.updateSink s.sink.doDispose)
  | .dispose => some (s.updateSink s.sink.dispose)

theorem step_dispose (cfg : StreamConfig) : s.step cfg .dispose = some s := by
  simp [step, updateSink, StreamBridgeSub.dispose_eq]

end StreamSystem

end ActorFramework.Core
