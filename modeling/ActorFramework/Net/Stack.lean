import ActorFramework.Net.Transport

/-!
# Protocol layers on top of the transport

A layer is an upper layer of the transport: what it does in a call of `consume`
is a function of its state and of the bytes that it is shown.  Together with
the transport it forms a stack.

`Event` has what happens to a stack on its own, `Action` also the calls that
the next upper layer makes in between.
-/

namespace ActorFramework.Net

open ActorFramework.Core (Byte)

structure Answer (σ : Type) where
  state : σ
  calls : List LowerCall
  written : List Byte
  consumed : Int
  next : Option Start := none

/-- A layer with states of type `σ`.  `abort` and the calls of type `υ` that
come from its own upper layer may call the transport as well. -/
structure Layer (σ υ : Type) where
  consume : σ → List Byte → List Byte → Answer σ
  abort : σ → Error → σ × List LowerCall
  upper : σ → υ → σ × List LowerCall

inductive SocketRead where
  | data (chunk policyData : List Byte)
  | policyFails (chunk : List Byte)
  | again
  | wantWrite
  | failed
  | disconnected
  deriving DecidableEq

namespace SocketRead

def reason : SocketRead → Option Error
  | .policyFails _ => some ⟨.socketOperationFailed, ""⟩
  | .failed => some ⟨.socketOperationFailed, ""⟩
  | .disconnected => some ⟨.socketDisconnected, ""⟩
  | _ => none

def result (calls : List LowerCall) : SocketRead → ReadResult
  | .data chunk policyData => .data chunk policyData
  | .policyFails chunk => .policyFails chunk calls
  | .again => .again
  | .wantWrite => .wantWrite
  | .failed => .failed calls
  | .disconnected => .disconnected calls

end SocketRead

/-- A write either takes bytes from the buffer, or it fails, because the peer
is gone or for another reason. -/
inductive Event where
  | read (res : SocketRead)
  | runScheduled
  | consume
  | written (n : Nat)
  | writeFails (disconnected : Bool)
  deriving DecidableEq

inductive Action (υ : Type) where
  | event (e : Event)
  | call (call : υ)

/-- `flushed` has the bytes that went from the write buffer to the socket. -/
structure Stack (σ : Type) where
  transport : Transport
  layer : σ
  flushed : List Byte := []

variable {σ υ : Type}

/-- The error with which the transport aborts the layer after a call of
`consume` with `n` bytes. -/
def Answer.reason (a : Answer σ) (n : Nat) : Option Error :=
  if a.consumed < 0 then some ⟨.runtimeError, "consumed < 0"⟩
  else if n < a.consumed.toNat then
    some ⟨.logicError, "consumed > buffer.size"⟩
  else none

def Layer.aborted (L : Layer σ υ) (s : σ) : Option Error → σ × List LowerCall
  | some reason => L.abort s reason
  | none => (s, [])

def writeError (disconnected : Bool) : Error :=
  if disconnected then ⟨.socketDisconnected, ""⟩
  else ⟨.socketOperationFailed, ""⟩

namespace Stack

/-- A transport with the limits that a layer has set in `start`.  `first` has
the bytes that were read together with those of an earlier layer. -/
def established (rd : ReceivePolicy) (s : σ) (first : List Byte) : Stack σ :=
  { transport :=
      { readBuf := first
        buffered := first.length
        received := first
        stream := first : Transport }.configureRead rd
    layer := s }

variable (L : Layer σ υ)

variable (c : Stack σ)

def answer : Answer σ :=
  L.consume c.layer c.transport.bytes c.transport.delta

def afterwards : σ × List LowerCall :=
  L.aborted (c.answer L).state ((c.answer L).reason c.transport.size)

def reaction : Reaction :=
  { calls := (c.answer L).calls
    written := (c.answer L).written
    consumed := (c.answer L).consumed
    next := (c.answer L).next
    abort := (c.afterwards L).2 }

def step : Event → Option (Stack σ)
  | .read res =>
    (c.transport.step (.readEvent
      (res.result (L.aborted c.layer res.reason).2))).map fun t =>
        { c with
          transport := t
          layer := (L.aborted c.layer res.reason).1 }
  | .runScheduled =>
    (c.transport.step .runScheduled).map fun t => { c with transport := t }
  | .consume =>
    (c.transport.step (.consume (c.reaction L))).map fun t =>
      { c with transport := t, layer := (c.afterwards L).1 }
  | .written n =>
    (c.transport.step (.written n)).map fun t =>
      { c with
        transport := t
        flushed := c.flushed ++ c.transport.writeBuf.take n }
  | .writeFails disconnected =>
    if c.transport.idle && !c.transport.writeBuf.isEmpty then
      some { c with
        transport := c.transport.fail (writeError disconnected)
          (L.abort c.layer (writeError disconnected)).2
        layer := (L.abort c.layer (writeError disconnected)).1 }
    else none

def act : Action υ → Option (Stack σ)
  | .event e => c.step L e
  | .call call =>
    if c.transport.idle then
      some { c with
        transport := c.transport.callAll (L.upper c.layer call).2
        layer := (L.upper c.layer call).1 }
    else none

end Stack

end ActorFramework.Net
