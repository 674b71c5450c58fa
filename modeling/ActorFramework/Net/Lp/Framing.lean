import ActorFramework.Foundation.BigEndian
import ActorFramework.Net.Stack

/-!
# Length-prefix framing

Each message is preceded by its size, in network byte order and with a fixed
number of bytes.  The sender reserves the size field, appends the message to
the output buffer, and fills in the size at the end.

The receiver asks the transport for a size field, and then for the size field
together with the message.
-/

namespace ActorFramework.Net.Lp

open ActorFramework.Core (Byte)
open Foundation

inductive SizeFieldType where
  | u1
  | u2
  | u4
  | u8
  deriving DecidableEq

def SizeFieldType.size : SizeFieldType → Nat
  | .u1 => 1
  | .u2 => 2
  | .u4 => 4
  | .u8 => 8

/-- A call of the upper layer.  `message` is `begin_message`, then output to
`message_buffer`, then `end_message`. -/
inductive UpperCall where
  | suspendReading
  | requestMessages
  | message (payload : List Byte)

structure Reply where
  calls : List UpperCall := []
  accepted : Bool := true

/-- `upper` has the messages so far, with the one that is consumed at the
end. -/
structure Config where
  sizeField : SizeFieldType
  maxMessageSize : Nat
  upper : List (List Byte) → Reply

def Config.hdrSize (cfg : Config) : Nat := cfg.sizeField.size

structure Output where
  buf : List Byte := []
  messageOffset : Nat := 0
  deriving DecidableEq

namespace Output

variable (cfg : Config)

def beginMessage (out : Output) : Output :=
  { buf := out.buf ++ List.replicate cfg.hdrSize 0#8
    messageOffset := out.buf.length }

def append (out : Output) (payload : List Byte) : Output :=
  { out with buf := out.buf ++ payload }

/-- The size is converted to the integer type of the size field. -/
def endMessage (out : Output) : Output × Bool :=
  let msgSize := out.buf.length - (out.messageOffset + cfg.hdrSize)
  if 0 < msgSize ∧ cfg.maxMessageSize < msgSize then (out, false)
  else
    ({ out with
      buf := out.buf.take out.messageOffset ++ toBytes cfg.hdrSize msgSize ++
        out.buf.drop (out.messageOffset + cfg.hdrSize) }, true)

def message (out : Output) (payload : List Byte) : Output × Bool :=
  ((out.beginMessage cfg).append payload).endMessage cfg

def messages (out : Output) : List (List Byte) → Output × Bool
  | [] => (out, true)
  | payload :: rest =>
    if (out.message cfg payload).2 then
      (out.message cfg payload).1.messages rest
    else ((out.message cfg payload).1, false)

end Output

/-- The calls to the transport since the framing was called, and the history:
the messages that were passed on, and the errors. -/
structure Framing where
  calls : List LowerCall := []
  messages : List (List Byte) := []
  aborts : List Error := []

namespace Framing

variable (cfg : Config)

def lower (f : Framing) (call : LowerCall) : Framing :=
  { f with calls := f.calls ++ [call] }

def abort (f : Framing) (reason : Error) : Framing :=
  { f with aborts := f.aborts ++ [reason] }

def upperCall (f : Framing) : UpperCall → Framing
  | .suspendReading => f.lower (.configureRead .stop)
  | .requestMessages => f.lower (.restart (.exactly cfg.hdrSize))
  | .message payload =>
    f.lower (.output (({} : Output).message cfg payload).1.buf)

def isReading (reading : Bool) : UpperCall → Bool
  | .suspendReading => false
  | .requestMessages => true
  | .message _ => reading

def deliver (f : Framing) (payload : List Byte) : Framing :=
  (cfg.upper (f.messages ++ [payload])).calls.foldl (upperCall cfg)
    { f with messages := f.messages ++ [payload] }

/-- `consume_impl`, with the number of bytes that it consumes.  It is only
called while the transport is reading. -/
def consume (f : Framing) (input : List Byte) : Framing × Int :=
  if input.length < cfg.hdrSize then
    (f.abort ⟨.logicError,
      "received too few bytes from underlying transport"⟩, -1)
  else if input.length = cfg.hdrSize then
    let msgSize := ofBytes input
    if msgSize = 0 then
      -- Ignore empty messages.
      (f.abort ⟨.logicError, "received empty buffer from stream layer"⟩, -1)
    else if cfg.maxMessageSize < msgSize then
      (f.abort ⟨.protocolError, "exceeded maximum message size"⟩, -1)
    else (f.lower (.configureRead (.exactly (cfg.hdrSize + msgSize))), 0)
  else
    let msgSize := ofBytes (input.take cfg.hdrSize)
    let msg := input.drop cfg.hdrSize
    if msgSize = msg.length ∧ msgSize + cfg.hdrSize = input.length then
      let reply := cfg.upper (f.messages ++ [msg])
      if reply.accepted then
        if reply.calls.foldl isReading true then
          ((f.deliver cfg msg).lower (.configureRead (.exactly cfg.hdrSize)),
            input.length)
        else (f.deliver cfg msg, input.length)
      else (f.deliver cfg msg, -1)
    else
      (f.abort ⟨.protocolError, "received malformed message"⟩, -1)

def rest (f : Framing) : Framing := { f with calls := [] }

end Framing

def framing (cfg : Config) : Layer Framing UpperCall where
  consume f input _ :=
    { state := (f.rest.consume cfg input).1.rest
      calls := (f.rest.consume cfg input).1.calls
      written := input
      consumed := (f.rest.consume cfg input).2 }
  abort f reason := ((f.rest.abort reason).rest, [])
  upper f call := ((f.rest.upperCall cfg call).rest,
    (f.rest.upperCall cfg call).calls)

end ActorFramework.Net.Lp
