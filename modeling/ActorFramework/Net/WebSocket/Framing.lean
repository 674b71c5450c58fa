import ActorFramework.Net.Rfc3629
import ActorFramework.Net.Rfc6455
import ActorFramework.Net.Stack

/-!
# The WebSocket framing

The framing is the upper layer of the transport.  It decodes frames from the
bytes that the transport shows, assembles messages from them, and answers pings
on its own.

The messages go to an upper layer again.  What it does in `consume_text` or
`consume_binary` is a function of the messages it has seen, so any upper layer
is possible.  The masking keys come from a random number generator, here from a
sequence of keys.
-/

namespace ActorFramework.Net.WebSocket

open ActorFramework.Core (Byte)
open Foundation
open Net.Rfc6455

inductive Status where
  | normalClose
  | goingAway
  | protocolError
  | invalidData
  | noStatus
  | abnormalExit
  | inconsistentData
  | policyViolation
  | messageTooBig
  | missingExtensions
  | unexpectedCondition
  | tlsHandshakeFailure
  deriving DecidableEq

namespace Status

def toNat : Status → Nat
  | .normalClose => 1000
  | .goingAway => 1001
  | .protocolError => 1002
  | .invalidData => 1003
  | .noStatus => 1005
  | .abnormalExit => 1006
  | .inconsistentData => 1007
  | .policyViolation => 1008
  | .messageTooBig => 1009
  | .missingExtensions => 1010
  | .unexpectedCondition => 1011
  | .tlsHandshakeFailure => 1015

def fromInteger : Nat → Option Status
  | 1000 => some .normalClose
  | 1001 => some .goingAway
  | 1002 => some .protocolError
  | 1003 => some .invalidData
  | 1005 => some .noStatus
  | 1006 => some .abnormalExit
  | 1007 => some .inconsistentData
  | 1008 => some .policyViolation
  | 1009 => some .messageTooBig
  | 1010 => some .missingExtensions
  | 1011 => some .unexpectedCondition
  | 1015 => some .tlsHandshakeFailure
  | _ => none

end Status

inductive Message where
  | text (payload : List Byte)
  | binary (payload : List Byte)
  deriving DecidableEq

/-- A call of the upper layer.  The last three write frames. -/
inductive UpperCall where
  | suspendReading
  | requestMessages
  | endTextMessage (text : List Byte)
  | endBinaryMessage (bytes : List Byte)
  | shutdown (code : Status) (msg : List Byte)

structure Reply where
  calls : List UpperCall := []
  accepted : Bool := true

/-- `upper` has the messages so far, with the one that is consumed at the end.
`render` is `to_string` for errors. -/
structure Config where
  maskOutgoingFrames : Bool
  keys : Nat → BitVec 32
  render : Error → List Byte
  upper : List Message → Reply

/-- What the framing does in public: the messages it passes on, and the frames
it writes as answers to pings. -/
inductive Output where
  | message (m : Message)
  | pong (frame : List Byte)
  deriving DecidableEq

def Output.message? : Output → Option Message
  | .message m => some m
  | .pong _ => none

/-- `calls` has the calls to the transport since the framing was called.

The last fields are the history: how many keys were drawn, the outputs, the
errors passed to the upper layer, the number of close frames, and the messages
passed on after the first error.  `suspended` says whether `suspend_reading`
was called after the last `request_messages`, and `late` has the messages
passed on in spite of that. -/
structure Framing where
  hdr : Option Header := none
  opcode : Option Opcode := none
  payloadBuf : List Byte := []
  validationOffset : Nat := 0
  calls : List LowerCall := []
  drawn : Nat := 0
  outputs : List Output := []
  aborts : List Error := []
  closings : Nat := 0
  afterAbort : List Message := []
  suspended : Bool := false
  late : List Message := []

structure Outcome where
  framing : Framing
  written : List Byte
  consumed : Int

def maxFrameSize : Nat := 0x7FFFFFFF

def defaultReceivePolicy : ReceivePolicy := .upTo 2048

def invalidUtf8 : Error := ⟨.malformedMessage, "Invalid UTF-8 sequence"⟩

def validateClosingPayload (payload : List Byte) : Option Error :=
  match payload with
  | [] => none
  | [_] =>
    some ⟨.protocolError,
      "non empty closing payload must have at least two bytes"⟩
  | high :: low :: text =>
    let status := ofBytes [high, low]
    if !Rfc3629.valid text then
      some ⟨.protocolError, "malformed UTF-8 text message in closing payload"⟩
    else if 3000 ≤ status ∧ status < 5000 then none
    else
      match Status.fromInteger status with
      | some .normalClose | some .goingAway | some .protocolError
      | some .invalidData | some .inconsistentData | some .policyViolation
      | some .messageTooBig | some .missingExtensions
      | some .unexpectedCondition => none
      | _ => some ⟨.protocolError, "invalid status code in closing payload"⟩

namespace Framing

variable (cfg : Config)

variable (f : Framing)

def messages : List Message := f.outputs.filterMap Output.message?

def lower (call : LowerCall) : Framing :=
  { f with calls := f.calls ++ [call] }

def maskKey : BitVec 32 :=
  if cfg.maskOutgoingFrames then cfg.keys f.drawn else 0#32

def masked (payload : List Byte) : List Byte :=
  if cfg.maskOutgoingFrames then maskData (f.maskKey cfg) payload 0
  else payload

def nextFrame (opcode : Opcode) (payload : List Byte) :
    List Byte :=
  assembleFrame opcode (f.maskKey cfg) (f.masked cfg payload) finFlag

def ship (opcode : Opcode) (payload : List Byte) : Framing :=
  { f.lower (.output (f.nextFrame cfg opcode payload)) with
    drawn := if cfg.maskOutgoingFrames then f.drawn + 1 else f.drawn }

def shipPong (payload : List Byte) : Framing :=
  { f.ship cfg .pong payload with
    outputs := f.outputs ++ [.pong (f.nextFrame cfg .pong payload)] }

def shipFrame (opcode : Opcode) (payload : List Byte) : Framing :=
  f.ship cfg opcode payload

def shipClosingMessage : Framing :=
  { f.ship cfg .connectionClose [] with closings := f.closings + 1 }

def shipClosingStatus (code : Status) (msg : List Byte) :
    Framing :=
  { f.ship cfg .connectionClose (toBytes 2 code.toNat ++ msg) with
    closings := f.closings + 1 }

def shutdown (code : Status) (msg : List Byte) : Framing :=
  (f.shipClosingStatus cfg code msg).lower .shutdown

def shutdownWith (reason : Error) : Framing :=
  match reason.code with
  | .connectionClosed => f.shutdown cfg .normalClose (cfg.render reason)
  | .protocolError => f.shutdown cfg .protocolError (cfg.render reason)
  | .malformedMessage => f.shutdown cfg .inconsistentData (cfg.render reason)
  | _ => f.shutdown cfg .unexpectedCondition (cfg.render reason)

def abortUpper (reason : Error) : Framing :=
  { f with aborts := f.aborts ++ [reason] }

def abort (reason : Error) : Framing :=
  (f.shipClosingMessage cfg).abortUpper reason

def abortAndShutdown (err : Error) : Framing :=
  (f.abortUpper err).shutdownWith cfg err

def upperCall : UpperCall → Framing
  | .suspendReading =>
    { f.lower (.configureRead .stop) with suspended := true }
  | .requestMessages =>
    { f.lower (.restart defaultReceivePolicy) with suspended := false }
  | .endTextMessage text => f.shipFrame cfg .text text
  | .endBinaryMessage bytes => f.shipFrame cfg .binary bytes
  | .shutdown code msg => f.shutdown cfg code msg

def deliver (m : Message) : Framing :=
  (cfg.upper (f.messages ++ [m])).calls.foldl (upperCall cfg)
    { f with
      outputs := f.outputs ++ [.message m]
      afterAbort :=
        if f.aborts.isEmpty then f.afterAbort else f.afterAbort ++ [m]
      late := if f.suspended then f.late ++ [m] else f.late }

def finish : Framing :=
  { f.lower (.configureRead defaultReceivePolicy) with hdr := none }

def consumeMessage (m : Message) (payload : List Byte)
    (frameSize : Nat) : Outcome :=
  if (cfg.upper (f.messages ++ [m])).accepted then
    ⟨(f.deliver cfg m).finish, payload, frameSize⟩
  else ⟨f.deliver cfg m, payload, -1⟩

def handle (opcode : Opcode) (payload : List Byte)
    (frameSize : Nat) : Outcome :=
  match opcode with
  | .connectionClose =>
    match validateClosingPayload payload with
    | some err => ⟨f.abortAndShutdown cfg err, payload, -1⟩
    | none =>
      ⟨f.abortAndShutdown cfg ⟨.connectionClosed, ""⟩, payload, -1⟩
  | .text => f.consumeMessage cfg (.text payload) payload frameSize
  | .binary => f.consumeMessage cfg (.binary payload) payload frameSize
  | .ping =>
    ⟨(f.shipPong cfg payload).finish, f.masked cfg payload, frameSize⟩
  | _ => ⟨f.finish, payload, frameSize⟩

/-- The part of `consume_payload` after the payload of a frame is complete. -/
def endPayload (hdr : Header) (buffer : List Byte) : Outcome :=
  if hdr.fin then
    match f.opcode with
    | none =>
      if hdr.opcode = .text ∧ f.validationOffset ≠ buffer.length then
        ⟨f.abortAndShutdown cfg invalidUtf8, buffer, -1⟩
      else
        { f with validationOffset := 0 }.handle cfg hdr.opcode buffer
          hdr.payloadLen
    | some opcode =>
      if opcode = .text ∧ f.validationOffset ≠ f.payloadBuf.length then
        ⟨f.abortAndShutdown cfg invalidUtf8, buffer, -1⟩
      else
        let result := f.handle cfg opcode f.payloadBuf hdr.payloadLen
        ⟨{ result.framing with
            opcode := none
            payloadBuf := []
            validationOffset := 0 },
          buffer, result.consumed⟩
  else
    ⟨{ f.finish with opcode := some (f.opcode.getD hdr.opcode) }, buffer,
      hdr.payloadLen⟩

def payloadValid (payload : List Byte) : Framing × Bool :=
  let result := Rfc3629.validate (payload.drop f.validationOffset)
  ({ f with validationOffset := f.validationOffset + result.1 },
    f.validationOffset + result.1 == payload.length || result.2)

/-- The part of `consume_payload` for text messages, which are validated on the
go and may arrive with incomplete payload. -/
def consumeText (hdr : Header) (buffer : List Byte) (offset : Nat) : Outcome :=
  let result :=
    if hdr.opcode = .text ∧ hdr.fin then f.payloadValid buffer
    else
      { f with payloadBuf := f.payloadBuf ++ buffer.drop offset }.payloadValid
        (f.payloadBuf ++ buffer.drop offset)
  if result.2 then
    if buffer.length < hdr.payloadLen then ⟨result.1, buffer, 0⟩
    else result.1.endPayload cfg hdr buffer
  else ⟨result.1.abortAndShutdown cfg invalidUtf8, buffer, -1⟩

def consumePayload (hdr : Header) (buffer delta : List Byte) :
    Outcome :=
  -- Calculate at what point of the received buffer the delta payload begins.
  let offset := buffer.length - delta.length
  let buffer :=
    if hdr.maskKey ≠ 0#32 then maskData hdr.maskKey buffer offset else buffer
  if isControlFrame hdr.opcode then
    f.handle cfg hdr.opcode buffer hdr.payloadLen
  else if hdr.opcode = .text ∨ f.opcode = some .text then
    f.consumeText cfg hdr buffer offset
  else if hdr.opcode = .binary ∧ hdr.fin = false ∨ f.opcode = some .binary then
    { f with payloadBuf := f.payloadBuf ++ buffer }.endPayload cfg hdr buffer
  else f.endPayload cfg hdr buffer

def validateHeader (hdr : Header) (hdrBytes : Nat) :
    Option Error :=
  if isControlFrame hdr.opcode then
    if 125 < hdr.payloadLen then
      some ⟨.protocolError,
        "WebSocket control frame payload exceeds allowed size"⟩
    else if hdr.fin = false then
      some ⟨.protocolError, "Received a fragmented WebSocket control message"⟩
    else none
  else if maxFrameSize - hdrBytes ≤ hdr.payloadLen then
    some ⟨.protocolError, "WebSocket frame too large"⟩
  else if maxFrameSize < f.payloadBuf.length + hdr.payloadLen then
    some ⟨.protocolError, "Fragmented WebSocket payload exceeds maximum size"⟩
  else if hdr.opcode ≠ .continuation ∧ f.opcode ≠ none then
    some ⟨.protocolError, "Expected a WebSocket continuation_frame"⟩
  else if hdr.opcode = .continuation ∧ f.opcode = none then
    some ⟨.protocolError,
      "Received WebSocket continuation frame without prior opcode"⟩
  else none

def payloadPolicy (hdr : Header) : ReceivePolicy :=
  if hdr.opcode = .text ∨ hdr.opcode = .continuation ∧ f.opcode = some .text
  then .upTo hdr.payloadLen
  else .exactly hdr.payloadLen

def consumeHeader (buffer : List Byte) : Framing × Int :=
  match decodeHeader buffer with
  | .malformed =>
    (f.abortAndShutdown cfg ⟨.protocolError,
      "negative header size on WebSocket connection"⟩, -1)
  | .wait => (f, 0)
  | .done hdr size =>
    match { f with hdr := some hdr }.validateHeader hdr size with
    | some err => ({ f with hdr := some hdr }.abortAndShutdown cfg err, -1)
    | none =>
      ({ f with hdr := some hdr }.lower
        (.configureRead (f.payloadPolicy hdr)), size)

def consume (buffer delta : List Byte) : Outcome :=
  match f.hdr with
  | some hdr => f.consumePayload cfg hdr buffer delta
  | none =>
    let result := f.consumeHeader cfg buffer
    if result.2 ≤ 0 then ⟨result.1, buffer, result.2⟩
    else
      match result.1.hdr with
      | some hdr =>
        if hdr.payloadLen = 0 then
          let payload := result.1.consumePayload cfg hdr [] []
          ⟨payload.framing, buffer,
            if payload.consumed < 0 then -1 else result.2⟩
        else ⟨result.1, buffer, result.2⟩
      | none => ⟨result.1, buffer, result.2⟩

def rest : Framing := { f with calls := [] }

def returned : Framing × List LowerCall := (f.rest, f.calls)

end Framing

def framing (cfg : Config) : Layer Framing UpperCall where
  consume f buffer delta :=
    let out := f.rest.consume cfg buffer delta
    { state := out.framing.rest
      calls := out.framing.calls
      written := out.written
      consumed := out.consumed }
  abort f reason := (f.rest.abort cfg reason).returned
  upper f call := (f.rest.upperCall cfg call).returned

def server (calls : List UpperCall) : Config where
  maskOutgoingFrames := false
  keys := fun _ => 0
  render := fun _ => []
  upper := fun _ => { calls := calls }

end ActorFramework.Net.WebSocket
