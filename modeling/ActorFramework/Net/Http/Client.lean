import ActorFramework.Net.Http.V1
import ActorFramework.Net.Stack

/-!
# The HTTP client

The client collects a response from the transport: a header, then a payload
whose size is known from the header, or chunks until there is an empty one.
-/

namespace ActorFramework.Net.Http

open ActorFramework.Core

namespace Client

inductive Mode where
  | readHeader
  | readPayload
  | readChunks
  deriving DecidableEq

/-- A call of the upper layer.  `output` is any of the functions that write a
part of a request. -/
inductive UpperCall where
  | suspendReading
  | requestMessages
  | output (bytes : List Byte)

/-- What the upper layer does in a call of `consume`, and whether the result is
not negative. -/
structure Reply where
  calls : List UpperCall := []
  accepted : Bool := true

structure Response where
  hdr : ResponseHeader
  payload : List Byte

/-- `upper` has the responses so far, with the one that is consumed at the
end. -/
structure Config where
  maxResponseSize : Nat
  real : List Byte → Option Int
  upper : List Response → Reply

end Client

open Client in
/-- The last fields are the calls to the transport since the client was called,
and the history: the responses that were passed on, and the errors. -/
structure Client where
  mode : Mode := .readHeader
  hdr : ResponseHeader := {}
  buffer : List Byte := []
  payloadLen : Nat := 0
  calls : List LowerCall := []
  responses : List Response := []
  aborts : List Error := []

namespace Client

variable (cfg : Config)

variable (cl : Client)

def lower (call : LowerCall) : Client :=
  { cl with calls := cl.calls ++ [call] }

def abort (reason : Error) : Client :=
  { cl with aborts := cl.aborts ++ [reason] }

def abortAndShutdown (reason : Error) : Client :=
  (cl.abort reason).lower .shutdown

def Config.policy : ReceivePolicy := .upTo cfg.maxResponseSize

def UpperCall.lower : UpperCall → LowerCall
  | .suspendReading => .configureRead .stop
  | .requestMessages => .restart cfg.policy
  | .output bytes => .output bytes

def upperCall (call : UpperCall) : Client :=
  cl.lower (call.lower cfg)

def invokeUpperLayer (payload : List Byte) : Client × Bool :=
  let responses := cl.responses ++ [⟨cl.hdr, payload⟩]
  let reply := cfg.upper responses
  (reply.calls.foldl (upperCall cfg) { cl with responses := responses },
    reply.accepted)

def readPayload (input : List Byte) (consumed : Nat) :
    Client × Int :=
  if input.length < cl.payloadLen then (cl, consumed)
  else
    let res := cl.invokeUpperLayer cfg (input.take cl.payloadLen)
    if res.2 then
      ({ res.1 with mode := .readHeader },
        ((consumed + cl.payloadLen : Nat) : Int))
    else (res.1, -1)

def readChunks (input : List Byte) (consumed : Nat) :
    Client × Int :=
  match V1.parseChunk input with
  | .error none => (cl, consumed)
  | .error (some reason) => (cl.abortAndShutdown reason, -1)
  | .ok (chunkSize, remainder) =>
    let size := input.length - remainder.length + chunkSize + 2
    if cfg.maxResponseSize < chunkSize + cl.buffer.length then
      (cl.abortAndShutdown
        ⟨.protocolError, "Payload exceeds maximum size."⟩, -1)
    else if remainder.length < chunkSize + 2 then
      (cl.lower (.configureRead (.exactly size)), consumed)
    else
      let cl := cl.lower (.configureRead cfg.policy)
      if (remainder.drop chunkSize).take 2 ≠ eol then
        (cl.abortAndShutdown ⟨.protocolError,
          "Missing CRLF sequence at the end of the chunk."⟩, -1)
      else if chunkSize = 0 then
        let res := cl.invokeUpperLayer cfg cl.buffer
        if res.2 then
          ({ res.1 with mode := .readHeader, buffer := [] },
            ((consumed + size : Nat) : Int))
        else (res.1, -1)
      else
        ({ cl with buffer := cl.buffer ++ remainder.take chunkSize },
          ((consumed + size : Nat) : Int))

def handleHeader (raw remainder : List Byte) : Client × Int :=
  match ResponseHeader.parse cfg.real raw with
  | .error msg => (cl.abortAndShutdown ⟨.protocolError, msg⟩, -1)
  | .ok hdr =>
    let cl := { cl with hdr := hdr }
    if chunkedTransferEncoding hdr.fields then
      { cl with mode := .readChunks }.readChunks cfg remainder raw.length
    else
      match contentLength cfg.real hdr.fields with
      | some len =>
        if cfg.maxResponseSize < len then
          (cl.abortAndShutdown
            ⟨.protocolError, "Payload exceeds maximum size."⟩, -1)
        else
          { cl with payloadLen := len, mode := .readPayload }.readPayload
            cfg remainder raw.length
      | none =>
        let res := cl.invokeUpperLayer cfg []
        if res.2 then (res.1, (raw.length : Int)) else (res.1, -1)

def consume (input : List Byte) : Client × Int :=
  match cl.mode with
  | .readHeader =>
    if cfg.maxResponseSize < input.length then
      (cl.abortAndShutdown ⟨.protocolError, "Header exceeds maximum size."⟩, -1)
    else
      match V1.splitHeader input with
      | none => (cl, 0)
      | some (raw, remainder) => cl.handleHeader cfg raw remainder
  | .readPayload => cl.readPayload cfg input 0
  | .readChunks => cl.readChunks cfg input 0

def rest : Client := { cl with calls := [] }

def layer : Layer Client UpperCall where
  consume cl input _ :=
    { state := (cl.rest.consume cfg input).1.rest
      calls := (cl.rest.consume cfg input).1.calls
      written := input
      consumed := (cl.rest.consume cfg input).2 }
  abort cl reason := ((cl.rest.abort reason).rest, [])
  upper cl call := ((cl.rest.upperCall cfg call).rest,
    (cl.rest.upperCall cfg call).calls)

end Client

end ActorFramework.Net.Http
