import ActorFramework.Net.Http.V1
import ActorFramework.Net.Stack

/-!
# The HTTP server

In each call the server passes on all requests that are complete.  Its loop
either returns, or it goes on with what is left of the input.
-/

namespace ActorFramework.Net.Http

open ActorFramework.Core

namespace Server

inductive Mode where
  | readHeader
  | readPayload
  | readChunks
  deriving DecidableEq

/-- A call of the upper layer.  `output` is any of the functions that write a
part of a response. -/
inductive UpperCall where
  | suspendReading
  | requestMessages
  | output (bytes : List Byte)
  | switchProtocol (next : Start)

structure Reply where
  calls : List UpperCall := []
  accepted : Bool := true

structure Request where
  hdr : RequestHeader
  payload : List Byte

/-- `upper` has the requests so far, with the one that is consumed at the end.
The size of requests cannot be set to zero. -/
structure Config where
  maxRequestSize : Nat
  maxRequestSize_pos : 0 < maxRequestSize
  real : List Byte → Option Int
  makeUri : List Byte → Option Uri
  upper : List Request → Reply

end Server

open Server in
/-- The last fields are the calls to the transport since the server was called,
the protocol that comes next, and the history: the requests that were passed on,
and the errors. -/
structure Server where
  mode : Mode := .readHeader
  hdr : RequestHeader := {}
  payloadLen : Nat := 0
  calls : List LowerCall := []
  next : Option Start := none
  requests : List Request := []
  aborts : List Error := []

namespace Server

variable (cfg : Config)

variable (sv : Server)

def lower (call : LowerCall) : Server :=
  { sv with calls := sv.calls ++ [call] }

def abort (reason : Error) : Server :=
  { sv with aborts := sv.aborts ++ [reason] }

def writeResponse (code : Status) (content : String) : Server :=
  sv.lower (.output
    (V1.writeResponse code (ascii "text/plain") (ascii content)))

def Config.policy : ReceivePolicy := .upTo cfg.maxRequestSize

def upperCall : UpperCall → Server
  | .suspendReading => sv.lower (.configureRead .stop)
  | .requestMessages => sv.lower (.restart cfg.policy)
  | .output bytes => sv.lower (.output bytes)
  | .switchProtocol next => { sv with next := some next }

def invokeUpperLayer (payload : List Byte) : Server × Bool :=
  let requests := sv.requests ++ [⟨sv.hdr, payload⟩]
  let reply := cfg.upper requests
  (reply.calls.foldl (upperCall cfg) { sv with requests := requests },
    reply.accepted)

/-- An iteration of the loop returns, or there is another one with the rest of
the input and the number of bytes that were consumed so far. -/
inductive Outcome where
  | returns (sv : Server) (consumed : Int)
  | again (sv : Server) (input : List Byte) (consumed : Nat)

def readHeader (input : List Byte) (consumed : Nat) : Outcome :=
  match V1.splitHeader input with
  | none =>
    if cfg.maxRequestSize ≤ input.length then
      .returns ((sv.abort
          ⟨.protocolError, "header exceeds maximum size"⟩).writeResponse
        .requestHeaderFieldsTooLarge "Header exceeds maximum size.") (-1)
    else .returns sv consumed
  | some (raw, remainder) =>
    match RequestHeader.parse cfg.makeUri raw with
    | .error msg =>
      .returns ((sv.abort
          ⟨.protocolError, "received malformed header"⟩).writeResponse
        .badRequest msg) (-1)
    | .ok hdr =>
      let sv := { sv with hdr := hdr }
      let consumed := consumed + raw.length
      if chunkedTransferEncoding hdr.fields then
        .again { sv with mode := .readChunks } remainder consumed
      else
        match contentLength cfg.real hdr.fields with
        | some len =>
          if cfg.maxRequestSize ≤ len then
            .returns ((sv.abort ⟨.protocolError,
                "payload exceeds maximum size"⟩).writeResponse
              .payloadTooLarge "Payload exceeds maximum size.") (-1)
          else
            .again { sv with payloadLen := len, mode := .readPayload }
              remainder consumed
        | none =>
          let res := sv.invokeUpperLayer cfg []
          if res.2 then .again res.1 remainder consumed
          else .returns res.1 (-1)

def readPayload (input : List Byte) (consumed : Nat) : Outcome :=
  if sv.payloadLen ≤ input.length then
    let res := sv.invokeUpperLayer cfg (input.take sv.payloadLen)
    if res.2 then
      .again { res.1 with mode := .readHeader } (input.drop sv.payloadLen)
        (consumed + sv.payloadLen)
    else .returns res.1 (-1)
  else .returns sv consumed

def iteration (input : List Byte) (consumed : Nat) : Outcome :=
  match sv.mode with
  | .readHeader => sv.readHeader cfg input consumed
  | .readPayload => sv.readPayload cfg input consumed
  | .readChunks =>
    .returns (sv.writeResponse .notImplemented
      "Chunked transfer not implemented yet.") (-1)

def loop : Nat → Server → List Byte → Nat → Server × Int
  | 0, sv, _, consumed => (sv, consumed)
  | fuel + 1, sv, input, consumed =>
    match sv.iteration cfg input consumed with
    | .returns sv consumed => (sv, consumed)
    | .again sv input consumed => loop fuel sv input consumed

/-- A request takes two iterations, and its header some bytes. -/
def consume (input : List Byte) : Server × Int :=
  loop cfg (2 * input.length + 2) sv input 0

def rest : Server := { sv with calls := [], next := none }

def layer : Layer Server UpperCall where
  consume sv input _ :=
    { state := (sv.rest.consume cfg input).1.rest
      calls := (sv.rest.consume cfg input).1.calls
      written := input
      consumed := (sv.rest.consume cfg input).2
      next := (sv.rest.consume cfg input).1.next }
  abort sv reason := ((sv.rest.abort reason).rest, [])
  upper sv call := ((sv.rest.upperCall cfg call).rest,
    (sv.rest.upperCall cfg call).calls)

end Server

end ActorFramework.Net.Http
