import ActorFramework.Core.BinaryDeserializer

/-!
# BASP headers

A header has 32 bytes.  `valid` checks for each operation which of the other
fields are zero; `payloadLen` announces how many bytes follow.
-/

namespace ActorFramework.Io.Basp

open ActorFramework.Core

inductive MessageType where
  | serverHandshake
  | clientHandshake
  | directMessage
  | routedMessage
  | monitorMessage
  | downMessage
  | heartbeat
  deriving DecidableEq

def MessageType.fromInteger (x : Byte) : Option MessageType :=
  match x.toNat with
  | 0 => some .serverHandshake
  | 1 => some .clientHandshake
  | 2 => some .directMessage
  | 3 => some .routedMessage
  | 4 => some .monitorMessage
  | 5 => some .downMessage
  | 6 => some .heartbeat
  | _ => none

structure Header where
  operation : MessageType
  flags : Byte
  payloadLen : BitVec 32
  operationData : BitVec 64
  sourceActor : ActorId
  destActor : ActorId
  deriving DecidableEq

namespace Header

def namedReceiverFlag : Byte := 0x01#8
def configServerId : ActorId := 1#64
def spawnServerId : ActorId := 2#64

def has (hdr : Header) (flag : Byte) : Bool := hdr.flags &&& flag != 0#8

def load : Reader Header := do
  let x ← Reader.byte
  match MessageType.fromInteger x with
  | none => failure
  | some operation => do
      let _ ← Reader.byte
      let _ ← Reader.byte
      let flags ← Reader.byte
      let payloadLen ← Reader.int 32
      let operationData ← Reader.int 64
      let sourceActor ← Reader.int 64
      let destActor ← Reader.int 64
      pure ⟨operation, flags, payloadLen, operationData, sourceActor, destActor⟩

def valid (hdr : Header) : Bool :=
  match hdr.operation with
  | .serverHandshake => hdr.operationData != 0
  | .clientHandshake => hdr.sourceActor == 0 && hdr.destActor == 0
  | .directMessage => hdr.destActor != 0 && hdr.payloadLen != 0
  | .routedMessage => hdr.destActor != 0 && hdr.payloadLen != 0
  | .monitorMessage => hdr.payloadLen != 0 && hdr.operationData == 0
  | .downMessage =>
    hdr.sourceActor != 0 && hdr.destActor == 0 && hdr.payloadLen != 0 &&
      hdr.operationData == 0
  | .heartbeat =>
    hdr.sourceActor == 0 && hdr.destActor == 0 && hdr.payloadLen == 0 &&
      hdr.operationData == 0

end Header

/-- Everything beyond `awaitPayload` shuts the connection down. -/
inductive ConnectionState where
  | awaitHeader
  | awaitPayload
  | closeConnection
  | incompatibleVersions
  | incompatibleApplicationIds
  | malformedMessage
  | serializingBaspPayloadFailed
  | redundantConnection
  | noRouteToReceivingNode
  deriving DecidableEq

def ConnectionState.requiresShutdown : ConnectionState → Bool
  | .awaitHeader | .awaitPayload => false
  | _ => true

inductive Sec where
  | none
  | incompatibleVersions
  | incompatibleApplicationIds
  | malformedMessage
  | serializingBaspPayloadFailed
  | redundantConnection
  | noRouteToReceivingNode
  | connectionTimeout
  | disconnectDuringHandshake
  deriving DecidableEq

def ConnectionState.toSec : ConnectionState → Sec
  | .incompatibleVersions => .incompatibleVersions
  | .incompatibleApplicationIds => .incompatibleApplicationIds
  | .malformedMessage => .malformedMessage
  | .serializingBaspPayloadFailed => .serializingBaspPayloadFailed
  | .redundantConnection => .redundantConnection
  | .noRouteToReceivingNode => .noRouteToReceivingNode
  | _ => .none

end ActorFramework.Io.Basp
