import ActorFramework.Core.BinaryDeserializer
import ActorFramework.Foundation.Transition

/-!
# The octet stream transport

The transport reads from a socket into a buffer and shows the buffer to its
upper layer, which says how many bytes it has consumed.  It sets limits for
their number with `configure_read`, also from inside of `consume`, and may
write to the bytes it is shown.

The loop of `handle_buffered_data` is taken step by step.  What the upper layer
does in a call of `consume` comes with the step.
-/

namespace ActorFramework.Net

open ActorFramework.Core (Byte)
open Foundation

structure ReceivePolicy where
  minSize : Nat
  maxSize : Nat
  deriving DecidableEq

namespace ReceivePolicy

def exactly (size : Nat) : ReceivePolicy := ⟨size, size⟩

def upTo (maxSize : Nat) : ReceivePolicy := ⟨1, maxSize⟩

def stop : ReceivePolicy := ⟨0, 0⟩

end ReceivePolicy

inductive Sec where
  | runtimeError
  | logicError
  | socketOperationFailed
  | socketDisconnected
  | protocolError
  | malformedMessage
  | connectionClosed
  deriving DecidableEq

structure Error where
  code : Sec
  message : String := ""
  deriving DecidableEq

/-- A call of the upper layer: `restart` is `configure_read` unless
`is_reading` holds, and `output` appends to the write buffer between
`begin_output` and `end_output`. -/
inductive LowerCall where
  | configureRead (rd : ReceivePolicy)
  | restart (rd : ReceivePolicy)
  | output (bytes : List Byte)
  | shutdown

structure Start where
  calls : List LowerCall
  failed : Bool

/-- What the upper layer does in `consume`: its calls, what it leaves in the
bytes it was shown, its result, and the layer it passes to `switch_protocol`.
`abort` has the calls it makes if it is aborted next. -/
structure Reaction where
  calls : List LowerCall := []
  written : List Byte
  consumed : Int
  next : Option Start := none
  abort : List LowerCall := []

/-- The number of bytes that the transport drops after a call with `n` bytes.
It drops none if the call fails or the next layer does not start. -/
def Reaction.taken (r : Reaction) (n : Nat) : Nat :=
  if n < r.consumed.toNat ∨ (r.next.any Start.failed) then 0
  else r.consumed.toNat

/-- A call of `consume` after the first `start` bytes of the stream, with what
it was passed and how the upper layer has reacted. -/
structure ConsumeCall where
  start : Nat
  bytes : List Byte
  delta : List Byte
  offset : Nat
  written : List Byte
  consumed : Int
  taken : Nat
  switched : Bool

/-- `reading` is the registration of the socket manager, `scheduled` counts the
scheduled calls of `handle_buffered_data`, and `looping` says that its loop is
about to call `consume`.  After `closed` the upper layer is gone.

The last fields are the history: the bytes read, the same with what the upper
layer has written over them, those consumed, the calls of `consume`, and the
errors of aborts. -/
structure Transport where
  readBuf : List Byte := []
  buffered : Nat := 0
  deltaOffset : Nat := 0
  minReadSize : Nat := 0
  maxReadSize : Nat := 0
  writeBuf : List Byte := []
  wantedWrite : Bool := false
  shuttingDown : Bool := false
  reading : Bool := false
  scheduled : Nat := 0
  looping : Bool := false
  closed : Bool := false
  received : List Byte := []
  stream : List Byte := []
  taken : List Byte := []
  consumes : List ConsumeCall := []
  aborts : List Error := []

/-- The outcome of `policy_->read`.  The policy may hold more data, which is
read at once.  An error comes with the calls that the upper layer makes when it
is aborted. -/
inductive ReadResult where
  | data (chunk policyData : List Byte)
  | policyFails (chunk : List Byte) (abort : List LowerCall)
  | again
  | wantWrite
  | failed (abort : List LowerCall)
  | disconnected (abort : List LowerCall)

inductive TransportAction where
  | readEvent (res : ReadResult)
  | runScheduled
  | consume (r : Reaction)
  | call (call : LowerCall)
  | written (n : Nat)

namespace Transport

variable (t : Transport)

/-- The loop condition of `handle_buffered_data`. -/
def ready : Bool :=
  t.reading && decide (0 < t.maxReadSize) && decide (t.minReadSize ≤ t.buffered)

def loop : Transport := { t with looping := t.ready }

def configureRead (rd : ReceivePolicy) : Transport :=
  if 0 < rd.maxSize ∧ t.maxReadSize = 0 ∧ t.reading = false then
    if 0 < t.buffered ∧ rd.minSize ≤ t.buffered ∧ t.deltaOffset < t.buffered
    then
      { t with
        minReadSize := rd.minSize
        maxReadSize := rd.maxSize
        scheduled := t.scheduled + 1 }
    else
      { t with
        minReadSize := rd.minSize
        maxReadSize := rd.maxSize
        reading := true }
  else
    { t with
      minReadSize := rd.minSize
      maxReadSize := rd.maxSize
      reading := t.reading && decide (0 < rd.maxSize) }

def isReading : Bool := decide (0 < t.maxReadSize)

/-- With an empty write buffer the manager is shut down, which happens later. -/
def shutdown : Transport :=
  if t.writeBuf.isEmpty then t
  else
    { t.configureRead .stop with
      reading := false
      shuttingDown := true }

def call : LowerCall → Transport
  | .configureRead rd => t.configureRead rd
  | .restart rd => if t.isReading then t else t.configureRead rd
  | .output bytes => { t with writeBuf := t.writeBuf ++ bytes }
  | .shutdown => t.shutdown

def callAll (calls : List LowerCall) : Transport :=
  calls.foldl call t

def abort (reason : Error) (calls : List LowerCall) :
    Transport :=
  { t with aborts := t.aborts ++ [reason] }.callAll calls

def fail (reason : Error) (calls : List LowerCall) :
    Transport :=
  { t.abort reason calls with
    reading := false, looping := false, closed := true }

def size : Nat := min t.buffered t.maxReadSize

def bytes : List Byte := t.readBuf.take t.size

/-- `bytes.subspan(delta_offset_)`, which is undefined for a larger offset. -/
def delta : List Byte := t.bytes.drop t.deltaOffset

def overwrite (bytes : List Byte) : Transport :=
  { t with
    readBuf := bytes ++ t.readBuf.drop bytes.length
    stream := t.stream.take t.taken.length ++ bytes ++
      t.stream.drop (t.taken.length + bytes.length) }

def shift (n : Nat) : Transport :=
  { t with
    taken := t.taken ++ t.readBuf.take n
    buffered := t.buffered - n
    deltaOffset := 0
    readBuf :=
      if 0 < t.buffered - n then
        (t.readBuf.take t.buffered).drop n ++ t.readBuf.drop (t.buffered - n)
      else t.readBuf }

def switchToNextProtocol (next : Start) : Transport :=
  if next.failed then
    { (t.configureRead .stop).callAll next.calls with
      reading := false
      looping := false
      closed := true }
  else (t.configureRead .stop).callAll next.calls

/-- `consume` was called with `n` bytes and has returned. -/
def consumed (t : Transport) (n : Nat) (r : Reaction) : Transport :=
  if r.consumed < 0 then
    { t.abort ⟨.runtimeError, "consumed < 0"⟩ r.abort with
      reading := false
      looping := false }
  else if n < r.consumed.toNat then
    { t.abort ⟨.logicError, "consumed > buffer.size"⟩ r.abort with
      reading := false
      looping := false }
  else if r.consumed = 0 then
    match r.next with
    | some next =>
      if next.failed then t.switchToNextProtocol next
      else (t.switchToNextProtocol next).loop
    | none =>
      if n = t.size then { t with deltaOffset := n, looping := false }
      else { t with deltaOffset := n }.loop
  else
    match r.next with
    | some next =>
      if next.failed then t.switchToNextProtocol next
      else ((t.switchToNextProtocol next).shift r.consumed.toNat).loop
    | none => (t.shift r.consumed.toNat).loop

def record (r : Reaction) : Transport :=
  { t with
    consumes := t.consumes ++
      [⟨t.taken.length, t.bytes, t.delta, t.deltaOffset, r.written,
        r.consumed, r.taken t.size, r.next.isSome⟩] }

def react (r : Reaction) : Transport :=
  ((t.record r).overwrite r.written).callAll r.calls

def consume (r : Reaction) : Transport :=
  (t.react r).consumed t.size r

def grow (size : Nat) : Transport :=
  { t with
    readBuf := t.readBuf ++ List.replicate (size - t.readBuf.length) 0 }

def fill (chunk : List Byte) : Transport :=
  { t with
    readBuf := t.readBuf.take t.buffered ++ chunk ++
      t.readBuf.drop (t.buffered + chunk.length)
    buffered := t.buffered + chunk.length
    received := t.received ++ chunk
    stream := t.stream ++ chunk }

def handleReadEvent : ReadResult → Transport
  | .data chunk policyData =>
    (((t.fill chunk).grow (t.buffered + chunk.length +
      policyData.length)).fill policyData).loop
  | .policyFails chunk abort =>
    (t.fill chunk).fail ⟨.socketOperationFailed, ""⟩ abort
  | .again => t
  | .wantWrite => { t with wantedWrite := true, reading := false }
  | .failed abort => t.fail ⟨.socketOperationFailed, ""⟩ abort
  | .disconnected abort => t.fail ⟨.socketDisconnected, ""⟩ abort

def fits : ReadResult → Bool
  | .data chunk _ =>
    decide (0 < chunk.length) &&
      decide (t.buffered + chunk.length ≤ t.readBuf.length)
  | .policyFails chunk _ =>
    decide (0 < chunk.length) &&
      decide (t.buffered + chunk.length ≤ t.readBuf.length)
  | _ => true

def idle : Bool := !t.looping && !t.closed

def step : TransportAction → Option Transport
  | .readEvent res =>
    if t.idle && (t.reading || t.wantedWrite) &&
        (t.grow t.maxReadSize).fits res then
      some ({ t.grow t.maxReadSize with
        wantedWrite := false }.handleReadEvent res)
    else none
  | .runScheduled =>
    if t.idle && decide (0 < t.scheduled) then
      some { t with scheduled := t.scheduled - 1, reading := true }.loop
    else none
  | .consume r =>
    if t.looping && r.written.length == t.size then some (t.consume r)
    else none
  | .call call => if t.idle then some (t.call call) else none
  | .written n => some { t with writeBuf := t.writeBuf.drop n }

end Transport

end ActorFramework.Net
