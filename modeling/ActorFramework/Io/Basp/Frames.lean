import ActorFramework.Core.BinaryRoundTrip
import ActorFramework.Io.Basp.Header

/-!
# BASP frames

A frame is a header and its payload.  `write` leaves room for the header, writes
the payload, and goes back to write the header with the size of the payload.
`forward` has both from another connection.
-/

namespace ActorFramework.Io.Basp

open ActorFramework.Core Foundation List Serializer Header Reader

structure Frame where
  hdr : Header
  payload : List Byte
  deriving DecidableEq

def MessageType.toInteger : MessageType → Byte
  | .serverHandshake => 0
  | .clientHandshake => 1
  | .directMessage => 2
  | .routedMessage => 3
  | .monitorMessage => 4
  | .downMessage => 5
  | .heartbeat => 6

theorem MessageType.fromInteger_toInteger (operation : MessageType) :
    fromInteger operation.toInteger = some operation := by
  cases operation <;> rfl

namespace Header

def headerSize : Nat := 32

def save (hdr : Header) (sink : Serializer) : Serializer :=
  let sink := sink.byte hdr.operation.toInteger
  let sink := sink.byte 0
  let sink := sink.byte 0
  let sink := sink.byte hdr.flags
  let sink := sink.intValue hdr.payloadLen
  let sink := sink.intValue hdr.operationData
  let sink := sink.intValue hdr.sourceActor
  sink.intValue hdr.destActor

def bytes (hdr : Header) : List Byte :=
  [hdr.operation.toInteger] ++ ([0] ++ ([0] ++ ([hdr.flags] ++
    (toBytes 4 hdr.payloadLen.toNat ++ (toBytes 8 hdr.operationData.toNat ++
      (toBytes 8 hdr.sourceActor.toNat ++ toBytes 8 hdr.destActor.toNat))))))

theorem length_bytes (hdr : Header) : hdr.bytes.length = headerSize := by
  simp [bytes, headerSize]

theorem save_eq (hdr : Header) (sink : Serializer) :
    hdr.save sink = sink.value hdr.bytes := by
  simp [save, byte_eq, intValue, value_value, bytes]

theorem reads_load (hdr : Header) : Reads load hdr.bytes hdr := by
  refine (reads_byte hdr.operation.toInteger).bind ?_
  rw [MessageType.fromInteger_toInteger]
  refine (reads_byte 0).bind ((reads_byte 0).bind
    ((reads_byte hdr.flags).bind ?_))
  refine (reads_int (k := 4) rfl hdr.payloadLen).bind ?_
  refine (reads_int (k := 8) rfl hdr.operationData).bind ?_
  refine (reads_int (k := 8) rfl hdr.sourceActor).bind ?_
  exact (reads_int (k := 8) rfl hdr.destActor).map _

end Header

/-- The bytes a payload writer puts into the sink, call after call, and its
result. -/
structure PayloadWriter where
  parts : List (List Byte)
  ok : Bool

def PayloadWriter.run (pw : PayloadWriter) (sink : Serializer) : Serializer :=
  pw.parts.foldl Serializer.value sink

theorem PayloadWriter.run_eq (pw : PayloadWriter) (sink : Serializer) :
    pw.run sink = sink.value pw.parts.flatten := by
  obtain ⟨parts, ok⟩ := pw
  change parts.foldl value sink = sink.value parts.flatten
  induction parts generalizing sink with
  | nil => exact sink.value_nil.symm
  | cons part parts ih =>
    rw [foldl_cons, ih, value_value]
    rfl

theorem buf_run_skip (pw : PayloadWriter) (buf : List Byte) :
    (pw.run ((new buf).skip headerSize)).buf =
      buf ++ (List.replicate headerSize 0 ++ pw.parts.flatten) := by
  have hskip : (new buf).skip headerSize =
      new (buf ++ List.replicate headerSize 0) := by
    apply ext
    · simp [skip, new]
    · simp [skip, new]
  rw [pw.run_eq, hskip, value_new, append_assoc]
  rfl

def write (buf : List Byte) (hdr : Header) : Option PayloadWriter → List Byte
  | none => (hdr.save (Serializer.new buf)).buf
  | some pw =>
    let headerOffset := buf.length
    let sink := pw.run ((Serializer.new buf).skip Header.headerSize)
    if pw.ok then
      let payloadLen :=
        sink.buf.length - (headerOffset + Header.headerSize)
      let hdr := { hdr with payloadLen := BitVec.ofNat 32 payloadLen }
      (hdr.save (sink.seek headerOffset (by
        rw [buf_run_skip, List.length_append]
        exact Nat.le_add_right _ _))).buf
    else sink.buf

def forward (buf : List Byte) (hdr : Header) (payload : List Byte) :
    List Byte :=
  ((hdr.save (Serializer.new buf)).value payload).buf

inductive Output where
  | write (hdr : Header) (pw : Option PayloadWriter)
  | forward (hdr : Header) (payload : List Byte)

namespace Output

def append (buf : List Byte) : Output → List Byte
  | .write hdr pw => Basp.write buf hdr pw
  | .forward hdr payload => Basp.forward buf hdr payload

def frame : Output → Frame
  | .write hdr none => ⟨hdr, []⟩
  | .write hdr (some pw) =>
    ⟨{ hdr with payloadLen := BitVec.ofNat 32 pw.parts.flatten.length },
      pw.parts.flatten⟩
  | .forward hdr payload => ⟨hdr, payload⟩

def Succeeds : Output → Prop
  | .write _ (some pw) => pw.ok = true
  | _ => True

end Output

namespace Frame

def bytes (frame : Frame) : List Byte := frame.hdr.bytes ++ frame.payload

structure Valid (frame : Frame) : Prop where
  hdr : frame.hdr.valid = true
  size : frame.hdr.payloadLen.toNat = frame.payload.length

end Frame

theorem append_eq (buf : List Byte) {output : Output}
    (h : output.Succeeds) : output.append buf = buf ++ output.frame.bytes := by
  have hheader : ∀ hdr : Header, hdr.save (new buf) =
      new (buf ++ hdr.bytes) := by
    intro hdr
    rw [save_eq, value_new]
  cases output with
  | forward hdr payload =>
    change ((hdr.save (new buf)).value payload).buf = _
    rw [hheader, value_new, Frame.bytes, ← append_assoc]
    rfl
  | write hdr pw =>
    cases pw with
    | none =>
      change (hdr.save (new buf)).buf = _
      rw [hheader, Frame.bytes]
      exact congrArg (buf ++ ·) (append_nil _).symm
    | some pw =>
      have hok : pw.ok = true := h
      have hlen : (pw.run
          ((new buf).skip headerSize)).buf.length -
          (buf.length + headerSize) = pw.parts.flatten.length := by
        rw [buf_run_skip]
        simp only [length_append, length_replicate]
        omega
      simp only [Output.append, Basp.write, hok, if_true, hlen]
      rw [save_eq, buf_value]
      change (pw.run _).buf.take buf.length ++ (_ ++
        (pw.run _).buf.drop (buf.length + _)) = _
      rw [buf_run_skip, length_bytes, take_left, ← drop_drop, drop_left,
        drop_left' length_replicate]
      rfl

theorem enough_data {front : List Byte} {size : Nat}
    (hsize : front.length = size) (hne : front ≠ []) (rest : List Byte) :
    ¬(front ++ rest = [] ∨ (front ++ rest).length < size) := by
  rw [length_append, hsize]
  rintro (hnil | hlt)
  · exact hne (append_eq_nil_iff.mp hnil).1
  · omega

structure Endpoint where
  state : ConnectionState
  hdr : Header

inductive Received where
  | malformed
  | await (hdr : Header)
  | message (hdr : Header) (payload : Option (List Byte))
  deriving DecidableEq

namespace Endpoint

def readSize (ep : Endpoint) : Nat :=
  if ep.state = .awaitPayload then ep.hdr.payloadLen.toNat
  else Header.headerSize

/-- `instance::handle` for new data, up to the call for a whole message. -/
def receive (ep : Endpoint) (buf : List Byte) : Received :=
  if ep.state = .awaitPayload then
    if buf.length ≠ ep.hdr.payloadLen.toNat then .malformed
    else .message ep.hdr (some buf)
  else
    match Header.load buf with
    | none => .malformed
    | some (hdr, _) =>
      if hdr.valid = false then .malformed
      else if hdr.payloadLen ≠ 0 then .await hdr
      else .message hdr none

def read (ep : Endpoint) (input : List Byte) :
    Nat → List Frame × Endpoint × List Byte
  | 0 => ([], ep, input)
  | fuel + 1 =>
    if input = [] ∨ input.length < ep.readSize then ([], ep, input)
    else
      let rest := input.drop ep.readSize
      match ep.receive (input.take ep.readSize) with
      | .malformed => ([], ⟨.malformedMessage, ep.hdr⟩, rest)
      | .await hdr => read ⟨.awaitPayload, hdr⟩ rest fuel
      | .message hdr payload =>
        let (frames, last) := read ⟨.awaitHeader, hdr⟩ rest fuel
        (⟨hdr, payload.getD []⟩ :: frames, last)

variable {ep : Endpoint} {hdr : Header}

theorem arrives {frame : Frame} (hframe : frame.Valid)
    (hstate : ep.state = .awaitHeader) :
    frame.hdr.bytes.length = ep.readSize ∧ frame.hdr.bytes ≠ [] ∧
      (frame.hdr.payloadLen = 0 ∧ frame.payload = [] ∧
          ep.receive frame.hdr.bytes = .message frame.hdr none ∨
        frame.hdr.payloadLen ≠ 0 ∧ frame.payload ≠ [] ∧
          ep.receive frame.hdr.bytes = .await frame.hdr) := by
  have hsize := hframe.size
  have hload := frame.hdr.reads_load []
  rw [append_nil] at hload
  have hreceive : ep.receive frame.hdr.bytes =
      if frame.hdr.payloadLen ≠ 0 then .await frame.hdr
      else .message frame.hdr none := by
    rw [receive, if_neg (by rw [hstate]; decide), hload]
    simp [hframe.hdr]
  refine ⟨?_, ?_, ?_⟩
  · rw [readSize, if_neg (by rw [hstate]; decide), length_bytes]
  · rw [← length_pos_iff, length_bytes]
    decide
  · by_cases hpay : frame.hdr.payloadLen = 0
    · rw [hpay] at hsize
      rw [if_neg (by simpa using hpay)] at hreceive
      exact .inl ⟨hpay, eq_nil_of_length_eq_zero hsize.symm, hreceive⟩
    · refine .inr ⟨hpay, fun hnil => ?_, hreceive.trans (if_pos hpay)⟩
      rw [hnil] at hsize
      exact hpay (BitVec.eq_of_toNat_eq hsize)

theorem receive_payload {payload : List Byte}
    (hsize : hdr.payloadLen.toNat = payload.length) :
    receive ⟨.awaitPayload, hdr⟩ payload = .message hdr (some payload) := by
  rw [receive, if_pos rfl, if_neg (by simp [hsize])]

theorem read_front {front rest : List Byte}
    (hsize : front.length = ep.readSize) (hne : front ≠ []) (fuel : Nat) :
    ep.read (front ++ rest) (fuel + 1) =
      match ep.receive front with
      | .malformed => ([], ⟨.malformedMessage, ep.hdr⟩, rest)
      | .await hdr => read ⟨.awaitPayload, hdr⟩ rest fuel
      | .message hdr payload =>
        let (frames, last) := read ⟨.awaitHeader, hdr⟩ rest fuel
        (⟨hdr, payload.getD []⟩ :: frames, last) := by
  rw [read, if_neg (enough_data hsize hne rest)]
  simp [← hsize]

theorem read_frame (hstate : ep.state = .awaitHeader) {frame : Frame}
    (hframe : frame.Valid) (rest : List Byte) (fuel : Nat) :
    ∃ left, fuel ≤ left ∧
      ep.read (frame.bytes ++ rest) (fuel + 2) =
        (frame :: (read ⟨.awaitHeader, frame.hdr⟩ rest left).1,
          (read ⟨.awaitHeader, frame.hdr⟩ rest left).2) := by
  obtain ⟨hdr, payload⟩ := frame
  have hsize : hdr.payloadLen.toNat = payload.length := hframe.size
  obtain ⟨hheader, hne, ⟨-, rfl, hreceive⟩ | ⟨-, hnonempty, hreceive⟩⟩ :=
    arrives hframe hstate
  · refine ⟨fuel + 1, Nat.le_succ fuel, ?_⟩
    rw [Frame.bytes, append_nil, read_front hheader hne, hreceive]
    rfl
  · refine ⟨fuel, Nat.le_refl fuel, ?_⟩
    rw [Frame.bytes, append_assoc, read_front hheader hne, hreceive]
    change read ⟨.awaitPayload, hdr⟩ (payload ++ rest) (fuel + 1) = _
    rw [read_front hsize.symm hnonempty, receive_payload hsize]
    rfl

theorem read_nil (ep : Endpoint) (fuel : Nat) :
    ep.read [] fuel = ([], ep, []) := by
  cases fuel with
  | zero => rfl
  | succ fuel => rw [read, if_pos (.inl rfl)]

theorem read_frames {frames : List Frame} (h : ∀ frame ∈ frames, frame.Valid)
    (hstate : ep.state = .awaitHeader) {fuel : Nat}
    (hfuel : 2 * frames.length ≤ fuel) :
    ∃ last, last.state = .awaitHeader ∧
      ep.read (frames.flatMap Frame.bytes) fuel = (frames, last, []) := by
  induction frames generalizing ep fuel with
  | nil => exact ⟨ep, hstate, ep.read_nil fuel⟩
  | cons frame frames ih =>
    rw [length_cons] at hfuel
    obtain ⟨fuel, rfl⟩ := Nat.exists_eq_add_of_le' (show 2 ≤ fuel by omega)
    obtain ⟨left, hleft, hread⟩ := read_frame hstate
      (h frame mem_cons_self) (frames.flatMap Frame.bytes) fuel
    obtain ⟨last, hlast, hrest⟩ := @ih ⟨.awaitHeader, frame.hdr⟩
      (fun f hf => h f (mem_cons_of_mem frame hf)) rfl left (by omega)
    refine ⟨last, hlast, ?_⟩
    rw [flatMap_cons, hread, hrest]

end Endpoint

theorem foldl_append {outputs : List Output}
    (h : ∀ output ∈ outputs, output.Succeeds) (buf : List Byte) :
    outputs.foldl Output.append buf =
      buf ++ (outputs.map Output.frame).flatMap Frame.bytes := by
  induction outputs generalizing buf with
  | nil => exact (append_nil buf).symm
  | cons output outputs ih =>
    rw [foldl_cons, append_eq buf (h output mem_cons_self),
      ih (fun o ho => h o (mem_cons_of_mem output ho)),
      map_cons, flatMap_cons, append_assoc]

theorem length_le_bytes (frames : List Frame) :
    2 * frames.length ≤ (frames.flatMap Frame.bytes).length := by
  induction frames with
  | nil => exact Nat.le_refl 0
  | cons frame frames ih =>
    have hheader := frame.hdr.length_bytes
    change _ = 32 at hheader
    rw [flatMap_cons, Frame.bytes, length_append, length_append, length_cons]
    omega

end ActorFramework.Io.Basp
