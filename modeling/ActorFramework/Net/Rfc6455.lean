import ActorFramework.Core.BinaryDeserializer
import ActorFramework.Foundation.BigEndian

/-!
# WebSocket frames

The functions of `rfc6455` mask payloads, write frames and decode the headers
of frames.

A `Frame` is a frame as RFC 6455 describes it, section 5.2, together with the
choices that its sender has: the masking key, and the form in which the length
is written.
-/

namespace ActorFramework.Net.Rfc6455

open ActorFramework.Core (Byte)
open BitVec (xor_zero ofNat)
open Foundation List

inductive Opcode where
  | continuation
  | text
  | binary
  | connectionClose
  | ping
  | pong
  deriving DecidableEq

namespace Opcode

def toNat : Opcode → Nat
  | .continuation => 0x00
  | .text => 0x01
  | .binary => 0x02
  | .connectionClose => 0x08
  | .ping => 0x09
  | .pong => 0x0A

def ofNat? : Nat → Option Opcode
  | 0x00 => some .continuation
  | 0x01 => some .text
  | 0x02 => some .binary
  | 0x08 => some .connectionClose
  | 0x09 => some .ping
  | 0x0A => some .pong
  | _ => none

end Opcode

def isControlFrame (opcode : Opcode) : Bool :=
  decide (Opcode.binary.toNat < opcode.toNat)

structure Header where
  fin : Bool
  opcode : Opcode
  maskKey : BitVec 32
  payloadLen : Nat
  deriving DecidableEq

def maskLoop (arr : List Byte) : Nat → List Byte → List Byte
  | _, [] => []
  | i, x :: rest => (x ^^^ arr.getD i 0#8) :: maskLoop arr ((i + 1) % 4) rest

def maskData (key : BitVec 32) (data : List Byte) (offset : Nat) : List Byte :=
  data.take offset ++
    maskLoop (toBytes 4 key.toNat) (offset % 4) (data.drop offset)

def finFlag : Byte := 0x80#8

def lengthField (maskBit : Byte) (size : Nat) : List Byte :=
  if size < 126 then [maskBit ||| BitVec.ofNat 8 size]
  else if size ≤ 0xFFFF then (maskBit ||| 126#8) :: toBytes 2 size
  else (maskBit ||| 127#8) :: toBytes 8 size

def assembleFrame (opcode : Opcode) (maskKey : BitVec 32) (data : List Byte)
    (flags : Byte) : List Byte :=
  [flags ||| BitVec.ofNat 8 opcode.toNat] ++
    lengthField (if maskKey = 0#32 then 0x00#8 else 0x80#8) data.length ++
    (if maskKey = 0#32 then [] else toBytes 4 maskKey.toNat) ++
    data

/-- The result of `decode_header`: zero, a negative number, or the number of
bytes in the header. -/
inductive Decoded where
  | wait
  | malformed
  | done (hdr : Header) (size : Nat)
  deriving DecidableEq

def lengthBytes (lenField : Nat) : Nat :=
  if lenField < 126 then 0 else if lenField = 126 then 2 else 8

def decodeHeader (data : List Byte) : Decoded :=
  match data with
  | byte1 :: byte2 :: rest =>
    let masked := byte2 &&& 0x80#8 != 0#8
    let lenField := (byte2 &&& 0x7F#8).toNat
    let headerLength :=
      2 + lengthBytes lenField + (if masked then 4 else 0)
    if data.length < headerLength then .wait
    else
      let payloadLen :=
        if lenField < 126 then lenField
        else ofBytes (rest.take (lengthBytes lenField))
      let maskKey :=
        if masked then
          BitVec.ofNat 32 (ofBytes ((rest.drop (lengthBytes lenField)).take 4))
        else 0#32
      -- No extension bits allowed.
      if byte1 &&& 0x70#8 != 0#8 then .malformed
      else
        match Opcode.ofNat? (byte1 &&& 0x0F#8).toNat with
        | some opcode =>
          .done ⟨byte1 &&& 0x80#8 != 0#8, opcode, maskKey, payloadLen⟩
            headerLength
        | none => .malformed
  | _ => .wait

inductive Form where
  | short
  | medium
  | long
  deriving DecidableEq

namespace Form

def field : Form → Nat → Nat
  | .short, n => n
  | .medium, _ => 126
  | .long, _ => 127

def width : Form → Nat
  | .short => 0
  | .medium => 2
  | .long => 8

def Fits : Form → Nat → Prop
  | .short, n => n < 126
  | .medium, n => n < 256 ^ 2
  | .long, n => n < 256 ^ 8

instance (form : Form) (n : Nat) : Decidable (form.Fits n) :=
  match form with
  | .short => inferInstanceAs (Decidable (n < 126))
  | .medium => inferInstanceAs (Decidable (n < 256 ^ 2))
  | .long => inferInstanceAs (Decidable (n < 256 ^ 8))

def minimal (n : Nat) : Form :=
  if n < 126 then .short else if n ≤ 0xFFFF then .medium else .long

end Form

structure Frame where
  fin : Bool
  opcode : Opcode
  mask : Option (BitVec 32)
  form : Form
  payload : List Byte
  deriving DecidableEq

namespace Frame

variable (f : Frame)

def Fits : Prop := f.form.Fits f.payload.length

instance (f : Frame) : Decidable f.Fits :=
  inferInstanceAs (Decidable (f.form.Fits f.payload.length))

def key : BitVec 32 := f.mask.getD 0#32

def header : Header := ⟨f.fin, f.opcode, f.key, f.payload.length⟩

def keyBytes : List Byte :=
  match f.mask with
  | some key => toBytes 4 key.toNat
  | none => []

def headerBytes : List Byte :=
  [BitVec.ofNat 8 ((if f.fin then 128 else 0) + f.opcode.toNat),
    BitVec.ofNat 8 ((if f.mask.isSome then 128 else 0) +
      f.form.field f.payload.length)] ++
    toBytes f.form.width f.payload.length ++ f.keyBytes

def sent : List Byte :=
  match f.mask with
  | some key => maskData key f.payload 0
  | none => f.payload

def encode : List Byte := f.headerBytes ++ f.sent

end Frame

def wire (frames : List Frame) : List Byte := frames.flatMap Frame.encode

@[simp] theorem length_maskLoop (arr : List Byte) (i : Nat)
    (data : List Byte) : (maskLoop arr i data).length = data.length := by
  induction data generalizing i with
  | nil => rfl
  | cons x rest ih => simp [maskLoop, ih]

variable {i n : Nat} {form : Form} {f : Frame}

theorem drop_maskLoop (arr : List Byte) (hi : i < 4) (n : Nat)
    (data : List Byte) :
    (maskLoop arr i data).drop n =
      maskLoop arr ((i + n) % 4) (data.drop n) := by
  induction data generalizing i n with
  | nil => simp [maskLoop]
  | cons x rest ih =>
    cases n with
    | zero => simp [Nat.mod_eq_of_lt hi]
    | succ n =>
      simp only [maskLoop, drop_succ_cons]
      rw [ih (Nat.mod_lt _ (by decide)), Nat.mod_add_mod]
      congr 1
      omega

theorem take_maskLoop (arr : List Byte) (i n : Nat) (data : List Byte) :
    (maskLoop arr i data).take n = maskLoop arr i (data.take n) := by
  induction data generalizing i n with
  | nil => simp [maskLoop]
  | cons x rest ih =>
    cases n with
    | zero => rfl
    | succ n => simp only [maskLoop, take_succ_cons, ih]

theorem maskLoop_maskLoop (arr : List Byte) (i : Nat) (data : List Byte) :
    maskLoop arr i (maskLoop arr i data) = data := by
  induction data generalizing i with
  | nil => rfl
  | cons x rest ih =>
    simp only [maskLoop, ih, BitVec.xor_assoc, BitVec.xor_self, xor_zero]

theorem maskLoop_zero (data : List Byte) :
    maskLoop (toBytes 4 0) i data = data := by
  have hzero : toBytes 4 0 = [0#8, 0#8, 0#8, 0#8] := by decide
  have hget : ∀ i, (toBytes 4 0).getD i 0#8 = 0#8 := by
    intro i
    rw [hzero]
    rcases i with _ | _ | _ | _ | i <;> rfl
  induction data generalizing i with
  | nil => rfl
  | cons x rest ih => simp only [maskLoop, hget, xor_zero, ih]

@[simp] theorem length_maskData (key : BitVec 32) (data : List Byte)
    (offset : Nat) : (maskData key data offset).length = data.length := by
  simp only [maskData, length_append, length_maskLoop, length_take, length_drop]
  omega

theorem maskData_zero (data : List Byte) (offset : Nat) :
    maskData 0#32 data offset = data := by
  simp [maskData, maskLoop_zero]

theorem Frame.sent_eq (f : Frame) : f.sent = maskData f.key f.payload 0 := by
  unfold Frame.sent Frame.key
  cases f.mask with
  | none => exact (maskData_zero _ _).symm
  | some key => rfl

@[simp] theorem Frame.length_sent (f : Frame) :
    f.sent.length = f.payload.length := by
  rw [f.sent_eq, length_maskData]

theorem maskData_resume {key : BitVec 32} {payload raw : List Byte} {d : Nat}
    (hraw : raw <+: maskData key payload 0) (hd : d ≤ raw.length) :
    maskData key (payload.take d ++ raw.drop d) d =
      payload.take raw.length := by
  have hlen : raw.length ≤ payload.length := by
    simpa using hraw.length_le
  have htake : (payload.take d).length = d :=
    length_take_of_le (Nat.le_trans hd hlen)
  have hmasked : raw = maskLoop (toBytes 4 key.toNat) 0
      (payload.take raw.length) := by
    have hprefix := prefix_iff_eq_take.mp hraw
    simpa only [maskData, take_zero, nil_append, Nat.zero_mod,
      drop_zero, take_maskLoop] using hprefix
  have hdrop : raw.drop d = maskLoop (toBytes 4 key.toNat) (d % 4)
      ((payload.take raw.length).drop d) := by
    conv => lhs; rw [hmasked]
    rw [drop_maskLoop _ (by decide), Nat.zero_add]
  simp only [maskData, take_left' htake, drop_left' htake]
  rw [hdrop, maskLoop_maskLoop]
  have hsame : payload.take d = (payload.take raw.length).take d := by
    rw [take_take, Nat.min_eq_left hd]
  rw [hsame, take_append_drop]

theorem first_byte (fin : Bool) (opcode : Opcode) :
    let byte := ofNat 8 ((if fin then 128 else 0) + opcode.toNat)
    (byte &&& 0x80#8 != 0#8) = fin ∧ (byte &&& 0x70#8 != 0#8) = false ∧
      Opcode.ofNat? (byte &&& 0x0F#8).toNat = some opcode := by
  cases fin <;> cases opcode <;> decide

theorem second_byte (masked : Bool) {field : Nat} (h : field < 128) :
    let byte := ofNat 8 ((if masked then 128 else 0) + field)
    (byte &&& 0x80#8 != 0#8) = masked ∧ (byte &&& 0x7F#8).toNat = field := by
  revert field masked
  decide +kernel

theorem Form.field_lt (h : form.Fits n) : form.field n < 128 := by
  cases form with
  | short => exact Nat.lt_trans h (by decide)
  | medium => simp [Form.field]
  | long => simp [Form.field]

theorem Form.lengthBytes_field (h : form.Fits n) :
    lengthBytes (form.field n) = form.width := by
  cases form with
  | short => exact if_pos h
  | medium => rfl
  | long => rfl

theorem Form.length_read (h : form.Fits n) :
    (if form.field n < 126 then form.field n
      else ofBytes (toBytes form.width n)) = n := by
  cases form with
  | short => exact if_pos h
  | medium | long =>
    refine (if_neg (by simp [Form.field])).trans ?_
    rw [ofBytes_toBytes]
    exact Nat.mod_eq_of_lt h

section

variable (f : Frame)

theorem Frame.length_keyBytes :
    f.keyBytes.length = if f.mask.isSome then 4 else 0 := by
  unfold Frame.keyBytes
  cases f.mask <;> simp

theorem Frame.length_headerBytes :
    f.headerBytes.length =
      2 + f.form.width + (if f.mask.isSome then 4 else 0) := by
  simp only [Frame.headerBytes, length_append, length_cons,
    length_nil, length_toBytes, f.length_keyBytes]

theorem Frame.headerBytes_pos : 0 < f.headerBytes.length := by
  rw [f.length_headerBytes]
  omega

theorem Frame.length_headerBytes_le : f.headerBytes.length ≤ 14 := by
  rw [f.length_headerBytes]
  cases f.form <;> cases f.mask.isSome <;> decide

theorem Frame.key_read (rest : List Byte) :
    (if f.mask.isSome then
      ofNat 32 (ofBytes ((f.keyBytes ++ rest).take 4)) else 0#32) =
      f.key := by
  unfold Frame.keyBytes Frame.key
  cases f.mask with
  | none => rfl
  | some key =>
    have hkey : key.toNat % 256 ^ 4 = key.toNat :=
      Nat.mod_eq_of_lt (by simpa using key.isLt)
    simp only [Option.isSome_some, if_true, Option.getD_some]
    rw [take_left' (length_toBytes 4 _), ofBytes_toBytes, hkey]
    exact BitVec.ofNat_toNat 32 key

end

theorem decodeHeader_encode (h : f.Fits) (rest : List Byte) :
    decodeHeader (f.headerBytes ++ rest) =
      .done f.header f.headerBytes.length := by
  obtain ⟨hfin, hrsv, hopcode⟩ := first_byte f.fin f.opcode
  obtain ⟨hmasked, hfield⟩ := second_byte f.mask.isSome (Form.field_lt h)
  have hwidth := Form.lengthBytes_field h
  unfold decodeHeader
  simp only [Frame.headerBytes, cons_append, nil_append, hfin, hrsv,
    hopcode, hmasked, hfield, hwidth, Bool.false_eq_true, if_false,
    append_assoc, take_left' (length_toBytes _ _),
    drop_left' (length_toBytes _ _), f.key_read, Form.length_read h]
  rw [if_neg]
  · simp only [Frame.header, length_cons, length_append,
      length_toBytes, f.length_keyBytes]
    congr 1
    omega
  · simp only [length_cons, length_append, length_toBytes, f.length_keyBytes]
    omega

/-- The size of a header depends on its second byte only. -/
theorem decodeHeader_wait (h : f.Fits) {byte1 : Byte} {bytes : List Byte}
    (hstart : bytes <+: byte1 :: f.headerBytes.drop 1)
    (hshort : bytes.length < f.headerBytes.length) :
    decodeHeader bytes = .wait := by
  obtain ⟨hmasked, hfield⟩ := second_byte f.mask.isSome (Form.field_lt h)
  rw [f.length_headerBytes, ← Form.lengthBytes_field h] at hshort
  rcases bytes with _ | ⟨byte1, _ | ⟨byte2, rest⟩⟩
  · rfl
  · rfl
  · simp only [Frame.headerBytes, cons_append, nil_append,
      drop_succ_cons, drop_zero, cons_prefix_cons] at hstart
    obtain ⟨-, rfl, -⟩ := hstart
    simp only [decodeHeader, hmasked, hfield]
    exact if_pos hshort

theorem or_flags (opcode : Opcode) (flags : Byte)
    (h : (flags ||| ofNat 8 opcode.toNat) &&& 0x7F#8 = ofNat 8 opcode.toNat) :
    flags ||| ofNat 8 opcode.toNat = ofNat 8
      ((if flags &&& 0x80#8 != 0#8 then 128 else 0) + opcode.toNat) := by
  revert flags
  cases opcode <;> decide +kernel

theorem or_maskBit (masked : Bool) {field : Nat} (h : field < 128) :
    (if masked then 0x80#8 else 0x00#8) ||| ofNat 8 field =
      ofNat 8 ((if masked then 128 else 0) + field) := by
  revert field masked
  decide +kernel

theorem lengthField_eq (masked : Bool) (size : Nat) :
    lengthField (if masked then 0x80#8 else 0x00#8) size =
      ofNat 8 ((if masked then 128 else 0) +
        (Form.minimal size).field size) ::
        toBytes (Form.minimal size).width size := by
  unfold lengthField Form.minimal
  split
  · rw [or_maskBit masked (by omega)]
    rfl
  · split
    · exact congrArg (· :: toBytes 2 size) (or_maskBit masked (by decide))
    · exact congrArg (· :: toBytes 8 size) (or_maskBit masked (by decide))

def Frame.assembled (opcode : Opcode) (maskKey : BitVec 32)
    (payload : List Byte) : Frame :=
  ⟨true, opcode, if maskKey = 0#32 then none else some maskKey,
    .minimal payload.length, payload⟩

theorem Frame.key_assembled (opcode : Opcode) (maskKey : BitVec 32)
    (payload : List Byte) :
    (Frame.assembled opcode maskKey payload).key = maskKey := by
  by_cases hkey : maskKey = 0#32 <;> simp [Frame.assembled, Frame.key, hkey]

theorem assembleFrame_append (opcode : Opcode) (maskKey : BitVec 32)
    (data : List Byte) (flags : Byte) :
    assembleFrame opcode maskKey data flags =
      (flags ||| ofNat 8 opcode.toNat) ::
        (Frame.assembled opcode maskKey data).headerBytes.drop 1 ++ data := by
  have hfield := lengthField_eq (maskKey != 0#32) data.length
  by_cases hkey : maskKey = 0#32
  · simp [hkey] at hfield
    simp [hkey, hfield, assembleFrame, Frame.headerBytes, Frame.keyBytes,
      Frame.assembled]
  · simp [hkey] at hfield
    simp [hkey, hfield, assembleFrame, Frame.headerBytes, Frame.keyBytes,
      Frame.assembled]

/-- Masking a payload and then passing it to `assemble_frame` sends a frame
with this payload. -/
theorem assembleFrame_eq (opcode : Opcode) (maskKey : BitVec 32)
    (payload : List Byte) :
    assembleFrame opcode maskKey (maskData maskKey payload 0) finFlag =
      (Frame.assembled opcode maskKey payload).encode := by
  rw [assembleFrame_append, Frame.encode, Frame.sent_eq, Frame.key_assembled,
    or_flags opcode finFlag (by cases opcode <;> decide)]
  simp [Frame.headerBytes, Frame.assembled, finFlag, Frame.keyBytes]

theorem maskData_maskData (key : BitVec 32) (data : List Byte)
    (offset : Nat) : maskData key (maskData key data offset) offset = data := by
  rcases Nat.le_total offset data.length with hle | hle
  · have htake := length_take_of_le hle
    simp [maskData, take_left' htake, drop_left' htake, maskLoop_maskLoop]
  · simp [maskData, maskLoop, take_of_length_le hle, drop_eq_nil_of_le hle]

theorem maskData_append (key : BitVec 32) (data more : List Byte) :
    maskData key (maskData key data 0 ++ more) data.length =
      maskData key (data ++ more) 0 := by
  have hlen := length_maskData key data 0
  have hwhole := take_append_drop data.length
    (maskData key (data ++ more) 0)
  simp only [maskData, take_zero, nil_append, Nat.zero_mod,
    drop_zero] at hlen hwhole ⊢
  rw [← hwhole, take_maskLoop, drop_maskLoop _ (by decide), Nat.zero_add,
    take_left, drop_left, take_left' hlen, drop_left' hlen]

def maskPieces (key : BitVec 32) (pieces : List (List Byte)) : List Byte :=
  pieces.foldl (fun done piece => maskData key (done ++ piece) done.length) []

theorem maskPieces_eq (key : BitVec 32) (pieces : List (List Byte)) :
    maskPieces key pieces = maskData key pieces.flatten 0 := by
  have hfold : ∀ data, pieces.foldl (fun done piece =>
      maskData key (done ++ piece) done.length) (maskData key data 0) =
        maskData key (data ++ pieces.flatten) 0 := by
    induction pieces with
    | nil => simp
    | cons piece pieces ih => simp [maskData_append, ih]
  exact hfold []

/-- A frame can be decoded if its flags neither change the opcode nor set bits
for extensions. -/
theorem decodes_assembled_frame (opcode : Opcode) (maskKey : BitVec 32)
    (data : List Byte) (flags : Byte) (hsize : data.length < 2 ^ 63) :
    (∃ header, assembleFrame opcode maskKey data flags = header ++ data ∧
      (∀ bytes, bytes <+: header → bytes.length < header.length →
        decodeHeader bytes = .wait) ∧
      ((flags ||| BitVec.ofNat 8 opcode.toNat) &&& 0x7F#8 =
          BitVec.ofNat 8 opcode.toNat →
        decodeHeader (assembleFrame opcode maskKey data flags) =
          .done ⟨flags &&& 0x80#8 != 0#8, opcode, maskKey, data.length⟩
            header.length)) ∧
      (∀ offset, maskData maskKey (maskData maskKey data offset) offset =
        data) ∧
      (∀ pieces, pieces.flatten = data →
        maskPieces maskKey pieces = maskData maskKey data 0) := by
  have hfits : (Form.minimal data.length).Fits data.length := by
    unfold Form.minimal
    split
    · assumption
    · split
      · exact Nat.lt_succ_of_le ‹_›
      · exact Nat.lt_trans hsize (by decide)
  refine ⟨⟨_, assembleFrame_append opcode maskKey data flags,
    fun bytes hstart hshort => ?_, fun hflags => ?_⟩,
    maskData_maskData maskKey data, fun pieces hpieces => ?_⟩
  · refine decodeHeader_wait (f := .assembled opcode maskKey data) hfits hstart
      ?_
    simpa [Frame.headerBytes] using hshort
  · have hdecoded := decodeHeader_encode (f := { Frame.assembled opcode maskKey
      data with fin := flags &&& 0x80#8 != 0#8 }) hfits data
    rw [assembleFrame_append, or_flags opcode flags hflags]
    refine hdecoded.trans (congrArg (fun key => Decoded.done
      ⟨flags &&& 0x80#8 != 0#8, opcode, key, data.length⟩ _) ?_)
    exact Frame.key_assembled opcode maskKey data
  · rw [maskPieces_eq, hpieces]

theorem decodes_assembled_frame_medium :
    decodeHeader (assembleFrame .text 0xDEADC0DE#32 (replicate 126 0) finFlag) =
      .done ⟨true, .text, 0xDEADC0DE#32, 126⟩ 8 := by
  obtain ⟨⟨header, happend, -, hdone⟩, -⟩ :=
    decodes_assembled_frame .text 0xDEADC0DE#32 (replicate 126 0) finFlag
      (by simp)
  have hlen : 8 + 126 = header.length + 126 :=
    (by decide +kernel : 8 + 126 = _).trans
      ((congrArg length happend).trans length_append)
  rw [hdone (by decide), length_replicate,
    ← (Nat.add_right_cancel hlen : 8 = _)]
  rfl

/-- Frames with a bit for extensions are rejected. -/
theorem extension_bit_malformed :
    decodeHeader (assembleFrame .text 0#32 [] 0x40#8) = .malformed := by
  decide

end ActorFramework.Net.Rfc6455
