import ActorFramework.Core.Inspector
import ActorFramework.Core.StringAlgorithms
import ActorFramework.Foundation.BigEndian

/-!
# The binary serializer

The serializer writes at a position of its buffer, which is the end unless the
position was moved.  Serializer and deserializer are the two inspectors of the
binary format.
-/

namespace ActorFramework.Core

open Foundation

structure Serializer where
  buf : List Byte
  writePos : Nat
  inside : writePos ≤ buf.length

namespace Serializer

def new (buf : List Byte) : Serializer := ⟨buf, buf.length, Nat.le_refl _⟩

variable (s : Serializer)

def seek (offset : Nat) (h : offset ≤ s.buf.length) :
    Serializer := ⟨s.buf, offset, h⟩

def skip (numBytes : Nat) : Serializer where
  buf := s.buf ++ List.replicate (numBytes - (s.buf.length - s.writePos)) 0#8
  writePos := s.writePos + numBytes
  inside := by
    have h := s.inside
    rw [List.length_append, List.length_replicate]
    omega

/-- `value(const_byte_span)`: append, overwrite, or both. -/
def value (x : List Byte) : Serializer :=
  if h : s.writePos = s.buf.length then
    ⟨s.buf ++ x, s.writePos + x.length, by simp [h]⟩
  else if h : s.writePos + x.length ≤ s.buf.length then
    ⟨s.buf.take s.writePos ++ (x ++ s.buf.drop (s.writePos + x.length)),
      s.writePos + x.length, by
        simp only [List.length_append, List.length_take, List.length_drop]
        omega⟩
  else
    let remaining := s.buf.length - s.writePos
    ⟨s.buf.take s.writePos ++ x.take remaining ++ x.drop remaining,
      s.writePos + x.length, by
        have hpos := s.inside
        simp only [List.length_append, List.length_take, List.length_drop]
        omega⟩

def byte (x : Byte) : Serializer :=
  if h : s.writePos = s.buf.length then
    ⟨s.buf ++ [x], s.writePos + 1, by simp [h]⟩
  else
    ⟨s.buf.set s.writePos x, s.writePos + 1, by
      have hpos := s.inside
      rw [List.length_set]
      omega⟩

def intValue {w : Nat} (s : Serializer) (x : BitVec w) : Serializer :=
  s.value (toBytes (w / 8) x.toNat)

def int : (w : Width) → BitVec w.bits → Serializer
  | .w8, x => s.byte x
  | .w16, x => s.intValue x
  | .w32, x => s.intValue x
  | .w64, x => s.intValue x

def bool (x : Bool) : Serializer :=
  s.byte (if x then 1#8 else 0#8)

/-- The loop of `begin_sequence`; there is room for 16 digits. -/
def varbyte : Nat → BitVec 32 → List Byte
  | 0, _ => []
  | room + 1, x =>
    if 0x7f#32 < x then
      (x.setWidth 8 &&& 0x7f#8 ||| 0x80#8) :: varbyte room (x >>> 7)
    else [x.setWidth 8 &&& 0x7f#8]

def beginSequence (listSize : Nat) : Serializer :=
  s.value (varbyte 16 (BitVec.ofNat 32 listSize))

def string (x : List Byte) : Serializer :=
  (s.beginSequence x.length).value x

def wideString {w : Nat} (s : Serializer) (x : List (BitVec w)) : Serializer :=
  x.foldl intValue (s.beginSequence x.length)

def block : List Bool → Byte
  | [] => 0#8
  | x :: xs => (if x then 1#8 <<< xs.length else 0#8) ||| block xs

def boolBlocks : Nat → List Bool → Serializer → Serializer
  | 0, xs, s => if 0 < xs.length then s.byte (block xs) else s
  | blocks + 1, xs, s =>
    boolBlocks blocks (xs.drop 8) (s.byte (block (xs.take 8)))

def bools (xs : List Bool) : Serializer :=
  boolBlocks (xs.length / 8) xs (s.beginSequence xs.length)

end Serializer

def indexWidth (types : Nat) : Width :=
  if types < 127 then .w8
  else if types < 32767 then .w16
  else if types < 2147483647 then .w32
  else .w64

def compressIndex (w : Width) (isPresent : Bool) (index : Nat) :
    BitVec w.bits :=
  if isPresent then BitVec.ofNat w.bits index else BitVec.allOnes w.bits

def binarySerializer {ε : Type} : SaveInspector Serializer ε where
  beginObject _ _ s := .ok s
  endObject s := .ok s
  beginField _ s := .ok s
  beginOptionalField _ isPresent s :=
    .ok (s.byte (if isPresent then 1#8 else 0#8))
  beginVariantField _ types index s :=
    .ok (s.int (indexWidth types.length) (BitVec.ofNat _ index))
  beginOptionalVariantField _ isPresent types index s :=
    .ok (s.int (indexWidth types.length) (compressIndex _ isPresent index))
  endField s := .ok s
  beginTuple _ s := .ok s
  endTuple s := .ok s
  beginKeyValuePair s := .ok s
  endKeyValuePair s := .ok s
  beginSequence n s := .ok (s.beginSequence n)
  endSequence s := .ok s
  beginAssociativeArray n s := .ok (s.beginSequence n)
  endAssociativeArray s := .ok s
  bool x s := .ok (s.bool x)
  int _ w x s := .ok (s.int w x)
  string x s := .ok (s.string x)
  u16string x s := .ok (s.wideString x)
  u32string x s := .ok (s.wideString x)
  bools x s := .ok (s.bools x)

namespace Reader

def integer : (w : Width) → Reader (BitVec w.bits)
  | .w8 => byte
  | .w16 => int 16
  | .w32 => int 32
  | .w64 => int 64

def bool : Reader Bool := do
  let tmp ← byte
  pure (tmp != 0#8)

/-- The size of the characters is checked before any of them is read. -/
def wideString (w : Nat) : Reader (List (BitVec w)) := do
  let size ← beginSequence
  let input ← get
  if size * (w / 8) ≤ input.length then tuple (int w) size else failure

def blockBits : Nat → Byte → List Bool
  | 0, _ => []
  | n + 1, x => (x &&& 1#8 <<< n != 0#8) :: blockBits n x

def boolBlocks : Nat → Reader (List Bool)
  | 0 => pure []
  | blocks + 1 => do
      let tmp ← byte
      let xs ← boolBlocks blocks
      pure (blockBits 8 tmp ++ xs)

def bools : Reader (List Bool) := do
  let len ← beginSequence
  let xs ← boolBlocks (len / 8)
  if 0 < len % 8 then do
    let tmp ← byte
    pure (xs ++ blockBits (len % 8) tmp)
  else pure xs

end Reader

inductive BinaryError where
  | endOfStream
  | invalidFieldType (what : List Byte)
  | runtimeError (what : List Byte)

def BinaryError.ofLoadError : LoadError → BinaryError
  | .invalidFieldType fieldName => .invalidFieldType fieldName
  | .multipleKeyDefinitions => .runtimeError (ascii "multiple key definitions")

namespace Deserializer

variable {τ : Type}

def read (reader : Reader τ) (input : List Byte) :
    Except BinaryError (τ × List Byte) :=
  match reader input with
  | none => .error .endOfStream
  | some result => .ok result

def indexOutOfBounds : BinaryError :=
  .invalidFieldType (ascii "received type index out of bounds")

def variantIndex (types : Nat) (input : List Byte) :
    Except BinaryError (Nat × List Byte) := do
  let (tmp, input) ← read (Reader.integer (indexWidth types)) input
  if tmp.msb ∨ types ≤ tmp.toNat then .error indexOutOfBounds
  else .ok (tmp.toNat, input)

def optionalVariantIndex (types : Nat) (input : List Byte) :
    Except BinaryError (Option Nat × List Byte) := do
  let (tmp, input) ← read (Reader.integer (indexWidth types)) input
  if tmp.msb then .ok (none, input)
  else if types ≤ tmp.toNat then .error indexOutOfBounds
  else .ok (some tmp.toNat, input)

end Deserializer

open Deserializer in
def binaryDeserializer : LoadInspector (List Byte) BinaryError where
  beginObject _ _ input := .ok input
  endObject input := .ok input
  beginField _ input := .ok input
  beginOptionalField _ := read Reader.isPresent
  beginVariantField _ types := variantIndex types.length
  beginOptionalVariantField _ types := optionalVariantIndex types.length
  endField input := .ok input
  beginTuple _ input := .ok input
  endTuple input := .ok input
  beginKeyValuePair input := .ok input
  endKeyValuePair input := .ok input
  beginSequence := read Reader.beginSequence
  endSequence input := .ok input
  beginAssociativeArray := read Reader.beginSequence
  endAssociativeArray input := .ok input
  bool := read Reader.bool
  int _ w := read (Reader.integer w)
  string := read Reader.string
  u16string := read (Reader.wideString 16)
  u32string := read (Reader.wideString 32)
  bools := read Reader.bools
  emplaceError := BinaryError.ofLoadError

end ActorFramework.Core
