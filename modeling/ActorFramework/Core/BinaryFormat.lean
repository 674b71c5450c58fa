import ActorFramework.Core.BinarySerializer

/-!
# The binary format

`encode` is the byte representation of a value.  The serializer writes it at
its position, however many calls that takes.  A reader that decodes the bytes of
a value leaves what follows them.
-/

namespace ActorFramework.Core

open Foundation List
open SaveInspector (list keyValuePair optionalField field optionalVariantField)

namespace Serializer

@[ext] theorem ext {s s' : Serializer} (hbuf : s.buf = s'.buf)
    (hpos : s.writePos = s'.writePos) : s = s' := by
  cases s
  cases s'
  cases hbuf
  cases hpos
  rfl

section

variable (s : Serializer)

@[simp] theorem writePos_value (x : List Byte) :
    (s.value x).writePos = s.writePos + x.length := by
  rw [value]
  split
  · rfl
  · split <;> rfl

theorem buf_value (x : List Byte) :
    (s.value x).buf =
      s.buf.take s.writePos ++ (x ++ s.buf.drop (s.writePos + x.length)) := by
  rw [value]
  split
  · rename_i h
    change s.buf ++ x = _
    rw [h, take_length, drop_eq_nil_of_le (by omega), append_nil]
  · split
    · rfl
    · change s.buf.take s.writePos ++ x.take _ ++ x.drop _ = _
      rw [append_assoc, take_append_drop,
        drop_eq_nil_of_le (by omega), append_nil]

theorem value_nil : s.value [] = s := by
  apply ext
  · simp [buf_value]
  · simp

theorem value_value (x y : List Byte) :
    (s.value x).value y = s.value (x ++ y) := by
  have hpos := s.inside
  apply ext
  · have hlen : (s.buf.take s.writePos ++ x).length =
        s.writePos + x.length := by
      rw [length_append, length_take]
      omega
    have hbuf : (s.value x).buf = s.buf.take s.writePos ++ x ++
        s.buf.drop (s.writePos + x.length) := by
      rw [buf_value, append_assoc]
    have hdrop : (s.value x).buf.drop (s.writePos + x.length + y.length) =
        s.buf.drop (s.writePos + (x ++ y).length) := by
      rw [hbuf, drop_append, drop_eq_nil_of_le (by omega),
        nil_append, drop_drop, hlen, length_append]
      congr 1
      omega
    rw [buf_value, writePos_value, hdrop, hbuf, take_left' hlen, buf_value]
    simp
  · simp [Nat.add_assoc]

theorem byte_eq (x : Byte) : s.byte x = s.value [x] := by
  have hpos := s.inside
  apply ext
  · rw [buf_value, byte]
    split_ifs with h
    · change s.buf ++ [x] = _
      rw [h, take_length, drop_eq_nil_of_le (by simp)]
      rfl
    · change s.buf.set s.writePos x = _
      rw [set_eq_take_append_cons_drop, if_pos (by omega)]
      rfl
  · rw [writePos_value, byte]
    split <;> rfl

end

theorem value_new (buf x : List Byte) : (new buf).value x = new (buf ++ x) := by
  apply ext
  · simp [buf_value, new]
  · simp [new]

end Serializer

open Serializer

def sizeBytes (n : Nat) : List Byte := varbyte 16 (BitVec.ofNat 32 n)

def intBytes : (w : Width) → BitVec w.bits → List Byte
  | .w8, x => [x]
  | .w16, x => toBytes 2 x.toNat
  | .w32, x => toBytes 4 x.toNat
  | .w64, x => toBytes 8 x.toNat

def boolByte (x : Bool) : Byte := if x then 1#8 else 0#8

def wideBytes {w : Nat} (x : List (BitVec w)) : List Byte :=
  x.flatMap fun c => toBytes (w / 8) c.toNat

def blockBytes : Nat → List Bool → List Byte
  | 0, xs => if 0 < xs.length then [block xs] else []
  | blocks + 1, xs => block (xs.take 8) :: blockBytes blocks (xs.drop 8)

theorem int_eq (s : Serializer) (w : Width) (x : BitVec w.bits) :
    s.int w x = s.value (intBytes w x) := by
  cases w with
  | w8 => exact s.byte_eq x
  | w16 => rfl
  | w32 => rfl
  | w64 => rfl

theorem wideString_eq {w : Nat} (s : Serializer) (x : List (BitVec w)) :
    s.wideString x = s.value (sizeBytes x.length ++ wideBytes x) := by
  have hloop : ∀ s : Serializer,
      x.foldl intValue s = s.value (wideBytes x) := by
    induction x with
    | nil => exact fun s => s.value_nil.symm
    | cons c x ih =>
      intro s
      rw [foldl_cons, ih, intValue, value_value]
      rfl
  rw [wideString, hloop, beginSequence, value_value]
  rfl

theorem boolBlocks_eq (blocks : Nat) (xs : List Bool) (s : Serializer) :
    boolBlocks blocks xs s = s.value (blockBytes blocks xs) := by
  induction blocks generalizing xs s with
  | zero =>
    rw [boolBlocks, blockBytes]
    split
    · exact s.byte_eq _
    · exact s.value_nil.symm
  | succ blocks ih =>
    rw [boolBlocks, ih, byte_eq, value_value]
    rfl

theorem bools_eq (s : Serializer) (xs : List Bool) :
    s.bools xs =
      s.value (sizeBytes xs.length ++ blockBytes (xs.length / 8) xs) := by
  rw [bools, boolBlocks_eq, beginSequence, value_value]
  rfl

def indexBytes (types index : Nat) : List Byte :=
  intBytes (indexWidth types) (BitVec.ofNat _ index)

def absentBytes (types : Nat) : List Byte :=
  intBytes (indexWidth types) (BitVec.allOnes _)

section

variable {α κ ν : Type}

def listBytes (item : α → List Byte) (xs : List α) : List Byte :=
  sizeBytes xs.length ++ xs.flatMap item

def mapBytes (key : κ → List Byte) (val : ν → List Byte)
    (xs : Dictionary κ ν) : List Byte :=
  listBytes (fun entry => key entry.1 ++ val entry.2) xs.entries

def optionalBytes (item : α → List Byte) : Option α → List Byte
  | none => [boolByte false]
  | some x => boolByte true :: item x

def variantBytes (types : Nat) (typeIndex : α → Nat)
    (item : α → List Byte) (x : α) : List Byte :=
  indexBytes types (typeIndex x) ++ item x

def optionalVariantBytes (types : Nat) (typeIndex : α → Nat)
    (item : α → List Byte) : Option α → List Byte
  | none => absentBytes types
  | some x => variantBytes types typeIndex item x

end

def DataType.encode : {k : Kind} → (t : DataType k) → t.Value → List Byte
  | _, .bool => fun x => [boolByte x]
  | _, .int _ w => intBytes w
  | _, .string => fun x : List Byte => sizeBytes x.length ++ x
  | _, .u16string => fun x : List (BitVec 16) =>
    sizeBytes x.length ++ wideBytes x
  | _, .u32string => fun x : List (BitVec 32) =>
    sizeBytes x.length ++ wideBytes x
  | _, .bools => fun x : List Bool =>
    sizeBytes x.length ++ blockBytes (x.length / 8) x
  | _, .sequence item => listBytes item.encode
  | _, .map key val => mapBytes key.encode val.encode
  | _, .tuple items => items.encode
  | _, .object _ _ fields => fields.encode
  | _, .nil => fun _ => []
  | _, .cons item items => fun xs => item.encode xs.1 ++ items.encode xs.2
  | _, .done => fun _ => []
  | _, .field _ type rest => fun xs =>
    type.encode xs.1 ++ rest.encode xs.2
  | _, .optional _ type rest => fun xs =>
    optionalBytes type.encode xs.1 ++ rest.encode xs.2
  | _, @DataType.variant _ ids types rest => fun xs =>
    variantBytes ids.length types.typeIndex types.encode xs.1 ++
      rest.encode xs.2
  | _, @DataType.optionalVariant _ ids types rest => fun xs =>
    optionalVariantBytes ids.length types.typeIndex types.encode xs.1 ++
      rest.encode xs.2
  | _, .never => Empty.elim
  | _, .alternative _ type _ rest => Sum.elim type.encode rest.encode

section

variable {ε α β κ ν : Type}

def Writes (save : α → Serializer → Except ε Serializer)
    (encode : α → List Byte) : Prop :=
  ∀ x s, save x s = .ok (s.value (encode x))

variable {encode : α → List Byte} {save : α → Serializer → Except ε Serializer}

theorem writes_seq {first : α → Serializer → Except ε Serializer}
    {second : β → Serializer → Except ε Serializer} {encode' : β → List Byte}
    (h : Writes first encode) (h' : Writes second encode') :
    Writes (fun xs s => first xs.1 s >>= second xs.2)
      (fun xs : α × β => encode xs.1 ++ encode' xs.2) := by
  intro xs s
  simp [h xs.1, bind, Except.bind, h' xs.2, value_value]

theorem writes_foldlM (h : Writes save encode) (xs : List α) (s : Serializer) :
    xs.foldlM (fun s x => save x s) s = .ok (s.value (xs.flatMap encode)) := by
  induction xs generalizing s with
  | nil => exact congrArg Except.ok s.value_nil.symm
  | cons x xs ih =>
    rw [foldlM_cons, h x s, flatMap_cons, ← value_value]
    exact ih _

theorem writes_list (h : Writes save encode) :
    Writes (binarySerializer.list save) (listBytes encode) := by
  intro xs s
  have hloop := writes_foldlM h xs (s.beginSequence xs.length)
  rw [beginSequence, value_value] at hloop
  simp only [list, binarySerializer, bind, Except.bind, beginSequence, hloop]
  rfl

theorem writes_map {key : κ → Serializer → Except ε Serializer}
    {val : ν → Serializer → Except ε Serializer}
    {encodeKey : κ → List Byte} {encodeVal : ν → List Byte}
    (hkey : Writes key encodeKey) (hval : Writes val encodeVal) :
    Writes (binarySerializer.map key val) (mapBytes encodeKey encodeVal) := by
  have hpair : Writes (binarySerializer.keyValuePair key val)
      (fun entry => encodeKey entry.1 ++ encodeVal entry.2) := by
    intro entry s
    simp [keyValuePair, binarySerializer, bind, Except.bind, hkey entry.1, hval
      entry.2, value_value]
  exact fun xs s => writes_list hpair xs.entries s

section

variable (h : Writes save encode)
include h

theorem writes_optional (name : List Byte) :
    Writes (binarySerializer.optionalField name save)
      (optionalBytes encode) := by
  intro x s
  cases x with
  | none =>
    simp only [optionalField, field,
      binarySerializer, bind, Except.bind, byte_eq]
    rfl
  | some x =>
    simp only [optionalField, field,
      binarySerializer, bind, Except.bind, byte_eq, h x, value_value]
    rfl

theorem writes_variant (name : List Byte) (types : List TypeId)
    (typeIndex : α → Nat) :
    Writes (fun x => binarySerializer.field
        (binarySerializer.beginVariantField name types (typeIndex x)) (save x))
      (variantBytes types.length typeIndex encode) := by
  intro x s
  simp only [field, binarySerializer, bind, Except.bind,
    int_eq, h x, value_value]
  rfl

theorem writes_optionalVariant (name : List Byte) (types : List TypeId)
    (typeIndex : α → Nat) :
    Writes (binarySerializer.optionalVariantField name types typeIndex save)
      (optionalVariantBytes types.length typeIndex encode) := by
  intro x s
  cases x with
  | none =>
    simp only [optionalVariantField, field,
      binarySerializer, bind, Except.bind, int_eq]
    rfl
  | some x =>
    simp only [optionalVariantField, field,
      binarySerializer, bind, Except.bind, int_eq, h x, value_value]
    rfl

end

theorem writes_save {k : Kind} (t : DataType k) :
    Writes (ε := ε) (binarySerializer.save t) t.encode := by
  induction t with
  | bool => exact fun x s => congrArg Except.ok (s.byte_eq _)
  | int signed w => exact fun x s => congrArg Except.ok (int_eq s w x)
  | string => exact fun x s => congrArg Except.ok (value_value s _ x)
  | u16string | u32string =>
    exact fun x s => congrArg Except.ok (wideString_eq s x)
  | bools => exact fun x s => congrArg Except.ok (bools_eq s x)
  | sequence item ih => exact writes_list ih
  | map key val ihk ihv => exact writes_map ihk ihv
  | tuple items ih =>
    intro x s
    change binarySerializer.save items x s >>= _ = _
    rw [ih x s]
    rfl
  | object id name fields ih =>
    intro x s
    change binarySerializer.save fields x s >>= _ = _
    rw [ih x s]
    rfl
  | nil | done => exact fun x s => congrArg Except.ok s.value_nil.symm
  | cons item items ih ihs => exact writes_seq ih ihs
  | field name type rest ih ihs =>
    have hfield : Writes (ε := ε) (fun x => binarySerializer.field
        (binarySerializer.beginField name) (binarySerializer.save type x))
        type.encode := by
      intro x s
      change binarySerializer.save type x s >>= _ = _
      rw [ih x s]
      rfl
    exact writes_seq hfield ihs
  | optional name type rest ih ihs =>
    exact writes_seq (writes_optional ih name) ihs
  | variant name types rest ih ihs =>
    exact writes_seq (writes_variant ih name _ _) ihs
  | optionalVariant name types rest ih ihs =>
    exact writes_seq (writes_optionalVariant ih name _ _) ihs
  | never => exact fun x => x.elim
  | alternative id type fresh rest ih ihs =>
    intro x s
    cases x with
    | inl x => exact ih x s
    | inr x => exact ihs x s

end

end ActorFramework.Core
