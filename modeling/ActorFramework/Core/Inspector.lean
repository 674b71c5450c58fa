import ActorFramework.Core.BinaryDeserializer

/-!
# Inspectors

A type that can be inspected is a tree.  Its leaves are the types an inspector
knows, its nodes what `inspector_access` and the inspector bases make of
sequences, maps, tuples, objects and fields.  An inspector is a record of
operations on its own state.
-/

namespace ActorFramework.Core

inductive Width where
  | w8
  | w16
  | w32
  | w64

def Width.bits : Width → Nat
  | .w8 => 8
  | .w16 => 16
  | .w32 => 32
  | .w64 => 64

/-- A node of the tree is a type, the elements of a tuple, the fields of an
object, or the alternatives of a variant with these type IDs. -/
inductive Kind where
  | type
  | row
  | fields
  | variant (ids : List TypeId)

/-- Each alternative of a variant has a type ID of its own. -/
inductive DataType : Kind → Type where
  | bool : DataType .type
  | int (signed : Bool) (w : Width) : DataType .type
  | string : DataType .type
  | u16string : DataType .type
  | u32string : DataType .type
  | bools : DataType .type
  | sequence (item : DataType .type) : DataType .type
  | map (key val : DataType .type) : DataType .type
  | tuple (items : DataType .row) : DataType .type
  | object (id : TypeId) (name : List Byte) (fields : DataType .fields) :
      DataType .type
  | nil : DataType .row
  | cons (item : DataType .type) (items : DataType .row) : DataType .row
  | done : DataType .fields
  | field (name : List Byte) (type : DataType .type)
      (rest : DataType .fields) : DataType .fields
  | optional (name : List Byte) (type : DataType .type)
      (rest : DataType .fields) : DataType .fields
  | variant (name : List Byte) {ids : List TypeId}
      (types : DataType (.variant ids)) (rest : DataType .fields) :
      DataType .fields
  | optionalVariant (name : List Byte) {ids : List TypeId}
      (types : DataType (.variant ids)) (rest : DataType .fields) :
      DataType .fields
  | never : DataType (.variant [])
  | alternative (id : TypeId) (type : DataType .type) {ids : List TypeId}
      (fresh : id ∉ ids) (rest : DataType (.variant ids)) :
      DataType (.variant (id :: ids))

structure Dictionary (κ ν : Type) where
  entries : List (κ × ν)
  distinct : (entries.map Prod.fst).Nodup

namespace Dictionary

variable {κ ν : Type}

@[ext] theorem ext {xs ys : Dictionary κ ν} (h : xs.entries = ys.entries) :
    xs = ys := by
  cases xs
  cases ys
  cases h
  rfl

instance decEq [DecidableEq κ] [DecidableEq ν] :
    DecidableEq (Dictionary κ ν) := fun _ _ =>
  decidable_of_iff _ ⟨ext, congrArg Dictionary.entries⟩

def empty : Dictionary κ ν := ⟨[], .nil⟩

/-- `emplace` at the end; it fails for a key that is present. -/
def emplace [DecidableEq κ] (xs : Dictionary κ ν) (entry : κ × ν) :
    Option (Dictionary κ ν) :=
  if h : entry.1 ∈ xs.entries.map Prod.fst then none
  else
    some
      { entries := xs.entries ++ [entry]
        distinct := by
          rw [List.map_append]
          exact List.nodup_append.mpr ⟨xs.distinct, by simp, by
            intro x hx y hy
            rw [List.map_singleton, List.mem_singleton] at hy
            rintro rfl
            exact h (hy ▸ hx)⟩ }

end Dictionary

namespace DataType

def Value : {k : Kind} → DataType k → Type
  | _, .bool => Bool
  | _, .int _ w => BitVec w.bits
  | _, .string => List Byte
  | _, .u16string => List (BitVec 16)
  | _, .u32string => List (BitVec 32)
  | _, .bools => List Bool
  | _, .sequence item => List item.Value
  | _, .map key val => Dictionary key.Value val.Value
  | _, .tuple items => items.Value
  | _, .object _ _ fields => fields.Value
  | _, .nil => Unit
  | _, .cons item items => item.Value × items.Value
  | _, .done => Unit
  | _, .field _ type rest => type.Value × rest.Value
  | _, .optional _ type rest => Option type.Value × rest.Value
  | _, .variant _ types rest => types.Value × rest.Value
  | _, .optionalVariant _ types rest => Option types.Value × rest.Value
  | _, .never => Empty
  | _, .alternative _ type _ rest => type.Value ⊕ rest.Value

def decEq : {k : Kind} → (t : DataType k) → DecidableEq t.Value
  | _, .bool => inferInstanceAs (DecidableEq Bool)
  | _, .int _ w => inferInstanceAs (DecidableEq (BitVec w.bits))
  | _, .string => inferInstanceAs (DecidableEq (List Byte))
  | _, .u16string => inferInstanceAs (DecidableEq (List (BitVec 16)))
  | _, .u32string => inferInstanceAs (DecidableEq (List (BitVec 32)))
  | _, .bools => inferInstanceAs (DecidableEq (List Bool))
  | _, .sequence item =>
    have := item.decEq
    inferInstanceAs (DecidableEq (List item.Value))
  | _, .map key val =>
    have := key.decEq
    have := val.decEq
    inferInstanceAs (DecidableEq (Dictionary key.Value val.Value))
  | _, .tuple items => items.decEq
  | _, .object _ _ fields => fields.decEq
  | _, .nil => inferInstanceAs (DecidableEq Unit)
  | _, .cons item items =>
    have := item.decEq
    have := items.decEq
    inferInstanceAs (DecidableEq (item.Value × items.Value))
  | _, .done => inferInstanceAs (DecidableEq Unit)
  | _, .field _ type rest =>
    have := type.decEq
    have := rest.decEq
    inferInstanceAs (DecidableEq (type.Value × rest.Value))
  | _, .optional _ type rest =>
    have := type.decEq
    have := rest.decEq
    inferInstanceAs (DecidableEq (Option type.Value × rest.Value))
  | _, .variant _ types rest =>
    have := types.decEq
    have := rest.decEq
    inferInstanceAs (DecidableEq (types.Value × rest.Value))
  | _, .optionalVariant _ types rest =>
    have := types.decEq
    have := rest.decEq
    inferInstanceAs (DecidableEq (Option types.Value × rest.Value))
  | _, .never => inferInstanceAs (DecidableEq Empty)
  | _, .alternative _ type _ rest =>
    have := type.decEq
    have := rest.decEq
    inferInstanceAs (DecidableEq (type.Value ⊕ rest.Value))

instance {k : Kind} (t : DataType k) : DecidableEq t.Value := t.decEq

def size : DataType .row → Nat
  | .nil => 0
  | .cons _ items => items.size + 1

def typeIndex : {ids : List TypeId} → (t : DataType (.variant ids)) →
    t.Value → Nat
  | _, .never => Empty.elim
  | _, .alternative _ _ _ rest =>
    Sum.elim (fun _ => 0) fun x => rest.typeIndex x + 1

end DataType

structure SaveInspector (σ ε : Type) where
  beginObject : TypeId → List Byte → σ → Except ε σ
  endObject : σ → Except ε σ
  beginField : List Byte → σ → Except ε σ
  beginOptionalField : List Byte → Bool → σ → Except ε σ
  beginVariantField : List Byte → List TypeId → Nat → σ → Except ε σ
  beginOptionalVariantField :
    List Byte → Bool → List TypeId → Nat → σ → Except ε σ
  endField : σ → Except ε σ
  beginTuple : Nat → σ → Except ε σ
  endTuple : σ → Except ε σ
  beginKeyValuePair : σ → Except ε σ
  endKeyValuePair : σ → Except ε σ
  beginSequence : Nat → σ → Except ε σ
  endSequence : σ → Except ε σ
  beginAssociativeArray : Nat → σ → Except ε σ
  endAssociativeArray : σ → Except ε σ
  bool : Bool → σ → Except ε σ
  int : (signed : Bool) → (w : Width) → BitVec w.bits → σ → Except ε σ
  string : List Byte → σ → Except ε σ
  u16string : List (BitVec 16) → σ → Except ε σ
  u32string : List (BitVec 32) → σ → Except ε σ
  bools : List Bool → σ → Except ε σ

namespace SaveInspector

variable {σ ε α κ ν : Type} (f : SaveInspector σ ε)

def list (item : α → σ → Except ε σ) (xs : List α) (s : σ) : Except ε σ := do
  let s ← f.beginSequence xs.length s
  let s ← xs.foldlM (fun s x => item x s) s
  f.endSequence s

def keyValuePair (key : κ → σ → Except ε σ) (val : ν → σ → Except ε σ)
    (entry : κ × ν) (s : σ) : Except ε σ := do
  let s ← f.beginKeyValuePair s
  let s ← key entry.1 s
  let s ← val entry.2 s
  f.endKeyValuePair s

def map (key : κ → σ → Except ε σ) (val : ν → σ → Except ε σ)
    (xs : Dictionary κ ν) (s : σ) : Except ε σ := do
  let s ← f.beginAssociativeArray xs.entries.length s
  let s ← xs.entries.foldlM (fun s entry => f.keyValuePair key val entry s) s
  f.endAssociativeArray s

def field (begin : σ → Except ε σ) (body : σ → Except ε σ) (s : σ) :
    Except ε σ := do
  let s ← begin s
  let s ← body s
  f.endField s

def optionalField (name : List Byte) (item : α → σ → Except ε σ) :
    Option α → σ → Except ε σ
  | some x => f.field (f.beginOptionalField name true) (item x)
  | none => f.field (f.beginOptionalField name false) pure

def optionalVariantField (name : List Byte) (types : List TypeId)
    (typeIndex : α → Nat) (item : α → σ → Except ε σ) :
    Option α → σ → Except ε σ
  | some x =>
    f.field (f.beginOptionalVariantField name true types (typeIndex x)) (item x)
  | none => f.field (f.beginOptionalVariantField name false types 0) pure

def save : {k : Kind} → (t : DataType k) → t.Value → σ → Except ε σ
  | _, .bool, x, s => f.bool x s
  | _, .int signed w, x, s => f.int signed w x s
  | _, .string, x, s => f.string x s
  | _, .u16string, x, s => f.u16string x s
  | _, .u32string, x, s => f.u32string x s
  | _, .bools, x, s => f.bools x s
  | _, .sequence item, xs, s => f.list (save item) xs s
  | _, .map key val, xs, s => f.map (save key) (save val) xs s
  | _, .tuple items, xs, s => do
      let s ← f.beginTuple items.size s
      let s ← save items xs s
      f.endTuple s
  | _, .object id name fields, xs, s => do
      let s ← f.beginObject id name s
      let s ← save fields xs s
      f.endObject s
  | _, .nil, _, s => .ok s
  | _, .cons item items, xs, s => do
      let s ← save item xs.1 s
      save items xs.2 s
  | _, .done, _, s => .ok s
  | _, .field name type rest, xs, s => do
      let s ← f.field (f.beginField name) (save type xs.1) s
      save rest xs.2 s
  | _, .optional name type rest, xs, s => do
      let s ← f.optionalField name (save type) xs.1 s
      save rest xs.2 s
  | _, @DataType.variant name ids types rest, xs, s => do
      let s ← f.field (f.beginVariantField name ids (types.typeIndex xs.1))
        (save types xs.1) s
      save rest xs.2 s
  | _, @DataType.optionalVariant name ids types rest, xs, s => do
      let s ← f.optionalVariantField name ids types.typeIndex (save types)
        xs.1 s
      save rest xs.2 s
  | _, .alternative _ type _ rest, x, s =>
    Sum.elim (fun x => save type x s) (fun x => save rest x s) x

end SaveInspector

inductive LoadError where
  | invalidFieldType (fieldName : List Byte)
  | multipleKeyDefinitions

structure LoadInspector (σ ε : Type) where
  beginObject : TypeId → List Byte → σ → Except ε σ
  endObject : σ → Except ε σ
  beginField : List Byte → σ → Except ε σ
  beginOptionalField : List Byte → σ → Except ε (Bool × σ)
  beginVariantField : List Byte → List TypeId → σ → Except ε (Nat × σ)
  beginOptionalVariantField :
    List Byte → List TypeId → σ → Except ε (Option Nat × σ)
  endField : σ → Except ε σ
  beginTuple : Nat → σ → Except ε σ
  endTuple : σ → Except ε σ
  beginKeyValuePair : σ → Except ε σ
  endKeyValuePair : σ → Except ε σ
  beginSequence : σ → Except ε (Nat × σ)
  endSequence : σ → Except ε σ
  beginAssociativeArray : σ → Except ε (Nat × σ)
  endAssociativeArray : σ → Except ε σ
  bool : σ → Except ε (Bool × σ)
  int : (signed : Bool) → (w : Width) → σ → Except ε (BitVec w.bits × σ)
  string : σ → Except ε (List Byte × σ)
  u16string : σ → Except ε (List (BitVec 16) × σ)
  u32string : σ → Except ε (List (BitVec 32) × σ)
  bools : σ → Except ε (List Bool × σ)
  emplaceError : LoadError → ε

/-- The alternatives of a variant load the one with a given type ID. -/
def Loader (σ ε : Type) : Kind → Type → Type
  | .variant _, α => TypeId → σ → Except ε (α × σ)
  | _, α => σ → Except ε (α × σ)

namespace LoadInspector

variable {σ ε α β κ ν : Type} (f : LoadInspector σ ε)

def items (item : σ → Except ε (α × σ)) : Nat → σ → Except ε (List α × σ)
  | 0, s => .ok ([], s)
  | n + 1, s => do
      let (x, s) ← item s
      let (xs, s) ← items item n s
      .ok (x :: xs, s)

def list (item : σ → Except ε (α × σ)) (s : σ) : Except ε (List α × σ) := do
  let (size, s) ← f.beginSequence s
  let (xs, s) ← items item size s
  let s ← f.endSequence s
  .ok (xs, s)

def keyValuePair (key : σ → Except ε (κ × σ)) (val : σ → Except ε (ν × σ))
    (s : σ) : Except ε ((κ × ν) × σ) := do
  let s ← f.beginKeyValuePair s
  let (k, s) ← key s
  let (v, s) ← val s
  let s ← f.endKeyValuePair s
  .ok ((k, v), s)

def entries [DecidableEq κ] (pair : σ → Except ε ((κ × ν) × σ)) :
    Nat → Dictionary κ ν → σ → Except ε (Dictionary κ ν × σ)
  | 0, xs, s => .ok (xs, s)
  | n + 1, xs, s => do
      let (entry, s) ← pair s
      match xs.emplace entry with
      | none => .error (f.emplaceError .multipleKeyDefinitions)
      | some xs => entries pair n xs s

def map [DecidableEq κ] (key : σ → Except ε (κ × σ))
    (val : σ → Except ε (ν × σ)) (s : σ) :
    Except ε (Dictionary κ ν × σ) := do
  let (size, s) ← f.beginAssociativeArray s
  let (xs, s) ← f.entries (f.keyValuePair key val) size .empty s
  let s ← f.endAssociativeArray s
  .ok (xs, s)

def field (body : σ → Except ε (α × σ)) (s : σ) : Except ε (α × σ) := do
  let (x, s) ← body s
  let s ← f.endField s
  .ok (x, s)

variable (name : List Byte)

def plainField (item : σ → Except ε (α × σ)) (s : σ) :
    Except ε (α × σ) := do
  let s ← f.beginField name s
  f.field item s

def optionalField (item : σ → Except ε (α × σ)) (s : σ) :
    Except ε (Option α × σ) := do
  let (isPresent, s) ← f.beginOptionalField name s
  if isPresent then
    f.field (fun s => do
      let (x, s) ← item s
      .ok (some x, s)) s
  else f.field (fun s => .ok (none, s)) s

def variantValue (types : List TypeId)
    (item : TypeId → σ → Except ε (α × σ)) (typeIndex : Nat) (s : σ) :
    Except ε (α × σ) :=
  match types[typeIndex]? with
  | none => .error (f.emplaceError (.invalidFieldType name))
  | some runtimeType => item runtimeType s

def variantField (types : List TypeId)
    (item : TypeId → σ → Except ε (α × σ)) (s : σ) :
    Except ε (α × σ) := do
  let (typeIndex, s) ← f.beginVariantField name types s
  f.field (f.variantValue name types item typeIndex) s

def optionalVariantField (types : List TypeId)
    (item : TypeId → σ → Except ε (α × σ)) (s : σ) :
    Except ε (Option α × σ) := do
  let (typeIndex, s) ← f.beginOptionalVariantField name types s
  match typeIndex with
  | some typeIndex =>
    f.field (fun s => do
      let (x, s) ← f.variantValue name types item typeIndex s
      .ok (some x, s)) s
  | none => f.field (fun s => .ok (none, s)) s

def load (name : List Byte) : {k : Kind} → (t : DataType k) →
    Loader σ ε k t.Value
  | _, .bool => f.bool
  | _, .int signed w => f.int signed w
  | _, .string => f.string
  | _, .u16string => f.u16string
  | _, .u32string => f.u32string
  | _, .bools => f.bools
  | _, .sequence item => f.list (load name item)
  | _, .map key val => f.map (load name key) (load name val)
  | _, .tuple items => fun s => do
      let s ← f.beginTuple items.size s
      let (xs, s) ← load name items s
      let s ← f.endTuple s
      .ok (xs, s)
  | _, .object id objectName fields => fun s => do
      let s ← f.beginObject id objectName s
      let (xs, s) ← load name fields s
      let s ← f.endObject s
      .ok (xs, s)
  | _, .nil => fun s => .ok ((), s)
  | _, .cons item items => fun s => do
      let (x, s) ← load name item s
      let (xs, s) ← load name items s
      .ok ((x, xs), s)
  | _, .done => fun s => .ok ((), s)
  | _, .field name type rest => fun s => do
      let (x, s) ← f.plainField name (load name type) s
      let (xs, s) ← load name rest s
      .ok ((x, xs), s)
  | _, .optional name type rest => fun s => do
      let (x, s) ← f.optionalField name (load name type) s
      let (xs, s) ← load name rest s
      .ok ((x, xs), s)
  | _, @DataType.variant name ids types rest => fun s => do
      let (x, s) ← f.variantField name ids (load name types) s
      let (xs, s) ← load name rest s
      .ok ((x, xs), s)
  | _, @DataType.optionalVariant name ids types rest => fun s => do
      let (x, s) ← f.optionalVariantField name ids (load name types) s
      let (xs, s) ← load name rest s
      .ok ((x, xs), s)
  | _, .never => fun _ _ =>
    .error (f.emplaceError (.invalidFieldType name))
  | _, .alternative id type _ rest => fun runtimeType s =>
    if id = runtimeType then do
      let (x, s) ← load name type s
      .ok (Sum.inl x, s)
    else do
      let (x, s) ← load name rest runtimeType s
      .ok (Sum.inr x, s)

end LoadInspector

end ActorFramework.Core
