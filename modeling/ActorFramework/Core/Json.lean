import ActorFramework.Core.BinaryRoundTrip

/-!
# JSON values in the binary format

A value is saved as a variant of nine types.  Loading copies each string into
the memory of the value with a function for strings that end at a null
character.
-/

namespace ActorFramework.Core

open List
open Serializer (value_value value_nil byte_eq value_new)

inductive JsonKind where
  | value
  | array
  | object

/-- The bits of a floating point number are those that `pack754` computes.
Arrays and objects are linked lists. -/
inductive Json : JsonKind → Type where
  | null : Json .value
  | integer (x : BitVec 64) : Json .value
  | unsigned (x : BitVec 64) : Json .value
  | double (x : BitVec 64) : Json .value
  | bool (x : Bool) : Json .value
  | string (x : List Byte) : Json .value
  | array (xs : Json .array) : Json .value
  | object (members : Json .object) : Json .value
  | undefined : Json .value
  | nil : Json .array
  | cons (x : Json .value) (xs : Json .array) : Json .array
  | noMember : Json .object
  | member (key : List Byte) (val : Json .value) (members : Json .object) :
      Json .object

namespace Json

def size : {k : JsonKind} → Json k → Nat
  | _, .cons _ xs => xs.size + 1
  | _, .member _ _ members => members.size + 1
  | _, _ => 0

def beginValue (index : Nat) (s : Serializer) : Serializer :=
  s.int (indexWidth 9) (BitVec.ofNat _ index)

def save : {k : JsonKind} → Json k → Serializer → Serializer
  | _, .null, s => beginValue 0 s
  | _, .integer x, s => (beginValue 1 s).int .w64 x
  | _, .unsigned x, s => (beginValue 2 s).int .w64 x
  | _, .double x, s => (beginValue 3 s).int .w64 x
  | _, .bool x, s => (beginValue 4 s).bool x
  | _, .string x, s => (beginValue 5 s).string x
  | _, .array xs, s => xs.save ((beginValue 6 s).beginSequence xs.size)
  | _, .object members, s =>
    members.save ((beginValue 7 s).beginSequence members.size)
  | _, .undefined, s => beginValue 8 s
  | _, .nil, s => s
  | _, .cons x xs, s => xs.save (x.save s)
  | _, .noMember, s => s
  | _, .member key val members, s => members.save (val.save (s.string key))

def notNull (c : Byte) : Bool := c != 0#8

/-- A copy with `strncpy`, which stops at a null character and fills up the
destination with zeros. -/
def realloc (str : List Byte) : List Byte :=
  let copied := str.takeWhile notNull
  copied ++ List.replicate (str.length - copied.length) 0#8

section Load

variable {τ : Type}

abbrev Load (τ : Type) := List Byte → Except BinaryError (τ × List Byte)

def loadString (input : List Byte) :
    Except BinaryError (List Byte × List Byte) := do
  let (tmp, input) ← Deserializer.read Reader.string input
  .ok (realloc tmp, input)

def loadArray (load : Load (Json .value)) : Nat → Load (Json .array)
  | 0, input => .ok (.nil, input)
  | n + 1, input => do
      let (x, input) ← load input
      let (xs, input) ← loadArray load n input
      .ok (.cons x xs, input)

def loadObject (load : Load (Json .value)) : Nat → Load (Json .object)
  | 0, input => .ok (.noMember, input)
  | n + 1, input => do
      let (key, input) ← loadString input
      let (val, input) ← load input
      let (members, input) ← loadObject load n input
      .ok (.member key val members, input)

def loadAs (make : τ → Json .value) (load : Load τ) (input : List Byte) :
    Except BinaryError (Json .value × List Byte) := do
  let (x, input) ← load input
  .ok (make x, input)

def sized (loop : Nat → Load τ) (input : List Byte) :
    Except BinaryError (τ × List Byte) := do
  let (size, input) ← Deserializer.read Reader.beginSequence input
  loop size input

def loadData (load : Load (Json .value)) : Nat → Load (Json .value)
  | 0 => fun input => .ok (.null, input)
  | 1 => loadAs .integer (Deserializer.read (Reader.integer .w64))
  | 2 => loadAs .unsigned (Deserializer.read (Reader.integer .w64))
  | 3 => loadAs .double (Deserializer.read (Reader.integer .w64))
  | 4 => loadAs .bool (Deserializer.read Reader.bool)
  | 5 => loadAs .string loadString
  | 6 => loadAs .array (sized (loadArray load))
  | 7 => loadAs .object (sized (loadObject load))
  | _ => fun input => .ok (.undefined, input)

/-- Each value takes at least one byte, so there is a bound for the number of
values inside of each other. -/
def loadValue : Nat → Load (Json .value)
  | 0, _ => .error .endOfStream
  | fuel + 1, input => do
      let (index, input) ← Deserializer.variantIndex 9 input
      loadData (loadValue fuel) index input

end Load

def load (input : List Byte) : Except BinaryError (Json .value × List Byte) :=
  loadValue (input.length + 1) input

def Kept (str : List Byte) : Prop :=
  str.length < 2 ^ 32 ∧ ∀ c ∈ str.dropWhile notNull, c = 0#8

def Loadable : {k : JsonKind} → Json k → Prop
  | _, .string x => Kept x
  | _, .array xs => xs.size < 2 ^ 32 ∧ xs.Loadable
  | _, .object members => members.size < 2 ^ 32 ∧ members.Loadable
  | _, .cons x xs => x.Loadable ∧ xs.Loadable
  | _, .member key val members =>
    Kept key ∧ val.Loadable ∧ members.Loadable
  | _, _ => True

theorem length_realloc (str : List Byte) :
    (realloc str).length = str.length := by
  have hle := (@List.takeWhile_prefix _ str notNull).length_le
  simp only [realloc, length_append, length_replicate]
  omega

variable {str bytes input rest : List Byte} {τ α : Type} {n index fuel : Nat}
  {k : JsonKind}

theorem realloc_eq (h : Kept str) : realloc str = str := by
  have hsplit := @List.takeWhile_append_dropWhile _ notNull str
  have hlen := congrArg List.length hsplit
  rw [length_append] at hlen
  have hzeros := eq_replicate_iff.mpr ⟨rfl, h.2⟩
  rw [realloc, ← hlen, Nat.add_sub_cancel_left, ← hzeros, hsplit]

theorem kept_realloc (h : str.length < 2 ^ 32) : Kept (realloc str) := by
  refine ⟨(length_realloc str).symm ▸ h, ?_⟩
  intro c hc
  rw [realloc, dropWhile_append_of_pos (all_eq_true.mp all_takeWhile)] at hc
  exact eq_of_mem_replicate ((dropWhile_sublist _).mem hc)

def loadKind : (k : JsonKind) → Nat → Nat → Load (Json k)
  | .value, fuel, _ => loadValue fuel
  | .array, fuel, n => loadArray (loadValue fuel) n
  | .object, fuel, n => loadObject (loadValue fuel) n

def Restores {k : JsonKind} (x : Json k) (bytes : List Byte) : Prop :=
  (∀ s, x.save s = s.value bytes) ∧
    ∀ fuel, bytes.length ≤ fuel → Decodes (loadKind k fuel x.size) bytes x

variable {read : Load τ} {x : τ} {loop : Nat → Load τ}

theorem decodes_as (make : τ → Json .value) (h : Decodes read bytes x) :
    Decodes (loadAs make read) bytes (make x) :=
  fun rest => ok_bind (h rest) rfl

theorem decodes_loadString (h : Kept str) :
    Decodes loadString (sizeBytes str.length ++ str) str := by
  intro rest
  exact ok_bind (decodes_read (Reader.reads_string h.1) rest)
    (by simp only [realloc_eq h])

theorem decodes_sized (hn : n < 2 ^ 32) (h : Decodes (loop n) bytes x) :
    Decodes (sized loop) (sizeBytes n ++ bytes) x := by
  intro rest
  rw [append_assoc]
  exact ok_bind (decodes_read (Reader.reads_beginSequence hn) _) (h rest)

theorem restores_value {x : Json .value} {data : List Byte}
    (hindex : index < 9)
    (hsave : ∀ s, x.save s = (beginValue index s).value data)
    (hload : ∀ fuel, data.length ≤ fuel →
      Decodes (loadData (loadValue fuel) index) data x) :
    ∃ bytes, Restores x bytes := by
  refine ⟨indexBytes 9 index ++ data, fun s => ?_, fun fuel hfuel rest => ?_⟩
  · rw [hsave, beginValue, int_eq, value_value]
    rfl
  · have hlen : (indexBytes 9 index).length = 1 := rfl
    rw [length_append, hlen] at hfuel
    obtain ⟨fuel, rfl⟩ := Nat.exists_eq_add_of_le hfuel
    rw [append_assoc, loadKind, Nat.add_assoc, Nat.add_comm 1, loadValue]
    exact ok_bind (decodes_variantIndex hindex (by decide) _)
      (hload _ (Nat.le_add_right _ _) rest)

theorem restores_loop {xs : Json k} {make : Json k → Json .value}
    (hindex : index < 9)
    (hsave : ∀ s, (make xs).save s =
      xs.save ((beginValue index s).beginSequence xs.size))
    (hload : ∀ fuel, loadData (loadValue fuel) index =
      loadAs make (sized (loadKind k fuel))) (hsize : xs.size < 2 ^ 32)
    (h : ∃ bytes, Restores xs bytes) : ∃ bytes, Restores (make xs) bytes := by
  obtain ⟨bytes, hsaved, hloaded⟩ := h
  refine @restores_value index _ (sizeBytes xs.size ++ bytes) hindex
    (fun s => ?_) (fun fuel hfuel => ?_)
  · rw [hsave, hsaved, Serializer.beginSequence, value_value]
    rfl
  · rw [length_append] at hfuel
    rw [hload]
    exact decodes_as make (decodes_sized hsize (hloaded fuel (by omega)))

theorem save_string (s : Serializer) (x : List Byte) :
    s.string x = s.value (sizeBytes x.length ++ x) :=
  s.value_value _ x

theorem exists_restores (x : Json k) (h : x.Loadable) :
    ∃ bytes, Restores x bytes := by
  have hint := fun x : BitVec 64 => decodes_read (Reader.reads_integer .w64 x)
  have hsaved := fun (s : Serializer) (x : BitVec 64) => int_eq s .w64 x
  induction x with
  | null =>
    exact restores_value (by decide : 0 < 9)
      (fun s => (value_nil _).symm) (fun fuel _ rest => rfl)
  | integer x =>
    exact restores_value (by decide : 1 < 9) (fun s => hsaved _ x)
      (fun fuel _ => decodes_as .integer (hint x))
  | unsigned x =>
    exact restores_value (by decide : 2 < 9) (fun s => hsaved _ x)
      (fun fuel _ => decodes_as .unsigned (hint x))
  | double x =>
    exact restores_value (by decide : 3 < 9) (fun s => hsaved _ x)
      (fun fuel _ => decodes_as .double (hint x))
  | bool x =>
    exact restores_value (by decide : 4 < 9) (fun s => byte_eq _ _)
      (fun fuel _ => decodes_as .bool (decodes_read (Reader.reads_bool x)))
  | string x =>
    exact restores_value (by decide : 5 < 9) (fun s => save_string _ x)
      (fun fuel _ => decodes_as .string (decodes_loadString h))
  | array xs ih =>
    exact restores_loop (by decide : 6 < 9) (fun s => rfl) (fun fuel => rfl)
      h.1 (ih h.2)
  | object members ih =>
    exact restores_loop (by decide : 7 < 9) (fun s => rfl) (fun fuel => rfl)
      h.1 (ih h.2)
  | undefined =>
    exact restores_value (by decide : 8 < 9)
      (fun s => (value_nil _).symm) (fun fuel _ rest => rfl)
  | nil | noMember =>
    exact ⟨[], fun s => s.value_nil.symm, fun fuel _ rest => rfl⟩
  | cons x xs ih ih' =>
    obtain ⟨bytes, hsave, hload⟩ := ih h.1
    obtain ⟨bytes', hsave', hload'⟩ := ih' h.2
    refine ⟨bytes ++ bytes', fun s => ?_, fun fuel hfuel rest => ?_⟩
    · rw [save, hsave, hsave', value_value]
    · rw [length_append] at hfuel
      rw [append_assoc]
      exact ok_bind (hload fuel (by omega) _)
        (ok_bind (hload' fuel (by omega) rest) rfl)
  | member key val members ih ih' =>
    obtain ⟨bytes, hsave, hload⟩ := ih h.2.1
    obtain ⟨bytes', hsave', hload'⟩ := ih' h.2.2
    refine ⟨sizeBytes key.length ++ key ++ (bytes ++ bytes'), fun s => ?_,
      fun fuel hfuel rest => ?_⟩
    · rw [save, save_string, hsave, hsave', value_value, value_value]
    · simp only [length_append] at hfuel
      rw [append_assoc, append_assoc bytes]
      exact ok_bind (decodes_loadString h.1 _)
        (ok_bind (hload fuel (by omega) _)
          (ok_bind (hload' fuel (by omega) rest) rfl))

theorem of_bind {β : Type} {m : Except BinaryError α}
    {f : α → Except BinaryError β} {r : β} (h : m >>= f = .ok r) :
    ∃ x, m = .ok x ∧ f x = .ok r := by
  cases m with
  | error err => cases h
  | ok x => exact ⟨x, rfl, h⟩

theorem of_read {reader : Reader α} {r : α × List Byte}
    (h : Deserializer.read reader input = .ok r) : reader input = some r := by
  unfold Deserializer.read at h
  split at h
  · cases h
  · rename_i hread
    cases h
    exact hread

theorem size_lt (h : Reader.beginSequence input = some (n, rest)) :
    n < 2 ^ 32 := by
  obtain ⟨x, -, hx⟩ := Option.bind_eq_some_iff.mp h
  cases hx
  exact x.1.isLt

theorem kept_loadString (h : loadString input = .ok (str, rest)) :
    Kept str := by
  obtain ⟨⟨tmp, left⟩, hread, hstr⟩ := of_bind h
  cases hstr
  obtain ⟨⟨n, left'⟩, hsize, hbytes⟩ :=
    Option.bind_eq_some_iff.mp (of_read hread)
  obtain ⟨hle, hbytes⟩ := Option.ite_none_right_eq_some.mp hbytes
  cases hbytes
  apply kept_realloc
  rw [length_take_of_le hle]
  exact size_lt hsize

theorem loadable_loadArray {read : Load (Json .value)}
    (hread : ∀ {input rest x}, read input = .ok (x, rest) → x.Loadable)
    {xs : Json .array} (h : loadArray read n input = .ok (xs, rest)) :
    xs.size = n ∧ xs.Loadable := by
  induction n generalizing input xs with
  | zero =>
    cases h
    exact ⟨rfl, trivial⟩
  | succ n ih =>
    obtain ⟨⟨x, left⟩, hx, h⟩ := of_bind h
    obtain ⟨⟨xs, left'⟩, hxs, h⟩ := of_bind h
    cases h
    exact ⟨congrArg (· + 1) (ih hxs).1, hread hx, (ih hxs).2⟩

theorem loadable_loadObject {read : Load (Json .value)}
    (hread : ∀ {input rest x}, read input = .ok (x, rest) → x.Loadable)
    {members : Json .object}
    (h : loadObject read n input = .ok (members, rest)) :
    members.size = n ∧ members.Loadable := by
  induction n generalizing input members with
  | zero =>
    cases h
    exact ⟨rfl, trivial⟩
  | succ n ih =>
    obtain ⟨⟨key, left⟩, hkey, h⟩ := of_bind h
    obtain ⟨⟨val, left'⟩, hval, h⟩ := of_bind h
    obtain ⟨⟨members, left''⟩, hmembers, h⟩ := of_bind h
    cases h
    exact ⟨congrArg (· + 1) (ih hmembers).1, kept_loadString hkey, hread hval,
      (ih hmembers).2⟩

theorem of_as {make : τ → Json .value} {x : Json .value}
    (h : loadAs make read input = .ok (x, rest)) :
    ∃ y, read input = .ok (y, rest) ∧ make y = x := by
  obtain ⟨⟨y, left⟩, hread, h⟩ := of_bind h
  cases h
  exact ⟨y, hread, rfl⟩

theorem of_sized (h : sized loop input = .ok (x, rest)) :
    ∃ n left, n < 2 ^ 32 ∧ loop n left = .ok (x, rest) := by
  obtain ⟨⟨n, left⟩, hsize, h⟩ := of_bind h
  exact ⟨n, left, size_lt (of_read hsize), h⟩

theorem loadable_loadData {x : Json .value}
    (hread : ∀ {input rest x}, loadValue fuel input = .ok (x, rest) →
      x.Loadable) (h : loadData (loadValue fuel) index input = .ok (x, rest)) :
    x.Loadable := by
  unfold loadData at h
  split at h
  · cases h
    trivial
  · obtain ⟨y, -, rfl⟩ := of_as h
    trivial
  · obtain ⟨y, -, rfl⟩ := of_as h
    trivial
  · obtain ⟨y, -, rfl⟩ := of_as h
    trivial
  · obtain ⟨y, -, rfl⟩ := of_as h
    trivial
  · obtain ⟨str, hstr, rfl⟩ := of_as h
    exact kept_loadString hstr
  · obtain ⟨xs, hxs, rfl⟩ := of_as h
    obtain ⟨n, left, hsize, hxs⟩ := of_sized hxs
    obtain ⟨rfl, hall⟩ := loadable_loadArray hread hxs
    exact ⟨hsize, hall⟩
  · obtain ⟨members, hmembers, rfl⟩ := of_as h
    obtain ⟨n, left, hsize, hmembers⟩ := of_sized hmembers
    obtain ⟨rfl, hall⟩ := loadable_loadObject hread hmembers
    exact ⟨hsize, hall⟩
  · cases h
    trivial

theorem loadable_loadValue {x : Json .value}
    (h : loadValue fuel input = .ok (x, rest)) : x.Loadable := by
  induction fuel generalizing input rest x with
  | zero => cases h
  | succ fuel ih =>
    obtain ⟨⟨index, left⟩, -, h⟩ := of_bind h
    exact loadable_loadData ih h

/-- A value is restored if and only if it can be the result of loading. -/
theorem load_save_iff (x : Json .value) :
    (∃ rest, load (x.save (.new [])).buf = .ok (x, rest)) ↔ x.Loadable := by
  constructor
  · rintro ⟨rest, h⟩
    exact loadable_loadValue h
  · intro h
    obtain ⟨bytes, hsave, hload⟩ := exists_restores x h
    have hread := hload (bytes.length + 1) (Nat.le_succ _) []
    rw [List.append_nil] at hread
    rw [hsave, value_new]
    exact ⟨[], hread⟩

/-- The characters after a null character become null characters. -/
theorem load_save_null_character :
    load (save (.string [97#8, 0#8, 98#8]) (.new [])).buf =
      .ok (.string [97#8, 0#8, 0#8], []) := by
  rfl

end Json

end ActorFramework.Core
