import ActorFramework.Core.Parser

/-!
# Percent encoding

The characters of a URI that stand for themselves and those that are escaped.
The percent sign itself is not escaped.
-/

namespace ActorFramework.Core.Uri

open List ActorFramework.Core.Parser

def appendHex (c : Byte) : List Byte :=
  [digitByte (c.toNat / 16), digitByte (c.toNat % 16)]

def encodeChar (isPath : Bool) (ch : Byte) : List Byte :=
  if ch ∈ ascii ":/" ∧ isPath then [ch]
  else if ch ∈ ascii ":/ ?#[]@!$&'\"()*+,;=" then 37#8 :: appendHex ch
  else [ch]

def encode (isPath : Bool) (x : List Byte) : List Byte :=
  x.flatMap (encodeChar isPath)

def hexByte (a b : Byte) : Byte :=
  match complete (readUnsignedInteger 8) [48#8, 120#8, a, b] with
  | .ok val => BitVec.ofInt 8 val
  | .error _ => 63#8

def decode : List Byte → List Byte
  | ch :: a :: b :: str =>
    if ch = 37#8 then hexByte a b :: decode str
    else ch :: decode (a :: b :: str)
  | str => str

variable {isPath : Bool} {c : Byte} {s : List Byte}

@[simp]
theorem encode_cons :
    encode isPath (c :: s) = encodeChar isPath c ++ encode isPath s :=
  flatMap_cons

theorem encodeChar_cases (isPath : Bool) (c : Byte) :
    encodeChar isPath c = [c] ∨
      c ≠ 37#8 ∧ encodeChar isPath c = 37#8 :: appendHex c ∧
        ∀ str, decode (37#8 :: appendHex c ++ str) = c :: decode str := by
  have hspecial : ∀ c ∈ ascii ":/ ?#[]@!$&'\"()*+,;=", c ≠ 37#8 ∧
      hexByte (digitByte (c.toNat / 16)) (digitByte (c.toNat % 16)) = c := by
    decide
  unfold encodeChar
  split_ifs with hpath hc
  · simp
  · simpa [appendHex, decode] using hspecial c hc
  · simp

theorem decode_cons (hc : c ≠ 37#8) : decode (c :: s) = c :: decode s := by
  rcases s with _ | ⟨a, _ | ⟨b, s⟩⟩
  · rfl
  · rfl
  · simp [decode, hc]

theorem length_decode_cons (c : Byte) : ∀ s : List Byte,
    (decode (c :: s)).length ≤ (decode s).length + 1
  | [] => by simp [decode]
  | [a] => by simp [decode]
  | a :: b :: s => by
    by_cases hc : c = 37#8
    · suffices h : (decode s).length ≤ (decode (a :: b :: s)).length by
        simpa [decode, hc] using h
      by_cases ha : a = 37#8
      · rcases s with _ | ⟨x, s⟩
        · simp [decode]
        · simpa [decode, ha] using length_decode_cons x s
      · rw [decode_cons ha]
        by_cases hb : b = 37#8
        · rcases s with _ | ⟨x, _ | ⟨y, s⟩⟩
          · simp [decode]
          · simp [decode]
          · have hx := length_decode_cons x (y :: s)
            have hy := length_decode_cons y s
            simp [decode, hb]
            omega
        · simp [decode_cons hb]
          omega
    · simp [decode_cons hc]

theorem length_decode_encode (isPath : Bool) (s : List Byte) :
    (decode (encode isPath s)).length ≤ s.length := by
  induction s with
  | nil => exact Nat.le_refl _
  | cons c s ih =>
    have hle := length_decode_cons c (encode isPath s)
    rcases encodeChar_cases isPath c with hc | ⟨-, hc, hdecode⟩
    · simp [hc]
      omega
    · rw [encode_cons, hc, hdecode]
      exact Nat.succ_le_succ ih

theorem encode_eq_cons {rest : List Byte} (h : encode isPath s = c :: rest)
    (hc : c ≠ 37#8) : ∃ t, s = c :: t ∧ encode isPath t = rest := by
  cases s with
  | nil => cases h
  | cons d t =>
    rcases encodeChar_cases isPath d with hd | ⟨-, hd, -⟩
    · simp_all
    · simp_all

theorem length_encode_le_one : (encode isPath s).length ≤ 1 ↔
    s = [] ∨ ∃ c, s = [c] ∧ encodeChar isPath c = [c] := by
  rcases s with _ | ⟨c, _ | ⟨d, s⟩⟩
  · simp [encode]
  · rcases encodeChar_cases isPath c with hc | ⟨-, hc, -⟩ <;>
      simp [encode, hc, appendHex]
  · rcases encodeChar_cases isPath c with hc | ⟨-, hc, -⟩ <;>
      rcases encodeChar_cases isPath d with hd | ⟨-, hd, -⟩ <;>
      simp [hc, hd]

/-- Decoding gives back a text exactly if nothing, or one character that is not
escaped, comes behind each of its percent signs. -/
theorem decode_encode_iff (isPath : Bool) (s : List Byte) :
    decode (encode isPath s) = s ↔ ∀ t, 37#8 :: t <:+ s →
      t = [] ∨ ∃ c, t = [c] ∧ encodeChar isPath c = [c] := by
  simp only [← length_encode_le_one]
  induction s with
  | nil => simp [encode, decode]
  | cons c s ih =>
    have hsuffix : (∀ t, 37#8 :: t <:+ c :: s → (encode isPath t).length ≤ 1) ↔
        (c = 37#8 → (encode isPath s).length ≤ 1) ∧
          ∀ t, 37#8 :: t <:+ s → (encode isPath t).length ≤ 1 := by
      simp [suffix_cons_iff, or_imp, forall_and, eq_comm]
    rw [hsuffix, ← ih]
    rcases encodeChar_cases isPath c with hc | ⟨hne, hc, hdecode⟩
    · rw [encode_cons, hc, singleton_append]
      by_cases h : c = 37#8
      · rcases hs : encode isPath s with _ | ⟨a, _ | ⟨b, rest⟩⟩
        · simp [decode]
        · simp [decode]
        · suffices hne : hexByte a b = 37#8 → decode rest ≠ s by
            simpa [decode, h] using hne
          intro hab hrest
          have hhex : ∀ x, hexByte 37#8 x ≠ 37#8 ∧ hexByte x 37#8 ≠ 37#8 := by
            decide +kernel
          obtain ⟨t, rfl, ht⟩ := encode_eq_cons hs (by grind)
          obtain ⟨t, rfl, rfl⟩ := encode_eq_cons ht (by grind)
          have hle := length_decode_encode isPath t
          simp [hrest] at hle
      · simp [decode_cons h, h]
    · rw [encode_cons, hc, hdecode]
      simp [hne]

theorem decode_encode_percent :
    decode (encode false (ascii "%41")) = ascii "A" := by
  decide

end ActorFramework.Core.Uri
