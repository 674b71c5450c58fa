import ActorFramework.Core.BinaryDeserializer
import ActorFramework.Foundation.Search
import Mathlib.Data.Nat.Digits.Lemmas

/-!
# String algorithms

Characters are bytes, and a string is a list of them.
-/

namespace ActorFramework.Core

open Foundation List

def ascii (s : String) : List Byte :=
  s.toList.map fun c => BitVec.ofNat 8 c.toNat

def isSpace (c : Byte) : Bool := decide (9 ≤ c.toNat ∧ c.toNat ≤ 13 ∨ c = 32#8)

def toLower (c : Byte) : Byte :=
  if 65 ≤ c.toNat ∧ c.toNat ≤ 90 then c + 32#8 else c

def trim (str : List Byte) : List Byte :=
  if str.any (!isSpace ·) then
    ((str.dropWhile isSpace).reverse.dropWhile isSpace).reverse
  else []

def icaseEqual (x y : List Byte) : Bool := x.map toLower == y.map toLower

def splitBy (str sep : List Byte) : List Byte × List Byte :=
  match search sep str with
  | some i => (str.take i, str.drop (i + sep.length))
  | none => (str, [])

def digitByte (d : Nat) : Byte :=
  if d < 10 then BitVec.ofNat 8 (48 + d) else BitVec.ofNat 8 (55 + d)

def numberText (base n : Nat) : List Byte :=
  if n = 0 then [digitByte 0] else (Nat.digits base n).reverse.map digitByte

def toString10 (n : Nat) : List Byte := numberText 10 n

def toString16 (n : Nat) : List Byte := numberText 16 n

variable {c : Byte} {base n : Nat}

theorem trim_cons (h : isSpace c = true) (str : List Byte) :
    trim (c :: str) = trim str := by
  simp [trim, h]

theorem trim_eq_self {str : List Byte} (h : ∀ c ∈ str, isSpace c = false) :
    trim str = str := by
  have hdrop : ∀ {cs : List Byte}, (∀ c ∈ cs, isSpace c = false) →
      cs.dropWhile isSpace = cs := by
    intro cs hcs
    cases cs with
    | nil => rfl
    | cons c cs => simp [hcs c mem_cons_self]
  unfold trim
  rw [hdrop h, hdrop (by simpa using h), reverse_reverse]
  cases str with
  | nil => rfl
  | cons c str => simp [h c mem_cons_self]

theorem digitByte_toNat {d : Nat} (h : d < 16) :
    (digitByte d).toNat = if d < 10 then 48 + d else 55 + d := by
  unfold digitByte
  split
  · rw [BitVec.toNat_ofNat, Nat.mod_eq_of_lt (by omega)]
  · rw [BitVec.toNat_ofNat, Nat.mod_eq_of_lt (by omega)]

section

variable (hbase : 1 < base)
include hbase

theorem numberText_eq_map (n : Nat) :
    ∃ d ds, numberText base n = (d :: ds).map digitByte ∧
      (∀ e ∈ d :: ds, e < base) ∧ (d = 0 → ds = []) ∧
      (d :: ds).foldl (fun x e => x * base + e) 0 = n := by
  unfold numberText
  split
  · rename_i hzero
    exact ⟨0, [], rfl, by simpa using Nat.lt_of_succ_lt hbase, fun _ => rfl,
      by simp [hzero]⟩
  · rename_i hpos
    have hnil := (@Nat.digits_ne_nil_iff_ne_zero base n).mpr hpos
    have hfirst := Nat.getLast_digit_ne_zero base hpos
    obtain ⟨d, ds, hds⟩ := exists_cons_of_ne_nil
      (reverse_ne_nil_iff.mpr hnil)
    have hd : d ≠ 0 := by
      rw [← head_reverse (reverse_ne_nil_iff.mpr hnil)] at hfirst
      simpa only [hds, head_cons] using hfirst
    rw [hds]
    refine ⟨d, ds, rfl, ?_, fun hzero => absurd hzero hd, ?_⟩
    · intro e he
      rw [← hds] at he
      exact Nat.digits_lt_base hbase (mem_reverse.mp he)
    · rw [← hds, foldl_reverse]
      have hval := Nat.ofDigits_digits base n
      rw [Nat.ofDigits_eq_foldr] at hval
      convert hval using 3
      simp [Nat.mul_comm, Nat.add_comm]

theorem mem_numberText (h : c ∈ numberText base n) :
    ∃ d < base, c = digitByte d := by
  obtain ⟨d, ds, htext, hlt, -⟩ := numberText_eq_map hbase n
  rw [htext] at h
  obtain ⟨e, he, rfl⟩ := mem_map.mp h
  exact ⟨e, hlt e he, rfl⟩

theorem le_of_mem_numberText (hsmall : base ≤ 16) (h : c ∈ numberText base n) :
    48 ≤ c.toNat := by
  obtain ⟨d, hd, rfl⟩ := mem_numberText hbase h
  rw [digitByte_toNat (Nat.lt_of_lt_of_le hd hsmall)]
  split <;> omega

theorem not_mem_numberText (hsmall : base ≤ 16) (hc : c.toNat < 48) :
    c ∉ numberText base n := by
  intro h
  have hle := le_of_mem_numberText hbase hsmall h
  omega

theorem trim_numberText (hsmall : base ≤ 16) :
    trim (numberText base n) = numberText base n := by
  apply trim_eq_self
  intro c hc
  have hle := le_of_mem_numberText hbase hsmall hc
  have hblank : c ≠ 32#8 := by
    rintro rfl
    exact absurd hle (by decide)
  simp only [isSpace, hblank, or_false, decide_eq_false_iff_not]
  omega

theorem length_numberText_le_iff {k : Nat} (hk : 0 < k) :
    (numberText base n).length ≤ k ↔ n < base ^ k := by
  unfold numberText
  split_ifs with hzero
  · rw [hzero]
    exact ⟨fun _ => Nat.pow_pos (by omega), fun _ => hk⟩
  · rw [length_map, length_reverse]
    exact Nat.digits_length_le_iff hbase n

end

end ActorFramework.Core
