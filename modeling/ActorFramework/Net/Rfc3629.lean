import ActorFramework.Core.BinaryDeserializer
import Mathlib.Algebra.GroupWithZero.Nat
import Mathlib.Order.Bounds.Basic

/-!
# UTF-8

`rfc3629::validate` scans bytes for UTF-8 encoded characters.  It returns where
the valid part ends, and whether the bytes after it are only incomplete.

The specification is the syntax of RFC 3629, section 4.
-/

namespace ActorFramework.Net.Rfc3629

open List
open BitVec (ofNat toNat_inj toNat_ofNat lt_def le_def)

open ActorFramework.Core (Byte)

def isContinuationByte (x : Byte) : Bool := x &&& 0xC0#8 == 0x80#8

inductive Scan where
  | last
  | character (size : Nat)
  | incomplete
  | malformed
  deriving DecidableEq

def scanTail (size : Nat) : Nat → List Byte → Scan
  | 0, _ => .character size
  | _ + 1, [] => .incomplete
  | n + 1, y :: rest =>
    if isContinuationByte y then scanTail size n rest else .malformed

def scan : List Byte → Scan
  | [] => .last
  | x :: rest =>
    if x &&& 0x80#8 = 0x00#8 then .character 1
    else if x &&& 0xE0#8 = 0xC0#8 then
      if x &&& 0xFE#8 = 0xC0#8 then .malformed else scanTail 2 1 rest
    else if x &&& 0xF0#8 = 0xE0#8 then
      match rest with
      | [] => .incomplete
      | y :: _ =>
        if !isContinuationByte y then .malformed
        else if x = 0xE0#8 ∧ y &&& 0xE0#8 = 0x80#8 then .malformed
        else if x = 0xED#8 ∧ y &&& 0xE0#8 = 0xA0#8 then .malformed
        else scanTail 3 2 rest
    else if x &&& 0xF8#8 = 0xF0#8 then
      if 0xF4#8 < x then .malformed
      else
        match rest with
        | [] => .incomplete
        | y :: _ =>
          if !isContinuationByte y then .malformed
          else if x = 0xF0#8 ∧ y &&& 0xF0#8 = 0x80#8 then .malformed
          else if x = 0xF4#8 ∧ 0x90#8 ≤ y then .malformed
          else scanTail 4 3 rest
    else .malformed

def validateLoop : Nat → List Byte → Nat × Bool
  | 0, _ => (0, false)
  | fuel + 1, bytes =>
    match scan bytes with
    | .last => (0, false)
    | .character size =>
      (size + (validateLoop fuel (bytes.drop size)).1,
        (validateLoop fuel (bytes.drop size)).2)
    | .incomplete => (0, true)
    | .malformed => (0, false)

def validate (bytes : List Byte) : Nat × Bool :=
  validateLoop bytes.length bytes

def valid (bytes : List Byte) : Bool := (validate bytes).1 == bytes.length

def Tail (x : Byte) : Prop := 0x80 ≤ x.toNat ∧ x.toNat ≤ 0xBF

/-- `UTF8-char`, with one constructor for each alternative. -/
inductive Character : List Byte → Prop where
  | one {x : Byte} (h : x.toNat ≤ 0x7F) : Character [x]
  | two {x y : Byte} (h : 0xC2 ≤ x.toNat ∧ x.toNat ≤ 0xDF) (hy : Tail y) :
      Character [x, y]
  | three {x y z : Byte}
      (h : x.toNat = 0xE0 ∧ 0xA0 ≤ y.toNat ∧ y.toNat ≤ 0xBF ∨
        0xE1 ≤ x.toNat ∧ x.toNat ≤ 0xEC ∧ Tail y ∨
        x.toNat = 0xED ∧ 0x80 ≤ y.toNat ∧ y.toNat ≤ 0x9F ∨
        0xEE ≤ x.toNat ∧ x.toNat ≤ 0xEF ∧ Tail y)
      (hz : Tail z) : Character [x, y, z]
  | four {x y z w : Byte}
      (h : x.toNat = 0xF0 ∧ 0x90 ≤ y.toNat ∧ y.toNat ≤ 0xBF ∨
        0xF1 ≤ x.toNat ∧ x.toNat ≤ 0xF3 ∧ Tail y ∨
        x.toNat = 0xF4 ∧ 0x80 ≤ y.toNat ∧ y.toNat ≤ 0x8F)
      (hz : Tail z) (hw : Tail w) : Character [x, y, z, w]

inductive Octets : List Byte → Prop where
  | nil : Octets []
  | cons {character rest : List Byte} : Character character → Octets rest →
      Octets (character ++ rest)

def Extendable (bytes : List Byte) : Prop := ∃ more, Octets (bytes ++ more)

def Lead (x : Byte) (size : Nat) : Prop :=
  size = 2 ∧ 0xC2 ≤ x.toNat ∧ x.toNat ≤ 0xDF ∨
  size = 3 ∧ 0xE0 ≤ x.toNat ∧ x.toNat ≤ 0xEF ∨
  size = 4 ∧ 0xF0 ≤ x.toNat ∧ x.toNat ≤ 0xF4

def Second (x y : Byte) : Prop :=
  Tail y ∧ (x.toNat = 0xE0 → 0xA0 ≤ y.toNat) ∧
    (x.toNat = 0xED → y.toNat ≤ 0x9F) ∧ (x.toNat = 0xF0 → 0x90 ≤ y.toNat) ∧
    (x.toNat = 0xF4 → y.toNat ≤ 0x8F)

section

variable (x : Byte)

theorem toNat_and_mask (k : Fin 8) :
    (x &&& (0xFF#8 <<< k.val)).toNat = x.toNat / 2 ^ k.val * 2 ^ k.val := by
  revert x k
  decide +kernel

theorem and_mask_iff (k : Fin 8) {v : Nat} (hv : v / 2 ^ k.val * 2 ^ k.val = v)
    (hlt : v < 256) :
    x &&& (0xFF#8 <<< k.val) = ofNat 8 v ↔
      v ≤ x.toNat ∧ x.toNat ≤ v + (2 ^ k.val - 1) := by
  have hx := Nat.div_add_mod x.toNat (2 ^ k.val)
  rw [Nat.mul_comm] at hx
  rw [← toNat_inj, toNat_and_mask, toNat_ofNat, Nat.mod_eq_of_lt hlt]
  constructor
  · intro h
    omega
  · rintro ⟨hle, hup⟩
    have hdiv : x.toNat / 2 ^ k.val = v / 2 ^ k.val := by
      apply Nat.div_eq_of_lt_le
      · omega
      · rw [Nat.succ_mul, hv]
        omega
    rw [hdiv, hv]

theorem and_80_eq_00 : x &&& 0x80#8 = 0x00#8 ↔ x.toNat ≤ 0x7F := by
  have hmask := and_mask_iff x 7 (v := 0) (by decide) (by decide)
  exact hmask.trans (and_iff_right (Nat.zero_le _))

theorem and_E0_eq_C0 :
    x &&& 0xE0#8 = 0xC0#8 ↔ 0xC0 ≤ x.toNat ∧ x.toNat ≤ 0xDF :=
  and_mask_iff x 5 (by decide) (by decide)

theorem and_FE_eq_C0 :
    x &&& 0xFE#8 = 0xC0#8 ↔ 0xC0 ≤ x.toNat ∧ x.toNat ≤ 0xC1 :=
  and_mask_iff x 1 (by decide) (by decide)

theorem and_F0_eq_E0 :
    x &&& 0xF0#8 = 0xE0#8 ↔ 0xE0 ≤ x.toNat ∧ x.toNat ≤ 0xEF :=
  and_mask_iff x 4 (by decide) (by decide)

theorem and_F8_eq_F0 :
    x &&& 0xF8#8 = 0xF0#8 ↔ 0xF0 ≤ x.toNat ∧ x.toNat ≤ 0xF7 :=
  and_mask_iff x 3 (by decide) (by decide)

theorem and_E0_eq_80 :
    x &&& 0xE0#8 = 0x80#8 ↔ 0x80 ≤ x.toNat ∧ x.toNat ≤ 0x9F :=
  and_mask_iff x 5 (by decide) (by decide)

theorem and_E0_eq_A0 :
    x &&& 0xE0#8 = 0xA0#8 ↔ 0xA0 ≤ x.toNat ∧ x.toNat ≤ 0xBF :=
  and_mask_iff x 5 (by decide) (by decide)

theorem and_F0_eq_80 :
    x &&& 0xF0#8 = 0x80#8 ↔ 0x80 ≤ x.toNat ∧ x.toNat ≤ 0x8F :=
  and_mask_iff x 4 (by decide) (by decide)

theorem isContinuationByte_iff : isContinuationByte x = true ↔ Tail x := by
  rw [isContinuationByte, beq_iff_eq]
  exact and_mask_iff x 6 (v := 128) (by decide) (by decide)

end

variable {x y : Byte} {rest tail c bytes a b : List Byte} {size n : Nat}

theorem character_cons_iff :
    Character (x :: rest) ↔
      (x.toNat ≤ 0x7F ∧ rest = []) ∨
      ∃ y tail, rest = y :: tail ∧ Lead x (tail.length + 2) ∧ Second x y ∧
        ∀ z ∈ tail, Tail z := by
  unfold Lead Second Tail
  constructor
  · intro h
    cases h with
    | one hx => exact .inl ⟨hx, rfl⟩
    | two hx hy =>
      unfold Tail at hy
      refine .inr ⟨_, [], rfl, .inl ⟨rfl, hx⟩, ?_, by simp⟩
      omega
    | three hx hz =>
      unfold Tail at hx hz
      refine .inr ⟨_, [_], rfl, .inr (.inl ⟨rfl, ?_⟩), ?_, by simpa using hz⟩
      · omega
      · omega
    | four hx hz hw =>
      unfold Tail at hx hz hw
      refine .inr ⟨_, [_, _], rfl, .inr (.inr ⟨rfl, ?_⟩), ?_, ?_⟩
      · omega
      · omega
      · simpa using ⟨hz, hw⟩
  · rintro (⟨hx, rfl⟩ | ⟨y, tail, rfl, hlead, hy, htail⟩)
    · exact .one hx
    · rcases tail with _ | ⟨z, _ | ⟨w, _ | ⟨v, tail⟩⟩⟩
      · simp only [length_nil] at hlead
        exact .two (by omega) hy.1
      · simp only [length_cons, length_nil] at hlead
        refine .three ?_ (htail z (by simp))
        unfold Tail
        omega
      · simp only [length_cons, length_nil] at hlead
        refine .four ?_ (htail z (by simp)) (htail w (by simp))
        unfold Tail
        omega
      · simp only [length_cons] at hlead
        omega

theorem scan_lead_nil (h : Lead x size) : scan [x] = .incomplete := by
  unfold Lead at h
  simp only [scan, scanTail, and_80_eq_00, and_E0_eq_C0, and_FE_eq_C0,
    and_F0_eq_E0, and_F8_eq_F0, lt_def, toNat_ofNat]
  split_ifs <;> first | rfl | omega

theorem scan_lead_cons (h : Lead x size) (hy : Second x y) (tail : List Byte) :
    scan (x :: y :: tail) = scanTail size (size - 2) tail := by
  obtain ⟨hcont, hy⟩ := hy
  have hcont' := (isContinuationByte_iff y).mpr hcont
  unfold Lead at h
  simp only [scan, scanTail, and_80_eq_00, and_E0_eq_C0, and_FE_eq_C0,
    and_F0_eq_E0, and_F8_eq_F0, and_E0_eq_80, and_E0_eq_A0, and_F0_eq_80,
    lt_def, le_def, toNat_ofNat,
    hcont', if_true, Bool.not_true, Bool.false_eq_true, if_false]
  simp only [← toNat_inj, toNat_ofNat]
  rcases h with ⟨rfl, h⟩ | ⟨rfl, h⟩ | ⟨rfl, h⟩
  all_goals
    split_ifs <;> first | rfl | omega

theorem scan_lead_malformed (h : Lead x size) (hy : ¬ Second x y)
    (tail : List Byte) : scan (x :: y :: tail) = .malformed := by
  unfold Lead at h
  unfold Second at hy
  rw [← isContinuationByte_iff] at hy
  have hcont := isContinuationByte_iff y
  unfold Tail at hcont
  simp only [scan, scanTail, and_80_eq_00, and_E0_eq_C0, and_FE_eq_C0,
    and_F0_eq_E0, and_F8_eq_F0, and_E0_eq_80, and_E0_eq_A0, and_F0_eq_80,
    lt_def, le_def, toNat_ofNat]
  simp only [← toNat_inj, toNat_ofNat]
  cases hc : isContinuationByte y with
  | false =>
    simp only [Bool.not_false, if_true, Bool.false_eq_true, if_false]
    split_ifs <;> first | rfl | omega
  | true =>
    simp only [hc, true_iff, true_and, Bool.not_true, if_true,
      Bool.false_eq_true, if_false] at hcont hy ⊢
    split_ifs <;> first | rfl | omega

theorem scan_other (h : 0x7F < x.toNat) (hlead : ∀ size, ¬ Lead x size)
    (rest : List Byte) : scan (x :: rest) = .malformed := by
  have h2 := hlead 2
  have h3 := hlead 3
  have h4 := hlead 4
  unfold Lead at h2 h3 h4
  simp only [scan, and_80_eq_00, and_E0_eq_C0, and_FE_eq_C0,
    and_F0_eq_E0, and_F8_eq_F0, lt_def, toNat_ofNat]
  split_ifs <;> first | rfl | omega

theorem scanTail_append (hlen : tail.length = n) (h : ∀ y ∈ tail, Tail y)
    (rest : List Byte) : scanTail size n (tail ++ rest) = .character size := by
  induction tail generalizing n with
  | nil =>
    subst hlen
    rfl
  | cons y tail ih =>
    subst hlen
    have hy := (isContinuationByte_iff y).mpr (h y (by simp))
    simp only [cons_append, length_cons, scanTail, hy, if_true]
    exact ih rfl fun z hz => h z (by simp [hz])

theorem scanTail_short (hlen : tail.length < n) (h : ∀ y ∈ tail, Tail y) :
    scanTail size n tail = .incomplete := by
  induction tail generalizing n with
  | nil =>
    obtain ⟨n, rfl⟩ := Nat.exists_eq_succ_of_ne_zero (Nat.ne_of_gt hlen)
    rfl
  | cons y tail ih =>
    obtain ⟨n, rfl⟩ := Nat.exists_eq_succ_of_ne_zero
      (Nat.ne_of_gt (Nat.lt_of_le_of_lt (Nat.zero_le _) hlen))
    have hy := (isContinuationByte_iff y).mpr (h y (by simp))
    simp only [scanTail, hy, if_true]
    exact ih (by simpa using hlen) fun z hz => h z (by simp [hz])

theorem scanTail_malformed (h : ∃ y ∈ tail.take n, ¬ Tail y) :
    scanTail size n tail = .malformed := by
  induction tail generalizing n with
  | nil => simp at h
  | cons y tail ih =>
    cases n with
    | zero => simp at h
    | succ n =>
      rw [scanTail]
      split_ifs with hy
      · rw [isContinuationByte_iff] at hy
        refine ih ?_
        simpa [hy] using h
      · rfl

theorem length_unique {rest' : List Byte} (h : Character (x :: rest))
    (h' : Character (x :: rest')) : rest.length = rest'.length := by
  rw [character_cons_iff] at h h'
  unfold Lead at h h'
  rcases h with ⟨hx, rfl⟩ | ⟨y, tail, rfl, hx, -⟩
  all_goals
    rcases h' with ⟨hx', rfl⟩ | ⟨y', tail', rfl, hx', -⟩
    all_goals simp only [length_nil, length_cons]
    all_goals omega

theorem character_ne_nil (h : Character c) : c ≠ [] := by
  cases h <;> simp

theorem append_inj {d more : List Byte} (hc : Character c) (hd : Character d)
    (h : c ++ rest = d ++ more) : c = d ∧ rest = more := by
  obtain ⟨x, c, rfl⟩ := exists_cons_of_ne_nil (character_ne_nil hc)
  obtain ⟨y, d, rfl⟩ := exists_cons_of_ne_nil (character_ne_nil hd)
  obtain rfl : x = y := by
    simpa using congrArg List.head? h
  exact append_inj h (by simpa using length_unique hc hd)

inductive Scanned : List Byte → Scan → Prop where
  | last : Scanned [] .last
  | character {c rest : List Byte} : Character c →
      Scanned (c ++ rest) (.character c.length)
  | incomplete {bytes more : List Byte} : bytes ≠ [] → more ≠ [] →
      Character (bytes ++ more) → Scanned bytes .incomplete
  | malformed {bytes : List Byte} : bytes ≠ [] →
      (∀ more c rest, Character c → bytes ++ more ≠ c ++ rest) →
      Scanned bytes .malformed

theorem exists_tail (n : Nat) :
    ∃ tail : List Byte, tail.length = n ∧ ∀ y ∈ tail, Tail y :=
  ⟨List.replicate n 0x80#8, by simp, by simp [Tail]⟩

theorem exists_second (x : Byte) : ∃ y, Second x y := by
  unfold Second Tail
  by_cases hx : x.toNat = 0xED ∨ x.toNat = 0xF4
  · refine ⟨0x80#8, ?_⟩
    simp only [toNat_ofNat]
    omega
  · refine ⟨0xA0#8, ?_⟩
    simp only [toNat_ofNat]
    omega

theorem character_of_lead (h : Lead x size) (hy : Second x y)
    (hlen : tail.length + 2 = size) (htail : ∀ z ∈ tail, Tail z) :
    Character (x :: y :: tail) := by
  subst hlen
  exact character_cons_iff.mpr (.inr ⟨y, tail, rfl, h, hy, htail⟩)

theorem lead_start (h : Lead x size) (hc : Character c)
    (heq : x :: y :: bytes = c ++ rest) :
    Second x y ∧ ∀ z ∈ bytes.take (size - 2), Tail z := by
  obtain ⟨x', c, rfl⟩ := exists_cons_of_ne_nil (character_ne_nil hc)
  rw [cons_append, List.cons.injEq] at heq
  obtain ⟨rfl, heq⟩ := heq
  rcases character_cons_iff.mp hc with
    ⟨hascii, rfl⟩ | ⟨y', tail, rfl, hlead, hy, htail⟩
  · unfold Lead at h
    omega
  · rw [cons_append, List.cons.injEq] at heq
    obtain ⟨rfl, rfl⟩ := heq
    have hsize : size - 2 = tail.length := by
      unfold Lead at h hlead
      omega
    rw [hsize, take_left]
    exact ⟨hy, htail⟩

theorem scanned_lead_cons {x y : Byte} {size : Nat} (h : Lead x size)
    (hy : Second x y) (tail : List Byte) :
    Scanned (x :: y :: tail) (scanTail size (size - 2) tail) := by
  have hsize : 2 ≤ size := by
    unfold Lead at h
    omega
  by_cases htail : ∀ z ∈ tail.take (size - 2), Tail z
  · by_cases hlen : size - 2 ≤ tail.length
    · have htake := length_take_of_le hlen
      have hscanned := @Scanned.character _ (tail.drop (size - 2))
        (character_of_lead h hy (by omega) htail)
      have hscan : scanTail size _ _ = _ :=
        scanTail_append htake htail (tail.drop (size - 2))
      rw [take_append_drop] at hscan
      simpa [hscan, htake, Nat.sub_add_cancel hsize] using hscanned
    · rw [take_of_length_le (by omega)] at htail
      obtain ⟨more, hmore, hall⟩ := exists_tail (size - 2 - tail.length)
      rw [scanTail_short (by omega) htail]
      have hne : more ≠ [] := by
        rw [← length_pos_iff]
        omega
      refine .incomplete (cons_ne_nil _ _) hne ?_
      refine @character_of_lead _ _ (tail ++ more) _ h hy ?_ ?_
      · rw [length_append]
        omega
      · simpa [or_imp, forall_and] using ⟨htail, hall⟩
  · rw [scanTail_malformed (by simpa using htail)]
    refine .malformed (cons_ne_nil _ _) fun more c rest hc heq => htail ?_
    intro z hz
    refine (lead_start h hc heq).2 z ?_
    have hmem := mem_append_left (more.take (size - 2 - tail.length)) hz
    rwa [← take_append] at hmem

theorem scanned_lead (h : Lead x size) (rest : List Byte) :
    Scanned (x :: rest) (scan (x :: rest)) := by
  cases rest with
  | nil =>
    obtain ⟨y, hy⟩ := exists_second x
    obtain ⟨tail, hlen, htail⟩ := exists_tail (size - 2)
    rw [scan_lead_nil h]
    refine .incomplete (by simp) (cons_ne_nil y tail)
      (character_of_lead h hy ?_ htail)
    unfold Lead at h
    omega
  | cons y tail =>
    by_cases hy : Second x y
    · rw [scan_lead_cons h hy]
      exact scanned_lead_cons h hy tail
    · rw [scan_lead_malformed h hy]
      exact .malformed (cons_ne_nil _ _) fun more c rest hc heq =>
        hy (lead_start h hc heq).1

theorem scanned_scan (bytes : List Byte) : Scanned bytes (scan bytes) := by
  cases bytes with
  | nil => exact .last
  | cons x rest =>
    by_cases hascii : x.toNat ≤ 0x7F
    · simp only [scan, and_80_eq_00, hascii, if_true]
      exact .character (.one hascii)
    · by_cases hlead : ∃ size, Lead x size
      · obtain ⟨size, hlead⟩ := hlead
        exact scanned_lead hlead rest
      · rw [not_exists] at hlead
        rw [scan_other (by omega) hlead]
        refine .malformed (cons_ne_nil _ _) fun more c after hc heq => ?_
        obtain ⟨x', c, rfl⟩ :=
          exists_cons_of_ne_nil (character_ne_nil hc)
        obtain ⟨rfl, -⟩ := List.cons.inj heq
        rcases character_cons_iff.mp hc with h | ⟨_, _, -, h, -⟩
        · exact hascii h.1
        · exact hlead _ h

theorem octets_append (ha : Octets a) (hb : Octets b) : Octets (a ++ b) := by
  induction ha with
  | nil => exact hb
  | cons hc _ ih =>
    rw [append_assoc]
    exact .cons hc ih

theorem octets_of_append (ha : Octets a) (h : Octets (a ++ b)) : Octets b := by
  induction ha with
  | nil => exact h
  | @cons c rest hc _ ih =>
    refine ih ?_
    generalize hbytes : c ++ rest ++ b = bytes at h
    cases h with
    | nil =>
      rw [append_assoc, append_eq_nil_iff] at hbytes
      exact absurd hbytes.1 (character_ne_nil hc)
    | cons hd hrest =>
      rw [append_assoc] at hbytes
      rwa [(append_inj hc hd hbytes).2]

inductive Validated : List Byte → Nat × Bool → Prop where
  | full {bytes : List Byte} : Octets bytes →
      Validated bytes (bytes.length, false)
  | incomplete {bytes rest more : List Byte} : Octets bytes → rest ≠ [] →
      more ≠ [] → Character (rest ++ more) →
      Validated (bytes ++ rest) (bytes.length, true)
  | malformed {bytes rest : List Byte} : Octets bytes → rest ≠ [] →
      (∀ more c after, Character c → rest ++ more ≠ c ++ after) →
      Validated (bytes ++ rest) (bytes.length, false)

variable {r : Nat × Bool}

theorem Validated.cons (hc : Character c) (h : Validated rest r) :
    Validated (c ++ rest) (c.length + r.1, r.2) := by
  cases h with
  | full h =>
    simpa only [length_append] using Validated.full (.cons hc h)
  | incomplete h hrest hmore hchar =>
    have hcons := Validated.incomplete (.cons hc h) hrest hmore hchar
    simpa only [length_append, append_assoc] using hcons
  | malformed h hrest hnone =>
    have hcons := Validated.malformed (.cons hc h) hrest hnone
    simpa only [length_append, append_assoc] using hcons

theorem validated_loop (fuel : Nat) (bytes : List Byte)
    (h : bytes.length ≤ fuel) : Validated bytes (validateLoop fuel bytes) := by
  induction fuel generalizing bytes with
  | zero =>
    obtain rfl := length_eq_zero_iff.mp (Nat.le_zero.mp h)
    exact .full .nil
  | succ fuel ih =>
    have hscanned := scanned_scan bytes
    rw [validateLoop]
    generalize scan bytes = outcome at hscanned ⊢
    cases hscanned with
    | last => exact .full .nil
    | character hc =>
      have hpos := length_pos_iff.mpr (character_ne_nil hc)
      rw [length_append] at h
      simp only [drop_left]
      exact (ih _ (by omega)).cons hc
    | incomplete hne hmore hchar =>
      exact .incomplete .nil hne hmore hchar
    | malformed hne hnone => exact .malformed .nil hne hnone

theorem validated_validate (bytes : List Byte) :
    Validated bytes (validate bytes) :=
  validated_loop _ _ le_rfl

theorem Validated.stops (h : Validated bytes r) :
    ∃ front rest, bytes = front ++ rest ∧ r.1 = front.length ∧ Octets front ∧
      ∀ c after, Character c → rest ≠ c ++ after := by
  cases h with
  | full h =>
    refine ⟨bytes, [], (append_nil _).symm, rfl, h, fun c after hc heq => ?_⟩
    exact character_ne_nil hc (append_eq_nil_iff.mp heq.symm).1
  | @incomplete front rest more h hrest hmore hchar =>
    refine ⟨front, rest, rfl, rfl, h, fun c after hc heq => hmore ?_⟩
    rw [heq, append_assoc] at hchar
    have hnil := (append_inj hc hchar (append_nil _).symm).2
    exact (append_eq_nil_iff.mp hnil).2
  | @malformed front rest h hrest hnone =>
    refine ⟨front, rest, rfl, rfl, h, fun c after hc heq => ?_⟩
    exact hnone [] c after hc (by rw [append_nil, heq])

theorem Validated.greatest (h : Validated bytes r) :
    IsGreatest {n | n ≤ bytes.length ∧ Octets (bytes.take n)} r.1 := by
  obtain ⟨front, rest, rfl, hr, hfront, hstop⟩ := h.stops
  rw [hr]
  refine ⟨⟨by simp, by simpa using hfront⟩, ?_⟩
  rintro n ⟨hle, hn⟩
  by_contra hlt
  rw [take_append, take_of_length_le (by omega)] at hn
  generalize htake : rest.take (n - front.length) = piece at hn
  have hpiece := octets_of_append hfront hn
  have hrest := take_append_drop (n - front.length) rest
  rw [htake] at hrest
  cases hpiece with
  | nil =>
    rw [length_append] at hle
    rw [take_eq_nil_iff] at htake
    rcases htake with hzero | rfl
    · omega
    · simp at hle
      omega
  | cons hc _ => exact hstop _ _ hc (by rw [← hrest, append_assoc])

theorem Octets.extendable (h : Octets bytes) : Extendable bytes :=
  ⟨[], by rwa [append_nil]⟩

theorem extendable_of_append (h : Extendable (a ++ b)) : Extendable a := by
  obtain ⟨more, h⟩ := h
  exact ⟨b ++ more, by rwa [← append_assoc]⟩

theorem validate_eq_length_iff (bytes : List Byte) :
    (validate bytes).1 = bytes.length ↔ Octets bytes := by
  have h := (validated_validate bytes).greatest
  constructor
  · intro heq
    simpa [heq] using h.1.2
  · intro hall
    exact Nat.le_antisymm h.1.1 (h.2 ⟨le_rfl, by simpa using hall⟩)

theorem validate_extendable_iff (bytes : List Byte) :
    ((validate bytes).1 = bytes.length ∨ (validate bytes).2 = true) ↔
      Extendable bytes := by
  have h := validated_validate bytes
  generalize validate bytes = r at h ⊢
  cases h with
  | full h =>
    simp only [true_or, true_iff]
    exact h.extendable
  | @incomplete _ _ more h hrest hmore hc =>
    simp only [or_true, true_iff]
    refine ⟨more, ?_⟩
    rw [append_assoc]
    exact octets_append h (by simpa using Octets.cons hc .nil)
  | malformed h hrest hnone =>
    simp only [Bool.false_eq_true, or_false, length_append,
      Nat.left_eq_add, length_eq_zero_iff, hrest, false_iff]
    rintro ⟨more, hall⟩
    rw [append_assoc] at hall
    have hoctets := octets_of_append h hall
    generalize hbytes : _ ++ more = bytes at hoctets
    cases hoctets with
    | nil => exact hrest (append_eq_nil_iff.mp hbytes).1
    | cons hc _ => exact hnone more _ _ hc hbytes

instance Octets.decidable (bytes : List Byte) : Decidable (Octets bytes) :=
  decidable_of_iff _ (validate_eq_length_iff bytes)

instance Extendable.decidable (bytes : List Byte) :
    Decidable (Extendable bytes) :=
  decidable_of_iff _ (validate_extendable_iff bytes)

theorem valid_iff (bytes : List Byte) : valid bytes = true ↔ Octets bytes := by
  rw [valid, beq_iff_eq, validate_eq_length_iff]

theorem Validated.incomplete_iff (h : Validated bytes r) :
    r.2 = true ↔ bytes.drop r.1 ≠ [] ∧
      ∃ more ≠ [], Character (bytes.drop r.1 ++ more) := by
  cases h with
  | full h => simp
  | @incomplete _ _ more h hrest hmore hc =>
    simpa [hrest] using ⟨more, hmore, hc⟩
  | malformed h hrest hnone =>
    simp only [Bool.false_eq_true, drop_left, false_iff]
    rintro ⟨-, more, -, hc⟩
    exact hnone more _ [] hc (append_nil _).symm

theorem Validated.unique {r r' : Nat × Bool} (h : Validated bytes r)
    (h' : Validated bytes r') : r = r' := by
  have hsize := h.greatest.unique h'.greatest
  refine Prod.ext hsize (Bool.eq_iff_iff.mpr ?_)
  rw [h.incomplete_iff, h'.incomplete_iff, hsize]

theorem validate_append (h : Octets bytes) (rest : List Byte) :
    validate (bytes ++ rest) =
      (bytes.length + (validate rest).1, (validate rest).2) := by
  induction h with
  | nil => simp
  | @cons c bytes hc _ ih =>
    have hcons := (validated_validate (bytes ++ rest)).cons hc
    rw [ih, ← append_assoc] at hcons
    rw [(validated_validate _).unique hcons, length_append, Nat.add_assoc]

theorem validate_resume (bytes more : List Byte) :
    validate (bytes ++ more) =
      ((validate bytes).1 +
          (validate ((bytes ++ more).drop (validate bytes).1)).1,
        (validate ((bytes ++ more).drop (validate bytes).1)).2) := by
  obtain ⟨hle, hoctets⟩ := (validated_validate bytes).greatest.1
  have hsplit : bytes ++ more = bytes.take (validate bytes).1 ++
      (bytes ++ more).drop (validate bytes).1 := by
    rw [drop_append_of_le_length hle, ← append_assoc, take_append_drop]
  conv => lhs; rw [hsplit]
  rw [validate_append hoctets, length_take_of_le hle]

theorem validate_longest (bytes : List Byte) :
    (valid bytes = true ↔ Octets bytes) ∧
      IsGreatest {n | n ≤ bytes.length ∧ Octets (bytes.take n)}
        (validate bytes).1 ∧
      ((validate bytes).2 = true ↔ bytes.drop (validate bytes).1 ≠ [] ∧
        ∃ more ≠ [], Character (bytes.drop (validate bytes).1 ++ more)) := by
  have h := validated_validate bytes
  exact ⟨valid_iff bytes, h.greatest, h.incomplete_iff⟩

end ActorFramework.Net.Rfc3629
