import ActorFramework.Core.StringAlgorithms

/-!
# Base64

The encoder takes three characters at a time and the decoder four.  Both append
to a buffer and then correct its end where the last group is not full.
-/

namespace ActorFramework.Core.Base64

open List

def encodingTbl : List Byte :=
  ascii "ABCDEFGHIJKLMNOPQRSTUVWXYZabcdefghijklmnopqrstuvwxyz0123456789+/"

def decodingTbl : List Nat :=
  replicate 43 0 ++ [62] ++ replicate 3 0 ++ [63] ++ range' 52 10 ++
    replicate 7 0 ++ range' 0 26 ++ replicate 6 0 ++ range' 26 26 ++
    replicate 5 0

def digit (n : Nat) : Byte := encodingTbl.getD n 0#8

/-- A character as an `int`.  Whether `char` is signed depends on the
platform. -/
def promote (signed : Bool) (c : Byte) : BitVec 32 :=
  if signed then c.signExtend 32 else c.setWidth 32

def consume (signed : Bool) (x y z : Byte) : List Byte :=
  let x := promote signed x
  let y := promote signed y
  let z := promote signed z
  [(x &&& 0xfc#32) >>> 2,
    ((x &&& 0x03#32) <<< 4) + ((y &&& 0xf0#32) >>> 4),
    ((y &&& 0x0f#32) <<< 2) + ((z &&& 0xc0#32) >>> 6),
    z &&& 0x3f#32].map fun x => digit x.toNat

def encodeLoop (signed : Bool) : List Byte → List Byte → List Byte × List Byte
  | x :: y :: z :: rest, out =>
    encodeLoop signed rest (out ++ consume signed x y z)
  | rest, out => (out, rest)

def encode (signed : Bool) (input out : List Byte) : List Byte :=
  let (out, rest) := encodeLoop signed input out
  if rest = [] then out
  else
    let buf := rest ++ replicate (3 - rest.length) 0#8
    let out := out ++ consume signed (buf.getD 0 0#8) (buf.getD 1 0#8)
      (buf.getD 2 0#8)
    let padding := 3 - input.length % 3
    out.take (out.length - padding) ++ replicate padding 61#8

def val (c : Byte) : Nat := decodingTbl.getD (c &&& 0x7F#8).toNat 0

def decodeLoop : List Byte → List Byte → List Byte
  | a :: b :: c :: d :: rest, out =>
    let bits := val a <<< 18 ||| val b <<< 12 ||| val c <<< 6 ||| val d
    decodeLoop rest (out ++ [BitVec.ofNat 8 ((bits &&& 0xFF0000) >>> 16),
      BitVec.ofNat 8 ((bits &&& 0x00FF00) >>> 8),
      BitVec.ofNat 8 (bits &&& 0x0000FF)])
  | _, out => out

def decode (input out : List Byte) : Bool × List Byte :=
  if input = [] then (true, out)
  else if input.length % 4 ≠ 0 then (false, out)
  else
    let out := decodeLoop input out
    if input.getD (input.length - 2) 0#8 = 61#8 then
      (true, out.dropLast.dropLast)
    else if input.getD (input.length - 1) 0#8 = 61#8 then (true, out.dropLast)
    else (true, out)

def group (x y z : Byte) : List Byte :=
  let n := x.toNat * 2 ^ 16 + y.toNat * 2 ^ 8 + z.toNat
  [n / 2 ^ 18, n / 2 ^ 12 % 64, n / 2 ^ 6 % 64, n % 64].map digit

/-- The text of RFC 4648, section 4. -/
def text : List Byte → List Byte
  | x :: y :: z :: rest => group x y z ++ text rest
  | [x, y] => (group x y 0#8).take 3 ++ [61#8]
  | [x] => (group x 0#8 0#8).take 2 ++ [61#8, 61#8]
  | [] => []

theorem promote_bits (signed : Bool) (c : Byte) :
    ((promote signed c &&& 0xfc#32) >>> 2).toNat = c.toNat / 4 ∧
      ((promote signed c &&& 0x03#32) <<< 4).toNat = c.toNat % 4 * 16 ∧
      ((promote signed c &&& 0xf0#32) >>> 4).toNat = c.toNat / 16 ∧
      ((promote signed c &&& 0x0f#32) <<< 2).toNat = c.toNat % 16 * 4 ∧
      ((promote signed c &&& 0xc0#32) >>> 6).toNat = c.toNat / 64 ∧
      (promote signed c &&& 0x3f#32).toNat = c.toNat % 64 := by
  revert signed c
  decide +kernel

theorem group_eq (x y z : Byte) :
    group x y z = [x.toNat / 4, x.toNat % 4 * 16 + y.toNat / 16,
      y.toNat % 16 * 4 + z.toNat / 64, z.toNat % 64].map digit := by
  unfold group
  refine congrArg (map digit) ?_
  simp only [cons.injEq, and_true]
  omega

theorem consume_eq (signed : Bool) (x y z : Byte) :
    consume signed x y z = group x y z := by
  obtain ⟨hx, hx', -⟩ := promote_bits signed x
  obtain ⟨-, -, hy, hy', -⟩ := promote_bits signed y
  obtain ⟨-, -, -, -, hz, hz'⟩ := promote_bits signed z
  have hsum : ∀ m n, m < 64 → n < 64 → (m + n) % 2 ^ 32 = m + n := by omega
  simp only [consume, group_eq, map_cons, map_nil, BitVec.toNat_add, hx, hx',
    hy, hy', hz, hz']
  rw [hsum _ _ (by omega) (by omega), hsum _ _ (by omega) (by omega)]

theorem encode_cons (signed : Bool) (x y z : Byte) (rest out : List Byte) :
    encode signed (x :: y :: z :: rest) out =
      encode signed rest (out ++ group x y z) := by
  simp [encode, encodeLoop, consume_eq, Nat.add_assoc]

theorem length_group (x y z : Byte) : (group x y z).length = 4 := rfl

theorem encode_eq (signed : Bool) (input out : List Byte) :
    encode signed input out = out ++ text input := by
  induction input using text.induct generalizing out with
  | case1 x y z rest ih => rw [encode_cons, ih, text, append_assoc]
  | case2 x y =>
    simp [encode, encodeLoop, consume_eq, text, length_group, take_append]
  | case3 x =>
    simp [encode, encodeLoop, consume_eq, text, length_group, take_append]
  | case4 => simp [encode, encodeLoop, text]

theorem val_digit {n : Nat} (h : n < 64) :
    val (digit n) = n ∧ digit n ≠ 61#8 := by
  revert n
  decide +kernel

theorem or_eq_add {a b k : Nat} (h : b < 2 ^ k) :
    a <<< k ||| b = a * 2 ^ k + b := by
  rw [← Nat.shiftLeft_add_eq_or_of_lt h, Nat.shiftLeft_eq]

theorem bits_eq {a b c d : Nat} (hb : b < 2 ^ 6) (hc : c < 2 ^ 6)
    (hd : d < 2 ^ 6) : a <<< 18 ||| b <<< 12 ||| c <<< 6 ||| d =
      a * 2 ^ 18 + (b * 2 ^ 12 + (c * 2 ^ 6 + d)) := by
  rw [Nat.or_assoc, Nat.or_assoc, or_eq_add hd,
    @or_eq_add b _ 12 (by omega), or_eq_add (by omega)]

theorem bytes_eq (n : Nat) :
    (n &&& 0xFF0000) >>> 16 = n / 2 ^ 16 % 2 ^ 8 ∧
      (n &&& 0x00FF00) >>> 8 = n / 2 ^ 8 % 2 ^ 8 ∧
      n &&& 0x0000FF = n % 2 ^ 8 := by
  have hmask : ∀ m, m &&& 0xFF = m % 2 ^ 8 := fun m =>
    Nat.and_two_pow_sub_one_eq_mod m 8
  simp only [Nat.shiftRight_and_distrib, ← Nat.shiftRight_eq_div_pow, ← hmask]
  exact ⟨rfl, rfl, trivial⟩

def Digits (x y z a b c d : Byte) : Prop :=
  val a = x.toNat / 4 ∧ val b = x.toNat % 4 * 16 + y.toNat / 16 ∧
    val c = y.toNat % 16 * 4 + z.toNat / 64 ∧ val d = z.toNat % 64

variable {x y z a b c d : Byte}

section

variable (h : Digits x y z a b c d)
include h

theorem decodeLoop_cons (rest out : List Byte) :
    decodeLoop (a :: b :: c :: d :: rest) out =
      decodeLoop rest (out ++ [x, y, z]) := by
  obtain ⟨ha, hb, hc, hd⟩ := h
  have hbits : val a <<< 18 ||| val b <<< 12 ||| val c <<< 6 ||| val d =
      x.toNat * 2 ^ 16 + y.toNat * 2 ^ 8 + z.toNat := by
    rw [bits_eq (by omega) (by omega) (by omega)]
    omega
  have hbyte : ∀ (n : Nat) (c : Byte), n = c.toNat → BitVec.ofNat 8 n = c := by
    rintro _ c rfl
    simp
  simp only [decodeLoop, hbits, bytes_eq]
  rw [hbyte _ x (by omega), hbyte _ y (by omega), hbyte _ z (by omega)]

theorem decode_last (out : List Byte) :
    decode [a, b, c, d] out = (true, out ++
      if c = 61#8 then [x] else if d = 61#8 then [x, y] else [x, y, z]) := by
  have hloop : decodeLoop [a, b, c, d] out = out ++ [x, y, z] :=
    decodeLoop_cons h [] out
  rw [decode, hloop]
  by_cases hc : c = 61#8
  · simp [hc]
  · by_cases hd : d = 61#8
    · simp [hc, hd]
    · simp [hc, hd]

theorem decode_cons (hc : c ≠ 61#8) (hd : d ≠ 61#8) {rest : List Byte}
    (hrest : rest.length % 4 = 0) (out : List Byte) :
    decode (a :: b :: c :: d :: rest) out =
      decode rest (out ++ [x, y, z]) := by
  by_cases hnil : rest = []
  · subst hnil
    rw [decode_last h, if_neg hc, if_neg hd]
    rfl
  · have hpos := length_pos_iff.mpr hnil
    obtain ⟨n, hn⟩ : ∃ n, rest.length = n + 2 := ⟨rest.length - 2, by omega⟩
    have hmod : (n + 2) % 4 = 0 ∧ (n + 2 + 1 + 1 + 1 + 1) % 4 = 0 := by omega
    simp [decode, hnil, decodeLoop_cons h, hn, hmod]

end

theorem length_text (input : List Byte) : (text input).length % 4 = 0 := by
  induction input using text.induct with
  | case1 x y z rest ih => simp [text, length_group, ih]
  | case2 x y => simp [text, length_group]
  | case3 x => simp [text, length_group]
  | case4 => simp [text]

theorem decode_text (input out : List Byte) :
    decode (text input) out = (true, out ++ input) := by
  induction input using text.induct generalizing out with
  | case1 x y z rest ih =>
    have hc := @val_digit (y.toNat % 16 * 4 + z.toNat / 64) (by omega)
    have hd := @val_digit (z.toNat % 64) (by omega)
    have hcons := @decode_cons x y z _ _ _ _ ⟨(val_digit (by omega)).1,
      (val_digit (by omega)).1, hc.1, hd.1⟩ hc.2 hd.2 _ (length_text rest) out
    rw [ih, append_assoc] at hcons
    rw [text, group_eq]
    exact hcons
  | case2 x y =>
    have hc := @val_digit (y.toNat % 16 * 4) (by omega)
    have hlast := @decode_last x y 0#8 _ _ _ 61#8 ⟨(val_digit (by omega)).1,
      (val_digit (by omega)).1, hc.1, by decide⟩ out
    rw [if_neg hc.2] at hlast
    simpa [text, group_eq] using hlast
  | case3 x =>
    have hlast := @decode_last x 0#8 0#8 _ _ 61#8 61#8
      ⟨(val_digit (by omega)).1, (val_digit (by simp; omega)).1, by decide,
        by decide⟩ out
    simpa [text, group_eq] using hlast
  | case4 => simp [text, decode]

theorem decode_encode (signed : Bool) (input out out' : List Byte) :
    encode signed input out = out ++ text input ∧
      decode (text input) out' = (true, out' ++ input) :=
  ⟨encode_eq signed input out, decode_text input out'⟩

end ActorFramework.Core.Base64
