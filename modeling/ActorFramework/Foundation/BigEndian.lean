import Mathlib.Algebra.GroupWithZero.Nat
import Mathlib.Data.List.Basic

/-!
# Numbers in network byte order

A number is written with a fixed number of bytes, the most significant byte
first.
-/

namespace ActorFramework.Foundation

def toBytes : Nat → Nat → List (BitVec 8)
  | 0, _ => []
  | width + 1, n => toBytes width (n / 256) ++ [BitVec.ofNat 8 n]

def ofBytes (bytes : List (BitVec 8)) : Nat :=
  bytes.foldl (fun n byte => n * 256 + byte.toNat) 0

@[simp] theorem length_toBytes (width n : Nat) :
    (toBytes width n).length = width := by
  induction width generalizing n with
  | zero => rfl
  | succ width ih => simp [toBytes, ih]

theorem ofBytes_concat (bytes : List (BitVec 8)) (byte : BitVec 8) :
    ofBytes (bytes ++ [byte]) = ofBytes bytes * 256 + byte.toNat := by
  simp [ofBytes]

theorem ofBytes_toBytes (width n : Nat) :
    ofBytes (toBytes width n) = n % 256 ^ width := by
  induction width generalizing n with
  | zero => simp [toBytes, ofBytes, Nat.mod_one]
  | succ width ih =>
    have hdigit : (BitVec.ofNat 8 n).toNat = n % 256 :=
      BitVec.toNat_ofNat n 8
    rw [toBytes, ofBytes_concat, ih, hdigit, Nat.pow_succ', Nat.mod_mul]
    omega

theorem toBytes_mod (width n : Nat) :
    toBytes width (n % 256 ^ width) = toBytes width n := by
  induction width generalizing n with
  | zero => rfl
  | succ width ih =>
    have hlow : n % 256 ^ (width + 1) / 256 = n / 256 % 256 ^ width := by
      rw [Nat.pow_succ', Nat.mod_mul_right_div_self]
    have hdigit : BitVec.ofNat 8 (n % 256 ^ (width + 1)) =
        BitVec.ofNat 8 n := by
      apply BitVec.eq_of_toNat_eq
      rw [BitVec.toNat_ofNat, BitVec.toNat_ofNat, Nat.pow_succ']
      exact Nat.mod_mul_right_mod n 256 (256 ^ width)
    rw [toBytes, toBytes, hlow, ih, hdigit]

theorem toBytes_zero (width : Nat) :
    toBytes width 0 = List.replicate width 0#8 := by
  induction width with
  | zero => rfl
  | succ width ih => rw [toBytes, Nat.zero_div, ih, List.replicate_succ']

end ActorFramework.Foundation
