import Mathlib.Algebra.BigOperators.Group.Finset.Basic
import Mathlib.Algebra.GroupWithZero.Nat

/-!
# Counting along lists

What a sum or a count over a list, or over the numbers below a bound, becomes
when one entry is replaced or removed.
-/

namespace ActorFramework.Foundation

open List

variable {α : Type*}

variable {l : List α} {i : Nat} {old : α}

theorem sum_map_eraseIdx (f : α → Nat) (hold : l[i]? = some old) :
    ((l.eraseIdx i).map f).sum + f old = (l.map f).sum := by
  obtain ⟨hlt, rfl⟩ := List.getElem?_eq_some_iff.mp hold
  have hsum := ((getElem_cons_eraseIdx_perm hlt).map f).sum_eq
  rw [map_cons, sum_cons] at hsum
  omega

theorem sum_map_set (f : α → Nat) (hold : l[i]? = some old) (new : α) :
    ((l.set i new).map f).sum + f old = (l.map f).sum + f new := by
  have hlt := (List.getElem?_eq_some_iff.mp hold).1
  have hsum := ((set_perm_cons_eraseIdx hlt new).map f).sum_eq
  have herase := sum_map_eraseIdx f hold
  rw [map_cons, sum_cons] at hsum
  omega

theorem toNat_eq_ite (b : Bool) : b.toNat = if b then 1 else 0 := by
  cases b <;> rfl

theorem countP_eq_sum (p : α → Bool) (l : List α) :
    l.countP p = (l.map fun x => (p x).toNat).sum := by
  induction l with
  | nil => rfl
  | cons x xs ih =>
    rw [countP_cons, map_cons, sum_cons, ih, toNat_eq_ite, Nat.add_comm]

theorem countP_set_add (p : α → Bool) (hold : l[i]? = some old) (new : α) :
    (l.set i new).countP p + (p old).toNat = l.countP p + (p new).toNat := by
  rw [countP_eq_sum, countP_eq_sum]
  exact sum_map_set _ hold new

theorem countP_eraseIdx_add (p : α → Bool) (hold : l[i]? = some old) :
    (l.eraseIdx i).countP p + (p old).toNat = l.countP p := by
  rw [countP_eq_sum, countP_eq_sum]
  exact sum_map_eraseIdx _ hold

theorem countP_concat (p : α → Bool) (l : List α) (new : α) :
    (l ++ [new]).countP p = l.countP p + (p new).toNat := by
  rw [countP_append, countP_singleton, toNat_eq_ite]

theorem sum_range_update {f g : Nat → Nat} {n k : Nat} (hk : k < n)
    (hne : ∀ j, j ≠ k → g j = f j) :
    ∑ j ∈ Finset.range n, g j + f k = ∑ j ∈ Finset.range n, f j + g k := by
  have hmem : k ∈ Finset.range n := Finset.mem_range.mpr hk
  have hrest : ∑ j ∈ (Finset.range n).erase k, g j =
      ∑ j ∈ (Finset.range n).erase k, f j :=
    Finset.sum_congr rfl fun j hj => hne j (Finset.ne_of_mem_erase hj)
  rw [← Finset.add_sum_erase _ g hmem, ← Finset.add_sum_erase _ f hmem, hrest]
  omega

end ActorFramework.Foundation
