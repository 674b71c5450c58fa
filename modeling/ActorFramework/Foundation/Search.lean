import Mathlib.Data.List.Infix

/-!
# The first occurrence of a pattern

Where a pattern begins for the first time in a list, as found by a search from
the left.  A search that has found the pattern does not depend on what follows,
and it finds nothing in a list that ends earlier.
-/

namespace ActorFramework.Foundation

open List Option

variable {α : Type} [DecidableEq α]

def search (pat : List α) : List α → Option Nat
  | [] => if pat = [] then some 0 else none
  | x :: xs =>
    if pat <+: x :: xs then some 0 else (search pat xs).map (· + 1)

variable {pat xs ys : List α} {x : α} {i : Nat}

theorem search_here (h : pat <+: x :: xs) : search pat (x :: xs) = some 0 := by
  rw [search, if_pos h]

theorem search_later (h : ¬ pat <+: x :: xs) :
    search pat (x :: xs) = (search pat xs).map (· + 1) := by
  rw [search, if_neg h]

theorem search_spec (h : search pat xs = some i) :
    i ≤ xs.length ∧ pat <+: xs.drop i := by
  induction xs generalizing i with
  | nil =>
    obtain ⟨hnil, h⟩ := ite_none_right_eq_some.mp h
    simp [hnil, ← some.inj h]
  | cons x xs ih =>
    by_cases hstart : pat <+: x :: xs
    · rw [search_here hstart] at h
      rw [← some.inj h]
      exact ⟨Nat.zero_le _, hstart⟩
    · rw [search_later hstart] at h
      obtain ⟨j, hj, rfl⟩ := map_eq_some_iff.mp h
      exact ⟨Nat.succ_le_succ (ih hj).1, (ih hj).2⟩

theorem search_length_le (h : search pat xs = some i) :
    i + pat.length ≤ xs.length := by
  obtain ⟨hi, hstart⟩ := search_spec h
  have hle := hstart.length_le
  rw [length_drop] at hle
  omega

theorem prefix_of_search (h : search pat xs = some i) : pat <+: xs.drop i :=
  (search_spec h).2

theorem search_le {j : Nat} (h : pat <+: xs.drop j) :
    ∃ i ≤ j, search pat xs = some i := by
  induction xs generalizing j with
  | nil =>
    rw [drop_nil, prefix_nil] at h
    exact ⟨0, Nat.zero_le j, if_pos h⟩
  | cons x xs ih =>
    by_cases hstart : pat <+: x :: xs
    · exact ⟨0, Nat.zero_le j, search_here hstart⟩
    · cases j with
      | zero => exact absurd h hstart
      | succ j =>
        obtain ⟨i, hle, hi⟩ := ih h
        refine ⟨i + 1, Nat.succ_le_succ hle, ?_⟩
        rw [search_later hstart, hi]
        rfl

theorem search_none_iff : search pat xs = none ↔ ¬ pat <:+: xs := by
  constructor
  · rintro hnone ⟨front, back, rfl⟩
    obtain ⟨i, -, hi⟩ := @search_le _ _ pat (front ++ pat ++ back) front.length
      (by simp)
    rw [hi] at hnone
    cases hnone
  · intro hnot
    cases hfound : search pat xs with
    | none => rfl
    | some i =>
      exact absurd ((prefix_of_search hfound).isInfix.trans
        (drop_suffix i xs).isInfix) hnot

section

variable (h : search pat xs = some i)
include h

theorem search_append (ys : List α) : search pat (xs ++ ys) = some i := by
  induction xs generalizing i with
  | nil =>
    obtain ⟨hnil, h⟩ := ite_none_right_eq_some.mp h
    rw [← h, hnil]
    cases ys <;> rfl
  | cons x xs ih =>
    by_cases hstart : pat <+: x :: xs
    · rw [search_here hstart] at h
      rw [cons_append, ← h]
      exact search_here (hstart.trans (prefix_append _ _))
    · rw [search_later hstart] at h
      obtain ⟨j, hj, rfl⟩ := map_eq_some_iff.mp h
      have hlong : pat.length ≤ (x :: xs).length := by
        have hle := search_length_le hj
        rw [length_cons]
        omega
      have hnot : ¬ pat <+: x :: (xs ++ ys) := fun hlater =>
        hstart (prefix_of_prefix_length_le hlater
          (prefix_append (x :: xs) ys) hlong)
      rw [cons_append, search_later hnot, ih hj]
      rfl

theorem search_eq_none (hys : ys <+: xs) (hshort : ys.length < i + pat.length) :
    search pat ys = none := by
  cases hsome : search pat ys with
  | none => rfl
  | some j =>
    obtain ⟨rest, rfl⟩ := hys
    have hle := search_length_le hsome
    rw [search_append hsome rest] at h
    have heq := some.inj h
    omega

theorem search_eq_some (hys : ys <+: xs) (hlong : i + pat.length ≤ ys.length) :
    search pat ys = some i := by
  cases hsome : search pat ys with
  | some j =>
    obtain ⟨rest, rfl⟩ := hys
    rw [search_append hsome rest] at h
    exact h
  | none =>
    obtain ⟨rest, rfl⟩ := hys
    have hstart := prefix_of_search h
    rw [drop_append_of_le_length (by omega)] at hstart
    have hearlier : pat <+: ys.drop i :=
      prefix_of_prefix_length_le hstart (prefix_append _ rest) (by
        rw [length_drop]
        omega)
    obtain ⟨j, -, hj⟩ := search_le hearlier
    rw [hsome] at hj
    cases hj

end

variable {ps line : List α}

theorem search_skip {p : α} (h : p ∉ line) (rest : List α) :
    search (p :: ps) (line ++ rest) =
      (search (p :: ps) rest).map (line.length + ·) := by
  induction line with
  | nil => simp
  | cons x line ih =>
    have hx : p ≠ x := fun heq => h (heq ▸ mem_cons_self)
    have hnot : ¬ p :: ps <+: x :: (line ++ rest) := fun hstart =>
      hx (cons_prefix_cons.mp hstart).1
    rw [cons_append, search_later hnot,
      ih (fun hmem => h (mem_cons_of_mem _ hmem)), Option.map_map]
    refine congrArg (fun f => Option.map f _) (funext fun n => ?_)
    simp only [Function.comp_apply, length_cons]
    omega

theorem search_of_not_mem {p : α} (h : p ∉ line) (rest : List α) :
    search (p :: ps) (line ++ (p :: ps ++ rest)) = some line.length := by
  have hstart : p :: ps <+: p :: (ps ++ rest) := prefix_append _ rest
  rw [search_skip h, cons_append, search_here hstart]
  rfl

omit [DecidableEq α] in
theorem prefix_of_not_mem (hx : x ∉ pat) (h : pat <+: xs ++ x :: ys) :
    pat <+: xs := by
  induction xs generalizing pat with
  | nil =>
    cases pat with
    | nil => exact nil_prefix
    | cons p ps =>
      have hfirst := (cons_prefix_cons.mp h).1
      exact absurd (hfirst ▸ mem_cons_self) hx
  | cons y xs ih =>
    cases pat with
    | nil => exact nil_prefix
    | cons p ps =>
      obtain ⟨hfirst, hrest⟩ := cons_prefix_cons.mp h
      exact cons_prefix_cons.mpr
        ⟨hfirst, ih (fun hmem => hx (mem_cons_of_mem _ hmem)) hrest⟩

theorem exists_first {β : Type} {p : β → Prop} {xs : List β}
    (h : ¬ ∀ x ∈ xs, p x) :
    ∃ pre x post, xs = pre ++ x :: post ∧ (∀ y ∈ pre, p y) ∧ ¬ p x := by
  induction xs with
  | nil => simp at h
  | cons x xs ih =>
    by_cases hx : p x
    · obtain ⟨pre, y, post, rfl, hpre, hy⟩ := ih (by simpa [hx] using h)
      exact ⟨x :: pre, y, post, rfl, by simpa [hx] using hpre, hy⟩
    · exact ⟨[], x, xs, rfl, by simp, hx⟩

end ActorFramework.Foundation
