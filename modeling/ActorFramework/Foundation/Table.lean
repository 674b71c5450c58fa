import Mathlib.Data.List.Basic

/-!
# Lists as tables

Entries are looked up by index, replaced, and added at the end.
-/

namespace ActorFramework.Foundation

open List

variable {α : Type*}

variable {l : List α} {i : Nat} {a new : α}

theorem getElem?_set_of_some {old : α} (new : α) (h : l[i]? = some old) :
    (l.set i new)[i]? = some new :=
  getElem?_set_self (List.getElem?_eq_some_iff.mp h).1

theorem set_eq_of_getElem? (h : l[i]? = some a) : l.set i a = l := by
  obtain ⟨hlt, rfl⟩ := List.getElem?_eq_some_iff.mp h
  exact set_getElem_self hlt

theorem getElem?_set_cases {j : Nat} (h : (l.set i new)[j]? = some a) :
    j = i ∧ a = new ∨ j ≠ i ∧ l[j]? = some a := by
  rcases eq_or_ne i j with rfl | hne
  · have hlt : i < (l.set i new).length := (List.getElem?_eq_some_iff.mp h).1
    rw [length_set] at hlt
    rw [getElem?_set_self hlt, Option.some.injEq] at h
    exact .inl ⟨rfl, h.symm⟩
  · rw [getElem?_set_ne hne] at h
    exact .inr ⟨hne.symm, h⟩

theorem getElem?_concat_cases (h : (l ++ [new])[i]? = some a) :
    l[i]? = some a ∨ i = l.length ∧ a = new := by
  rcases Nat.lt_or_ge i l.length with hlt | hge
  · rw [getElem?_append_left hlt] at h
    exact .inl h
  · rw [getElem?_append_right hge, getElem?_singleton] at h
    split at h
    · exact .inr ⟨by omega, (Option.some.inj h).symm⟩
    · cases h

theorem getElem?_concat_of_some (new : α) (h : l[i]? = some a) :
    (l ++ [new])[i]? = some a := by
  rw [getElem?_append_left (List.getElem?_eq_some_iff.mp h).1, h]

end ActorFramework.Foundation
