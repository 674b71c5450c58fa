import Mathlib.Logic.Basic

/-!
# Scanners

A scanner takes elements from the front of a list and returns a value, or it
fails with an error.  What a scanner reads is stated in front of each rest that
is allowed to follow.
-/

namespace ActorFramework.Foundation

abbrev Scanner (α ε τ : Type) := StateT (List α) (Except ε) τ

namespace Scanner

variable {α ε τ υ : Type} {p : Scanner α ε τ} {f : τ → Scanner α ε υ}
  {text text' : List α} {x : τ} {y : υ} {after after' : List α → Prop}

def Reads (p : Scanner α ε τ) (text : List α) (x : τ)
    (after : List α → Prop) : Prop :=
  ∀ rest, after rest → p (text ++ rest) = .ok (x, rest)

theorem reads_pure (x : τ) (after : List α → Prop) :
    Reads (pure x : Scanner α ε τ) [] x after :=
  fun _ _ => rfl

theorem bind_of_eq {input rest : List α} (h : p input = .ok (x, rest)) :
    (p >>= f) input = f x rest := by
  change (p input >>= fun res => f res.1 res.2) = _
  rw [h]
  rfl

theorem exists_of_bind {input rest : List α}
    (h : (p >>= f) input = .ok (y, rest)) :
    ∃ x mid, p input = .ok (x, mid) ∧ f x mid = .ok (y, rest) := by
  cases hp : p input with
  | error e =>
    change (p input >>= fun res => f res.1 res.2) = _ at h
    rw [hp] at h
    cases h
  | ok res => exact ⟨res.1, res.2, rfl, (bind_of_eq hp).symm.trans h⟩

theorem Reads.bind (h : Reads p text x after') (h' : Reads (f x) text' y after)
    (hafter : ∀ rest, after rest → after' (text' ++ rest)) :
    Reads (p >>= f) (text ++ text') y after := by
  intro rest hrest
  rw [List.append_assoc, bind_of_eq (h _ (hafter rest hrest))]
  exact h' rest hrest

theorem Reads.andThen (h : Reads p text x fun _ => True)
    (h' : Reads (f x) text' y after) :
    Reads (p >>= f) (text ++ text') y after :=
  h.bind h' fun _ _ => trivial

theorem Reads.finish (h : Reads p text x after) (h' : Reads (f x) [] y after) :
    Reads (p >>= f) text y after := by
  intro rest hrest
  rw [bind_of_eq (h rest hrest)]
  exact h' rest hrest

end Scanner

end ActorFramework.Foundation
