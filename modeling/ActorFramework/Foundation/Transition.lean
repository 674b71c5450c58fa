import Mathlib.Data.List.Basic

/-!
# Runs of labelled transition systems

A system is given by a partial step function: `step s a` is the state after
action `a`, or `none` when `a` is not enabled in `s`.  Every choice of the
scheduler and of the environment is part of the action, so a run is a list of
actions and an interleaving is the order of that list.
-/

namespace ActorFramework.Foundation

open List

variable {σ α : Type*}

/-- Take the actions in order; `none` as soon as one of them is not enabled. -/
def exec (step : σ → α → Option σ) : σ → List α → Option σ
  | s, [] => some s
  | s, a :: as => (step s a).bind fun t => exec step t as

@[simp] theorem exec_nil (step : σ → α → Option σ) (s : σ) :
    exec step s [] = some s := rfl

variable {step : σ → α → Option σ} {s t : σ} {as bs : List α}
  {guard : σ → α → Prop}

theorem of_guard {c : Prop} [Decidable c]
    (h : (if c then some s else none) = some t) : c ∧ s = t := by
  obtain ⟨hc, hsome⟩ := Option.ite_none_right_eq_some.mp h
  exact ⟨hc, Option.some.inj hsome⟩

theorem of_guarded {c : Prop} [Decidable c] {o : Option σ}
    (h : (if c then o else none) = some t) : o = some t :=
  (Option.ite_none_right_eq_some.mp h).2

theorem of_guard_map {β : Type*} {c : Prop} [Decidable c] {f : σ → β} {b : β}
    (h : (if c then some s else none).map f = some b) : c ∧ f s = b := by
  obtain ⟨t, ht, hb⟩ := Option.map_eq_some_iff.mp h
  obtain ⟨hc, rfl⟩ := of_guard ht
  exact ⟨hc, hb⟩

/-- A run that is known to end, and some of what it ends with. -/
theorem exists_of_map {β : Type*} {o : Option σ} {P : σ → Prop} (f : σ → β)
    (b : β) (h : o.map f = some b) (hP : ∀ t, o = some t → f t = b → P t) :
    ∃ t, o = some t ∧ P t := by
  obtain ⟨t, ht, hf⟩ := Option.map_eq_some_iff.mp h
  exact ⟨t, ht, hP t ht hf⟩

theorem exec_cons_eq_some {a : α} :
    exec step s (a :: as) = some t ↔
      ∃ s', step s a = some s' ∧ exec step s' as = some t := by
  simp [exec, Option.bind_eq_some_iff]

theorem exec_append {u : σ} (hfirst : exec step s as = some t)
    (hrest : exec step t bs = some u) : exec step s (as ++ bs) = some u := by
  induction as generalizing s with
  | nil =>
    cases hfirst
    exact hrest
  | cons a as ih =>
    obtain ⟨s', hstep, htail⟩ := exec_cons_eq_some.mp hfirst
    exact exec_cons_eq_some.mpr ⟨s', hstep, ih htail⟩

/-- Every step of the run meets the condition `guard` in its own pre-state. -/
def Along (step : σ → α → Option σ) (guard : σ → α → Prop) :
    σ → List α → Prop
  | _, [] => True
  | s, a :: as =>
    guard s a ∧
      match step s a with
      | none => True
      | some t => Along step guard t as

instance Along.decidable (step : σ → α → Option σ) (guard : σ → α → Prop)
    [∀ s a, Decidable (guard s a)] :
    ∀ s as, Decidable (Along step guard s as)
  | _, [] => .isTrue trivial
  | s, a :: as =>
    have : Decidable (match step s a with
        | none => True
        | some t => Along step guard t as) :=
      match step s a with
      | none => .isTrue trivial
      | some t => Along.decidable step guard t as
    inferInstanceAs (Decidable (_ ∧ _))

theorem Along.tail {a : α} (h : Along step guard s (a :: as))
    (hstep : step s a = some t) : Along step guard t as := by
  have hrest := h.2
  rw [hstep] at hrest
  exact hrest

theorem Along.of_forall_mem (h : ∀ s, ∀ a ∈ as, guard s a) (s : σ) :
    Along step guard s as := by
  induction as generalizing s with
  | nil => exact trivial
  | cons a as ih =>
    refine ⟨h s a mem_cons_self, ?_⟩
    split
    · trivial
    · exact ih (fun t b hb => h t b (mem_cons_of_mem a hb)) _

theorem Along.and {guard' : σ → α → Prop} (h : Along step guard s as)
    (h' : Along step guard' s as) :
    Along step (fun s a => guard s a ∧ guard' s a) s as := by
  induction as generalizing s with
  | nil => exact trivial
  | cons a as ih =>
    refine ⟨⟨h.1, h'.1⟩, ?_⟩
    split
    · trivial
    · rename_i t hstep
      exact ih (h.tail hstep) (h'.tail hstep)

theorem exec_invariant_along (Inv : σ → Prop)
    (hstep : ∀ s a t, Inv s → guard s a → step s a = some t → Inv t)
    (hs : Inv s) (hguard : Along step guard s as)
    (hrun : exec step s as = some t) : Inv t := by
  induction as generalizing s with
  | nil =>
    cases hrun
    exact hs
  | cons a as ih =>
    obtain ⟨s', hfirst, hrest⟩ := exec_cons_eq_some.mp hrun
    exact ih (hstep s a s' hs hguard.1 hfirst) (hguard.tail hfirst) hrest

theorem exec_history_along {step : σ → α → Option σ} {guard : σ → α → Prop}
    (Inv : List α → σ → Prop)
    (hstep : ∀ as s a t, Inv as s → guard s a → step s a = some t →
      Inv (as ++ [a]) t) {s t : σ} {done as : List α} (hs : Inv done s)
    (hguard : Along step guard s as) (hrun : exec step s as = some t) :
    Inv (done ++ as) t := by
  induction as generalizing done s with
  | nil =>
    cases hrun
    rw [append_nil]
    exact hs
  | cons a as ih =>
    obtain ⟨s', hfirst, hrest⟩ := exec_cons_eq_some.mp hrun
    have htail := ih (hstep done s a s' hs hguard.1 hfirst)
      (hguard.tail hfirst) hrest
    rwa [append_assoc, singleton_append] at htail

theorem exec_invariant (Inv : σ → Prop)
    (hstep : ∀ s a t, Inv s → step s a = some t → Inv t) (hs : Inv s)
    (hrun : exec step s as = some t) : Inv t :=
  exec_invariant_along Inv (fun s a t h _ => hstep s a t h) hs
    (Along.of_forall_mem (fun _ _ _ => trivial) s) hrun

theorem exec_rel {τ : Type*} {step' : τ → α → Option τ} {R : σ → τ → Prop}
    (hstep : ∀ s t a, R s t → Option.Rel R (step s a) (step' t a)) {t : τ}
    (h : R s t) (as : List α) :
    Option.Rel R (exec step s as) (exec step' t as) := by
  induction as generalizing s t with
  | nil => exact .some h
  | cons a as ih =>
    have hnext := hstep s t a h
    rw [exec, exec]
    generalize step s a = o, step' t a = o' at hnext ⊢
    cases hnext with
    | some h => exact ih h
    | none => exact .none

theorem exec_relation {R : σ → σ → Prop} (hrefl : ∀ s, R s s)
    (htrans : ∀ s t u, R s t → R t u → R s u)
    (hstep : ∀ s a t, step s a = some t → R s t)
    (hrun : exec step s as = some t) : R s t :=
  exec_invariant (R s)
    (fun u a v hu huv => htrans s u v hu (hstep u a v huv)) (hrefl s) hrun

theorem exec_history (Inv : List α → σ → Prop)
    (hstep : ∀ as s a t, Inv as s → step s a = some t → Inv (as ++ [a]) t)
    {done : List α} (hs : Inv done s) (hrun : exec step s as = some t) :
    Inv (done ++ as) t :=
  exec_history_along Inv (fun as s a t h _ => hstep as s a t h) hs
    (Along.of_forall_mem (fun _ _ _ => trivial) s) hrun

theorem exec_append_eq_some {u : σ} (hfirst : exec step s as = some t)
    (hrun : exec step s (as ++ bs) = some u) : exec step t bs = some u := by
  induction as generalizing s with
  | nil =>
    cases hfirst
    exact hrun
  | cons a as ih =>
    obtain ⟨s', hstep, htail⟩ := exec_cons_eq_some.mp hfirst
    obtain ⟨s'', hstep', hrest⟩ := exec_cons_eq_some.mp hrun
    rw [hstep, Option.some.injEq] at hstep'
    subst hstep'
    exact ih htail hrest

theorem Along.append_left (h : Along step guard s (as ++ bs)) :
    Along step guard s as := by
  induction as generalizing s with
  | nil => exact trivial
  | cons a as ih =>
    refine ⟨h.1, ?_⟩
    split
    · trivial
    · rename_i t hstep
      exact ih (Along.tail h hstep)

theorem Along.append_right (h : Along step guard s (as ++ bs))
    (hfirst : exec step s as = some t) : Along step guard t bs := by
  induction as generalizing s with
  | nil =>
    cases hfirst
    exact h
  | cons a as ih =>
    obtain ⟨s', hstep, htail⟩ := exec_cons_eq_some.mp hfirst
    exact ih (Along.tail h hstep) htail

end ActorFramework.Foundation
