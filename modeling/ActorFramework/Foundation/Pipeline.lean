import Mathlib.Data.List.Basic

/-!
# Pipelines of handlers

A handler consumes a sequence of items that ends with success or with an
error.  It refuses an item when it needs no more, and is not called again after
that.  A pipeline puts stages in front of a handler: a stage reacts to an item
by passing items on, and it may end the sequence early.

The meaning of a handler in a state is what is finally produced from the rest
of the sequence.  A stage means a function on sequences, and a pipeline the
composition.
-/

namespace ActorFramework.Foundation

open List

variable {α β γ δ ε σ τ : Type*}

inductive Ending (ε : Type*) where
  | complete
  | error (reason : ε)
  deriving DecidableEq

structure Handler (α ε σ : Type*) where
  onNext : σ → α → σ × Bool
  onComplete : σ → σ
  onError : σ → ε → σ

namespace Handler

def close (h : Handler α ε σ) (s : σ) : Ending ε → σ
  | .complete => h.onComplete s
  | .error reason => h.onError s reason

def feed (h : Handler α ε σ) : σ → List α → σ × Bool
  | s, [] => (s, true)
  | s, item :: items =>
    match h.onNext s item with
    | (t, true) => h.feed t items
    | (t, false) => (t, false)

@[simp] theorem feed_nil (h : Handler α ε σ) (s : σ) :
    h.feed s [] = (s, true) := rfl

@[simp] theorem feed_singleton (h : Handler α ε σ) (s : σ) (item : α) :
    h.feed s [item] = h.onNext s item := by
  simp only [feed]
  split
  · rename_i hnext
    exact hnext.symm
  · rename_i hnext
    exact hnext.symm

/-- The handler produces `meaning s items e` from state `s`, items and how the
sequence has ended, where `final` reads off the result after the last call. -/
structure Realizes (h : Handler α ε σ) (live : σ → Prop)
    (final : σ → List γ × δ)
    (meaning : σ → List α → Ending ε → List γ × δ) : Prop where
  accept : ∀ {s t : σ} {item : α}, live s → h.onNext s item = (t, true) →
    live t ∧ ∀ items e, meaning s (item :: items) e = meaning t items e
  refuse : ∀ {s t : σ} {item : α}, live s → h.onNext s item = (t, false) →
    ∀ items e, meaning s (item :: items) e = final t
  close : ∀ {s : σ}, live s → ∀ e, meaning s [] e = final (h.close s e)
  grows : ∀ {s : σ}, live s → ∀ items e, (final s).1 <+: (meaning s items e).1

variable {h : Handler α ε σ} {live : σ → Prop}
  {final : σ → List γ × δ} {meaning : σ → List α → Ending ε → List γ × δ}

theorem Realizes.feed_accept (hr : Realizes h live final meaning) {s t : σ}
    {items : List α} (hlive : live s) (hfeed : h.feed s items = (t, true)) :
    live t ∧ ∀ more e, meaning s (items ++ more) e = meaning t more e := by
  induction items generalizing s with
  | nil =>
    cases hfeed
    exact ⟨hlive, fun _ _ => rfl⟩
  | cons item items ih =>
    simp only [feed] at hfeed
    split at hfeed
    · rename_i u hnext
      obtain ⟨hlive', hsame⟩ := hr.accept hlive hnext
      obtain ⟨hlast, hrest⟩ := ih hlive' hfeed
      refine ⟨hlast, fun more e => ?_⟩
      rw [cons_append, hsame, hrest]
    · cases hfeed

theorem Realizes.feed_refuse (hr : Realizes h live final meaning) {s t : σ}
    {items : List α} (hlive : live s) (hfeed : h.feed s items = (t, false)) :
    ∀ more e, meaning s (items ++ more) e = final t := by
  induction items generalizing s with
  | nil => cases hfeed
  | cons item items ih =>
    intro more e
    simp only [feed] at hfeed
    split at hfeed
    · rename_i u hnext
      obtain ⟨hlive', hsame⟩ := hr.accept hlive hnext
      rw [cons_append, hsame, ih hlive' hfeed]
    · rename_i u hnext
      cases hfeed
      rw [cons_append, hr.refuse hlive hnext]

end Handler

/-- `react` gives the items to pass on, and no state when the stage ends the
sequence.  `flush` gives the items that are left and how the sequence ends. -/
structure Stage (α β ε σ : Type*) where
  react : σ → α → List β × Option σ
  flush : σ → Ending ε → List β × Ending ε

namespace Stage

def run (stage : Stage α β ε σ) :
    σ → List α → Ending ε → List β × Ending ε
  | s, [], e => stage.flush s e
  | s, item :: items, e =>
    match stage.react s item with
    | (out, none) => (out, .complete)
    | (out, some t) =>
      (out ++ (stage.run t items e).1, (stage.run t items e).2)

/-- A handler that behaves like `stage` in front of `next`.  Its own part of
the state is of no interest any more after an item was refused or the sequence
has ended. -/
structure Follows (stage : Stage α β ε σ) (next : Handler β ε τ)
    (h : Handler α ε (σ × τ)) : Prop where
  accept : ∀ {q r : σ} {s t : τ} {item : α} {out : List β},
    stage.react q item = (out, some r) → next.feed s out = (t, true) →
    h.onNext (q, s) item = ((r, t), true)
  stop : ∀ {q : σ} {s t : τ} {item : α} {out : List β},
    stage.react q item = (out, none) → next.feed s out = (t, true) →
    ∃ r, h.onNext (q, s) item = ((r, next.onComplete t), false)
  refuse : ∀ {q : σ} {s t : τ} {item : α} {out : List β} {r : Option σ},
    stage.react q item = (out, r) → next.feed s out = (t, false) →
    ∃ r, h.onNext (q, s) item = ((r, t), false)
  close : ∀ {q : σ} {s t : τ} {e e' : Ending ε} {out : List β},
    stage.flush q e = (out, e') → next.feed s out = (t, true) →
    ∃ r, h.close (q, s) e = (r, next.close t e')
  cut : ∀ {q : σ} {s t : τ} {e e' : Ending ε} {out : List β},
    stage.flush q e = (out, e') → next.feed s out = (t, false) →
    ∃ r, h.close (q, s) e = (r, t)

variable {stage : Stage α β ε σ} {next : Handler β ε τ}
  {h : Handler α ε (σ × τ)} {live : τ → Prop}
  {final : τ → List γ × δ} {meaning : τ → List β → Ending ε → List γ × δ}

def after (stage : Stage α β ε σ) (meaning : τ → List β → Ending ε → List γ × δ)
    (s : σ × τ) (items : List α) (e : Ending ε) : List γ × δ :=
  meaning s.2 (stage.run s.1 items e).1 (stage.run s.1 items e).2

theorem Follows.realizes (hf : Follows stage next h)
    (hr : next.Realizes live final meaning) :
    h.Realizes (fun s => live s.2) (fun s => final s.2)
      (stage.after meaning) where
  accept := by
    rintro ⟨q, s⟩ t item hlive hnext
    rcases hreact : stage.react q item with ⟨out, r⟩
    rcases hfeed : next.feed s out with ⟨u, ok⟩
    cases ok with
    | false =>
      obtain ⟨r', hcode⟩ := hf.refuse hreact hfeed
      cases hcode ▸ hnext
    | true =>
      cases r with
      | none =>
        obtain ⟨r', hcode⟩ := hf.stop hreact hfeed
        cases hcode ▸ hnext
      | some r =>
        have hcode := hf.accept hreact hfeed
        cases hcode ▸ hnext
        obtain ⟨hlive', hsame⟩ := hr.feed_accept hlive hfeed
        refine ⟨hlive', fun items e => ?_⟩
        simp [after, run, hreact, hsame]
  refuse := by
    rintro ⟨q, s⟩ t item hlive hnext items e
    rcases hreact : stage.react q item with ⟨out, r⟩
    rcases hfeed : next.feed s out with ⟨u, ok⟩
    cases ok with
    | false =>
      obtain ⟨r', hcode⟩ := hf.refuse hreact hfeed
      cases hcode ▸ hnext
      have hcut := hr.feed_refuse hlive hfeed
      cases r with
      | none =>
        have hlast := hcut [] .complete
        rw [append_nil] at hlast
        simp [after, run, hreact, hlast]
      | some r => simp only [after, run, hreact, hcut]
    | true =>
      obtain ⟨hlive', hsame⟩ := hr.feed_accept hlive hfeed
      cases r with
      | none =>
        obtain ⟨r', hcode⟩ := hf.stop hreact hfeed
        cases hcode ▸ hnext
        have hlast := hsame [] .complete
        rw [append_nil] at hlast
        simp only [after, run, hreact, hlast, hr.close hlive']
        rfl
      | some r =>
        have hcode := hf.accept hreact hfeed
        cases hcode ▸ hnext
  close := by
    rintro ⟨q, s⟩ hlive e
    rcases hflush : stage.flush q e with ⟨out, e'⟩
    rcases hfeed : next.feed s out with ⟨u, ok⟩
    cases ok with
    | false =>
      obtain ⟨r', hcode⟩ := hf.cut hflush hfeed
      have hcut := hr.feed_refuse hlive hfeed [] e'
      rw [append_nil] at hcut
      simp [after, run, hflush, hcut, hcode]
    | true =>
      obtain ⟨r', hcode⟩ := hf.close hflush hfeed
      obtain ⟨hlive', hsame⟩ := hr.feed_accept hlive hfeed
      have hlast := hsame [] e'
      rw [append_nil] at hlast
      simp [after, run, hflush, hlast, hr.close hlive', hcode]
  grows := fun hlive items e => hr.grows hlive _ _

end Stage

end ActorFramework.Foundation
