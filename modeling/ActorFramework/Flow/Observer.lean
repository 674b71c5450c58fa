import Mathlib.Data.List.Basic

/-!
# Observers and sources

An operator holds a handle to its observer and calls `on_next` any number of
times, then at most once `on_complete` or `on_error`.  Both release the handle
before the call.  The handle keeps the calls that were made.

A source calls the operator.  It calls `on_subscribe` once, emits no more
items than were requested and nothing after it has ended.
-/

namespace ActorFramework.Flow

open List

variable {τ : Type*}

/-- A call that an observer gets.  `none` is a default-constructed error, and
`disposed` is `on_error` with the error code of the same name, as an operator
sends it when it is disposed. -/
inductive FlowEvent (τ : Type*) where
  | next (item : τ)
  | complete
  | error (reason : Option Nat)
  | disposed
  deriving DecidableEq

structure SourceState where
  subscribed : Bool := false
  ended : Bool := false
  requested : Nat := 0
  emitted : Nat := 0

structure InnerSource (τ : Type*) where
  subscribed : Bool := false
  ended : Bool := false
  requested : Nat := 0
  items : List τ := []

namespace FlowEvent

/-- The terminal event of an operator that keeps its error in `err_`. -/
def ofErr : Option Nat → FlowEvent τ
  | none => .complete
  | some reason => .error (some reason)

/-- The terminal event of such an operator when it is disposed. -/
def ofDispose : Option Nat → FlowEvent τ
  | none => .disposed
  | some reason => .error (some reason)

def item : FlowEvent τ → Option τ
  | .next item => some item
  | _ => none

def isTerminal : FlowEvent τ → Bool
  | .next _ => false
  | _ => true

theorem isTerminal_ofErr (err : Option Nat) :
    (ofErr err : FlowEvent τ).isTerminal = true := by
  cases err <;> rfl

theorem isTerminal_ofDispose (err : Option Nat) :
    (ofDispose err : FlowEvent τ).isTerminal = true := by
  cases err <;> rfl

end FlowEvent

structure Observer (τ : Type*) where
  valid : Bool := true
  events : List (FlowEvent τ) := []

namespace Observer

variable (out : Observer τ)

def onNext (item : τ) : Observer τ :=
  { out with events := out.events ++ [.next item] }

def finish (event : FlowEvent τ) : Observer τ :=
  ⟨false, out.events ++ [event]⟩

/-- `release_later`: the operator drops its handle. -/
def release : Observer τ := { out with valid := false }

def delivered : List τ :=
  out.events.filterMap FlowEvent.item

def ending : List (FlowEvent τ) :=
  out.events.filter FlowEvent.isTerminal

section

variable (out : Observer τ)

@[simp] theorem onNext_valid (item : τ) :
    (out.onNext item).valid = out.valid := rfl

@[simp] theorem onNext_delivered (item : τ) :
    (out.onNext item).delivered = out.delivered ++ [item] := by
  simp [onNext, delivered, FlowEvent.item]

@[simp] theorem onNext_ending (item : τ) :
    (out.onNext item).ending = out.ending := by
  simp [onNext, ending, FlowEvent.isTerminal]

@[simp] theorem finish_valid (event : FlowEvent τ) :
    (out.finish event).valid = false := rfl

end

variable {event : FlowEvent τ} {out : Observer τ}

theorem finish_delivered (out : Observer τ) (hterm : event.isTerminal = true) :
    (out.finish event).delivered = out.delivered := by
  cases event with
  | next item => cases hterm
  | complete | error reason | disposed =>
    simp [finish, delivered, FlowEvent.item]

theorem finish_ending (out : Observer τ) (hterm : event.isTerminal = true) :
    (out.finish event).ending = out.ending ++ [event] := by
  simp [finish, ending, hterm]

@[simp] theorem release_ending (out : Observer τ) :
    out.release.ending = out.ending := rfl

/-- The protocol between an operator and its observer: all items come before
the terminal event, there is at most one, and none while the handle is set. -/
structure Lawful (out : Observer τ) : Prop where
  shape : out.events = out.delivered.map .next ++ out.ending
  once : out.ending.length ≤ 1
  running : out.valid = true → out.ending = []

theorem lawful_initial : Lawful ({} : Observer τ) :=
  ⟨rfl, Nat.zero_le 1, fun _ => rfl⟩

section

variable (h : Lawful out)
include h

theorem Lawful.onNext (item : τ) (hvalid : out.valid = true) :
    Lawful (out.onNext item) := by
  have hempty := h.running hvalid
  have hshape := h.shape
  rw [hempty, append_nil] at hshape
  refine ⟨?_, ?_, ?_⟩
  · rw [onNext_delivered, onNext_ending, hempty, append_nil,
      map_append, ← hshape]
    rfl
  · rw [onNext_ending]
    exact h.once
  · rw [onNext_ending]
    exact h.running

theorem Lawful.finish (hterm : event.isTerminal = true)
    (hvalid : out.valid = true) : Lawful (out.finish event) := by
  have hempty := h.running hvalid
  have hshape := h.shape
  rw [hempty, append_nil] at hshape
  refine ⟨?_, ?_, nofun⟩
  · rw [finish_delivered out hterm, finish_ending out hterm, hempty, ← hshape]
    rfl
  · rw [finish_ending out hterm, hempty]
    exact Nat.le_refl 1

theorem Lawful.ending_finish (hterm : event.isTerminal = true)
    (hvalid : out.valid = true) : (out.finish event).ending = [event] := by
  rw [finish_ending out hterm, h.running hvalid]
  rfl

theorem Lawful.invalid_of_ending (hend : out.ending ≠ []) :
    out.valid = false := by
  rw [← Bool.not_eq_true]
  exact fun hvalid => hend (h.running hvalid)

theorem Lawful.release : Lawful out.release :=
  ⟨h.shape, h.once, nofun⟩

end

end Observer

end ActorFramework.Flow
