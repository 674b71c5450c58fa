import Mathlib.Data.List.Basic

/-!
# Histories of a double-ended queue

A history lists the operations in the order in which they took effect; a pop
names the element it returned.  `Replays q ops q'` says that the history is
one a queue with content `q` can show, and that it leaves `q'`.  Without
`pushFront` and `popBack` this is first-in-first-out order.
-/

namespace ActorFramework.Foundation

open List

variable {μ : Type*}

inductive DequeOp (μ : Type*) where
  | pushBack (m : μ)
  | pushFront (m : μ)
  | popFront (m : μ)
  | popBack (m : μ)

namespace DequeOp

def added : DequeOp μ → List μ
  | .pushBack m | .pushFront m => [m]
  | .popFront _ | .popBack _ => []

def removed : DequeOp μ → List μ
  | .pushBack _ | .pushFront _ => []
  | .popFront m | .popBack m => [m]

def Fifo : DequeOp μ → Prop
  | .pushBack _ | .popFront _ => True
  | .pushFront _ | .popBack _ => False

end DequeOp

inductive DequeStep : List μ → DequeOp μ → List μ → Prop
  | pushBack (q m) : DequeStep q (.pushBack m) (q ++ [m])
  | pushFront (q m) : DequeStep q (.pushFront m) (m :: q)
  | popFront (q m) : DequeStep (m :: q) (.popFront m) q
  | popBack (q m) : DequeStep (q ++ [m]) (.popBack m) q

inductive Replays (q : List μ) : List (DequeOp μ) → List μ → Prop
  | nil : Replays q [] q
  | concat {q' q'' ops op} : Replays q ops q' → DequeStep q' op q'' →
      Replays q (ops ++ [op]) q''

namespace Replays

theorem single {q q' : List μ} {op : DequeOp μ} (h : DequeStep q op q') :
    Replays q [op] q' :=
  .concat .nil h

theorem append {q q' q'' : List μ} {ops ops' : List (DequeOp μ)}
    (h : Replays q ops q') (h' : Replays q' ops' q'') :
    Replays q (ops ++ ops') q'' := by
  induction h' with
  | nil => simpa using h
  | concat _ hstep ih =>
    rw [← append_assoc]
    exact .concat ih hstep

theorem popFront_all (l q : List μ) : Replays (l ++ q) (l.map .popFront) q := by
  induction l with
  | nil => exact .nil
  | cons m l ih =>
    exact append (.single (.popFront (l ++ q) m)) ih

theorem popBack_all (l q : List μ) :
    Replays (q ++ l.reverse) (l.map .popBack) q := by
  induction l with
  | nil => simpa using Replays.nil
  | cons m l ih =>
    rw [reverse_cons, ← append_assoc]
    exact append (.single (.popBack (q ++ l.reverse) m)) ih

theorem fifo {q q' : List μ} {ops : List (DequeOp μ)}
    (h : Replays q ops q') (hfifo : ∀ op ∈ ops, op.Fifo) :
    q ++ ops.flatMap DequeOp.added = ops.flatMap DequeOp.removed ++ q' := by
  induction h with
  | nil => simp
  | @concat q' q'' ops op _ hstep ih =>
    have hlast : op.Fifo := hfifo op (by simp)
    have hpast := ih fun op' hop => hfifo op' (by simp [hop])
    cases hstep with
    | pushBack q m =>
      simp [DequeOp.added, DequeOp.removed, ← append_assoc, hpast]
    | pushFront q m => exact hlast.elim
    | popFront q m =>
      simp [DequeOp.added, DequeOp.removed, hpast]
    | popBack q m => exact hlast.elim

end Replays

end ActorFramework.Foundation
