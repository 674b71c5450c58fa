import ActorFramework.Foundation.Transition

/-!
# Bounded queues

A queue with room for `size` elements takes elements at its end and gives them
out at its front.  The policy says what happens to an element that is offered
while the queue is full.  An operation that gets no room under the policy
`refuse` empties the queue for good.
-/

namespace ActorFramework.Foundation

open List

variable {α : Type*}

inductive OverflowPolicy where
  | dropNewest
  | dropOldest
  | refuse

structure BoundedQueue (α : Type*) where
  waiting : List α := []
  taken : List α := []
  overflown : Bool := false

inductive QueueOp (α : Type*) where
  | offer (a : α)
  | take

namespace QueueOp

def offered : QueueOp α → Option α
  | .offer a => some a
  | .take => none

end QueueOp

def offers (ops : List (QueueOp α)) : List α :=
  ops.filterMap QueueOp.offered

@[simp] theorem offers_append (ops ops' : List (QueueOp α)) :
    offers (ops ++ ops') = offers ops ++ offers ops' :=
  filterMap_append

namespace BoundedQueue

def overflow (policy : OverflowPolicy) (q : BoundedQueue α) (a : α) :
    BoundedQueue α :=
  match policy with
  | .dropNewest => q
  | .dropOldest => { q with waiting := q.waiting.tail ++ [a] }
  | .refuse => { q with waiting := [], overflown := true }

def step (size : Nat) (policy : OverflowPolicy) (q : BoundedQueue α) :
    QueueOp α → Option (BoundedQueue α)
  | .offer a =>
    if q.overflown then none
    else if q.waiting.length < size then
      some { q with waiting := q.waiting ++ [a] }
    else some (q.overflow policy a)
  | .take =>
    match q.waiting with
    | [] => none
    | a :: rest => some { q with waiting := rest, taken := q.taken ++ [a] }

variable {size : Nat} {policy : OverflowPolicy} {q t : BoundedQueue α}

end BoundedQueue

end ActorFramework.Foundation
