import Mathlib.Data.List.Basic

/-!
# The lock-free inbox

`lifo_inbox` keeps one atomic pointer.  It holds one of three tags (empty,
reader blocked, closed) or points to the newest node of a linked list.  `Stack`
is the pointer with the list hanging off it; `Stack.pointer` is what
`compare_exchange` compares.  Nodes carry an address, so the reuse of a freed
address is part of the model.

The loops `push_front` and `take_head` are cut at their atomic accesses: a step
is one `load` or `compare_exchange` with the code up to the next access.
-/

namespace ActorFramework.Core

structure Node (τ : Type*) where
  addr : Nat
  value : τ
  deriving DecidableEq

/-- The values of `stack_`; `null` is `stack_empty_tag()`. -/
inductive Pointer where
  | null
  | blocked
  | closed
  | node (addr : Nat)
  deriving DecidableEq

/-- `stack_` and the nodes reachable from it, newest first. -/
inductive Stack (τ : Type*) where
  | closed
  | blocked
  | nodes (list : List (Node τ))
  deriving DecidableEq

inductive InboxResult where
  | success
  | unblockedReader
  | queueClosed
  deriving DecidableEq

inductive Progress (π ρ : Type*) where
  | running (pc : π)
  | returned (result : ρ)

namespace Stack

variable {τ : Type*}

def empty : Stack τ := .nodes []

def pointer : Stack τ → Pointer
  | .closed => .closed
  | .blocked => .blocked
  | .nodes [] => .null
  | .nodes (node :: _) => .node node.addr

def elements : Stack τ → List (Node τ)
  | .closed | .blocked => []
  | .nodes list => list

@[simp] theorem elements_closed : (closed : Stack τ).elements = [] := rfl

@[simp] theorem elements_blocked : (blocked : Stack τ).elements = [] := rfl

@[simp] theorem elements_nodes (list : List (Node τ)) :
    (nodes list).elements = list := rfl

@[simp] theorem pointer_eq_closed {stack : Stack τ} :
    stack.pointer = .closed ↔ stack = .closed := by
  cases stack with
  | closed | blocked => simp [pointer]
  | nodes list => cases list <;> simp [pointer]

@[simp] theorem pointer_eq_blocked {stack : Stack τ} :
    stack.pointer = .blocked ↔ stack = .blocked := by
  cases stack with
  | closed | blocked => simp [pointer]
  | nodes list => cases list <;> simp [pointer]

@[simp] theorem pointer_eq_null {stack : Stack τ} :
    stack.pointer = .null ↔ stack = .nodes [] := by
  cases stack with
  | closed | blocked => simp [pointer]
  | nodes list => cases list <;> simp [pointer]

end Stack

/--
Program counter of `push_front`.  The loop condition `e != eof` holds whenever
the loop reaches its `compare_exchange`.
-/
inductive PushFront where
  | load
  | compareExchange (e : Pointer) (open_ : e ≠ .closed)

/--
Program counter of `take_head`.  Only `compare_exchange_weak` can fail without
a reason.
-/
inductive TakeHead where
  | load
  | compareExchange (e : Pointer)
  deriving DecidableEq

namespace LifoInbox

variable {τ : Type*}

variable (stack : Stack τ)

def pushLoop : Progress PushFront InboxResult :=
  if h : stack.pointer = .closed then .returned .queueClosed
  else .running (.compareExchange stack.pointer h)

def pushFront (newElement : Node τ) :
    PushFront → Stack τ × Progress PushFront InboxResult
  | .load => (stack, pushLoop stack)
  | .compareExchange e _ =>
    -- Only the pointer is compared: a reused address passes as well.
    if stack.pointer = e then
      let next := if e = .blocked then [] else stack.elements
      (.nodes (newElement :: next),
        .returned (if e = .blocked then .unblockedReader else .success))
    else (stack, pushLoop stack)

def takeLoop (newHead stack : Stack τ) : Progress TakeHead (List (Node τ)) :=
  if stack.pointer = newHead.pointer then .returned []
  else .running (.compareExchange stack.pointer)

/--
One access of `take_head(new_head)`.  The function must not be called on a
closed queue.  A `nullptr` result is the empty list.
-/
def takeHead (newHead stack : Stack τ) :
    TakeHead → Bool → Option (Stack τ × Progress TakeHead (List (Node τ)))
  | .load, _ =>
    if stack.pointer = .closed then none
    else some (stack, takeLoop newHead stack)
  | .compareExchange e, spurious =>
    if !spurious && stack.pointer = e then
      some (newHead, .returned stack.elements)
    else some (stack, takeLoop newHead stack)

def tryBlock : Stack τ × Bool :=
  if stack.pointer = .null then (.blocked, true) else (stack, false)

def tryUnblock : Stack τ × Bool :=
  if stack.pointer = .blocked then (.empty, true) else (stack, false)

theorem pushFront_cases (stack : Stack τ) (node : Node τ) (pc : PushFront) :
    (∃ pc', pushFront stack node pc = (stack, .running pc')) ∨
    (stack = .closed ∧
      pushFront stack node pc = (stack, .returned .queueClosed)) ∨
    (stack = .blocked ∧
      pushFront stack node pc =
        (.nodes [node], .returned .unblockedReader)) ∨
    (∃ list, stack = .nodes list ∧
      pushFront stack node pc =
        (.nodes (node :: list), .returned .success)) := by
  have hloop : (∃ pc', pushLoop stack = .running pc') ∨
      (stack = .closed ∧ pushLoop stack = .returned .queueClosed) := by
    by_cases hclosed : stack.pointer = .closed
    · exact .inr ⟨Stack.pointer_eq_closed.mp hclosed, by
        simp [pushLoop, hclosed]⟩
    · exact .inl ⟨.compareExchange stack.pointer hclosed, dif_neg hclosed⟩
  cases pc with
  | load =>
    rcases hloop with ⟨pc', hpc⟩ | ⟨hclosed, hpc⟩
    · exact .inl ⟨pc', by simp only [pushFront, hpc]⟩
    · exact .inr (.inl ⟨hclosed, by simp only [pushFront, hpc]⟩)
  | compareExchange e hopen =>
    by_cases he : stack.pointer = e
    · cases stack with
      | closed => exact absurd he.symm hopen
      | blocked =>
        have he' : e = .blocked := he.symm
        exact .inr (.inr (.inl ⟨rfl, by simp [pushFront, he, he']⟩))
      | nodes list =>
        have he' : e ≠ .blocked := by
          rintro rfl
          simp at he
        exact .inr (.inr (.inr ⟨list, rfl, by
          simp [pushFront, he, he']⟩))
    · rcases hloop with ⟨pc', hpc⟩ | ⟨hclosed, hpc⟩
      · exact .inl ⟨pc', by simp only [pushFront, he, if_false, hpc]⟩
      · exact .inr (.inl ⟨hclosed, by
          simp only [pushFront, he, if_false, hpc]⟩)

theorem pushFront_closed (node : Node τ) (pc : PushFront) :
    pushFront .closed node pc = (.closed, .returned .queueClosed) := by
  cases pc with
  | load => simp [pushFront, pushLoop]
  | compareExchange e hopen =>
    have he : (Stack.closed : Stack τ).pointer ≠ e := hopen.symm
    simp [pushFront, he, pushLoop]

theorem takeHead_cases {newHead stack stack' : Stack τ} {pc : TakeHead}
    {spurious : Bool} {result : Progress TakeHead (List (Node τ))}
    (h : takeHead newHead stack pc spurious = some (stack', result)) :
    (∃ pc', stack' = stack ∧ result = .running pc') ∨
    (stack.pointer = newHead.pointer ∧ stack' = stack ∧ result = .returned []) ∨
    (stack' = newHead ∧ result = .returned stack.elements) := by
  have hloop : (∃ pc', takeLoop newHead stack = .running pc') ∨
      (stack.pointer = newHead.pointer ∧
        takeLoop newHead stack = .returned []) := by
    by_cases hhead : stack.pointer = newHead.pointer
    · exact .inr ⟨hhead, by simp [takeLoop, hhead]⟩
    · exact .inl ⟨.compareExchange stack.pointer, if_neg hhead⟩
  have hagain : some (stack, takeLoop newHead stack) = some (stack', result) →
      (∃ pc', stack' = stack ∧ result = .running pc') ∨
      (stack.pointer = newHead.pointer ∧ stack' = stack ∧
        result = .returned []) := by
    intro heq
    simp only [Option.some.injEq, Prod.mk.injEq] at heq
    obtain ⟨rfl, rfl⟩ := heq
    rcases hloop with ⟨pc', hpc⟩ | ⟨hhead, hpc⟩
    · exact .inl ⟨pc', rfl, hpc⟩
    · exact .inr ⟨hhead, rfl, hpc⟩
  cases pc with
  | load =>
    simp only [takeHead] at h
    split at h
    · contradiction
    · rcases hagain h with hrun | hret
      · exact .inl hrun
      · exact .inr (.inl hret)
  | compareExchange e =>
    simp only [takeHead] at h
    split at h
    · simp only [Option.some.injEq, Prod.mk.injEq] at h
      exact .inr (.inr ⟨h.1.symm, h.2.symm⟩)
    · rcases hagain h with hrun | hret
      · exact .inl hrun
      · exact .inr (.inl hret)

end LifoInbox

end ActorFramework.Core
