import ActorFramework.Core.LifoInbox
import ActorFramework.Core.MessageId
import Mathlib.Data.List.InsertIdx

/-!
# The default mailbox

Senders push to the lock-free inbox.  The owner keeps two cached queues, one
for urgent and one for all other messages, and refills them from the inbox.
`pending mailbox p` lists the unread messages of one priority in the order of
their arrival, the cached ones first.
-/

namespace ActorFramework.Core

open List LifoInbox Node

variable {α : Type*}

structure MailboxElement (α : Type*) where
  sender : Option Nat
  mid : MessageId
  payload : α
  deriving DecidableEq

abbrev Letter (α : Type*) := Node (MailboxElement α)

namespace Node

def isUrgent (letter : Letter α) : Bool := letter.value.mid.isUrgentMessage

/-- A request that has somebody to answer to. -/
def answerable (letter : Letter α) : Bool :=
  letter.value.sender.isSome && letter.value.mid.isRequest

def priority (letter : Letter α) : MessagePriority := letter.value.mid.priority

end Node

theorem Node.priority_eq_high {letter : Letter α} :
    letter.priority = .high ↔ letter.isUrgent = true := by
  simp [priority, isUrgent, MessageId.priority]

theorem Node.priority_eq_normal {letter : Letter α} :
    letter.priority = .normal ↔ letter.isUrgent = false := by
  simp [priority, isUrgent, MessageId.priority]

/-- The inbox and the cached queues; each queue holds its own priority only. -/
structure DefaultMailbox (α : Type*) where
  inbox : Stack (MailboxElement α)
  urgentQueue : List (Letter α)
  normalQueue : List (Letter α)
  urgent : ∀ letter ∈ urgentQueue, letter.isUrgent = true
  normal : ∀ letter ∈ normalQueue, letter.isUrgent = false

namespace DefaultMailbox

def initial : DefaultMailbox α := ⟨.empty, [], [], by simp, by simp⟩

def cached (mailbox : DefaultMailbox α) : Nat :=
  mailbox.urgentQueue.length + mailbox.normalQueue.length

def queue (mailbox : DefaultMailbox α) : MessagePriority → List (Letter α)
  | .high => mailbox.urgentQueue
  | .normal => mailbox.normalQueue

def pushFront (mailbox : DefaultMailbox α) (letter : Letter α) :
    DefaultMailbox α :=
  if h : letter.isUrgent = true then
    { mailbox with
      urgentQueue := letter :: mailbox.urgentQueue
      urgent := List.forall_mem_cons.mpr ⟨h, mailbox.urgent⟩ }
  else
    { mailbox with
      normalQueue := letter :: mailbox.normalQueue
      normal := List.forall_mem_cons.mpr
        ⟨Bool.eq_false_iff.mpr h, mailbox.normal⟩ }

def popCached (mailbox : DefaultMailbox α) :
    Option (Letter α × DefaultMailbox α) :=
  match hurgent : mailbox.urgentQueue, hnormal : mailbox.normalQueue with
  | letter :: rest, _ =>
    some (letter, { mailbox with
      urgentQueue := rest
      urgent := fun x hx => mailbox.urgent x (by simp [hurgent, hx]) })
  | [], letter :: rest =>
    some (letter, { mailbox with
      normalQueue := rest
      normal := fun x hx => mailbox.normal x (by simp [hnormal, hx]) })
  | [], [] => none

variable {letter : Letter α} {mailbox mailbox' : DefaultMailbox α}
  {pc : TakeHead} {spurious : Bool}

private theorem forall_mem_insertIdx {P : Letter α → Prop} {l : List (Letter α)}
    (i : Nat) (hl : ∀ x ∈ l, P x) (hletter : P letter) :
    ∀ x ∈ l.insertIdx i letter, P x := by
  intro x hx
  rcases eq_or_mem_of_mem_insertIdx hx with rfl | hmem
  · exact hletter
  · exact hl x hmem

/-- `insert_after` at the fixed insertion point of the matching queue. -/
def insertAfter (point : MessagePriority → Nat) (mailbox : DefaultMailbox α)
    (letter : Letter α) : DefaultMailbox α :=
  if h : letter.isUrgent = true then
    { mailbox with
      urgentQueue := mailbox.urgentQueue.insertIdx (point .high) letter
      urgent := forall_mem_insertIdx _ mailbox.urgent h }
  else
    { mailbox with
      normalQueue := mailbox.normalQueue.insertIdx (point .normal) letter
      normal := forall_mem_insertIdx _ mailbox.normal
        (Bool.eq_false_iff.mpr h) }

/--
The loop of `fetch_more` over the nodes taken from the inbox.  Both insertion
points stay behind the last element that was cached before the loop.
-/
def fetch (mailbox : DefaultMailbox α) (taken : List (Letter α)) :
    DefaultMailbox α :=
  taken.foldl (insertAfter fun p => (mailbox.queue p).length) mailbox

def peekCached (mailbox : DefaultMailbox α) (id : MessageId) :
    Option (Letter α) :=
  if id.isAsync then
    match mailbox.urgentQueue, mailbox.normalQueue with
    | letter :: _, _ => some letter
    | [], letter :: _ => some letter
    | [], [] => none
  else
    match mailbox.urgentQueue.find? fun x => x.value.mid == id with
    | some letter => some letter
    | none => mailbox.normalQueue.find? fun x => x.value.mid == id

def pushBack (mailbox : DefaultMailbox α) (letter : Letter α)
    (pc : PushFront) : DefaultMailbox α × Progress PushFront InboxResult :=
  let (inbox, result) := LifoInbox.pushFront mailbox.inbox letter pc
  ({ mailbox with inbox }, result)

def fetchMore (mailbox : DefaultMailbox α) (pc : TakeHead)
    (spurious : Bool) : Option (DefaultMailbox α × Progress TakeHead Bool) :=
  match LifoInbox.takeHead .empty mailbox.inbox pc spurious with
  | none => none
  | some (inbox, .running pc') => some ({ mailbox with inbox }, .running pc')
  | some (inbox, .returned []) =>
    some ({ mailbox with inbox }, .returned false)
  | some (inbox, .returned (letter :: taken)) =>
    some (fetch { mailbox with inbox } (letter :: taken), .returned true)

def closeInbox (mailbox : DefaultMailbox α) (pc : TakeHead) (spurious : Bool) :
    Option (DefaultMailbox α × Progress TakeHead (List (Letter α))) :=
  match LifoInbox.takeHead .closed mailbox.inbox pc spurious with
  | none => none
  | some (inbox, result) => some ({ mailbox with inbox }, result)

def tryBlock (mailbox : DefaultMailbox α) : DefaultMailbox α × Bool :=
  if mailbox.cached = 0 then
    let (inbox, ok) := LifoInbox.tryBlock mailbox.inbox
    ({ mailbox with inbox }, ok)
  else (mailbox, false)

def tryUnblock (mailbox : DefaultMailbox α) : DefaultMailbox α × Bool :=
  let (inbox, ok) := LifoInbox.tryUnblock mailbox.inbox
  ({ mailbox with inbox }, ok)

def drainCached (mailbox : DefaultMailbox α) : DefaultMailbox α :=
  { mailbox with
    urgentQueue := [], normalQueue := [], urgent := by simp
    normal := by simp }

def pending (mailbox : DefaultMailbox α) (p : MessagePriority) :
    List (Letter α) :=
  mailbox.queue p ++
    (mailbox.inbox.elements.filter fun x => x.priority = p).reverse

def unread (mailbox : DefaultMailbox α) : List (Letter α) :=
  mailbox.urgentQueue ++ mailbox.normalQueue ++ mailbox.inbox.elements

def accept (mailbox : DefaultMailbox α) (letter : Letter α) :
    DefaultMailbox α :=
  { mailbox with inbox := .nodes (letter :: mailbox.inbox.elements) }

theorem queue_priority (mailbox : DefaultMailbox α) (p : MessagePriority) :
    ∀ letter ∈ mailbox.queue p, letter.priority = p := by
  cases p with
  | high =>
    exact fun x hx => priority_eq_high.mpr (mailbox.urgent x hx)
  | normal =>
    exact fun x hx => priority_eq_normal.mpr (mailbox.normal x hx)

theorem insertAfter_queue (point : MessagePriority → Nat)
    (mailbox : DefaultMailbox α) (letter : Letter α) (p : MessagePriority) :
    (insertAfter point mailbox letter).queue p =
      if letter.priority = p then (mailbox.queue p).insertIdx (point p) letter
      else mailbox.queue p := by
  unfold insertAfter
  split
  · rename_i hurgent
    have hp := priority_eq_high.mpr hurgent
    cases p <;> simp [queue, hp]
  · rename_i hurgent
    have hp := priority_eq_normal.mpr (Bool.eq_false_iff.mpr hurgent)
    cases p <;> simp [queue, hp]

private theorem insertIdx_append (old new : List (Letter α))
    (letter : Letter α) :
    (old ++ new).insertIdx old.length letter = old ++ letter :: new := by
  induction old with
  | nil => rfl
  | cons x old ih => simpa using ih

/--
The loop invariant of `fetch_more`: behind the old elements stand the nodes
seen so far, in the opposite order.
-/
theorem foldl_insertAfter (point : MessagePriority → Nat) {p : MessagePriority}
    {old : List (Letter α)} (hpoint : point p = old.length)
    (taken : List (Letter α)) {seen : List (Letter α)}
    (hqueue : mailbox.queue p = old ++ seen) :
    (taken.foldl (insertAfter point) mailbox).queue p =
      old ++ (taken.filter fun x => x.priority = p).reverse ++ seen := by
  induction taken generalizing mailbox seen with
  | nil => simpa using hqueue
  | cons letter taken ih =>
    have hnext := insertAfter_queue point mailbox letter p
    rw [hqueue, hpoint, insertIdx_append] at hnext
    by_cases hp : letter.priority = p
    · rw [if_pos hp] at hnext
      simpa [hp] using ih hnext
    · rw [if_neg hp] at hnext
      simpa [hp] using ih hnext

theorem fetch_queue (mailbox : DefaultMailbox α) (taken : List (Letter α))
    (p : MessagePriority) :
    (mailbox.fetch taken).queue p =
      mailbox.queue p ++ (taken.filter fun x => x.priority = p).reverse := by
  have hloop := foldl_insertAfter (fun p => (mailbox.queue p).length) rfl
    taken (append_nil (mailbox.queue p)).symm
  simpa [fetch] using hloop

@[simp] theorem fetch_inbox (mailbox : DefaultMailbox α)
    (taken : List (Letter α)) :
    (mailbox.fetch taken).inbox = mailbox.inbox := by
  unfold fetch
  generalize (fun p => (mailbox.queue p).length) = point
  induction taken generalizing mailbox with
  | nil => rfl
  | cons letter taken ih =>
    rw [foldl_cons, ih]
    unfold insertAfter
    split <;> rfl

theorem pushBack_cases (mailbox : DefaultMailbox α) (letter : Letter α)
    (pc : PushFront) :
    (∃ pc', mailbox.pushBack letter pc = (mailbox, .running pc')) ∨
    (mailbox.inbox = .closed ∧
      mailbox.pushBack letter pc = (mailbox, .returned .queueClosed)) ∨
    (mailbox.inbox = .blocked ∧
      mailbox.pushBack letter pc =
        (mailbox.accept letter, .returned .unblockedReader)) ∨
    (∃ list, mailbox.inbox = .nodes list ∧
      mailbox.pushBack letter pc =
        (mailbox.accept letter, .returned .success)) := by
  rcases pushFront_cases mailbox.inbox letter pc with
    ⟨pc', h⟩ | ⟨hinbox, h⟩ | ⟨hinbox, h⟩ | ⟨list, hinbox, h⟩
  · exact .inl ⟨pc', by simp only [pushBack, h]⟩
  · exact .inr (.inl ⟨hinbox, by simp only [pushBack, h]⟩)
  · have haccept : mailbox.accept letter =
        { mailbox with inbox := .nodes [letter] } := by simp [accept, hinbox]
    exact .inr (.inr (.inl ⟨hinbox, by simp only [pushBack, h, haccept]⟩))
  · have haccept : mailbox.accept letter =
        { mailbox with inbox := .nodes (letter :: list) } := by
      simp [accept, hinbox]
    exact .inr (.inr (.inr ⟨list, hinbox, by
      simp only [pushBack, h, haccept]⟩))

theorem pushBack_closed (h : mailbox.inbox = .closed) (letter : Letter α)
    (pc : PushFront) :
    mailbox.pushBack letter pc = (mailbox, .returned .queueClosed) := by
  have hpush := pushFront_closed letter pc
  rw [← h] at hpush
  simp [pushBack, hpush]

variable {result : Progress TakeHead Bool}

theorem fetchMore_cases
    (h : mailbox.fetchMore pc spurious = some (mailbox', result)) :
    (∃ pc', mailbox' = mailbox ∧ result = .running pc') ∨
    (mailbox.inbox.elements = [] ∧ result = .returned false ∧
      (mailbox' = mailbox ∨ mailbox' = { mailbox with inbox := .empty })) ∨
    (mailbox.inbox.elements ≠ [] ∧ result = .returned true ∧
      mailbox' = fetch { mailbox with inbox := .empty }
        mailbox.inbox.elements) := by
  cases htake : takeHead .empty mailbox.inbox pc spurious with
  | none => simp [fetchMore, htake] at h
  | some taken =>
    obtain ⟨inbox, progress⟩ := taken
    rcases takeHead_cases htake with
      ⟨pc', rfl, rfl⟩ | ⟨hempty, rfl, rfl⟩ | ⟨rfl, rfl⟩
    · simp only [fetchMore, htake, Option.some.injEq, Prod.mk.injEq] at h
      exact .inl ⟨pc', h.1.symm, h.2.symm⟩
    · have hnodes := Stack.pointer_eq_null.mp hempty
      simp only [fetchMore, htake, Option.some.injEq, Prod.mk.injEq] at h
      exact .inr (.inl ⟨by simp [hnodes], h.2.symm, .inl h.1.symm⟩)
    · cases helements : mailbox.inbox.elements with
      | nil =>
        simp only [fetchMore, htake, helements, Option.some.injEq,
          Prod.mk.injEq] at h
        exact .inr (.inl ⟨rfl, h.2.symm, .inr h.1.symm⟩)
      | cons letter taken =>
        simp only [fetchMore, htake, helements, Option.some.injEq,
          Prod.mk.injEq] at h
        exact .inr (.inr ⟨by simp, h.2.symm, h.1.symm⟩)

theorem closeInbox_cases {result : Progress TakeHead (List (Letter α))}
    (h : mailbox.closeInbox pc spurious = some (mailbox', result)) :
    (∃ pc', mailbox' = mailbox ∧ result = .running pc') ∨
    (mailbox' = { mailbox with inbox := .closed } ∧
      result = .returned mailbox.inbox.elements) := by
  cases htake : takeHead .closed mailbox.inbox pc spurious with
  | none => simp [closeInbox, htake] at h
  | some taken =>
    obtain ⟨inbox, progress⟩ := taken
    simp only [closeInbox, htake, Option.some.injEq, Prod.mk.injEq] at h
    obtain ⟨rfl, rfl⟩ := h
    rcases takeHead_cases htake with
      ⟨pc', rfl, rfl⟩ | ⟨hclosed, rfl, rfl⟩ | ⟨rfl, rfl⟩
    · exact .inl ⟨pc', rfl, rfl⟩
    · have hinbox := Stack.pointer_eq_closed.mp hclosed
      exact .inr ⟨by rw [← hinbox], by simp [hinbox]⟩
    · exact .inr ⟨rfl, rfl⟩

theorem pending_initial (p : MessagePriority) :
    (initial : DefaultMailbox α).pending p = [] := by
  cases p <;> rfl

theorem pending_accept (mailbox : DefaultMailbox α) (letter : Letter α)
    (p : MessagePriority) :
    (mailbox.accept letter).pending p =
      mailbox.pending p ++ if letter.priority = p then [letter] else [] := by
  by_cases hp : letter.priority = p <;>
    cases p <;> simp [accept, pending, queue, hp]

theorem pending_fetchMore
    (h : mailbox.fetchMore pc spurious = some (mailbox', result))
    (p : MessagePriority) : mailbox'.pending p = mailbox.pending p := by
  rcases fetchMore_cases h with
    ⟨pc', rfl, -⟩ | ⟨hempty, -, rfl | rfl⟩ | ⟨-, -, rfl⟩
  · rfl
  · rfl
  · cases p <;> simp [pending, queue, hempty, Stack.empty]
  · rw [pending, fetch_queue, fetch_inbox]
    cases p <;> simp [pending, queue, Stack.empty]

theorem pending_pushFront (mailbox : DefaultMailbox α) (letter : Letter α)
    (p : MessagePriority) :
    (mailbox.pushFront letter).pending p =
      (if letter.priority = p then [letter] else []) ++ mailbox.pending p := by
  cases hurgent : letter.isUrgent with
  | true =>
    have hp := priority_eq_high.mpr hurgent
    cases p <;> simp [pushFront, hurgent, hp, pending, queue]
  | false =>
    have hp := priority_eq_normal.mpr hurgent
    cases p <;> simp [pushFront, hurgent, hp, pending, queue]

theorem pushFront_inbox (mailbox : DefaultMailbox α) (letter : Letter α) :
    (mailbox.pushFront letter).inbox = mailbox.inbox := by
  unfold pushFront
  split <;> rfl

section

variable (h : mailbox.popCached = some (letter, mailbox'))
include h

theorem popCached_cases :
    mailbox'.inbox = mailbox.inbox ∧
    ((mailbox.urgentQueue = letter :: mailbox'.urgentQueue ∧
      mailbox.normalQueue = mailbox'.normalQueue) ∨
    (mailbox.urgentQueue = [] ∧ mailbox'.urgentQueue = [] ∧
      mailbox.normalQueue = letter :: mailbox'.normalQueue)) := by
  unfold popCached at h
  split at h
  · rename_i hurgent
    cases h
    exact ⟨rfl, .inl ⟨hurgent, rfl⟩⟩
  · rename_i hurgent hnormal
    cases h
    exact ⟨rfl, .inr ⟨hurgent, hurgent, hnormal⟩⟩
  · contradiction

theorem pending_popCached (p : MessagePriority) :
    mailbox.pending p =
      (if letter.priority = p then [letter] else []) ++
        mailbox'.pending p := by
  obtain ⟨hinbox, hurgent | hnormal⟩ := popCached_cases h
  · have hp : letter.priority = .high :=
      mailbox.queue_priority .high letter (by simp [queue, hurgent.1])
    cases p <;> simp [pending, queue, hinbox, hurgent, hp]
  · have hp : letter.priority = .normal :=
      mailbox.queue_priority .normal letter (by simp [queue, hnormal.2.2])
    cases p <;> simp [pending, queue, hinbox, hnormal, hp]

end

theorem tryBlock_cases (mailbox : DefaultMailbox α) :
    (mailbox = initial ∧
      mailbox.tryBlock = ({ mailbox with inbox := .blocked }, true)) ∨
    (mailbox ≠ initial ∧ mailbox.tryBlock = (mailbox, false)) := by
  obtain ⟨inbox, urgent, normal⟩ := mailbox
  by_cases hcached : urgent = [] ∧ normal = []
  · obtain ⟨rfl, rfl⟩ := hcached
    by_cases hinbox : inbox = .nodes []
    · exact .inl ⟨by simp [initial, hinbox, Stack.empty], by
        simp [tryBlock, cached, LifoInbox.tryBlock, hinbox, Stack.pointer]⟩
    · exact .inr ⟨by simpa [initial, Stack.empty] using hinbox, by
        simp [tryBlock, cached, LifoInbox.tryBlock, hinbox]⟩
  · refine .inr ⟨?_, ?_⟩
    · simp only [initial, ne_eq, mk.injEq]
      exact fun h => hcached h.2
    · simp [tryBlock, cached, hcached]

theorem unread_perm (mailbox : DefaultMailbox α) :
    mailbox.unread.Perm (mailbox.pending .high ++ mailbox.pending .normal) := by
  have hnot : (fun x : Node (MailboxElement α) =>
      decide (x.priority = .normal)) =
      fun x : Node (MailboxElement α) => !decide (x.priority = .high) := by
    funext x
    cases x.priority <;> rfl
  have hsplit := filter_append_perm
    (fun x : Node (MailboxElement α) => decide (x.priority = .high))
    mailbox.inbox.elements
  rw [← hnot] at hsplit
  classical
  rw [perm_iff_count] at hsplit ⊢
  intro x
  have hcount := hsplit x
  simp only [count_append] at hcount
  simp only [unread, pending, queue, count_append, count_reverse]
  omega

theorem unread_perm_of_pending {mailbox mailbox' : DefaultMailbox α}
    (h : ∀ p, mailbox'.pending p = mailbox.pending p) :
    mailbox'.unread.Perm mailbox.unread := by
  have hperm := mailbox'.unread_perm
  rw [h, h] at hperm
  exact hperm.trans mailbox.unread_perm.symm

theorem unread_accept (mailbox : DefaultMailbox α) (letter : Letter α) :
    (mailbox.accept letter).unread.Perm (letter :: mailbox.unread) := by
  simp only [unread, accept, Stack.elements_nodes]
  exact perm_middle

theorem unread_pushFront (mailbox : DefaultMailbox α) (letter : Letter α) :
    (mailbox.pushFront letter).unread.Perm (letter :: mailbox.unread) := by
  unfold pushFront
  split
  · exact List.Perm.refl _
  · simp only [unread, append_assoc]
    exact perm_middle

theorem unread_popCached (h : mailbox.popCached = some (letter, mailbox')) :
    mailbox.unread = letter :: mailbox'.unread := by
  obtain ⟨hinbox, ⟨hurgent, hnormal⟩ | ⟨hnone, hnone', hnormal⟩⟩ :=
    popCached_cases h
  · simp [unread, hurgent, hnormal, hinbox]
  · simp [unread, hnone, hnone', hnormal, hinbox]

end DefaultMailbox

end ActorFramework.Core
