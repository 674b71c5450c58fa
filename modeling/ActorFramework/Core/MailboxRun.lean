import ActorFramework.Core.DefaultMailbox
import ActorFramework.Foundation.Deque
import ActorFramework.Foundation.Transition

/-!
# Interleavings on one mailbox

Any number of producers call `push_back` while the owner works on the mailbox,
until it closes it.  A step is one atomic access, or a call that stays in the
owner's cached queues.  The log records what the calls returned.

The main invariant replays the log of one priority on a double-ended queue: it
is a valid history and leaves the unread messages.
-/

namespace ActorFramework.Core

open Foundation List DefaultMailbox DequeOp

variable {α : Type*}

inductive Fetcher where
  | popFront
  | peek (id : MessageId)
  | size
  deriving DecidableEq

inductive MailboxOwner where
  | idle
  | peekClosed (id : MessageId)
  | peekBlocked (id : MessageId)
  | fetching (caller : Fetcher) (pc : TakeHead)
  | closing (pc : TakeHead)
  | closed
  deriving DecidableEq

def MailboxOwner.isOpen : MailboxOwner → Bool
  | .closing _ | .closed => false
  | _ => true

/-- What the calls returned; `bounced` carries whether a cache held it. -/
inductive MailboxEvent (α : Type*) where
  | pushed (letter : Letter α) (result : InboxResult)
  | popped (letter : Letter α)
  | putBack (letter : Letter α)
  | peeked (result : Option (Letter α))
  | sized (count : Nat)
  | tryBlocked (ok : Bool)
  | bounced (cached : Bool) (letter : Letter α)

inductive OwnerCall (α : Type*) where
  | popFront
  | pushFront (letter : Letter α)
  | peek (id : MessageId)
  | size
  | tryBlock
  | tryUnblock
  | close

inductive MailboxAction (α : Type*) where
  | call (letter : Letter α)
  | push (i : Nat)
  | owner (op : OwnerCall α)
  | access (spurious : Bool)

structure MailboxRun (α : Type*) where
  mailbox : DefaultMailbox α
  calls : List (Letter α × PushFront)
  owner : MailboxOwner
  log : List (MailboxEvent α)

namespace MailboxRun

def initial : MailboxRun α := ⟨.initial, [], .idle, []⟩

variable (s : MailboxRun α)

def popLoop : MailboxRun α :=
  match s.mailbox.popCached with
  | some (letter, mailbox) =>
    { s with mailbox, owner := .idle, log := s.log ++ [.popped letter] }
  | none => { s with owner := .fetching .popFront .load }

def pushStep (i : Nat) : Option (MailboxRun α) :=
  match s.calls[i]? with
  | none => none
  | some (letter, pc) =>
    match s.mailbox.pushBack letter pc with
    | (mailbox, .running pc') =>
      some { s with mailbox, calls := s.calls.set i (letter, pc') }
    | (mailbox, .returned result) =>
      some { s with
        mailbox, calls := s.calls.eraseIdx i
        log := s.log ++ [.pushed letter result] }

def ownerCall : OwnerCall α → MailboxRun α
  | .popFront => s.popLoop
  | .pushFront letter =>
    { s with
      mailbox := s.mailbox.pushFront letter
      log := s.log ++ [.putBack letter] }
  | .peek id => { s with owner := .peekClosed id }
  | .size => { s with owner := .fetching .size .load }
  | .tryBlock =>
    let (mailbox, ok) := s.mailbox.tryBlock
    { s with mailbox, log := s.log ++ [.tryBlocked ok] }
  | .tryUnblock => { s with mailbox := s.mailbox.tryUnblock.1 }
  | .close =>
    { s with
      mailbox := s.mailbox.drainCached
      owner := .closing .load
      log := s.log ++ (s.mailbox.urgentQueue ++ s.mailbox.normalQueue).map
        (.bounced true) }

def fetched : Fetcher → Bool → MailboxRun α
  | .popFront, true => s.popLoop
  | .popFront, false => { s with owner := .idle }
  | .peek id, _ =>
    { s with
      owner := .idle, log := s.log ++ [.peeked (s.mailbox.peekCached id)] }
  | .size, _ =>
    { s with owner := .idle, log := s.log ++ [.sized s.mailbox.cached] }

def ownerAccess (spurious : Bool) : Option (MailboxRun α) :=
  match s.owner with
  | .idle | .closed => none
  | .peekClosed id =>
    if s.mailbox.inbox.pointer = .closed then
      some { s with owner := .idle, log := s.log ++ [.peeked none] }
    else some { s with owner := .peekBlocked id }
  | .peekBlocked id =>
    if s.mailbox.inbox.pointer = .blocked then
      some { s with owner := .idle, log := s.log ++ [.peeked none] }
    else some { s with owner := .fetching (.peek id) .load }
  | .fetching caller pc =>
    match s.mailbox.fetchMore pc spurious with
    | none => none
    | some (mailbox, .running pc') =>
      some { s with mailbox, owner := .fetching caller pc' }
    | some (mailbox, .returned more) =>
      some (fetched { s with mailbox } caller more)
  | .closing pc =>
    match s.mailbox.closeInbox pc spurious with
    | none => none
    | some (mailbox, .running pc') =>
      some { s with mailbox, owner := .closing pc' }
    | some (mailbox, .returned letters) =>
      some { s with
        mailbox, owner := .closed
        log := s.log ++ letters.map (.bounced false) }

def step : MailboxAction α → Option (MailboxRun α)
  | .call letter => some { s with calls := s.calls ++ [(letter, .load)] }
  | .push i => s.pushStep i
  | .owner op => if s.owner = .idle then some (s.ownerCall op) else none
  | .access spurious => s.ownerAccess spurious

end MailboxRun

namespace MailboxEvent

def ops (p : MessagePriority) : MailboxEvent α → List (DequeOp (Letter α))
  | .pushed letter result =>
    if result ≠ .queueClosed ∧ letter.priority = p then [.pushBack letter]
    else []
  | .popped letter => if letter.priority = p then [.popFront letter] else []
  | .putBack letter => if letter.priority = p then [.pushFront letter] else []
  | .peeked _ | .sized _ | .tryBlocked _ => []
  | .bounced true letter =>
    if letter.priority = p then [.popFront letter] else []
  | .bounced false letter =>
    if letter.priority = p then [.popBack letter] else []

def acceptedOf (p : MessagePriority) : MailboxEvent α → List (Letter α)
  | .pushed letter result =>
    if result ≠ .queueClosed ∧ letter.priority = p then [letter] else []
  | _ => []

def poppedOf (p : MessagePriority) : MailboxEvent α → List (Letter α)
  | .popped letter => if letter.priority = p then [letter] else []
  | _ => []

end MailboxEvent

def history (p : MessagePriority) (log : List (MailboxEvent α)) :
    List (DequeOp (Letter α)) :=
  log.flatMap (MailboxEvent.ops p)

def acceptedPushes (p : MessagePriority) (log : List (MailboxEvent α)) :
    List (Letter α) :=
  log.flatMap (MailboxEvent.acceptedOf p)

def poppedLetters (p : MessagePriority) (log : List (MailboxEvent α)) :
    List (Letter α) :=
  log.flatMap (MailboxEvent.poppedOf p)

/--
Everything a step can do to the mailbox, with the events it logs.  The flags
say whether `close` was not called yet, before and after the step.
-/
inductive MailboxEffect (mailbox : DefaultMailbox α) :
    Bool → List (MailboxEvent α) → DefaultMailbox α → Bool → Prop
  | silent {mailbox' : DefaultMailbox α} (o : Bool)
      (hsame : ∀ p, mailbox'.pending p = mailbox.pending p) :
      MailboxEffect mailbox o [] mailbox' o
  | peeked {mailbox' : DefaultMailbox α} (result : Option (Letter α))
      (hsame : ∀ p, mailbox'.pending p = mailbox.pending p) :
      MailboxEffect mailbox true [.peeked result] mailbox' true
  | sized {mailbox' : DefaultMailbox α} (count : Nat)
      (hsame : ∀ p, mailbox'.pending p = mailbox.pending p) :
      MailboxEffect mailbox true [.sized count] mailbox' true
  | rejected (o : Bool) (letter : Letter α)
      (hclosed : mailbox.inbox = .closed) :
      MailboxEffect mailbox o [.pushed letter .queueClosed] mailbox o
  | accepted (o : Bool) (letter : Letter α) {result : InboxResult}
      (hresult : result ≠ .queueClosed) :
      MailboxEffect mailbox o [.pushed letter result] (mailbox.accept letter) o
  | popped {mailbox₁ mailbox' : DefaultMailbox α} {letter : Letter α}
      (hsame : ∀ p, mailbox₁.pending p = mailbox.pending p)
      (hpop : mailbox₁.popCached = some (letter, mailbox')) :
      MailboxEffect mailbox true [.popped letter] mailbox' true
  | putBack (letter : Letter α) :
      MailboxEffect mailbox true [.putBack letter]
        (mailbox.pushFront letter) true
  | tryBlocked :
      MailboxEffect mailbox true [.tryBlocked mailbox.tryBlock.2]
        mailbox.tryBlock.1 true
  | drained :
      MailboxEffect mailbox true
        ((mailbox.urgentQueue ++ mailbox.normalQueue).map (.bounced true))
        mailbox.drainCached false
  | closed :
      MailboxEffect mailbox false
        (mailbox.inbox.elements.map (.bounced false))
        { mailbox with inbox := .closed } false

private theorem history_bounced {p : MessagePriority} {cached : Bool}
    (op : Letter α → DequeOp (Letter α))
    (hop : ∀ letter, MailboxEvent.ops p (.bounced cached letter) =
      if letter.priority = p then [op letter] else [])
    (letters : List (Letter α)) :
    history p (letters.map (.bounced cached)) =
      (letters.filter fun x => x.priority = p).map op := by
  induction letters with
  | nil => rfl
  | cons letter letters ih =>
    have hcons : history p ((letter :: letters).map (.bounced cached)) =
        MailboxEvent.ops p (.bounced cached letter) ++
          history p (letters.map (.bounced cached)) := rfl
    rw [hcons, hop, ih]
    by_cases hp : letter.priority = p <;> simp [hp]

private theorem filter_cached (mailbox : DefaultMailbox α)
    (p : MessagePriority) :
    ((mailbox.urgentQueue ++ mailbox.normalQueue).filter
      fun x => x.priority = p) = mailbox.queue p := by
  have hurgent := mailbox.queue_priority .high
  have hnormal := mailbox.queue_priority .normal
  rw [filter_append]
  cases p with
  | high =>
    rw [filter_eq_self.mpr, filter_eq_nil_iff.mpr]
    · exact append_nil _
    · intro x hx
      simp [hnormal x hx]
    · intro x hx
      simp [hurgent x hx]
  | normal =>
    rw [filter_eq_nil_iff.mpr, filter_eq_self.mpr]
    · rfl
    · intro x hx
      simp [hnormal x hx]
    · intro x hx
      simp [hurgent x hx]

variable {p : MessagePriority} {event : MailboxEvent α}

private theorem replays_event {q q' : List (Letter α)} (letter : Letter α)
    (op : DequeOp (Letter α))
    (hops : event.ops p = if letter.priority = p then [op] else [])
    (hstep : letter.priority = p → DequeStep q op q')
    (hskip : letter.priority ≠ p → q' = q) :
    Replays q (history p [event]) q' := by
  have hhistory : history p [event] = event.ops p := by simp [history]
  rw [hhistory, hops]
  by_cases hp : letter.priority = p
  · rw [if_pos hp]
    exact .single (hstep hp)
  · rw [if_neg hp, hskip hp]
    exact .nil

theorem MailboxEffect.replays {mailbox mailbox' : DefaultMailbox α}
    {events : List (MailboxEvent α)} {o o' : Bool}
    (h : MailboxEffect mailbox o events mailbox' o') (p : MessagePriority) :
    Replays (mailbox.pending p) (history p events) (mailbox'.pending p) := by
  cases h with
  | silent _ hsame | peeked _ hsame | sized _ hsame =>
    rw [hsame p]
    exact .nil
  | rejected _ letter hclosed => exact .nil
  | accepted _ letter hres =>
    rw [pending_accept]
    refine replays_event letter (.pushBack letter)
      (by simp [MailboxEvent.ops, hres]) ?_ ?_
    · intro hp
      rw [if_pos hp]
      exact .pushBack _ _
    · intro hp
      simp [hp]
  | @popped mailbox₁ _ letter hsame hpop =>
    rw [← hsame p, pending_popCached hpop p]
    refine replays_event letter (.popFront letter) rfl ?_ ?_
    · intro hp
      rw [if_pos hp]
      exact .popFront _ _
    · intro hp
      simp [hp]
  | putBack letter =>
    rw [pending_pushFront]
    refine replays_event letter (.pushFront letter) rfl ?_ ?_
    · intro hp
      rw [if_pos hp]
      exact .pushFront _ _
    · intro hp
      simp [hp]
  | tryBlocked =>
    rcases mailbox.tryBlock_cases with ⟨rfl, hblock⟩ | ⟨-, hblock⟩
    · rw [hblock]
      cases p <;> exact .nil
    · rw [hblock]
      exact .nil
  | drained =>
    rw [history_bounced .popFront fun letter => rfl, filter_cached]
    have hrest : mailbox.drainCached.pending p =
        (mailbox.inbox.elements.filter fun x => x.priority = p).reverse := by
      cases p <;> rfl
    rw [hrest]
    exact .popFront_all _ _
  | closed =>
    rw [history_bounced .popBack fun letter => rfl]
    have hrest : pending { mailbox with inbox := .closed } p =
        mailbox.queue p := by
      cases p <;> simp [pending, queue]
    rw [hrest]
    exact .popBack_all _ _

namespace MailboxEffect

variable {mailbox mailbox' : DefaultMailbox α} {o o' : Bool}
  {events : List (MailboxEvent α)}

section

variable (h : MailboxEffect mailbox o events mailbox' o')
include h

theorem unbounced (ho' : o' = true) :
    o = true ∧ ∀ cached letter, .bounced cached letter ∉ events := by
  cases h with
  | drained | closed => contradiction
  | _ => simp_all

theorem unpopped (ho' : o' = false) (p : MessagePriority) :
    poppedLetters p events = [] := by
  cases h with
  | drained | closed =>
    simp [poppedLetters, MailboxEvent.poppedOf]
  | silent | rejected | accepted => rfl
  | _ => contradiction

theorem urgentQueue_of_popped {letter : Letter α}
    (hmem : .popped letter ∈ events) (hp : letter.priority = .normal) :
    mailbox'.urgentQueue = [] := by
  cases h with
  | @popped mailbox₁ _ x hsame hpop =>
    obtain rfl : letter = x := by simpa using hmem
    obtain ⟨-, hurgent | hnormal⟩ := popCached_cases hpop
    · have hx : letter.priority = .high :=
        mailbox₁.queue_priority .high letter (by
          simp [queue, hurgent.1])
      rw [hx] at hp
      contradiction
    · exact hnormal.2.1
  | _ => simp at hmem

theorem pending_of_tryBlocked (hmem : .tryBlocked true ∈ events)
    (p : MessagePriority) : mailbox.pending p = [] := by
  cases h with
  | tryBlocked =>
    rcases mailbox.tryBlock_cases with ⟨rfl, -⟩ | ⟨-, hblock⟩
    · exact pending_initial p
    · rw [hblock] at hmem
      simp at hmem
  | _ => simp at hmem

end

end MailboxEffect

def MailboxRun.Takes (s t : MailboxRun α) : Prop :=
  ∃ events, t.log = s.log ++ events ∧
    MailboxEffect s.mailbox s.owner.isOpen events t.mailbox t.owner.isOpen

namespace MailboxRun

variable {s t : MailboxRun α} {i : Nat}

private theorem takes_of_effect {o o' : Bool} {events : List (MailboxEvent α)}
    (ho : s.owner.isOpen = o) (ho' : t.owner.isOpen = o')
    (hlog : t.log = s.log ++ events)
    (heffect : MailboxEffect s.mailbox o events t.mailbox o') : s.Takes t := by
  subst ho ho'
  exact ⟨events, hlog, heffect⟩

private theorem takes_silent (ho : t.owner.isOpen = s.owner.isOpen)
    (hlog : t.log = s.log)
    (hsame : ∀ p, t.mailbox.pending p = s.mailbox.pending p) : s.Takes t :=
  takes_of_effect rfl ho (by simpa using hlog) (.silent _ hsame)

variable {mailbox : DefaultMailbox α} {spurious : Bool} {a : MailboxAction α}

private theorem takes_popLoop (ho : s.owner.isOpen = true)
    (hsame : ∀ p, mailbox.pending p = s.mailbox.pending p) :
    s.Takes (popLoop { s with mailbox }) := by
  unfold popLoop
  split
  · rename_i letter mailbox' hpop
    exact takes_of_effect ho rfl rfl (.popped hsame hpop)
  · exact takes_silent ho.symm rfl hsame

theorem pushStep_takes (h : s.pushStep i = some t) : s.Takes t := by
  unfold pushStep at h
  split at h
  · contradiction
  · rename_i letter pc hcall
    rcases s.mailbox.pushBack_cases letter pc with
      ⟨pc', hpush⟩ | ⟨hclosed, hpush⟩ | ⟨hblk, hpush⟩ |
        ⟨list, hopen, hpush⟩
    all_goals
      rw [hpush] at h
      cases h
    · exact takes_silent rfl rfl fun p => rfl
    · exact ⟨_, rfl, .rejected _ letter hclosed⟩
    · exact ⟨_, rfl, .accepted _ letter (by decide)⟩
    · exact ⟨_, rfl, .accepted _ letter (by decide)⟩

private theorem pending_tryUnblock (mailbox : DefaultMailbox α)
    (p : MessagePriority) :
    mailbox.tryUnblock.1.pending p = mailbox.pending p := by
  by_cases hblk : mailbox.inbox = .blocked
  · cases p <;>
      simp [tryUnblock, LifoInbox.tryUnblock, hblk, pending, queue, Stack.empty]
  · simp [tryUnblock, LifoInbox.tryUnblock, hblk]

theorem ownerCall_takes (hidle : s.owner = .idle) (op : OwnerCall α) :
    s.Takes (s.ownerCall op) := by
  have ho : s.owner.isOpen = true := by rw [hidle]; rfl
  cases op with
  | popFront => exact takes_popLoop ho fun p => rfl
  | pushFront letter => exact takes_of_effect ho ho rfl (.putBack letter)
  | peek id | size => exact takes_silent ho.symm rfl fun p => rfl
  | tryBlock => exact takes_of_effect ho ho rfl .tryBlocked
  | tryUnblock => exact takes_silent rfl rfl (pending_tryUnblock s.mailbox)
  | close => exact takes_of_effect ho rfl rfl .drained

private theorem fetched_takes (ho : s.owner.isOpen = true)
    (hsame : ∀ p, mailbox.pending p = s.mailbox.pending p) (caller : Fetcher)
    (more : Bool) : s.Takes (fetched { s with mailbox } caller more) := by
  cases caller with
  | popFront =>
    cases more with
    | true => exact takes_popLoop ho hsame
    | false => exact takes_silent ho.symm rfl hsame
  | peek id => exact takes_of_effect ho rfl rfl (.peeked _ hsame)
  | size => exact takes_of_effect ho rfl rfl (.sized _ hsame)

theorem ownerAccess_takes (h : s.ownerAccess spurious = some t) :
    s.Takes t := by
  unfold ownerAccess at h
  split at h
  · contradiction
  · contradiction
  · rename_i howner
    have ho : s.owner.isOpen = true := by rw [howner]; rfl
    split at h
    · cases h
      exact takes_of_effect ho rfl rfl (.peeked none fun p => rfl)
    · cases h
      exact takes_silent ho.symm rfl fun p => rfl
  · rename_i howner
    have ho : s.owner.isOpen = true := by rw [howner]; rfl
    split at h
    · cases h
      exact takes_of_effect ho rfl rfl (.peeked none fun p => rfl)
    · cases h
      exact takes_silent ho.symm rfl fun p => rfl
  · rename_i caller pc howner
    have ho : s.owner.isOpen = true := by rw [howner]; rfl
    split at h
    · contradiction
    · rename_i mailbox pc' hfetch
      cases h
      exact takes_silent ho.symm rfl (pending_fetchMore hfetch)
    · rename_i mailbox more hfetch
      cases h
      exact fetched_takes ho (pending_fetchMore hfetch)
        caller more
  · rename_i pc howner
    have ho : s.owner.isOpen = false := by rw [howner]; rfl
    split at h
    · contradiction
    · rename_i mailbox pc' hclose
      cases h
      rcases closeInbox_cases hclose with
        ⟨_, rfl, -⟩ | ⟨-, hret⟩
      · exact takes_silent ho.symm rfl fun p => rfl
      · contradiction
    · rename_i mailbox letters hclose
      cases h
      rcases closeInbox_cases hclose with
        ⟨_, -, hruns⟩ | ⟨rfl, hret⟩
      · contradiction
      · cases hret
        exact takes_of_effect ho rfl rfl .closed

theorem step_takes (h : step s a = some t) : s.Takes t := by
  cases a with
  | call letter =>
    cases h
    exact takes_silent rfl rfl fun p => rfl
  | push i => exact pushStep_takes h
  | owner op =>
    obtain ⟨hidle, rfl⟩ := of_guard h
    exact ownerCall_takes hidle op
  | access spurious => exact ownerAccess_takes h

private theorem pushStep_owner (h : s.pushStep i = some t) :
    t.owner = s.owner := by
  unfold pushStep at h
  split at h
  · contradiction
  · split at h <;> cases h <;> rfl

private theorem popLoop_owner (s : MailboxRun α) :
    s.popLoop.owner ≠ .closed := by
  unfold popLoop
  split <;> simp

private theorem ownerAccess_closed (h : s.ownerAccess spurious = some t)
    (ht : t.owner = .closed) : t.mailbox.inbox = .closed := by
  unfold ownerAccess at h
  split at h
  · contradiction
  · contradiction
  · split at h <;> cases h <;> contradiction
  · split at h <;> cases h <;> contradiction
  · split at h
    · contradiction
    · cases h
      contradiction
    · rename_i caller _ _ _ _ more _
      cases h
      revert ht
      cases caller <;> cases more <;> simp [fetched, popLoop_owner]
  · split at h
    · contradiction
    · cases h
      contradiction
    · rename_i hclose
      cases h
      rcases closeInbox_cases hclose with
        ⟨_, -, hruns⟩ | ⟨rfl, -⟩
      · contradiction
      · rfl

def ClosedTag (s : MailboxRun α) : Prop :=
  s.owner = .closed → s.mailbox.inbox = .closed

theorem step_closedTag (hs : s.ClosedTag) (h : step s a = some t) :
    t.ClosedTag := by
  intro ht
  cases a with
  | call letter =>
    cases h
    exact hs ht
  | push i =>
    have hinbox := hs ((pushStep_owner h).symm.trans ht)
    change s.pushStep i = some t at h
    unfold pushStep at h
    split at h
    · contradiction
    · rw [pushBack_closed hinbox] at h
      cases h
      exact hinbox
  | owner op =>
    obtain ⟨hidle, rfl⟩ := of_guard h
    revert ht
    cases op <;> simp [ownerCall, popLoop_owner, hidle]
  | access spurious => exact ownerAccess_closed h ht

end MailboxRun

def PlainLog (log : List (MailboxEvent α)) : Prop :=
  ∀ event ∈ log, (∀ letter, event ≠ .putBack letter) ∧
    ∀ cached letter, event ≠ .bounced cached letter

private theorem ops_plain (p : MessagePriority)
    (hback : ∀ letter, event ≠ .putBack letter)
    (hbounced : ∀ cached letter, event ≠ .bounced cached letter) :
    (∀ op ∈ event.ops p, op.Fifo) ∧
    (event.ops p).flatMap added = event.acceptedOf p ∧
    (event.ops p).flatMap removed = event.poppedOf p := by
  cases event with
  | pushed letter result =>
    by_cases h : result ≠ .queueClosed ∧ letter.priority = p <;>
      simp [MailboxEvent.ops, MailboxEvent.acceptedOf, MailboxEvent.poppedOf, h,
        Fifo, added, removed]
  | popped letter =>
    by_cases h : letter.priority = p <;>
      simp [MailboxEvent.ops, MailboxEvent.acceptedOf, MailboxEvent.poppedOf, h,
        Fifo, added, removed]
  | putBack letter => exact absurd rfl (hback letter)
  | peeked result | sized count | tryBlocked ok =>
    exact ⟨by simp [MailboxEvent.ops], rfl, rfl⟩
  | bounced cached letter => exact absurd rfl (hbounced cached letter)

theorem fifo_of_replays {log : List (MailboxEvent α)} {q : List (Letter α)}
    (hplain : PlainLog log) (h : Replays [] (history p log) q) :
    acceptedPushes p log = poppedLetters p log ++ q := by
  have hevent := fun event hmem =>
    ops_plain p (hplain event hmem).1 (hplain event hmem).2
  have hfifo := h.fifo (by
    intro op hop
    obtain ⟨event, hmem, hop⟩ := mem_flatMap.mp hop
    exact (hevent event hmem).1 op hop)
  simp only [history, flatMap_assoc, nil_append] at hfifo
  calc acceptedPushes p log
      = log.flatMap fun event => (event.ops p).flatMap added :=
        (flatMap_congr fun event hmem => (hevent event hmem).2.1).symm
    _ = (log.flatMap fun event => (event.ops p).flatMap removed) ++ q :=
        hfifo
    _ = poppedLetters p log ++ q := by
        rw [flatMap_congr fun event hmem => (hevent event hmem).2.2]
        rfl

namespace MailboxRun

structure Inv (s : MailboxRun α) : Prop where
  replays : ∀ p, Replays [] (history p s.log) (s.mailbox.pending p)
  closedTag : s.ClosedTag
  unbounced : s.owner.isOpen = true →
    ∀ cached letter, .bounced cached letter ∉ s.log
  prefixes : ∀ p, (∀ letter, .putBack letter ∉ s.log) →
    poppedLetters p s.log <+: acceptedPushes p s.log

theorem inv_initial : (initial : MailboxRun α).Inv where
  replays p := by
    rw [show (initial : MailboxRun α).mailbox = .initial from rfl,
      pending_initial]
    exact .nil
  closedTag h := by contradiction
  unbounced _ := by simp [initial]
  prefixes p _ := nil_prefix

theorem step_inv {s t : MailboxRun α} {a : MailboxAction α} (hs : s.Inv)
    (h : step s a = some t) : t.Inv := by
  obtain ⟨events, hlog, heffect⟩ := step_takes h
  have hreplays : ∀ p, Replays [] (history p t.log) (t.mailbox.pending p) := by
    intro p
    rw [hlog, history, flatMap_append]
    exact (hs.replays p).append (heffect.replays p)
  have hunbounced : t.owner.isOpen = true →
      ∀ cached letter, .bounced cached letter ∉ t.log := by
    intro ht cached letter
    obtain ⟨hopen, hevs⟩ := heffect.unbounced ht
    rw [hlog, mem_append, not_or]
    exact ⟨hs.unbounced hopen cached letter, hevs cached letter⟩
  refine ⟨hreplays, step_closedTag hs.closedTag h, hunbounced, ?_⟩
  intro p hback
  cases ht : t.owner.isOpen with
  | true =>
    have hplain : PlainLog t.log := by
      intro event hmem
      constructor
      · rintro letter rfl
        exact hback letter hmem
      · rintro cached letter rfl
        exact hunbounced ht cached letter hmem
    rw [fifo_of_replays hplain (hreplays p)]
    exact prefix_append _ _
  | false =>
    -- Nothing is popped after `close`; only the accepted messages grow.
    have hold := hs.prefixes p fun letter hmem =>
      hback letter (by simp [hlog, hmem])
    have hpopped : poppedLetters p t.log = poppedLetters p s.log := by
      have hnew := heffect.unpopped ht p
      simp only [poppedLetters] at hnew ⊢
      rw [hlog, flatMap_append, hnew, append_nil]
    rw [hpopped]
    refine hold.trans ?_
    rw [hlog, acceptedPushes, acceptedPushes, flatMap_append]
    exact prefix_append _ _

/--
Over every interleaving: the log is a valid queue history for each priority,
without put-backs the popped messages are a prefix of the accepted ones, urgent
messages go first, blocking needs an empty mailbox, and a closed mailbox
rejects every push.
-/
theorem mailbox_run_correct {s t : MailboxRun α}
    (actions : List (MailboxAction α)) (a : MailboxAction α)
    (hrun : exec step initial actions = some s) (hstep : step s a = some t) :
    (∀ p, Replays [] (history p t.log) (t.mailbox.pending p)) ∧
    (∀ p, (∀ letter, .putBack letter ∉ t.log) →
      poppedLetters p t.log <+: acceptedPushes p t.log) ∧
    (∀ letter, t.log = s.log ++ [.popped letter] →
      letter.priority = .normal → t.mailbox.urgentQueue = []) ∧
    (t.log = s.log ++ [.tryBlocked true] → ∀ p, s.mailbox.pending p = []) ∧
    (s.owner = .closed → ∀ i letter pc, s.calls[i]? = some (letter, pc) →
      ∃ u, step s (.push i) = some u ∧
        u.log = s.log ++ [.pushed letter .queueClosed]) := by
  have hs := exec_invariant Inv (fun _ _ _ => step_inv) inv_initial hrun
  have ht := step_inv hs hstep
  obtain ⟨events, hlog, heffect⟩ := step_takes hstep
  refine ⟨ht.replays, ht.prefixes, ?_, ?_, ?_⟩
  · intro letter hpopped hp
    rw [hlog, List.append_cancel_left_eq] at hpopped
    exact heffect.urgentQueue_of_popped (by simp [hpopped]) hp
  · intro hblocked
    rw [hlog, List.append_cancel_left_eq] at hblocked
    exact heffect.pending_of_tryBlocked (by simp [hblocked])
  · intro hclosed i letter pc hcall
    have hpush := pushBack_closed (hs.closedTag hclosed)
    refine ⟨{ s with
      calls := s.calls.eraseIdx i
      log := s.log ++ [.pushed letter .queueClosed] }, ?_, rfl⟩
    simp [step, pushStep, hcall, hpush]

def normalLetter : Letter Nat := ⟨1, none, .makeMessageId 7#64, 10⟩

def urgentLetter : Letter Nat := ⟨2, none, ⟨8#64⟩, 20⟩

def raceActions : List (MailboxAction Nat) :=
  [.call normalLetter, .call urgentLetter, .push 0, .push 1, .push 0, .push 0,
    .push 0, .owner .popFront, .access false]

theorem mailbox_run_correct_race :
    ∃ s t, exec step initial raceActions = some s ∧
      step s (.access false) = some t ∧
      t.log = s.log ++ [.popped urgentLetter] ∧
      ∀ p, Replays [] (history p t.log) (t.mailbox.pending p) :=
  ⟨_, _, rfl, rfl, rfl,
    (mailbox_run_correct raceActions (.access false) rfl rfl).1⟩

end MailboxRun

end ActorFramework.Core
