import ActorFramework.Core.DefaultMailbox
import ActorFramework.Foundation.Counting
import ActorFramework.Foundation.Transition

/-!
# Response promises

All copies of a promise share one reference-counted state.  Delivering or
delegating cancels the state; destroying a state that was not canceled sends
`broken_promise` to the requester.  The model follows one request: the mailbox
element, the shared state, all `response_promise` objects and all messages.
-/

namespace ActorFramework.Core

open Foundation List Option

variable {α : Type*}

inductive ResponseContent (α : Type*) where
  | message (values : List α)
  | error (code : Nat)
  | brokenPromise

def ResponseContent.isEmpty : ResponseContent α → Bool
  | .message values => values.isEmpty
  | _ => false

inductive SentMessage (α : Type*) where
  | response (receiver : Nat) (id : MessageId) (content : ResponseContent α)
  | request (sender : Option Nat) (receiver : Nat) (id : MessageId)
      (payload : α)

/-- `response_promise::state`; `self` says whether the pointer is set. -/
structure PromiseState where
  refCount : Nat
  self : Bool
  source : Option Nat
  id : MessageId

namespace PromiseState

variable (state : PromiseState)

def destroy : List (SentMessage α) :=
  match state.self, state.source with
  | true, some source =>
    [.response source state.id.responseId .brokenPromise]
  | _, _ => []

def deliverImpl (msg : ResponseContent α) :
    PromiseState × List (SentMessage α) :=
  ({ state with self := false },
    if msg.isEmpty && state.id.isAsync then []
    else
      match state.source with
      | some source => [.response source state.id.responseId msg]
      | none => [])

def delegateImpl (receiver : Option Nat) (msg : α) :
    PromiseState × List (SentMessage α) :=
  match receiver with
  | some receiver =>
    ({ state with self := false, source := none },
      [.request state.source receiver state.id msg])
  -- The state is canceled although nothing was sent.
  | none => ({ state with self := false }, [])

def withPriority (priority : MessagePriority) :
    PromiseState :=
  if priority = .high then { state with id := state.id.withHighPriority }
  else state

end PromiseState

def requiresResponse (mid : MessageId) : Bool :=
  !mid.isResponse && !mid.isAnswered

/-- A handle is `true` when it points to the shared state. -/
structure PromiseRun (α : Type*) where
  element : MailboxElement α
  cell : Option PromiseState
  handles : List Bool
  sent : List (SentMessage α)

inductive PromiseOp (α : Type*) where
  | makeResponsePromise
  | respondTo (response : ResponseContent α)
  | copy (i : Nat)
  | move (i : Nat)
  | copyAssign (i j : Nat)
  | moveAssign (i j : Nat)
  | drop (i : Nat)
  | deliver (i : Nat) (msg : ResponseContent α)
  | delegate (i : Nat) (priority : MessagePriority) (receiver : Option Nat)
      (msg : α)

namespace PromiseRun

variable (request : MailboxElement α)

def initial : PromiseRun α :=
  ⟨request, none, [], []⟩

def addRef (s : PromiseRun α) : PromiseRun α :=
  { s with cell := s.cell.map fun c => { c with refCount := c.refCount + 1 } }

def release (s : PromiseRun α) : PromiseRun α :=
  match s.cell with
  | none => s
  | some c =>
    if c.refCount - 1 = 0 then
      { s with cell := none, sent := s.sent ++ c.destroy }
    else { s with cell := some { c with refCount := c.refCount - 1 } }

/-- `reset`: take the new reference, swap, release the old one. -/
def assign (s : PromiseRun α) (i : Nat) (old new : Bool) : PromiseRun α :=
  let taken := if new then s.addRef else s
  let swapped := { taken with handles := s.handles.set i new }
  if old then swapped.release else swapped

def makeResponsePromise (s : PromiseRun α) : PromiseRun α :=
  if s.element.mid.isAnswered then { s with handles := s.handles ++ [false] }
  else
    { s with
      element :=
        { s.element with
          sender := none, mid := s.element.mid.markAsAnswered }
      cell :=
        if requiresResponse s.element.mid then
          some ⟨1, true, s.element.sender, s.element.mid⟩
        else s.cell
      handles := s.handles ++ [requiresResponse s.element.mid] }

def respondTo (s : PromiseRun α) (response : ResponseContent α) :
    PromiseRun α :=
  if requiresResponse s.element.mid ∧ s.element.sender ≠ none then
    let tmp : PromiseState := ⟨1, true, s.element.sender, s.element.mid⟩
    let (tmp, sent) := tmp.deliverImpl response
    { s with
      element :=
        { s.element with
          sender := none, mid := s.element.mid.markAsAnswered }
      sent := s.sent ++ sent ++ tmp.destroy }
  else s

def pending (s : PromiseRun α) (i : Nat) : Option PromiseState :=
  if s.handles[i]? = some true then s.cell.filter (·.self) else none

def deliver (s : PromiseRun α) (i : Nat) (msg : ResponseContent α) :
    PromiseRun α :=
  match s.pending i with
  | none => s
  | some c =>
    let (c, sent) := c.deliverImpl msg
    assign { s with cell := some c, sent := s.sent ++ sent } i true false

def delegate (s : PromiseRun α) (i : Nat) (priority : MessagePriority)
    (receiver : Option Nat) (msg : α) : PromiseRun α :=
  match s.pending i with
  | none => s
  | some c =>
    let (c, sent) := (c.withPriority priority).delegateImpl receiver msg
    assign { s with cell := some c, sent := s.sent ++ sent } i true false

def step (s : PromiseRun α) : PromiseOp α → Option (PromiseRun α)
  | .makeResponsePromise => some s.makeResponsePromise
  | .respondTo response => some (s.respondTo response)
  | .copy i =>
    s.handles[i]?.map fun handle =>
      { if handle then s.addRef else s with
        handles := s.handles ++ [handle] }
  | .move i =>
    s.handles[i]?.map fun handle =>
      { s with handles := s.handles.set i false ++ [handle] }
  | .copyAssign i j =>
    match s.handles[i]?, s.handles[j]? with
    | some old, some new => some (s.assign i old new)
    | _, _ => none
  | .moveAssign i j =>
    match s.handles[i]?, s.handles[j]? with
    | some left, some right =>
      some { s with handles := (s.handles.set i right).set j left }
    | _, _ => none
  | .drop i =>
    s.handles[i]?.map fun handle =>
      let reset := s.assign i handle false
      { reset with handles := reset.handles.eraseIdx i }
  | .deliver i msg =>
    if i < s.handles.length then some (s.deliver i msg) else none
  | .delegate i priority receiver msg =>
    if i < s.handles.length then some (s.delegate i priority receiver msg)
    else none

variable {i : Nat} {old : Bool} {s t : PromiseRun α}

theorem count_set {l : List Bool} (h : l[i]? = some old) (new : Bool) :
    (l.set i new).count true + old.toNat = l.count true + new.toNat := by
  have hcount := countP_set_add (· == true) h new
  rw [beq_true, beq_true] at hcount
  exact hcount

theorem count_eraseIdx {l : List Bool} (h : l[i]? = some old) :
    (l.eraseIdx i).count true + old.toNat = l.count true := by
  have hcount := countP_eraseIdx_add (· == true) h
  rw [beq_true] at hcount
  exact hcount

def Counted (s : PromiseRun α) : Prop :=
  match s.cell with
  | none => s.handles.count true = 0
  | some c => c.refCount = s.handles.count true ∧ 0 < c.refCount

theorem assign_handles (s : PromiseRun α) (i : Nat) (old new : Bool) :
    (s.assign i old new).handles = s.handles.set i new := by
  have hrelease : ∀ u : PromiseRun α, u.release.handles = u.handles := by
    intro u
    unfold release
    split
    · rfl
    · split <;> rfl
  cases old with
  | true => exact hrelease _
  | false => rfl

theorem Counted.cell_ne_none (hs : s.Counted) (h : s.handles[i]? = some true) :
    s.cell ≠ none := by
  intro hnone
  have hpos := count_pos_iff.mpr (mem_of_getElem? h)
  simp only [Counted, hnone] at hs
  omega

/-- The shared state is at most recounted, or its last handle went away. -/
inductive Shuffles (s t : PromiseRun α) : Prop
  | kept (n : Nat) (hcounted : t.Counted) (helement : t.element = s.element)
      (hcell : t.cell = s.cell.map fun c => { c with refCount := n })
      (hsent : t.sent = s.sent)
  | destroyed (c : PromiseState) (hcounted : t.Counted)
      (helement : t.element = s.element) (hcell : s.cell = some c)
      (hnone : t.cell = none) (hsent : t.sent = s.sent ++ c.destroy)

theorem Shuffles.refl (hs : s.Counted) : s.Shuffles s := by
  cases hcell : s.cell with
  | none => exact .kept 0 hs rfl (by simp [hcell]) rfl
  | some c => exact .kept c.refCount hs rfl (by simp [hcell]) rfl

theorem Shuffles.of_count {handles : List Bool} (h : s.Shuffles t)
    (hsame : handles.count true = t.handles.count true) :
    s.Shuffles { t with handles } := by
  have hcount : t.Counted → Counted { t with handles } := by
    intro ht
    simpa only [Counted, hsame] using ht
  cases h with
  | kept n hcnt helem hcell hsent =>
    exact .kept n (hcount hcnt) helem hcell hsent
  | destroyed c hcnt helem hcell hnone hsent =>
    exact .destroyed c (hcount hcnt) helem hcell hnone hsent

theorem assign_shuffles {new : Bool} (hs : s.Counted)
    (hold : s.handles[i]? = some old) (hnew : new = true → s.cell ≠ none) :
    s.Shuffles (s.assign i old new) := by
  have hcount := count_set hold new
  cases hcell : s.cell with
  | none =>
    obtain rfl : old = false := by
      cases old with
      | true => exact absurd hcell (hs.cell_ne_none hold)
      | false => rfl
    obtain rfl : new = false := by
      cases new with
      | true => exact absurd hcell (hnew rfl)
      | false => rfl
    simp only [Counted, hcell] at hs
    refine .kept 0 ?_ rfl (by simp [assign, hcell]) rfl
    simp only [Counted, assign, hcell, Bool.false_eq_true, if_false]
    omega
  | some c =>
    simp only [Counted, hcell] at hs
    cases old with
    | false =>
      cases new with
      | false =>
        simp only [Bool.toNat_false, Nat.add_zero] at hcount
        refine .kept c.refCount ?_ rfl (by simp [assign, hcell]) rfl
        simp only [Counted, assign, hcell, Bool.false_eq_true, if_false]
        omega
      | true =>
        simp only [Bool.toNat_false, Bool.toNat_true] at hcount
        refine .kept (c.refCount + 1) ?_ rfl
          (by simp [assign, addRef, hcell]) rfl
        simp only [Counted, assign, addRef, hcell, Bool.false_eq_true,
          if_false, if_true, map_some]
        omega
    | true =>
      cases new with
      | true =>
        simp only [Nat.add_right_cancel_iff] at hcount
        have hlive : c.refCount + 1 - 1 ≠ 0 := by omega
        refine .kept c.refCount ?_ ?_ ?_ ?_
        all_goals
          simp only [Counted, assign, addRef, release, hcell, if_true,
            map_some, hlive, if_false]
        · omega
        · simp
      | false =>
        simp only [Bool.toNat_false, Bool.toNat_true] at hcount
        by_cases hlast : c.refCount - 1 = 0
        · refine .destroyed c ?_ ?_ hcell ?_ ?_
          all_goals
            simp only [Counted, assign, release, hcell, if_true,
              Bool.false_eq_true, if_false, hlast]
          omega
        · refine .kept (c.refCount - 1) ?_ ?_ ?_ ?_
          all_goals
            simp only [Counted, assign, release, hcell, if_true,
              Bool.false_eq_true, if_false, hlast, map_some]
          omega

/-- A pending handle delivered or delegated: `sent` went out. -/
structure Settles (s : PromiseRun α) (sent : List (SentMessage α))
    (t : PromiseRun α) : Prop where
  counted : t.Counted
  element : t.element = s.element
  canceled : ∀ c, t.cell = some c → c.self = false
  sent : t.sent = s.sent ++ sent

theorem pending_eq_some {c : PromiseState} (h : s.pending i = some c) :
    s.handles[i]? = some true ∧ s.cell = some c ∧ c.self = true := by
  obtain ⟨hhandle, h⟩ := ite_none_right_eq_some.mp h
  exact ⟨hhandle, filter_eq_some_iff.mp h⟩

theorem settle_assign {c c' : PromiseState} (hs : s.Counted)
    (hpend : s.pending i = some c) (hrefs : c'.refCount = c.refCount)
    (hself : c'.self = false) (sent : List (SentMessage α)) :
    s.Settles sent
      (assign { s with cell := some c', sent := s.sent ++ sent } i true
        false) := by
  obtain ⟨hhandle, hcell, -⟩ := pending_eq_some hpend
  have hcnt :
      Counted { s with cell := some c', sent := s.sent ++ sent } := by
    simp only [Counted, hcell] at hs
    simp only [Counted, hrefs]
    exact hs
  have hshuffles := assign_shuffles hcnt hhandle
    (show false = true → _ by simp)
  cases hshuffles with
  | kept n hcount helem hcell' hsent =>
    refine ⟨hcount, helem, ?_, hsent⟩
    intro d hd
    rw [hd] at hcell'
    simp only [map_some, some.injEq] at hcell'
    rw [hcell']
    exact hself
  | destroyed d hcount helem hcell' hnone hsent =>
    have hnothing : (d.destroy : List (SentMessage α)) = [] := by
      obtain rfl : c' = d := by simpa using hcell'
      simp [PromiseState.destroy, hself]
    refine ⟨hcount, helem, by simp [hnone], ?_⟩
    rw [hsent, hnothing, append_nil]

inductive Moves (s : PromiseRun α) : PromiseOp α → PromiseRun α → Prop
  | shuffled {op t} (hshuffles : s.Shuffles t)
      (hidle : ∀ i priority receiver msg,
        op = .delegate i priority receiver msg → s.pending i = none) :
      Moves s op t
  | made : Moves s .makeResponsePromise s.makeResponsePromise
  | responded (response) : Moves s (.respondTo response) (s.respondTo response)
  | delivered {i c t} (msg) (hpending : s.pending i = some c)
      (hsettles : s.Settles (c.deliverImpl msg).2 t) :
      Moves s (.deliver i msg) t
  | delegated {i c t} (priority receiver msg)
      (hpending : s.pending i = some c)
      (hsettles : s.Settles
        ((c.withPriority priority).delegateImpl receiver msg).2 t) :
      Moves s (.delegate i priority receiver msg) t

variable {op : PromiseOp α}

theorem step_moves {s t : PromiseRun α} (hs : s.Counted)
    (h : step s op = some t) : s.Moves op t := by
  cases op with
  | makeResponsePromise =>
    cases h
    exact .made
  | respondTo response =>
    cases h
    exact .responded response
  | copy i =>
    simp only [step, map_eq_some_iff] at h
    obtain ⟨handle, hhandle, rfl⟩ := h
    refine .shuffled ?_ (by simp)
    cases handle with
    | false => exact (Shuffles.refl hs).of_count (by simp)
    | true =>
      obtain ⟨c, hcell⟩ :=
        ne_none_iff_exists'.mp (hs.cell_ne_none hhandle)
      refine .kept (c.refCount + 1) ?_ rfl (by simp [addRef, hcell]) rfl
      simp only [Counted, hcell] at hs
      simp [Counted, addRef, hcell, hs.1]
  | move i =>
    simp only [step, map_eq_some_iff] at h
    obtain ⟨handle, hhandle, rfl⟩ := h
    have hcount := count_set hhandle false
    have hsame : (s.handles.set i false ++ [handle]).count true =
        s.handles.count true := by
      rw [count_append]
      cases handle <;> simp_all
    exact .shuffled ((Shuffles.refl hs).of_count hsame) (by simp)
  | copyAssign i j =>
    simp only [step] at h
    split at h
    · rename_i old new hold hnew
      cases h
      refine .shuffled (assign_shuffles hs hold ?_) (by simp)
      rintro rfl
      exact hs.cell_ne_none hnew
    · contradiction
  | moveAssign i j =>
    simp only [step] at h
    split at h
    · rename_i left right hleft hright
      cases h
      have hsame : ((s.handles.set i right).set j left).count true =
          s.handles.count true := by
        have hfirst := count_set hleft right
        have hcurrent : (s.handles.set i right)[j]? = some right := by
          by_cases hij : i = j
          · subst hij
            have hi : i < s.handles.length :=
              (List.getElem?_eq_some_iff.mp hleft).1
            simp [hi]
          · rw [getElem?_set_ne hij]
            exact hright
        have hsecond := count_set hcurrent left
        omega
      exact .shuffled ((Shuffles.refl hs).of_count hsame) (by simp)
    · contradiction
  | drop i =>
    simp only [step, map_eq_some_iff] at h
    obtain ⟨handle, hhandle, rfl⟩ := h
    have hreset := assign_shuffles hs hhandle
      (show false = true → s.cell ≠ none by simp)
    refine .shuffled (hreset.of_count ?_) (by simp)
    have hi : i < s.handles.length :=
      (List.getElem?_eq_some_iff.mp hhandle).1
    have hnull : (s.assign i handle false).handles[i]? = some false := by
      rw [assign_handles]
      simp [hi]
    have hcount := count_eraseIdx hnull
    simpa using hcount
  | deliver i msg =>
    obtain ⟨-, rfl⟩ := of_guard h
    unfold deliver
    split
    · exact .shuffled (.refl hs) (by simp)
    · rename_i c hpend
      have hsettles := settle_assign hs hpend
        (show (c.deliverImpl msg).1.refCount = c.refCount from rfl) rfl
        (c.deliverImpl msg).2
      exact .delivered msg hpend hsettles
  | delegate i priority receiver msg =>
    obtain ⟨-, rfl⟩ := of_guard h
    unfold delegate
    split
    · rename_i hnone
      refine .shuffled (.refl hs) ?_
      rintro _ _ _ _ heq
      cases heq
      exact hnone
    · rename_i c hpend
      refine .delegated priority receiver msg hpend
        (settle_assign hs hpend ?_ ?_ _)
      · cases receiver <;> cases priority <;> rfl
      · cases receiver <;> cases priority <;> rfl

/-- `message` answers the request, or passes it on unchanged. -/
def Answers : SentMessage α → Prop
  | .response receiver id _ =>
    request.sender = some receiver ∧ id = request.mid.responseId
  | .request sender _ id _ => sender = request.sender ∧ id = request.mid

def ExactlyOnce (sent : List (SentMessage α)) : Prop :=
  ∃ message, sent = [message] ∧ Answers request message

/--
A pending promise is delegated to a valid handle only, and with high priority
only if the request has high priority already.
-/
def DelegatesFaithfully (s : PromiseRun α) : PromiseOp α → Prop
  | .delegate i priority receiver _ =>
    ∀ c ∈ s.pending i,
      receiver ≠ none ∧ (priority = .high → c.id.withHighPriority = c.id)
  | _ => True

instance (s : PromiseRun α) (op : PromiseOp α) :
    Decidable (DelegatesFaithfully s op) := by
  cases op <;> unfold DelegatesFaithfully <;> infer_instance

inductive Unsettled (request : MailboxElement α) (s : PromiseRun α) : Prop
  | unmade (hcounted : s.Counted) (helement : s.element = request)
      (hcell : s.cell = none) (hsent : s.sent = [])
  | pending (n : Nat) (hcounted : s.Counted)
      (hanswered : s.element.mid.isAnswered = true)
      (hcell : s.cell = some ⟨n, true, request.sender, request.mid⟩)
      (hsent : s.sent = [])

structure Settled (s : PromiseRun α) : Prop where
  counted : s.Counted
  answered : s.element.mid.isAnswered = true
  canceled : ∀ c, s.cell = some c → c.self = false

section

variable (hs : s.Settled)
include hs

theorem Settled.pending_eq_none (i : Nat) : s.pending i = none := by
  cases hpend : s.pending i with
  | none => rfl
  | some c =>
    obtain ⟨-, hcell, hself⟩ := pending_eq_some hpend
    rw [hs.canceled c hcell] at hself
    contradiction

theorem Settled.faithful (op : PromiseOp α) : DelegatesFaithfully s op := by
  cases op with
  | delegate i priority receiver msg =>
    intro c hc
    rw [hs.pending_eq_none i] at hc
    contradiction
  | _ => trivial

theorem Settled.step (h : step s op = some t) :
    t.Settled ∧ t.sent = s.sent := by
  cases step_moves hs.counted h with
  | shuffled hshuffles _ =>
    cases hshuffles with
    | kept n hcnt helem hcell hsent =>
      refine ⟨⟨hcnt, ?_, ?_⟩, hsent⟩
      · rw [helem]
        exact hs.answered
      · intro c hc
        rw [hcell, map_eq_some_iff] at hc
        obtain ⟨d, hd, rfl⟩ := hc
        exact hs.canceled d hd
    | destroyed c hcnt helem hcell hnone hsent =>
      refine ⟨⟨hcnt, ?_, by simp [hnone]⟩, ?_⟩
      · rw [helem]
        exact hs.answered
      · simp [hsent, PromiseState.destroy, hs.canceled c hcell]
  | made =>
    have hmade : s.makeResponsePromise =
        { s with handles := s.handles ++ [false] } := by
      simp [makeResponsePromise, hs.answered]
    rw [hmade]
    refine ⟨⟨?_, hs.answered, hs.canceled⟩, rfl⟩
    simpa [Counted] using hs.counted
  | responded response =>
    have hnothing : s.respondTo response = s := by
      simp [respondTo, requiresResponse, hs.answered]
    rw [hnothing]
    exact ⟨hs, rfl⟩
  | delivered msg hpend _ | delegated priority receiver msg hpend _ =>
    rw [hs.pending_eq_none] at hpend
    contradiction

variable {ops : List (PromiseOp α)}

theorem Settled.exec (h : exec PromiseRun.step s ops = some t) :
    t.sent = s.sent := by
  refine (exec_invariant (fun u => u.Settled ∧ u.sent = s.sent) ?_
    ⟨hs, rfl⟩ h).2
  rintro u op v ⟨hu, hsent⟩ hstep
  obtain ⟨hv, hsame⟩ := hu.step hstep
  exact ⟨hv, hsame.trans hsent⟩

theorem Settled.along (ops : List (PromiseOp α)) :
    Along PromiseRun.step DelegatesFaithfully s ops := by
  induction ops generalizing s with
  | nil => trivial
  | cons op ops ih =>
    refine ⟨hs.faithful op, ?_⟩
    split
    · trivial
    · rename_i t hstep
      exact ih (hs.step hstep).1

end

section Request

variable {request : MailboxElement α} {requester : Nat}
  (hrequest : request.mid.isRequest = true)
  (hfresh : request.mid.isAnswered = false)
  (hsender : request.sender = some requester)

include hrequest hfresh in
theorem requiresResponse_request : requiresResponse request.mid = true := by
  simp [requiresResponse, hfresh,
    MessageId.isResponse_eq_false_of_isRequest hrequest]

include hrequest hsender in
theorem deliverImpl_answers (n : Nat) (msg : ResponseContent α) :
    ExactlyOnce request
      (PromiseState.deliverImpl ⟨n, true, request.sender, request.mid⟩
        msg).2 := by
  refine ⟨.response requester request.mid.responseId msg, ?_, hsender, rfl⟩
  simp [PromiseState.deliverImpl, hsender,
    MessageId.isAsync_eq_false_of_isRequest hrequest]

include hsender in
variable (request) in
variable {s t : PromiseRun α}

section

variable (hs : Unsettled request s)
include hs

theorem Unsettled.counted : s.Counted := by
  cases hs with
  | unmade hcnt | pending _ hcnt => exact hcnt

theorem Unsettled.sent_eq : s.sent = [] := by
  cases hs with
  | unmade _ _ _ hsent => exact hsent
  | pending _ _ _ _ hsent => exact hsent

theorem Unsettled.of_pending {i : Nat} {c : PromiseState}
    (h : s.pending i = some c) :
    (∃ n, c = ⟨n, true, request.sender, request.mid⟩) ∧
      s.element.mid.isAnswered = true := by
  obtain ⟨-, hcell, -⟩ := pending_eq_some h
  cases hs with
  | unmade _ _ hnone =>
    rw [hnone] at hcell
    contradiction
  | pending n _ hans hsome =>
    rw [hsome, some.injEq] at hcell
    exact ⟨⟨n, hcell.symm⟩, hans⟩

end

theorem Settles.settled {sent : List (SentMessage α)} (h : s.Settles sent t)
    (hans : s.element.mid.isAnswered = true) : t.Settled := by
  refine ⟨h.counted, ?_, h.canceled⟩
  rw [h.element]
  exact hans

include hsender in
theorem Unsettled.shuffles (hs : Unsettled request s) (h : s.Shuffles t) :
    Unsettled request t ∨ t.Settled ∧ ExactlyOnce request t.sent := by
  cases h with
  | kept n hcnt helem hcell hsent =>
    left
    cases hs with
    | unmade _ helem' hnone hsent' =>
      exact .unmade hcnt (helem.trans helem')
        (by simp [hcell, hnone]) (hsent.trans hsent')
    | pending m _ hans hsome hsent' =>
      refine .pending n hcnt ?_ (by simp [hcell, hsome])
        (hsent.trans hsent')
      rw [helem]
      exact hans
  | destroyed c hcnt helem hcell hnone hsent =>
    right
    cases hs with
    | unmade _ _ hnone' =>
      rw [hnone'] at hcell
      contradiction
    | pending m _ hans hsome hsent' =>
      rw [hsome, some.injEq] at hcell
      subst hcell
      refine ⟨⟨hcnt, ?_, by simp [hnone]⟩, ?_⟩
      · rw [helem]
        exact hans
      · rw [hsent, hsent', nil_append]
        refine ⟨.response requester request.mid.responseId .brokenPromise, ?_,
          hsender, rfl⟩
        simp [PromiseState.destroy, hsender]

include hrequest hfresh in
theorem Unsettled.made (hs : Unsettled request s) :
    Unsettled request s.makeResponsePromise := by
  cases hs with
  | unmade hcnt helem hcell hsent =>
    have hneeded := requiresResponse_request hrequest hfresh
    refine .pending 1 ?_ ?_ ?_ ?_
    · simp only [Counted, hcell] at hcnt
      simp [Counted, makeResponsePromise, helem, hfresh, hneeded, hcnt]
    · simp [makeResponsePromise, helem, hfresh]
    · simp [makeResponsePromise, helem, hfresh, hneeded]
    · simp [makeResponsePromise, helem, hfresh, hsent]
  | pending n hcnt hans hcell hsent =>
    refine .pending n ?_ ?_ ?_ ?_
    · simpa [makeResponsePromise, hans, Counted] using hcnt
    · simp [makeResponsePromise, hans]
    · simpa [makeResponsePromise, hans] using hcell
    · simpa [makeResponsePromise, hans] using hsent

include hrequest hfresh hsender in
theorem Unsettled.responded (hs : Unsettled request s)
    (response : ResponseContent α) :
    Unsettled request (s.respondTo response) ∨
      (s.respondTo response).Settled ∧
        ExactlyOnce request (s.respondTo response).sent := by
  cases hs with
  | unmade hcnt helem hcell hsent =>
    have hneeded := requiresResponse_request hrequest hfresh
    have hresp := deliverImpl_answers hrequest hsender 1 response
    right
    refine ⟨⟨?_, ?_, ?_⟩, ?_⟩
    · simpa [respondTo, helem, hneeded, hsender, Counted, hcell]
        using hcnt
    · simp [respondTo, helem, hneeded, hsender]
    · simp [respondTo, helem, hneeded, hsender, hcell]
    · simpa [respondTo, helem, hneeded, hsender, hsent,
        PromiseState.deliverImpl, PromiseState.destroy] using hresp
  | pending n hcnt hans hcell hsent =>
    have hnothing : s.respondTo response = s := by
      simp [respondTo, requiresResponse, hans]
    rw [hnothing]
    exact .inl (.pending n hcnt hans hcell hsent)

include hrequest hfresh hsender in
theorem Unsettled.step (hs : Unsettled request s)
    (h : PromiseRun.step s op = some t) :
    (DelegatesFaithfully s op ∧
      (Unsettled request t ∨ t.Settled ∧ ExactlyOnce request t.sent)) ∨
    (¬DelegatesFaithfully s op ∧ t.Settled ∧
      ¬ExactlyOnce request t.sent ∧ t.sent.length ≤ 1) := by
  cases step_moves hs.counted h with
  | shuffled hshuffles hidle =>
    refine .inl ⟨?_, hs.shuffles hsender hshuffles⟩
    cases op with
    | delegate i priority receiver msg =>
      intro c hc
      rw [hidle i priority receiver msg rfl] at hc
      contradiction
    | _ => trivial
  | made => exact .inl ⟨trivial, .inl (hs.made hrequest hfresh)⟩
  | responded response =>
    exact .inl ⟨trivial, hs.responded hrequest hfresh hsender response⟩
  | delivered msg hpend hsettles =>
    obtain ⟨⟨n, rfl⟩, hans⟩ := hs.of_pending hpend
    refine .inl ⟨trivial, .inr ⟨hsettles.settled hans, ?_⟩⟩
    rw [hsettles.sent, hs.sent_eq, nil_append]
    exact deliverImpl_answers hrequest hsender n msg
  | @delegated i c _ priority receiver msg hpend hsettles =>
    obtain ⟨⟨n, rfl⟩, hans⟩ := hs.of_pending hpend
    have hset := hsettles.settled hans
    have hsent := hsettles.sent
    rw [hs.sent_eq, nil_append] at hsent
    have hfaithful : DelegatesFaithfully s
        (.delegate i priority receiver msg) ↔
          ExactlyOnce request t.sent := by
      simp only [DelegatesFaithfully, hpend, mem_some_iff, forall_eq', hsent]
      rw [iff_comm]
      cases receiver with
      | none => simp [PromiseState.delegateImpl, ExactlyOnce]
      | some receiver =>
        cases priority <;>
          simp [PromiseState.delegateImpl, PromiseState.withPriority,
            ExactlyOnce, Answers]
    by_cases hgood : ExactlyOnce request t.sent
    · exact .inl ⟨hfaithful.mpr hgood, .inr ⟨hset, hgood⟩⟩
    · refine .inr ⟨mt hfaithful.mp hgood, hset, hgood, ?_⟩
      rw [hsent]
      cases receiver <;> simp [PromiseState.delegateImpl]

include hrequest hfresh hsender in
theorem Unsettled.exec (hs : Unsettled request s)
    (h : exec PromiseRun.step s ops = some t) :
    (Unsettled request t ∧ Along PromiseRun.step DelegatesFaithfully s ops) ∨
    (t.sent.length ≤ 1 ∧ (ExactlyOnce request t.sent ↔
      Along PromiseRun.step DelegatesFaithfully s ops)) := by
  induction ops generalizing s with
  | nil =>
    cases h
    exact .inl ⟨hs, trivial⟩
  | cons op ops ih =>
    obtain ⟨s', hstep, hrest⟩ := exec_cons_eq_some.mp h
    have halong : Along PromiseRun.step DelegatesFaithfully s (op :: ops) ↔
        DelegatesFaithfully s op ∧
          Along PromiseRun.step DelegatesFaithfully s' ops := by
      rw [Along, hstep]
    rw [halong]
    rcases hs.step hrequest hfresh hsender hstep with
      ⟨hfaithful, hs' | ⟨hset, hgood⟩⟩ | ⟨hnot, hset, hbad, hle⟩
    · simpa only [hfaithful, true_and] using ih hs' hrest
    · -- Nothing is pending any more, so all later delegations are faithful.
      right
      rw [hset.exec hrest]
      obtain ⟨message, hone, -⟩ := id hgood
      exact ⟨by simp [hone], fun _ => ⟨hfaithful, hset.along ops⟩,
        fun _ => hgood⟩
    · right
      rw [hset.exec hrest]
      exact ⟨hle, fun hgood => absurd hgood hbad,
        fun hall => absurd hall.1 hnot⟩

end Request

/--
At most one message goes out.  Once the promise was made or the request was
answered directly and no handle points to the state any more, exactly one
answer or unchanged forward went out if and only if every effective delegation
was faithful.
-/
theorem promise_answers_exactly_once (request : MailboxElement α)
    (requester : Nat) (hrequest : request.mid.isRequest = true)
    (hfresh : request.mid.isAnswered = false)
    (hsender : request.sender = some requester) (ops : List (PromiseOp α))
    {s : PromiseRun α} (hrun : exec step (initial request) ops = some s) :
    s.sent.length ≤ 1 ∧
    (s.element.mid.isAnswered = true → true ∉ s.handles →
      (ExactlyOnce request s.sent ↔
        Along step DelegatesFaithfully (initial request) ops)) := by
  have hinit : Unsettled request (initial request) :=
    .unmade rfl rfl rfl rfl
  rcases hinit.exec hrequest hfresh hsender hrun with
    ⟨hs, -⟩ | ⟨hle, hiff⟩
  · refine ⟨by simp [hs.sent_eq], ?_⟩
    intro hanswered hreleased
    cases hs with
    | unmade _ helement =>
      rw [helement, hfresh] at hanswered
      contradiction
    | pending n hcounted _ hcell =>
      simp only [Counted, hcell] at hcounted
      have hnone := List.count_eq_zero.mpr hreleased
      omega
  · exact ⟨hle, fun _ _ => hiff⟩

def pingRequest : MailboxElement Nat := ⟨some 5, .makeMessageId 9#64, 42⟩

def relayOps : List (PromiseOp Nat) :=
  [.makeResponsePromise, .copy 0, .delegate 1 .normal (some 8) 42,
    .deliver 0 (.message [1]), .drop 0, .drop 0]

theorem promise_answers_exactly_once_relay :
    ∃ s, exec step (initial pingRequest) relayOps = some s ∧
      s.handles = [] ∧ ExactlyOnce pingRequest s.sent :=
  ⟨_, rfl, rfl, ((promise_answers_exactly_once pingRequest 5 (by decide)
    (by decide) rfl relayOps rfl).2 rfl (by decide)).mpr (by decide)⟩

def lostOps : List (PromiseOp Nat) :=
  [.makeResponsePromise, .copy 0, .delegate 0 .normal none 42, .drop 0, .drop 0]

def raisedOps : List (PromiseOp Nat) :=
  [.makeResponsePromise, .delegate 0 .high (some 8) 42, .drop 0]

/--
Delegating to an invalid handle sends nothing at all; delegating a normal
request with high priority forwards it under another ID.
-/
theorem promise_delegate_loses_request :
    (∃ s : PromiseRun Nat, exec step (initial pingRequest) lostOps = some s ∧
      s.handles = [] ∧ s.sent = [] ∧ ¬ExactlyOnce pingRequest s.sent) ∧
    ∃ s : PromiseRun Nat,
      exec step (initial pingRequest) raisedOps = some s ∧
      s.sent = [.request (some 5) 8 ⟨9#64⟩ 42] ∧
      (⟨9#64⟩ : MessageId).responseId ≠ pingRequest.mid.responseId ∧
      ¬ExactlyOnce pingRequest s.sent := by
  refine ⟨⟨_, rfl, rfl, rfl, ?_⟩, ⟨_, rfl, rfl, by decide, ?_⟩⟩
  · rintro ⟨message, hsent, -⟩
    cases hsent
  · rintro ⟨message, hsent, hanswers⟩
    cases hsent
    exact absurd hanswers.2 (by decide)

end PromiseRun

end ActorFramework.Core
