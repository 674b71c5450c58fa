import ActorFramework.Core.DefaultMailbox
import ActorFramework.Foundation.Transition

/-!
# Proxies for remote actors

A proxy wraps each message and passes it on to the broker.  It drops its handle
to the broker when it is killed, and a broker that has terminated takes no
messages.  Both can happen between any two messages.
-/

namespace ActorFramework.Core

open Foundation List

/-- `responses` has the error responses to senders. -/
structure ForwardingActorProxy (α : Type) where
  broker : Bool := true
  brokerOpen : Bool := true
  enqueued : List (MailboxElement α) := []
  forwarded : List (MailboxElement α) := []
  responses : List (Nat × MessageId) := []

inductive ProxyAction (α : Type) where
  | enqueue (what : MailboxElement α)
  | killProxy
  | brokerTerminates

namespace ForwardingActorProxy

variable {α : Type} (s : ForwardingActorProxy α)

def syncRequestBouncer (sender : Option Nat) (mid : MessageId) :
    ForwardingActorProxy α :=
  if mid.isRequest then
    { s with
      responses := s.responses ++ sender.toList.map (·, mid.responseId) }
  else s

/-- `enqueue` of the broker. -/
def brokerEnqueue (ptr : MailboxElement (MailboxElement α)) :
    ForwardingActorProxy α :=
  if s.brokerOpen then { s with forwarded := s.forwarded ++ [ptr.payload] }
  else s.syncRequestBouncer ptr.sender ptr.mid

def forwardMsg (what : MailboxElement α) : ForwardingActorProxy α :=
  let ptr := ⟨none, MessageId.makeMessageId 0#64, what⟩
  if s.broker then s.brokerEnqueue ptr else s

def step (s : ForwardingActorProxy α) :
    ProxyAction α → Option (ForwardingActorProxy α)
  | .enqueue what =>
    some ({ s with enqueued := s.enqueued ++ [what] }.forwardMsg what)
  | .killProxy => some { s with broker := false }
  | .brokerTerminates => some { s with brokerOpen := false }

def Settled (what : MailboxElement α) : Prop :=
  what ∈ s.forwarded ∨
    ∃ sender ∈ what.sender, (sender, what.mid.responseId) ∈ s.responses

def NoneDropped : Prop :=
  ∀ what ∈ s.enqueued, what.mid.isRequest = true → s.Settled what

def Reachable (action : ProxyAction α) : Prop :=
  ∀ what, action = .enqueue what → what.mid.isRequest = true →
    s.broker = true ∧ s.brokerOpen = true

variable {s} {t : ForwardingActorProxy α} {actions : List (ProxyAction α)}

theorem forwardMsg_eq (what : MailboxElement α) : s.forwardMsg what =
    if s.broker ∧ s.brokerOpen then
      { s with forwarded := s.forwarded ++ [what] }
    else s := by
  have hasync : (MessageId.makeMessageId 0#64).isRequest = false := by decide
  cases hbroker : s.broker <;> cases hopen : s.brokerOpen <;>
    simp [forwardMsg, brokerEnqueue, syncRequestBouncer, *]

theorem NoneDropped.enqueue (h : s.NoneDropped) {what : MailboxElement α}
    (hreach : s.Reachable (.enqueue what)) :
    ({ s with
      enqueued := s.enqueued ++ [what] }.forwardMsg what).NoneDropped := by
  rw [forwardMsg_eq]
  split <;> rename_i hopen <;> intro other hother hreq <;>
    rcases mem_append.mp hother with hold | hnew
  · exact (h other hold hreq).imp_left (mem_append_left _)
  · exact .inl (mem_append_right _ hnew)
  · exact h other hold hreq
  · cases mem_singleton.mp hnew
    exact absurd (hreach _ rfl hreq) hopen

theorem no_request_dropped (hreach : Along step Reachable s actions)
    (h : s.NoneDropped) (hrun : exec step s actions = some t) :
    t.NoneDropped := by
  refine exec_invariant_along NoneDropped ?_ h hreach hrun
  intro s action t h hreach hstep
  cases action with
  | enqueue what =>
    cases hstep
    exact h.enqueue hreach
  | killProxy =>
    cases hstep
    exact h
  | brokerTerminates =>
    cases hstep
    exact h

theorem no_request_dropped_kill :
    ∃ t, exec step ({} : ForwardingActorProxy Unit)
        [.enqueue ⟨some 1, ⟨1#64⟩, ()⟩, .killProxy] = some t ∧
      t.enqueued.length = 1 ∧ t.NoneDropped :=
  ⟨_, rfl, rfl, @no_request_dropped _ {} _
    [.enqueue ⟨some 1, ⟨1#64⟩, ()⟩, .killProxy]
    ⟨fun _ _ _ => ⟨rfl, rfl⟩, nofun, trivial⟩ (fun _ h => nomatch h) rfl⟩

theorem killed_proxy_drops_request :
    ∃ t, exec step ({} : ForwardingActorProxy Unit)
        [.killProxy, .enqueue ⟨some 1, ⟨1#64⟩, ()⟩] = some t ∧
      ¬t.NoneDropped := by
  refine ⟨_, rfl, fun h => ?_⟩
  simpa [Settled, forwardMsg] using h _ (.head _) rfl

/-- The broker gets the messages in order, until the proxy or the broker ends,
and no sender gets a response. -/
structure Forwards (s : ForwardingActorProxy α) : Prop where
  order : s.forwarded <+: s.enqueued
  silent : s.responses = []
  all : s.broker ∧ s.brokerOpen → s.forwarded = s.enqueued

theorem proxy_forwards_in_order (hrun : exec step {} actions = some t) :
    t.Forwards := by
  refine exec_invariant Forwards ?_ ⟨prefix_rfl, rfl, fun _ => rfl⟩ hrun
  intro s action t h hstep
  cases action with
  | enqueue what =>
    cases hstep
    rw [forwardMsg_eq]
    split
    · rename_i hopen
      have hall := h.all hopen
      exact ⟨by simp [hall], h.silent, by simp [hall]⟩
    · rename_i hgone
      exact ⟨h.order.trans (prefix_append _ _), h.silent, (absurd · hgone)⟩
  | killProxy | brokerTerminates =>
    cases hstep
    exact ⟨h.order, h.silent, by simp⟩

theorem proxy_forwards_in_order_kill :
    ∃ t, exec step ({} : ForwardingActorProxy Unit)
      [.enqueue ⟨none, ⟨1#64⟩, ()⟩, .killProxy] = some t ∧ t.Forwards :=
  ⟨_, rfl, @proxy_forwards_in_order _ _ [.enqueue _, .killProxy] rfl⟩

end ForwardingActorProxy

end ActorFramework.Core
