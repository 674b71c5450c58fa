import ActorFramework.Net.WebSocket.Books

/-!
# Suspended reading

`suspend_reading` sets the limit of the transport to zero, and nothing but
`request_messages` may raise it again.  The framing sets limits of its own
after each message, also if the upper layer has called `suspend_reading` while
it was consuming this message.
-/

namespace ActorFramework.Net.WebSocket

open ActorFramework.Core (Byte)
open Framing (upperCall deliver ship lower)
open Foundation
open Net.Rfc6455

def UpperCall.suspends (suspended : Bool) : UpperCall → Bool
  | .suspendReading => true
  | .requestMessages => false
  | _ => suspended

/-- The upper layer has called `suspend_reading` while consuming a message, and
not `request_messages` after it. -/
def Reply.leavesSuspended (reply : Reply) : Bool :=
  reply.calls.foldl UpperCall.suspends false

variable {cfg : Config} {f : Framing}

theorem upperCall_suspended (f : Framing) (call : UpperCall) :
    (f.upperCall cfg call).suspended = call.suspends f.suspended := by
  cases call <;> rfl

theorem upperCall_late (f : Framing) (call : UpperCall) :
    (f.upperCall cfg call).late = f.late := by
  cases call <;> rfl

theorem deliver_suspended (hf : f.suspended = false) (m : Message) :
    (f.deliver cfg m).suspended =
      (cfg.upper (f.messages ++ [m])).leavesSuspended := by
  have hfold : ∀ (calls : List UpperCall) (g : Framing),
      (calls.foldl (upperCall cfg) g).suspended =
        calls.foldl UpperCall.suspends g.suspended := by
    intro calls
    induction calls with
    | nil => intro g; rfl
    | cons call calls ih =>
      intro g
      rw [List.foldl_cons, ih, upperCall_suspended]
      rfl
  rw [deliver, hfold, Reply.leavesSuspended]
  simp [hf]

theorem deliver_late (hf : f.suspended = false) (m : Message) :
    (f.deliver cfg m).late = f.late := by
  have hfold : ∀ (calls : List UpperCall) (g : Framing),
      (calls.foldl (upperCall cfg) g).late = g.late := by
    intro calls
    induction calls with
    | nil => intro g; rfl
    | cons call calls ih =>
      intro g
      rw [List.foldl_cons, ih, upperCall_late]
  rw [deliver, hfold]
  simp [hf]

def Held (t : Transport) (f : Framing) : Prop :=
  f.suspended = true → (t.callAll f.calls).maxReadSize = 0

variable {t : Transport}

theorem held_ship (h : Held t f) (opcode : Opcode) (payload : List Byte) :
    Held t (f.ship cfg opcode payload) := by
  intro hsusp
  simp only [ship, lower, Transport.callAll_concat]
  exact h hsusp

theorem held_upperCall (h : Held t f) (call : UpperCall) :
    Held t (f.upperCall cfg call) := by
  cases call with
  | suspendReading =>
    intro _
    simp only [upperCall, lower, Transport.callAll_concat]
    exact Transport.configureRead_maxReadSize _ .stop
  | requestMessages => exact fun hsusp => by cases hsusp
  | endTextMessage text => exact held_ship h _ _
  | endBinaryMessage bytes => exact held_ship h _ _
  | shutdown code msg =>
    intro hsusp
    have hzero := @held_ship cfg f t h .connectionClose
      (toBytes 2 code.toNat ++ msg) hsusp
    simp only [upperCall, Framing.shutdown, lower, Framing.shipClosingStatus,
      Transport.callAll_concat, Transport.call, Transport.shutdown]
    split
    · exact hzero
    · simp only [Transport.configureRead_maxReadSize]
      rfl

theorem held_deliver (hf : f.suspended = false) (m : Message) :
    Held t (f.deliver cfg m) := by
  have hfold : ∀ (calls : List UpperCall) (g : Framing), Held t g →
      Held t (calls.foldl (upperCall cfg) g) := by
    intro calls
    induction calls with
    | nil => exact fun g hg => hg
    | cons call calls ih => exact fun g hg => ih _ (held_upperCall hg call)
  refine hfold _ _ fun hsusp => ?_
  cases hf ▸ hsusp

theorem aborted_suspended (cfg : Config) (f : Framing) (reason : Option Error) :
    ((framing cfg).aborted f reason).1.suspended = f.suspended ∧
      ((framing cfg).aborted f reason).1.late = f.late := by
  cases reason with
  | none => exact ⟨rfl, rfl⟩
  | some reason => exact ⟨rfl, rfl⟩

/-- While reading is suspended the limit is zero, and the loop of the transport
only runs with a limit. -/
structure Obeys (c : Stack Framing) : Prop where
  late : c.layer.late = []
  held : c.layer.suspended = true → c.transport.maxReadSize = 0
  looping : c.transport.looping = true → 0 < c.transport.maxReadSize

theorem looping_loop (t : Transport) (h : t.loop.looping = true) :
    0 < t.loop.maxReadSize := by
  have hready : t.ready = true := h
  simp only [Transport.ready, Bool.and_eq_true, decide_eq_true_eq] at hready
  exact hready.1.2

variable {c d : Stack Framing}

theorem Obeys.read (hc : Obeys c) {res : SocketRead}
    (hstep : c.step (framing cfg) (.read res) = some d) : Obeys d := by
  obtain ⟨hcond, rfl⟩ := of_guard_map hstep
  have hplain := plain_aborted cfg c.layer res.reason
  obtain ⟨hsusp, hlate⟩ := aborted_suspended cfg c.layer res.reason
  have hmax : (Transport.handleReadEvent
      { c.transport.grow c.transport.maxReadSize with wantedWrite := false }
      (res.result ((framing cfg).aborted c.layer res.reason).2)).maxReadSize =
        c.transport.maxReadSize := by
    cases res with
    | data chunk policyData => rfl
    | again => rfl
    | wantWrite => rfl
    | policyFails chunk | failed | disconnected =>
      exact Transport.plain_maxReadSize hplain _
  refine ⟨hlate.trans hc.late, ?_, ?_⟩
  · intro h
    exact hmax.trans (hc.held (hsusp.symm.trans h))
  · cases res with
    | data chunk policyData => exact looping_loop _
    | again => exact hc.looping
    | wantWrite => exact hc.looping
    | policyFails chunk => exact fun h => by cases h
    | failed => exact fun h => by cases h
    | disconnected => exact fun h => by cases h

theorem maxReadSize_consume {r : Reaction} (hnext : r.next = none)
    (hplain : Transport.Plain r.abort) :
    (t.consume r).maxReadSize = (t.react r).maxReadSize ∧
      ((t.consume r).looping = true → 0 < (t.consume r).maxReadSize) := by
  have hret := Transport.returned_consumed (t.react r) t.size r
  rw [Transport.consume]
  generalize (t.react r).consumed t.size r = u at hret ⊢
  cases hret with
  | aborted =>
    exact ⟨Transport.plain_maxReadSize hplain _, fun h => by cases h⟩
  | gone _ hsome | switched _ hsome => cases hnext ▸ hsome
  | waits => exact ⟨rfl, fun h => by cases h⟩
  | again => exact ⟨rfl, looping_loop _⟩
  | takes _ _ _ _ _ hsame =>
    obtain rfl := hsame hnext
    exact ⟨rfl, looping_loop _⟩

/-- If this call of `consume` passes on a message and the upper layer accepts
it, then the upper layer does not leave reading suspended. -/
def Resumes (cfg : Config) (c : Stack Framing) : Action UpperCall → Prop
  | .event .consume =>
    (c.answer (framing cfg)).state.messages ≠ c.layer.messages →
    (cfg.upper (c.answer (framing cfg)).state.messages).accepted = true →
    (cfg.upper (c.answer (framing cfg)).state.messages).leavesSuspended = false
  | _ => True

theorem consume_obeys {f : Framing} {buffer delta : List Byte}
    (hf : f.suspended = false)
    (hresumes : (f.consume cfg buffer delta).framing.messages ≠ f.messages →
      (cfg.upper (f.consume cfg buffer delta).framing.messages).accepted =
        true →
      (cfg.upper (f.consume cfg buffer delta).framing.messages).leavesSuspended
        = false) :
    (f.consume cfg buffer delta).framing.late = f.late ∧
      Held t (f.consume cfg buffer delta).framing := by
  have hconsumed := consumed_consume cfg f buffer delta
  generalize f.consume cfg buffer delta = out at hconsumed hresumes ⊢
  cases hconsumed with
  | kept hbooks _ =>
    refine ⟨hbooks.late, fun h => ?_⟩
    cases (hbooks.suspended.trans hf) ▸ h
  | accepted g m hbefore hbooks hreply _ =>
    have hg : g.suspended = false := hbefore.suspended.trans hf
    refine ⟨hbooks.late.trans ((deliver_late hg m).trans hbefore.late), ?_⟩
    have hmsgs : out.framing.messages = f.messages ++ [m] := by
      rw [hbooks.messages, messages_deliver, hbefore.messages]
    rw [hmsgs] at hresumes
    have hleaves := hresumes (by simp) hreply
    have hsusp := hbooks.suspended.trans (deliver_suspended hg m)
    rw [hbefore.messages, hleaves] at hsusp
    intro h
    cases hsusp ▸ h
  | rejected g m hbefore hbooks hcalls _ =>
    have hg : g.suspended = false := hbefore.suspended.trans hf
    refine ⟨hbooks.late.trans ((deliver_late hg m).trans hbefore.late), ?_⟩
    intro h
    rw [hcalls]
    exact held_deliver hg m (hbooks.suspended.symm.trans h)
  | failed g err hbefore hbooks _ =>
    have hsame : (g.abortAndShutdown cfg err).suspended = g.suspended ∧
        (g.abortAndShutdown cfg err).late = g.late := by
      unfold Framing.abortAndShutdown Framing.shutdownWith
      split <;> exact ⟨rfl, rfl⟩
    refine ⟨hbooks.late.trans (hsame.2.trans hbefore.late), fun h => ?_⟩
    have hsusp := hbooks.suspended.trans
      (hsame.1.trans (hbefore.suspended.trans hf))
    cases hsusp ▸ h

theorem Obeys.consume (hc : Obeys c)
    (hresumes : Resumes cfg c (.event .consume))
    (hstep : c.step (framing cfg) .consume = some d) : Obeys d := by
  obtain ⟨hcond, rfl⟩ := of_guard_map hstep
  simp only [Bool.and_eq_true] at hcond
  have hf : c.layer.suspended = false := by
    by_contra hsusp
    have hpos := hc.looping hcond.1
    have hzero := hc.held (by simpa using hsusp)
    omega
  obtain ⟨hlate, hheld⟩ := @consume_obeys cfg
    ((c.transport.record (c.reaction (framing cfg))).overwrite
      (c.reaction (framing cfg)).written) c.layer.rest c.transport.bytes
    c.transport.delta hf hresumes
  obtain ⟨hsusp, hsame⟩ := aborted_suspended cfg
    (c.answer (framing cfg)).state
    ((c.answer (framing cfg)).reason c.transport.size)
  obtain ⟨hmax, hloop⟩ := @maxReadSize_consume c.transport
    (c.reaction (framing cfg)) rfl (plain_aborted cfg _ _)
  refine ⟨hsame.trans (hlate.trans hc.late), fun h => ?_, hloop⟩
  exact hmax.trans (hheld (hsusp.symm.trans h))

theorem Obeys.call (hc : Obeys c) {call : UpperCall}
    (hstep : c.act (framing cfg) (.call call) = some d) : Obeys d := by
  obtain ⟨hidle, rfl⟩ := of_guard hstep
  simp only [Transport.idle, Bool.and_eq_true, Bool.not_eq_true'] at hidle
  have hheld : Held c.transport c.layer.rest := hc.held
  refine ⟨?_, held_upperCall hheld call, fun h => ?_⟩
  · exact (upperCall_late c.layer.rest call).trans hc.late
  · have hloop := (Transport.called_callAll c.transport
      ((framing cfg).upper c.layer call).2).looping
    cases (hloop.trans hidle.1) ▸ h

theorem Obeys.act (hc : Obeys c) {a : Action UpperCall}
    (hresumes : Resumes cfg c a)
    (hstep : c.act (framing cfg) a = some d) : Obeys d := by
  cases a with
  | call call => exact hc.call hstep
  | event e =>
    cases e with
    | read res => exact hc.read hstep
    | consume => exact hc.consume hresumes hstep
    | runScheduled =>
      obtain ⟨-, rfl⟩ := of_guard_map hstep
      exact ⟨hc.late, hc.held, looping_loop _⟩
    | written n =>
      cases hstep
      exact { hc with }
    | writeFails disconnected =>
      obtain ⟨-, rfl⟩ := of_guard hstep
      refine ⟨hc.late, fun h => ?_, fun h => by cases h⟩
      have hplain := plain_abort cfg c.layer (writeError disconnected)
      exact (Transport.plain_maxReadSize hplain _).trans (hc.held h)

theorem obeys_established (first : List Byte) :
    Obeys (Stack.established defaultReceivePolicy {} first) := by
  refine ⟨rfl, ?_, ?_⟩
  · intro h
    cases h
  · intro h
    cases (Transport.called_configureRead _ _).looping ▸ h

/-- No message is passed on while reading is suspended, in all runs in which
no message is accepted by a call that leaves reading suspended. -/
theorem no_message_while_suspended (cfg : Config) (first : List Byte)
    (actions : List (Action UpperCall)) (c : Stack Framing)
    (hresumes : Along (Stack.act (framing cfg)) (Resumes cfg)
      (.established defaultReceivePolicy {} first) actions)
    (hrun : exec (Stack.act (framing cfg))
      (.established defaultReceivePolicy {} first) actions = some c) :
    c.layer.late = [] :=
  (exec_invariant_along Obeys (fun _ _ _ hs => hs.act)
    (obeys_established first) hresumes hrun).late

def twoMessages : List Byte :=
  (Frame.assembled .text 0#32 [0x61#8]).encode ++
    (Frame.assembled .text 0#32 [0x62#8]).encode

theorem no_message_while_suspended_server :
    ∃ c, exec (Stack.act (framing (server [])))
        (.established defaultReceivePolicy {} [])
        [.event (.read (.data twoMessages [])), .event .consume,
          .event .consume, .event .consume, .event .consume,
          .call .suspendReading] = some c ∧
      c.layer.messages = [.text [0x61#8], .text [0x62#8]] ∧
      c.layer.suspended = true ∧ c.layer.late = [] := by
  refine exists_of_map (fun c => (c.layer.messages, c.layer.suspended))
    ([.text [0x61#8], .text [0x62#8]], true) (by decide +kernel) ?_
  intro c hc heq
  obtain ⟨hmsgs, hsuspended⟩ := Prod.mk.inj heq
  refine ⟨hmsgs, hsuspended, ?_⟩
  refine no_message_while_suspended (server []) [] _ c
    (.of_forall_mem (fun s a _ => ?_) _) hc
  cases a with
  | call call => trivial
  | event e =>
    cases e with
    | consume => exact fun _ _ => rfl
    | read res => trivial
    | runScheduled => trivial
    | written n => trivial
    | writeFails disconnected => trivial

/-- The upper layer suspends reading in the call for the first message, and
receives the second one nevertheless. -/
theorem second_message_while_suspended :
    ∃ c, exec (Stack.act (framing (server [.suspendReading])))
        (.established defaultReceivePolicy {} [])
        [.event (.read (.data twoMessages [])), .event .consume,
          .event .consume, .event .runScheduled, .event .consume,
          .event .consume] = some c ∧
      c.layer.late = [.text [0x62#8]] := by
  exact exists_of_map (fun c => c.layer.late) _ (by decide +kernel)
    fun c _ hlate => hlate

end ActorFramework.Net.WebSocket
