import ActorFramework.Net.StackRun
import ActorFramework.Net.WebSocket.Framing

/-!
# What the framing does in public

All paths through `consume` do one of four things: the upper layer does not
notice the call, it accepts a message, it rejects a message, or the framing
fails the connection.
-/

namespace ActorFramework.Net.WebSocket

open ActorFramework.Core (Byte)
open Net.Rfc6455 List

/-- Two states with the same history, except for answers to pings and for the
keys that were drawn. -/
structure Books (f g : Framing) : Prop where
  messages : g.messages = f.messages
  aborts : g.aborts = f.aborts
  closings : g.closings = f.closings
  afterAbort : g.afterAbort = f.afterAbort
  suspended : g.suspended = f.suspended
  late : g.late = f.late

variable {f g h : Framing}

theorem Books.refl (f : Framing) : Books f f :=
  ⟨rfl, rfl, rfl, rfl, rfl, rfl⟩

theorem Books.trans (hfg : Books f g) (hgh : Books g h) : Books f h :=
  ⟨hgh.messages.trans hfg.messages, hgh.aborts.trans hfg.aborts,
    hgh.closings.trans hfg.closings, hgh.afterAbort.trans hfg.afterAbort,
    hgh.suspended.trans hfg.suspended, hgh.late.trans hfg.late⟩

inductive Consumed (cfg : Config) (f : Framing) (out : Outcome) : Prop where
  | kept (hbooks : Books f out.framing) (hresult : 0 ≤ out.consumed)
  | accepted (g : Framing) (m : Message) (hbefore : Books f g)
      (hbooks : Books (g.deliver cfg m) out.framing)
      (hreply : (cfg.upper (f.messages ++ [m])).accepted = true)
      (hresult : 0 ≤ out.consumed)
  | rejected (g : Framing) (m : Message) (hbefore : Books f g)
      (hbooks : Books (g.deliver cfg m) out.framing)
      (hcalls : out.framing.calls = (g.deliver cfg m).calls)
      (hresult : out.consumed = -1)
  | failed (g : Framing) (err : Error) (hbefore : Books f g)
      (hbooks : Books (g.abortAndShutdown cfg err) out.framing)
      (hresult : out.consumed = -1)

variable {cfg : Config} {out : Outcome}

theorem Consumed.congr (hout : Consumed cfg f out) {out' : Outcome}
    (hbooks : Books out.framing out'.framing)
    (hcalls : out'.framing.calls = out.framing.calls)
    (hneg : out.consumed < 0 → out'.consumed = -1)
    (hpos : 0 ≤ out.consumed → 0 ≤ out'.consumed) : Consumed cfg f out' := by
  cases hout with
  | kept h hres => exact .kept (h.trans hbooks) (hpos hres)
  | accepted g m hbefore h hreply hres =>
    exact .accepted g m hbefore (h.trans hbooks) hreply (hpos hres)
  | rejected g m hbefore h hsame hres =>
    exact .rejected g m hbefore (h.trans hbooks) (hcalls.trans hsame)
      (hneg (by omega))
  | failed g err hbefore h hres =>
    exact .failed g err hbefore (h.trans hbooks) (hneg (by omega))

theorem Consumed.of_books (hout : Consumed cfg g out) (hbooks : Books f g) :
    Consumed cfg f out := by
  cases hout with
  | kept h hres => exact .kept (hbooks.trans h) hres
  | accepted g' m hbefore h hreply hres =>
    rw [hbooks.messages] at hreply
    exact .accepted g' m (hbooks.trans hbefore) h hreply hres
  | rejected g' m hbefore h hcalls hres =>
    exact .rejected g' m (hbooks.trans hbefore) h hcalls hres
  | failed g' err hbefore h hres =>
    exact .failed g' err (hbooks.trans hbefore) h hres

theorem books_finish (f : Framing) : Books f f.finish :=
  ⟨rfl, rfl, rfl, rfl, rfl, rfl⟩

section

variable (cfg : Config) (f : Framing)

theorem books_shipPong (payload : List Byte) :
    Books f (f.shipPong cfg payload) := by
  refine ⟨?_, rfl, rfl, rfl, rfl, rfl⟩
  simp [Framing.messages, Framing.shipPong, Output.message?]

theorem consumed_failed (err : Error) (written : List Byte) :
    Consumed cfg f ⟨f.abortAndShutdown cfg err, written, -1⟩ :=
  .failed f err (.refl f) (.refl _) rfl

theorem consumed_handle (opcode : Opcode) (payload : List Byte)
    (frameSize : Nat) :
    Consumed cfg f (f.handle cfg opcode payload frameSize) := by
  cases opcode with
  | connectionClose =>
    simp only [Framing.handle]
    split
    · exact consumed_failed cfg f _ _
    · exact consumed_failed cfg f _ _
  | text | binary =>
    simp only [Framing.handle, Framing.consumeMessage]
    split_ifs with hreply
    · exact .accepted f _ (.refl f) (books_finish _) hreply
        (Int.natCast_nonneg _)
    · exact .rejected f _ (.refl f) (.refl _) rfl rfl
  | ping =>
    exact .kept ((books_shipPong cfg f payload).trans (books_finish _))
      (Int.natCast_nonneg _)
  | pong | continuation => exact .kept (books_finish f) (Int.natCast_nonneg _)

theorem consumed_endPayload (hdr : Header) (buffer : List Byte) :
    Consumed cfg f (f.endPayload cfg hdr buffer) := by
  unfold Framing.endPayload
  split
  · split
    · split
      · exact consumed_failed cfg f _ _
      · exact (consumed_handle cfg _ _ _ _).of_books
          ⟨rfl, rfl, rfl, rfl, rfl, rfl⟩
    · rename_i opcode _
      split
      · exact consumed_failed cfg f _ _
      · have hhandle := consumed_handle cfg f opcode f.payloadBuf hdr.payloadLen
        refine hhandle.congr ⟨rfl, rfl, rfl, rfl, rfl, rfl⟩ rfl ?_ id
        intro hneg
        cases hhandle with
        | kept _ hres => omega
        | accepted _ _ _ _ _ hres => omega
        | rejected _ _ _ _ _ hres => exact hres
        | failed _ _ _ _ hres => exact hres
  · exact .kept ⟨rfl, rfl, rfl, rfl, rfl, rfl⟩ (Int.natCast_nonneg _)

theorem consumed_consumeText (hdr : Header) (buffer : List Byte) (offset : Nat)
    : Consumed cfg f (f.consumeText cfg hdr buffer offset) := by
  unfold Framing.consumeText
  have hbooks : Books f
      (if hdr.opcode = .text ∧ hdr.fin then f.payloadValid buffer
      else
        { f with payloadBuf := f.payloadBuf ++ buffer.drop offset }.payloadValid
          (f.payloadBuf ++ buffer.drop offset)).1 := by
    split <;> exact ⟨rfl, rfl, rfl, rfl, rfl, rfl⟩
  simp only
  generalize (if hdr.opcode = .text ∧ hdr.fin then f.payloadValid buffer
    else _) = result at hbooks ⊢
  split
  · split
    · exact .kept hbooks (Int.le_refl 0)
    · exact (consumed_endPayload cfg _ hdr buffer).of_books hbooks
  · exact (consumed_failed cfg _ _ _).of_books hbooks

theorem consumed_consumePayload (hdr : Header) (buffer delta : List Byte) :
    Consumed cfg f (f.consumePayload cfg hdr buffer delta) := by
  unfold Framing.consumePayload
  simp only
  split
  · exact consumed_handle cfg f _ _ _
  · split
    · exact consumed_consumeText cfg f hdr _ _
    · split
      · exact (consumed_endPayload cfg _ hdr _).of_books
          ⟨rfl, rfl, rfl, rfl, rfl, rfl⟩
      · exact consumed_endPayload cfg f hdr _

theorem consumed_consumeHeader (buffer written : List Byte) :
    Consumed cfg f ⟨(f.consumeHeader cfg buffer).1, written,
      (f.consumeHeader cfg buffer).2⟩ := by
  unfold Framing.consumeHeader
  split
  · dsimp only
    exact consumed_failed cfg f _ written
  · exact .kept (.refl f) (Int.le_refl 0)
  · split
    · exact (consumed_failed cfg _ _ _).of_books ⟨rfl, rfl, rfl, rfl, rfl, rfl⟩
    · exact .kept ⟨rfl, rfl, rfl, rfl, rfl, rfl⟩ (Int.natCast_nonneg _)

end

theorem books_consumeHeader {buffer : List Byte}
    (hpos : ¬ (f.consumeHeader cfg buffer).2 ≤ 0) :
    Books f (f.consumeHeader cfg buffer).1 := by
  revert hpos
  unfold Framing.consumeHeader
  split
  · intro hpos
    exact absurd (Int.neg_nonpos_of_nonneg (Int.le.intro 1 rfl)) hpos
  · intro _
    exact .refl f
  · split
    · intro hpos
      exact absurd (Int.neg_nonpos_of_nonneg (Int.le.intro 1 rfl)) hpos
    · intro _
      exact ⟨rfl, rfl, rfl, rfl, rfl, rfl⟩

theorem consumed_consume (cfg : Config) (f : Framing)
    (buffer delta : List Byte) :
    Consumed cfg f (f.consume cfg buffer delta) := by
  have hheader := consumed_consumeHeader cfg f buffer buffer
  unfold Framing.consume
  split
  · exact consumed_consumePayload cfg f _ _ _
  · simp only
    split_ifs with hpos
    · exact hheader
    · split
      · rename_i hdr _
        split
        · have hpay := consumed_consumePayload cfg
            (f.consumeHeader cfg buffer).1 hdr [] []
          refine Consumed.of_books (hpay.congr (.refl _) rfl ?_ ?_)
            (books_consumeHeader hpos)
          · intro hneg
            exact if_pos hneg
          · intro hnonneg
            simp only [if_neg (Int.not_lt.mpr hnonneg)]
            omega
        · exact hheader
      · exact hheader

theorem messages_deliver (f : Framing) (m : Message) :
    (f.deliver cfg m).messages = f.messages ++ [m] := by
  have hfold : ∀ (calls : List UpperCall) (g : Framing),
      (calls.foldl (Framing.upperCall cfg) g).messages = g.messages := by
    intro calls
    induction calls with
    | nil => intro g; rfl
    | cons call calls ih =>
      intro g
      rw [foldl_cons, ih]
      cases call <;> rfl
  rw [Framing.deliver, hfold]
  simp [Framing.messages, Output.message?]

theorem messages_consume (f : Framing) (buffer delta : List Byte) :
    f.messages <+: (f.consume cfg buffer delta).framing.messages := by
  have hconsumed := consumed_consume cfg f buffer delta
  generalize f.consume cfg buffer delta = out at hconsumed ⊢
  cases hconsumed with
  | kept hbooks _ =>
    exact ⟨[], (append_nil _).trans hbooks.messages.symm⟩
  | accepted g m hbefore hbooks _ _ | rejected g m hbefore hbooks _ _ =>
    rw [hbooks.messages, messages_deliver, hbefore.messages]
    exact prefix_append _ _
  | failed g err hbefore hbooks _ =>
    have hsame : (g.abortAndShutdown cfg err).messages = g.messages := by
      unfold Framing.abortAndShutdown Framing.shutdownWith
      split <;> rfl
    have hall := hbooks.messages.trans (hsame.trans hbefore.messages)
    exact ⟨[], (append_nil _).trans hall.symm⟩

theorem plain_abort (cfg : Config) (f : Framing) (reason : Error) :
    Transport.Plain ((framing cfg).abort f reason).2 := by
  intro call hcall
  have hcalls : ((framing cfg).abort f reason).2 =
      [.output (f.rest.nextFrame cfg .connectionClose [])] := rfl
  rw [hcalls, mem_singleton] at hcall
  exact ⟨_, hcall⟩

theorem plain_aborted (cfg : Config) (f : Framing) (reason : Option Error) :
    Transport.Plain ((framing cfg).aborted f reason).2 := by
  cases reason with
  | none => exact fun _ hcall => absurd hcall (by simp [Layer.aborted])
  | some reason => exact plain_abort cfg f reason

end ActorFramework.Net.WebSocket
