import ActorFramework.Net.Http.Client
import ActorFramework.Net.Http.Responses
import ActorFramework.Net.StackRun

/-!
# What a call of the client does

A call of `consume` passes on a response, fails, or waits, and what was done is
never undone.  With a chunk that the writer has written there are three cases:
its first line is not complete, the chunk is not complete, or it is.
-/

namespace ActorFramework.Net.Http.Client

open ActorFramework.Core V1
open Foundation List

variable {cfg : Config} {cl : Client}

theorem foldl_upperCall (calls : List UpperCall) (cl : Client) :
    calls.foldl (upperCall cfg) cl =
      { cl with calls := cl.calls ++ calls.map (UpperCall.lower cfg) } := by
  induction calls generalizing cl with
  | nil => simp
  | cons call calls ih =>
    rw [foldl_cons, ih]
    simp [upperCall, lower]

theorem sets_lower {old rd : ReceivePolicy} {done : List LowerCall}
    (h : Sets old done rd) (calls : List UpperCall) :
    ∃ rd', Sets old (done ++ calls.map (UpperCall.lower cfg)) rd' := by
  induction calls generalizing done rd with
  | nil => exact ⟨rd, by simpa using h⟩
  | cons call calls ih =>
    rw [map_cons, append_cons]
    cases call with
    | suspendReading => exact ih (.last done .stop)
    | requestMessages => exact ih (.restart h cfg.policy)
    | output bytes => exact ih (.output h bytes)

theorem invokeUpperLayer_eq (cl : Client) (payload : List Byte) :
    (cl.invokeUpperLayer cfg payload).1 =
      { cl with
        responses := cl.responses ++ [⟨cl.hdr, payload⟩]
        calls := cl.calls ++ (cfg.upper (cl.responses ++
          [⟨cl.hdr, payload⟩])).calls.map (UpperCall.lower cfg) } := by
  rw [invokeUpperLayer]
  exact foldl_upperCall _ _

/-- After something else than the first response the client has failed, has
passed on another response, or is in the middle of one. -/
def Beyond (cl : Client) : Prop :=
  cl.aborts ≠ [] ∨ 2 ≤ cl.responses.length ∨
    cl.responses ≠ [] ∧ cl.mode ≠ .readHeader

structure Advances (cl next : Client) : Prop where
  aborts : cl.aborts <+: next.aborts
  responses : cl.responses <+: next.responses
  goes : next.aborts ≠ [] ∨ cl.responses.length < next.responses.length ∨
    next.mode ≠ .readHeader

variable {next : Client}

theorem advances_abort {reason : Error} (haborts : next.aborts = cl.aborts)
    (hresps : next.responses = cl.responses) :
    Advances cl (next.abortAndShutdown reason) := by
  refine ⟨?_, ?_, .inl (by simp [abortAndShutdown, abort, lower])⟩
  · exact ⟨[reason], by simp [abortAndShutdown, abort, lower, haborts]⟩
  · exact ⟨[], (append_nil _).trans hresps.symm⟩

theorem advances_same (haborts : next.aborts = cl.aborts)
    (hresps : next.responses = cl.responses)
    (hmode : next.mode ≠ .readHeader) : Advances cl next :=
  ⟨⟨[], (append_nil _).trans haborts.symm⟩,
    ⟨[], (append_nil _).trans hresps.symm⟩, .inr (.inr hmode)⟩

theorem advances_invoke {after : Client} (next : Client)
    (payload : List Byte) (haborts : next.aborts = cl.aborts)
    (hresps : next.responses = cl.responses)
    (hafter : after.aborts = (next.invokeUpperLayer cfg payload).1.aborts ∧
      after.responses = (next.invokeUpperLayer cfg payload).1.responses) :
    Advances cl after := by
  rw [invokeUpperLayer_eq] at hafter
  obtain ⟨habort, hresp⟩ := hafter
  refine ⟨⟨[], ?_⟩, ⟨[⟨next.hdr, payload⟩], ?_⟩, .inr (.inl ?_)⟩
  · rw [append_nil, habort, haborts]
  · rw [hresp, hresps]
  · rw [hresp, length_append, hresps]
    exact Nat.lt_succ_self _

theorem advances_readPayload (input : List Byte) (n : Nat)
    (haborts : next.aborts = cl.aborts) (hresps : next.responses = cl.responses)
    (hmode : next.mode ≠ .readHeader) :
    Advances cl (next.readPayload cfg input n).1 := by
  unfold readPayload
  split
  · exact advances_same haborts hresps hmode
  · simp only
    split
    · exact advances_invoke next _ haborts hresps ⟨rfl, rfl⟩
    · exact advances_invoke next _ haborts hresps ⟨rfl, rfl⟩

theorem advances_readChunks (input : List Byte) (n : Nat)
    (haborts : next.aborts = cl.aborts) (hresps : next.responses = cl.responses)
    (hmode : next.mode ≠ .readHeader) :
    Advances cl (next.readChunks cfg input n).1 := by
  unfold readChunks
  split
  · exact advances_same haborts hresps hmode
  · exact advances_abort haborts hresps
  · simp only
    split
    · exact advances_abort haborts hresps
    split
    · exact advances_same haborts hresps hmode
    split
    · exact advances_abort haborts hresps
    split
    · split
      · exact advances_invoke (next.lower (.configureRead cfg.policy)) _
          haborts hresps ⟨rfl, rfl⟩
      · exact advances_invoke (next.lower (.configureRead cfg.policy)) _
          haborts hresps ⟨rfl, rfl⟩
    · exact advances_same haborts hresps hmode

theorem advances_handleHeader (cl : Client) (raw remainder : List Byte) :
    Advances cl (cl.handleHeader cfg raw remainder).1 := by
  have hchunks : Mode.readChunks ≠ .readHeader := by decide
  have hpay : Mode.readPayload ≠ .readHeader := by decide
  unfold handleHeader
  split
  · exact advances_abort rfl rfl
  · rename_i hdr _
    simp only
    split
    · exact advances_readChunks _ _ rfl rfl hchunks
    split
    · split
      · exact advances_abort rfl rfl
      · exact advances_readPayload _ _ rfl rfl hpay
    · split
      · exact advances_invoke { cl with hdr := hdr } _ rfl rfl ⟨rfl, rfl⟩
      · exact advances_invoke { cl with hdr := hdr } _ rfl rfl ⟨rfl, rfl⟩

theorem consume_advances (cl : Client) (input : List Byte) :
    cl.mode = .readHeader ∧ splitHeader input = none ∧
        cl.consume cfg input = (cl, 0) ∨
      Advances cl (cl.consume cfg input).1 := by
  unfold consume
  cases hmode : cl.mode with
  | readHeader =>
    simp only
    split
    · exact .inr (advances_abort rfl rfl)
    · cases hsplit : splitHeader input with
      | none => exact .inl ⟨trivial, rfl, rfl⟩
      | some parts => exact .inr (advances_handleHeader _ _ _)
  | readPayload =>
    exact .inr (advances_readPayload _ _ rfl rfl (by simp [hmode]))
  | readChunks =>
    exact .inr (advances_readChunks _ _ rfl rfl (by simp [hmode]))

theorem Advances.beyond (h : Advances cl next) (hsome : cl.responses ≠ []) :
    Beyond next := by
  have hpos := length_pos_iff.mpr hsome
  have hle := h.responses.length_le
  rcases h.goes with haborts | hmore | hmode
  · exact .inl haborts
  · exact .inr (.inl (by omega))
  · exact .inr (.inr ⟨length_pos_iff.mp (by omega), hmode⟩)

theorem beyond_consume (h : Beyond cl) (input : List Byte) :
    Beyond (cl.consume cfg input).1 := by
  rcases @consume_advances cfg cl input with ⟨-, -, hsame⟩ | hgoes
  · rw [hsame]
    exact h
  · rcases h with haborts | htwo | ⟨hsome, -⟩
    · refine .inl fun hnil => haborts ?_
      exact prefix_nil.mp (hnil ▸ hgoes.aborts)
    · exact .inr (.inl (Nat.le_trans htwo hgoes.responses.length_le))
    · exact hgoes.beyond hsome

theorem consume_incomplete {input : List Byte} (hmode : cl.mode = .readHeader)
    (hmax : input.length ≤ cfg.maxResponseSize)
    (hsplit : splitHeader input = none) : cl.consume cfg input = (cl, 0) := by
  rw [consume, hmode]
  simp only [hsplit]
  exact if_neg (by omega)

theorem consume_header {input raw remainder : List Byte}
    (hmode : cl.mode = .readHeader) (hmax : input.length ≤ cfg.maxResponseSize)
    (hsplit : splitHeader input = some (raw, remainder)) :
    cl.consume cfg input = cl.handleHeader cfg raw remainder := by
  rw [consume, hmode]
  simp only [hsplit]
  exact if_neg (by omega)

theorem length_sendChunk (piece : List Byte) :
    (sendChunk piece).length =
      (toString16 piece.length).length + 2 + piece.length + 2 := by
  have htwo : (ascii "\r\n").length = 2 := by decide
  simp only [sendChunk, length_append, htwo]

theorem sendChunk_eq (piece : List Byte) :
    sendChunk piece =
      toString16 piece.length ++ (eol ++ (piece ++ eol)) := by
  simp [sendChunk, eol]

section

variable {piece input more : List Byte} (n : Nat)
  (hsize : piece.length < 16 ^ 8)
  (hin : input <+: sendChunk piece ++ more)

include hsize hin

theorem readChunks_short
    (hshort : input.length < (toString16 piece.length).length + 2) :
    parseChunk input = .error none ∧
      cl.readChunks cfg input n = (cl, (n : Int)) := by
  rw [sendChunk_eq, append_assoc, append_assoc] at hin
  have hparse := parseChunk_short hin hsize hshort
  exact ⟨hparse, by rw [readChunks, hparse]⟩

section

variable (hlong : (toString16 piece.length).length + 2 ≤ input.length)
include hlong

theorem parseChunk_piece :
    parseChunk input = .ok (piece.length,
      input.drop ((toString16 piece.length).length + 2)) := by
  rw [sendChunk_eq, append_assoc, append_assoc] at hin
  have hparse := parseChunk_size hin hlong
  rwa [if_pos hsize] at hparse

theorem readChunks_part
    (hmax : piece.length + cl.buffer.length ≤ cfg.maxResponseSize)
    (hshort : input.length < (sendChunk piece).length) :
    cl.readChunks cfg input n =
      (cl.lower (.configureRead (.exactly (sendChunk piece).length)),
        (n : Int)) := by
  rw [length_sendChunk] at hshort ⊢
  have hdrop := @List.length_drop Byte
    ((toString16 piece.length).length + 2) input
  rw [readChunks, parseChunk_piece hsize hin hlong]
  simp only [hdrop]
  rw [if_neg (by omega), if_pos (by omega)]
  have hall : input.length -
      (input.length - ((toString16 piece.length).length + 2)) +
        piece.length + 2 =
      (toString16 piece.length).length + 2 + piece.length + 2 := by
    omega
  rw [hall]

end

theorem readChunks_piece
    (hmax : piece.length + cl.buffer.length ≤ cfg.maxResponseSize)
    (hlong : (sendChunk piece).length ≤ input.length) :
    cl.readChunks cfg input n =
      (let cl := cl.lower (.configureRead cfg.policy)
        if piece = [] then
          let res := cl.invokeUpperLayer cfg cl.buffer
          if res.2 then
            ({ res.1 with mode := .readHeader, buffer := [] },
              ((n + (sendChunk piece).length : Nat) : Int))
          else (res.1, -1)
        else
          ({ cl with buffer := cl.buffer ++ piece },
            ((n + (sendChunk piece).length : Nat) : Int))) := by
  have hlen := length_sendChunk piece
  have hparse := @parseChunk_piece piece input more hsize hin (by omega)
  have hdrop := @List.length_drop Byte
    ((toString16 piece.length).length + 2) input
  have hstart : piece ++ eol <+:
      input.drop ((toString16 piece.length).length + 2) := by
    have hpiece := prefix_of_prefix_length_le
      (prefix_append (sendChunk piece) more) hin hlong
    obtain ⟨later, rfl⟩ := hpiece
    rw [sendChunk_eq, append_assoc, append_assoc,
      ← append_assoc, drop_left' (by simp [eol_eq])]
    exact prefix_append _ _
  obtain ⟨later, hlater⟩ := hstart
  have htake : (input.drop ((toString16 piece.length).length + 2)).take
      piece.length = piece := by
    rw [← hlater, append_assoc, take_left]
  have hend : ((input.drop ((toString16 piece.length).length + 2)).drop
      piece.length).take 2 = eol := by
    rw [← hlater, append_assoc, drop_left]
    rfl
  have hall : input.length -
      (input.length - ((toString16 piece.length).length + 2)) +
        piece.length + 2 = (sendChunk piece).length := by
    omega
  rw [readChunks, hparse]
  simp only [hdrop, hend, htake, hall]
  rw [if_neg (by omega), if_neg (by omega)]
  simp

end

end ActorFramework.Net.Http.Client
