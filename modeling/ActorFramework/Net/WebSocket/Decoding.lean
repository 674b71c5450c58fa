import ActorFramework.Net.WebSocket.Meaning

/-!
# Decoding of frames

The framing follows the meaning of the frames, wherever the bytes were cut.
Between two frames its state is that of the meaning.  Within a text frame it
has seen the first bytes of the payload, and validated them as far as possible.
-/

namespace ActorFramework.Net.WebSocket

open ActorFramework.Core (Byte)
open Framing (nextFrame masked ship upperCall lower consumeMessage endPayload
  finish consumePayload handle)
open Foundation List
open Net.Rfc3629 (Octets Extendable validate)
open Net.Rfc6455

variable {cfg : Config} {f : Framing} {m : Meaning} {g : Frame}

theorem nextFrame_eq (f : Framing) (opcode : Opcode) (payload : List Byte) :
    f.nextFrame cfg opcode payload =
      (Frame.assembled opcode (cfg.key f.drawn) payload).encode := by
  rw [← assembleFrame_eq, nextFrame, masked, Config.key, Framing.maskKey]
  split
  · rfl
  · rw [maskData_zero]

structure Called (cfg : Config) (f g : Framing) (frames : Nat) : Prop where
  hdr : g.hdr = f.hdr
  opcode : g.opcode = f.opcode
  payloadBuf : g.payloadBuf = f.payloadBuf
  validationOffset : g.validationOffset = f.validationOffset
  outputs : g.outputs = f.outputs
  aborts : g.aborts = f.aborts
  drawn : g.drawn = f.drawn + cfg.draws frames

theorem drawn_ship (f : Framing) (opcode : Opcode) (payload : List Byte) :
    (f.ship cfg opcode payload).drawn = f.drawn + cfg.draws 1 := by
  unfold ship Config.draws
  simp only
  split <;> rfl

theorem called_upperCall (f : Framing) (call : UpperCall) :
    Called cfg f (f.upperCall cfg call) call.frames := by
  have hzero : cfg.draws 0 = 0 := by
    unfold Config.draws
    split <;> rfl
  cases call with
  | suspendReading | requestMessages =>
    exact ⟨rfl, rfl, rfl, rfl, rfl, rfl, by simp [UpperCall.frames, hzero,
      upperCall, lower]⟩
  | endTextMessage text | endBinaryMessage bytes =>
    exact ⟨rfl, rfl, rfl, rfl, rfl, rfl, drawn_ship f _ _⟩
  | shutdown code msg =>
    exact ⟨rfl, rfl, rfl, rfl, rfl, rfl,
      drawn_ship f .connectionClose (toBytes 2 code.toNat ++ msg)⟩

theorem draws_add (cfg : Config) (a b : Nat) :
    cfg.draws (a + b) = cfg.draws a + cfg.draws b := by
  unfold Config.draws
  split <;> rfl

theorem called_foldl (f : Framing) (calls : List UpperCall) :
    Called cfg f (calls.foldl (upperCall cfg) f)
      (calls.map UpperCall.frames).sum := by
  induction calls generalizing f with
  | nil =>
    refine ⟨rfl, rfl, rfl, rfl, rfl, rfl, ?_⟩
    unfold Config.draws
    split <;> rfl
  | cons call calls ih =>
    have hcall := @called_upperCall cfg f call
    have hrest := ih (f.upperCall cfg call)
    refine ⟨hrest.hdr.trans hcall.hdr, hrest.opcode.trans hcall.opcode,
      hrest.payloadBuf.trans hcall.payloadBuf,
      hrest.validationOffset.trans hcall.validationOffset,
      hrest.outputs.trans hcall.outputs, hrest.aborts.trans hcall.aborts, ?_⟩
    rw [map_cons, sum_cons, draws_add]
    exact hrest.drawn.trans (by rw [hcall.drawn, Nat.add_assoc])

theorem called_deliver (f : Framing) (msg : Message) :
    Called cfg { f with outputs := f.outputs ++ [.message msg] }
      (f.deliver cfg msg)
      ((cfg.upper (f.messages ++ [msg])).calls.map UpperCall.frames).sum := by
  have h := @called_foldl cfg { f with
    outputs := f.outputs ++ [.message msg]
    afterAbort :=
      if f.aborts.isEmpty then f.afterAbort else f.afterAbort ++ [msg]
    late := if f.suspended then f.late ++ [msg] else f.late }
    (cfg.upper (f.messages ++ [msg])).calls
  exact { h with }

/-- The part of an unfinished text message that was found to be valid. -/
def Meaning.checked (m : Meaning) : Nat :=
  if m.opcode = some .text then (validate m.payload).1 else 0

structure Reads (f : Framing) (m : Meaning) : Prop where
  opcode : f.opcode = m.opcode
  payloadBuf : f.payloadBuf = m.payload
  checked : f.validationOffset = m.checked
  outputs : f.outputs = m.outputs
  drawn : f.drawn = m.drawn
  aborts : f.aborts = []

/-- What the framing does at the end of a frame: it has read this frame, the
upper layer rejects a message, or the message is not UTF-8. -/
inductive Ends (cfg : Config) (m : Meaning) (size : Nat) (out : Outcome) :
    Prop where
  | reads (hreads : Reads out.framing m) (hbroken : m.broken = false)
      (hhdr : out.framing.hdr = none)
      (hcalls : ∃ calls, out.framing.calls =
        calls ++ [.configureRead defaultReceivePolicy])
      (hconsumed : out.consumed = size)
  | rejected (houtputs : out.framing.outputs = m.outputs)
      (hbroken : m.broken = false) (hmessages : m.messages ≠ [])
      (hreply : (cfg.upper m.messages).accepted = false)
      (hconsumed : out.consumed = -1)
  | breaks (hbroken : m.broken = true)
      (houtputs : out.framing.outputs = m.outputs)
      (haborts : out.framing.aborts = [invalidUtf8])
      (hstop : ∀ t : Transport, (t.callAll out.framing.calls).maxReadSize = 0)
      (hconsumed : out.consumed = -1)

structure SameElse (f h : Framing) : Prop where
  hdr : h.hdr = f.hdr
  outputs : h.outputs = f.outputs
  drawn : h.drawn = f.drawn
  aborts : h.aborts = f.aborts
  calls : h.calls = f.calls

variable {size d n : Nat} {opcode : Opcode} {raw : List Byte}

theorem ends_message {h : Framing} {msg : Message} {written : List Byte}
    (houts : f.outputs = m.outputs) (hdrawn : f.drawn = m.drawn)
    (haborts : f.aborts = []) (hbroken : m.broken = false)
    (hsame : SameElse (f.consumeMessage cfg msg written size).framing h)
    (hopcode : h.opcode = none) (hbuf : h.payloadBuf = [])
    (hoff : h.validationOffset = 0) (written' : List Byte) :
    Ends cfg (m.complete cfg msg) size
      ⟨h, written', (f.consumeMessage cfg msg written size).consumed⟩ := by
  have hcalled := @called_deliver cfg f msg
  have hmsgs : f.messages = m.messages := by
    rw [Framing.messages, Meaning.messages, houts]
  rw [hmsgs] at hcalled
  have hall : (m.complete cfg msg).messages = m.messages ++ [msg] := by
    simp [Meaning.complete, Meaning.messages, Output.message?]
  unfold consumeMessage at hsame ⊢
  rw [hmsgs] at hsame ⊢
  split at hsame
  · rename_i hacc
    rw [if_pos hacc]
    refine .reads ⟨hopcode, hbuf, ?_, ?_, ?_, ?_⟩ hbroken hsame.hdr
      ⟨_, hsame.calls⟩ rfl
    · rw [hoff]
      rfl
    · exact hsame.outputs.trans (hcalled.outputs.trans (by
        simp [Meaning.complete, houts]))
    · exact hsame.drawn.trans (hcalled.drawn.trans (by
        simp [Meaning.complete, hdrawn]))
    · exact hsame.aborts.trans (hcalled.aborts.trans haborts)
  · rename_i hrejected
    rw [if_neg hrejected]
    refine .rejected ?_ hbroken (by simp [hall]) ?_ rfl
    · exact hsame.outputs.trans (hcalled.outputs.trans (by
        simp [Meaning.complete, houts]))
    · rw [hall]
      simpa using hrejected

theorem consumeMessage_kept (f : Framing) (msg : Message)
    (written : List Byte) (size : Nat) :
    let h := (f.consumeMessage cfg msg written size).framing
    h.opcode = f.opcode ∧ h.payloadBuf = f.payloadBuf ∧
      h.validationOffset = f.validationOffset := by
  have hcalled := @called_deliver cfg f msg
  unfold consumeMessage
  split
  · exact ⟨hcalled.opcode, hcalled.payloadBuf, hcalled.validationOffset⟩
  · exact ⟨hcalled.opcode, hcalled.payloadBuf, hcalled.validationOffset⟩

theorem ends_invalid (houts : f.outputs = m.outputs) (haborts : f.aborts = [])
    (hbroken : m.broken = true) (written : List Byte) :
    Ends cfg m size ⟨f.abortAndShutdown cfg invalidUtf8, written, -1⟩ := by
  refine .breaks hbroken houts ?_ ?_ rfl
  · change f.aborts ++ [invalidUtf8] = [invalidUtf8]
    rw [haborts]
    rfl
  · intro t
    have hcalls : (f.abortAndShutdown cfg invalidUtf8).calls = f.calls ++
        [.output ((f.abortUpper invalidUtf8).nextFrame cfg .connectionClose
          (toBytes 2 Status.inconsistentData.toNat ++
            cfg.render invalidUtf8))] ++ [.shutdown] := rfl
    rw [hcalls, Transport.callAll_concat, Transport.callAll_concat]
    apply Transport.shutdown_maxReadSize
    simp [Transport.call, nextFrame, assembleFrame]

structure Whole (f : Framing) (m : Meaning) (g : Frame) : Prop where
  opcode : f.opcode = m.opcode
  payloadBuf : f.payloadBuf =
    if m.opcode = none ∧ g.fin = true then [] else m.payload ++ g.payload
  checked : f.validationOffset =
    if m.opcode.getD g.opcode = .text then
      (validate (m.payload ++ g.payload)).1
    else 0
  extendable : m.opcode.getD g.opcode = .text →
    Extendable (m.payload ++ g.payload)
  outputs : f.outputs = m.outputs
  drawn : f.drawn = m.drawn
  aborts : f.aborts = []

theorem handle_message (f : Framing) (h : opcode = .text ∨ opcode = .binary)
    (payload : List Byte) (size : Nat) :
    f.handle cfg opcode payload size =
      f.consumeMessage cfg (.ofOpcode opcode payload) payload size := by
  rcases h with rfl | rfl <;> rfl

theorem acceptable_iff {payload : List Byte} {offset : Nat}
    (hoff : offset = if opcode = .text then (validate payload).1 else 0) :
    ¬ (opcode = .text ∧ offset ≠ payload.length) ↔
      Acceptable opcode true payload := by
  by_cases htext : opcode = .text
  · rw [if_pos htext] at hoff
    subst hoff
    simp [Acceptable, htext, Rfc3629.validate_eq_length_iff]
  · simp [Acceptable, htext]

theorem fragment_broken
    (h : ¬ Acceptable (m.opcode.getD g.opcode) g.fin (m.payload ++ g.payload)) :
    (m.fragment cfg g).broken = true ∧
      (m.fragment cfg g).outputs = m.outputs := by
  simp [Meaning.fragment, h]

theorem ends_endPayload (hm : Tidy m) (hbroken : m.broken = false)
    (hopcode : m.opcode = none → g.opcode = .text ∨ g.opcode = .binary)
    (h : Whole f m g) :
    Ends cfg (m.fragment cfg g) g.payload.length
      (f.endPayload cfg g.header g.payload) := by
  have hfin : g.header.fin = g.fin := rfl
  have hsize : g.header.payloadLen = g.payload.length := rfl
  have hop : g.header.opcode = g.opcode := rfl
  unfold endPayload
  rw [hfin, hsize, hop]
  cases hg : g.fin with
  | false =>
    have hacc : Acceptable (m.opcode.getD g.opcode) g.fin
        (m.payload ++ g.payload) := by
      intro htext
      rw [hg]
      exact h.extendable htext
    have hfragment : m.fragment cfg g =
        { m with
          opcode := some (m.opcode.getD g.opcode)
          payload := m.payload ++ g.payload } := by
      rw [hg] at hacc
      simp [Meaning.fragment, hbroken, hacc, hg]
    rw [hfragment]
    refine .reads ⟨?_, ?_, ?_, h.outputs, h.drawn, h.aborts⟩ hbroken rfl
      ⟨f.calls, rfl⟩ rfl
    · simp [h.opcode]
    · have hbuf := h.payloadBuf
      simp only [hg, Bool.false_eq_true, and_false, if_false] at hbuf
      exact hbuf
    · simpa [Meaning.checked, finish, lower] using h.checked
  | true =>
    have hchecked := acceptable_iff h.checked
    have hbuf := h.payloadBuf
    simp only [hg, and_true] at hbuf
    have hbreaks := @fragment_broken cfg m g
    have hcompl : Acceptable (m.opcode.getD g.opcode) true
        (m.payload ++ g.payload) →
        m.fragment cfg g = m.complete cfg
          (.ofOpcode (m.opcode.getD g.opcode) (m.payload ++ g.payload)) := by
      intro hacc
      simp [Meaning.fragment, hbroken, hacc, hg]
    rw [hg] at hbreaks
    cases hnone : m.opcode with
    | none =>
      have hf : f.opcode = none := h.opcode.trans hnone
      simp only [hnone, Option.getD_none, hm.payload hnone,
        nil_append, if_true] at hchecked hbuf hbreaks hcompl
      simp only [hf, if_true]
      split
      · rename_i hinv
        obtain ⟨hb, ho⟩ := hbreaks (mt hchecked.mpr (not_not.mpr hinv))
        exact ends_invalid (h.outputs.trans ho.symm) h.aborts hb _
      · rename_i hvalid
        rw [hcompl (hchecked.mp hvalid), handle_message _ (hopcode hnone)]
        obtain ⟨hop', hbuf', hoff'⟩ := @consumeMessage_kept cfg
          { f with opcode := none, validationOffset := 0 }
          (.ofOpcode g.opcode g.payload) g.payload g.payload.length
        exact ends_message
          (f := { f with opcode := none, validationOffset := 0 })
          h.outputs h.drawn h.aborts hbroken ⟨rfl, rfl, rfl, rfl, rfl⟩
          hop' (hbuf'.trans hbuf) hoff' _
    | some opcode =>
      have hf : f.opcode = some opcode := h.opcode.trans hnone
      simp only [hnone, Option.getD_some, reduceCtorEq,
        if_false] at hchecked hbuf hbreaks hcompl
      simp only [hf, if_true, hbuf]
      split
      · rename_i hinv
        obtain ⟨hb, ho⟩ := hbreaks (mt hchecked.mpr (not_not.mpr hinv))
        exact ends_invalid (h.outputs.trans ho.symm) h.aborts hb _
      · rename_i hvalid
        have hkind : opcode = .text ∨ opcode = .binary := by
          simpa [hnone] using hm.opcode
        rw [hcompl (hchecked.mp hvalid), handle_message _ hkind]
        exact ends_message (f := f) (h := { (f.consumeMessage cfg
            (.ofOpcode opcode (m.payload ++ g.payload))
            (m.payload ++ g.payload) g.payload.length).framing with
            opcode := none
            payloadBuf := []
            validationOffset := 0 })
          h.outputs h.drawn h.aborts hbroken ⟨rfl, rfl, rfl, rfl, rfl⟩
          rfl rfl rfl _

structure Partway (f : Framing) (m : Meaning) (g : Frame) (d : Nat) : Prop where
  opcode : f.opcode = m.opcode
  payloadBuf : f.payloadBuf =
    if m.opcode = none ∧ g.fin = true then []
    else m.payload ++ g.payload.take d
  checked : f.validationOffset = (validate (m.payload ++ g.payload.take d)).1
  outputs : f.outputs = m.outputs
  drawn : f.drawn = m.drawn
  aborts : f.aborts = []

theorem payloadValid_append (f : Framing) {bytes : List Byte}
    (more : List Byte) (hoff : f.validationOffset = (validate bytes).1) :
    (f.payloadValid (bytes ++ more)).1 =
        { f with validationOffset := (validate (bytes ++ more)).1 } ∧
      ((f.payloadValid (bytes ++ more)).2 = true ↔
        Extendable (bytes ++ more)) := by
  have hresume := Rfc3629.validate_resume bytes more
  rw [← hoff] at hresume
  have hone := congrArg Prod.fst hresume
  have htwo := congrArg Prod.snd hresume
  simp only at hone htwo
  simp only [Framing.payloadValid]
  rw [← hone, ← htwo]
  refine ⟨rfl, ?_⟩
  rw [← Rfc3629.validate_extendable_iff, Bool.or_eq_true, beq_iff_eq]

def Textual (m : Meaning) (g : Frame) : Prop :=
  isControlFrame g.opcode = false ∧ m.opcode.getD g.opcode = .text

theorem opcode_text_iff (hg : Allowed m g) (htext : Textual m g) :
    g.opcode = .text ↔ m.opcode = none := by
  obtain ⟨hdata, hop⟩ := htext
  have hcont := (hg.data hdata).2.2
  cases hm : m.opcode with
  | none => simpa [hm] using hop
  | some opcode =>
    have hcont' : g.opcode = .continuation := hcont.mpr (by simp [hm])
    simp [hcont']

def Framing.validated (f : Framing) (hdr : Header) (buffer : List Byte)
    (offset : Nat) : Framing × Bool :=
  if hdr.opcode = .text ∧ hdr.fin then f.payloadValid buffer
  else
    { f with payloadBuf := f.payloadBuf ++ buffer.drop offset }.payloadValid
      (f.payloadBuf ++ buffer.drop offset)

theorem consumeText_eq (f : Framing) (hdr : Header) (buffer : List Byte)
    (offset : Nat) :
    f.consumeText cfg hdr buffer offset =
      if (f.validated hdr buffer offset).2 then
        if buffer.length < hdr.payloadLen then
          ⟨(f.validated hdr buffer offset).1, buffer, 0⟩
        else (f.validated hdr buffer offset).1.endPayload cfg hdr buffer
      else
        ⟨(f.validated hdr buffer offset).1.abortAndShutdown cfg invalidUtf8,
          buffer, -1⟩ := rfl

theorem partway_validated (hm : Tidy m) (hg : Allowed m g)
    (htext : Textual m g) (h : Partway f m g d) (hdn : d ≤ n) :
    let result := f.validated g.header (g.payload.take n) d
    Partway result.1 m g n ∧ result.1.hdr = f.hdr ∧
      result.1.calls = f.calls ∧
      (result.2 = true ↔ Extendable (m.payload ++ g.payload.take n)) := by
  have hsplit : m.payload ++ g.payload.take n =
      m.payload ++ g.payload.take d ++ (g.payload.take n).drop d := by
    rw [append_assoc]
    congr 1
    have htake : g.payload.take d = (g.payload.take n).take d := by
      rw [take_take, Nat.min_eq_left hdn]
    rw [htake, take_append_drop]
  have hbuf := h.payloadBuf
  unfold Framing.validated
  have hhdr : (g.header.opcode = .text ∧ g.header.fin = true) ↔
      (m.opcode = none ∧ g.fin = true) := by
    rw [← opcode_text_iff hg htext]
    rfl
  simp only [hhdr]
  split
  · rename_i hwhole
    have hnil : m.payload = [] := hm.payload hwhole.1
    obtain ⟨hstate, hvalid⟩ := payloadValid_append f
      ((g.payload.take n).drop d) h.checked
    rw [← hsplit] at hstate hvalid
    rw [hnil, nil_append] at hstate hvalid ⊢
    rw [hstate]
    rw [if_pos hwhole] at hbuf
    refine ⟨{ h with payloadBuf := ?_, checked := ?_ }, rfl, rfl, hvalid⟩
    · rw [if_pos hwhole]
      exact hbuf
    · simp [hnil]
  · rename_i hpart
    rw [if_neg hpart] at hbuf
    obtain ⟨hstate, hvalid⟩ := payloadValid_append { f with
      payloadBuf := f.payloadBuf ++ (g.payload.take n).drop d }
      ((g.payload.take n).drop d) h.checked
    rw [hbuf, ← hsplit] at hstate hvalid ⊢
    rw [hstate]
    refine ⟨{ h with payloadBuf := ?_, checked := rfl }, rfl, rfl, hvalid⟩
    rw [if_neg hpart]

theorem fragment_of_frame (hdata : isControlFrame g.opcode = false) :
    m.frame cfg g = m.fragment cfg g := by
  cases hop : g.opcode with
  | text | binary | continuation => simp only [Meaning.frame, hop]
  | ping | pong | connectionClose =>
    simp [hop, isControlFrame, Opcode.toNat] at hdata

theorem first_opcode (hg : Allowed m g)
    (hdata : isControlFrame g.opcode = false) (hnone : m.opcode = none) :
    g.opcode = .text ∨ g.opcode = .binary := by
  have hcont := (hg.data hdata).2.2
  cases hop : g.opcode with
  | text => exact .inl rfl
  | binary => exact .inr rfl
  | continuation => exact absurd hnone (hcont.mp hop)
  | ping | pong | connectionClose =>
    simp [hop, isControlFrame, Opcode.toNat] at hdata

theorem ends_of_not_extendable (htext : Textual m g)
    (hnot : ¬ Extendable (m.payload ++ g.payload.take n))
    (h : Partway f m g n) (written : List Byte) :
    Ends cfg (m.frame cfg g) g.payload.length
      ⟨f.abortAndShutdown cfg invalidUtf8, written, -1⟩ := by
  have hall : ¬ Extendable (m.payload ++ g.payload) := by
    intro hext
    apply hnot
    apply Rfc3629.extendable_of_append (b := g.payload.drop n)
    rwa [append_assoc, take_append_drop]
  have hnot' : ¬ Acceptable (m.opcode.getD g.opcode) g.fin
      (m.payload ++ g.payload) := by
    intro hacc
    have hacc := hacc htext.2
    split at hacc
    · exact hall hacc.extendable
    · exact hall hacc
  obtain ⟨hbroken, houts⟩ := @fragment_broken cfg m g hnot'
  rw [fragment_of_frame htext.1]
  exact ends_invalid (h.outputs.trans houts.symm) h.aborts hbroken written

theorem unmask (hraw : raw <+: g.sent) (hd : d ≤ raw.length) :
    (if g.header.maskKey ≠ 0#32 then
      maskData g.header.maskKey (g.payload.take d ++ raw.drop d) d
      else g.payload.take d ++ raw.drop d) = g.payload.take raw.length := by
  rw [g.sent_eq] at hraw
  have hresume := maskData_resume hraw hd
  have hkey : g.header.maskKey = g.key := rfl
  split_ifs with hzero
  · exact hresume
  · rw [hkey, not_not] at hzero
    rw [hzero, maskData_zero] at hresume
    exact hresume

theorem consumePayload_eq (f : Framing) (hraw : raw <+: g.sent)
    (hd : d ≤ raw.length) :
    f.consumePayload cfg g.header (g.payload.take d ++ raw.drop d)
        (raw.drop d) =
      if isControlFrame g.opcode then
        f.handle cfg g.opcode (g.payload.take raw.length) g.payload.length
      else if g.opcode = .text ∨ f.opcode = some .text then
        f.consumeText cfg g.header (g.payload.take raw.length) d
      else if g.opcode = .binary ∧ g.fin = false ∨
          f.opcode = some .binary then
        { f with
          payloadBuf := f.payloadBuf ++ g.payload.take raw.length }.endPayload
          cfg g.header (g.payload.take raw.length)
      else f.endPayload cfg g.header (g.payload.take raw.length) := by
  have hlen : raw.length ≤ g.payload.length := by
    simpa using hraw.length_le
  have hoff : (g.payload.take d ++ raw.drop d).length -
      (raw.drop d).length = d := by
    simp only [length_append, length_take, length_drop]
    omega
  unfold consumePayload
  simp only [hoff, unmask hraw hd]
  rfl

/-- The framing has seen the first `d` bytes of the payload of a frame.  Other
frames than text frames are seen as a whole. -/
def Seen (f : Framing) (m : Meaning) (g : Frame) (d : Nat) : Prop :=
  Textual m g ∧ Partway f m g d ∨ ¬ Textual m g ∧ d = 0 ∧ Reads f m

theorem seen_zero (hm : Tidy m) (g : Frame) (h : Reads f m) : Seen f m g 0 := by
  by_cases htext : Textual m g
  · refine .inl ⟨htext, h.opcode, ?_, ?_, h.outputs, h.drawn, h.aborts⟩
    · rw [take_zero, append_nil, h.payloadBuf]
      split_ifs with hwhole
      · exact hm.payload hwhole.1
      · rfl
    · rw [take_zero, append_nil, h.checked, Meaning.checked]
      split_ifs with hother
      · rfl
      · have hnone : m.opcode = none := by
          rcases hm.opcode with hnone | hsome | hsome
          · exact hnone
          · exact absurd hsome hother
          · have hop := htext.2
            simp [hsome] at hop
        rw [hm.payload hnone]
        rfl
  · exact .inr ⟨htext, rfl, h⟩

theorem ends_control (hg : Allowed m g) (hbroken : m.broken = false)
    (hctrl : isControlFrame g.opcode = true) (h : Reads f m) :
    Ends cfg (m.frame cfg g) g.payload.length
      (f.handle cfg g.opcode g.payload g.payload.length) := by
  have hclose := (hg.control hctrl).2.2
  cases hop : g.opcode with
  | ping =>
    have hframe : m.frame cfg g = m.answer cfg g.payload := by
      simp [Meaning.frame, hop, hbroken]
    rw [hframe]
    refine .reads { h with outputs := ?_, drawn := ?_ } hbroken rfl ⟨_, rfl⟩ rfl
    · change f.outputs ++ [_] = m.outputs ++ [_]
      rw [h.outputs, nextFrame_eq, h.drawn]
    · exact (drawn_ship f .pong g.payload).trans (by
        rw [h.drawn]
        rfl)
  | pong =>
    have hframe : m.frame cfg g = m := by
      simp [Meaning.frame, hop]
    rw [hframe]
    exact .reads { h with } hbroken rfl ⟨_, rfl⟩ rfl
  | connectionClose => exact absurd hop hclose
  | text | binary | continuation =>
    simp [hop, isControlFrame, Opcode.toNat] at hctrl

theorem getD_binary (hm : Tidy m) (hg : Allowed m g)
    (hdata : isControlFrame g.opcode = false) (hother : ¬ Textual m g) :
    m.opcode = none ∧ g.opcode = .binary ∨
      m.opcode = some .binary ∧ g.opcode = .continuation := by
  rcases hm.opcode with hnone | hsome | hsome
  · rcases first_opcode hg hdata hnone with hop | hop
    · exact absurd ⟨hdata, by simp [hnone, hop]⟩ hother
    · exact .inl ⟨hnone, hop⟩
  · exact absurd ⟨hdata, by simp [hsome]⟩ hother
  · exact .inr ⟨hsome, (hg.data hdata).2.2.mpr (by simp [hsome])⟩

theorem ends_binary (hm : Tidy m) (hg : Allowed m g)
    (hbroken : m.broken = false) (hdata : isControlFrame g.opcode = false)
    (hother : ¬ Textual m g) (h : Reads f m) :
    Ends cfg (m.frame cfg g) g.payload.length
      (if g.opcode = .binary ∧ g.fin = false ∨ f.opcode = some .binary then
        { f with payloadBuf := f.payloadBuf ++ g.payload }.endPayload cfg
          g.header g.payload
      else f.endPayload cfg g.header g.payload) := by
  have hfirst := first_opcode hg hdata
  have hkind : m.opcode.getD g.opcode ≠ .text := fun hop => hother ⟨hdata, hop⟩
  have hchecked : f.validationOffset =
      if m.opcode.getD g.opcode = .text then
        (validate (m.payload ++ g.payload)).1
      else 0 := by
    rw [if_neg hkind, h.checked, Meaning.checked, if_neg]
    intro hsome
    exact hkind (by simp [hsome])
  rw [fragment_of_frame hdata]
  split
  · rename_i hpart
    refine ends_endPayload hm hbroken hfirst ⟨h.opcode, ?_, hchecked,
      fun hop => absurd hop hkind, h.outputs, h.drawn, h.aborts⟩
    rw [if_neg]
    · exact congrArg (· ++ g.payload) h.payloadBuf
    · rintro ⟨hnone, hfin⟩
      simp [h.opcode, hnone, hfin] at hpart
  · rename_i hwhole
    refine ends_endPayload hm hbroken hfirst ⟨h.opcode, ?_, hchecked,
      fun hop => absurd hop hkind, h.outputs, h.drawn, h.aborts⟩
    rcases getD_binary hm hg hdata hother with ⟨hnone, hop⟩ | ⟨hsome, -⟩
    · rw [if_pos]
      · exact h.payloadBuf.trans (hm.payload hnone)
      · refine ⟨hnone, ?_⟩
        by_contra hfin
        exact hwhole (.inl ⟨hop, by simpa using hfin⟩)
    · exact absurd (.inr (h.opcode.trans hsome)) hwhole

theorem text_branch (hg : Allowed m g) (htext : Textual m g)
    (hopcode : f.opcode = m.opcode) :
    g.opcode = .text ∨ f.opcode = some .text := by
  rw [hopcode]
  cases hm : m.opcode with
  | none => exact .inl ((opcode_text_iff hg htext).mpr hm)
  | some opcode =>
    have hget := htext.2
    rw [hm, Option.getD_some] at hget
    exact .inr (congrArg some hget)

theorem ends_consumePayload (hm : Tidy m) (hg : Allowed m g)
    (hbroken : m.broken = false) (h : Seen f m g d)
    (hd : d ≤ g.payload.length) :
    Ends cfg (m.frame cfg g) g.payload.length
      (f.consumePayload cfg g.header (g.payload.take d ++ g.sent.drop d)
        (g.sent.drop d)) := by
  rw [consumePayload_eq f (prefix_refl _) (by simpa using hd),
    g.length_sent, take_length]
  rcases h with ⟨htext, hpart⟩ | ⟨hother, rfl, hreads⟩
  · rw [if_neg (by simp [htext.1]), if_pos (text_branch hg htext hpart.opcode)]
    obtain ⟨hpart, -, -, hvalid⟩ := partway_validated hm hg htext hpart hd
    rw [take_length] at hpart hvalid
    rw [consumeText_eq]
    split
    · rename_i hext
      have hext := hvalid.mp hext
      have hfull : ¬ g.payload.length < g.header.payloadLen := Nat.lt_irrefl _
      rw [if_neg hfull, fragment_of_frame htext.1]
      have hbuf := hpart.payloadBuf
      have hchecked := hpart.checked
      rw [take_length] at hbuf hchecked
      refine ends_endPayload hm hbroken (first_opcode hg htext.1)
        ⟨hpart.opcode, hbuf, ?_, fun _ => hext, hpart.outputs, hpart.drawn,
          hpart.aborts⟩
      rw [if_pos htext.2]
      exact hchecked
    · rename_i hinv
      refine ends_of_not_extendable htext ?_ hpart g.payload
      rw [take_length]
      exact mt hvalid.mpr hinv
  · cases hctrl : isControlFrame g.opcode with
    | true =>
      rw [if_pos rfl]
      exact ends_control hg hbroken hctrl hreads
    | false =>
      rw [if_neg (by simp), if_neg]
      · exact ends_binary hm hg hbroken hctrl hother hreads
      · rcases getD_binary hm hg hctrl hother with h | h
        · simp [hreads.opcode, h]
        · simp [hreads.opcode, h]

theorem consumePayload_partway (hm : Tidy m) (hg : Allowed m g)
    (htext : Textual m g) (h : Partway f m g d) (hraw : raw <+: g.sent)
    (hd : d ≤ raw.length) (hshort : raw.length < g.payload.length) :
    let out := f.consumePayload cfg g.header
      (g.payload.take d ++ raw.drop d) (raw.drop d)
    Ends cfg (m.frame cfg g) g.payload.length out ∧ out.consumed = -1 ∨
      Partway out.framing m g raw.length ∧ out.framing.hdr = f.hdr ∧
        out.framing.calls = f.calls ∧
        out.written = g.payload.take raw.length ∧ out.consumed = 0 := by
  obtain ⟨hpart, hhdr, hcalls, hvalid⟩ := partway_validated hm hg htext h hd
  have hless : (g.payload.take raw.length).length < g.header.payloadLen := by
    rw [length_take_of_le (Nat.le_of_lt hshort)]
    exact hshort
  rw [consumePayload_eq f hraw hd, if_neg (by simp [htext.1]),
    if_pos (text_branch hg htext h.opcode), consumeText_eq, if_pos hless]
  split_ifs with hinv
  · exact .inr ⟨hpart, hhdr, hcalls, rfl, rfl⟩
  · exact .inl ⟨ends_of_not_extendable htext (mt hvalid.mpr hinv) hpart _,
      rfl⟩

theorem length_written_handle (f : Framing) (opcode : Opcode)
    (payload : List Byte) (size : Nat) :
    (f.handle cfg opcode payload size).written.length = payload.length := by
  cases opcode with
  | connectionClose =>
    simp only [handle]
    split <;> rfl
  | text | binary =>
    simp only [handle, consumeMessage]
    split <;> rfl
  | ping =>
    simp only [handle, masked]
    split
    · exact length_maskData _ _ _
    · rfl
  | pong => rfl
  | continuation => rfl

theorem length_written_endPayload (f : Framing) (hdr : Header)
    (buffer : List Byte) :
    (f.endPayload cfg hdr buffer).written.length = buffer.length := by
  unfold endPayload
  split
  · split
    · split
      · rfl
      · exact length_written_handle _ _ _ _
    · split <;> rfl
  · rfl

theorem length_written_consumePayload (f : Framing) (hdr : Header)
    (buffer delta : List Byte) :
    (f.consumePayload cfg hdr buffer delta).written.length =
      buffer.length := by
  have hmask : (if hdr.maskKey ≠ 0#32 then
      maskData hdr.maskKey buffer (buffer.length - delta.length)
      else buffer).length = buffer.length := by
    split
    · exact length_maskData _ _ _
    · rfl
  unfold consumePayload
  simp only
  generalize (if hdr.maskKey ≠ 0#32 then
    maskData hdr.maskKey buffer (buffer.length - delta.length)
    else buffer) = bytes at hmask ⊢
  rw [← hmask]
  split
  · exact length_written_handle _ _ _ _
  · split
    · rw [consumeText_eq]
      split
      · split
        · rfl
        · exact length_written_endPayload _ _ _
      · rfl
    · split
      · exact length_written_endPayload _ _ _
      · exact length_written_endPayload _ _ _

end ActorFramework.Net.WebSocket
