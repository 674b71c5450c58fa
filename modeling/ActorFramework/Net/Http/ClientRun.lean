import ActorFramework.Net.Http.ClientCalls

/-!
# Responses that arrive at the client

The bytes of a response may be cut anywhere.  `Plan` is a response that the
client can read, together with the bytes that follow it, and its phases say
what the client has done with the bytes that it has received so far.
-/

namespace ActorFramework.Net.Http.Client

open ActorFramework.Core V1
open Foundation List

variable {cfg : Config} {cl : Client} {v : View}

/-- The bytes after a header.  `broken` has the first line of a chunk that is
too large. -/
inductive Body where
  | payload (content : List Byte)
  | chunks (parts : List (List Byte))
  | broken (parts : List (List Byte)) (size : Nat)

namespace Body

def pieces : Body → List (List Byte)
  | .payload _ => []
  | .chunks parts => parts ++ [[]]
  | .broken parts _ => parts

def tail : Body → List Byte
  | .payload content => content
  | .chunks _ => []
  | .broken _ size => toString16 size ++ eol

def bytes (body : Body) : List Byte :=
  body.pieces.flatMap V1.sendChunk ++ body.tail

def content : Body → List Byte
  | .payload content => content
  | .chunks parts => parts.flatten
  | .broken parts _ => parts.flatten

structure Readable (chunk : List Byte) : Prop where
  nonempty : chunk ≠ []
  size : chunk.length < 16 ^ 8

structure Framed (cfg : Config) (hdr : ResponseHeader) (body : Body) :
    Prop where
  chunked : chunkedTransferEncoding hdr.fields = true ↔
    ∀ content, body ≠ .payload content
  length : ∀ content, body = .payload content →
    contentLength cfg.real hdr.fields = some content.length
  readable : ∀ chunk ∈ body.pieces, chunk ≠ [] → Readable chunk
  broken : ∀ parts size, body = .broken parts size →
    16 ^ 8 ≤ size ∧ ∀ chunk ∈ parts, chunk ≠ []
  chunks : ∀ parts, body = .chunks parts → ∀ chunk ∈ parts, chunk ≠ []
  max : body.content.length ≤ cfg.maxResponseSize

end Body

structure Plan (cfg : Config) where
  raw : List Byte
  hdr : ResponseHeader
  body : Body
  rest : List Byte
  parse : ResponseHeader.parse cfg.real raw = .ok hdr
  split : V1.splitHeader raw = some (raw, [])
  long : 10 ≤ raw.length
  framed : body.Framed cfg hdr
  accepts : ∀ responses, (cfg.upper responses).accepted = true

namespace Plan

variable {plan : Plan cfg}

def stream (plan : Plan cfg) : List Byte :=
  plan.raw ++ (plan.body.bytes ++ plan.rest)

def response (plan : Plan cfg) : Response := ⟨plan.hdr, plan.body.content⟩

def Further (plan : Plan cfg) : Prop :=
  plan.rest ≠ [] ∨ ∃ parts size, plan.body = .broken parts size

structure Chunking (plan : Plan cfg) (seen todo : List (List Byte))
    (cl : Client) : Prop where
  body : ∀ content, plan.body ≠ .payload content
  pieces : plan.body.pieces = seen ++ todo
  nonempty : ∀ piece ∈ seen, piece ≠ []
  mode : cl.mode = .readChunks
  hdr : cl.hdr = plan.hdr
  buffer : cl.buffer = seen.flatten
  responses : cl.responses = []
  aborts : cl.aborts = []

inductive Stage (plan : Plan cfg) (cl : Client) (v : View) : Prop where
  | header (hmode : cl.mode = .readHeader) (hbuffer : cl.buffer = [])
      (hresponses : cl.responses = []) (haborts : cl.aborts = [])
      (hpolicy : v.policy = cfg.policy) (hreceived : v.received = v.window)
  | payload (content : List Byte) (hbody : plan.body = .payload content)
      (hsome : content ≠ [])
      (hfits : plan.raw.length ≤ cfg.maxResponseSize)
      (hmode : cl.mode = .readPayload) (hhdr : cl.hdr = plan.hdr)
      (hlen : cl.payloadLen = content.length) (hresponses : cl.responses = [])
      (haborts : cl.aborts = []) (hpolicy : v.policy = cfg.policy)
      (hreceived : v.received = plan.raw ++ v.window)
  | chunks (seen todo : List (List Byte)) (h : plan.Chunking seen todo cl)
      (hfits : plan.raw.length ≤ cfg.maxResponseSize)
      (hpolicy : v.policy = cfg.policy ∨ ∃ piece later,
        todo = piece :: later ∧
          v.policy = .exactly (V1.sendChunk piece).length)
      (hreceived : v.received =
        plan.raw ++ (seen.flatMap V1.sendChunk ++ v.window))
  | finished (hmode : cl.mode = .readHeader)
      (hfits : plan.raw.length ≤ cfg.maxResponseSize)
      (hresponses : cl.responses = [plan.response]) (haborts : cl.aborts = [])
      (hbody : ∀ parts size, plan.body ≠ .broken parts size)
      (hreceived : v.received = plan.raw ++ (plan.body.bytes ++ v.window))

def Waits (cl : Client) (v : View) : Prop :=
  match cl.mode with
  | .readHeader => V1.splitHeader v.bytes = none
  | .readPayload => v.bytes.length < cl.payloadLen
  | .readChunks => V1.parseChunk v.bytes = .error none

def phases (plan : Plan cfg) : Phases Client where
  stream := plan.stream
  Live cl v := v.received <+: plan.stream ∧ plan.Stage cl v
  Waiting := Waits
  Dead _ := False
  Gone cl := cl.responses <+: [plan.response]
  Done cl := plan.Further ∧ Beyond cl

theorem Stage.read (h : plan.Stage cl v) (chunk : List Byte) :
    plan.Stage cl (v.read chunk) := by
  cases h with
  | header hmode hbuf hresps haborts hpolicy hreceived =>
    refine .header hmode hbuf hresps haborts hpolicy ?_
    simp [View.read, hreceived]
  | payload content hbody hsome hfits hmode hhdr hlen hresps haborts
      hpolicy hreceived =>
      refine .payload content hbody hsome hfits hmode hhdr hlen hresps
        haborts hpolicy ?_
      simp [View.read, hreceived]
  | chunks seen todo h hfits hpolicy hreceived =>
    refine .chunks seen todo h hfits hpolicy ?_
    simp [View.read, hreceived]
  | finished hmode hfits hresps haborts hbody hreceived =>
    refine .finished hmode hfits hresps haborts hbody ?_
    simp [View.read, hreceived]

theorem Stage.responses_le (h : plan.Stage cl v) :
    cl.responses <+: [plan.response] := by
  cases h with
  | header _ _ hresps | payload _ _ _ _ _ _ _ hresps =>
    exact hresps ▸ nil_prefix
  | chunks _ _ h => exact h.responses ▸ nil_prefix
  | finished _ _ hresps =>
    exact ⟨[], (append_nil _).trans hresps⟩

theorem Stage.aborts (h : plan.Stage cl v) : cl.aborts = [] := by
  cases h with
  | header _ _ _ haborts => exact haborts
  | payload _ _ _ _ _ _ _ _ haborts => exact haborts
  | chunks _ _ h => exact h.aborts
  | finished _ _ _ haborts => exact haborts

variable {out : Client × Int}

theorem consume_answer {bytes delta : List Byte}
    (h : cl.rest.consume cfg bytes = out) :
    (layer cfg).consume cl bytes delta =
      { state := out.1.rest
        calls := out.1.calls
        written := bytes
        consumed := out.2 } := by
  rw [← h]
  rfl

theorem goes_beyond (hfurther : plan.Further)
    (hout : cl.rest.consume cfg v.bytes = out) (h : Beyond out.1) :
    plan.phases.Goes (layer cfg) cl v := by
  refine .done _ (consume_answer hout) v.length_bytes ⟨hfurther, ?_⟩
  generalize Answer.reason _ v.size = reason
  cases reason with
  | none => exact h
  | some reason =>
    rcases h with haborts | hmore
    · exact .inl (by simp [Layer.aborted, layer, abort, Client.rest])
    · exact .inr hmore

theorem goes_waiting {base : Client} {n : Nat} (hcalls : base.calls = [])
    (hout : cl.rest.consume cfg v.bytes = (base, (n : Int))) (hn : n ≤ v.size)
    (hlive : ∀ offset, plan.phases.Live base.rest
      ⟨v.policy, offset, v.window.drop n, v.received⟩)
    (hwaits : n = 0 → Waits base v) : plan.phases.Goes (layer cfg) cl v := by
  refine .passes (consume_answer hout) rfl rfl rfl hn ?_ hlive
    fun hzero => .inl ⟨hcalls, rfl, fun offset => hwaits hzero⟩
  rw [hcalls]
  exact .nothing

theorem goes_finished {after : Client} {n : Nat} {rd : ReceivePolicy}
    (hfits : plan.raw.length ≤ cfg.maxResponseSize)
    (hout : cl.rest.consume cfg v.bytes = (after, (n : Int))) (hn : n ≤ v.size)
    (hpos : 0 < n) (hsets : Sets v.policy after.calls rd)
    (hmode : after.mode = .readHeader)
    (hresps : after.responses = [plan.response]) (haborts : after.aborts = [])
    (hbody : ∀ parts size, plan.body ≠ .broken parts size)
    (hreceived : v.received = plan.raw ++ (plan.body.bytes ++ v.window.drop n))
    (hstream : v.received <+: plan.stream) :
    plan.phases.Goes (layer cfg) cl v :=
  .passes (consume_answer hout) rfl rfl rfl hn hsets
    (fun _ => ⟨hstream, .finished hmode hfits hresps haborts hbody
      hreceived⟩) fun hzero => by omega

theorem waits_chunks (hmode : cl.mode = .readChunks) :
    Waits cl v ↔ parseChunk v.bytes = .error none := by
  rw [Waits, hmode]

section

variable {base : Client} {n : Nat} {seen todo later : List (List Byte)}
  {piece : List Byte}
  (h : plan.Chunking seen todo base) (hcalls : base.calls = [])
  (hout : cl.rest.consume cfg v.bytes = base.readChunks cfg (v.bytes.drop n) n)
  (hn : n ≤ v.size) (hfits : plan.raw.length ≤ cfg.maxResponseSize)
  (hpolicy : v.policy = cfg.policy ∨ ∃ piece later, todo = piece :: later ∧
    v.policy = .exactly (sendChunk piece).length)
  (hreceived : v.received =
    plan.raw ++ (seen.flatMap sendChunk ++ v.window.drop n))
  (hstream : v.received <+: plan.stream)

include h hreceived hstream in
theorem input_chunks : v.bytes.drop n <+:
    todo.flatMap sendChunk ++ (plan.body.tail ++ plan.rest) := by
  have hstart := v.bytes_start.drop n
  rw [hreceived, stream, Body.bytes, h.pieces, flatMap_append] at hstream
  have hwin := (prefix_append_right_inj _).mp hstream
  rw [append_assoc, append_assoc] at hwin
  exact hstart.trans ((prefix_append_right_inj _).mp hwin)

theorem content_eq (h : plan.Chunking seen todo base) :
    plan.body.content = (seen ++ todo).flatten := by
  rw [← h.pieces]
  cases hbody : plan.body with
  | payload content => exact absurd hbody (h.body content)
  | chunks parts => simp [Body.content, Body.pieces]
  | broken parts size => rfl

theorem readable_piece (h : plan.Chunking seen (piece :: later) base) :
    piece.length < 16 ^ 8 ∧
      piece.length + base.buffer.length ≤ cfg.maxResponseSize := by
  have hmax := plan.framed.max
  rw [content_eq h] at hmax
  refine ⟨?_, ?_⟩
  · by_cases hnil : piece = []
    · simp [hnil]
    · exact (plan.framed.readable piece (by simp [h.pieces]) hnil).size
  · rw [h.buffer]
    simp only [flatten_append, flatten_cons, length_append]
      at hmax
    omega

theorem last_piece (h : plan.Chunking seen ([] :: later) base) :
    later = [] ∧ plan.body = .chunks seen := by
  have hpieces := h.pieces
  cases hbody : plan.body with
  | payload content => exact absurd hbody (h.body content)
  | broken parts size =>
    rw [hbody] at hpieces
    have hmem : [] ∈ parts := by
      rw [show parts = seen ++ [] :: later from hpieces]
      simp
    exact absurd rfl ((plan.framed.broken parts size hbody).2 [] hmem)
  | chunks parts =>
    rw [hbody] at hpieces
    have hparts := plan.framed.chunks parts hbody
    have hpieces := hpieces
    rcases append_eq_append_iff.mp hpieces with
      ⟨mid, hseen, hend⟩ | ⟨mid, hparts', hend⟩
    · cases mid with
      | nil =>
        simp only [append_nil] at hseen
        simp only [nil_append, List.cons.injEq, true_and] at hend
        exact ⟨hend.symm, by rw [hseen]⟩
      | cons first mid =>
        obtain ⟨rfl, hnil⟩ := List.cons.inj hend
        exact absurd rfl (h.nonempty [] (by simp [hseen]))
    · cases mid with
      | nil =>
        simp only [append_nil] at hparts'
        simp only [nil_append, List.cons.injEq, true_and] at hend
        exact ⟨hend, by rw [hparts']⟩
      | cons first mid =>
        obtain ⟨rfl, hnil⟩ := List.cons.inj hend
        exact absurd rfl (hparts [] (by simp [hparts']))

include hcalls hout hn hfits hreceived hstream

theorem goes_part (h : plan.Chunking seen (piece :: later) base)
    (hpolicy : v.policy = cfg.policy ∨
      v.policy = .exactly (sendChunk piece).length)
    (hshort : (v.bytes.drop n).length < (sendChunk piece).length) :
    plan.phases.Goes (layer cfg) cl v := by
  have hin := input_chunks h hreceived hstream
  rw [flatMap_cons, append_assoc] at hin
  obtain ⟨hsize, hmax⟩ := readable_piece h
  have hlen := v.length_left hn
  have hnext : plan.Chunking seen (piece :: later) base.rest :=
    { h with }
  by_cases hline : (v.bytes.drop n).length <
      (toString16 piece.length).length + 2
  · obtain ⟨hparse, hread⟩ := @readChunks_short cfg base _ _ _ n hsize hin
      hline
    refine goes_waiting hcalls (hout.trans hread) hn (fun offset =>
      ⟨hstream, .chunks seen (piece :: later) hnext hfits ?_ hreceived⟩)
      fun hzero => ?_
    · exact hpolicy.imp_right fun hexact => ⟨piece, later, rfl, hexact⟩
    · rw [waits_chunks h.mode]
      rw [hzero, drop_zero] at hparse
      exact hparse
  · have hread := readChunks_part n hsize hin (by omega) hmax hshort
    refine .passes (consume_answer (hout.trans hread)) rfl rfl rfl hn ?_
      (fun offset => ⟨hstream, .chunks seen (piece :: later) hnext hfits
        (.inr ⟨piece, later, rfl, rfl⟩) hreceived⟩) fun hzero => .inr ?_
    · simp only [lower, hcalls]
      exact .last [] _
    · refine ⟨?_, ?_, fun hmin => ?_⟩
      · simp only [lower, hcalls, nil_append]
        rfl
      · change v.size ≤ (sendChunk piece).length
        omega
      · change v.window.length < (sendChunk piece).length
        change min v.window.length (sendChunk piece).length = v.size at hmin
        omega

theorem goes_piece (h : plan.Chunking seen (piece :: later) base)
    (hpiece : piece ≠ [])
    (hlong : (sendChunk piece).length ≤ (v.bytes.drop n).length) :
    plan.phases.Goes (layer cfg) cl v := by
  have hin := input_chunks h hreceived hstream
  rw [flatMap_cons, append_assoc] at hin
  obtain ⟨hsize, hmax⟩ := readable_piece h
  have hlen := v.length_left hn
  have hpos := length_sendChunk piece
  have hread := readChunks_piece n hsize hin hmax hlong
  simp only [hpiece, if_false] at hread
  have hpieces : plan.body.pieces = seen ++ [piece] ++ later := by
    rw [h.pieces]
    simp
  have hwin := v.window_shown hin hlong
  refine .passes (consume_answer (hout.trans hread)) rfl rfl rfl (by omega) ?_
    (fun offset => ⟨hstream, .chunks (seen ++ [piece]) later
      { h with pieces := hpieces, nonempty := ?_, buffer := ?_ } hfits
      (.inl rfl) ?_⟩) fun hzero => by omega
  · simp only [lower, hcalls]
    exact .last [] _
  · intro other hother
    rcases mem_append.mp hother with hseen | hlast
    · exact h.nonempty other hseen
    · rw [mem_singleton.mp hlast]
      exact hpiece
  · simp [Client.rest, lower, h.buffer]
  · rw [hreceived, hwin]
    simp

theorem goes_last (h : plan.Chunking seen ([] :: later) base)
    (hlong : (sendChunk []).length ≤ (v.bytes.drop n).length) :
    plan.phases.Goes (layer cfg) cl v := by
  have hin := input_chunks h hreceived hstream
  rw [flatMap_cons, append_assoc] at hin
  obtain ⟨hsize, hmax⟩ := readable_piece h
  have hlen := v.length_left hn
  have hpos := length_sendChunk []
  have hread := readChunks_piece n hsize hin hmax hlong
  obtain ⟨rfl, hbody⟩ := last_piece h
  have hcontent : plan.body.content = seen.flatten := by
    rw [content_eq h]
    simp
  have hbytes : plan.body.bytes =
      seen.flatMap sendChunk ++ sendChunk [] := by
    rw [Body.bytes, h.pieces, hbody]
    simp [Body.tail]
  have hwin := v.window_shown hin hlong
  have hacc : ((base.lower (.configureRead cfg.policy)).invokeUpperLayer
      cfg (base.lower (.configureRead cfg.policy)).buffer).2 = true :=
    plan.accepts _
  simp only [if_true, hacc, invokeUpperLayer_eq] at hread
  obtain ⟨rd, hsets⟩ := @sets_lower cfg v.policy _ _
    (.last [] cfg.policy) (cfg.upper (base.responses ++
      [⟨base.hdr, base.buffer⟩])).calls
  refine @goes_finished cfg cl v plan _ _ rd hfits (hout.trans hread)
    (by omega) (by omega) ?_ rfl ?_ h.aborts ?_ ?_ hstream
  · simp only [lower, hcalls]
    exact hsets
  · simp [lower, h.responses, h.hdr, h.buffer, response, hcontent]
  · simp [hbody]
  · rw [hreceived, hwin, hbytes]
    simp

theorem goes_broken (h : plan.Chunking seen [] base)
    (hpolicy : v.policy = cfg.policy) : plan.phases.Goes (layer cfg) cl v := by
  have hin := input_chunks h hreceived hstream
  have hpieces := h.pieces
  rw [append_nil] at hpieces
  cases hbody : plan.body with
  | payload content => exact absurd hbody (h.body content)
  | chunks parts =>
    rw [hbody] at hpieces
    exact absurd rfl (h.nonempty [] (hpieces ▸ by simp [Body.pieces]))
  | broken parts size =>
    have hlarge := (plan.framed.broken parts size hbody).1
    rw [flatMap_nil, nil_append, hbody] at hin
    simp only [Body.tail, append_assoc] at hin
    have hparse := parseChunk_large hin hlarge
    split at hparse
    · have hread : base.readChunks cfg (v.bytes.drop n) n =
          (base, (n : Int)) := by
        rw [readChunks, hparse]
      refine goes_waiting hcalls (hout.trans hread) hn (fun offset =>
        ⟨hstream, .chunks seen [] { h with } hfits (.inl hpolicy)
          hreceived⟩) fun hzero => ?_
      rw [waits_chunks h.mode]
      rw [hzero, drop_zero] at hparse
      exact hparse
    · obtain ⟨reason, hparse⟩ := hparse
      have hread : base.readChunks cfg (v.bytes.drop n) n =
          (base.abortAndShutdown reason, -1) := by
        rw [readChunks, hparse]
      exact goes_beyond (.inr ⟨parts, size, hbody⟩) (hout.trans hread)
        (.inl (by simp [abortAndShutdown, abort, lower]))

theorem goes_chunks (h : plan.Chunking seen todo base)
    (hpolicy : v.policy = cfg.policy ∨ ∃ piece later, todo = piece :: later ∧
      v.policy = .exactly (sendChunk piece).length) :
    plan.phases.Goes (layer cfg) cl v := by
  cases todo with
  | nil =>
    have hpolicy : v.policy = cfg.policy := by
      rcases hpolicy with hpolicy | ⟨piece, later, hcons, -⟩
      · exact hpolicy
      · cases hcons
    exact goes_broken hcalls hout hn hfits hreceived hstream h hpolicy
  | cons piece later =>
    by_cases hlong : (sendChunk piece).length ≤ (v.bytes.drop n).length
    · by_cases hnil : piece = []
      · subst hnil
        exact goes_last hcalls hout hn hfits hreceived hstream h hlong
      · exact goes_piece hcalls hout hn hfits hreceived hstream h hnil hlong
    · refine goes_part hcalls hout hn hfits hreceived hstream h ?_
        (by omega)
      refine hpolicy.imp_right ?_
      rintro ⟨other, rest, hcons, hexact⟩
      obtain ⟨rfl, rfl⟩ := List.cons.inj hcons
      exact hexact

end

theorem goes_payload {base : Client} {n : Nat} {content : List Byte}
    (hout : cl.rest.consume cfg v.bytes =
      base.readPayload cfg (v.bytes.drop n) n)
    (hbody : plan.body = .payload content) (hmode : base.mode = .readPayload)
    (hhdr : base.hdr = plan.hdr) (hlen : base.payloadLen = content.length)
    (hresps : base.responses = []) (haborts : base.aborts = [])
    (hcalls : base.calls = []) (hn : n ≤ v.size) (hpos : 0 < n ∨ content ≠ [])
    (hfits : plan.raw.length ≤ cfg.maxResponseSize)
    (hpolicy : v.policy = cfg.policy)
    (hreceived : v.received = plan.raw ++ v.window.drop n)
    (hstream : v.received <+: plan.stream) :
    plan.phases.Goes (layer cfg) cl v := by
  have hlength := v.length_left hn
  have hbytes : plan.body.bytes = content := by
    rw [hbody]
    rfl
  unfold readPayload at hout
  split at hout
  · rename_i hshort
    rw [hlen] at hshort
    refine goes_waiting hcalls hout hn (fun offset => ⟨hstream,
      .payload content hbody ?_ hfits hmode hhdr hlen hresps haborts
        hpolicy hreceived⟩) fun hzero => ?_
    · exact length_pos_iff.mp (by omega)
    · rw [hzero, drop_zero] at hshort
      rw [Waits, hmode]
      simp only [hlen]
      exact hshort
  · rename_i hlong
    have hacc : (base.invokeUpperLayer cfg
        ((v.bytes.drop n).take base.payloadLen)).2 = true := plan.accepts _
    simp only [hacc, if_true, invokeUpperLayer_eq] at hout
    have hwin : v.window.drop n =
        content ++ v.window.drop (n + content.length) := by
      rw [hreceived, stream, hbytes] at hstream
      refine v.window_drop (prefix_of_prefix_length_le
        (prefix_append _ plan.rest) ((prefix_append_right_inj _).mp hstream) ?_)
      have hle := (v.bytes_start.drop n).length_le
      omega
    have hpay : (v.bytes.drop n).take base.payloadLen = content := by
      have hstart : (v.bytes.drop n).take base.payloadLen <+: v.window.drop n :=
        (List.take_prefix _ _).trans (v.bytes_start.drop n)
      rw [hwin] at hstart
      rw [hlen] at hstart hlong ⊢
      have hfull : ((v.bytes.drop n).take content.length).length =
          content.length := length_take_of_le (by omega)
      rw [prefix_iff_eq_take.mp hstart, hfull, take_left]
    rw [hpay, hlen] at hout
    obtain ⟨rd, hsets⟩ := @sets_lower cfg v.policy _ _ .nothing
      (cfg.upper (base.responses ++ [⟨base.hdr, content⟩])).calls
    refine @goes_finished cfg cl v plan _ _ rd hfits hout (by omega) ?_ ?_ rfl
      ?_ haborts ?_ ?_ hstream
    · rcases hpos with hpos | hsome
      · omega
      · exact Nat.add_pos_right _ (length_pos_iff.mpr hsome)
    · simp only [hcalls]
      exact hsets
    · simp only [hresps, nil_append, hhdr, response, hbody]
      rfl
    · simp [hbody]
    · rw [hreceived, hwin, hbytes]

theorem search_raw (plan : Plan cfg) : ∃ i,
    search endOfHeader plan.raw = some i ∧
      i + endOfHeader.length = plan.raw.length := by
  obtain ⟨i, hi, hparts⟩ := Option.map_eq_some_iff.mp plan.split
  have hlen := search_length_le hi
  have htake := congrArg (fun parts => parts.1.length) hparts
  simp only [length_take] at htake
  exact ⟨i, hi, by omega⟩

variable {bytes : List Byte}

theorem splitHeader_short (h : bytes <+: plan.stream)
    (hshort : bytes.length < plan.raw.length) :
    splitHeader bytes = none := by
  obtain ⟨i, hi, hraw⟩ := plan.search_raw
  rw [splitHeader, search_eq_none (search_append hi _) h (by omega)]
  rfl

theorem splitHeader_long (h : bytes <+: plan.stream)
    (hlong : plan.raw.length ≤ bytes.length) :
    splitHeader bytes = some (plan.raw, bytes.drop plan.raw.length) := by
  obtain ⟨i, hi, hraw⟩ := plan.search_raw
  have hstart := prefix_of_prefix_length_le
    (prefix_append plan.raw _) h hlong
  rw [splitHeader, search_eq_some (search_append hi _) h (by omega),
    Option.map_some, hraw, ← prefix_iff_eq_take.mp hstart]

theorem goes_header (hmode : cl.mode = .readHeader) (hbuf : cl.buffer = [])
    (hresps : cl.responses = []) (haborts : cl.aborts = [])
    (hpolicy : v.policy = cfg.policy) (hreceived : v.received = v.window)
    (hstream : v.received <+: plan.stream) :
    plan.phases.Goes (layer cfg) cl v := by
  have hbytes : v.bytes <+: plan.stream :=
    v.bytes_start.trans (hreceived ▸ hstream)
  have hlen := v.length_bytes
  have hmax : v.size ≤ cfg.maxResponseSize := by
    rw [View.size, hpolicy]
    exact Nat.min_le_right _ _
  by_cases hshort : v.bytes.length < plan.raw.length
  · have hnone := splitHeader_short hbytes hshort
    have hcon := @consume_incomplete cfg cl.rest v.bytes hmode (by omega)
      hnone
    refine goes_waiting (n := 0) rfl hcon (Nat.zero_le _) (fun offset =>
      ⟨hstream, .header hmode hbuf hresps haborts hpolicy hreceived⟩)
      fun _ => ?_
    have hrest : cl.rest.mode = .readHeader := hmode
    rw [Waits, hrest]
    exact hnone
  · have hfits : plan.raw.length ≤ cfg.maxResponseSize := by omega
    have hreceived' : v.received =
        plan.raw ++ v.window.drop plan.raw.length := by
      have hstart : plan.raw <+: v.window := by
        refine prefix_of_prefix_length_le (prefix_append _ _)
          (hreceived ▸ hstream) ?_
        have hle := v.bytes_start.length_le
        omega
      obtain ⟨rest, hrest⟩ := hstart
      rw [hreceived, ← hrest, drop_left]
    have hlong := plan.long
    have hcon := @consume_header cfg cl.rest v.bytes _ _ hmode (by omega)
      (splitHeader_long hbytes (by omega))
    simp only [handleHeader, plan.parse] at hcon
    by_cases hbody : ∃ content, plan.body = .payload content
    · obtain ⟨content, hbody⟩ := hbody
      have hchunked : chunkedTransferEncoding plan.hdr.fields = false := by
        refine Bool.eq_false_iff.mpr fun htrue => ?_
        exact plan.framed.chunked.mp htrue content hbody
      have hmax' : content.length ≤ cfg.maxResponseSize := by
        simpa only [hbody, Body.content] using plan.framed.max
      simp only [hchunked, Bool.false_eq_true, if_false,
        plan.framed.length content hbody] at hcon
      rw [if_neg (by omega)] at hcon
      exact goes_payload hcon hbody rfl rfl rfl hresps haborts rfl
        (by omega) (.inl (by omega)) hfits hpolicy hreceived' hstream
    · have hnot : ∀ content, plan.body ≠ .payload content :=
        fun content heq => hbody ⟨content, heq⟩
      simp only [plan.framed.chunked.mpr hnot, if_true] at hcon
      have hstart : plan.Chunking [] plan.body.pieces
          { cl.rest with mode := .readChunks, hdr := plan.hdr } :=
        ⟨hnot, rfl, by simp, rfl, rfl, hbuf, hresps, haborts⟩
      have hnone : v.received = plan.raw ++
          (([] : List (List Byte)).flatMap sendChunk ++
            v.window.drop plan.raw.length) := hreceived'
      exact goes_chunks (h := hstart) rfl hcon (by omega) hfits hnone
        hstream (.inl hpolicy)

theorem consume_nil (hmode : cl.mode = .readHeader) :
    cl.rest.consume cfg [] = (cl.rest, 0) := by
  have hrest : cl.rest.mode = .readHeader := hmode
  rw [Client.consume, hrest]
  rfl

theorem steady (plan : Plan cfg) : plan.phases.Steady (layer cfg) where
  read := fun chunk h hstream => ⟨hstream, h.2.read chunk⟩
  consume := by
    rintro cl v ⟨hstream, hstage⟩ -
    cases hstage with
    | header hmode hbuf hresps haborts hpolicy hreceived =>
      exact goes_header hmode hbuf hresps haborts hpolicy hreceived
        hstream
    | payload content hbody hsome hfits hmode hhdr hlen hresps haborts
        hpolicy hreceived =>
        have hrest : cl.rest.mode = .readPayload := hmode
        have hout : cl.rest.consume cfg v.bytes =
            cl.rest.readPayload cfg (v.bytes.drop 0) 0 := by
          rw [Client.consume, hrest, drop_zero]
        exact goes_payload hout hbody hmode hhdr hlen hresps haborts rfl
          (Nat.zero_le _) (.inr hsome) hfits hpolicy hreceived hstream
    | chunks seen todo h hfits hpolicy hreceived =>
      have hrest : cl.rest.mode = .readChunks := h.mode
      have hout : cl.rest.consume cfg v.bytes =
          cl.rest.readChunks cfg (v.bytes.drop 0) 0 := by
        rw [Client.consume, hrest, drop_zero]
      have hchunking : plan.Chunking seen todo cl.rest :=
        { h with }
      exact goes_chunks (h := hchunking) rfl hout (Nat.zero_le _) hfits
        hreceived hstream hpolicy
    | finished hmode hfits hresps haborts hbody hreceived =>
      rcases @consume_advances cfg cl.rest v.bytes with
        ⟨-, hsplit, hout⟩ | hgoes
      · refine goes_waiting (n := 0) rfl hout (Nat.zero_le _) (fun offset =>
          ⟨hstream, .finished hmode hfits hresps haborts hbody
            hreceived⟩) fun _ => ?_
        have hrest : cl.rest.mode = .readHeader := hmode
        rw [Waits, hrest]
        exact hsplit
      · have hwin : v.window <+: plan.rest := by
          rw [hreceived, stream] at hstream
          exact (prefix_append_right_inj _).mp
            ((prefix_append_right_inj _).mp hstream)
        have hfurther : plan.rest ≠ [] := by
          intro hnil
          rw [hnil] at hwin
          have hbytes : v.bytes = [] := by
            rw [View.bytes, prefix_nil.mp hwin, take_nil]
          rw [hbytes, consume_nil hmode] at hgoes
          rcases hgoes.goes with hfails | hmore | hother
          · exact hfails haborts
          · exact Nat.lt_irrefl _ hmore
          · exact hother hmode
        refine goes_beyond (.inl hfurther) rfl (hgoes.beyond ?_)
        have hsome : cl.rest.responses = [plan.response] := hresps
        simp [hsome]
  plain := fun _ _ _ hcall => by cases hcall
  abort := fun _ h => h.2.responses_le
  abortDead := fun _ h => h.elim
  abortDone := by
    rintro cl reason ⟨hfurther, haborts | hmore⟩
    · exact ⟨hfurther, .inl (by simp [layer, Client.abort, Client.rest])⟩
    · exact ⟨hfurther, .inr hmore⟩
  consumeDone := fun {cl} bytes _ h =>
    ⟨h.1, @beyond_consume cfg cl.rest h.2 bytes⟩

theorem established (plan : Plan cfg) {first : List Byte}
    (hfirst : first <+: plan.stream) :
    plan.phases.Health (.established cfg.policy {} first) :=
  Phases.health_established ⟨hfirst, .header rfl rfl rfl rfl rfl rfl⟩
    Nat.zero_lt_one

theorem size_of_policy (hpolicy : v.policy = cfg.policy) :
    v.size = min v.window.length cfg.maxResponseSize := by
  rw [View.size, hpolicy]
  rfl

theorem waits_of_rests (hpolicy : v.policy = cfg.policy)
    (hmax : 0 < cfg.maxResponseSize) (hwin : 0 < v.window.length)
    (hrests : plan.phases.Rests cl v) : Waits cl v := by
  rcases hrests with hzero | hless | hwaits
  · rw [hpolicy] at hzero
    change cfg.maxResponseSize = 0 at hzero
    omega
  · rw [hpolicy] at hless
    change v.window.length < 1 at hless
    omega
  · exact hwaits

theorem not_rests_chunks {seen todo : List (List Byte)}
    (h : plan.Chunking seen todo cl)
    (hfits : plan.raw.length ≤ cfg.maxResponseSize)
    (hpolicy : v.policy = cfg.policy ∨ ∃ piece later, todo = piece :: later ∧
      v.policy = .exactly (sendChunk piece).length)
    (hreceived : v.received =
      plan.raw ++ (seen.flatMap sendChunk ++ v.window))
    (hall : v.received = plan.stream) : ¬ plan.phases.Rests cl v := by
  intro hrests
  have hlong := plan.long
  have hlen := v.length_bytes
  have hin := @input_chunks cfg v plan cl 0 _ _ h hreceived
    ⟨[], (append_nil _).trans hall⟩
  have hwin : v.window =
      todo.flatMap sendChunk ++ (plan.body.tail ++ plan.rest) := by
    rw [hreceived, stream, Body.bytes, h.pieces, flatMap_append,
      append_assoc, append_assoc] at hall
    exact append_cancel_left (append_cancel_left hall)
  rw [drop_zero] at hin
  cases todo with
  | nil =>
    have hpolicy : v.policy = cfg.policy := by
      rcases hpolicy with hpolicy | ⟨piece, later, hcons, -⟩
      · exact hpolicy
      · cases hcons
    have hsize := size_of_policy hpolicy
    have hpieces := h.pieces
    rw [append_nil] at hpieces
    cases hbody : plan.body with
    | payload content => exact h.body content hbody
    | chunks parts =>
      rw [hbody] at hpieces
      exact h.nonempty [] (hpieces ▸ by simp [Body.pieces]) rfl
    | broken parts size =>
      have hlarge := (plan.framed.broken parts size hbody).1
      have hdigits : ¬ (toString16 size).length ≤ 8 := fun hle =>
        absurd ((length_numberText_le_iff (by decide) (by decide)).mp hle)
          (by omega)
      rw [flatMap_nil, nil_append, hbody] at hin hwin
      simp only [Body.tail, append_assoc] at hin
      have hten : 10 ≤ v.window.length := by
        rw [hwin]
        simp only [Body.tail, length_append, eol_eq, length_cons]
        omega
      have hwaits := waits_of_rests hpolicy (by omega) (by omega) hrests
      rw [waits_chunks h.mode] at hwaits
      have hparse := parseChunk_large hin hlarge
      rw [if_neg (by omega)] at hparse
      obtain ⟨reason, hparse⟩ := hparse
      cases hparse ▸ hwaits
  | cons piece later =>
    obtain ⟨hsmall, -⟩ := readable_piece h
    have hdigits : (toString16 piece.length).length ≤ 8 :=
      (length_numberText_le_iff (by decide) (by decide)).mpr hsmall
    have hsend := length_sendChunk piece
    rw [flatMap_cons, append_assoc] at hin hwin
    have hfull : (sendChunk piece).length ≤ v.window.length := by
      rw [hwin, length_append]
      omega
    have hparse : (toString16 piece.length).length + 2 ≤ v.size →
        ¬ Waits cl v := by
      intro hline hwaits
      rw [waits_chunks h.mode, parseChunk_piece hsmall hin (by omega)] at hwaits
      cases hwaits
    rcases hpolicy with hpolicy | ⟨other, rest, hcons, hpolicy⟩
    · have hsize := size_of_policy hpolicy
      exact hparse (by omega)
        (waits_of_rests hpolicy (by omega) (by omega) hrests)
    · obtain ⟨rfl, rfl⟩ := List.cons.inj hcons
      have hsize : v.size =
          min v.window.length (sendChunk piece).length := by
        rw [View.size, hpolicy]
        rfl
      rcases hrests with hzero | hless | hwaits
      · rw [hpolicy] at hzero
        change (sendChunk piece).length = 0 at hzero
        omega
      · rw [hpolicy] at hless
        change v.window.length < (sendChunk piece).length at hless
        omega
      · exact hparse (by omega) hwaits

/-- With all bytes in the buffer, a client that has nothing to do has passed on
the response, unless the header is too large for the buffer. -/
theorem Stage.settled (h : plan.Stage cl v) (hrests : plan.phases.Rests cl v)
    (hall : v.received = plan.stream) :
    cfg.maxResponseSize < plan.raw.length ∧ cl.responses = [] ∨
      plan.raw.length ≤ cfg.maxResponseSize ∧ cl.mode = .readHeader ∧
        cl.responses = [plan.response] ∧ v.window = plan.rest ∧
        ∀ parts size, plan.body ≠ .broken parts size := by
  have hlong := plan.long
  have hlength := v.length_bytes
  cases h with
  | header hmode _ hresps _ hpolicy hreceived =>
    by_cases hfits : cfg.maxResponseSize < plan.raw.length
    · exact .inl ⟨hfits, hresps⟩
    · exfalso
      have hwin : v.window = plan.stream := hreceived.symm.trans hall
      have hstream : plan.raw.length ≤ v.window.length := by
        rw [hwin, stream, length_append]
        omega
      have hsize := size_of_policy hpolicy
      have hwaits := waits_of_rests hpolicy (by omega) (by omega) hrests
      have hbytes : v.bytes <+: plan.stream := hwin ▸ v.bytes_start
      rw [Waits, hmode] at hwaits
      have hsome := splitHeader_long hbytes (by omega)
      cases hsome ▸ hwaits
  | payload content hbody hsome hfits hmode _ hlen _ _ hpolicy hreceived =>
    exfalso
    have hmax : content.length ≤ cfg.maxResponseSize := by
      simpa only [hbody, Body.content] using plan.framed.max
    have hpos := length_pos_iff.mpr hsome
    have hwin : v.window = content ++ plan.rest := by
      rw [hreceived, stream, hbody] at hall
      exact append_cancel_left hall
    have hfull : content.length ≤ v.window.length := by
      rw [hwin, length_append]
      omega
    have hsize := size_of_policy hpolicy
    have hwaits := waits_of_rests hpolicy (by omega) (by omega) hrests
    rw [Waits, hmode] at hwaits
    omega
  | chunks seen todo h hfits hpolicy hreceived =>
    exact absurd hrests (not_rests_chunks h hfits hpolicy hreceived hall)
  | finished hmode hfits hresps haborts hbody hreceived =>
    refine .inr ⟨hfits, hmode, hresps, ?_, hbody⟩
    rw [hreceived, stream] at hall
    exact append_cancel_left (append_cancel_left hall)

end Plan

end ActorFramework.Net.Http.Client
