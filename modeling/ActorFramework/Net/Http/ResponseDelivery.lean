import ActorFramework.Net.Http.ClientRun

/-!
# From the writer of a response to the client

A response that was written by the functions of this repository is read by the
client if it is empty, or if it has chunks of which none is empty or very
large.  Otherwise there are bytes that the client does not take for a part of
the response.
-/

namespace ActorFramework.Net.Http.Client

open ActorFramework.Core V1
open Foundation List

variable {cfg : Config}

/-- Wherever the bytes are cut, the client passes on one response with this
payload, does not abort while the socket is open, and has used up all bytes as
soon as it has received them. -/
def Yields (cfg : Config) (bytes payload : List Byte) : Prop :=
  ∀ (first : List Byte) (events : List Event) (c : Stack Client),
    .read .wantWrite ∉ events →
    exec (Stack.step (layer cfg)) (.established cfg.policy {} first) events =
      some c →
    c.transport.received <+: bytes →
    c.layer.responses.map Response.payload <+: [payload] ∧
      (c.transport.closed = false → c.layer.aborts = []) ∧
      (∃ d, Stack.Proceeds (layer cfg) c d ∧ d.Settled) ∧
      (c.Settled → c.transport.closed = false →
        c.transport.received = bytes →
        c.layer.responses.map Response.payload = [payload] ∧
          c.layer.mode = .readHeader ∧ c.transport.window = [])

theorem yields_of_plan (plan : Plan cfg) (hrest : plan.rest = [])
    (hbody : ∀ parts size, plan.body ≠ .broken parts size)
    (hfits : plan.raw.length ≤ cfg.maxResponseSize) :
    Yields cfg plan.stream plan.body.content := by
  intro first events c hevs hrun hrecv
  have hhealth := plan.steady.exec_health hevs
    (plan.established ((Phases.first_received hrun).trans hrecv)) hrun
    hrecv
  have hdone : ∀ cl, ¬ plan.phases.Done cl := by
    rintro cl ⟨hmore | ⟨parts, size, hbroken⟩, -⟩
    · exact hmore hrest
    · exact hbody parts size hbroken
  refine ⟨?_, fun hopen => ?_, ?_, fun hset hopen hall => ?_⟩
  · cases hhealth with
    | live halive => exact halive.live.2.responses_le.map _
    | dead hdead => exact hdead.elim
    | gone hgone => exact hgone.map _
    | done h => exact absurd h (hdone _)
  · exact (hhealth.alive hopen id (hdone _)).live.2.aborts
  · exact plan.steady.settles_safely hhealth hrecv hdone
  · have halive := hhealth.alive hopen id (hdone _)
    rcases halive.live.2.settled (halive.rests hset) hall with
      ⟨hlong, -⟩ | ⟨-, hmode, hresps, hwin, -⟩
    · omega
    · exact ⟨by rw [hresps]; rfl, hmode, hwin.trans hrest⟩

/-- If the client has all bytes from the beginning, it comes to the end of the
response, and then there is more. -/
theorem not_yields (plan : Plan cfg)
    (h : cfg.maxResponseSize < plan.raw.length ∨ plan.Further)
    (payload : List Byte) : ¬ Yields cfg plan.stream payload := by
  intro hyields
  have hinit := plan.established (prefix_refl plan.stream)
  obtain ⟨-, -, ⟨d, hproc, hset⟩, -⟩ := hyields plan.stream [] _
    (by simp) rfl (Phases.received_established _ ▸ prefix_rfl)
  obtain ⟨hall, hopen, events, hevs, hrun⟩ :=
    Phases.whole_run (fun _ _ _ => rfl) hproc
  have hin : d.transport.received <+: plan.stream := hall ▸ prefix_rfl
  obtain ⟨-, haborts, -, hend⟩ := hyields _ events d hevs hrun hin
  obtain ⟨hpay, hmode, hwin⟩ := hend hset hopen hall
  have hone : d.layer.responses.length = 1 := by
    rw [← length_map, hpay]
    rfl
  have hhealth := plan.steady.exec_health hevs hinit hrun hin
  cases hhealth with
  | live halive =>
    rcases halive.live.2.settled (halive.rests hset) hall with
      ⟨-, hnone⟩ | ⟨hfits, -, -, hrest, hbody⟩
    · rw [hnone] at hone
      cases hone
    · rcases h with hlong | hmore | ⟨parts, size, hbroken⟩
      · omega
      · exact hmore (hrest.symm.trans hwin)
      · exact hbody parts size hbroken
  | dead hdead => exact hdead
  | gone _ _ hclosed => cases hclosed ▸ hopen
  | done hdone =>
    rcases hdone.2 with hfails | htwo | ⟨-, hother⟩
    · exact hfails (haborts hopen)
    · omega
    · exact hother hmode

def contentFields (contentType content : List Byte) : List Field :=
  [(ascii "Content-Type", contentType),
    (ascii "Content-Length", toString10 content.length)]

theorem isField_content {contentType : List Byte} (content : List Byte)
    (h : 13#8 ∉ contentType) :
    ∀ field ∈ contentFields contentType content, IsField field := by
  have hlen : 13#8 ∉ toString10 content.length :=
    noReturn_number 10 _ (by decide) (by decide)
  simp only [contentFields, forall_mem_cons]
  exact ⟨isField_of_key (by decide) h, isField_of_key (by decide) hlen,
    by simp⟩

theorem framed_content (contentType : List Byte) {content : List Byte}
    (code : Status) (hmax : content.length ≤ cfg.maxResponseSize)
    (hsize : content.length < 2 ^ 63) :
    (Body.payload content).Framed cfg
      (responseHeader code (contentFields contentType content)) where
  chunked := by
    have htype : icaseEqual (trim (ascii "Content-Type"))
        (ascii "Transfer-Encoding") = false := by decide
    have hlen : icaseEqual (trim (ascii "Content-Length"))
        (ascii "Transfer-Encoding") = false := by decide
    have hnone : chunkedTransferEncoding
        (responseHeader code (contentFields contentType content)).fields =
          false := by
      simp only [responseHeader, contentFields, map_cons, map_nil,
        trimmed, chunkedTransferEncoding, findByKey_cons, htype, hlen]
      rfl
    simp [hnone]
  length := by
    have htype : icaseEqual (trim (ascii "Content-Type"))
        (ascii "Content-Length") = false := by decide
    have hlen : icaseEqual (trim (ascii "Content-Length"))
        (ascii "Content-Length") = true := by decide
    rintro other heq
    obtain rfl := Body.payload.inj heq
    simp only [responseHeader, contentFields, map_cons, map_nil,
      trimmed, contentLength, findByKey_cons, htype, hlen, if_true,
      Bool.false_eq_true, if_false, Option.bind_some, toString10,
      trim_numberText (by decide : 1 < 10) (by decide : 10 ≤ 16)]
    exact getAsUnsigned_toString10 (by omega) hsize
  readable := by simp [Body.pieces]
  broken := by simp
  chunks := by simp
  max := hmax

/-- The response that the writer has in mind, and the content that it appends
once more. -/
def contentPlan (code : Status) {contentType content : List Byte}
    (htype : 13#8 ∉ contentType) (hmax : content.length ≤ cfg.maxResponseSize)
    (hsize : content.length < 2 ^ 63)
    (haccepts : ∀ responses, (cfg.upper responses).accepted = true) :
    Plan cfg where
  raw := responseText code (contentFields contentType content)
  hdr := responseHeader code (contentFields contentType content)
  body := .payload content
  rest := content
  parse := parse_responseText (isField_content content htype)
  split := splitHeader_responseText (isField_content content htype)
  long := length_responseText code _
  framed := framed_content contentType code hmax hsize
  accepts := haccepts

/-- A response that was written without additional fields arrives as it should
if it has no content and is not too large, and only then. -/
theorem writeResponse_yields_iff (cfg : Config) (code : Status)
    (contentType content : List Byte) (htype : 13#8 ∉ contentType)
    (hmax : content.length ≤ cfg.maxResponseSize)
    (hsize : content.length < 2 ^ 63)
    (haccepts : ∀ responses, (cfg.upper responses).accepted = true) :
    Yields cfg (V1.writeResponse code contentType content) content ↔
      content = [] ∧ (V1.writeResponse code contentType content).length ≤
        cfg.maxResponseSize := by
  let plan : Plan cfg := contentPlan code htype hmax hsize haccepts
  have hstream : writeResponse code contentType content = plan.stream := by
    change _ = responseText code (contentFields contentType content) ++
      (content ++ content)
    simp [writeResponse, writeResponseWith, beginResponseHeader, addHeaderField,
      responseText, headerText, statusLine, fieldLine, contentFields, eol]
  have hlen : plan.stream.length =
      plan.raw.length + (content.length + content.length) := by
    simp [plan, contentPlan, Plan.stream, Body.bytes, Body.pieces, Body.tail]
  rw [hstream]
  constructor
  · intro hyields
    have hnil : content = [] := by
      by_contra hsome
      exact not_yields plan (.inr (.inl hsome)) content hyields
    refine ⟨hnil, Nat.le_of_not_lt fun hlong => ?_⟩
    rw [hlen, hnil] at hlong
    exact not_yields plan (.inl hlong) content hyields
  · rintro ⟨hnil, hfits⟩
    exact yields_of_plan plan hnil (by simp [plan, contentPlan]) (by omega)

def reader (maxResponseSize : Nat) : Config :=
  { maxResponseSize := maxResponseSize
    real := fun _ => none
    upper := fun _ => {} }

theorem writeResponse_yields_iff_empty :
    Yields (reader 100) (V1.writeResponse 200#16 (ascii "text/plain") []) [] :=
  (writeResponse_yields_iff (reader 100) 200#16 (ascii "text/plain") []
    (by decide) (by decide) (by decide) fun _ => rfl).mpr
    ⟨rfl, by decide +kernel⟩

/-- The content is left over in the buffer of the transport. -/
theorem content_left_over :
    (exec (Stack.step (layer (reader 100)))
      (.established (reader 100).policy {} [])
      [.read (.data (V1.writeResponse 200#16 (ascii "text/plain")
        (ascii "OK")) []), .consume, .consume]).map (fun c =>
          (c.layer.responses.map Response.payload, c.layer.mode,
            c.transport.looping, c.transport.window)) =
      some ([ascii "OK"], .readHeader, false, ascii "OK") := by
  decide +kernel

def chunkedResponse (code : Status) (fields : List Field)
    (chunks : List (List Byte)) : List Byte :=
  V1.beginResponseHeader code ++ fields.flatMap V1.addHeaderField ++
    V1.endHeader ++ chunks.flatMap V1.sendChunk ++ V1.sendEndOfChunks

theorem chunkedResponse_eq (code : Status) (fields : List Field)
    (chunks : List (List Byte)) :
    chunkedResponse code fields chunks =
      responseText code fields ++
        (chunks.flatMap sendChunk ++ sendChunk []) := by
  have hend : sendEndOfChunks = sendChunk [] := by decide
  have hfields : fields.flatMap addHeaderField =
      (fields.map fieldLine).flatMap (· ++ eol) := by
    rw [flatMap_map]
    rfl
  rw [chunkedResponse, hend, hfields]
  simp [beginResponseHeader, endHeader, responseText, headerText,
    statusLine, eol]

section

variable {code : Status} {fields : List Field} {parts : List (List Byte)}
  (hchunked : chunkedTransferEncoding (fields.map trimmed) = true)
  (hparts : ∀ chunk ∈ parts, Body.Readable chunk)
  (hmax : parts.flatten.length ≤ cfg.maxResponseSize)

include hchunked hparts hmax

theorem framed_chunks :
    (Body.chunks parts).Framed cfg (responseHeader code fields) where
  chunked := by simpa [responseHeader] using hchunked
  length := by simp
  readable := by
    intro chunk hmem hsome
    rcases mem_append.mp hmem with hmem | hmem
    · exact hparts chunk hmem
    · exact absurd (mem_singleton.mp hmem) hsome
  broken := by simp
  chunks := by
    intro other heq chunk hmem
    obtain rfl := Body.chunks.inj heq
    exact (hparts chunk hmem).nonempty
  max := hmax

theorem framed_broken {size : Nat} (hsize : 16 ^ 8 ≤ size) :
    (Body.broken parts size).Framed cfg (responseHeader code fields) where
  chunked := by simpa [responseHeader] using hchunked
  length := by simp
  readable := fun chunk hmem _ => hparts chunk hmem
  broken := by
    intro other n heq
    obtain ⟨rfl, rfl⟩ := Body.broken.inj heq
    exact ⟨hsize, fun chunk hmem => (hparts chunk hmem).nonempty⟩
  chunks := by simp
  max := hmax

end

def chunksPlan (code : Status) {fields : List Field}
    (hfields : ∀ field ∈ fields, IsField field) (body : Body) (rest : List Byte)
    (hframed : body.Framed cfg (responseHeader code fields))
    (haccepts : ∀ responses, (cfg.upper responses).accepted = true) :
    Plan cfg where
  raw := responseText code fields
  hdr := responseHeader code fields
  body := body
  rest := rest
  parse := parse_responseText hfields
  split := splitHeader_responseText hfields
  long := length_responseText code fields
  framed := hframed
  accepts := haccepts

theorem not_yields_chunks {code : Status} {fields : List Field}
    {pre post : List (List Byte)} {chunk : List Byte}
    (hfields : ∀ field ∈ fields, IsField field)
    (hchunked : chunkedTransferEncoding (fields.map trimmed) = true)
    (hpre : ∀ part ∈ pre, Body.Readable part)
    (hmax : pre.flatten.length ≤ cfg.maxResponseSize)
    (hacc : ∀ responses, (cfg.upper responses).accepted = true)
    (hbad : ¬ (chunk ≠ [] ∧ chunk.length < 16 ^ 8)) (payload : List Byte) :
    ¬ Yields cfg (responseText code fields ++
      ((pre ++ chunk :: post).flatMap sendChunk ++ sendChunk []))
      payload := by
  have hsome : sendChunk [] ≠ [] := by decide
  by_cases hnil : chunk = []
  · let plan : Plan cfg := chunksPlan code hfields (.chunks pre)
      (post.flatMap sendChunk ++ sendChunk [])
      (framed_chunks hchunked hpre hmax) hacc
    have hstream : responseText code fields ++
        ((pre ++ chunk :: post).flatMap sendChunk ++ sendChunk []) =
          plan.stream := by
      simp [plan, chunksPlan, Plan.stream, Body.bytes, Body.pieces, Body.tail,
        hnil]
    rw [hstream]
    exact not_yields plan (.inr (.inl (by simp [plan, chunksPlan, hsome])))
      payload
  · have hlarge : 16 ^ 8 ≤ chunk.length :=
      Nat.le_of_not_lt fun hless => hbad ⟨hnil, hless⟩
    let plan : Plan cfg := chunksPlan code hfields (.broken pre chunk.length)
      (chunk ++ (eol ++ (post.flatMap sendChunk ++ sendChunk [])))
      (framed_broken hchunked hpre hmax hlarge) hacc
    have hstream : responseText code fields ++
        ((pre ++ chunk :: post).flatMap sendChunk ++ sendChunk []) =
          plan.stream := by
      simp [plan, chunksPlan, Plan.stream, Body.bytes, Body.pieces, Body.tail,
        sendChunk_eq chunk]
    rw [hstream]
    exact not_yields plan (.inr (.inr ⟨pre, chunk.length, rfl⟩)) payload

/-- Chunks arrive as one response with all of their bytes if none of them is
empty, none has a size of more than eight digits, and the header is not too
large, and only then. -/
theorem chunkedResponse_yields_iff (cfg : Config) (code : Status)
    (fields : List Field) (chunks : List (List Byte))
    (hfields : ∀ field ∈ fields, IsField field)
    (hchunked : chunkedTransferEncoding (fields.map trimmed) = true)
    (hmax : chunks.flatten.length ≤ cfg.maxResponseSize)
    (haccepts : ∀ responses, (cfg.upper responses).accepted = true) :
    Yields cfg (chunkedResponse code fields chunks) chunks.flatten ↔
      (∀ chunk ∈ chunks, chunk ≠ [] ∧ chunk.length < 16 ^ 8) ∧
        (responseText code fields).length ≤ cfg.maxResponseSize := by
  rw [chunkedResponse_eq]
  by_cases hall : ∀ chunk ∈ chunks, chunk ≠ [] ∧ chunk.length < 16 ^ 8
  · have hparts : ∀ chunk ∈ chunks, Body.Readable chunk := fun chunk hmem =>
      ⟨(hall chunk hmem).1, (hall chunk hmem).2⟩
    let plan : Plan cfg := chunksPlan code hfields (.chunks chunks) []
      (framed_chunks hchunked hparts hmax) haccepts
    have hstream : responseText code fields ++
        (chunks.flatMap sendChunk ++ sendChunk []) = plan.stream := by
      simp [plan, chunksPlan, Plan.stream, Body.bytes, Body.pieces, Body.tail]
    rw [hstream]
    constructor
    · intro hyields
      refine ⟨hall, Nat.le_of_not_lt fun hlong => ?_⟩
      exact not_yields plan (.inl hlong) chunks.flatten hyields
    · rintro ⟨-, hfits⟩
      exact yields_of_plan plan rfl (by simp [plan, chunksPlan]) hfits
  · refine iff_of_false ?_ (fun h => hall h.1)
    obtain ⟨pre, chunk, post, rfl, hpre, hbad⟩ := exists_first hall
    refine not_yields_chunks hfields hchunked (fun part hmem =>
      ⟨(hpre part hmem).1, (hpre part hmem).2⟩) ?_ haccepts hbad _
    simp only [List.flatten_append, List.length_append] at hmax
    omega

theorem chunkedResponse_yields_iff_two :
    Yields (reader 100) (chunkedResponse 200#16
        [(ascii "Transfer-Encoding", ascii "chunked")]
        [ascii "Hello", ascii "World"])
      (ascii "HelloWorld") :=
  (chunkedResponse_yields_iff _ _ _ _
    (by simpa using isField_of_key (by decide) (by decide))
    (by decide) (by decide) fun _ => rfl).mpr
    ⟨by decide, by decide +kernel⟩

/-- An empty chunk ends the response, and the client takes what follows for a
header. -/
theorem empty_chunk_ends_response :
    (exec (Stack.step (layer (reader 100)))
      (.established (reader 100).policy {} [])
      [.read (.data (chunkedResponse 200#16
        [(ascii "Transfer-Encoding", ascii "chunked")]
        [ascii "Hello", [], ascii "World"]) []), .consume, .consume,
        .consume]).map (fun c =>
          (c.layer.responses.map Response.payload, c.layer.aborts)) =
      some ([ascii "Hello"],
        [⟨.protocolError, "Invalid HTTP version."⟩,
          ⟨.runtimeError, "consumed < 0"⟩]) := by
  decide +kernel

end ActorFramework.Net.Http.Client
