import ActorFramework.Net.Http.ServerRun

/-!
# From a client to the upper layer of the server

Requests that follow each other arrive one by one if the server reads the size
of each body as a decimal number.  A number with a leading zero is taken for an
octal one.
-/

namespace ActorFramework.Net.Http.Server

open ActorFramework.Core
open Foundation List

variable {cfg : Config}

def Config.serving (cfg : Config) (upper : List Request → Reply) : Config :=
  { cfg with upper := upper }

/-- Wherever the bytes are cut, the server passes on the requests one after
another, does not abort while the socket is open, and, as long as it reads, it
has used up all bytes as soon as it has received them.  The upper layer may do
anything except to reject a request or to switch to another protocol. -/
def Serves (cfg : Config) (msgs : List Message) : Prop :=
  ∀ (upper : List Request → Reply),
    (∀ requests, (upper requests).accepted = true) →
    (∀ requests next, .switchProtocol next ∉ (upper requests).calls) →
  ∀ (first : List Byte) (events : List Event) (c : Stack Server),
    .read .wantWrite ∉ events →
    exec (Stack.step (layer (cfg.serving upper)))
      (.established cfg.policy {} first) events = some c →
    c.transport.received <+: msgs.flatMap Message.bytes →
    c.layer.requests <+: msgs.map (Message.request cfg) ∧
      (c.transport.closed = false → c.layer.aborts = []) ∧
      (∃ d, Stack.Proceeds (layer (cfg.serving upper)) c d ∧ d.Settled) ∧
      (c.Settled → c.transport.closed = false → 0 < c.transport.maxReadSize →
        c.transport.received = msgs.flatMap Message.bytes →
        c.layer.requests = msgs.map (Message.request cfg) ∧
          c.layer.mode = .readHeader ∧ c.transport.window = [])

def servingPlan {msgs : List Message}
    (hmsgs : ∀ m ∈ msgs, m.WellFormed cfg) {upper : List Request → Reply}
    (haccepts : ∀ requests, (upper requests).accepted = true)
    (hstays : ∀ requests next, .switchProtocol next ∉ (upper requests).calls) :
    Plan (cfg.serving upper) where
  msgs := msgs
  wellFormed m hm :=
    { method := (hmsgs m hm).method
      methodWord := (hmsgs m hm).methodWord
      target := (hmsgs m hm).target
      targetWord := (hmsgs m hm).targetWord
      version := (hmsgs m hm).version
      fields := (hmsgs m hm).fields
      unchunked := (hmsgs m hm).unchunked
      noLength := (hmsgs m hm).noLength
      length := (hmsgs m hm).length
      size := (hmsgs m hm).size }
  accepts := haccepts
  stays := hstays

variable {msgs : List Message}

theorem serves_of_right (hmsgs : ∀ m ∈ msgs, m.WellFormed cfg)
    (hright : ∀ m ∈ msgs, Right cfg m) : Serves cfg msgs := by
  intro upper hacc hstays first events c hevs hrun hrecv
  let plan : Plan (cfg.serving upper) := servingPlan hmsgs hacc hstays
  have hwrong : ¬ plan.Wrong := by
    rintro ⟨m, hm, hnot⟩
    exact hnot (hright m hm)
  have hdone : ∀ sv, ¬ plan.phases.Done sv := fun sv h => hwrong h.1
  have hhealth := plan.steady.exec_health hevs
    (plan.established ((Phases.first_received hrun).trans hrecv)) hrun
    hrecv
  refine ⟨?_, fun hopen => ?_, ?_, fun hset hopen hreads hall => ?_⟩
  · cases hhealth with
    | live halive => exact halive.live.2.1.requests_le
    | dead hdead => exact hdead.elim
    | gone hgone => exact hgone
    | done h => exact absurd h (hdone _)
  · exact (hhealth.alive hopen id (hdone _)).live.2.1.aborts
  · exact plan.steady.settles_safely hhealth hrecv hdone
  · have halive := hhealth.alive hopen id (hdone _)
    rcases Plan.live_settled halive.live hreads (halive.rests hset) hall
      with ⟨h, -⟩ | ⟨-, hend⟩
    · exact absurd h hwrong
    · exact hend

def taking (_ : List Request) : Reply := {}

theorem right_of_serves (hmsgs : ∀ m ∈ msgs, m.WellFormed cfg)
    (hserves : Serves cfg msgs) : ∀ m ∈ msgs, Right cfg m := by
  have hacc : ∀ requests, (taking requests).accepted = true := fun _ => rfl
  have hstays : ∀ requests next,
      .switchProtocol next ∉ (taking requests).calls := by simp [taking]
  let plan : Plan (cfg.serving taking) := servingPlan hmsgs hacc hstays
  have hinit := plan.established (prefix_refl plan.stream)
  obtain ⟨-, -, ⟨d, hproc, hset⟩, -⟩ := hserves taking hacc
    hstays plan.stream [] _ (by simp) rfl
    (Phases.received_established _ ▸ prefix_rfl)
  obtain ⟨hall, hopen, events, hevs, hrun⟩ :=
    Phases.whole_run (fun sv bytes _ => @loop_keeps _ sv.rest
      (fun sv => sv.next = none) (next_steps hstays) _ rfl bytes 0) hproc
  have hin : d.transport.received <+: plan.stream := hall ▸ prefix_rfl
  obtain ⟨hstart, haborts, -, hend⟩ := hserves taking hacc hstays _
    events d hevs hrun hin
  intro m hm
  by_contra hnot
  have hwrong : plan.Wrong := ⟨m, hm, hnot⟩
  cases plan.steady.exec_health hevs hinit hrun hin with
  | live halive =>
    obtain ⟨-, -, ⟨reading, hpol, htrue⟩, -⟩ := halive.live
    have hreads : 0 < d.transport.maxReadSize := by
      rw [htrue fun _ => rfl] at hpol
      have hmax : d.transport.maxReadSize = cfg.maxRequestSize :=
        congrArg ReceivePolicy.maxSize hpol
      rw [hmax]
      exact cfg.maxRequestSize_pos
    rcases Plan.live_settled halive.live hreads (halive.rests hset)
      hall with ⟨-, hne⟩ | ⟨hnone, -⟩
    · exact hne (hend hset hopen hreads hall).1
    · exact hnone hwrong
  | dead hdead => exact hdead
  | gone _ _ hclosed => cases hclosed ▸ hopen
  | done hdone =>
    rcases hdone.2 with hfails | hother
    · exact hfails (haborts hopen)
    · exact hother hstart

theorem right_of_toString10 {m : Message} (h : m.WellFormed cfg)
    (htext : ∀ text, findByKey (m.fields.map trimmed)
      (ascii "Content-Length") = some text → text = toString10 m.body.length)
    (hmax : m.body.length < 2 ^ 63) : Right cfg m := by
  rw [Right, Message.announced, contentLength]
  cases hfind : findByKey (m.fields.map trimmed) (ascii "Content-Length") with
  | none =>
    rw [h.noLength hfind]
    rfl
  | some text =>
    rw [Option.bind_some, htext text hfind,
      getAsUnsigned_toString10 (by omega) hmax]
    rfl

/-- Requests that follow each other arrive at the upper layer, however their
bytes are cut, if the server reads the size of each body as it was meant, and
only then. -/
theorem serves_iff (cfg : Config) (msgs : List Message)
    (hmsgs : ∀ m ∈ msgs, m.WellFormed cfg) :
    Serves cfg msgs ↔ ∀ m ∈ msgs, (m.announced cfg).getD 0 = m.body.length :=
  ⟨right_of_serves hmsgs, serves_of_right hmsgs⟩

def plainServer (maxRequestSize : Nat) (h : 0 < maxRequestSize) : Config :=
  { maxRequestSize := maxRequestSize
    maxRequestSize_pos := h
    real := fun _ => none
    makeUri := fun text => some ⟨text, false⟩
    upper := taking }

def getRequest : Message :=
  { method := ascii "GET"
    target := ascii "/"
    version := ascii "HTTP/1.1"
    fields := [(ascii "Host", ascii "localhost")]
    body := [] }

def postRequest (length body : List Byte) : Message :=
  { method := ascii "POST"
    target := ascii "/"
    version := ascii "HTTP/1.1"
    fields := [(ascii "Content-Length", length)]
    body := body }

theorem wellFormed_getRequest :
    getRequest.WellFormed (plainServer 100 (by decide)) where
  method := by decide
  methodWord := by decide
  target := by decide
  targetWord := by decide
  version := by decide
  fields := by
    simp only [getRequest, forall_mem_cons]
    exact ⟨isField_of_key (by decide) (by decide), by simp⟩
  unchunked := by decide
  noLength := fun _ => rfl
  length := by
    have hnone : findByKey (getRequest.fields.map trimmed)
        (ascii "Content-Length") = none := by decide
    simp [hnone]
  size := by decide

theorem wellFormed_postRequest {length body : List Byte}
    (hlen : 13#8 ∉ length) (htrim : trim length = length)
    (hdigits : length ≠ [] ∧ length.all (isDigit 10) = true ∧
      Message.decimal length = body.length)
    (hsize : (postRequest length body).bytes.length ≤ 100) :
    (postRequest length body).WellFormed (plainServer 100 (by decide)) where
  method := show (parseMethod (ascii "POST")).isSome by decide
  methodWord := show 32#8 ∉ ascii "POST" ∧ 13#8 ∉ ascii "POST" by decide
  target := show (parseRequestTarget (fun text => some ⟨text, false⟩)
    ((parseMethod (ascii "POST")).getD .get) (ascii "/")).isSome by decide
  targetWord := show 32#8 ∉ ascii "/" ∧ 13#8 ∉ ascii "/" by decide
  version := show 13#8 ∉ ascii "HTTP/1.1" by decide
  fields := by
    simp only [postRequest, forall_mem_cons]
    exact ⟨isField_of_key (by decide) hlen, by simp⟩
  unchunked := by
    have hother : icaseEqual (trim (ascii "Content-Length"))
        (ascii "Transfer-Encoding") = false := by decide
    simp only [postRequest, map_cons, map_nil, trimmed,
      chunkedTransferEncoding, findByKey_cons, hother]
    rfl
  noLength := by
    have hsame : icaseEqual (trim (ascii "Content-Length"))
        (ascii "Content-Length") = true := by decide
    simp [postRequest, trimmed, findByKey_cons, hsame]
  length := by
    have hsame : icaseEqual (trim (ascii "Content-Length"))
        (ascii "Content-Length") = true := by decide
    simp only [postRequest, map_cons, map_nil, trimmed,
      findByKey_cons, hsame, if_true, htrim, Option.some.injEq]
    rintro text rfl
    exact hdigits
  size := hsize

theorem serves_iff_two :
    Serves (plainServer 100 (by decide))
      [getRequest, postRequest (ascii "2") (ascii "hi")] :=
  (serves_iff _ _ (by
      simp only [List.forall_mem_cons]
      exact ⟨wellFormed_getRequest, wellFormed_postRequest (by decide)
        (by decide) (by decide) (by decide), by simp⟩)).mpr (by
      simp only [List.forall_mem_cons]
      exact ⟨by decide, by decide, by simp⟩)

/-- Ten bytes with the size `010`: the server passes on eight of them, and the
other two stay in the buffer as the beginning of the next header. -/
theorem octal_length :
    (postRequest (ascii "010") (ascii "0123456789")).WellFormed
      (plainServer 100 (by decide)) ∧
    (exec (Stack.step (layer (plainServer 100 (by decide))))
      (.established (plainServer 100 (by decide)).policy {} [])
      [.read (.data (postRequest (ascii "010")
        (ascii "0123456789")).bytes []), .consume, .consume]).map (fun c =>
          (c.layer.requests.map Request.payload, c.layer.mode,
            c.transport.looping, c.transport.window)) =
      some ([ascii "01234567"], .readHeader, false, ascii "89") :=
  ⟨wellFormed_postRequest (by decide) (by decide) (by decide) (by decide),
    by decide +kernel⟩

end ActorFramework.Net.Http.Server
