import ActorFramework.Net.WebSocket.Decoding

/-!
# Runs of the framing

The peer sends frames, and the bytes arrive in any portions.  At each point of
a run the framing has read some of the frames, and it is either about to read
the header of the next one or in the middle of its payload.
-/

namespace ActorFramework.Net.WebSocket

open ActorFramework.Core (Byte)
open View (waited bytes taken size delta)
open Foundation List
open Net.Rfc6455

/-- The peer sends frames and then any bytes.  The upper layer accepts the
messages, except for the last one if there is a goal: a run is of no interest
after these messages were passed on. -/
structure Plan (cfg : Config) where
  frames : List Frame
  rest : List Byte
  goal : Option (List Message)
  framed : Framed cfg {} frames
  accepts : ∀ msgs, msgs <+: (meaning cfg frames).messages → msgs ≠ [] →
    goal ≠ some msgs → (cfg.upper msgs).accepted = true
  ends : rest ≠ [] → (meaning cfg frames).broken = true ∨
    goal = some (meaning cfg frames).messages

variable {cfg : Config} {f : Framing} {v : View}

namespace Plan

def stream (plan : Plan cfg) : List Byte := wire plan.frames ++ plan.rest

structure Goes (plan : Plan cfg) (gs todo : List Frame) : Prop where
  frames : plan.frames = gs ++ todo
  whole : (meaning cfg gs).broken = false
  goal : plan.goal ≠ some (meaning cfg gs).messages

inductive Stage (plan : Plan cfg) (f : Framing) (v : View) : Prop where
  | header (gs todo : List Frame) (hgoes : plan.Goes gs todo)
      (hhdr : f.hdr = none) (hreads : Reads f (meaning cfg gs))
      (hpolicy : v.policy = defaultReceivePolicy)
      (hreceived : v.received = wire gs ++ v.window)
  | payload (gs : List Frame) (g : Frame) (todo : List Frame)
      (hgoes : plan.Goes gs (g :: todo)) (hhdr : f.hdr = some g.header)
      (hseen : Seen f (meaning cfg gs) g v.offset)
      (hpos : 0 < g.payload.length)
      (htext : Textual (meaning cfg gs) g → v.policy = .upTo g.payload.length)
      (hother : ¬ Textual (meaning cfg gs) g →
        v.policy = .exactly g.payload.length)
      (raw : List Byte)
      (hreceived : v.received = wire gs ++ (g.headerBytes ++ raw))
      (hraw : v.offset ≤ raw.length) (hoffset : v.offset ≤ g.payload.length)
      (hwindow : v.window = g.payload.take v.offset ++ raw.drop v.offset)

def Waits (f : Framing) (v : View) : Prop :=
  match f.hdr with
  | none => decodeHeader v.window = .wait
  | some hdr => v.window.length < hdr.payloadLen

def phases (plan : Plan cfg) : Phases Framing where
  stream := plan.stream
  Live f v := v.received <+: plan.stream ∧ plan.Stage f v
  Waiting := Waits
  Dead f := f.outputs = (meaning cfg plan.frames).outputs ∧
    (meaning cfg plan.frames).broken = true ∧
    f.aborts.head? = some invalidUtf8
  Gone f := f.outputs <+: (meaning cfg plan.frames).outputs ∧
    ((meaning cfg plan.frames).broken = false → f.aborts.length = 1)
  Done f := ∃ msgs, plan.goal = some msgs ∧ msgs <+: f.messages

variable {plan : Plan cfg} {gs todo : List Frame} {g : Frame}

theorem wire_append (gs todo : List Frame) :
    wire (gs ++ todo) = wire gs ++ wire todo := by
  simp [wire]

theorem wire_cons (g : Frame) (todo : List Frame) :
    wire (g :: todo) = g.headerBytes ++ (g.sent ++ wire todo) := by
  simp [wire, Frame.encode]

theorem wire_concat (gs : List Frame) (g : Frame) :
    wire (gs ++ [g]) = wire gs ++ (g.headerBytes ++ g.sent) := by
  simp [wire, Frame.encode]

theorem Stage.read (h : plan.Stage f v) (chunk : List Byte) :
    plan.Stage f (v.read chunk) := by
  cases h with
  | header gs todo hgoes hhdr hreads hpol hrecv =>
    refine .header gs todo hgoes hhdr hreads hpol ?_
    simp [View.read, hrecv]
  | payload gs g todo hgoes hhdr hseen hpos htext hother raw hrecv hraw
      hoff hwin =>
      refine .payload gs g todo hgoes hhdr hseen hpos htext hother
        (raw ++ chunk) ?_ ?_ hoff ?_
      · simp [View.read, hrecv]
      · simp only [View.read, length_append]
        omega
      · simp [View.read, hwin, drop_append_of_le_length hraw]

theorem Goes.allowed (h : plan.Goes gs (g :: todo)) :
    Allowed (meaning cfg gs) g := by
  have hframed := plan.framed
  rw [h.frames] at hframed
  exact (framed_append hframed).1

theorem Goes.tidy (h : plan.Goes gs todo) : Tidy (meaning cfg gs) := by
  have hframed := plan.framed
  rw [h.frames] at hframed
  exact tidy_meaning hframed

theorem Goes.outputs (h : plan.Goes gs todo) :
    (meaning cfg gs).outputs <+: (meaning cfg plan.frames).outputs := by
  rw [h.frames]
  exact (meaning_outputs gs todo).1

theorem Stage.outputs (h : plan.Stage f v) :
    f.outputs <+: (meaning cfg plan.frames).outputs ∧ f.aborts = [] := by
  cases h with
  | header gs todo hgoes _ hreads =>
    rw [hreads.outputs]
    exact ⟨hgoes.outputs, hreads.aborts⟩
  | payload gs g todo hgoes _ hseen =>
    rcases hseen with ⟨-, hpart⟩ | ⟨-, -, hreads⟩
    · rw [hpart.outputs]
      exact ⟨hgoes.outputs, hpart.aborts⟩
    · rw [hreads.outputs]
      exact ⟨hgoes.outputs, hreads.aborts⟩

theorem abort_outputs (f : Framing) (reason : Error) :
    ((framing cfg).abort f reason).1.outputs = f.outputs ∧
      ((framing cfg).abort f reason).1.aborts = f.aborts ++ [reason] :=
  ⟨rfl, rfl⟩

theorem messages_abort (f : Framing) (reason : Option Error) :
    ((framing cfg).aborted f reason).1.messages = f.messages := by
  cases reason <;> rfl

variable {out : Outcome} {bytes raw more : List Byte} {m : Meaning}

theorem goes_of_ends (hgoes : plan.Goes gs (g :: todo))
    (hstream : v.received <+: plan.stream) {a : Answer Framing}
    (ha : (framing cfg).consume f v.bytes v.delta = a)
    (hends : Ends cfg ((meaning cfg gs).frame cfg g) g.payload.length out)
    (hstate : a.state = out.framing.rest)
    (hcalls : a.calls = out.framing.calls) (hnext : a.next = none)
    (hwrit : a.written.length = v.size)
    (hneg : out.consumed = -1 → a.consumed < 0)
    (hpos : out.consumed = g.payload.length → 0 < a.consumed ∧
      a.consumed.toNat ≤ v.size ∧ v.received = wire (gs ++ [g]) ++
        (v.taken a.written a.consumed.toNat defaultReceivePolicy).window) :
    plan.phases.Goes (framing cfg) f v := by
  have hmeaning := @meaning_append cfg gs g
  have hframes : plan.frames = gs ++ [g] ++ todo := by
    rw [hgoes.frames, append_assoc]
    rfl
  have hall := @meaning_outputs cfg (gs ++ [g]) todo
  rw [← hframes, hmeaning] at hall
  cases hends with
  | reads hreads hwhole hhdr hlast hconsumed =>
    obtain ⟨htook, hfits, hrecv⟩ := hpos hconsumed
    by_cases hgoal : plan.goal = some (meaning cfg (gs ++ [g])).messages
    · refine .done a ha hwrit ⟨_, hgoal, ?_⟩
      rw [messages_abort, hstate, hmeaning]
      simp only [Framing.messages, Framing.rest, hreads.outputs,
        Meaning.messages]
      exact prefix_refl _
    · obtain ⟨calls, hlast⟩ := hlast
      refine .takes a ha hnext hwrit htook hfits defaultReceivePolicy ?_
        ⟨hstream, .header (gs ++ [g]) todo ⟨hframes, ?_, hgoal⟩ ?_ ?_ rfl
          hrecv⟩
      · rw [hcalls, hlast]
        exact .last calls _
      · rw [hmeaning]
        exact hwhole
      · rw [hstate]
        exact hhdr
      · rw [hstate, hmeaning]
        exact { hreads with }
  | rejected houts hwhole hsome hreply hconsumed =>
    have hmsgs : ((meaning cfg gs).frame cfg g).messages <+:
        (meaning cfg plan.frames).messages := hall.1.filterMap _
    have hgoal : plan.goal = some ((meaning cfg gs).frame cfg g).messages := by
      by_contra hnot
      rw [plan.accepts _ hmsgs hsome hnot] at hreply
      cases hreply
    refine .done a ha hwrit ⟨_, hgoal, ?_⟩
    rw [messages_abort, hstate]
    simp only [Framing.messages, Framing.rest, houts, Meaning.messages]
    exact prefix_refl _
  | breaks hbroken houts haborts hstop hconsumed =>
    obtain ⟨hbroken', houts'⟩ := hall.2 hbroken
    refine .fails a ha hwrit (hneg hconsumed) ?_ ?_
    · rw [hcalls]
      exact hstop
    · intro reason
      obtain ⟨hsame, hlist⟩ := @abort_outputs cfg a.state reason
      refine ⟨?_, hbroken', ?_⟩
      · rw [hsame, hstate]
        exact houts.trans houts'.symm
      · rw [hlist, hstate]
        change (out.framing.aborts ++ [reason]).head? = _
        rw [haborts]
        rfl

theorem Goes.window (h : plan.Goes gs todo)
    (hstream : wire gs ++ bytes <+: plan.stream) :
    bytes <+: wire todo ++ plan.rest := by
  rw [stream, h.frames, wire_append, append_assoc] at hstream
  exact (prefix_append_right_inj _).mp hstream

theorem Goes.rest_eq_nil (h : plan.Goes gs []) : plan.rest = [] := by
  have hframes : plan.frames = gs := h.frames.trans (append_nil gs)
  by_contra hrest
  have hends := plan.ends hrest
  rw [hframes, h.whole] at hends
  rcases hends with hbroken | hgoal
  · cases hbroken
  · exact h.goal hgoal

theorem validateHeader_none (hm : Reads f (meaning cfg gs))
    (hg : Allowed (meaning cfg gs) g) :
    { f with hdr := some g.header }.validateHeader g.header
      g.headerBytes.length = none := by
  unfold Framing.validateHeader
  have hop : g.header.opcode = g.opcode := rfl
  have hsize : g.header.payloadLen = g.payload.length := rfl
  have hfin : g.header.fin = g.fin := rfl
  rw [hop, hsize, hfin]
  cases hctrl : isControlFrame g.opcode with
  | true =>
    obtain ⟨hlen, hone, -⟩ := hg.control hctrl
    simp [hone, hlen]
  | false =>
    obtain ⟨hlen, hall, hcont⟩ := hg.data hctrl
    simp only [hm.payloadBuf, hm.opcode, Bool.false_eq_true, if_false]
    rw [if_neg (by omega), if_neg (by omega), if_neg, if_neg]
    · rintro ⟨hop, hnone⟩
      exact hcont.mp hop hnone
    · rintro ⟨hop, hsome⟩
      exact hop (hcont.mpr hsome)

theorem payloadPolicy_eq (hm : Reads f (meaning cfg gs))
    (hg : Allowed (meaning cfg gs) g) :
    (Textual (meaning cfg gs) g →
        f.payloadPolicy g.header = .upTo g.payload.length) ∧
      (¬ Textual (meaning cfg gs) g →
        f.payloadPolicy g.header = .exactly g.payload.length) := by
  have htest : (g.opcode = .text ∨
      g.opcode = .continuation ∧ f.opcode = some .text) ↔
        Textual (meaning cfg gs) g := by
    rw [hm.opcode]
    constructor
    · rintro (hop | ⟨hop, hsome⟩)
      · have hdata : isControlFrame g.opcode = false := by
          rw [hop]
          rfl
        have hnone : (meaning cfg gs).opcode = none := by
          by_contra hsome
          rw [(hg.data hdata).2.2.mpr hsome] at hop
          cases hop
        exact ⟨hdata, by simp [hnone, hop]⟩
      · exact ⟨by rw [hop]; rfl, by simp [hsome]⟩
    · intro htext
      cases hsome : (meaning cfg gs).opcode with
      | none => exact .inl ((opcode_text_iff hg htext).mpr hsome)
      | some opcode =>
        have hget := htext.2
        rw [hsome, Option.getD_some] at hget
        refine .inr ⟨(hg.data htext.1).2.2.mpr (by simp [hsome]), ?_⟩
        rw [hget]
  have hpol : f.payloadPolicy g.header =
      if g.opcode = .text ∨ g.opcode = .continuation ∧ f.opcode = some .text
      then .upTo g.payload.length else .exactly g.payload.length := rfl
  rw [hpol]
  exact ⟨fun htext => if_pos (htest.mpr htext),
    fun hother => if_neg (mt htest.mp hother)⟩

def opened (f : Framing) (g : Frame) : Framing :=
  { f with hdr := some g.header }.lower
    (.configureRead (f.payloadPolicy g.header))

theorem consume_header (hhdr : f.hdr = none) (hreads : Reads f (meaning cfg gs))
    (hg : Allowed (meaning cfg gs) g) (more delta : List Byte) :
    f.consume cfg (g.headerBytes ++ more) delta =
      if g.payload.length = 0 then
        ⟨((opened f g).consumePayload cfg g.header [] []).framing,
          g.headerBytes ++ more,
          if ((opened f g).consumePayload cfg g.header [] []).consumed < 0
          then -1 else g.headerBytes.length⟩
      else ⟨opened f g, g.headerBytes ++ more, g.headerBytes.length⟩ := by
  have hpos : ¬ (g.headerBytes.length : Int) ≤ 0 := by
    have hpos := g.headerBytes_pos
    omega
  have hres : f.consumeHeader cfg (g.headerBytes ++ more) =
      (opened f g, (g.headerBytes.length : Int)) := by
    unfold Framing.consumeHeader
    simp only [decodeHeader_encode hg.fits, validateHeader_none hreads hg]
    rfl
  have hsome : (opened f g).hdr = some g.header := rfl
  unfold Framing.consume
  simp only [hhdr, hres, if_neg hpos, hsome]
  rfl

theorem reads_rest (h : Reads f m) : Reads f.rest m :=
  { h with }

theorem seen_rest {d : Nat} (h : Seen f m g d) : Seen f.rest m g d := by
  rcases h with ⟨htext, h⟩ | ⟨hother, hd, h⟩
  · exact .inl ⟨htext, h.opcode, h.payloadBuf, h.checked, h.outputs, h.drawn,
      h.aborts⟩
  · exact .inr ⟨hother, hd, reads_rest h⟩

theorem reads_opened (h : Reads f m) (g : Frame) : Reads (opened f g) m :=
  { h with }

theorem consume_answer {delta : List Byte}
    (h : f.rest.consume cfg bytes delta = out) :
    (framing cfg).consume f bytes delta =
      { state := out.framing.rest
        calls := out.framing.calls
        written := out.written
        consumed := out.consumed } := by
  rw [← h]
  rfl

theorem waits_header (hgoes : plan.Goes gs (g :: todo))
    (hstream : v.received <+: plan.stream) (hhdr : f.hdr = none)
    (hreads : Reads f (meaning cfg gs)) (hpol : v.policy = defaultReceivePolicy)
    (hrecv : v.received = wire gs ++ v.window) (hbytes : v.bytes = v.window)
    (hwait : decodeHeader v.window = .wait) :
    plan.phases.Goes (framing cfg) f v := by
  have hsame := (congrArg (· ++ v.window.drop v.size) hbytes.symm).trans
      (take_append_drop v.size v.window)
  have hout : f.rest.consume cfg v.bytes v.delta = ⟨f.rest, v.window, 0⟩ := by
    rw [hbytes]
    have hres : f.rest.consumeHeader cfg v.window = (f.rest, 0) := by
      unfold Framing.consumeHeader
      rw [hwait]
    have hnone : f.rest.hdr = none := hhdr
    unfold Framing.consume
    simp [hnone, hres]
  refine .waits _ (consume_answer hout) rfl ?_ rfl rfl ⟨hstream, ?_⟩ ?_
  · exact (congrArg List.length hbytes).symm.trans v.length_bytes
  · refine .header gs (g :: todo) hgoes hhdr (reads_rest (reads_rest hreads))
      hpol ?_
    simp only [waited, hsame]
    exact hrecv
  · change Waits f.rest.rest _
    simp only [Waits, Framing.rest, hhdr, waited, hsame]
    exact hwait

theorem takes_header (hgoes : plan.Goes gs (g :: todo))
    (hstream : v.received <+: plan.stream) (hhdr : f.hdr = none)
    (hreads : Reads f (meaning cfg gs))
    (hrecv : v.received = wire gs ++ v.window)
    (hwin : v.window = g.headerBytes ++ raw)
    (hbytes : v.bytes = g.headerBytes ++ more) :
    plan.phases.Goes (framing cfg) f v := by
  have hg := hgoes.allowed
  have hsize : v.bytes.length = v.size :=
    v.length_bytes
  have hfits : g.headerBytes.length ≤ v.size := by
    rw [← hsize, hbytes, length_append]
    omega
  have hleft : (v.bytes ++ v.window.drop v.size).drop g.headerBytes.length =
      raw := by
    rw [bytes, take_append_drop, hwin, drop_left]
  have hpos := g.headerBytes_pos
  have hout := @consume_header cfg f.rest gs g hhdr (reads_rest hreads) hg
    more v.delta
  rw [← hbytes] at hout
  by_cases hzero : g.payload.length = 0
  · rw [if_pos hzero] at hout
    have hnil : g.sent = [] := by
      rw [← length_eq_zero_iff, g.length_sent, hzero]
    have hseen := seen_zero hgoes.tidy g (reads_opened (reads_rest hreads) g)
    have hends := @ends_consumePayload cfg _ _ g 0 hgoes.tidy hg hgoes.whole
      hseen (Nat.zero_le _)
    rw [hnil, take_zero, drop_nil, append_nil] at hends
    refine goes_of_ends hgoes hstream (consume_answer hout) hends rfl rfl rfl
      hsize ?_ ?_
    · intro hneg
      simp [hneg]
    · intro hdone
      have hnonneg : ¬ ((opened f.rest g).consumePayload cfg g.header
          [] []).consumed < 0 := by omega
      simp only [if_neg hnonneg, Int.toNat_natCast, taken, hleft,
        wire_concat, hnil, append_nil]
      refine ⟨by omega, hfits, ?_⟩
      rw [hrecv, hwin, append_assoc]
  · rw [if_neg hzero] at hout
    obtain ⟨htext, hother⟩ := payloadPolicy_eq hreads hg
    refine .takes _ (consume_answer hout) rfl hsize (by simpa using hpos)
      (by simpa using hfits) (f.payloadPolicy g.header) (.last [] _)
      ⟨hstream, .payload gs g todo hgoes rfl ?_ (Nat.pos_of_ne_zero hzero)
        htext hother raw ?_ (Nat.zero_le _) (Nat.zero_le _) ?_⟩
    · exact seen_zero hgoes.tidy g
        (reads_rest (reads_opened (reads_rest hreads) g))
    · simp only [taken]
      rw [hrecv, hwin]
    · simp [taken, hleft]

theorem goes_header (hgoes : plan.Goes gs todo)
    (hstream : v.received <+: plan.stream) (hhdr : f.hdr = none)
    (hreads : Reads f (meaning cfg gs)) (hpol : v.policy = defaultReceivePolicy)
    (hrecv : v.received = wire gs ++ v.window) (hready : v.Ready) :
    plan.phases.Goes (framing cfg) f v := by
  have hwin := hgoes.window (hrecv ▸ hstream)
  have hsize : v.size = min v.window.length 2048 := by
    rw [size, hpol]
    rfl
  cases todo with
  | nil =>
    have hmin := hready.2
    rw [hgoes.rest_eq_nil] at hwin
    have hnil := prefix_nil.mp hwin
    rw [hnil, hpol] at hmin
    cases hmin
  | cons g todo =>
    have hheader := g.length_headerBytes_le
    rw [wire_cons, append_assoc] at hwin
    by_cases hshort : v.window.length < g.headerBytes.length
    · have hstart : v.window <+: g.headerBytes :=
        prefix_of_prefix_length_le hwin (prefix_append _ _)
          (Nat.le_of_lt hshort)
      refine waits_header hgoes hstream hhdr hreads hpol hrecv ?_
        (decodeHeader_wait hgoes.allowed.fits hstart hshort)
      rw [bytes, hsize, Nat.min_eq_left (by omega), take_length]
    · obtain ⟨raw, hraw⟩ : g.headerBytes <+: v.window :=
        prefix_of_prefix_length_le (prefix_append _ _) hwin
          (by omega)
      refine @takes_header cfg f v plan gs todo g raw
        (raw.take (v.size - g.headerBytes.length)) hgoes hstream hhdr hreads
        hrecv hraw.symm ?_
      rw [bytes, ← hraw, take_append, take_of_length_le]
      rw [hsize, ← hraw, length_append]
      omega

theorem consume_payload (hhdr : f.hdr = some g.header)
    (bytes delta : List Byte) :
    f.consume cfg bytes delta = f.consumePayload cfg g.header bytes delta := by
  unfold Framing.consume
  rw [hhdr]

section

variable (hgoes : plan.Goes gs (g :: todo))
  (hstream : v.received <+: plan.stream) (hhdr : f.hdr = some g.header)
include hgoes hstream hhdr

theorem takes_payload (hseen : Seen f (meaning cfg gs) g v.offset)
    (hpos : 0 < g.payload.length)
    (hrecv : v.received = wire gs ++ (g.headerBytes ++ (g.sent ++ more)))
    (hoff : v.offset ≤ g.payload.length)
    (hwin : v.window = g.payload.take v.offset ++ (g.sent ++ more).drop
      v.offset) (hsize : v.size = g.payload.length) :
    plan.phases.Goes (framing cfg) f v := by
  have htake := length_take_of_le hoff
  have hsplit : v.window =
      (g.payload.take v.offset ++ g.sent.drop v.offset) ++ more := by
    rw [hwin, drop_append_of_le_length (by simpa using hoff), append_assoc]
  have hlen : (g.payload.take v.offset ++ g.sent.drop v.offset).length =
      g.payload.length := by
    simp only [length_append, htake, length_drop, g.length_sent]
    omega
  have hbytes : v.bytes = g.payload.take v.offset ++ g.sent.drop v.offset := by
    rw [bytes, hsize, hsplit, take_left' hlen]
  have hdelta : v.delta = g.sent.drop v.offset := by
    rw [delta, hbytes, drop_left' htake]
  have hout := @consume_payload cfg f.rest g hhdr v.bytes v.delta
  have hends := @ends_consumePayload cfg f.rest _ g _ hgoes.tidy
    hgoes.allowed hgoes.whole (seen_rest hseen) hoff
  have hwrit := @length_written_consumePayload cfg f.rest g.header v.bytes
    v.delta
  rw [← hbytes, ← hdelta] at hends
  rw [hbytes, hlen, ← hsize] at hwrit
  rw [← hbytes] at hwrit
  refine goes_of_ends hgoes hstream (consume_answer hout) hends rfl rfl rfl
    hwrit ?_ ?_
  · intro hneg
    simp only [hneg]
    decide
  · intro hdone
    simp only [hdone, Int.toNat_natCast]
    refine ⟨by omega, Nat.le_of_eq hsize.symm, ?_⟩
    simp only [taken]
    rw [hsize] at hwrit ⊢
    rw [drop_left' hwrit, hsplit, drop_left' hlen, hrecv, wire_concat]
    simp

theorem waits_payload (htext : Textual (meaning cfg gs) g)
    (hpart : Partway f (meaning cfg gs) g v.offset)
    (hpos : 0 < g.payload.length) (hpol : v.policy = .upTo g.payload.length)
    (hrecv : v.received = wire gs ++ (g.headerBytes ++ raw))
    (hraw : v.offset ≤ raw.length)
    (hwin : v.window = g.payload.take v.offset ++ raw.drop v.offset)
    (hsent : raw <+: g.sent) (hshort : raw.length < g.payload.length) :
    plan.phases.Goes (framing cfg) f v := by
  have htake : (g.payload.take v.offset).length = v.offset :=
    length_take_of_le (by omega)
  have hlen : v.window.length = raw.length := by
    rw [hwin, length_append, htake, length_drop]
    omega
  have hsize : v.size = raw.length := by
    rw [size, hlen, hpol]
    exact Nat.min_eq_left (Nat.le_of_lt hshort)
  have hbytes : v.bytes = v.window := by
    rw [bytes, hsize, ← hlen, take_length]
  have hdelta : v.delta = raw.drop v.offset := by
    rw [delta, hbytes, hwin, drop_left' htake]
  have hpart' : Partway f.rest (meaning cfg gs) g v.offset :=
    { hpart with }
  have hout := @consume_payload cfg f.rest g hhdr v.bytes v.delta
  have hwrit := @length_written_consumePayload cfg f.rest g.header v.bytes
    v.delta
  have hcases := @consumePayload_partway cfg f.rest _ g _ raw hgoes.tidy
    hgoes.allowed htext hpart' hsent hraw hshort
  rw [← hwin, ← hbytes, ← hdelta] at hcases
  have hwrit : (f.rest.consumePayload cfg g.header v.bytes
      v.delta).written.length = v.size := by
    rw [hwrit, hbytes, hlen, hsize]
  rcases hcases with ⟨hends, hneg⟩ | ⟨hnow, hhdr', hcalls, hleft, hzero⟩
  · refine goes_of_ends hgoes hstream (consume_answer hout) hends rfl rfl rfl
      hwrit ?_ ?_
    · intro _
      simp only [hneg]
      decide
    · intro hdone
      omega
  · have hwin' : (v.waited (f.rest.consumePayload cfg g.header v.bytes
        v.delta).written v.policy).window =
          g.payload.take raw.length ++ raw.drop raw.length := by
      simp only [waited, hleft, hsize, ← hlen, drop_length]
      rw [hlen, drop_length]
    refine .waits _ (consume_answer hout) rfl hwrit hzero hcalls
      ⟨hstream, .payload gs g todo hgoes (hhdr'.trans hhdr) ?_ hpos
        (fun _ => hpol) (absurd htext) raw hrecv
        (Nat.le_of_eq hsize) (by simp only [waited]; omega) ?_⟩ ?_
    · refine .inl ⟨htext, ?_⟩
      simp only [waited, hsize]
      exact { hnow with }
    · refine hwin'.trans ?_
      simp [waited, hsize]
    · have hsome : (f.rest.consumePayload cfg g.header v.bytes
          v.delta).framing.rest.hdr = some g.header := hhdr'.trans hhdr
      change Waits _ _
      simp only [Waits, hsome]
      rw [hwin', drop_length, append_nil,
        length_take_of_le (Nat.le_of_lt hshort)]
      exact hshort

theorem goes_payload (hseen : Seen f (meaning cfg gs) g v.offset)
    (hpos : 0 < g.payload.length)
    (htext : Textual (meaning cfg gs) g → v.policy = .upTo g.payload.length)
    (hother : ¬ Textual (meaning cfg gs) g → v.policy = .exactly
      g.payload.length) (hrecv : v.received = wire gs ++ (g.headerBytes ++ raw))
    (hraw : v.offset ≤ raw.length) (hoff : v.offset ≤ g.payload.length)
    (hwin : v.window = g.payload.take v.offset ++ raw.drop v.offset)
    (hready : v.Ready) : plan.phases.Goes (framing cfg) f v := by
  have hmax : v.policy.maxSize = g.payload.length := by
    by_cases h : Textual (meaning cfg gs) g
    · rw [htext h]
      rfl
    · rw [hother h]
      rfl
  have hlen : v.window.length = raw.length := by
    rw [hwin, length_append, length_take_of_le hoff, length_drop]
    omega
  have hsent := hgoes.window (hrecv ▸ hstream)
  rw [wire_cons, append_assoc, append_assoc] at hsent
  have hsent := (prefix_append_right_inj _).mp hsent
  by_cases hshort : raw.length < g.payload.length
  · have htextual : Textual (meaning cfg gs) g := by
      by_contra h
      have hmin := hready.2
      rw [hother h, hlen] at hmin
      exact absurd hmin (Nat.not_le.mpr hshort)
    obtain hpart : Partway f (meaning cfg gs) g v.offset := by
      rcases hseen with ⟨-, hpart⟩ | ⟨h, -⟩
      · exact hpart
      · exact absurd htextual h
    exact waits_payload hgoes hstream hhdr htextual hpart hpos (htext htextual)
      hrecv hraw hwin (prefix_of_prefix_length_le hsent
        (prefix_append _ _) (by rw [g.length_sent]; omega)) hshort
  · obtain ⟨more, rfl⟩ : g.sent <+: raw :=
      prefix_of_prefix_length_le (prefix_append _ _) hsent
        (by simpa using hshort)
    refine takes_payload hgoes hstream hhdr hseen hpos hrecv hoff
      hwin ?_
    rw [size, hlen, hmax, length_append, g.length_sent]
    omega

end

theorem steady (plan : Plan cfg) : plan.phases.Steady (framing cfg) where
  read := fun chunk hlive hstream => ⟨hstream, hlive.2.read chunk⟩
  consume := by
    rintro f v ⟨hstream, hstage⟩ hready
    cases hstage with
    | header gs todo hgoes hhdr hreads hpol hrecv =>
      exact goes_header hgoes hstream hhdr hreads hpol hrecv hready
    | payload gs g todo hgoes hhdr hseen hpos htext hother raw hrecv hraw
        hoff hwin =>
        exact goes_payload hgoes hstream hhdr hseen hpos htext hother
          hrecv hraw hoff hwin hready
  plain := plain_abort cfg
  abort := by
    rintro f v reason ⟨-, hstage⟩
    obtain ⟨houts, haborts⟩ := hstage.outputs
    have hsame := @abort_outputs cfg f reason
    refine ⟨by rwa [hsame.1], fun _ => ?_⟩
    rw [hsame.2, haborts]
    rfl
  abortDead := by
    rintro f reason ⟨houts, hbroken, -⟩
    have hsame := (@abort_outputs cfg f reason).1.trans houts
    refine ⟨⟨[], (append_nil _).trans hsame⟩, fun hwhole => ?_⟩
    cases hbroken ▸ hwhole
  abortDone := by
    rintro f reason ⟨msgs, hgoal, hstart⟩
    exact ⟨msgs, hgoal, hstart⟩
  consumeDone := by
    rintro f bytes delta ⟨msgs, hgoal, hstart⟩
    refine ⟨msgs, hgoal, hstart.trans ?_⟩
    exact messages_consume f.rest bytes delta

theorem established (plan : Plan cfg) (hgoal : plan.goal ≠ some [])
    {first : List Byte} (hfirst : first <+: plan.stream) :
    plan.phases.Health (.established defaultReceivePolicy {} first) := by
  have hgoes : plan.Goes [] plan.frames := ⟨rfl, rfl, hgoal⟩
  refine Phases.health_established ⟨hfirst, ?_⟩ (by decide)
  exact .header [] plan.frames hgoes rfl ⟨rfl, rfl, rfl, rfl, rfl, rfl⟩ rfl rfl

theorem Stage.maxSize_pos (h : plan.Stage f v) : 0 < v.policy.maxSize := by
  cases h with
  | header _ _ _ _ _ hpol _ =>
    rw [hpol]
    decide
  | payload gs g _ _ _ _ hpos htext hother =>
    by_cases h : Textual (meaning cfg gs) g
    · rw [htext h]
      exact hpos
    · rw [hother h]
      exact hpos

theorem Stage.finished (h : plan.Stage f v)
    (hrests : plan.phases.Rests f v) (hall : wire plan.frames <+: v.received) :
    plan.Goes plan.frames [] ∧
      f.outputs = (meaning cfg plan.frames).outputs := by
  have hpos := h.maxSize_pos
  cases h with
  | header gs todo hgoes hhdr hreads hpol hrecv =>
    rw [hgoes.frames, wire_append, hrecv] at hall
    have hall := (prefix_append_right_inj _).mp hall
    cases todo with
    | nil =>
      have hframes : plan.frames = gs :=
        hgoes.frames.trans (append_nil gs)
      rw [hframes]
      exact ⟨hgoes, hreads.outputs⟩
    | cons g todo =>
      obtain ⟨more, hmore⟩ := hall
      rw [wire_cons, append_assoc] at hmore
      have hlength := congrArg List.length hmore
      have hheader := g.headerBytes_pos
      rw [length_append] at hlength
      rcases hrests with hzero | hshort | hwaits
      · omega
      · rw [hpol] at hshort
        have hmin : defaultReceivePolicy.minSize = 1 := rfl
        omega
      · change Waits f v at hwaits
        simp only [Waits, hhdr, ← hmore,
          decodeHeader_encode hgoes.allowed.fits] at hwaits
        cases hwaits
  | payload gs g todo hgoes hhdr hseen hlen htext hother raw hrecv hraw
      hoff hwin =>
      rw [hgoes.frames, wire_append, hrecv, wire_cons] at hall
      have hall := (prefix_append_right_inj _).mp
        ((prefix_append_right_inj _).mp hall)
      have hlength := hall.length_le
      have hsize : v.window.length = raw.length := by
        rw [hwin, length_append, length_take_of_le hoff, length_drop]
        omega
      rw [length_append, g.length_sent] at hlength
      rcases hrests with hzero | hshort | hwaits
      · omega
      · by_cases h : Textual (meaning cfg gs) g
        · rw [htext h] at hshort
          have hmin : (ReceivePolicy.upTo g.payload.length).minSize = 1 := rfl
          omega
        · rw [hother h] at hshort
          have hmin : (ReceivePolicy.exactly g.payload.length).minSize =
            g.payload.length := rfl
          omega
      · change Waits f v at hwaits
        simp only [Waits, hhdr] at hwaits
        have hheader : g.header.payloadLen = g.payload.length := rfl
        omega

/-- The upper layer accepts all messages. -/
def accepting {frames : List Frame} (hframed : Framed cfg {} frames)
    (haccepts : ∀ msgs, msgs <+: (meaning cfg frames).messages → msgs ≠ [] →
      (cfg.upper msgs).accepted = true) : Plan cfg where
  frames := frames
  rest := []
  goal := none
  framed := hframed
  accepts := fun msgs hmsgs hsome _ => haccepts msgs hmsgs hsome
  ends := fun h => absurd rfl h

end Plan

/-- Wherever the bytes of the frames are cut, the upper layer receives the
messages and the peer receives the pongs that the frames ask for.  The framing
does not get ahead of the frames, it does not stop reading before their end,
and it has done everything as soon as it has received all of them. -/
theorem outputs_eq_meaning (cfg : Config) (frames : List Frame)
    (hframed : Framed cfg {} frames)
    (htext : (meaning cfg frames).broken = false)
    (haccepts : ∀ msgs, msgs <+: (meaning cfg frames).messages → msgs ≠ [] →
      (cfg.upper msgs).accepted = true)
    (first : List Byte) (events : List Event)
    (hevents : .read .wantWrite ∉ events) (c : Stack Framing)
    (hrun : exec (Stack.step (framing cfg))
      (.established defaultReceivePolicy {} first) events = some c)
    (hreceived : c.transport.received <+: wire frames) :
    c.layer.outputs <+: (meaning cfg frames).outputs ∧
      (∃ d, Stack.Proceeds (framing cfg) c d ∧ d.Settled) ∧
      (c.Settled → c.transport.closed = false →
        c.transport.reading = true ∧
          (c.transport.received = wire frames →
            c.layer.outputs = (meaning cfg frames).outputs)) := by
  let plan := Plan.accepting hframed haccepts
  have hstream : plan.stream = wire frames := List.append_nil _
  have hin := hstream ▸ hreceived
  have hhealth := plan.steady.exec_health hevents
    (plan.established nofun
      ((Phases.first_received hrun).trans hin)) hrun hin
  have hdone : ∀ f, ¬ plan.phases.Done f := by
    rintro f ⟨msgs, hgoal, -⟩
    cases hgoal
  refine ⟨?_, ?_, fun hset hopen => ?_⟩
  · cases hhealth with
    | live halive => exact halive.live.2.outputs.1
    | dead hdead => exact ⟨[], (List.append_nil _).trans hdead.1⟩
    | gone hgone => exact hgone.1
    | done h => exact absurd h (hdone _)
  · exact plan.steady.settles_safely hhealth hin hdone
  · have halive := hhealth.alive hopen
      (fun hdead => by cases htext ▸ hdead.2.1) (hdone _)
    have hpos : 0 < c.transport.maxReadSize := halive.live.2.maxSize_pos
    have hzero : c.transport.scheduled = 0 :=
      hset.2.resolve_left (by simp [hopen])
    refine ⟨?_, fun hall => ?_⟩
    · simpa [hzero] using halive.flow.armed hpos
    · exact (halive.live.2.finished (halive.rests hset)
        ⟨[], (List.append_nil _).trans hall.symm⟩).2

def umlaut : List Frame :=
  [⟨false, .text, some 0x01020304#32, .short, [0xC3#8]⟩,
    ⟨true, .ping, none, .short, [0x78#8]⟩,
    ⟨true, .continuation, none, .medium, [0xA4#8]⟩]

theorem outputs_eq_meaning_umlaut :
    ∃ c, exec (Stack.step (framing (server [])))
        (.established defaultReceivePolicy {} ((wire umlaut).take 3))
        [.runScheduled, .consume, .read (.data ((wire umlaut).drop 3) []),
          .consume, .consume, .consume, .consume, .consume, .consume] =
        some c ∧
      c.layer.outputs = (meaning (server []) umlaut).outputs ∧
      c.layer.messages = [.text [0xC3#8, 0xA4#8]] := by
  refine exists_of_map (fun c => (c.transport.received, c.transport.looping,
      c.transport.closed, c.transport.scheduled, c.layer.messages))
    (wire umlaut, false, false, 0, [.text [0xC3#8, 0xA4#8]])
    (by decide +kernel) ?_
  intro c hc heq
  simp only [Prod.mk.injEq] at heq
  obtain ⟨hrecv, hlooping, hclosed, hscheduled, hmsgs⟩ := heq
  have hall := outputs_eq_meaning (server []) umlaut (by decide +kernel)
    (by decide +kernel) (fun _ _ _ => rfl) _ _ (by decide) c hc
    ⟨[], (List.append_nil _).trans hrecv⟩
  exact ⟨(hall.2.2 ⟨hlooping, .inr hscheduled⟩ hclosed).2 hrecv,
    hmsgs⟩

end ActorFramework.Net.WebSocket
