import ActorFramework.Net.WebSocket.DecodingRun

/-!
# Text messages

A text message is delivered if and only if it is UTF-8, for all ways to split
it into frames and all ways to split the frames into reads.
-/

namespace ActorFramework.Net.WebSocket

open ActorFramework.Core (Byte)
open Meaning (fragment messages frame answer)
open Foundation List
open Net.Rfc3629 (Octets Extendable)
open Net.Rfc6455

inductive Fragments : List Frame → List Byte → Prop where
  | last {g : Frame} (hop : g.opcode = .continuation) (hfin : g.fin = true) :
      Fragments [g] g.payload
  | more {g : Frame} {frames : List Frame} {payload : List Byte}
      (hop : g.opcode = .continuation) (hfin : g.fin = false)
      (h : Fragments frames payload) :
      Fragments (g :: frames) (g.payload ++ payload)
  | control {g : Frame} {frames : List Frame} {payload : List Byte}
      (hop : g.opcode = .ping ∨ g.opcode = .pong)
      (h : Fragments frames payload) : Fragments (g :: frames) payload

inductive TextMessage : List Frame → List Byte → Prop where
  | whole {g : Frame} (hop : g.opcode = .text) (hfin : g.fin = true) :
      TextMessage [g] g.payload
  | first {g : Frame} {frames : List Frame} {payload : List Byte}
      (hop : g.opcode = .text) (hfin : g.fin = false)
      (h : Fragments frames payload) :
      TextMessage (g :: frames) (g.payload ++ payload)

variable {cfg : Config} {m : Meaning} {g : Frame}

structure Judged (m m' : Meaning) (text : List Byte) : Prop where
  valid : Octets text →
    m'.broken = false ∧ m'.messages = m.messages ++ [.text text]
  invalid : ¬ Octets text → m'.broken = true ∧ m'.messages = m.messages

theorem judged_last (hbroken : m.broken = false)
    (hop : m.opcode.getD g.opcode = .text) (hfin : g.fin = true) :
    Judged m (m.fragment cfg g) (m.payload ++ g.payload) := by
  have hacc : Acceptable .text true (m.payload ++ g.payload) ↔
      Octets (m.payload ++ g.payload) := by
    simp [Acceptable]
  constructor
  · intro hvalid
    have hfragment : m.fragment cfg g =
        m.complete cfg (.text (m.payload ++ g.payload)) := by
      simp [fragment, hbroken, hfin, hacc.mpr hvalid, hop, Message.ofOpcode]
    rw [hfragment]
    refine ⟨hbroken, ?_⟩
    simp [Meaning.complete, messages, Output.message?]
  · intro hinv
    obtain ⟨hnow, houts⟩ := @fragment_broken cfg m g (by
      rw [hop, hfin]
      exact mt hacc.mp hinv)
    exact ⟨hnow, by rw [messages, houts]; rfl⟩

theorem judged_more (hbroken : m.broken = false)
    (hop : m.opcode.getD g.opcode = .text) (hfin : g.fin = false)
    {frames : List Frame} {payload : List Byte}
    (hnext : ∀ m' : Meaning, m'.broken = false → m'.opcode = some .text →
      Judged m' (frames.foldl (frame cfg) m')
        (m'.payload ++ payload)) :
    Judged m (frames.foldl (frame cfg) (m.fragment cfg g))
      (m.payload ++ (g.payload ++ payload)) := by
  have hacc : Acceptable .text false (m.payload ++ g.payload) ↔
      Extendable (m.payload ++ g.payload) := by
    simp [Acceptable]
  rw [← append_assoc]
  by_cases hext : Extendable (m.payload ++ g.payload)
  · have hfragment : m.fragment cfg g =
        { m with opcode := some .text, payload := m.payload ++ g.payload } := by
      simp [fragment, hbroken, hfin, hacc.mpr hext, hop]
    have h := hnext (m.fragment cfg g) (by rw [hfragment]; exact hbroken)
      (by rw [hfragment])
    have hpay : (m.fragment cfg g).payload = m.payload ++ g.payload := by
      rw [hfragment]
    have hmsgs : (m.fragment cfg g).messages = m.messages := by
      rw [hfragment]
      rfl
    rw [hpay] at h
    exact ⟨fun hvalid => hmsgs ▸ h.valid hvalid,
      fun hinv => hmsgs ▸ h.invalid hinv⟩
  · obtain ⟨hnow, houts⟩ := @fragment_broken cfg m g (by
      rw [hop, hfin]
      exact mt hacc.mp hext)
    obtain ⟨hlater, houts'⟩ := (foldl_outputs _ frames).2 hnow
    refine ⟨fun hvalid => ?_, fun _ => ⟨hlater, ?_⟩⟩
    · exact absurd (Rfc3629.extendable_of_append hvalid.extendable) hext
    · rw [messages, houts', houts]
      rfl

theorem judged_fragments {frames : List Frame} {payload : List Byte}
    (h : Fragments frames payload) (hbroken : m.broken = false)
    (hop : m.opcode = some .text) :
    Judged m (frames.foldl (frame cfg) m) (m.payload ++ payload) := by
  induction h generalizing m with
  | last hcont hfin =>
    rw [foldl_cons, foldl_nil, fragment_of_frame (by rw [hcont]; rfl)]
    exact judged_last hbroken (by simp [hop]) hfin
  | more hcont hfin _ ih =>
    rw [foldl_cons, fragment_of_frame (by rw [hcont]; rfl)]
    exact judged_more hbroken (by simp [hop]) hfin
      fun m' hbroken' hop' => ih hbroken' hop'
  | @control g frames payload hctrl _ ih =>
    rw [foldl_cons]
    rcases hctrl with hping | hpong
    · have hframe : m.frame cfg g = m.answer cfg g.payload := by
        simp [frame, hping, hbroken]
      rw [hframe]
      have hmsgs : (m.answer cfg g.payload).messages = m.messages := by
        simp [answer, messages, Output.message?]
      have hrest := @ih (m.answer cfg g.payload) hbroken hop
      exact ⟨fun hvalid => hmsgs ▸ hrest.valid hvalid,
        fun hinv => hmsgs ▸ hrest.invalid hinv⟩
    · have hframe : m.frame cfg g = m := by
        simp [frame, hpong]
      rw [hframe]
      exact ih hbroken hop

theorem judged_message {frames : List Frame} {payload : List Byte}
    (h : TextMessage frames payload) (hbroken : m.broken = false)
    (hnone : m.opcode = none) (hempty : m.payload = []) :
    Judged m (frames.foldl (frame cfg) m) payload := by
  cases h with
  | @whole g hop hfin =>
    rw [foldl_cons, foldl_nil, fragment_of_frame (by rw [hop]; rfl)]
    have hjudged := @judged_last cfg m g hbroken (by simp [hnone, hop]) hfin
    rwa [hempty, nil_append] at hjudged
  | @first g frames payload hop hfin hrest =>
    rw [foldl_cons, fragment_of_frame (by rw [hop]; rfl)]
    have hjudged := @judged_more cfg m g hbroken (by simp [hnone, hop]) hfin
      frames payload fun m' hbroken' hop' =>
        judged_fragments hrest hbroken' hop'
    rwa [hempty, nil_append] at hjudged

section

variable {pre frames : List Frame} {payload rest : List Byte}
  (hframed : Framed cfg {} (pre ++ frames))
  (hjudged : Judged (meaning cfg pre) (meaning cfg (pre ++ frames)) payload)
  (haccepts : ∀ msgs, msgs <+: (meaning cfg pre).messages → msgs ≠ [] →
    (cfg.upper msgs).accepted = true)
  {first : List Byte} {events : List Event}
  (hevents : .read .wantWrite ∉ events) {c : Stack Framing}
  (hrun : exec (Stack.step (framing cfg))
    (.established defaultReceivePolicy {} first) events = some c)
  (hreceived : c.transport.received <+: wire (pre ++ frames) ++ rest)

include hframed hjudged haccepts hevents hrun hreceived

theorem delivered_if_utf8 (hvalid : Octets payload) :
    (∃ d, Stack.Proceeds (framing cfg) c d ∧ (d.Settled ∨
      (meaning cfg pre).messages ++ [.text payload] <+: d.layer.messages)) ∧
    (c.transport.closed = false → c.layer.aborts ≠ [] →
      (meaning cfg pre).messages ++ [.text payload] <+: c.layer.messages) ∧
    (c.Settled → c.transport.closed = false →
      wire (pre ++ frames) <+: c.transport.received →
      (meaning cfg pre).messages ++ [.text payload] <+: c.layer.messages) := by
  obtain ⟨hbroken, hmessages⟩ := hjudged.valid hvalid
  let plan : Plan cfg :=
    { frames := pre ++ frames
      rest := rest
      goal := some ((meaning cfg pre).messages ++ [.text payload])
      framed := hframed
      accepts := by
        intro msgs hmsgs hsome hgoal
        rw [hmessages] at hmsgs
        rcases prefix_concat_iff.mp hmsgs with heq | hmsgs
        · exact absurd (congrArg some heq.symm) hgoal
        · exact haccepts msgs hmsgs hsome
      ends := fun _ => .inr (by rw [hmessages]) }
  have hhealth := plan.steady.exec_health hevents
    (plan.established (by simp [plan])
      ((Phases.first_received hrun).trans hreceived)) hrun hreceived
  have hdeliv : ∀ f, plan.phases.Done f →
      (meaning cfg pre).messages ++ [.text payload] <+: f.messages := by
    rintro f ⟨msgs, hgoal, hstart⟩
    obtain rfl := Option.some.inj hgoal
    exact hstart
  refine ⟨?_, fun hopen haborts => ?_, fun hset hopen hbytes => ?_⟩
  · obtain ⟨d, hproc, hd⟩ := plan.steady.settles hhealth hreceived
    exact ⟨d, hproc, hd.imp_right (hdeliv _)⟩
  · by_contra hnot
    have halive := hhealth.alive hopen
      (fun hdead => by cases hbroken ▸ hdead.2.1)
      (fun h => hnot (hdeliv _ h))
    exact absurd halive.live.2.outputs.2 haborts
  · by_contra hnot
    have halive := hhealth.alive hopen
      (fun hdead => by cases hbroken ▸ hdead.2.1)
      (fun h => hnot (hdeliv _ h))
    have hgoes := (halive.live.2.finished (halive.rests hset) hbytes).1
    exact absurd (congrArg some hmessages.symm) hgoes.goal

theorem fails_unless_utf8 (hinv : ¬ Octets payload) :
    (∃ d, Stack.Proceeds (framing cfg) c d ∧ d.Settled) ∧
    c.layer.messages <+: (meaning cfg pre).messages ∧
    (c.Settled → c.transport.closed = false →
      wire (pre ++ frames) <+: c.transport.received →
      c.layer.aborts.head? = some invalidUtf8) := by
  obtain ⟨hbroken, hmessages⟩ := hjudged.invalid hinv
  let plan : Plan cfg :=
    { frames := pre ++ frames
      rest := rest
      goal := none
      framed := hframed
      accepts := fun msgs hmsgs hsome _ =>
        haccepts msgs (hmessages ▸ hmsgs) hsome
      ends := fun _ => .inl hbroken }
  have hhealth := plan.steady.exec_health hevents
    (plan.established (by simp)
      ((Phases.first_received hrun).trans hreceived)) hrun hreceived
  have hdone : ∀ f, ¬ plan.phases.Done f := by
    rintro f ⟨msgs, hgoal, -⟩
    cases hgoal
  have houts : ∀ f : Framing,
      f.outputs <+: (meaning cfg (pre ++ frames)).outputs →
      f.messages <+: (meaning cfg pre).messages := by
    intro f h
    rw [← hmessages]
    exact h.filterMap _
  refine ⟨?_, ?_, fun hset hopen hbytes => ?_⟩
  · exact plan.steady.settles_safely hhealth hreceived hdone
  · apply houts
    cases hhealth with
    | live halive => exact halive.live.2.outputs.1
    | dead hdead => exact ⟨[], (append_nil _).trans hdead.1⟩
    | gone hgone => exact hgone.1
    | done h => exact absurd h (hdone _)
  · by_contra hnot
    have halive := hhealth.alive hopen (fun hdead => hnot hdead.2.2) (hdone _)
    have hgoes := (halive.live.2.finished (halive.rests hset) hbytes).1
    cases hbroken ▸ hgoes.whole

end

/-- A text message after other frames, and then any bytes.  If the message is
UTF-8, the framing does not fail before it has passed on the message, and it
has passed on the message as soon as it has received all of its frames.
Otherwise it passes on nothing, and fails the connection. -/
theorem text_message_iff_utf8 (cfg : Config) (pre frames : List Frame)
    (payload rest : List Byte) (hframed : Framed cfg {} (pre ++ frames))
    (hpre : (meaning cfg pre).broken = false)
    (hnone : (meaning cfg pre).opcode = none)
    (hmessage : TextMessage frames payload)
    (haccepts : ∀ msgs, msgs <+: (meaning cfg pre).messages → msgs ≠ [] →
      (cfg.upper msgs).accepted = true)
    (first : List Byte) (events : List Event)
    (hevents : .read .wantWrite ∉ events) (c : Stack Framing)
    (hrun : exec (Stack.step (framing cfg))
      (.established defaultReceivePolicy {} first) events = some c)
    (hreceived : c.transport.received <+: wire (pre ++ frames) ++ rest) :
    (Octets payload →
      (∃ d, Stack.Proceeds (framing cfg) c d ∧ (d.Settled ∨
        (meaning cfg pre).messages ++ [.text payload] <+:
          d.layer.messages)) ∧
      (c.transport.closed = false → c.layer.aborts ≠ [] →
        (meaning cfg pre).messages ++ [.text payload] <+:
          c.layer.messages) ∧
      (c.Settled → c.transport.closed = false →
        wire (pre ++ frames) <+: c.transport.received →
        (meaning cfg pre).messages ++ [.text payload] <+: c.layer.messages)) ∧
    (¬ Octets payload →
      (∃ d, Stack.Proceeds (framing cfg) c d ∧ d.Settled) ∧
      c.layer.messages <+: (meaning cfg pre).messages ∧
      (c.Settled → c.transport.closed = false →
        wire (pre ++ frames) <+: c.transport.received →
        c.layer.aborts.head? = some invalidUtf8)) := by
  have hempty := (tidy_meaning hframed).payload hnone
  have hjudged := @judged_message cfg _ _ _ hmessage hpre hnone hempty
  have hall : frames.foldl (frame cfg) (meaning cfg pre) =
      meaning cfg (pre ++ frames) := by
    rw [meaning, meaning, List.foldl_append]
  rw [hall] at hjudged
  exact ⟨delivered_if_utf8 hframed hjudged haccepts hevents hrun hreceived,
    fails_unless_utf8 hframed hjudged haccepts hevents hrun hreceived⟩

theorem text_message_iff_utf8_umlaut :
    ∃ c, exec (Stack.step (framing (server [])))
        (.established defaultReceivePolicy {} [])
        [.read (.data (wire umlaut) []), .consume, .consume, .consume,
          .consume, .consume, .consume] = some c ∧
      [.text [0xC3#8, 0xA4#8]] <+: c.layer.messages := by
  refine exists_of_map (fun c => (c.transport.received, c.transport.looping,
    c.transport.closed, c.transport.scheduled)) (wire umlaut, false, false, 0)
    (by decide +kernel) ?_
  intro c hc heq
  simp only [Prod.mk.injEq] at heq
  obtain ⟨hreceived, hlooping, hclosed, hscheduled⟩ := heq
  have hmsg : TextMessage umlaut [0xC3#8, 0xA4#8] :=
    .first rfl rfl (.control (.inl rfl) (.last rfl rfl))
  have hall := text_message_iff_utf8 (server []) [] umlaut [0xC3#8, 0xA4#8] []
    (by decide +kernel) rfl rfl hmsg (fun _ _ _ => rfl) [] _ (by decide) c
    hc ⟨[], by simp [hreceived]⟩
  exact (hall.1 (by decide +kernel)).2.2 ⟨hlooping, .inr hscheduled⟩ hclosed
    ⟨[], by simp [hreceived]⟩

def oversized : Frame :=
  .assembled .text 0#32 (List.replicate 0x80000000 0x61#8)

theorem octets_replicate {x : Byte} (hx : x.toNat ≤ 0x7F) (n : Nat) :
    Octets (List.replicate n x) := by
  induction n with
  | zero => exact .nil
  | succ n ih => exact .cons (.one hx) ih

/-- The message is UTF-8, but its header is enough to fail the connection. -/
theorem oversized_text_message_fails :
    TextMessage [oversized] oversized.payload ∧ Octets oversized.payload ∧
      ∃ c, exec (Stack.step (framing (server [])))
          (.established defaultReceivePolicy {} oversized.headerBytes)
          [.runScheduled, .consume] = some c ∧
        c.layer.messages = [] ∧
        c.layer.aborts.head? =
          some ⟨.protocolError, "WebSocket frame too large"⟩ := by
  have hheader : oversized.headerBytes =
      [0x81#8, 0x7F#8, 0#8, 0#8, 0#8, 0#8, 0x80#8, 0#8, 0#8, 0#8] := by
    have hlen : (List.replicate 0x80000000 0x61#8).length = 0x80000000 :=
      List.length_replicate
    simp only [oversized, Frame.assembled, Frame.headerBytes, Frame.keyBytes,
      hlen]
    decide
  refine ⟨.whole rfl rfl, octets_replicate (by decide) _, ?_⟩
  rw [hheader]
  exact exists_of_map (fun c => (c.layer.messages, c.layer.aborts.head?))
    (_, _) (by decide +kernel) fun c _ heq => Prod.mk.inj heq

end ActorFramework.Net.WebSocket
