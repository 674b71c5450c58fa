import ActorFramework.Foundation.Search
import ActorFramework.Net.Lp.Framing
import ActorFramework.Net.StackRun

/-!
# Messages from one peer to another

A receiver with the same parameters as the sender sees the messages of the
sender, if none of them is empty and the size field is large enough for all of
them.  The sender does not check either of it.
-/

namespace ActorFramework.Net.Lp

open ActorFramework.Core (Byte)
open Foundation List

variable {cfg : Config}

def packet (cfg : Config) (msg : List Byte) : List Byte :=
  toBytes cfg.hdrSize msg.length ++ msg

def wire (cfg : Config) (msgs : List (List Byte)) : List Byte :=
  msgs.flatMap (packet cfg)

theorem hdrSize_pos (cfg : Config) : 0 < cfg.hdrSize := by
  unfold Config.hdrSize SizeFieldType.size
  cases cfg.sizeField <;> decide

theorem message_eq (out : Output) (payload : List Byte) :
    (out.message cfg payload).2 = decide (payload.length ≤ cfg.maxMessageSize) ∧
      (out.message cfg payload).1.buf = out.buf ++
        (if payload.length ≤ cfg.maxMessageSize then packet cfg payload
          else List.replicate cfg.hdrSize 0#8 ++ payload) := by
  have hsize : (out.buf ++ List.replicate cfg.hdrSize 0#8 ++ payload).length -
      (out.buf.length + cfg.hdrSize) = payload.length := by
    simp only [length_append, length_replicate]
    omega
  have htake : (out.buf ++ List.replicate cfg.hdrSize 0#8 ++ payload).take
      out.buf.length = out.buf := by
    rw [append_assoc, take_left]
  have hdrop : (out.buf ++ List.replicate cfg.hdrSize 0#8 ++ payload).drop
      (out.buf.length + cfg.hdrSize) = payload :=
    drop_left' (by simp)
  simp only [Output.message, Output.endMessage, Output.append,
    Output.beginMessage, hsize, htake, hdrop]
  by_cases hle : payload.length ≤ cfg.maxMessageSize
  · rw [if_neg (by omega)]
    simp [hle, packet]
  · rw [if_pos (by omega)]
    simp [hle]

variable {msgs pre post : List (List Byte)} {msg : List Byte}

theorem messages_eq (out : Output) (h : (out.messages cfg msgs).2 = true) :
    (out.messages cfg msgs).1.buf = out.buf ++ wire cfg msgs ∧
      ∀ msg ∈ msgs, msg.length ≤ cfg.maxMessageSize := by
  induction msgs generalizing out with
  | nil => simp [Output.messages, wire]
  | cons msg msgs ih =>
    obtain ⟨hsent, hbuf⟩ := @message_eq cfg out msg
    unfold Output.messages at h ⊢
    split at h
    · rename_i htrue
      rw [if_pos htrue]
      have hle : msg.length ≤ cfg.maxMessageSize := by
        rw [hsent] at htrue
        exact of_decide_eq_true htrue
      obtain ⟨hrest, hall⟩ := ih _ h
      refine ⟨?_, ?_⟩
      · rw [hrest, hbuf, if_pos hle]
        simp [wire]
      · simpa using ⟨hle, hall⟩
    · cases h

structure Fits (cfg : Config) (msg : List Byte) : Prop where
  nonempty : msg ≠ []
  field : msg.length < 256 ^ cfg.hdrSize
  limit : msg.length ≤ cfg.maxMessageSize

/-- How the stream goes on after the messages: not at all, with a size field
that is zero, or in any way after the last one of them. -/
inductive Ending where
  | complete
  | empty
  | cut
  deriving DecidableEq

def Receives (cfg : Config) (msgs : List (List Byte)) : Prop :=
  (cfg.upper msgs).accepted = true ∧
    (cfg.upper msgs).calls.foldl Framing.isReading true = true

structure Plan (cfg : Config) where
  msgs : List (List Byte)
  rest : List Byte
  ending : Ending
  fits : ∀ msg ∈ msgs, Fits cfg msg
  receives : ∀ seen, seen ≠ [] → seen <+: msgs → Receives cfg seen
  complete : ending = .complete → rest = []
  empty : ending = .empty → List.replicate cfg.hdrSize 0#8 <+: rest
  cut : ending = .cut → msgs ≠ []

namespace Plan

variable {plan : Plan cfg} {f : Framing} {v : View}
  {seen todo : List (List Byte)} {msg : List Byte}

def stream (plan : Plan cfg) : List Byte := wire cfg plan.msgs ++ plan.rest

structure Stage (plan : Plan cfg) (seen todo : List (List Byte)) (f : Framing)
    (v : View) : Prop where
  msgs : plan.msgs = seen ++ todo
  goes : plan.ending = .cut → todo ≠ []
  messages : f.messages = seen
  aborts : f.aborts = []
  received : v.received = wire cfg seen ++ v.window
  policy : v.policy = .exactly cfg.hdrSize ∨
    ∃ msg rest, todo = msg :: rest ∧
      v.policy = .exactly (cfg.hdrSize + msg.length)

def phases (plan : Plan cfg) : Phases Framing where
  stream := plan.stream
  Live f v := v.received <+: plan.stream ∧ ∃ seen todo, plan.Stage seen todo f v
  Waiting _ _ := False
  Dead _ := False
  Gone f := f.messages <+: plan.msgs
  Done f := plan.ending = .empty ∧ f.aborts ≠ [] ∨
    plan.ending = .cut ∧ plan.msgs <+: f.messages

theorem Stage.read (h : plan.Stage seen todo f v) (chunk : List Byte) :
    plan.Stage seen todo f (v.read chunk) := by
  refine { h with received := ?_ }
  simp [View.read, h.received]

theorem Stage.window (h : plan.Stage seen todo f v)
    (hstream : v.received <+: plan.stream) :
    v.window <+: wire cfg todo ++ plan.rest := by
  have hwire : wire cfg plan.msgs = wire cfg seen ++ wire cfg todo := by
    rw [h.msgs]
    simp [wire]
  rw [h.received, stream, hwire, append_assoc] at hstream
  exact (prefix_append_right_inj _).mp hstream

theorem wire_cons (msg : List Byte) (todo : List (List Byte)) :
    wire cfg (msg :: todo) =
      toBytes cfg.hdrSize msg.length ++ (msg ++ wire cfg todo) := by
  simp [wire, packet]

theorem wire_packet (msg : List Byte) (todo : List (List Byte)) :
    wire cfg (msg :: todo) = packet cfg msg ++ wire cfg todo := by
  simp [wire]

theorem wire_concat (seen : List (List Byte)) (msg : List Byte) :
    wire cfg (seen ++ [msg]) = wire cfg seen ++ packet cfg msg := by
  simp [wire]

theorem ofBytes_size (h : Fits cfg msg) :
    ofBytes (toBytes cfg.hdrSize msg.length) = msg.length := by
  rw [ofBytes_toBytes, Nat.mod_eq_of_lt h.field]

theorem consume_zero (f : Framing) :
    f.consume cfg (List.replicate cfg.hdrSize 0#8) =
      (f.abort ⟨.logicError, "received empty buffer from stream layer"⟩,
        -1) := by
  have hzero : ∀ n, ofBytes (List.replicate n 0#8) = 0 := by
    intro n
    induction n with
    | zero => rfl
    | succ n ih =>
      rw [replicate_succ', ofBytes_concat, ih]
      rfl
  unfold Framing.consume
  simp [hzero]

theorem consume_packet (h : Fits cfg msg) (f : Framing)
    (hreceives : Receives cfg (f.messages ++ [msg])) :
    f.consume cfg (packet cfg msg) =
      ((f.deliver cfg msg).lower (.configureRead (.exactly cfg.hdrSize)),
        ((packet cfg msg).length : Int)) := by
  have hpos := length_pos_iff.mpr h.nonempty
  have hlen : (packet cfg msg).length = cfg.hdrSize + msg.length := by
    simp [packet]
  have htake : (packet cfg msg).take cfg.hdrSize =
      toBytes cfg.hdrSize msg.length := take_left' (length_toBytes _ _)
  have hdrop : (packet cfg msg).drop cfg.hdrSize = msg :=
    drop_left' (length_toBytes _ _)
  unfold Framing.consume
  rw [if_neg (by omega), if_neg (by omega), htake, hdrop]
  simp only [ofBytes_size h, hreceives.1, hreceives.2, if_true]
  rw [if_pos ⟨trivial, by omega⟩]

theorem deliver_history (f : Framing) (msg : List Byte) :
    (f.deliver cfg msg).messages = f.messages ++ [msg] ∧
      (f.deliver cfg msg).aborts = f.aborts := by
  have hfold : ∀ (calls : List UpperCall) (g : Framing),
      (calls.foldl (Framing.upperCall cfg) g).messages = g.messages ∧
        (calls.foldl (Framing.upperCall cfg) g).aborts = g.aborts := by
    intro calls
    induction calls with
    | nil => exact fun g => ⟨rfl, rfl⟩
    | cons call calls ih =>
      intro g
      obtain ⟨hmsgs, haborts⟩ := ih (g.upperCall cfg call)
      rw [foldl_cons, hmsgs, haborts]
      cases call <;> exact ⟨rfl, rfl⟩
  exact hfold _ _

theorem consume_history (f : Framing) (input : List Byte) :
    f.messages <+: (f.consume cfg input).1.messages ∧
      (f.aborts ≠ [] → (f.consume cfg input).1.aborts ≠ []) := by
  have habort : ∀ reason, (f.abort reason).aborts ≠ [] := by
    simp [Framing.abort]
  have hdeliver := @deliver_history cfg f (input.drop cfg.hdrSize)
  have hmsgs : f.messages <+:
      (f.deliver cfg (input.drop cfg.hdrSize)).messages := by
    rw [hdeliver.1]
    exact prefix_append _ _
  have haborts : f.aborts ≠ [] →
      (f.deliver cfg (input.drop cfg.hdrSize)).aborts ≠ [] := by
    rw [hdeliver.2]
    exact id
  unfold Framing.consume
  split
  · exact ⟨prefix_refl _, fun _ => habort _⟩
  split
  · simp only
    split
    · exact ⟨prefix_refl _, fun _ => habort _⟩
    split
    · exact ⟨prefix_refl _, fun _ => habort _⟩
    · exact ⟨prefix_refl _, id⟩
  · simp only
    split
    · split
      · split
        · exact ⟨hmsgs, haborts⟩
        · exact ⟨hmsgs, haborts⟩
      · exact ⟨hmsgs, haborts⟩
    · exact ⟨prefix_refl _, fun _ => habort _⟩

theorem messages_aborted (f : Framing) (reason : Option Error) :
    ((framing cfg).aborted f reason).1.messages = f.messages := by
  cases reason <;> rfl

theorem aborts_aborted {f : Framing} (reason : Option Error)
    (h : f.aborts ≠ []) : ((framing cfg).aborted f reason).1.aborts ≠ [] := by
  cases reason with
  | none => exact h
  | some reason => simp [Layer.aborted, framing, Framing.abort, Framing.rest]

theorem consume_answer {out : Framing × Int} {bytes delta : List Byte}
    (h : f.rest.consume cfg bytes = out) :
    (framing cfg).consume f bytes delta =
      { state := out.1.rest
        calls := out.1.calls
        written := bytes
        consumed := out.2 } := by
  rw [← h]
  rfl

theorem bytes_of_start {bytes more : List Byte} (h : v.window <+: more)
    (hbytes : bytes <+: more) (hmax : v.policy.maxSize = bytes.length)
    (hlen : bytes.length ≤ v.window.length) :
    v.bytes = bytes ∧ v.size = bytes.length := by
  have hsize : v.size = bytes.length := by
    rw [View.size, hmax, Nat.min_eq_right hlen]
  refine ⟨?_, hsize⟩
  have hstart := prefix_of_prefix_length_le hbytes h hlen
  rw [View.bytes, hsize]
  exact (prefix_iff_eq_take.mp hstart).symm

theorem goes_size (h : plan.Stage seen (msg :: todo) f v)
    (hstream : v.received <+: plan.stream)
    (hpol : v.policy = .exactly cfg.hdrSize)
    (hready : v.Ready) : plan.phases.Goes (framing cfg) f v := by
  have hfits : Fits cfg msg := plan.fits msg (by simp [h.msgs])
  have hpos := length_pos_iff.mpr hfits.nonempty
  have hwin := h.window hstream
  have hmin := hready.2
  rw [hpol] at hmin
  rw [wire_cons, append_assoc] at hwin
  obtain ⟨hbytes, hsize⟩ := bytes_of_start hwin (prefix_append _ _)
    (by rw [hpol, length_toBytes]; rfl) (by rw [length_toBytes]; exact hmin)
  rw [length_toBytes] at hsize
  have hlimit := hfits.limit
  have hout : f.rest.consume cfg v.bytes = (f.rest.lower
      (.configureRead (.exactly (cfg.hdrSize + msg.length))), 0) := by
    unfold Framing.consume
    simp only [hbytes, length_toBytes, Nat.lt_irrefl, if_false, if_true,
      ofBytes_size hfits]
    rw [if_neg (by omega), if_neg (by omega)]
  have hleft : v.bytes ++ v.window.drop v.size = v.window :=
    take_append_drop _ _
  refine .grows _ (consume_answer hout) rfl
    v.length_bytes rfl
    (.exactly (cfg.hdrSize + msg.length)) rfl ?_ ⟨hstream, seen, msg :: todo,
      h.msgs, h.goes, h.messages, h.aborts, ?_, .inr ⟨msg, todo, rfl, rfl⟩⟩ ?_
  · rw [hsize]
    exact Nat.le_add_right _ _
  · simp only [View.waited, hleft]
    exact h.received
  · intro hsame
    have hmax : (ReceivePolicy.exactly (cfg.hdrSize + msg.length)).maxSize =
      cfg.hdrSize + msg.length := rfl
    have hmin' : (ReceivePolicy.exactly (cfg.hdrSize + msg.length)).minSize =
      cfg.hdrSize + msg.length := rfl
    omega

theorem goes_packet (h : plan.Stage seen (msg :: todo) f v)
    (hstream : v.received <+: plan.stream)
    (hpol : v.policy = .exactly (cfg.hdrSize + msg.length))
    (hready : v.Ready) : plan.phases.Goes (framing cfg) f v := by
  have hfits : Fits cfg msg := plan.fits msg (by simp [h.msgs])
  have hwin := h.window hstream
  have hmin := hready.2
  have hlen : (packet cfg msg).length = cfg.hdrSize + msg.length := by
    simp [packet]
  have hmsgs : plan.msgs = seen ++ [msg] ++ todo := by
    rw [h.msgs, append_assoc]
    rfl
  have hreceives : Receives cfg (f.rest.messages ++ [msg]) := by
    have hseen : f.rest.messages = seen := h.messages
    rw [hseen]
    exact plan.receives _ (by simp) ⟨todo, hmsgs.symm⟩
  rw [wire_packet, append_assoc] at hwin
  rw [hpol] at hmin
  obtain ⟨hbytes, hsize⟩ := bytes_of_start hwin (prefix_append _ _)
    (by rw [hpol]; exact hlen.symm) (hlen ▸ hmin)
  have hout := consume_packet hfits f.rest hreceives
  obtain ⟨hmessages, haborts⟩ := @deliver_history cfg f.rest msg
  have hall := hmessages.trans (congrArg (· ++ [msg]) h.messages)
  rw [← hbytes] at hout
  have hwrit : v.bytes.length = v.size :=
    v.length_bytes
  by_cases hlast : plan.ending = .cut ∧ todo = []
  · refine .done _ (consume_answer hout) hwrit (.inr ⟨hlast.1, [], ?_⟩)
    rw [append_nil, hmsgs, hlast.2, append_nil, messages_aborted]
    exact hall.symm
  · have hleft : (v.bytes ++ v.window.drop v.size).drop v.bytes.length =
        v.window.drop v.size := drop_left
    refine .takes _ (consume_answer hout) rfl hwrit ?_ ?_
      (.exactly cfg.hdrSize) (.last _ _) ⟨hstream, seen ++ [msg], todo, hmsgs,
        ?_, hall, haborts.trans h.aborts, ?_, .inl rfl⟩
    · have hpos := hdrSize_pos cfg
      simp only [hbytes, hlen]
      omega
    · simp only [Int.toNat_natCast, hwrit]
      exact le_rfl
    · exact fun hcut hnil => hlast ⟨hcut, hnil⟩
    · simp only [View.taken, Int.toNat_natCast, hleft]
      rw [h.received, wire_concat, append_assoc, ← hbytes, View.bytes,
        take_append_drop]

/-- After the last message the receiver has nothing to do, or it is shown a
size field that is zero. -/
theorem goes_end (h : plan.Stage seen [] f v)
    (hstream : v.received <+: plan.stream)
    (hpol : v.policy = .exactly cfg.hdrSize)
    (hready : v.Ready) : plan.phases.Goes (framing cfg) f v := by
  have hwin := h.window hstream
  have hmin := hready.2
  have hpos := hdrSize_pos cfg
  rw [hpol] at hmin
  change cfg.hdrSize ≤ v.window.length at hmin
  cases hend : plan.ending with
  | complete =>
    rw [plan.complete hend] at hwin
    have hnil := prefix_nil.mp hwin
    rw [hnil, length_nil] at hmin
    omega
  | cut => exact absurd rfl (h.goes hend)
  | empty =>
    obtain ⟨hbytes, hsize⟩ := bytes_of_start hwin (plan.empty hend)
      (by rw [hpol, length_replicate]; rfl)
      (by rw [length_replicate]; exact hmin)
    have hout := @consume_zero cfg f.rest
    rw [← hbytes] at hout
    refine .done _ (consume_answer hout) v.length_bytes (.inl ⟨hend, ?_⟩)
    exact aborts_aborted _ (by simp [Framing.abort, Framing.rest])

theorem steady (plan : Plan cfg) : plan.phases.Steady (framing cfg) where
  read := by
    rintro f v chunk ⟨-, seen, todo, hstage⟩ hstream
    exact ⟨hstream, seen, todo, hstage.read chunk⟩
  consume := by
    rintro f v ⟨hstream, seen, todo, hstage⟩ hready
    rcases hstage.policy with hpol | ⟨msg, rest, rfl, hpol⟩
    · cases todo with
      | nil => exact goes_end hstage hstream hpol hready
      | cons msg todo => exact goes_size hstage hstream hpol hready
    · exact goes_packet hstage hstream hpol hready
  plain := fun _ _ _ hcall => by cases hcall
  abort := by
    rintro f v reason ⟨-, seen, todo, hstage⟩
    refine ⟨todo, ?_⟩
    rw [hstage.msgs]
    exact congrArg (· ++ todo) hstage.messages
  abortDead := fun _ h => h.elim
  abortDone := by
    rintro f reason (⟨hempty, -⟩ | ⟨hcut, hall⟩)
    · exact .inl ⟨hempty, by simp [framing, Framing.abort, Framing.rest]⟩
    · exact .inr ⟨hcut, hall⟩
  consumeDone := by
    intro f bytes delta hdone
    obtain ⟨hmsgs, haborts⟩ := @consume_history cfg f.rest bytes
    rcases hdone with ⟨hempty, hsome⟩ | ⟨hcut, hall⟩
    · exact .inl ⟨hempty, haborts hsome⟩
    · exact .inr ⟨hcut, hall.trans hmsgs⟩

theorem established (plan : Plan cfg) {first : List Byte}
    (hfirst : first <+: plan.stream) :
    plan.phases.Health (.established (.exactly cfg.hdrSize) {} first) :=
  Phases.health_established ⟨hfirst, [], plan.msgs, rfl, plan.cut, rfl, rfl,
    rfl, .inl rfl⟩ (hdrSize_pos cfg)

theorem Stage.finished (h : plan.Stage seen todo f v)
    (hrests : plan.phases.Rests f v) (hall : v.received = plan.stream) :
    plan.ending = .complete ∧ f.messages = plan.msgs := by
  have hpos := hdrSize_pos cfg
  have hwire : wire cfg plan.msgs = wire cfg seen ++ wire cfg todo := by
    rw [h.msgs]
    simp [wire]
  have hwin : v.window = wire cfg todo ++ plan.rest := by
    rw [h.received, stream, hwire, append_assoc] at hall
    exact append_cancel_left hall
  have hless : v.window.length < v.policy.minSize := by
    rcases hrests with hzero | hless | hfalse
    · rcases h.policy with hpol | ⟨msg, rest, -, hpol⟩
      · rw [hpol] at hzero
        exact absurd hzero (Nat.ne_of_gt hpos)
      · rw [hpol] at hzero
        exact absurd hzero (Nat.ne_of_gt (Nat.add_pos_left hpos _))
    · exact hless
    · exact hfalse.elim
  rw [hwin, length_append] at hless
  cases todo with
  | nil =>
    have hpol : v.policy = .exactly cfg.hdrSize := by
      rcases h.policy with hpol | ⟨msg, rest, hcons, -⟩
      · exact hpol
      · cases hcons
    rw [hpol] at hless
    change (wire cfg []).length + plan.rest.length < cfg.hdrSize at hless
    refine ⟨?_, by rw [h.messages, h.msgs, append_nil]⟩
    cases hend : plan.ending with
    | complete => rfl
    | empty =>
      have hle := (plan.empty hend).length_le
      rw [length_replicate] at hle
      omega
    | cut => exact absurd rfl (h.goes hend)
  | cons msg todo =>
    rw [wire_cons] at hless
    simp only [length_append, length_toBytes] at hless
    rcases h.policy with hpol | ⟨m, rest, hcons, hpol⟩
    · rw [hpol] at hless
      change _ < cfg.hdrSize at hless
      omega
    · obtain ⟨rfl, rfl⟩ := List.cons.inj hcons
      rw [hpol] at hless
      change _ < cfg.hdrSize + msg.length at hless
      omega

end Plan

/-- Wherever the bytes of the sender are cut, the receiver passes on the
messages in order, does not abort while the socket is open, and has passed on
all of them as soon as it has received all bytes. -/
def Delivers (cfg : Config) (msgs : List (List Byte)) : Prop :=
  ∀ (first : List Byte) (events : List Event) (c : Stack Framing),
    .read .wantWrite ∉ events →
    exec (Stack.step (framing cfg))
      (.established (.exactly cfg.hdrSize) {} first) events = some c →
    c.transport.received <+: (({} : Output).messages cfg msgs).1.buf →
    c.layer.messages <+: msgs ∧
      (c.transport.closed = false → c.layer.aborts = []) ∧
      (∃ d, Stack.Proceeds (framing cfg) c d ∧ d.Settled) ∧
      (c.Settled → c.transport.closed = false →
        c.transport.received = (({} : Output).messages cfg msgs).1.buf →
        c.layer.messages = msgs)

theorem delivers_of_fits
    (hbuf : (({} : Output).messages cfg msgs).1.buf = wire cfg msgs)
    (hfits : ∀ msg ∈ msgs, Fits cfg msg)
    (hupper : ∀ seen, seen ≠ [] → Receives cfg seen) : Delivers cfg msgs := by
  let plan : Plan cfg :=
    { msgs := msgs
      rest := []
      ending := .complete
      fits := hfits
      receives := fun seen hsome _ => hupper seen hsome
      complete := fun _ => rfl
      empty := fun h => by cases h
      cut := fun h => by cases h }
  intro first events c hevs hrun hrecv
  have hstream : plan.stream = wire cfg msgs := append_nil _
  rw [hbuf] at hrecv ⊢
  have hin := hstream ▸ hrecv
  have hhealth := plan.steady.exec_health hevs
    (plan.established ((Phases.first_received hrun).trans hin)) hrun hin
  have hdone : ∀ f, ¬ plan.phases.Done f := by
    rintro f (⟨hend, -⟩ | ⟨hend, -⟩)
    · cases hend
    · cases hend
  refine ⟨?_, fun hopen => ?_, ?_, fun hset hopen hall => ?_⟩
  · cases hhealth with
    | live halive =>
      obtain ⟨-, seen, todo, hstage⟩ := halive.live
      exact ⟨todo, by rw [hstage.messages]; exact hstage.msgs.symm⟩
    | dead hdead => exact hdead.elim
    | gone hgone => exact hgone
    | done h => exact absurd h (hdone _)
  · obtain ⟨-, seen, todo, hstage⟩ := (hhealth.alive hopen id (hdone _)).live
    exact hstage.aborts
  · exact plan.steady.settles_safely hhealth hin hdone
  · have halive := hhealth.alive hopen id (hdone _)
    obtain ⟨-, seen, todo, hstage⟩ := halive.live
    exact (hstage.finished (halive.rests hset) (hall.trans hstream.symm)).2

/-- If the receiver has all bytes of a stream that goes on after the messages,
it cannot stop before it gets there. -/
theorem not_delivers (plan : Plan cfg) (hend : plan.ending ≠ .complete)
    (hbuf : (({} : Output).messages cfg msgs).1.buf = plan.stream)
    (hmsgs : ¬ plan.msgs <+: msgs ∨ plan.ending = .empty) :
    ¬ Delivers cfg msgs := by
  intro hdelivers
  have hinit := plan.established (prefix_refl plan.stream)
  obtain ⟨d, hproc, hd⟩ := plan.steady.settles hinit
    (Phases.received_established _ ▸ prefix_rfl)
  obtain ⟨hall, hopen, events, hevs, hrun⟩ :=
    Phases.whole_run (fun _ _ _ => rfl) hproc
  have hin : d.transport.received <+: plan.stream := hall ▸ prefix_rfl
  obtain ⟨hstart, haborts, -⟩ := hdelivers _ events d hevs hrun (hbuf ▸ hin)
  have hhealth := plan.steady.exec_health hevs hinit hrun hin
  have hnot : ¬ plan.phases.Done d.layer := by
    rintro (⟨-, hsome⟩ | ⟨hcut, hpassed⟩)
    · exact hsome (haborts hopen)
    · rcases hmsgs with hmsgs | hempty
      · exact hmsgs (hpassed.trans hstart)
      · cases hcut ▸ hempty
  have halive := hhealth.alive hopen id hnot
  obtain ⟨-, seen, todo, hstage⟩ := halive.live
  exact hend (hstage.finished (halive.rests (hd.resolve_right hnot)) hall).1

section

variable (hbuf : (({} : Output).messages cfg (pre ++ msg :: post)).1.buf =
  wire cfg (pre ++ msg :: post))
include hbuf

/-- A message whose size is a multiple of what the size field can hold looks
like an empty one. -/
theorem not_delivers_zero (hfits : ∀ m ∈ pre, Fits cfg m)
    (hupper : ∀ seen, seen ≠ [] → Receives cfg seen)
    (hzero : msg.length % 256 ^ cfg.hdrSize = 0) :
    ¬ Delivers cfg (pre ++ msg :: post) := by
  have hsize : toBytes cfg.hdrSize msg.length =
      List.replicate cfg.hdrSize 0#8 := by
    rw [← toBytes_mod, hzero, toBytes_zero]
  let plan : Plan cfg :=
    { msgs := pre
      rest := wire cfg (msg :: post)
      ending := .empty
      fits := hfits
      receives := fun seen hsome _ => hupper seen hsome
      complete := fun h => by cases h
      empty := fun _ => by
        rw [Plan.wire_cons, hsize]
        exact prefix_append _ _
      cut := fun h => by cases h }
  refine not_delivers plan (fun h => by cases h) ?_ (.inr rfl)
  rw [hbuf]
  simp [plan, Plan.stream, wire]

theorem not_delivers_cut (hfits : ∀ m ∈ pre, Fits cfg m)
    (hupper : ∀ seen, seen ≠ [] → Receives cfg seen)
    (hlimit : msg.length ≤ cfg.maxMessageSize)
    (hlarge : 256 ^ cfg.hdrSize ≤ msg.length)
    (hpos : 0 < msg.length % 256 ^ cfg.hdrSize) :
    ¬ Delivers cfg (pre ++ msg :: post) := by
  have hsmall : msg.length % 256 ^ cfg.hdrSize < 256 ^ cfg.hdrSize :=
    Nat.mod_lt _ (Nat.pow_pos (by omega))
  have hsize := toBytes_mod cfg.hdrSize msg.length
  generalize msg.length % 256 ^ cfg.hdrSize = r at hpos hsmall hsize
  have hlen : (msg.take r).length = r :=
    length_take_of_le (by omega)
  have hfirst : Fits cfg (msg.take r) :=
    ⟨length_pos_iff.mp (by omega), by omega, by omega⟩
  let plan : Plan cfg :=
    { msgs := pre ++ [msg.take r]
      rest := msg.drop r ++ wire cfg post
      ending := .cut
      fits := by
        intro m hm
        rcases mem_append.mp hm with hm | hm
        · exact hfits m hm
        · rw [mem_singleton.mp hm]
          exact hfirst
      receives := fun seen hsome _ => hupper seen hsome
      complete := fun h => by cases h
      empty := fun h => by cases h
      cut := fun _ => by simp }
  have hstream : plan.stream = wire cfg (pre ++ msg :: post) := by
    simp only [plan, Plan.stream, Plan.wire_concat, packet, hlen, hsize,
      append_assoc]
    rw [← append_assoc (msg.take r), take_append_drop]
    simp [wire, packet]
  refine not_delivers plan (fun h => by cases h) (hbuf.trans hstream.symm)
    (.inl fun hstart => ?_)
  have hcons := (prefix_append_right_inj _).mp hstart
  have hsame := (cons_prefix_cons.mp hcons).1
  rw [hsame] at hlen
  omega

end

/-- The messages that the sender could send arrive at the receiver, if none of
them is empty and all sizes fit in the size field, and only then. -/
theorem delivers_iff_fits (cfg : Config) (msgs : List (List Byte))
    (hsent : (({} : Output).messages cfg msgs).2 = true)
    (hupper : ∀ seen, seen ≠ [] → Receives cfg seen) :
    Delivers cfg msgs ↔
      ∀ msg ∈ msgs, msg ≠ [] ∧ msg.length < 256 ^ cfg.hdrSize := by
  obtain ⟨hbuf, hlimit⟩ := messages_eq {} hsent
  rw [List.nil_append] at hbuf
  constructor
  · intro hdelivers
    by_contra hnot
    obtain ⟨pre, msg, post, rfl, hpre, hbad⟩ := exists_first hnot
    have hfits : ∀ m ∈ pre, Fits cfg m := fun m hm =>
      ⟨(hpre m hm).1, (hpre m hm).2, hlimit m (by simp [hm])⟩
    by_cases hzero : msg.length % 256 ^ cfg.hdrSize = 0
    · exact not_delivers_zero hbuf hfits hupper hzero hdelivers
    · have hlarge : 256 ^ cfg.hdrSize ≤ msg.length := by
        refine Nat.le_of_not_lt fun hless => hbad ⟨?_, hless⟩
        rintro rfl
        exact hzero (Nat.zero_mod _)
      exact not_delivers_cut hbuf hfits hupper (hlimit msg (by simp)) hlarge
        (Nat.pos_of_ne_zero hzero) hdelivers
  · intro hall
    exact delivers_of_fits hbuf (fun msg hmsg => ⟨(hall msg hmsg).1,
      (hall msg hmsg).2, hlimit msg hmsg⟩) hupper

def receiver (sizeField : SizeFieldType) (maxMessageSize : Nat) : Config :=
  { sizeField := sizeField
    maxMessageSize := maxMessageSize
    upper := fun _ => {} }

theorem delivers_iff_fits_two :
    (({} : Output).messages (receiver .u1 16) [[1#8], [2#8, 3#8]]).2 = true ∧
      Delivers (receiver .u1 16) [[1#8], [2#8, 3#8]] :=
  ⟨by decide, (delivers_iff_fits (receiver .u1 16) [[1#8], [2#8, 3#8]]
    (by decide) (fun _ _ => ⟨rfl, rfl⟩)).mpr (by decide)⟩

/-- An empty message is not ignored: the receiver aborts. -/
theorem empty_message_aborts :
    ({} : Output).messages (receiver .u4 16) [[]] =
        (⟨List.replicate 4 0#8, 0⟩, true) ∧
      (exec (Stack.step (framing (receiver .u4 16)))
        (.established (.exactly 4) {} [])
        [.read (.data (List.replicate 4 0#8) []), .consume]).map (fun c =>
          (c.transport.closed, c.layer.messages, c.layer.aborts)) =
        some (false, [],
          [⟨.logicError, "received empty buffer from stream layer"⟩,
            ⟨.runtimeError, "consumed < 0"⟩]) := by
  decide +kernel

/-- A message that is too large stays in the buffer, with an empty size
field. -/
theorem failed_message_stays (cfg : Config) (out : Output)
    (payload : List Byte) :
    ((out.message cfg payload).2 = false ↔
        cfg.maxMessageSize < payload.length) ∧
      ((out.message cfg payload).2 = false →
        (out.message cfg payload).1.buf =
          out.buf ++ (List.replicate cfg.hdrSize 0#8 ++ payload)) := by
  obtain ⟨hsent, hbuf⟩ := @message_eq cfg out payload
  rw [hsent, hbuf, decide_eq_false_iff_not]
  exact ⟨Nat.not_le, fun hlarge => by rw [if_neg hlarge]⟩

theorem failed_message_not_removed :
    ({} : Output).message (receiver .u1 1) [7#8, 8#8] =
      (⟨[0#8, 7#8, 8#8], 0⟩, false) := by
  decide

end ActorFramework.Net.Lp
