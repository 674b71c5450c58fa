import Mathlib.Data.List.Infix
import ActorFramework.Net.Stack
import ActorFramework.Net.TransportRun

/-!
# Runs of a layer on top of the transport

A layer sees the transport as a `View`: the limits it has set, the bytes in the
buffer, and how many of them it was shown before.  For a result about all runs
of a stack it is enough to know what one call of `consume` does to the view;
the rule at the end takes care of the transport and of the socket.
-/

namespace ActorFramework.Net

open ActorFramework.Core (Byte)
open Foundation List Option

@[ext] structure View where
  policy : ReceivePolicy
  offset : Nat
  window : List Byte
  received : List Byte
  deriving DecidableEq

namespace View

variable (v : View)

def size : Nat := min v.window.length v.policy.maxSize

def bytes : List Byte := v.window.take v.size

def delta : List Byte := v.bytes.drop v.offset

def Ready : Prop :=
  0 < v.policy.maxSize ∧ v.policy.minSize ≤ v.window.length

def read (chunk : List Byte) : View :=
  { v with window := v.window ++ chunk, received := v.received ++ chunk }

def waited (written : List Byte) (rd : ReceivePolicy) : View :=
  { v with
    policy := rd
    offset := v.size
    window := written ++ v.window.drop v.size }

def taken (written : List Byte) (n : Nat) (rd : ReceivePolicy) :
    View :=
  { v with
    policy := rd
    offset := 0
    window := (written ++ v.window.drop v.size).drop n }

theorem bytes_start (v : View) : v.bytes <+: v.window :=
  take_prefix _ _

theorem length_bytes (v : View) : v.bytes.length = v.size :=
  length_take_of_le (Nat.min_le_left _ _)

theorem length_left (v : View) {n : Nat} (hn : n ≤ v.size) :
    (v.bytes.drop n).length + n = v.size := by
  rw [length_drop, length_bytes]
  omega

theorem window_drop (v : View) {n : Nat} {text : List Byte}
    (h : text <+: v.window.drop n) :
    v.window.drop n = text ++ v.window.drop (n + text.length) := by
  obtain ⟨rest, hrest⟩ := h
  rw [← drop_drop, ← hrest, drop_left]

theorem window_shown (v : View) {n : Nat} {text more : List Byte}
    (h : v.bytes.drop n <+: text ++ more)
    (hlong : text.length ≤ (v.bytes.drop n).length) :
    v.window.drop n = text ++ v.window.drop (n + text.length) :=
  v.window_drop ((prefix_of_prefix_length_le (prefix_append _ _) h
    hlong).trans (v.bytes_start.drop n))

theorem read_read (v : View) (chunk more : List Byte) :
    (v.read chunk).read more = v.read (chunk ++ more) := by
  simp [read]

end View

inductive Sets (old : ReceivePolicy) : List LowerCall → ReceivePolicy → Prop
  | nothing : Sets old [] old
  | last (calls : List LowerCall) (rd : ReceivePolicy) :
      Sets old (calls ++ [.configureRead rd]) rd
  | restart {calls : List LowerCall} {rd : ReceivePolicy}
      (h : Sets old calls rd) (next : ReceivePolicy) :
      Sets old (calls ++ [.restart next]) (if 0 < rd.maxSize then rd else next)
  | output {calls : List LowerCall} {rd : ReceivePolicy}
      (h : Sets old calls rd) (bytes : List Byte) :
      Sets old (calls ++ [.output bytes]) rd

namespace Transport

variable {t u : Transport}

def view (t : Transport) : View :=
  ⟨⟨t.minReadSize, t.maxReadSize⟩, t.deltaOffset, t.window, t.received⟩

theorem view_size (hroom : t.buffered ≤ t.readBuf.length) :
    t.view.size = t.size := by
  simp [View.size, view, length_window hroom, size]

theorem view_bytes (hroom : t.buffered ≤ t.readBuf.length) :
    t.view.bytes = t.bytes := by
  rw [View.bytes, view_size hroom, bytes_eq_take]
  rfl

/-- The transport waits for the socket, or it will look at the buffer again. -/
def Armed (t : Transport) : Prop :=
  0 < t.maxReadSize → t.reading = true ∨ 0 < t.scheduled

theorem armed_configureRead (h : t.Armed) (rd : ReceivePolicy) :
    (t.configureRead rd).Armed := by
  unfold Armed configureRead
  split
  · split
    · exact fun _ => .inr (Nat.succ_pos _)
    · exact fun _ => .inl rfl
  · rename_i hkeep
    intro hpos
    have hpos : 0 < rd.maxSize := hpos
    by_cases hmax : t.maxReadSize = 0
    · have hread : t.reading = true := by
        by_contra hnot
        exact hkeep ⟨hpos, hmax, by simpa using hnot⟩
      exact .inl (by simp [hread, hpos])
    · refine (h (Nat.pos_of_ne_zero hmax)).imp_left fun hread => ?_
      simp [hread, hpos]

theorem armed_call (h : t.Armed) (call : LowerCall) : (t.call call).Armed := by
  cases call with
  | configureRead rd => exact armed_configureRead h rd
  | restart rd =>
    simp only [Transport.call]
    split
    · exact h
    · exact armed_configureRead h rd
  | output bytes => exact h
  | shutdown =>
    simp only [Transport.call, shutdown]
    split
    · exact h
    · intro hpos
      have hzero : (t.configureRead .stop).maxReadSize = 0 :=
        configureRead_maxReadSize t .stop
      exact absurd hpos (by simp [hzero])

theorem armed_callAll (h : t.Armed) (calls : List LowerCall) :
    (t.callAll calls).Armed := by
  induction calls generalizing t with
  | nil => exact h
  | cons call calls ih => exact ih (armed_call h call)

theorem callAll_concat (t : Transport) (calls : List LowerCall)
    (call : LowerCall) :
    t.callAll (calls ++ [call]) = (t.callAll calls).call call := by
  simp [callAll]

theorem configureRead_minReadSize (t : Transport) (rd : ReceivePolicy) :
    (t.configureRead rd).minReadSize = rd.minSize := by
  unfold configureRead
  split
  · split <;> rfl
  · rfl

variable {calls : List LowerCall} {rd : ReceivePolicy} {r : Reaction}

theorem policy_callAll (h : Sets t.view.policy calls rd) :
    (t.callAll calls).view.policy = rd := by
  induction h with
  | nothing => rfl
  | last calls rd =>
    simp [callAll_concat, Transport.call, view, configureRead_minReadSize,
      configureRead_maxReadSize]
  | @restart calls rd _ next ih =>
    have hmax : (t.callAll calls).maxReadSize = rd.maxSize :=
      congrArg ReceivePolicy.maxSize ih
    rw [callAll_concat, Transport.call, isReading, hmax]
    by_cases hpos : 0 < rd.maxSize
    · simpa [hpos] using ih
    · simp [hpos, view, configureRead_minReadSize, configureRead_maxReadSize]
  | output _ bytes ih =>
    rw [callAll_concat]
    exact ih

structure Flow (t : Transport) : Prop where
  room : t.buffered ≤ t.readBuf.length
  ready : t.looping = true → t.ready = true
  armed : t.Armed
  wanted : t.wantedWrite = false
  opened : t.closed = false

section

variable (hroom : t.buffered ≤ t.readBuf.length)
include hroom

theorem ready_iff : t.ready = true ↔ t.reading = true ∧ t.view.Ready := by
  simp only [ready, Bool.and_eq_true, decide_eq_true_eq, View.Ready, view,
    length_window hroom, and_assoc]

theorem flow_loop (harmed : t.Armed) (hwanted : t.wantedWrite = false)
    (hopened : t.closed = false) : Flow t.loop :=
  ⟨hroom, id, harmed, hwanted, hopened⟩

theorem view_grow (size : Nat) : (t.grow size).view = t.view := by
  simp only [view, window_grow hroom]
  rfl

theorem room_grow (size : Nat) :
    (t.grow size).buffered ≤ (t.grow size).readBuf.length := by
  simp only [grow, length_append]
  omega

theorem view_fill (chunk : List Byte) :
    (t.fill chunk).view = t.view.read chunk := by
  simp only [view, window_fill hroom]
  rfl

end

theorem view_data (h : Flow t) (chunk policyData : List Byte) :
    (t.handleReadEvent (.data chunk policyData)).view =
      t.view.read (chunk ++ policyData) := by
  have hroom := @room_fill t h.room chunk
  have hgrown := room_grow hroom (t.buffered + chunk.length + policyData.length)
  rw [← View.read_read, ← view_fill h.room, ← view_grow hroom,
    ← view_fill hgrown]
  rfl

theorem Flow.data (h : Flow t) (chunk policyData : List Byte) :
    Flow (t.handleReadEvent (.data chunk policyData)) := by
  have hroom := @room_fill t h.room chunk
  have hgrown := room_grow hroom (t.buffered + chunk.length + policyData.length)
  exact flow_loop (room_fill hgrown) h.armed h.wanted h.opened

structure Carried (t : Transport) (r : Reaction) (rd : ReceivePolicy)
    (u : Transport) : Prop where
  flow : Flow u
  view : u.view =
    if r.consumed = 0 then t.view.waited r.written rd
    else t.view.taken r.written r.consumed.toNat rd
  rest : u.looping = false →
    (r.consumed = 0 ∧ u.size = t.size) ∨ u.ready = false

theorem carried_consume (h : Flow t) (hwrit : r.written.length = t.size)
    (hnext : r.next = none) (hpos : 0 ≤ r.consumed)
    (hfits : r.consumed.toNat ≤ t.size)
    (hsets : Sets t.view.policy r.calls rd) : Carried t r rd (t.consume r) := by
  have htakes := takes_react h.room hwrit
  have hpol := @policy_callAll ((t.record r).overwrite r.written) _ _ hsets
  have harmed : (t.react r).Armed := by
    apply armed_callAll
    exact h.armed
  have hwanted : (t.react r).wantedWrite = false :=
    (called_callAll _ r.calls).wantedWrite.trans h.wanted
  have hopened : (t.react r).closed = false :=
    (called_callAll _ r.calls).closed.trans h.opened
  have hwin : (t.react r).window =
      r.written ++ t.view.window.drop t.view.size := by
    rw [htakes.window, drop_zero, hwrit, view_size h.room]
    rfl
  have hrecv : (t.react r).received = t.received := htakes.received
  have hret := returned_consumed (t.react r) t.size r
  rw [consume]
  generalize (t.react r).consumed t.size r = u at hret ⊢
  cases hret with
  | aborted hfails => omega
  | gone _ hsome | switched _ hsome => cases hnext ▸ hsome
  | waits hzero _ hsame =>
    refine ⟨⟨htakes.room, by simp, harmed, hwanted, hopened⟩, ?_,
      fun _ => .inl ⟨hzero, hsame.symm⟩⟩
    rw [if_pos hzero]
    exact View.ext hpol (view_size h.room).symm hwin hrecv
  | again hzero _ =>
    refine ⟨flow_loop htakes.room harmed hwanted hopened, ?_, .inr⟩
    rw [if_pos hzero]
    exact View.ext hpol (view_size h.room).symm hwin hrecv
  | takes htook _ _ _ _ hsame =>
    obtain rfl := hsame hnext
    refine ⟨flow_loop (room_shift htakes.room) harmed hwanted hopened, ?_, .inr⟩
    rw [if_neg (by omega), View.taken, ← hwin, ← window_shift htakes.room]
    exact View.ext hpol rfl rfl hrecv

theorem shutdown_maxReadSize (h : t.writeBuf ≠ []) :
    t.shutdown.maxReadSize = 0 := by
  rw [shutdown, if_neg (by simpa using h)]
  exact configureRead_maxReadSize t .stop

def Plain (calls : List LowerCall) : Prop :=
  ∀ call ∈ calls, ∃ bytes, call = .output bytes

theorem plain_maxReadSize (h : Plain calls) (t : Transport) :
    (t.callAll calls).maxReadSize = t.maxReadSize := by
  induction calls generalizing t with
  | nil => rfl
  | cons call calls ih =>
    obtain ⟨bytes, rfl⟩ := h call mem_cons_self
    exact ih (fun c hc => h c (mem_cons_of_mem _ hc)) _

end Transport

open Transport (called_callAll called_configureRead ready_iff sameData_abort
  step_sound takes_consume view_size)

variable {σ υ : Type}

/-- What can be said about a layer: during a run, when it waits for more bytes,
after it or the socket has failed, and when there is nothing more to prove.
`stream` has all bytes that the peer sends. -/
structure Phases (σ : Type) where
  stream : List Byte
  Live : σ → View → Prop
  Waiting : σ → View → Prop
  Dead : σ → Prop
  Gone : σ → Prop
  Done : σ → Prop

namespace Phases

inductive Goes (P : Phases σ) (L : Layer σ υ) (s : σ) (v : View) : Prop where
  | waits (a : Answer σ) (ha : L.consume s v.bytes v.delta = a)
      (hnext : a.next = none) (hwritten : a.written.length = v.size)
      (hzero : a.consumed = 0) (hcalls : a.calls = [])
      (hlive : P.Live a.state (v.waited a.written v.policy))
      (hwait : P.Waiting a.state (v.waited a.written v.policy))
  | grows (a : Answer σ) (ha : L.consume s v.bytes v.delta = a)
      (hnext : a.next = none) (hwritten : a.written.length = v.size)
      (hzero : a.consumed = 0) (rd : ReceivePolicy)
      (hcalls : a.calls = [.configureRead rd])
      (hmore : v.size ≤ rd.maxSize)
      (hlive : P.Live a.state (v.waited a.written rd))
      (hwait : min v.window.length rd.maxSize = v.size →
        v.window.length < rd.minSize ∨
          P.Waiting a.state (v.waited a.written rd))
  | takes (a : Answer σ) (ha : L.consume s v.bytes v.delta = a)
      (hnext : a.next = none) (hwritten : a.written.length = v.size)
      (hpos : 0 < a.consumed) (hfits : a.consumed.toNat ≤ v.size)
      (rd : ReceivePolicy) (hsets : Sets v.policy a.calls rd)
      (hlive : P.Live a.state (v.taken a.written a.consumed.toNat rd))
  | fails (a : Answer σ) (ha : L.consume s v.bytes v.delta = a)
      (hwritten : a.written.length = v.size) (hneg : a.consumed < 0)
      (hstop : ∀ t : Transport, (t.callAll a.calls).maxReadSize = 0)
      (hdead : ∀ reason, P.Dead (L.abort a.state reason).1)
  | done (a : Answer σ) (ha : L.consume s v.bytes v.delta = a)
      (hwritten : a.written.length = v.size)
      (hdone : P.Done (L.aborted a.state (a.reason v.size)).1)

theorem Goes.passes {P : Phases σ} {L : Layer σ υ} {s : σ} {v : View}
    {a : Answer σ} {n : Nat} {rd : ReceivePolicy}
    (ha : L.consume s v.bytes v.delta = a) (hnext : a.next = none)
    (hwrit : a.written = v.bytes) (hconsumed : a.consumed = n)
    (hfits : n ≤ v.size) (hsets : Sets v.policy a.calls rd)
    (hlive : ∀ offset, P.Live a.state ⟨rd, offset, v.window.drop n, v.received⟩)
    (hzero : n = 0 → a.calls = [] ∧ rd = v.policy ∧
        (∀ offset, P.Waiting a.state ⟨rd, offset, v.window, v.received⟩) ∨
      a.calls = [.configureRead rd] ∧ v.size ≤ rd.maxSize ∧
        (min v.window.length rd.maxSize = v.size →
          v.window.length < rd.minSize)) : P.Goes L s v := by
  have hlen : a.written.length = v.size := by
    rw [hwrit]
    exact v.length_bytes
  have hall : a.written ++ v.window.drop v.size = v.window := by
    rw [hwrit]
    exact take_append_drop _ _
  by_cases hn : n = 0
  · subst hn
    have hwaited : ∀ rd, v.waited a.written rd =
        ⟨rd, v.size, v.window, v.received⟩ := by
      simp [View.waited, hall]
    rcases hzero rfl with ⟨hcalls, rfl, hwaits⟩ | ⟨hcalls, hmore, hshort⟩
    · refine .waits a ha hnext hlen hconsumed hcalls ?_ ?_
      · rw [hwaited]
        exact hlive _
      · rw [hwaited]
        exact hwaits _
    · refine .grows a ha hnext hlen hconsumed rd hcalls hmore ?_
        (fun hsame => .inl (hshort hsame))
      rw [hwaited]
      exact hlive _
  · have hnat : a.consumed.toNat = n := by
      rw [hconsumed, Int.toNat_natCast]
    refine .takes a ha hnext hlen (by omega) (by omega) rd hsets ?_
    simp only [View.taken, hnat, hall]
    exact hlive _

structure Steady (P : Phases σ) (L : Layer σ υ) : Prop where
  read : ∀ {s v} chunk, P.Live s v → v.received ++ chunk <+: P.stream →
    P.Live s (v.read chunk)
  consume : ∀ {s v}, P.Live s v → v.Ready → P.Goes L s v
  plain : ∀ s reason, Transport.Plain (L.abort s reason).2
  abort : ∀ {s v} reason, P.Live s v → P.Gone (L.abort s reason).1
  abortDead : ∀ {s} reason, P.Dead s → P.Gone (L.abort s reason).1
  abortDone : ∀ {s} reason, P.Done s → P.Done (L.abort s reason).1
  consumeDone : ∀ {s} bytes delta, P.Done s →
    P.Done (L.consume s bytes delta).state

def Rests (P : Phases σ) (s : σ) (v : View) : Prop :=
  v.policy.maxSize = 0 ∨ v.window.length < v.policy.minSize ∨ P.Waiting s v

structure Alive (P : Phases σ) (c : Stack σ) : Prop where
  flow : c.transport.Flow
  live : P.Live c.layer c.transport.view
  rest : c.transport.looping = false → c.transport.reading = true →
    P.Rests c.layer c.transport.view

inductive Health (P : Phases σ) (c : Stack σ) : Prop where
  | live (halive : P.Alive c)
  | dead (hdead : P.Dead c.layer) (hstop : c.transport.maxReadSize = 0)
      (hidle : c.transport.looping = false)
      (hopen : c.transport.closed = false)
  | gone (hgone : P.Gone c.layer) (hidle : c.transport.looping = false)
      (hclosed : c.transport.closed = true)
  | done (hdone : P.Done c.layer)

variable {P : Phases σ} {L : Layer σ υ} {c d : Stack σ}

variable {s : σ} {a : Answer σ} {t : Transport} {e : Event}

theorem Health.alive (h : P.Health c) (hopen : c.transport.closed = false)
    (hdead : ¬ P.Dead c.layer) (hdone : ¬ P.Done c.layer) : P.Alive c := by
  cases h with
  | live halive => exact halive
  | dead h => exact absurd h hdead
  | gone _ _ hclosed => cases hclosed ▸ hopen
  | done h => exact absurd h hdone

theorem rests_of_not_ready (hflow : t.Flow) (hready : t.ready = false)
    (hread : t.reading = true) : P.Rests s t.view := by
  have hnot : ¬ t.view.Ready := by
    intro hview
    rw [(ready_iff hflow.room).mpr ⟨hread, hview⟩] at hready
    cases hready
  unfold View.Ready at hnot
  unfold Rests
  omega

def prepared (t : Transport) : Transport :=
  { t.grow t.maxReadSize with wantedWrite := false }

theorem kept_consume (t : Transport) (r : Reaction) :
    (t.consume r).received = t.received ∧
      (r.next = none → (t.consume r).closed = t.closed) := by
  have hrecv : (t.react r).received = t.received :=
    (called_callAll _ r.calls).received
  have hclosed : (t.react r).closed = t.closed :=
    (called_callAll _ r.calls).closed
  have hret := Transport.returned_consumed (t.react r) t.size r
  rw [Transport.consume, ← hrecv, ← hclosed]
  generalize (t.react r).consumed t.size r = u at hret ⊢
  cases hret with
  | aborted =>
    exact ⟨(sameData_abort _ _ r.abort).received,
      fun _ => (called_callAll _ r.abort).closed⟩
  | gone _ hsome | switched _ hsome =>
    exact ⟨(Transport.sameData_switch _ _).received, by simp [hsome]⟩
  | waits => exact ⟨rfl, fun _ => rfl⟩
  | again => exact ⟨rfl, fun _ => rfl⟩
  | takes _ _ _ hsame hclosed => exact ⟨hsame.received, fun _ => hclosed⟩

theorem prefix_abort (t : Transport) (reason : Error)
    (calls : List LowerCall) : t.received <+: (t.abort reason calls).received :=
  ⟨[], (append_nil _).trans
    (sameData_abort t reason calls).received.symm⟩

theorem received_read (t : Transport) (res : ReadResult) :
    t.received <+: (t.handleReadEvent res).received := by
  cases res with
  | data chunk policyData =>
    exact ⟨chunk ++ policyData, (append_assoc _ _ _).symm⟩
  | policyFails chunk abort =>
    exact ⟨chunk, (sameData_abort (t.fill chunk) _ abort).received.symm⟩
  | again => exact prefix_refl _
  | wantWrite => exact prefix_refl _
  | failed abort | disconnected abort => exact prefix_abort t _ abort

theorem kept_own (he : e = .consume ∨ e = .runScheduled)
    (hstep : c.step L e = some d) :
    d.transport.received = c.transport.received ∧
      ((∀ s bytes delta, (L.consume s bytes delta).next = none) →
        d.transport.closed = c.transport.closed) := by
  rcases he with rfl | rfl
  · obtain ⟨-, rfl⟩ := of_guard_map hstep
    exact (kept_consume _ _).imp_right fun hclosed hnext =>
      hclosed (hnext _ _ _)
  · obtain ⟨-, rfl⟩ := of_guard_map hstep
    exact ⟨rfl, fun _ => rfl⟩

theorem received_step (hstep : c.step L e = some d) :
    c.transport.received <+: d.transport.received := by
  cases e with
  | read res =>
    obtain ⟨-, rfl⟩ := of_guard_map hstep
    exact received_read (prepared c.transport) _
  | runScheduled =>
    exact ⟨[], (append_nil _).trans (kept_own (.inr rfl) hstep).1.symm⟩
  | consume =>
    exact ⟨[], (append_nil _).trans (kept_own (.inl rfl) hstep).1.symm⟩
  | written n =>
    cases hstep
    exact prefix_refl _
  | writeFails disconnected =>
    obtain ⟨-, rfl⟩ := of_guard hstep
    exact prefix_abort c.transport _ _

theorem Steady.doneAborted (h : P.Steady L) (hdone : P.Done s)
    (reason : Option Error) : P.Done (L.aborted s reason).1 := by
  cases reason with
  | none => exact hdone
  | some reason => exact h.abortDone reason hdone

theorem Steady.read_live (h : P.Steady L) (hc : P.Alive c) {res : SocketRead}
    (hres : res ≠ .wantWrite)
    (hstream : ((prepared c.transport).handleReadEvent
      (res.result (L.aborted c.layer res.reason).2)).received <+: P.stream) :
    P.Health { c with
      transport := (prepared c.transport).handleReadEvent
        (res.result (L.aborted c.layer res.reason).2)
      layer := (L.aborted c.layer res.reason).1 } := by
  have hflow' : (prepared c.transport).Flow := { hc.flow with
    room := Transport.room_grow hc.flow.room _, wanted := rfl }
  have hview : (prepared c.transport).view = c.transport.view :=
    Transport.view_grow hc.flow.room _
  cases res with
  | data chunk policyData =>
    have hdata := Transport.view_data hflow' chunk policyData
    rw [hview] at hdata
    refine .live ⟨hflow'.data chunk policyData, ?_, fun hidle hread => ?_⟩
    · have hrecv : _ = c.transport.received ++ (chunk ++ policyData) :=
        congrArg View.received hdata
      simp only [SocketRead.result, hdata]
      exact h.read _ hc.live (hrecv.symm ▸ hstream)
    · exact rests_of_not_ready (hflow'.data chunk policyData) hidle hread
  | again =>
    refine .live ⟨hflow', ?_, fun hidle hread => ?_⟩
    · simp only [SocketRead.result, Transport.handleReadEvent, hview]
      exact hc.live
    · simp only [SocketRead.result, Transport.handleReadEvent, hview]
      exact hc.rest hidle hread
  | wantWrite => exact absurd rfl hres
  | policyFails chunk | failed | disconnected =>
    exact .gone (h.abort _ hc.live) rfl rfl

section

variable (hflow : c.transport.Flow)
include hflow

section

variable (ha : L.consume c.layer c.transport.view.bytes
  c.transport.view.delta = a)
include ha

theorem answer_eq : c.answer L = a := by
  simp only [← ha, View.delta, Transport.view_bytes hflow.room]
  rfl

theorem carried_of_answer (hnext : a.next = none)
    (hwrit : a.written.length = c.transport.view.size) (hpos : 0 ≤ a.consumed)
    (hfits : a.consumed.toNat ≤ c.transport.view.size) {rd : ReceivePolicy}
    (hsets : Sets c.transport.view.policy a.calls rd) :
    let u := c.transport.consume (c.reaction L)
    (c.afterwards L).1 = a.state ∧ u.Flow ∧
      (u.view = if a.consumed = 0 then c.transport.view.waited a.written rd
        else c.transport.view.taken a.written a.consumed.toNat rd) ∧
      (u.looping = false → (a.consumed = 0 ∧ u.size = c.transport.size) ∨
        u.ready = false) := by
  have ha := answer_eq hflow ha
  rw [view_size hflow.room] at hwrit hfits
  refine ⟨?_, ?_⟩
  · rw [Stack.afterwards, ha, Answer.reason, if_neg (by omega),
      if_neg (by omega)]
    rfl
  · subst ha
    have hcarried : Transport.Carried c.transport (c.reaction L) rd _ :=
      Transport.carried_consume hflow hwrit hnext hpos hfits hsets
    exact ⟨hcarried.flow, hcarried.view, hcarried.rest⟩

end

theorem failed_of_answer
    (hplain : ∀ s reason, Transport.Plain (L.abort s reason).2)
    (hneg : (c.answer L).consumed < 0)
    (hstop : ∀ t : Transport, (t.callAll (c.answer L).calls).maxReadSize = 0) :
    let u := c.transport.consume (c.reaction L)
    c.afterwards L =
        L.abort (c.answer L).state ⟨.runtimeError, "consumed < 0"⟩ ∧
      u.looping = false ∧ u.closed = false ∧ u.maxReadSize = 0 := by
  have hafter : c.afterwards L =
      L.abort (c.answer L).state ⟨.runtimeError, "consumed < 0"⟩ := by
    rw [Stack.afterwards, Answer.reason, if_pos hneg]
    rfl
  refine ⟨hafter, ?_⟩
  rw [Transport.consume, Transport.consumed,
    if_pos (c := (c.reaction L).consumed < 0) hneg]
  refine ⟨rfl, ?_, (Transport.plain_maxReadSize ?_ _).trans (hstop _)⟩
  · exact (called_callAll _ _).closed.trans
      ((called_callAll _ _).closed.trans hflow.opened)
  · simp only [Stack.reaction, hafter]
    exact hplain _ _

end

theorem Steady.consume_live (h : P.Steady L) (hc : P.Alive c)
    (hloop : c.transport.looping = true) :
    P.Health { c with
      transport := c.transport.consume (c.reaction L)
      layer := (c.afterwards L).1 } := by
  have hflow := hc.flow
  have hready := (ready_iff hflow.room).mp (hflow.ready hloop)
  cases h.consume hc.live hready.2 with
  | waits a ha hnext hwrit hzero hcalls hlive' hwait =>
    have hsets : Sets c.transport.view.policy a.calls
        c.transport.view.policy := by
      rw [hcalls]
      exact .nothing
    obtain ⟨hstate, hflow', hview, -⟩ := carried_of_answer hflow ha hnext
      hwrit (by omega) (by omega) hsets
    rw [if_pos hzero] at hview
    refine .live ⟨hflow', ?_, fun _ _ => ?_⟩
    · simp only [hstate, hview]
      exact hlive'
    · simp only [hstate, hview]
      exact .inr (.inr hwait)
  | grows a ha hnext hwrit hzero rd hcalls hmore hlive' hwait =>
    have hsets : Sets c.transport.view.policy a.calls rd := by
      rw [hcalls]
      exact .last [] rd
    obtain ⟨hstate, hflow', hview, hrest⟩ := carried_of_answer hflow ha
      hnext hwrit (by omega) (by omega) hsets
    rw [if_pos hzero] at hview
    refine .live ⟨hflow', ?_, fun hidle hread => ?_⟩
    · simp only [hstate, hview]
      exact hlive'
    · rcases hrest hidle with ⟨-, hsize⟩ | hnot
      · have hlen : (c.transport.view.waited a.written rd).window.length =
            c.transport.view.window.length := by
          have hle : c.transport.view.size ≤ _ := Nat.min_le_left _ _
          simp only [View.waited, length_append, length_drop, hwrit]
          omega
        rw [← view_size hflow'.room, ← view_size hflow.room, hview, View.size,
          hlen] at hsize
        simp only [hstate, hview]
        refine .inr ((hwait hsize).imp_left fun hshort => ?_)
        rwa [hlen]
      · exact rests_of_not_ready hflow' hnot hread
  | takes a ha hnext hwrit hpos hfits rd hsets hlive' =>
    obtain ⟨hstate, hflow', hview, hrest⟩ := carried_of_answer hflow ha
      hnext hwrit (by omega) hfits hsets
    rw [if_neg (by omega)] at hview
    refine .live ⟨hflow', ?_, fun hidle hread => ?_⟩
    · simp only [hstate, hview]
      exact hlive'
    · rcases hrest hidle with ⟨hzero, -⟩ | hnot
      · omega
      · exact rests_of_not_ready hflow' hnot hread
  | fails a ha hwrit hneg hstop hdead =>
    obtain rfl := answer_eq hflow ha
    obtain ⟨hafter, hidle, hopen, hmax⟩ :=
      failed_of_answer hflow h.plain hneg hstop
    refine .dead ?_ hmax hidle hopen
    simp only [hafter]
    exact hdead _
  | done a ha hwrit hdone =>
    obtain rfl := answer_eq hflow ha
    rw [view_size hflow.room] at hdone
    exact .done hdone

theorem alive_runScheduled (hc : P.Alive c) :
    P.Alive { c with
      transport := { c.transport with
        scheduled := c.transport.scheduled - 1, reading := true }.loop } := by
  have hflow := @Transport.flow_loop { c.transport with
    scheduled := c.transport.scheduled - 1, reading := true }
    hc.flow.room (fun _ => .inl rfl) hc.flow.wanted hc.flow.opened
  refine ⟨hflow, hc.live, fun hidle hread => ?_⟩
  exact rests_of_not_ready hflow hidle hread

theorem Steady.step_health (h : P.Steady L) (hc : P.Health c)
    (he : e ≠ .read .wantWrite) (hstep : c.step L e = some d)
    (hstream : d.transport.received <+: P.stream) : P.Health d := by
  cases e with
  | read res =>
    have hres : res ≠ .wantWrite := fun heq => he (congrArg Event.read heq)
    obtain ⟨hcond, rfl⟩ := of_guard_map hstep
    simp only [Transport.idle, Bool.and_eq_true, Bool.not_eq_true'] at hcond
    cases hc with
    | live halive => exact h.read_live halive hres hstream
    | dead hdead hstop hidle hopen =>
      cases res with
      | data chunk policyData =>
        refine .dead hdead hstop ?_ hopen
        have hzero : ¬ 0 < c.transport.maxReadSize := by omega
        simp [SocketRead.result, Transport.handleReadEvent, Transport.loop,
          Transport.ready, Transport.fill, Transport.grow, hzero]
      | again | wantWrite => exact .dead hdead hstop hidle hopen
      | policyFails chunk | failed | disconnected =>
        exact .gone (h.abortDead _ hdead) rfl rfl
    | gone _ _ hclosed => cases hclosed ▸ hcond.1.1.2
    | done hdone => exact .done (h.doneAborted hdone _)
  | runScheduled =>
    obtain ⟨hcond, rfl⟩ := of_guard_map hstep
    simp only [Transport.idle, Bool.and_eq_true, Bool.not_eq_true'] at hcond
    cases hc with
    | live halive => exact .live (alive_runScheduled halive)
    | dead hdead hstop _ hopen =>
      refine .dead hdead hstop ?_ hopen
      have hzero : ¬ 0 < c.transport.maxReadSize := by omega
      simp [Transport.loop, Transport.ready, hzero]
    | gone _ _ hclosed => cases hclosed ▸ hcond.1.2
    | done hdone => exact .done hdone
  | consume =>
    obtain ⟨hcond, rfl⟩ := of_guard_map hstep
    simp only [Bool.and_eq_true] at hcond
    cases hc with
    | live halive => exact h.consume_live halive hcond.1
    | dead _ _ hidle | gone _ hidle => cases hidle ▸ hcond.1
    | done hdone =>
      exact .done (h.doneAborted (h.consumeDone _ _ hdone) _)
  | written n =>
    cases hstep
    cases hc with
    | live halive =>
      obtain ⟨hflow, hlive, hrest⟩ := halive
      exact .live ⟨{ hflow with }, hlive, hrest⟩
    | dead hdead hstop hidle hopen => exact .dead hdead hstop hidle hopen
    | gone hgone hidle hclosed => exact .gone hgone hidle hclosed
    | done hdone => exact .done hdone
  | writeFails disconnected =>
    obtain ⟨hcond, rfl⟩ := of_guard hstep
    simp only [Transport.idle, Bool.and_eq_true, Bool.not_eq_true'] at hcond
    cases hc with
    | live halive => exact .gone (h.abort _ halive.live) rfl rfl
    | dead hdead => exact .gone (h.abortDead _ hdead) rfl rfl
    | gone _ _ hclosed => cases hclosed ▸ hcond.1.2
    | done hdone => exact .done (h.abortDone _ hdone)

variable {events : List Event}

theorem Steady.exec_health (h : P.Steady L) (hevs : .read .wantWrite ∉ events)
    (hc : P.Health c) (hrun : exec (Stack.step L) c events = some d)
    (hstream : d.transport.received <+: P.stream) : P.Health d := by
  have halong : Along (Stack.step L) (fun _ e => e ≠ .read .wantWrite) c
      events :=
    .of_forall_mem (fun _ e he => by rintro rfl; exact hevs he) c
  refine exec_invariant_along
    (fun c => c.transport.received <+: P.stream → P.Health c)
    (fun c e c' hs hguard hstep hc' => ?_) (fun _ => hc) halong hrun hstream
  exact h.step_health (hs ((received_step hstep).trans hc')) hguard hstep hc'

end Phases

namespace Stack

def Settled (c : Stack σ) : Prop :=
  c.transport.looping = false ∧
    (c.transport.closed = true ∨ c.transport.scheduled = 0)

def Proceeds (L : Layer σ υ) (c d : Stack σ) : Prop :=
  ∃ events : List Event,
    (∀ e ∈ events, e = .consume ∨ e = .runScheduled) ∧
    exec (Stack.step L) c events = some d

theorem Proceeds.refl (L : Layer σ υ) (c : Stack σ) : Proceeds L c c :=
  ⟨[], by simp, rfl⟩

variable {L : Layer σ υ} {c d : Stack σ}

theorem Proceeds.head {c' : Stack σ} {e : Event}
    (he : e = .consume ∨ e = .runScheduled) (hstep : c.step L e = some c')
    (hrest : Proceeds L c' d) : Proceeds L c d := by
  obtain ⟨events, hown, hrun⟩ := hrest
  refine ⟨e :: events, ?_, exec_cons_eq_some.mpr ⟨c', hstep, hrun⟩⟩
  simpa using ⟨he, hown⟩

theorem Proceeds.kept (h : Proceeds L c d) :
    d.transport.received = c.transport.received ∧
      ((∀ s bytes delta, (L.consume s bytes delta).next = none) →
        d.transport.closed = c.transport.closed) := by
  obtain ⟨events, hown, hrun⟩ := h
  induction events generalizing c with
  | nil =>
    cases hrun
    exact ⟨rfl, fun _ => rfl⟩
  | cons e events ih =>
    obtain ⟨c', hstep, hrest⟩ := exec_cons_eq_some.mp hrun
    obtain ⟨he, hown⟩ := forall_mem_cons.mp hown
    obtain ⟨hrecv, hclosed⟩ := Phases.kept_own he hstep
    obtain ⟨hrecv', hclosed'⟩ := ih hown hrest
    exact ⟨hrecv'.trans hrecv,
      fun hnext => (hclosed' hnext).trans (hclosed hnext)⟩

end Stack

namespace Phases

variable {P : Phases σ} {L : Layer σ υ} {c d : Stack σ}

theorem step_runScheduled (hidle : c.transport.looping = false)
    (hopen : c.transport.closed = false) (hpos : 0 < c.transport.scheduled) :
    c.step L .runScheduled = some { c with
      transport := { c.transport with
        scheduled := c.transport.scheduled - 1, reading := true }.loop } := by
  simp [Stack.step, Transport.step, Transport.idle, hidle, hopen, hpos]

theorem settles_dead (hstop : c.transport.maxReadSize = 0)
    (hidle : c.transport.looping = false) (hopen : c.transport.closed = false) :
    ∃ d, Stack.Proceeds L c d ∧ d.Settled := by
  induction hn : c.transport.scheduled generalizing c with
  | zero => exact ⟨c, .refl L c, hidle, .inr hn⟩
  | succ n ih =>
    have hstep := @step_runScheduled _ _ L c hidle hopen (by omega)
    have hzero : ¬ 0 < c.transport.maxReadSize := by omega
    obtain ⟨d, hrest, hset⟩ := @ih { c with
      transport := { c.transport with
        scheduled := c.transport.scheduled - 1, reading := true }.loop }
      hstop (by simp [Transport.loop, Transport.ready, hzero]) hopen
      (by simp [Transport.loop, hn])
    exact ⟨d, .head (.inr rfl) hstep hrest, hset⟩

theorem step_consume (hloop : c.transport.looping = true)
    (hwrit : (c.answer L).written.length = c.transport.size) :
    c.step L .consume = some { c with
      transport := c.transport.consume (c.reaction L)
      layer := (c.afterwards L).1 } := by
  have hcond : (c.transport.looping && (c.reaction L).written.length ==
      c.transport.size) = true := by
    simp [hloop, Stack.reaction, hwrit]
  simp [Stack.step, Transport.step, hcond]

/-- The bytes that the layer is not shown yet, and the loop itself. -/
def gap (t : Transport) : Nat := 2 * (t.buffered - t.size) + t.looping.toNat

variable {t : Transport} {r : Reaction} {rd : ReceivePolicy} {s : σ}

theorem consume_zero (hzero : r.consumed = 0) (hnext : r.next = none) :
    t.consume r =
      if t.size = (t.react r).size then
        { t.react r with deltaOffset := t.size, looping := false }
      else { t.react r with deltaOffset := t.size }.loop := by
  simp [Transport.consume, Transport.consumed, hzero, hnext]

theorem gap_consume (hloop : t.looping = true) (hzero : r.consumed = 0)
    (hnext : r.next = none) (hbuf : (t.react r).buffered = t.buffered)
    (hmore : t.size ≤ (t.react r).maxReadSize) :
    (t.consume r).buffered = t.buffered ∧
      (t.consume r).scheduled = (t.react r).scheduled ∧
      gap (t.consume r) < gap t := by
  have hsize : t.size = min t.buffered t.maxReadSize := rfl
  have hsize' : (t.react r).size = min t.buffered (t.react r).maxReadSize := by
    rw [Transport.size, hbuf]
  rw [consume_zero hzero hnext]
  split_ifs with hsame
  · refine ⟨hbuf, rfl, ?_⟩
    change 2 * ((t.react r).buffered - (t.react r).size) + 0 <
      2 * (t.buffered - t.size) + t.looping.toNat
    rw [hbuf, ← hsame, hloop, Bool.toNat_true]
    omega
  · refine ⟨hbuf, rfl, ?_⟩
    have htoNat := Bool.toNat_le (Transport.ready { t.react r with
      deltaOffset := t.size })
    change 2 * ((t.react r).buffered - (t.react r).size) +
      (Transport.ready { t.react r with deltaOffset := t.size }).toNat <
      2 * (t.buffered - t.size) + t.looping.toNat
    rw [hbuf, hloop, Bool.toNat_true]
    omega

theorem scheduled_configureRead {t : Transport} (hpos : 0 < t.maxReadSize)
    (rd : ReceivePolicy) : (t.configureRead rd).scheduled = t.scheduled := by
  unfold Transport.configureRead
  rw [if_neg (by omega)]

def Sooner (t u : Transport) : Prop :=
  t.buffered < u.buffered ∨ t.buffered = u.buffered ∧
    (t.scheduled < u.scheduled ∨ t.scheduled = u.scheduled ∧ gap t < gap u)

theorem wellFounded_sooner : WellFounded Sooner := by
  refine Subrelation.wf (r := InvImage (Prod.Lex (· < ·) (Prod.Lex (· < ·)
    (· < ·))) fun t => (t.buffered, t.scheduled, gap t)) ?_ (InvImage.wf _
      (Prod.lex Nat.lt_wfRel (Prod.lex Nat.lt_wfRel Nat.lt_wfRel)).wf)
  intro t u h
  unfold Sooner at h
  simpa only [InvImage, Prod.lex_def] using h

theorem sooner_of_gap (hloop : t.looping = true) (hzero : r.consumed = 0)
    (hnext : r.next = none) (hmore : t.size ≤ (t.react r).maxReadSize)
    (hsched : (t.react r).scheduled = t.scheduled) :
    Sooner (t.consume r) t := by
  obtain ⟨hbuf, hsame, hgap⟩ := gap_consume hloop hzero hnext
    (called_callAll _ r.calls).buffered hmore
  exact .inr ⟨hbuf, .inr ⟨hsame.trans hsched, hgap⟩⟩

theorem Steady.consume_sooner (h : P.Steady L) (hc : P.Alive c)
    (hloop : c.transport.looping = true) :
    ∃ d, c.step L .consume = some d ∧
      (Sooner d.transport c.transport ∨
        d.transport.looping = false ∧ d.transport.closed = false ∧
          d.transport.maxReadSize = 0 ∨ P.Done d.layer) := by
  have hflow := hc.flow
  have hready := (ready_iff hflow.room).mp (hflow.ready hloop)
  have hpos : 0 < c.transport.maxReadSize := hready.2.1
  cases h.consume hc.live hready.2 with
  | waits a ha hnext hwrit hzero hcalls _ _ =>
    obtain rfl := answer_eq hflow ha
    rw [view_size hflow.room] at hwrit
    refine ⟨_, step_consume hloop hwrit, .inl ?_⟩
    have hreact : c.transport.react (c.reaction L) =
        (c.transport.record (c.reaction L)).overwrite
          (c.reaction L).written := by
      simp only [Transport.react, Stack.reaction, hcalls]
      rfl
    have hmax := congrArg Transport.maxReadSize hreact
    have hmore : c.transport.size ≤
        (c.transport.react (c.reaction L)).maxReadSize := by
      rw [hmax]
      exact Nat.min_le_right _ _
    exact sooner_of_gap hloop hzero hnext hmore
      ((congrArg Transport.scheduled hreact).trans rfl)
  | grows a ha hnext hwrit hzero rd hcalls hmore _ _ =>
    obtain rfl := answer_eq hflow ha
    rw [view_size hflow.room] at hwrit
    refine ⟨_, step_consume hloop hwrit, .inl ?_⟩
    have hreact : c.transport.react (c.reaction L) =
        ((c.transport.record (c.reaction L)).overwrite
          (c.reaction L).written).configureRead rd := by
      simp only [Transport.react, Stack.reaction, hcalls]
      rfl
    refine sooner_of_gap hloop hzero hnext ?_ ?_
    · rw [hreact, Transport.configureRead_maxReadSize]
      rw [view_size hflow.room] at hmore
      exact hmore
    · rw [hreact]
      exact @scheduled_configureRead ((c.transport.record
        (c.reaction L)).overwrite (c.reaction L).written) hpos rd
  | takes a ha hnext hwrit htook hfits rd hsets _ =>
    obtain rfl := answer_eq hflow ha
    rw [view_size hflow.room] at hwrit hfits
    refine ⟨_, step_consume hloop hwrit, .inl (.inl ?_)⟩
    have hbuf := (@takes_consume c.transport (c.reaction L)
      hflow.room hwrit).buffered
    rw [@Transport.taken_of_fits (c.reaction L) _ hfits (by
      simp [Stack.reaction, hnext])] at hbuf
    have hle := c.transport.size_le
    have htook' : 0 < (c.reaction L).consumed := htook
    simp only [hbuf]
    omega
  | fails a ha hwrit hneg hstop _ =>
    obtain rfl := answer_eq hflow ha
    rw [view_size hflow.room] at hwrit
    exact ⟨_, step_consume hloop hwrit,
      .inr (.inl (failed_of_answer hflow h.plain hneg hstop).2)⟩
  | done a ha hwrit hdone =>
    obtain rfl := answer_eq hflow ha
    rw [view_size hflow.room] at hwrit hdone
    exact ⟨_, step_consume hloop hwrit, .inr (.inr hdone)⟩

theorem Steady.settles (h : P.Steady L) (hc : P.Health c)
    (hstream : c.transport.received <+: P.stream) :
    ∃ d, Stack.Proceeds L c d ∧ (d.Settled ∨ P.Done d.layer) := by
  induction ht : c.transport using wellFounded_sooner.induction
    generalizing c with
  | h t ih =>
    subst ht
    cases hc with
    | live halive =>
      cases hloop : c.transport.looping with
      | true =>
        obtain ⟨c', hstep, hsooner | hdead | hdone⟩ :=
          h.consume_sooner halive hloop
        · have hstream' := (kept_own (.inl rfl) hstep).1.symm ▸ hstream
          have hc' := h.step_health (.live halive) (by simp) hstep hstream'
          obtain ⟨d, hproc, hd⟩ := ih _ hsooner hc' hstream' rfl
          exact ⟨d, .head (.inl rfl) hstep hproc, hd⟩
        · obtain ⟨hidle, hopen, hstop⟩ := hdead
          obtain ⟨d, hproc, hd⟩ :=
            @settles_dead _ _ L c' hstop hidle hopen
          exact ⟨d, .head (.inl rfl) hstep hproc, .inl hd⟩
        · exact ⟨c', .head (.inl rfl) hstep (.refl L c'), .inr hdone⟩
      | false =>
        by_cases hzero : c.transport.scheduled = 0
        · exact ⟨c, .refl L c, .inl ⟨hloop, .inr hzero⟩⟩
        · have hstep := @step_runScheduled _ _ L c hloop
            halive.flow.opened (by omega)
          have hsooner : Sooner (Transport.loop { c.transport with
              scheduled := c.transport.scheduled - 1
              reading := true }) c.transport := by
            refine .inr ⟨rfl, .inl ?_⟩
            simp only [Transport.loop]
            omega
          obtain ⟨d, hproc, hd⟩ := ih _ hsooner
            (.live (alive_runScheduled halive)) hstream rfl
          exact ⟨d, .head (.inr rfl) hstep hproc, hd⟩
    | dead hdead hstop hidle hopen =>
      obtain ⟨d, hproc, hd⟩ := @settles_dead _ _ L c hstop hidle hopen
      exact ⟨d, hproc, .inl hd⟩
    | gone hgone hidle hclosed =>
      exact ⟨c, .refl L c, .inl ⟨hidle, .inl hclosed⟩⟩
    | done hdone => exact ⟨c, .refl L c, .inr hdone⟩

theorem Steady.settles_safely (h : P.Steady L) (hc : P.Health c)
    (hstream : c.transport.received <+: P.stream) (hdone : ∀ s, ¬ P.Done s) :
    ∃ d, Stack.Proceeds L c d ∧ d.Settled := by
  obtain ⟨d, hproc, hd⟩ := h.settles hc hstream
  exact ⟨d, hproc, hd.resolve_right (hdone _)⟩

theorem Alive.rests (hc : P.Alive c) (hset : c.Settled) :
    P.Rests c.layer c.transport.view := by
  obtain ⟨hidle, hclosed | hzero⟩ := hset
  · cases hclosed ▸ hc.flow.opened
  · by_cases hpos : 0 < c.transport.maxReadSize
    · have hread := hc.flow.armed hpos
      exact hc.rest hidle (by simpa [hzero] using hread)
    · exact .inl (Nat.eq_zero_of_not_pos hpos)

variable {first : List Byte}

theorem health_established (hlive : P.Live s ⟨rd, 0, first, first⟩)
    (hmin : 0 < rd.minSize) : P.Health (Stack.established rd s first) := by
  have hwin : (Stack.established rd s first).transport.view =
      ⟨rd, 0, first, first⟩ := by
    have hsame := @called_configureRead
      { readBuf := first, buffered := first.length, received := first,
        stream := first } rd
    refine View.ext ?_ hsame.deltaOffset ?_ hsame.received
    · exact Transport.policy_callAll (.last [] rd)
    · exact hsame.window_eq.trans take_length
  have hflow : (Stack.established rd s first).transport.Flow := by
    refine ⟨?_, ?_, ?_, ?_, ?_⟩
    · exact Nat.le_of_eq (by
        simp [Stack.established, (called_configureRead _ rd).buffered,
          (called_configureRead _ rd).readBuf])
    · intro hloop
      cases (called_configureRead _ rd).looping ▸ hloop
    · exact Transport.armed_configureRead (fun h => absurd h (by simp)) rd
    · exact (called_configureRead _ rd).wantedWrite
    · exact (called_configureRead _ rd).closed
  refine .live ⟨hflow, ?_, fun _ hread => ?_⟩
  · rw [hwin]
    exact hlive
  · rw [hwin]
    unfold Rests
    by_cases hshort : first.length < rd.minSize
    · exact .inr (.inl hshort)
    · have hstart : 0 < first.length ∧ rd.minSize ≤ first.length := by omega
      by_cases hpos : 0 < rd.maxSize
      · simp [Stack.established, Transport.configureRead, hpos, hstart]
          at hread
      · exact .inl (Nat.eq_zero_of_not_pos hpos)

theorem first_received
    (hrun : exec (Stack.step L) (.established rd s first) events = some c) :
    first <+: c.transport.received := by
  have hsame := called_configureRead
    { readBuf := first, buffered := first.length, received := first,
      stream := first } rd
  refine exec_invariant (fun c => first <+: c.transport.received)
    (fun _ _ _ hs hstep => hs.trans (received_step hstep)) ?_ hrun
  exact ⟨[], (append_nil _).trans hsame.received.symm⟩

theorem received_established (stream : List Byte) :
    (Stack.established rd s stream).transport.received = stream :=
  (called_configureRead _ _).received

theorem whole_run {stream : List Byte}
    (hnext : ∀ s bytes delta, (L.consume s bytes delta).next = none)
    (h : Stack.Proceeds L (.established rd s stream) c) :
    c.transport.received = stream ∧ c.transport.closed = false ∧
      ∃ events : List Event, .read .wantWrite ∉ events ∧
        exec (Stack.step L) (.established rd s stream) events = some c := by
  refine ⟨h.kept.1.trans (received_established stream),
    (h.kept.2 hnext).trans (called_configureRead _ _).closed, ?_⟩
  obtain ⟨events, hown, hrun⟩ := h
  refine ⟨events, fun hmem => ?_, hrun⟩
  rcases hown _ hmem with heq | heq
  · cases heq
  · cases heq

end Phases

namespace Stack

structure Untouched (c : Stack σ) : Prop where
  sound : c.transport.Sound
  plain : ∀ call ∈ c.transport.consumes, call.written = call.bytes

variable {L : Layer σ υ} {c d : Stack σ}

theorem untouched_established (rd : ReceivePolicy) (s : σ)
    (first : List Byte) : (established rd s first).Untouched := by
  have hsame := called_configureRead
    { readBuf := first, buffered := first.length, received := first,
      stream := first } rd
  refine ⟨Transport.Sound.of_same ?_ hsame.toSameData, ?_⟩
  · exact ⟨Nat.le_refl _, take_length, rfl, Nat.zero_le _, rfl, by simp,
      by simp⟩
  · intro call hcall
    rw [established, hsame.consumes] at hcall
    cases hcall

theorem consumes_read (t : Transport) (res : ReadResult) :
    (t.handleReadEvent res).consumes = t.consumes := by
  cases res with
  | data chunk policyData => rfl
  | policyFails chunk abort =>
    exact (sameData_abort (t.fill chunk) _ abort).consumes
  | again => rfl
  | wantWrite => rfl
  | failed abort | disconnected abort =>
    exact (sameData_abort t _ abort).consumes

section

variable (hwrit : ∀ s bytes delta, (L.consume s bytes delta).written = bytes)
include hwrit

theorem untouched_step {e : Event} (h : c.Untouched)
    (hstep : c.step L e = some d) : d.Untouched := by
  cases e with
  | read res =>
    obtain ⟨t, ht, rfl⟩ := map_eq_some_iff.mp hstep
    refine ⟨step_sound h.sound ht, ?_⟩
    obtain ⟨-, rfl⟩ := of_guard ht
    simp only [consumes_read]
    exact h.plain
  | runScheduled =>
    obtain ⟨t, ht, rfl⟩ := map_eq_some_iff.mp hstep
    refine ⟨step_sound h.sound ht, ?_⟩
    obtain ⟨-, rfl⟩ := of_guard ht
    exact h.plain
  | consume =>
    obtain ⟨t, ht, rfl⟩ := map_eq_some_iff.mp hstep
    refine ⟨step_sound h.sound ht, ?_⟩
    obtain ⟨hcond, rfl⟩ := of_guard ht
    simp only [Bool.and_eq_true, beq_iff_eq] at hcond
    have hconsumes := (takes_consume h.sound.room hcond.2).consumes
    simp only [hconsumes]
    intro call hcall
    rcases mem_append.mp hcall with hold | hnew
    · exact h.plain call hold
    · rw [mem_singleton.mp hnew]
      exact hwrit _ _ _
  | written n =>
    cases hstep
    exact ⟨h.sound.of_same ⟨rfl, rfl, rfl, rfl, rfl, rfl, rfl⟩, h.plain⟩
  | writeFails disconnected =>
    obtain ⟨-, rfl⟩ := of_guard hstep
    refine ⟨h.sound.fail _ _, ?_⟩
    have hsame := sameData_abort c.transport
      (writeError disconnected) (L.abort c.layer (writeError disconnected)).2
    intro call hcall
    exact h.plain call (hsame.consumes ▸ hcall)

theorem untouched_run {rd : ReceivePolicy} {s : σ}
    (hrun : exec (Stack.step L) (.established rd s first) events = some c) :
    c.Untouched :=
  exec_invariant Untouched (fun _ _ _ => untouched_step hwrit)
    (untouched_established rd s first) hrun

end

end Stack

end ActorFramework.Net
