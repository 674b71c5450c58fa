import ActorFramework.Core.BinaryDeserializer
import ActorFramework.Foundation.Transition

/-!
# The stream of a connection

`write` appends to the offline buffer, and the event loop hands the write
buffer to the socket.  The two are swapped once the write buffer was sent.
When the socket has to read first, the stream waits for a successful read.

The state carries its history: the bytes passed to `write`, how many of them
are flushed, the bytes the socket took and, for every call to `send_fin`, how
many flushed bytes were not sent yet.
-/

namespace ActorFramework.Io.Network

open ActorFramework.Core Foundation List

inductive RwState where
  | failure
  | indeterminate
  | success
  | wantRead
  deriving DecidableEq

inductive ReceivePolicyFlag where
  | atLeast
  | atMost
  | exactly
  deriving DecidableEq

/-- `registered` and `readable` say which events the backend reports. -/
structure Stream where
  rdFlag : ReceivePolicyFlag := .atMost
  max : Nat := 1024
  readThreshold : Nat := 1
  collected : Nat := 0
  readable : Bool := true
  written : Nat := 0
  wrBuf : List Byte := []
  wrOfflineBuf : List Byte := []
  wrOpBackoff : Bool := false
  writing : Bool := false
  shuttingDown : Bool := false
  registered : Bool := false
  passed : List Byte := []
  flushed : Nat := 0
  sent : List Byte := []
  fins : List Nat := []

namespace Stream

variable (s : Stream)

def configureRead (flag : ReceivePolicyFlag) (max : Nat) : Stream :=
  { s with rdFlag := flag, max := max }

def write (bytes : List Byte) : Stream :=
  { s with
    wrOfflineBuf := s.wrOfflineBuf ++ bytes, passed := s.passed ++ bytes }

def sendFin : Stream :=
  { s with fins := s.fins ++ [s.flushed - s.sent.length] }

def prepareNextRead : Stream :=
  { s with
    collected := 0
    readThreshold := if s.rdFlag = .atMost then 1 else s.max }

def prepareNextWrite : Stream :=
  if s.wrOfflineBuf = [] ∨ s.wrOpBackoff then
    let s := { s with
      written := 0, wrBuf := [], writing := false, registered := false }
    if s.shuttingDown then s.sendFin else s
  else { s with written := 0, wrBuf := s.wrOfflineBuf, wrOfflineBuf := [] }

def flush : Stream :=
  let s := { s with flushed := s.passed.length }
  if s.wrOfflineBuf ≠ [] ∧ !s.writing ∧ !s.wrOpBackoff then
    { s with registered := true, writing := true }.prepareNextWrite
  else s

def gracefulShutdown : Stream :=
  if s.shuttingDown then s
  else
    let s := { s with shuttingDown := true }
    if s.writing then s else s.sendFin

def forceEmptyWrite : Stream :=
  if s.writing then s else { s with registered := true, writing := true }

def collect (rb : Nat) (consumes : Bool) : Stream × Bool :=
  if rb = 0 then (s, false)
  else
    let s := { s with collected := s.collected + rb }
    if s.readThreshold ≤ s.collected then
      ({ s.prepareNextRead with readable := s.readable && consumes }, consumes)
    else (s, true)

def handleReadResult (res : RwState) (rb : Nat)
    (consumes : Bool) : Stream × Bool :=
  match res with
  | .failure => ({ s with readable := false }, false)
  | .indeterminate => (s, false)
  | .success =>
    if s.wrOpBackoff then
      { s with
        registered := true, writing := true
        wrOpBackoff := false }.collect rb consumes
    else s.collect rb consumes
  | .wantRead => s.collect rb consumes

def transferred (wb : Nat) : Stream :=
  let s := { s with written := s.written + wb }
  if s.wrBuf.length - s.written = 0 then s.prepareNextWrite else s

def handleWriteResult (res : RwState) (wb : Nat) : Stream :=
  match res with
  | .failure => { s with registered := false }
  | .indeterminate => s.prepareNextWrite
  | .wantRead =>
    let s := { s with registered := false, wrOpBackoff := true }
    if wb = 0 then s else s.transferred wb
  | .success => s.transferred wb

def handleWriteEvent (res : RwState) (wb : Nat) : Stream :=
  { s with
    sent := s.sent ++ (s.wrBuf.drop s.written).take wb }.handleWriteResult
      res wb

inductive Action where
  | configureRead (flag : ReceivePolicyFlag) (max : Nat)
  | write (bytes : List Byte)
  | flush
  | forceEmptyWrite
  | gracefulShutdown
  | read (res : RwState) (rb : Nat) (consumes : Bool)
  | send (res : RwState) (wb : Nat)

def step : Action → Option Stream
  | .configureRead flag max => some (s.configureRead flag max)
  | .write bytes => some (s.write bytes)
  | .flush => some s.flush
  | .forceEmptyWrite => some s.forceEmptyWrite
  | .gracefulShutdown => some s.gracefulShutdown
  | .read res rb consumes => some (s.handleReadResult res rb consumes).1
  | .send res wb =>
    if s.registered ∧ s.written + wb ≤ s.wrBuf.length ∧ res ≠ .failure ∧
        (res = .indeterminate → s.written = s.wrBuf.length) then
      some (s.handleWriteEvent res wb)
    else none

def pending : Nat :=
  s.flushed + s.wrOfflineBuf.length - s.passed.length

/-- No flushed bytes are in the offline buffer when a stream that backs off
shuts down, or completes its write buffer while it shuts down. -/
def Orderly : Action → Prop
  | .gracefulShutdown =>
    s.shuttingDown = false → s.writing = false → s.wrOpBackoff = true →
      s.pending = 0
  | .send res wb =>
    s.shuttingDown = true → s.written + wb = s.wrBuf.length →
      (if res = .wantRead then 0 < wb else s.wrOpBackoff = true) →
      s.pending = 0
  | _ => True

/-- `orderly` stands for the condition on the steps so far. -/
structure Inv (orderly : Prop) (s : Stream) : Prop where
  passed : s.passed = s.sent ++ s.wrBuf.drop s.written ++ s.wrOfflineBuf
  flushed : s.flushed ≤ s.passed.length
  awake : s.registered = true → s.writing = true
  active : s.writing = true → s.registered = true ∨ s.wrOpBackoff = true
  idle : s.writing = false → s.wrBuf = []
  drained : s.writing = false → s.wrOpBackoff = false →
    s.flushed ≤ s.sent.length
  fins : orderly → ∀ unsent ∈ s.fins, unsent = 0

variable {orderly : Prop} {s t : Stream} {res : RwState} {wb : Nat}

section

variable (h : Inv orderly s)
include h

theorem Inv.length_passed (hsent : s.wrBuf.length ≤ s.written) :
    s.passed.length = s.sent.length + s.wrOfflineBuf.length := by
  rw [h.passed, drop_of_length_le hsent]
  simp

theorem Inv.sendFin (hsent : orderly → s.flushed ≤ s.sent.length) :
    Inv orderly s.sendFin := by
  refine { h with fins := fun hord unsent hmem => ?_ }
  rcases mem_append.mp hmem with hmem | hmem
  · exact h.fins hord unsent hmem
  · have hle := hsent hord
    rw [mem_singleton.mp hmem]
    omega

theorem Inv.prepareNextWrite (hwriting : s.writing = true)
    (hsent : s.wrBuf.length ≤ s.written)
    (hpend : orderly → s.shuttingDown = true → s.wrOpBackoff = true → s.pending
      = 0) : Inv orderly s.prepareNextWrite := by
  have hlen := h.length_passed hsent
  have hflushed := h.flushed
  have hpassed := h.passed
  rw [drop_of_length_le hsent] at hpassed
  unfold Stream.prepareNextWrite
  split_ifs with hstops
  · have hstopped : Inv orderly { s with
        written := 0, wrBuf := [], writing := false, registered := false } := by
      refine { h with
        passed := hpassed, awake := nofun, active := nofun,
        idle := fun _ => rfl, drained := fun _ hgoes => ?_ }
      have hempty := hstops.resolve_right (by simpa using hgoes)
      simp_all
    simp only
    split_ifs with hshutting
    · refine hstopped.sendFin fun hord => ?_
      simp only
      rcases hstops with hempty | hbackoff
      · simp_all
      · have hnone := hpend hord hshutting hbackoff
        unfold pending at hnone
        omega
    · exact hstopped
  · refine { h with
      passed := by simpa using hpassed, idle := ?_, drained := ?_ }
    · simp [hwriting]
    · simp [hwriting]

theorem Inv.flush : Inv orderly s.flush := by
  have hpassed := h.passed
  unfold Stream.flush
  simp only
  split
  · refine Inv.prepareNextWrite { h with
      flushed := Nat.le_refl _, awake := fun _ => rfl
      active := fun _ => .inl rfl, idle := nofun, drained := nofun } rfl ?_ ?_
    · simp_all [h.idle]
    · simp_all
  · refine { h with flushed := Nat.le_refl _, drained := fun hidle hgoes => ?_ }
    simp_all [h.idle]

theorem Inv.collect (rb : Nat) (consumes : Bool) :
    Inv orderly (s.collect rb consumes).1 := by
  unfold Stream.collect
  split
  · exact h
  · simp only
    split <;> exact { h with }

theorem Inv.handleReadResult (res : RwState) (rb : Nat) (consumes : Bool) :
    Inv orderly (s.handleReadResult res rb consumes).1 := by
  cases res with
  | failure => exact { h with }
  | indeterminate => exact h
  | wantRead => exact h.collect rb consumes
  | success =>
    simp only [Stream.handleReadResult]
    split
    · refine Inv.collect ?_ rb consumes
      exact { h with
        awake := fun _ => rfl, active := fun _ => .inl rfl
        idle := nofun, drained := nofun }
    · exact h.collect rb consumes

theorem Inv.transferred {moved : Stream} (hwriting : s.writing = true)
    (hmoved : moved = { s with
      sent := s.sent ++ (s.wrBuf.drop s.written).take wb })
    (hpend : orderly → s.shuttingDown = true → s.written + wb = s.wrBuf.length →
      s.wrOpBackoff = true → s.pending = 0)
    (hle : s.written + wb ≤ s.wrBuf.length) :
    Inv orderly (moved.transferred wb) := by
  subst hmoved
  have hmoved : Inv orderly { s with
      sent := s.sent ++ (s.wrBuf.drop s.written).take wb
      written := s.written + wb } := by
    refine { h with passed := ?_, drained := by simp [hwriting] }
    have hsplit := take_append_drop wb (s.wrBuf.drop s.written)
    simp only [h.passed, append_assoc, append_cancel_left_eq]
    rw [← append_assoc, ← drop_drop, hsplit]
  unfold Stream.transferred
  simp only
  split_ifs with hnone
  · refine hmoved.prepareNextWrite hwriting (Nat.sub_eq_zero_iff_le.mp hnone) ?_
    exact fun ho hshutting => hpend ho hshutting (by omega)
  · exact hmoved

theorem Inv.handleWriteEvent (hord : orderly → Orderly s (.send res wb))
    (hreg : s.registered = true) (hle : s.written + wb ≤ s.wrBuf.length)
    (hfail : res ≠ .failure)
    (hnothing : res = .indeterminate → s.written = s.wrBuf.length) :
    Inv orderly (s.handleWriteEvent res wb) := by
  have hwriting := h.awake hreg
  cases res with
  | failure => exact absurd rfl hfail
  | success =>
    refine h.transferred hwriting rfl (fun ho hshutting hall hbackoff => ?_) hle
    exact hord ho hshutting hall (by simpa using hbackoff)
  | indeterminate =>
    have hall := hnothing rfl
    obtain rfl : wb = 0 := by omega
    simp only [Stream.handleWriteEvent, handleWriteResult, take_zero,
      append_nil]
    refine h.prepareNextWrite hwriting (Nat.le_of_eq hall.symm) ?_
    exact fun ho hshutting hbackoff =>
      hord ho hshutting hall (by simpa using hbackoff)
  | wantRead =>
    have hbacks : Inv orderly { s with
        registered := false, wrOpBackoff := true } :=
      { h with awake := nofun, active := fun _ => .inr rfl, drained := nofun }
    simp only [Stream.handleWriteEvent, handleWriteResult]
    split
    · rename_i hzero
      simpa [hzero] using hbacks
    · rename_i hsome
      refine hbacks.transferred hwriting rfl (fun ho hshutting hall _ => ?_) hle
      exact hord ho hshutting hall (Nat.pos_of_ne_zero hsome)

theorem step_inv {a : Action} (hord : orderly → Orderly s a)
    (hstep : s.step a = some t) : Inv orderly t := by
  cases a with
  | send res wb =>
    obtain ⟨⟨hreg, hle, hfail, hnothing⟩, rfl⟩ := of_guard hstep
    exact h.handleWriteEvent hord hreg hle hfail hnothing
  | configureRead flag max =>
    cases hstep
    exact { h with }
  | write bytes =>
    cases hstep
    refine { h with passed := ?_, flushed := ?_ }
    · simp [write, h.passed]
    · exact Nat.le_trans h.flushed (by simp [write])
  | flush =>
    cases hstep
    exact h.flush
  | forceEmptyWrite =>
    cases hstep
    unfold forceEmptyWrite
    split
    · exact h
    · exact { h with
        awake := fun _ => rfl, active := fun _ => .inl rfl
        idle := nofun, drained := nofun }
  | gracefulShutdown =>
    cases hstep
    unfold gracefulShutdown
    split_ifs with hagain
    · exact h
    rw [Bool.not_eq_true] at hagain
    simp only
    split_ifs with hidle
    · exact { h with }
    · rw [Bool.not_eq_true] at hidle
      refine Inv.sendFin { h with } fun ho => ?_
      cases hbackoff : s.wrOpBackoff with
      | false => exact h.drained hidle hbackoff
      | true =>
        have hnone := hord ho hagain hidle hbackoff
        have hlen := h.length_passed (by simp [h.idle hidle])
        unfold pending at hnone
        simp only
        omega
  | read res rb consumes =>
    cases hstep
    exact h.handleReadResult res rb consumes

end

theorem inv_initial : Inv orderly {} :=
  ⟨rfl, Nat.le_refl _, nofun, nofun, fun _ => rfl, fun _ _ => Nat.le_refl _,
    nofun⟩

/-- The socket gets the bytes in order, no flushed byte is forgotten and, in
orderly runs, the FIN follows all flushed bytes. -/
theorem sends_in_order {actions : List Action}
    (hrun : exec step {} actions = some s) :
    s.sent <+: s.passed ∧
      (s.sent.length < s.flushed → s.registered = true ∨
        ∀ rb consumes,
          (s.handleReadResult .success rb consumes).1.registered = true) ∧
      (Along step Orderly {} actions → ∀ unsent ∈ s.fins, unsent = 0) := by
  have hs : Inv False s :=
    exec_invariant (Inv False) (fun _ _ _ h => step_inv h nofun) inv_initial
      hrun
  refine ⟨⟨_, (List.append_assoc _ _ _).symm.trans hs.passed.symm⟩,
    fun hunsent => ?_, fun horderly => ?_⟩
  · have hwaits : s.registered = true ∨ s.wrOpBackoff = true := by
      cases hwriting : s.writing with
      | true => exact hs.active hwriting
      | false =>
        refine .inr (Bool.of_not_eq_false fun hgoes => ?_)
        have hsent := hs.drained hwriting hgoes
        omega
    refine hwaits.imp_right fun hbackoff rb consumes => ?_
    simp only [handleReadResult, hbackoff, if_true, collect]
    split_ifs <;> rfl
  · have hs := exec_invariant_along (Inv True)
      (fun _ _ _ h horderly => step_inv h fun _ => horderly) inv_initial
      horderly hrun
    exact hs.fins trivial

/-- The handshake of the socket delays the byte, and the FIN with it. -/
theorem sends_in_order_handshake :
    ∃ s, exec step {} [.forceEmptyWrite, .send .wantRead 0, .write [1#8],
        .flush, .gracefulShutdown, .read .success 0 true,
        .send .indeterminate 0, .send .success 1] = some s ∧
      s.fins = [0] ∧ s.sent <+: s.passed := by
  refine exists_of_map fins [0] (by decide) ?_
  intro s hrun hfins
  exact ⟨hfins, (sends_in_order hrun).1⟩

/-- The socket takes the first byte and wants to read.  The FIN comes before
the second byte, which is flushed as well. -/
theorem fin_before_flushed :
    (exec step {} [.write [1#8], .flush, .write [2#8], .flush,
      .gracefulShutdown, .send .wantRead 1]).map
        (fun s => (s.sent, s.flushed, s.fins)) = some ([1#8], 2, [1]) := by
  decide

end Stream

end ActorFramework.Io.Network
