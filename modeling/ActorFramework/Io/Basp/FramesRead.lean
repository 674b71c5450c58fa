import ActorFramework.Io.Basp.BrokerRouting
import ActorFramework.Io.Basp.Frames

/-!
# Reading frames with the broker

The broker reads as much as it has configured for the connection.  After a whole
frame it waits for the next header, or it has no context any more, which is the
same for what is read next.
-/

namespace ActorFramework.Io.Basp

open ActorFramework.Core List

variable {υ ν : Type}

namespace Broker

def endpoint (b : Broker υ ν) (hdl : ConnectionHandle) : Endpoint :=
  ⟨(b.context hdl).state, (b.context hdl).hdr⟩

variable [DecidableEq υ]

def readAll (b : Broker υ ν) (codec : Codec υ ν) (hdl : ConnectionHandle)
    (input : List Byte) : Nat → Except Fault (Broker υ ν × List Byte)
  | 0 => .ok (b, input)
  | fuel + 1 =>
    let size := (b.endpoint hdl).readSize
    if input = [] ∨ input.length < size then .ok (b, input)
    else do
      let b ← b.newData codec hdl (input.take size)
      readAll b codec hdl (input.drop size) fuel

def complete (b : Broker υ ν) (codec : Codec υ ν) (hdl : ConnectionHandle)
    (hdr : Header) (payload : Option (List Byte)) :
    Except Fault (Broker υ ν) := do
  let (b, next) ← b.handle codec hdl hdr payload
  .ok (b.proceed hdl hdr next)

def handleFrame (b : Broker υ ν) (codec : Codec υ ν)
    (hdl : ConnectionHandle) (frame : Basp.Frame) : Except Fault (Broker υ ν) :=
  if frame.hdr.payloadLen ≠ 0 then
    let b := (b.setContext hdl).proceed hdl frame.hdr .awaitPayload
    (b.setContext hdl).complete codec hdl frame.hdr (some frame.payload)
  else (b.setContext hdl).complete codec hdl frame.hdr none

section

variable {codec : Codec υ ν} {hdl : ConnectionHandle} {b : Broker υ ν}
  {buf : List Byte} {hdr : Header}

theorem newData_spec (b : Broker υ ν) (codec : Codec υ ν)
    (hdl : ConnectionHandle) (buf : List Byte) :
    match (b.endpoint hdl).receive buf with
    | .malformed => True
    | .await hdr => b.newData codec hdl buf =
        .ok ((b.setContext hdl).proceed hdl hdr .awaitPayload)
    | .message hdr payload => b.newData codec hdl buf =
        (b.setContext hdl).complete codec hdl hdr payload := by
  by_cases hstate : (b.context hdl).state = .awaitPayload
  · simp only [Endpoint.receive, Broker.endpoint, newData, handleData,
      hstate, decide_true, if_true, complete]
    split_ifs with hlen
    · trivial
    · dsimp only
      cases (b.setContext hdl).handle codec hdl (b.context hdl).hdr (some buf)
        <;> rfl
  · simp only [Endpoint.receive, Broker.endpoint, newData, handleData,
      hstate, decide_false, Bool.false_eq_true, if_false, complete]
    cases Header.load buf with
    | none => trivial
    | some loaded =>
      simp only
      split_ifs with hvalid hpay
      · trivial
      · rfl
      · dsimp only
        cases (b.setContext hdl).handle codec hdl loaded.1 none <;> rfl

theorem newData_await (h : (b.endpoint hdl).receive buf = .await hdr) :
    b.newData codec hdl buf =
      .ok ((b.setContext hdl).proceed hdl hdr .awaitPayload) := by
  simpa only [h] using b.newData_spec codec hdl buf

variable {payload : Option (List Byte)} {next : ConnectionState}
  {b' : Broker υ ν}

theorem newData_message
    (h : (b.endpoint hdl).receive buf = .message hdr payload) :
    b.newData codec hdl buf =
      (b.setContext hdl).complete codec hdl hdr payload := by
  simpa only [h] using b.newData_spec codec hdl buf

theorem context_proceed (hnext : next.requiresShutdown = false) :
    (b.proceed hdl hdr next).endpoint hdl = ⟨next, hdr⟩ := by
  rw [proceed, if_neg (by simp [hnext])]
  simp [endpoint, context]

theorem context_shutdown (hnext : next.requiresShutdown = true) :
    ((b.proceed hdl hdr next).endpoint hdl).state = .awaitHeader := by
  have herase : ∀ (b : Broker υ ν) (code : Sec),
      (b.eraseContext hdl code).contexts.lookup hdl = none := by
    intro b code
    rw [eraseContext]
    split
    · assumption
    · exact AList.lookup_erase _ _
  rw [proceed, if_pos hnext]
  change ((((b.disconnect hdl next.toSec).eraseContext hdl
    next.toSec).contexts.lookup hdl).getD freshContext).state = _
  rw [herase]
  rfl

theorem handle_not_awaitPayload
    (h : b.handle codec hdl hdr payload = .ok (b', next)) :
    next ≠ .awaitPayload := by
  have hdirect : ∀ {b : Broker υ ν} {bytes : List Byte},
      b.directMessage codec hdl hdr bytes = .ok (b', next) →
        next ≠ .awaitPayload := by
    intro b bytes h
    simp only [directMessage] at h
    split at h
    · cases h
      decide
    · obtain ⟨c, -, hc⟩ := ok_of_bind h
      cases hc
      decide
  have hres : ∀ {r : Broker υ ν × ConnectionState},
      (.ok r : Except Fault (Broker υ ν × ConnectionState)) =
        .ok (b', next) → r.2 ≠ .awaitPayload → next ≠ .awaitPayload := by
    intro r h hr
    cases h
    exact hr
  unfold handle at h
  split at h
  · cases h
    decide
  · cases payload with
    | none =>
      split at h
      case h_7 =>
        cases h
        decide
      all_goals contradiction
    | some bytes =>
      split at h
      · refine hres h ?_
        unfold serverHandshake
        repeat' split
        all_goals simp
      · refine hres h ?_
        unfold clientHandshake
        repeat' split
        all_goals simp
      · change b.routedMessage codec hdl hdr bytes = _ at h
        unfold routedMessage at h
        split at h
        · cases h
          decide
        · split at h
          · cases h
            decide
          · exact hdirect h
      · exact hdirect h
      · refine hres h ?_
        unfold monitorMessage
        repeat' split
        all_goals simp
      · refine hres h ?_
        unfold downMessage
        repeat' split
        all_goals simp
      · cases h
        decide

theorem state_complete (h : b.complete codec hdl hdr payload = .ok b') :
    (b'.endpoint hdl).state = .awaitHeader := by
  obtain ⟨⟨c, next⟩, hhandle, hproceed⟩ := ok_of_bind h
  cases hproceed
  have hnext := handle_not_awaitPayload hhandle
  cases hshutdown : next.requiresShutdown with
  | true => exact context_shutdown hshutdown
  | false =>
    change ((c.proceed hdl hdr next).endpoint hdl).state = _
    rw [context_proceed hshutdown]
    cases next <;> first | rfl | contradiction

theorem state_handleFrame {frame : Basp.Frame}
    (h : b.handleFrame codec hdl frame = .ok b') :
    (b'.endpoint hdl).state = .awaitHeader := by
  unfold handleFrame at h
  split at h
  · exact state_complete h
  · exact state_complete h

theorem readAll_front {front rest : List Byte}
    (hsize : front.length = (b.endpoint hdl).readSize) (hne : front ≠ [])
    (fuel : Nat) :
    b.readAll codec hdl (front ++ rest) (fuel + 1) =
      b.newData codec hdl front >>= fun b =>
        b.readAll codec hdl rest fuel := by
  rw [readAll, if_neg (enough_data hsize hne rest)]
  simp [← hsize]

theorem readAll_frame (hstate : (b.endpoint hdl).state = .awaitHeader)
    {frame : Basp.Frame} (hframe : frame.Valid) (rest : List Byte)
    (fuel : Nat) :
    ∃ left, fuel ≤ left ∧
      b.readAll codec hdl (frame.bytes ++ rest) (fuel + 2) =
        b.handleFrame codec hdl frame >>= fun b =>
          b.readAll codec hdl rest left := by
  obtain ⟨hdr, payload⟩ := frame
  obtain ⟨hheader, hne, ⟨hpay, rfl, hreceive⟩ |
    ⟨hpay, hnonempty, hreceive⟩⟩ := Endpoint.arrives hframe hstate
  · refine ⟨fuel + 1, Nat.le_succ fuel, ?_⟩
    rw [Frame.bytes, append_nil, readAll_front hheader hne,
      newData_message hreceive, handleFrame, if_neg (by simpa using hpay)]
  · refine ⟨fuel, Nat.le_refl fuel, ?_⟩
    have hsize := hframe.size
    have hcontext := @context_proceed υ ν _ hdl (b.setContext hdl) hdr
      .awaitPayload rfl
    have hmsg := Endpoint.receive_payload hsize
    rw [← hcontext] at hmsg
    rw [Frame.bytes, append_assoc, readAll_front hheader hne,
      newData_await hreceive, handleFrame, if_pos hpay]
    change readAll _ codec hdl (payload ++ rest) (fuel + 1) = _
    rw [readAll_front (by rw [hcontext]; exact hsize.symm) hnonempty,
      newData_message hmsg]

theorem readAll_nil (fuel : Nat) :
    b.readAll codec hdl [] fuel = .ok (b, []) := by
  cases fuel with
  | zero => rfl
  | succ fuel => rw [readAll, if_pos (.inl rfl)]

theorem readAll_frames {frames : List Basp.Frame}
    (h : ∀ frame ∈ frames, frame.Valid) {b : Broker υ ν}
    (hstate : (b.endpoint hdl).state = .awaitHeader) {fuel : Nat}
    (hfuel : 2 * frames.length ≤ fuel) :
    b.readAll codec hdl (frames.flatMap Frame.bytes) fuel =
      frames.foldlM (fun b => b.handleFrame codec hdl) b >>=
        fun b => .ok (b, []) := by
  induction frames generalizing b fuel with
  | nil => exact readAll_nil fuel
  | cons frame frames ih =>
    rw [length_cons] at hfuel
    obtain ⟨fuel, rfl⟩ := Nat.exists_eq_add_of_le' (show 2 ≤ fuel by omega)
    obtain ⟨left, hleft, hread⟩ := @readAll_frame _ _ _ codec _ _ hstate _
      (h frame mem_cons_self) (frames.flatMap Frame.bytes) fuel
    rw [flatMap_cons, hread, foldlM_cons]
    cases hframe : b.handleFrame codec hdl frame with
    | error fault => rfl
    | ok c =>
      exact ih (fun f hf => h f (mem_cons_of_mem frame hf))
        (state_handleFrame hframe) (by omega)

end

end Broker

namespace Output

def Announced : Output → Prop
  | .write hdr none => hdr.payloadLen = 0
  | .write _ (some _) => True
  | .forward hdr payload => hdr.payloadLen.toNat = payload.length

structure WellFormed (output : Output) : Prop where
  succeeds : output.Succeeds
  valid : output.frame.hdr.valid = true
  short : output.frame.payload.length < 2 ^ 32
  announced : output.Announced

theorem WellFormed.frame {output : Output} (h : output.WellFormed) :
    output.frame.Valid := by
  refine ⟨h.valid, ?_⟩
  cases output with
  | forward hdr payload => exact h.announced
  | write hdr pw =>
    cases pw with
    | none => exact congrArg BitVec.toNat h.announced
    | some pw => exact Nat.mod_eq_of_lt h.short

end Output

open Broker in
/-- Frames that are written to one buffer are read back in order, down to the
last byte, and the broker handles them one after the other. -/
theorem written_frames_read_back {outputs : List Output}
    (h : ∀ output ∈ outputs, output.WellFormed) :
    (∀ ep : Endpoint, ep.state = .awaitHeader →
      ∃ last, last.state = .awaitHeader ∧
        ep.read (outputs.foldl Output.append [])
            (outputs.foldl Output.append []).length =
          (outputs.map Output.frame, last, [])) ∧
      ∀ {υ ν : Type} [DecidableEq υ] (codec : Codec υ ν) (b : Broker υ ν)
        (hdl : ConnectionHandle), (b.endpoint hdl).state = .awaitHeader →
        b.readAll codec hdl (outputs.foldl Output.append [])
            (outputs.foldl Output.append []).length =
          (outputs.map Output.frame).foldlM
              (fun b frame => b.handleFrame codec hdl frame) b >>=
            fun b => .ok (b, []) := by
  have hbuf := foldl_append (fun o ho => (h o ho).succeeds) []
  rw [List.nil_append] at hbuf
  have hframes := List.forall_mem_map.mpr fun o ho => (h o ho).frame
  rw [hbuf]
  exact ⟨fun ep hep => Endpoint.read_frames hframes hep (length_le_bytes _),
    fun codec b hdl hstate =>
      readAll_frames hframes hstate (length_le_bytes _)⟩

/-- A heartbeat, a message of two bytes, and one that is forwarded. -/
theorem written_frames_read_back_three :
    ∃ last : Endpoint, last.state = .awaitHeader ∧
      Endpoint.read ⟨.awaitHeader, ⟨.heartbeat, 0, 0, 0, 0, 0⟩⟩
        (List.foldl Output.append []
          [.write ⟨.heartbeat, 0, 0, 0, 0, 0⟩ none,
            .write ⟨.directMessage, 0, 0, 0, 1, 2⟩ (some ⟨[[7], [8]], true⟩),
            .forward ⟨.routedMessage, 0, 1, 0, 1, 2⟩ [9]]) 99 =
        ([⟨⟨.heartbeat, 0, 0, 0, 0, 0⟩, []⟩,
          ⟨⟨.directMessage, 0, 2, 0, 1, 2⟩, [7, 8]⟩,
          ⟨⟨.routedMessage, 0, 1, 0, 1, 2⟩, [9]⟩], last, []) := by
  refine (written_frames_read_back ?_).1 _ rfl
  refine List.forall_mem_cons.mpr ⟨⟨trivial, rfl, by decide, rfl⟩,
    List.forall_mem_cons.mpr ⟨⟨rfl, rfl, by decide, trivial⟩,
      List.forall_mem_singleton.mpr ⟨trivial, rfl, by decide, rfl⟩⟩⟩

/-- The buffer is as before exactly if the payload writer does not fail.  If
no writer fails, then the buffer has complete frames only. -/
theorem write_restores_iff [DecidableEq υ] (b : Broker υ ν) (dest : NodeId υ)
    (buf : List Byte) (hdr : Header) (pw : PayloadWriter) :
    ((pw.ok = false → write buf hdr (some pw) = buf) ↔ pw.ok = true) ∧
      ((b.dispatch dest).1 = false →
        (b.dispatch dest).2.events = b.events) ∧
      ∀ outputs : List Output, (∀ output ∈ outputs, output.Succeeds) →
        outputs.foldl Output.append [] =
          (outputs.map Output.frame).flatMap Frame.bytes := by
  refine ⟨?_, ?_, fun outputs h => foldl_append h []⟩
  · cases hok : pw.ok with
    | true => simp
    | false =>
      simp only [write, hok, buf_run_skip]
      simp [Header.headerSize]
  · unfold Broker.dispatch
    split <;> simp

/-- The writer fails after one byte. -/
theorem write_failure_remains :
    write [] ⟨.directMessage, 0, 0, 0, 1, 2⟩ (some ⟨[[7]], false⟩) =
      List.replicate Header.headerSize 0 ++ [7] := by
  decide

end ActorFramework.Io.Basp
