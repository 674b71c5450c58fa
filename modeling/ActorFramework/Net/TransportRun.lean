import ActorFramework.Net.Transport
import Mathlib.Algebra.GroupWithZero.Nat

/-!
# The octet stream transport consumes the stream in order

What was consumed, followed by the buffer, is what was read from the socket,
whatever the upper layer does.  What counts as new in a call of `consume`
depends on the limits of the upper layer: `delta_offset_` remembers how much
was shown in a call that consumed nothing, and the next one must not get less.
-/

namespace ActorFramework.Net

open ActorFramework.Core (Byte)
open Foundation List

namespace Transport

variable {t u : Transport}

structure SameData (t u : Transport) : Prop where
  readBuf : u.readBuf = t.readBuf
  buffered : u.buffered = t.buffered
  deltaOffset : u.deltaOffset = t.deltaOffset
  received : u.received = t.received
  stream : u.stream = t.stream
  taken : u.taken = t.taken
  consumes : u.consumes = t.consumes

theorem SameData.refl (t : Transport) : SameData t t :=
  ⟨rfl, rfl, rfl, rfl, rfl, rfl, rfl⟩

variable {v : Transport}

theorem SameData.trans (h : SameData t u) (h' : SameData u v) : SameData t v :=
  ⟨h'.readBuf.trans h.readBuf, h'.buffered.trans h.buffered,
    h'.deltaOffset.trans h.deltaOffset, h'.received.trans h.received,
    h'.stream.trans h.stream, h'.taken.trans h.taken,
    h'.consumes.trans h.consumes⟩

structure Called (t u : Transport) : Prop extends SameData t u where
  closed : u.closed = t.closed
  looping : u.looping = t.looping
  wantedWrite : u.wantedWrite = t.wantedWrite

theorem Called.refl (t : Transport) : Called t t := ⟨.refl t, rfl, rfl, rfl⟩

theorem Called.trans (h : Called t u) (h' : Called u v) : Called t v :=
  ⟨h.toSameData.trans h'.toSameData, h'.closed.trans h.closed,
    h'.looping.trans h.looping, h'.wantedWrite.trans h.wantedWrite⟩

section

variable (t : Transport)

theorem called_configureRead (rd : ReceivePolicy) :
    Called t (t.configureRead rd) := by
  unfold configureRead
  split
  · split
    · exact { Called.refl t with }
    · exact { Called.refl t with }
  · exact { Called.refl t with }

theorem called_call (call : LowerCall) : Called t (t.call call) := by
  cases call with
  | configureRead rd => exact called_configureRead t rd
  | restart rd =>
    simp only [Transport.call]
    split
    · exact .refl t
    · exact called_configureRead t rd
  | output bytes => exact { Called.refl t with }
  | shutdown =>
    simp only [Transport.call, shutdown]
    split
    · exact .refl t
    · exact { called_configureRead t .stop with }

theorem called_callAll (calls : List LowerCall) :
    Called t (t.callAll calls) := by
  induction calls generalizing t with
  | nil => exact .refl t
  | cons call calls ih => exact (called_call t call).trans (ih _)

theorem sameData_abort (reason : Error) (calls : List LowerCall) :
    SameData t (t.abort reason calls) := by
  have h := called_callAll { t with aborts := t.aborts ++ [reason] } calls
  exact { h with }

theorem sameData_switch (next : Start) :
    SameData t (t.switchToNextProtocol next) := by
  have h := (called_configureRead t .stop).trans (called_callAll _ next.calls)
  unfold switchToNextProtocol
  split
  · exact { h with }
  · exact h.toSameData

theorem switch_closed {next : Start} (hstarted : next.failed = false) :
    (t.switchToNextProtocol next).closed = t.closed := by
  rw [switchToNextProtocol, if_neg (by simp [hstarted])]
  exact ((called_configureRead t .stop).trans
    (called_callAll _ next.calls)).closed

end

def window (t : Transport) : List Byte := t.readBuf.take t.buffered

theorem SameData.window_eq (h : SameData t u) : u.window = t.window := by
  rw [window, window, h.readBuf, h.buffered]

theorem length_window (hroom : t.buffered ≤ t.readBuf.length) :
    t.window.length = t.buffered := by
  rw [window, length_take, Nat.min_eq_left hroom]

theorem size_le (t : Transport) : t.size ≤ t.buffered :=
  Nat.min_le_left _ _

theorem bytes_eq_take (t : Transport) : t.bytes = t.window.take t.size := by
  rw [bytes, window, take_take, Nat.min_eq_left t.size_le]

theorem length_bytes (hroom : t.buffered ≤ t.readBuf.length) :
    t.bytes.length = t.size := by
  rw [bytes_eq_take, length_take, length_window hroom]
  exact Nat.min_eq_left t.size_le

section

variable (hroom : t.buffered ≤ t.readBuf.length)
include hroom

theorem window_shift {n : Nat} : (t.shift n).window = t.window.drop n := by
  have hlen : ((t.readBuf.take t.buffered).drop n).length = t.buffered - n := by
    rw [length_drop, length_take, Nat.min_eq_left hroom]
  simp only [window, shift]
  split_ifs with hzero
  · rw [take_append, hlen, Nat.sub_self, take_zero,
      append_nil, take_of_length_le (Nat.le_of_eq hlen)]
  · have hnone : t.buffered - n = 0 := Nat.eq_zero_of_not_pos hzero
    rw [hnone] at hlen
    rw [hnone, take_zero, length_eq_zero_iff.mp hlen]

theorem room_shift {n : Nat} :
    (t.shift n).buffered ≤ (t.shift n).readBuf.length := by
  simp only [shift]
  split
  · simp only [length_append, length_drop, length_take]
    omega
  · omega

variable {chunk : List Byte}

theorem window_fill : (t.fill chunk).window = t.window ++ chunk := by
  have hlen : (t.readBuf.take t.buffered ++ chunk).length =
      t.buffered + chunk.length := by
    rw [length_append, length_take, Nat.min_eq_left hroom]
  simp only [window, fill]
  rw [take_append, hlen, Nat.sub_self, take_zero, append_nil,
    take_of_length_le (Nat.le_of_eq hlen)]

theorem room_fill :
    (t.fill chunk).buffered ≤ (t.fill chunk).readBuf.length := by
  simp only [fill, length_append, length_take, length_drop]
  omega

theorem window_grow (size : Nat) : (t.grow size).window = t.window := by
  simp only [window, grow]
  exact take_append_of_le_length hroom

end

end Transport

def consumedBy (calls : List ConsumeCall) : Nat :=
  (calls.map ConsumeCall.taken).sum

namespace Transport

variable {t u : Transport}

structure Sound (t : Transport) : Prop where
  room : t.buffered ≤ t.readBuf.length
  stream : t.taken ++ t.window = t.stream
  length : t.stream.length = t.received.length
  offset : t.deltaOffset ≤ t.buffered
  total : t.taken.length = consumedBy t.consumes
  starts : ∀ calls call rest, t.consumes = calls ++ call :: rest →
    call.start = consumedBy calls
  plain : (∀ call ∈ t.consumes, call.written = call.bytes) →
    t.stream = t.received ∧
    ∀ call ∈ t.consumes, call.bytes <+: t.received.drop call.start

theorem sound_initial : Sound {} :=
  ⟨Nat.le_refl 0, rfl, rfl, Nat.le_refl 0, rfl, by simp, by simp⟩

theorem Sound.of_same (h : Sound t) (hsame : SameData t u) : Sound u := by
  have hwin := hsame.window_eq
  obtain ⟨hread, hbuf, hdelta, hrecv, hstream, htaken, hconsumes⟩ :=
    hsame
  refine ⟨?_, ?_, ?_, ?_, ?_, ?_, ?_⟩
  · rw [hbuf, hread]
    exact h.room
  · rw [htaken, hwin, hstream]
    exact h.stream
  · rw [hstream, hrecv]
    exact h.length
  · rw [hdelta, hbuf]
    exact h.offset
  · rw [htaken, hconsumes]
    exact h.total
  · rw [hconsumes]
    exact h.starts
  · rw [hconsumes, hstream, hrecv]
    exact h.plain

structure Takes (t : Transport) (r : Reaction) (n : Nat) (u : Transport) :
    Prop where
  room : u.buffered ≤ u.readBuf.length
  buffered : u.buffered = t.buffered - n
  window : u.window = (r.written ++ t.window.drop r.written.length).drop n
  taken : u.taken = t.taken ++ r.written.take n
  received : u.received = t.received
  stream : u.stream = t.stream.take t.taken.length ++ r.written ++
    t.stream.drop (t.taken.length + r.written.length)
  consumes : u.consumes = (t.record r).consumes

theorem Takes.of_same {r : Reaction} {n : Nat} (h : Takes t r n u)
    (hsame : SameData u v) : Takes t r n v := by
  have hwin := hsame.window_eq
  obtain ⟨hread, hbuf, -, hrecv, hstream, htaken, hconsumes⟩ := hsame
  refine ⟨?_, hbuf.trans h.buffered, hwin.trans h.window,
    htaken.trans h.taken, hrecv.trans h.received,
    hstream.trans h.stream, hconsumes.trans h.consumes⟩
  rw [hbuf, hread]
  exact h.room

variable {r : Reaction} {n : Nat}

theorem takes_react (hroom : t.buffered ≤ t.readBuf.length)
    (hwrit : r.written.length = t.size) : Takes t r 0 (t.react r) := by
  have hle := hwrit ▸ t.size_le
  refine Takes.of_same (u := (t.record r).overwrite r.written) ?_
    (called_callAll _ r.calls).toSameData
  refine ⟨?_, rfl, ?_, ?_, rfl, rfl, rfl⟩
  · simp only [overwrite, record, length_append, length_drop]
    omega
  · rw [drop_zero]
    simp only [window, overwrite, record]
    rw [take_append, take_of_length_le hle, drop_take]
  · rw [take_zero, append_nil]
    rfl

theorem Takes.shift (h : Takes t r 0 u) (hle : r.written.length ≤ t.buffered)
    (hn : n ≤ r.written.length) : Takes t r n (u.shift n) := by
  have hbuf := h.buffered
  have htake : u.readBuf.take n = r.written.take n := by
    have hwin := congrArg (List.take n) h.window
    rw [Transport.window, take_take, Nat.min_eq_left (by omega),
      drop_zero, take_append_of_le_length hn] at hwin
    exact hwin
  refine ⟨room_shift h.room, ?_, ?_, ?_, h.received, h.stream, h.consumes⟩
  · simp [Transport.shift, hbuf]
  · rw [window_shift h.room, h.window, drop_zero]
  · simp [Transport.shift, h.taken, htake]

theorem Takes.flags {r : Reaction} {n : Nat} (h : Takes t r n u)
    (offset : Nat) (reading looping : Bool) :
    Takes t r n { u with deltaOffset := offset, reading, looping } :=
  { h with }

theorem Takes.loop (h : Takes t r n u) : Takes t r n u.loop :=
  h.flags u.deltaOffset u.reading u.ready

inductive Returned (t : Transport) (n : Nat) (r : Reaction) :
    Transport → Prop
  | aborted {reason : Error} :
      r.consumed < 0 ∨ n < r.consumed.toNat →
      Returned t n r
        { t.abort reason r.abort with reading := false, looping := false }
  | gone {next : Start} :
      0 ≤ r.consumed → r.next = some next → next.failed = true →
      Returned t n r (t.switchToNextProtocol next)
  | switched {next : Start} :
      r.consumed = 0 → r.next = some next → next.failed = false →
      Returned t n r (t.switchToNextProtocol next).loop
  | waits :
      r.consumed = 0 → r.next = none → n = t.size →
      Returned t n r { t with deltaOffset := n, looping := false }
  | again :
      r.consumed = 0 → r.next = none →
      Returned t n r { t with deltaOffset := n }.loop
  | takes {u : Transport} :
      0 < r.consumed → r.consumed.toNat ≤ n →
      r.next.any Start.failed = false → SameData t u → u.closed = t.closed →
      (r.next = none → u = t) →
      Returned t n r (u.shift r.consumed.toNat).loop

theorem returned_consumed (t : Transport) (n : Nat) (r : Reaction) :
    Returned t n r (t.consumed n r) := by
  unfold consumed
  split
  · rename_i hneg
    exact .aborted (.inl hneg)
  split
  · rename_i hmore
    exact .aborted (.inr hmore)
  split
  · rename_i hzero
    split
    · rename_i next hnext
      split
      · rename_i hfailed
        exact .gone (by omega) hnext hfailed
      · rename_i hstarted
        exact .switched hzero hnext (by simpa using hstarted)
    · rename_i hnext
      split
      · rename_i hsame
        exact .waits hzero hnext hsame
      · exact .again hzero hnext
  · split
    · rename_i next hnext
      split
      · rename_i hfailed
        exact .gone (by omega) hnext hfailed
      · rename_i hstarted
        have hstarted : next.failed = false := by simpa using hstarted
        exact .takes (by omega) (by omega) (by simp [hnext, hstarted])
          (sameData_switch t next) (switch_closed t hstarted) (by simp [hnext])
    · rename_i hnext
      exact .takes (by omega) (by omega) (by simp [hnext]) (.refl t) rfl
        (fun _ => rfl)

theorem taken_of_fails {r : Reaction} {n : Nat}
    (h : r.consumed ≤ 0 ∨ n < r.consumed.toNat ∨
      r.next.any Start.failed = true) : r.taken n = 0 := by
  unfold Reaction.taken
  split_ifs with hfits
  · rfl
  · rcases h with hnone | hfails
    · exact Int.toNat_of_nonpos hnone
    · exact absurd hfails hfits

theorem taken_of_fits (hn : r.consumed.toNat ≤ n)
    (hnext : r.next.any Start.failed = false) :
    r.taken n = r.consumed.toNat := by
  apply if_neg
  rintro (hmore | hfailed)
  · omega
  · cases hnext ▸ hfailed

theorem Takes.returned (h : Takes t r 0 u) (hle : r.written.length ≤ t.buffered)
    (hn : n ≤ r.written.length) (hret : Returned u n r v) :
    Takes t r (r.taken n) v := by
  cases hret with
  | aborted hfails =>
    rw [taken_of_fails (hfails.imp Int.le_of_lt .inl)]
    exact (h.of_same (sameData_abort _ _ r.abort)).flags _ false false
  | gone hpos hnext hfailed =>
    rw [taken_of_fails (.inr (.inr (by simp [hnext, hfailed])))]
    exact h.of_same (sameData_switch _ _)
  | switched hzero hnext hstarted =>
    rw [taken_of_fails (.inl (Int.le_of_eq hzero))]
    exact (h.of_same (sameData_switch _ _)).loop
  | waits hzero hnext hsame =>
    rw [taken_of_fails (.inl (Int.le_of_eq hzero))]
    exact h.flags n u.reading false
  | again hzero hnext =>
    rw [taken_of_fails (.inl (Int.le_of_eq hzero))]
    exact (h.flags n u.reading u.looping).loop
  | takes hpos hfits hnext hsame =>
    rw [taken_of_fits hfits hnext]
    exact ((h.of_same hsame).shift hle (by omega)).loop

theorem takes_consume (hroom : t.buffered ≤ t.readBuf.length)
    (hwrit : r.written.length = t.size) :
    Takes t r (r.taken t.size) (t.consume r) :=
  (takes_react hroom hwrit).returned (hwrit ▸ t.size_le)
    (Nat.le_of_eq hwrit.symm) (returned_consumed _ _ r)

theorem consume_deltaOffset (t : Transport) (r : Reaction) :
    (t.consume r).deltaOffset =
      if 0 < r.taken t.size then 0
      else if r.consumed = 0 ∧ r.next = none then t.size
      else t.deltaOffset := by
  have hreact : (t.react r).deltaOffset = t.deltaOffset :=
    (called_callAll _ r.calls).deltaOffset
  have hret := returned_consumed (t.react r) t.size r
  rw [consume]
  generalize (t.react r).consumed t.size r = u at hret ⊢
  cases hret with
  | aborted hfails =>
    rw [taken_of_fails (hfails.imp Int.le_of_lt .inl),
      if_neg (Nat.lt_irrefl 0), if_neg (by omega)]
    exact (sameData_abort _ _ r.abort).deltaOffset.trans hreact
  | gone hpos hnext hfailed =>
    rw [taken_of_fails (.inr (.inr (by simp [hnext, hfailed]))),
      if_neg (Nat.lt_irrefl 0), if_neg (by simp [hnext])]
    exact (sameData_switch _ _).deltaOffset.trans hreact
  | switched hzero hnext hstarted =>
    rw [taken_of_fails (.inl (Int.le_of_eq hzero)),
      if_neg (Nat.lt_irrefl 0), if_neg (by simp [hnext])]
    exact (sameData_switch _ _).deltaOffset.trans hreact
  | waits hzero hnext hsame =>
    rw [taken_of_fails (.inl (Int.le_of_eq hzero)),
      if_neg (Nat.lt_irrefl 0), if_pos ⟨hzero, hnext⟩]
  | again hzero hnext =>
    rw [taken_of_fails (.inl (Int.le_of_eq hzero)),
      if_neg (Nat.lt_irrefl 0), if_pos ⟨hzero, hnext⟩]
    rfl
  | takes hpos hfits hnext hsame =>
    rw [taken_of_fits hfits hnext, if_pos (by omega)]
    rfl

theorem append_eq_append_cons {α : Type} {calls pre post : List α}
    {last c : α} (h : calls ++ [last] = pre ++ c :: post) :
    (pre = calls ∧ c = last) ∨
      ∃ rest, calls = pre ++ c :: rest ∧ post = rest ++ [last] := by
  rcases eq_nil_or_concat post with rfl | ⟨rest, last', rfl⟩
  · obtain ⟨hpre, hlast⟩ := append_inj' h rfl
    cases hlast
    exact .inl ⟨hpre.symm, rfl⟩
  · rw [concat_eq_append, ← cons_append, ← append_assoc] at h
    obtain ⟨hpre, hlast⟩ := append_inj' h rfl
    cases hlast
    exact .inr ⟨rest, hpre, concat_eq_append⟩

section

variable (h : Sound t)
include h

theorem Sound.consume (hwrit : r.written.length = t.size) :
    Sound (t.consume r) := by
  have htakes := takes_consume h.room hwrit
  have hsize := t.size_le
  have hoff := consume_deltaOffset t r
  have hlast : (t.record r).consumes = t.consumes ++
    [⟨t.taken.length, t.bytes, t.delta, t.deltaOffset, r.written,
      r.consumed, r.taken t.size, r.next.isSome⟩] := rfl
  have hstream : (t.consume r).stream =
      t.taken ++ (r.written ++ t.window.drop r.written.length) := by
    rw [htakes.stream, ← h.stream, take_left, append_assoc,
      drop_length_add_append]
  have hcount : r.taken t.size ≤ t.size := by
    unfold Reaction.taken
    split <;> omega
  refine ⟨htakes.room, ?_, ?_, ?_, ?_, ?_, ?_⟩
  · rw [htakes.taken, htakes.window, hstream, append_assoc]
    congr 1
    conv_rhs => rw [← take_append_drop (r.taken t.size)
      (r.written ++ t.window.drop r.written.length)]
    rw [take_append_of_le_length (by omega)]
  · rw [hstream, htakes.received, ← h.length, ← h.stream]
    simp only [length_append, length_drop, length_window h.room]
    omega
  · rw [hoff, htakes.buffered]
    have hold := h.offset
    split
    · omega
    · split <;> omega
  · rw [htakes.taken, htakes.consumes, hlast, consumedBy, map_append,
      sum_append, ← consumedBy, ← h.total]
    simp only [length_append, length_take, map_singleton, sum_singleton]
    omega
  · intro calls call rest hcalls
    rw [htakes.consumes, hlast] at hcalls
    rcases append_eq_append_cons hcalls with ⟨rfl, rfl⟩ | ⟨post, hold, -⟩
    · exact h.total
    · exact h.starts _ _ _ hold
  · intro hplain
    rw [htakes.consumes, hlast] at hplain ⊢
    obtain ⟨hsame, hcalls⟩ := h.plain fun call hcall =>
      hplain call (mem_append_left _ hcall)
    have hbytes : r.written = t.bytes := hplain _ mem_concat_self
    have hwin : r.written ++ t.window.drop r.written.length = t.window := by
      rw [hwrit, hbytes, bytes_eq_take, take_append_drop]
    rw [hstream, hwin, h.stream, htakes.received]
    refine ⟨hsame, fun call hcall => ?_⟩
    rcases mem_append.mp hcall with hold | hnew
    · exact hcalls call hold
    · rw [mem_singleton.mp hnew, ← hsame, ← h.stream]
      simp only [drop_left, bytes_eq_take]
      exact take_prefix _ _

theorem Sound.grow (size : Nat) : Sound (t.grow size) := by
  refine { h with room := ?_, stream := ?_ }
  · have hroom := h.room
    simp only [Transport.grow, length_append]
    omega
  · rw [window_grow h.room]
    exact h.stream

theorem Sound.fill (chunk : List Byte) : Sound (t.fill chunk) := by
  have hoff := h.offset
  refine ⟨room_fill h.room, ?_, ?_, ?_, h.total, h.starts, fun hplain => ?_⟩
  · rw [window_fill h.room]
    simp [Transport.fill, ← h.stream]
  · simp [Transport.fill, h.length]
  · simp only [Transport.fill]
    omega
  · obtain ⟨hsame, hcalls⟩ := h.plain hplain
    refine ⟨?_, fun call hcall => ?_⟩
    · simp [Transport.fill, hsame]
    · simp only [Transport.fill, drop_append]
      exact (hcalls call hcall).trans (prefix_append _ _)

theorem Sound.fail (reason : Error) (calls : List LowerCall) :
    Sound (t.fail reason calls) := by
  have hsame := sameData_abort t reason calls
  exact h.of_same { hsame with }

theorem Sound.handleReadEvent (res : ReadResult) :
    Sound (t.handleReadEvent res) := by
  cases res with
  | data chunk policyData =>
    have hread := ((h.fill chunk).grow (t.buffered + chunk.length +
      policyData.length)).fill policyData
    exact hread.of_same ⟨rfl, rfl, rfl, rfl, rfl, rfl, rfl⟩
  | policyFails chunk abort => exact (h.fill chunk).fail _ abort
  | again => exact h
  | wantWrite => exact h.of_same ⟨rfl, rfl, rfl, rfl, rfl, rfl, rfl⟩
  | failed abort => exact h.fail _ abort
  | disconnected abort => exact h.fail _ abort

variable {a : TransportAction}

theorem step_sound (hstep : step t a = some u) : Sound u := by
  cases a with
  | readEvent res =>
    obtain ⟨-, rfl⟩ := of_guard hstep
    apply Sound.handleReadEvent
    exact (h.grow t.maxReadSize).of_same ⟨rfl, rfl, rfl, rfl, rfl, rfl, rfl⟩
  | runScheduled =>
    obtain ⟨-, rfl⟩ := of_guard hstep
    exact h.of_same ⟨rfl, rfl, rfl, rfl, rfl, rfl, rfl⟩
  | consume r =>
    obtain ⟨hcond, rfl⟩ := of_guard hstep
    simp only [Bool.and_eq_true, beq_iff_eq] at hcond
    exact h.consume hcond.2
  | call call =>
    obtain ⟨-, rfl⟩ := of_guard hstep
    exact h.of_same (called_call t call).toSameData
  | written n =>
    cases hstep
    exact h.of_same ⟨rfl, rfl, rfl, rfl, rfl, rfl, rfl⟩

end

variable {actions : List TransportAction}

theorem exec_sound (hrun : exec step {} actions = some t) : Sound t :=
  exec_invariant Sound (fun _ _ _ h hstep => step_sound h hstep)
    sound_initial hrun

end Transport

/-- The number of bytes at the front of the buffer that the upper layer was
shown in earlier calls.  It starts anew when bytes were taken, and calls that
have failed do not count. -/
def shownBy (calls : List ConsumeCall) : Nat :=
  calls.foldl (fun shown call =>
    if 0 < call.taken then 0
    else if call.consumed = 0 ∧ call.switched = false then call.bytes.length
    else shown) 0

/-- The call sets no limit below `n` bytes, unless it stops reading. -/
def LowerCall.keeps (n : Nat) : LowerCall → Prop
  | .configureRead rd => rd.maxSize = 0 ∨ n ≤ rd.maxSize
  | .restart rd => rd.maxSize = 0 ∨ n ≤ rd.maxSize
  | _ => True

namespace Transport

variable {t u : Transport}

def limited (t : Transport) (n : Nat) : Prop :=
  t.maxReadSize = 0 ∨ n ≤ t.maxReadSize

/-- The upper layer does not set a limit below the number of bytes that it was
shown in a call from which it took none, and does not pass its bytes to another
layer in such a call. -/
def Orderly (t : Transport) : TransportAction → Prop
  | .consume r => r.taken t.size = 0 →
      (∀ call ∈ r.calls ++ r.abort, call.keeps t.size) ∧
      ∀ next, r.next = some next → t.deltaOffset = 0
  | .call call => call.keeps t.deltaOffset
  | _ => True

structure Shows (t : Transport) : Prop where
  shown : t.deltaOffset = shownBy t.consumes
  limit : t.closed = false → t.limited t.deltaOffset
  ready : t.looping = true → t.closed = false ∧ 0 < t.maxReadSize
  calls : ∀ calls call rest, t.consumes = calls ++ call :: rest →
    call.offset = shownBy calls ∧
    call.delta = call.bytes.drop (shownBy calls) ∧
    shownBy calls ≤ call.bytes.length

theorem configureRead_maxReadSize (t : Transport) (rd : ReceivePolicy) :
    (t.configureRead rd).maxReadSize = rd.maxSize := by
  unfold configureRead
  split
  · split <;> rfl
  · rfl

variable {n : Nat} {r : Reaction}

theorem limited_call (h : t.limited n) {call : LowerCall}
    (hkeeps : call.keeps n) : (t.call call).limited n := by
  cases call with
  | configureRead rd =>
    unfold limited
    simp only [Transport.call, configureRead_maxReadSize]
    exact hkeeps
  | restart rd =>
    simp only [Transport.call]
    split
    · exact h
    · unfold limited
      rw [configureRead_maxReadSize]
      exact hkeeps
  | output bytes => exact h
  | shutdown =>
    simp only [Transport.call, shutdown]
    split
    · exact h
    · exact .inl (configureRead_maxReadSize t .stop)

variable {calls : List LowerCall}

theorem limited_callAll (h : t.limited n)
    (hkeeps : ∀ call ∈ calls, call.keeps n) : (t.callAll calls).limited n := by
  induction calls generalizing t with
  | nil => exact h
  | cons call calls ih =>
    have hfirst := limited_call h (hkeeps call mem_cons_self)
    exact ih hfirst fun c hc => hkeeps c (mem_cons_of_mem call hc)

theorem limited_react (hkeeps : ∀ call ∈ r.calls, call.keeps t.size) :
    (t.react r).limited t.size := by
  apply limited_callAll
  · exact .inr (Nat.min_le_right _ _)
  · exact hkeeps

theorem limited_consume (hnone : r.taken t.size = 0) (hnext : r.next = none)
    (hkeeps : ∀ call ∈ r.calls ++ r.abort, call.keeps t.size) :
    (t.consume r).limited t.size := by
  have hreact : (t.react r).limited t.size :=
    limited_react fun call hcall => hkeeps call (mem_append_left _ hcall)
  have hret := returned_consumed (t.react r) t.size r
  rw [consume]
  generalize (t.react r).consumed t.size r = u at hret ⊢
  cases hret with
  | aborted hfails =>
    refine limited_callAll ?_ fun call hcall =>
      hkeeps call (mem_append_right _ hcall)
    exact hreact
  | gone hpos hnext' | switched hzero hnext' => cases hnext ▸ hnext'
  | waits => exact hreact
  | again => exact hreact
  | takes hpos hfits hnext' =>
    rw [taken_of_fits hfits hnext'] at hnone
    omega

theorem ready_consume (hclosed : t.closed = false)
    (hloop : (t.consume r).looping = true) :
    (t.consume r).closed = false ∧ 0 < (t.consume r).maxReadSize := by
  have hready : ∀ u : Transport, u.loop.looping = true →
      0 < u.loop.maxReadSize := by
    intro u hu
    simp only [loop, ready, Bool.and_eq_true, decide_eq_true_eq] at hu
    exact hu.1.2
  have hreact : (t.react r).closed = false :=
    (called_callAll _ r.calls).closed.trans hclosed
  have hret := returned_consumed (t.react r) t.size r
  rw [consume] at hloop ⊢
  generalize (t.react r).consumed t.size r = u at hret hloop ⊢
  cases hret with
  | aborted => cases hloop
  | gone hpos hnext hfailed =>
    rw [switchToNextProtocol, if_pos hfailed] at hloop
    cases hloop
  | switched hzero hnext hstarted =>
    exact ⟨(switch_closed _ hstarted).trans hreact, hready _ hloop⟩
  | waits => cases hloop
  | again => exact ⟨hreact, hready _ hloop⟩
  | takes hpos hfits hnext hsame hopen =>
    exact ⟨hopen.trans hreact, hready _ hloop⟩

section

variable (h : Shows t)
include h

theorem Shows.consume (hsound : Sound t) (hloop : t.looping = true)
    (hwrit : r.written.length = t.size) (hord : t.Orderly (.consume r)) :
    Shows (t.consume r) := by
  obtain ⟨hopen, hpos⟩ := h.ready hloop
  have htakes := takes_consume hsound.room hwrit
  have hrecord : shownBy (t.record r).consumes =
      if 0 < r.taken t.size then 0
      else if r.consumed = 0 ∧ r.next = none then t.size
      else shownBy t.consumes := by
    simp [shownBy, record, foldl_append, length_bytes hsound.room]
  have hsize : t.deltaOffset ≤ t.size := by
    have hlimit := h.limit hopen
    have hoff := hsound.offset
    unfold limited at hlimit
    unfold size
    omega
  refine ⟨?_, fun _ => ?_, ready_consume hopen, ?_⟩
  · rw [consume_deltaOffset, htakes.consumes, hrecord, h.shown]
  · rw [consume_deltaOffset]
    by_cases htaken : 0 < r.taken t.size
    · rw [if_pos htaken]
      exact .inr (Nat.zero_le _)
    · have hnone : r.taken t.size = 0 := Nat.eq_zero_of_not_pos htaken
      obtain ⟨hkeeps, hswitch⟩ := hord hnone
      rw [if_neg htaken]
      cases hnext : r.next with
      | some next =>
        rw [if_neg (by simp), hswitch next hnext]
        exact .inr (Nat.zero_le _)
      | none =>
        have hlimit := limited_consume hnone hnext hkeeps
        refine hlimit.imp_right fun hle => Nat.le_trans ?_ hle
        split <;> omega
  · intro calls call rest hcalls
    rw [htakes.consumes] at hcalls
    rcases append_eq_append_cons hcalls with ⟨rfl, rfl⟩ | ⟨post, hold, -⟩
    · refine ⟨h.shown, ?_, ?_⟩
      · rw [← h.shown]
        rfl
      · rw [← h.shown, length_bytes hsound.room]
        exact hsize
    · exact h.calls _ _ _ hold

theorem Shows.of_same (hoff : u.deltaOffset = t.deltaOffset)
    (hconsumes : u.consumes = t.consumes)
    (hlimit : u.closed = false → u.limited t.deltaOffset)
    (hready : u.looping = true → u.closed = false ∧ 0 < u.maxReadSize) :
    Shows u := by
  refine ⟨?_, ?_, hready, ?_⟩
  · rw [hoff, hconsumes]
    exact h.shown
  · rw [hoff]
    exact hlimit
  · rw [hconsumes]
    exact h.calls

theorem Shows.loop (hopen : t.closed = false) : Shows t.loop := by
  refine h.of_same rfl rfl h.limit fun hloop => ⟨hopen, ?_⟩
  simp only [Transport.loop, Transport.ready, Bool.and_eq_true,
    decide_eq_true_eq] at hloop
  exact hloop.1.2

theorem Shows.fail (reason : Error) (calls : List LowerCall) :
    Shows (t.fail reason calls) :=
  have hsame := sameData_abort t reason calls
  h.of_same hsame.deltaOffset hsame.consumes nofun nofun

theorem Shows.handleReadEvent (hopen : t.closed = false) (res : ReadResult) :
    Shows (t.handleReadEvent res) := by
  cases res with
  | data chunk policyData =>
    apply Shows.loop
    · exact h.of_same rfl rfl h.limit h.ready
    · exact hopen
  | policyFails chunk abort =>
    apply Shows.fail
    exact h.of_same rfl rfl h.limit h.ready
  | again => exact h
  | wantWrite => exact h.of_same rfl rfl h.limit h.ready
  | failed abort => exact h.fail _ abort
  | disconnected abort => exact h.fail _ abort

end

end Transport

end ActorFramework.Net
