import ActorFramework.Net.Http.ServerRun

/-!
# Switching from HTTP to another protocol

The upper layer may ask for another protocol while it handles a request.  The
transport starts it when the server has returned, but the server first goes on
with its loop.  A complete header behind the request is still taken for HTTP.
-/

namespace ActorFramework.Net.Http.Server

open ActorFramework.Core Plan
open Foundation List

variable {cfg : Config} {sv : Server}

/-- A request that was accepted and that has led to another protocol: the server
after this request, the protocol, the bytes behind the request, and the number
of bytes up to its end. -/
structure Switch where
  server : Server
  next : Start
  rest : List Byte
  consumed : Nat

def switching (cfg : Config) : Nat → Server → List Byte → Nat → Option Switch
  | 0, _, _, _ => none
  | fuel + 1, sv, input, consumed =>
    match sv.iteration cfg input consumed with
    | .returns _ _ => none
    | .again sv input consumed =>
      match sv.next with
      | some next => some ⟨sv, next, input, consumed⟩
      | none => switching cfg fuel sv input consumed

def switchNext (cfg : Config) (c : Stack Server) : Option Switch :=
  switching cfg (2 * c.transport.bytes.length + 2) c.layer.rest
    c.transport.bytes 0

/-- The server has done nothing after the request, and the bytes behind it go
to the next protocol, unless this one fails to start.  They are shown to the
next protocol in their order, together with those that are received later. -/
structure HandsOver (cfg : Config) (c : Stack Server) (s : Switch) : Prop where
  consumed : (c.answer (layer cfg)).consumed = s.consumed
  state : (c.answer (layer cfg)).state = s.server.rest
  next : (c.answer (layer cfg)).next = some s.next
  after : ∃ d, c.step (layer cfg) .consume = some d ∧
    d.layer = s.server.rest ∧ d.transport.received = c.transport.received ∧
    (s.next.failed = true → d.transport.closed = true) ∧
    (s.next.failed = false →
      d.transport.taken =
        c.transport.taken ++ c.transport.bytes.take s.consumed ∧
      d.transport.window = s.rest ++ c.transport.window.drop c.transport.size ∧
      ∀ (actions : List TransportAction) (t : Transport),
        exec Transport.step d.transport actions = some t →
        ∀ calls call later,
          t.consumes = d.transport.consumes ++ (calls ++ call :: later) →
          call.start = d.transport.taken.length + consumedBy calls ∧
          ((∀ other ∈ calls ++ call :: later, other.written = other.bytes) →
            call.bytes <+: t.received.drop call.start))

variable {input raw remainder : List Byte} {n : Nat}

theorem splitHeader_some (h : V1.splitHeader input = some (raw, remainder)) :
    4 ≤ raw.length ∧ raw.length ≤ input.length ∧
      remainder = input.drop raw.length := by
  obtain ⟨i, hi, hparts⟩ := Option.map_eq_some_iff.mp h
  have hle := search_length_le hi
  obtain ⟨rfl, rfl⟩ := Prod.mk.inj hparts
  have hlen : V1.endOfHeader.length = 4 := rfl
  rw [length_take_of_le hle]
  exact ⟨by omega, hle, rfl⟩

structure Advances (sv : Server) (input : List Byte) (n : Nat) (next : Server)
    (rest : List Byte) (n' : Nat) : Prop where
  le : n ≤ n'
  more : sv.mode = .readHeader → n < n'
  fits : n' ≤ n + input.length
  behind : rest = input.drop (n' - n)
  left : Plan.left next rest < Plan.left sv input
  mode : sv.next = none → next.next ≠ none → next.mode = .readHeader

theorem left_le (sv : Server) (input : List Byte) :
    left sv input ≤ 2 * input.length + 1 := by
  unfold left
  split <;> omega

theorem le_left (sv : Server) (input : List Byte) :
    2 * input.length ≤ left sv input := by
  unfold left
  split <;> omega

theorem advances_header {next : Server}
    (hsplit : V1.splitHeader input = some (raw, remainder))
    (hmode : sv.next = none → next.next ≠ none → next.mode = .readHeader) :
    Advances sv input n next remainder (n + raw.length) := by
  obtain ⟨hpos, hle, rfl⟩ := splitHeader_some hsplit
  refine ⟨by omega, fun _ => by omega, by omega,
    by rw [Nat.add_sub_cancel_left], ?_, hmode⟩
  have hafter := left_le next (input.drop raw.length)
  have hbefore := le_left sv input
  rw [length_drop] at hafter
  omega

/-- An iteration advances, it fails, or it waits for more bytes. -/
def Turns (sv : Server) (input : List Byte) (n : Nat) : Outcome → Prop
  | .again next rest n' => Advances sv input n next rest n'
  | .returns _ k => k = -1 ∨ k = n ∧ Plan.Waits sv input

theorem iteration_turns {o : Outcome} (h : sv.iteration cfg input n = o) :
    Turns sv input n o := by
  subst h
  unfold iteration
  split
  · rename_i hheader
    unfold readHeader
    split
    · rename_i hnone
      split
      · exact .inl rfl
      · exact .inr ⟨rfl, by rw [Waits, hheader]; exact hnone⟩
    rename_i raw remainder hsplit
    split
    · exact .inl rfl
    simp only
    split
    · exact advances_header hsplit fun hnone hsome => absurd hnone hsome
    split
    · split
      · exact .inl rfl
      · exact advances_header hsplit fun hnone hsome => absurd hnone hsome
    · split
      · exact advances_header hsplit fun _ _ =>
          (invokeUpperLayer_books _ _).mode.trans hheader
      · exact .inl rfl
  · rename_i hpay
    unfold readPayload
    split_ifs with hshort
    · simp only
      split
      · refine ⟨by omega, fun hheader => ?_, by omega,
          by rw [Nat.add_sub_cancel_left], ?_, fun _ _ => rfl⟩
        · cases hpay ▸ hheader
        simp only [left, hpay, length_drop, reduceCtorEq, if_false, if_true]
        omega
      · exact .inl rfl
    · refine .inr ⟨rfl, ?_⟩
      rw [Waits, hpay]
      exact Nat.lt_of_not_le hshort
  · exact .inl rfl

theorem loop_consumed (fuel : Nat) (sv : Server) (input : List Byte)
    (n : Nat) : (loop cfg fuel sv input n).2 = -1 ∨
      (n : Int) ≤ (loop cfg fuel sv input n).2 := by
  induction fuel generalizing sv input n with
  | zero => exact .inr (Int.le_refl _)
  | succ fuel ih =>
    rw [loop]
    cases hout : sv.iteration cfg input n with
    | returns next k =>
      rcases iteration_turns hout with hfails | ⟨hstops, -⟩
      · exact .inl hfails
      · exact .inr (Int.le_of_eq hstops.symm)
    | again next rest n' =>
      have hle := (iteration_turns hout).le
      simp only
      rcases ih next rest n' with hfails | hmore
      · exact .inl hfails
      · exact .inr (by omega)

def Incomplete (cfg : Config) (input : List Byte) : Prop :=
  V1.splitHeader input = none ∧ input.length < cfg.maxRequestSize

theorem loop_incomplete (hmode : sv.mode = .readHeader)
    (h : Incomplete cfg input) (fuel n : Nat) :
    loop cfg (fuel + 1) sv input n = (sv, (n : Int)) := by
  have hless := Nat.not_le_of_lt h.2
  rw [loop, iteration, hmode]
  simp [readHeader, h.1, hless]

theorem incomplete_of_loop {fuel : Nat} (hmode : sv.mode = .readHeader)
    (h : (loop cfg (fuel + 1) sv input n).2 = n) : Incomplete cfg input := by
  rw [loop] at h
  cases hsplit : V1.splitHeader input with
  | none =>
    refine ⟨hsplit, Nat.lt_of_not_le fun hlarge => ?_⟩
    simp only [iteration, hmode, readHeader, hsplit, hlarge, if_true] at h
    omega
  | some parts =>
    exfalso
    cases hout : sv.iteration cfg input n with
    | returns next k =>
      rw [hout] at h
      rcases iteration_turns hout with hfails | ⟨-, hwaits⟩
      · simp only [hfails] at h
        omega
      · rw [Waits, hmode] at hwaits
        cases hsplit ▸ hwaits
    | again next rest n' =>
      have hmore := (iteration_turns hout).more hmode
      rw [hout] at h
      simp only at h
      rcases @loop_consumed cfg fuel next rest n' with hfails | hle
      · omega
      · omega

theorem loop_switching {s : Switch} (fuel : Nat)
    (h : switching cfg fuel sv input n = some s) (hnone : sv.next = none)
    (hfuel : left sv input < fuel) :
    (∃ more, loop cfg fuel sv input n =
      loop cfg (more + 1) s.server s.rest s.consumed) ∧
    s.server.mode = .readHeader ∧ s.server.next = some s.next ∧
    n ≤ s.consumed ∧ s.consumed ≤ n + input.length ∧
    s.rest = input.drop (s.consumed - n) := by
  induction fuel generalizing sv input n with
  | zero => omega
  | succ fuel ih =>
    rw [switching] at h
    rw [loop]
    cases hout : sv.iteration cfg input n with
    | returns next k =>
      rw [hout] at h
      cases h
    | again next rest n' =>
      obtain ⟨hle, -, hfits, hrest, hleft, hmode⟩ :=
        iteration_turns hout
      rw [hout] at h
      simp only at h ⊢
      cases hnext : next.next with
      | some start =>
        rw [hnext] at h
        obtain rfl := Option.some.inj h
        obtain ⟨more, rfl⟩ : ∃ more, fuel = more + 1 :=
          Nat.exists_eq_add_one.mpr (by omega)
        exact ⟨⟨more, rfl⟩, hmode hnone (by simp [hnext]), hnext, hle,
          hfits, hrest⟩
      | none =>
        rw [hnext] at h
        obtain ⟨hloop, hheader, hstart, hle', hfits', hrest'⟩ :=
          ih h hnext (by omega)
        have hlen : rest.length + (n' - n) = input.length := by
          rw [hrest, length_drop]
          omega
        refine ⟨hloop, hheader, hstart, by omega, by omega, ?_⟩
        rw [hrest', hrest, drop_drop]
        congr 1
        omega

variable {c : Stack Server} {s : Switch}

theorem step_switched (h : c.Untouched) (hloop : c.transport.looping = true)
    {a : Answer Server} (ha : c.answer (layer cfg) = a) {next : Start}
    (hconsumed : a.consumed = n) (hnext : a.next = some next)
    (hfits : n ≤ c.transport.size) :
    ∃ d, c.step (layer cfg) .consume = some d ∧ d.layer = a.state ∧
      d.transport.received = c.transport.received ∧ d.Untouched ∧
      (next.failed = true → d.transport.closed = true) ∧
      (next.failed = false →
        d.transport.taken = c.transport.taken ++ c.transport.bytes.take n ∧
        d.transport.window = c.transport.window.drop n) := by
  have hwrit : (c.reaction (layer cfg)).written = c.transport.bytes := rfl
  have hlen : (c.reaction (layer cfg)).written.length = c.transport.size :=
    Transport.length_bytes h.sound.room
  have hres : (c.reaction (layer cfg)).consumed = n := by
    rw [← hconsumed, ← ha]
    rfl
  have hstart : (c.reaction (layer cfg)).next = some next := by
    rw [← hnext, ← ha]
    rfl
  have hstep := Phases.step_consume hloop hlen
  have htakes := Transport.takes_consume h.sound.room hlen
  refine ⟨_, hstep, ?_, htakes.received, Stack.untouched_step
    (fun _ _ _ => rfl) h hstep, fun hfailed => ?_, fun hstarted => ?_⟩
  · simp only [Stack.afterwards, ha, Answer.reason]
    rw [if_neg (by omega), if_neg (by omega)]
    rfl
  · have hret := Transport.returned_consumed
      (c.transport.react (c.reaction (layer cfg))) c.transport.size
      (c.reaction (layer cfg))
    simp only [Transport.consume]
    generalize (c.transport.react (c.reaction (layer cfg))).consumed
      c.transport.size (c.reaction (layer cfg)) = u at hret
    cases hret with
    | aborted hfails => omega
    | gone _ hsome _ =>
      obtain rfl := Option.some.inj (hsome.symm.trans hstart)
      simp [Transport.switchToNextProtocol, hfailed]
    | switched _ hsome hnot =>
      obtain rfl := Option.some.inj (hsome.symm.trans hstart)
      cases hnot ▸ hfailed
    | waits _ hnone | again _ hnone => cases hnone ▸ hstart
    | takes _ _ hnot =>
      rw [hstart, Option.any_some, hfailed] at hnot
      cases hnot
  · have htaken : (c.reaction (layer cfg)).taken c.transport.size = n := by
      rw [Transport.taken_of_fits (by omega) (by simp [hstart, hstarted])]
      omega
    rw [htaken] at htakes
    refine ⟨htakes.taken, ?_⟩
    rw [htakes.window, hwrit, Transport.length_bytes h.sound.room,
      Transport.bytes_eq_take, take_append_drop]

theorem shown_later {d : Stack Server} (h : d.Untouched)
    {actions : List TransportAction} {t : Transport}
    (hrun : exec Transport.step d.transport actions = some t)
    {calls later : List ConsumeCall} {call : ConsumeCall}
    (hcalls : t.consumes = d.transport.consumes ++ (calls ++ call :: later)) :
    call.start = d.transport.taken.length + consumedBy calls ∧
      ((∀ other ∈ calls ++ call :: later, other.written = other.bytes) →
        call.bytes <+: t.received.drop call.start) := by
  have hsound : t.Sound := exec_invariant Transport.Sound
    (fun _ _ _ h hstep => Transport.step_sound h hstep) h.sound hrun
  refine ⟨?_, fun hplain => ?_⟩
  · rw [hsound.starts (d.transport.consumes ++ calls) call later
      (by rw [hcalls, append_assoc]), h.sound.total, consumedBy,
      consumedBy, map_append, sum_append]
    rfl
  · refine (hsound.plain fun other hother => ?_).2 call (by simp [hcalls])
    rw [hcalls] at hother
    rcases mem_append.mp hother with hold | hnew
    · exact h.plain other hold
    · exact hplain other hnew

/-- When the upper layer switches to another protocol, the server leaves the
bytes behind the request alone if they have no complete header, and only
then. -/
theorem handsOver_iff (cfg : Config) (first : List Byte) (events : List Event)
    (c : Stack Server) (s : Switch)
    (hrun : exec (Stack.step (layer cfg)) (.established cfg.policy {} first)
      events = some c)
    (hlooping : c.transport.looping = true)
    (hswitch : switchNext cfg c = some s) :
    HandsOver cfg c s ↔ V1.splitHeader s.rest = none ∧
      s.rest.length < cfg.maxRequestSize := by
  have huntouched := Stack.untouched_run (fun _ _ _ => rfl) hrun
  have hlen := Transport.length_bytes huntouched.sound.room
  have hfuel : left c.layer.rest c.transport.bytes <
      2 * c.transport.bytes.length + 2 :=
    Nat.lt_succ_of_le (left_le _ _)
  obtain ⟨⟨more, hloop⟩, hmode, hnext, -, hfits, hrest⟩ :=
    loop_switching _ hswitch rfl hfuel
  constructor
  · intro h
    refine @incomplete_of_loop cfg _ s.rest s.consumed more hmode ?_
    rw [← hloop]
    exact h.consumed
  · intro h
    rw [loop_incomplete hmode h] at hloop
    have hanswer : c.answer (layer cfg) = _ := consume_answer hloop
    obtain ⟨d, hstep, hlayer, hrecv, hd, hfailed, hstarted⟩ :=
      step_switched huntouched hlooping hanswer rfl hnext (by omega)
    refine ⟨by rw [hanswer], by rw [hanswer], by rw [hanswer]; exact hnext, d,
      hstep, hlayer, hrecv, hfailed, fun hnot => ?_⟩
    obtain ⟨htaken, hwin⟩ := hstarted hnot
    refine ⟨htaken, ?_, fun actions t hlater calls call later hcalls =>
      shown_later hd hlater hcalls⟩
    have hall : c.transport.bytes ++ c.transport.window.drop c.transport.size =
        c.transport.window := by
      rw [Transport.bytes_eq_take, List.take_append_drop]
    rw [hwin, hrest, Nat.sub_zero, ← List.drop_append_of_le_length (by omega),
      hall]

def switcher : Config :=
  { maxRequestSize := 100
    maxRequestSize_pos := by decide
    real := fun _ => none
    makeUri := fun text => some ⟨text, false⟩
    upper := fun _ => { calls :=
      [.switchProtocol ⟨[.configureRead (.upTo 8)], false⟩] } }

def upgrade : List Byte := ascii "GET / HTTP/1.1\r\n\r\n"

theorem handsOver_iff_upgrade :
    ∃ c s, exec (Stack.step (layer switcher))
        (.established switcher.policy {} [])
        [.read (.data (upgrade ++ ascii "abc") [])] = some c ∧
      s.rest = ascii "abc" ∧ HandsOver switcher c s := by
  have hrun : (exec (Stack.step (layer switcher))
      (.established switcher.policy {} [])
      [.read (.data (upgrade ++ ascii "abc") [])]).map (fun c =>
        (c.transport.looping, (switchNext switcher c).map Switch.rest)) =
      some (true, some (ascii "abc")) := by
    decide +kernel
  obtain ⟨c, hc, hview⟩ := Option.map_eq_some_iff.mp hrun
  obtain ⟨hlooping, hswitch⟩ := Prod.mk.inj hview
  obtain ⟨s, hs, hrest⟩ := Option.map_eq_some_iff.mp hswitch
  refine ⟨c, s, hc, hrest, (handsOver_iff switcher [] _ c s hc hlooping hs).mpr
    ?_⟩
  rw [hrest]
  exact ⟨by decide, by decide⟩

/-- The bytes of the other protocol happen to have the end of a header: the
server takes them for a request, and the connection is closed. -/
theorem upgrade_interprets_rest :
    (exec (Stack.step (layer switcher)) (.established switcher.policy {} [])
      [.read (.data (upgrade ++ ascii "abc\r\n\r\n") [])]).map (fun c =>
        (switchNext switcher c).map (fun s =>
          (s.rest, s.server.requests.length, s.server.aborts))) =
      some (some (ascii "abc\r\n\r\n", 1, [])) ∧
    (exec (Stack.step (layer switcher)) (.established switcher.policy {} [])
      [.read (.data (upgrade ++ ascii "abc\r\n\r\n") []), .consume]).map
        (fun c => (c.layer.requests.length, c.layer.aborts,
          c.transport.consumes.map ConsumeCall.consumed,
          c.transport.reading)) =
      some (1, [⟨.protocolError, "received malformed header"⟩,
        ⟨.runtimeError, "consumed < 0"⟩], [-1], false) :=
  ⟨by decide +kernel, by decide +kernel⟩

end ActorFramework.Net.Http.Server
