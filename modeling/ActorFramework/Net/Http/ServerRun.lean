import ActorFramework.Net.Http.Requests
import ActorFramework.Net.StackRun

/-!
# Requests that arrive at the server

The requests may follow each other without a break, and their bytes may be cut
anywhere.  A call of `consume` passes on what is complete, and the phases say
which requests are left.
-/

namespace ActorFramework.Net.Http.Server

open ActorFramework.Core Message
open Foundation List

variable {cfg : Config} {sv : Server} {v : View}

def isReading (reading : Bool) : UpperCall → Bool
  | .suspendReading => false
  | .requestMessages => true
  | .output _ => reading
  | .switchProtocol _ => reading

def Config.limits (cfg : Config) (reading : Bool) : ReceivePolicy :=
  if reading then cfg.policy else .stop

def Config.Reads (cfg : Config) : Prop :=
  ∀ requests, (cfg.upper requests).calls.foldl isReading true = true

variable {old : ReceivePolicy}

theorem sets_upperCall {reading : Bool}
    (h : Sets old sv.calls (cfg.limits reading)) (call : UpperCall) :
    Sets old (sv.upperCall cfg call).calls
      (cfg.limits (isReading reading call)) := by
  cases call with
  | suspendReading => exact .last sv.calls .stop
  | requestMessages =>
    have hsets := Sets.restart h cfg.policy
    have hlimits : (if 0 < (cfg.limits reading).maxSize then
        cfg.limits reading else cfg.policy) = cfg.policy := by
      cases reading with
      | false => rfl
      | true => exact if_pos cfg.maxRequestSize_pos
    rw [hlimits] at hsets
    exact hsets
  | output bytes => exact .output h bytes
  | switchProtocol next => exact h

structure SameBooks (sv next : Server) : Prop where
  mode : next.mode = sv.mode
  hdr : next.hdr = sv.hdr
  payloadLen : next.payloadLen = sv.payloadLen
  requests : next.requests = sv.requests
  aborts : next.aborts = sv.aborts

theorem foldl_upperCall (calls : List UpperCall) (sv : Server) :
    SameBooks sv (calls.foldl (upperCall cfg) sv) ∧
      ((∀ next, .switchProtocol next ∉ calls) →
        (calls.foldl (upperCall cfg) sv).next = sv.next) ∧
      ∀ old reading, Sets old sv.calls (cfg.limits reading) →
        Sets old (calls.foldl (upperCall cfg) sv).calls
          (cfg.limits (calls.foldl isReading reading)) := by
  induction calls generalizing sv with
  | nil => exact ⟨⟨rfl, rfl, rfl, rfl, rfl⟩, fun _ => rfl, fun _ _ h => h⟩
  | cons call calls ih =>
    obtain ⟨hbooks, hnext, hsets⟩ := ih (sv.upperCall cfg call)
    rw [foldl_cons]
    refine ⟨?_, fun hstays => ?_, fun old reading h => ?_⟩
    · obtain ⟨hmode, hhdr, hlen, hrequests, haborts⟩ := hbooks
      cases call <;> exact ⟨hmode, hhdr, hlen, hrequests, haborts⟩
    · rw [hnext fun next hmem => hstays next (mem_cons_of_mem _ hmem)]
      cases call with
      | switchProtocol next => exact absurd mem_cons_self (hstays next)
      | suspendReading => rfl
      | requestMessages => rfl
      | output bytes => rfl
    · exact hsets old _ (sets_upperCall h call)

theorem invokeUpperLayer_books (sv : Server) (payload : List Byte) :
    SameBooks { sv with requests := sv.requests ++ [⟨sv.hdr, payload⟩] }
      (sv.invokeUpperLayer cfg payload).1 :=
  (foldl_upperCall _ _).1

structure Quiet (sv after : Server) : Prop where
  requests : after.requests = sv.requests
  next : after.next = sv.next
  aborts : sv.aborts <+: after.aborts

inductive Steps (cfg : Config) (sv : Server) : Server → Prop where
  | quiet {next : Server} (h : Quiet sv next) : Steps cfg sv next
  | invokes {base : Server} (h : Quiet sv base) (payload : List Byte)
      (mode : Mode) :
      Steps cfg sv { (base.invokeUpperLayer cfg payload).1 with mode := mode }

def Outcome.server : Outcome → Server
  | .returns sv _ => sv
  | .again sv _ _ => sv

variable {next : Server}

theorem quiet_of_aborts (aborts : List Error)
    (hrequests : next.requests = sv.requests) (hnext : next.next = sv.next)
    (haborts : next.aborts = sv.aborts ++ aborts) : Quiet sv next :=
  ⟨hrequests, hnext, ⟨aborts, haborts.symm⟩⟩

theorem quiet_of_same (hrequests : next.requests = sv.requests)
    (hnext : next.next = sv.next) (haborts : next.aborts = sv.aborts) :
    Quiet sv next :=
  quiet_of_aborts [] hrequests hnext (haborts.trans (append_nil _).symm)

theorem steps_readHeader (sv : Server) (input : List Byte) (n : Nat) :
    Steps cfg sv (sv.readHeader cfg input n).server := by
  unfold readHeader
  split
  · split
    · exact .quiet (quiet_of_aborts [_] rfl rfl rfl)
    · exact .quiet (quiet_of_same rfl rfl rfl)
  split
  · exact .quiet (quiet_of_aborts [_] rfl rfl rfl)
  rename_i hdr _
  simp only
  split
  · exact .quiet (quiet_of_same rfl rfl rfl)
  split
  · split
    · exact .quiet (quiet_of_aborts [_] rfl rfl rfl)
    · exact .quiet (quiet_of_same rfl rfl rfl)
  · have hinvokes := @Steps.invokes cfg sv { sv with hdr := hdr }
      (quiet_of_same rfl rfl rfl) []
    split
    · exact hinvokes _
    · exact hinvokes _

theorem steps_iteration (sv : Server) (input : List Byte) (n : Nat) :
    Steps cfg sv (sv.iteration cfg input n).server := by
  unfold iteration
  split
  · exact steps_readHeader sv input n
  · unfold readPayload
    split
    · have hinvokes := @Steps.invokes cfg sv sv (quiet_of_same rfl rfl rfl)
        (input.take sv.payloadLen)
      simp only
      split
      · exact hinvokes _
      · exact hinvokes _
    · exact .quiet (quiet_of_same rfl rfl rfl)
  · exact .quiet (quiet_of_same rfl rfl rfl)

theorem loop_keeps {P : Server → Prop}
    (hsteps : ∀ {sv next}, P sv → Steps cfg sv next → P next) (fuel : Nat)
    (h : P sv) (input : List Byte) (n : Nat) :
    P (loop cfg fuel sv input n).1 := by
  induction fuel generalizing sv input n with
  | zero => exact h
  | succ fuel ih =>
    have hnext := hsteps h (steps_iteration sv input n)
    rw [loop]
    cases hout : sv.iteration cfg input n with
    | returns next consumed =>
      rw [hout] at hnext
      exact hnext
    | again next input n =>
      rw [hout] at hnext
      exact ih hnext input n

theorem next_steps
    (hstays : ∀ requests next,
      .switchProtocol next ∉ (cfg.upper requests).calls)
    (h : sv.next = none) (hsteps : Steps cfg sv next) : next.next = none := by
  cases hsteps with
  | quiet hquiet => exact hquiet.next.trans h
  | invokes hquiet payload mode =>
    exact ((foldl_upperCall _ _).2.1 (hstays _)).trans (hquiet.next.trans h)

def Astray (expected : List Request) (sv : Server) : Prop :=
  sv.aborts ≠ [] ∨ ¬ sv.requests <+: expected

theorem Astray.mono {expected : List Request} (h : Astray expected sv)
    (haborts : sv.aborts <+: next.aborts)
    (hrequests : sv.requests <+: next.requests) : Astray expected next := by
  rcases h with hsome | hnot
  · refine .inl fun hnil => hsome ?_
    rw [hnil] at haborts
    exact prefix_nil.mp haborts
  · exact .inr fun hstart => hnot (hrequests.trans hstart)

theorem Astray.steps {expected : List Request} (h : Astray expected sv)
    (hsteps : Steps cfg sv next) : Astray expected next := by
  cases hsteps with
  | quiet hquiet =>
    exact h.mono hquiet.aborts
      ⟨[], (append_nil _).trans hquiet.requests.symm⟩
  | @invokes base hquiet payload mode =>
    have hbooks := @invokeUpperLayer_books cfg base payload
    refine h.mono (hbooks.aborts ▸ hquiet.aborts) ⟨[⟨base.hdr, payload⟩], ?_⟩
    rw [← hquiet.requests]
    exact hbooks.requests.symm

theorem Astray.aborted {expected : List Request} (h : Astray expected sv)
    (reason : Option Error) :
    Astray expected ((layer cfg).aborted sv.rest reason).1 := by
  cases reason with
  | none => exact h
  | some reason =>
    exact h.imp_left fun _ => by
      simp [Layer.aborted, layer, Server.abort, Server.rest]

def Right (cfg : Config) (m : Message) : Prop :=
  (m.announced cfg).getD 0 = m.body.length

structure Plan (cfg : Config) where
  msgs : List Message
  wellFormed : ∀ m ∈ msgs, m.WellFormed cfg
  accepts : ∀ requests, (cfg.upper requests).accepted = true
  stays : ∀ requests next, .switchProtocol next ∉ (cfg.upper requests).calls

namespace Plan

variable {plan : Plan cfg} {window received : List Byte}

def stream (plan : Plan cfg) : List Byte := plan.msgs.flatMap Message.bytes

def expected (plan : Plan cfg) : List Request :=
  plan.msgs.map (Message.request cfg)

def Wrong (plan : Plan cfg) : Prop := ∃ m ∈ plan.msgs, ¬ Right cfg m

structure Passed (plan : Plan cfg) (seen todo : List Message) (sv : Server) :
    Prop where
  msgs : plan.msgs = seen ++ todo
  right : ∀ m ∈ seen, Right cfg m
  requests : sv.requests = seen.map (Message.request cfg)
  aborts : sv.aborts = []

inductive Stage (plan : Plan cfg) (sv : Server)
    (window received : List Byte) : Prop where
  | header (seen todo : List Message) (h : plan.Passed seen todo sv)
      (hmode : sv.mode = .readHeader)
      (hreceived : received = seen.flatMap Message.bytes ++ window)
  | payload (seen : List Message) (m : Message) (todo : List Message)
      (h : plan.Passed seen (m :: todo) sv) (hmode : sv.mode = .readPayload)
      (hhdr : sv.hdr = m.header cfg)
      (hlen : m.announced cfg = some sv.payloadLen)
      (hmax : sv.payloadLen < cfg.maxRequestSize)
      (hreceived : received = seen.flatMap Message.bytes ++ (m.raw ++ window))

def Waits (sv : Server) (input : List Byte) : Prop :=
  match sv.mode with
  | .readHeader => V1.splitHeader input = none
  | .readPayload => input.length < sv.payloadLen
  | .readChunks => False

def left (sv : Server) (input : List Byte) : Nat :=
  2 * input.length + if sv.mode = .readPayload then 1 else 0

structure Going (plan : Plan cfg) (v : View) (sv : Server) (n : Nat) :
    Prop where
  stage : plan.Stage sv (v.window.drop n) v.received
  fits : n ≤ v.size
  sets : ∃ reading, Sets v.policy sv.calls (cfg.limits reading) ∧
    (cfg.Reads → reading = true)
  next : sv.next = none
  fresh : n = 0 → sv.calls = [] ∧ (sv.mode = .readPayload → 0 < sv.payloadLen)

inductive Turn (plan : Plan cfg) (v : View) (sv : Server) (n : Nat) :
    Outcome → Prop where
  | stops (hwaits : Waits sv (v.bytes.drop n)) :
    plan.Turn v sv n (.returns sv n)
  | goes {next : Server} {n' : Nat} (h : plan.Going v next n')
      (hless : left next (v.bytes.drop n') < left sv (v.bytes.drop n)) :
      plan.Turn v sv n (.again next (v.bytes.drop n') n')
  | strays {out : Outcome} (hwrong : plan.Wrong)
      (hastray : Astray plan.expected out.server) : plan.Turn v sv n out

section

variable {seen todo : List Message} {m : Message} {base : Server}
  {payload : List Byte}

theorem Passed.window_start (h : plan.Passed seen todo sv)
    (hrecv : received = seen.flatMap bytes ++ window)
    (hstream : received <+: plan.stream) :
    window <+: todo.flatMap bytes := by
  rw [hrecv, stream, h.msgs, flatMap_append] at hstream
  exact (prefix_append_right_inj _).mp hstream

theorem Passed.mem (h : plan.Passed seen (m :: todo) sv) : m ∈ plan.msgs := by
  simp [h.msgs]

theorem Passed.requests_le (h : plan.Passed seen todo sv) :
    sv.requests <+: plan.expected := by
  rw [h.requests, expected, h.msgs, map_append]
  exact prefix_append _ _

theorem passed_invoke (h : plan.Passed seen (m :: todo) base)
    (hhdr : base.hdr = m.header cfg) (hright : Right cfg m) :
    plan.Passed (seen ++ [m]) todo (base.invokeUpperLayer cfg m.body).1 := by
  have hbooks := @invokeUpperLayer_books cfg base m.body
  refine ⟨?_, ?_, ?_, hbooks.aborts.trans h.aborts⟩
  · rw [h.msgs]
    simp
  · intro other hmem
    rcases mem_append.mp hmem with hseen | hlast
    · exact h.right other hseen
    · rw [mem_singleton.mp hlast]
      exact hright
  · rw [hbooks.requests]
    simp [h.requests, hhdr, request]

theorem astray_invoke (h : plan.Passed seen (m :: todo) base)
    (hpay : payload ≠ m.body) :
    Astray plan.expected (base.invokeUpperLayer cfg payload).1 := by
  refine .inr fun hstart => hpay ?_
  rw [(invokeUpperLayer_books base payload).requests, expected, h.msgs,
    h.requests, map_append, map_cons] at hstart
  obtain ⟨hhead, -⟩ := cons_prefix_cons.mp
    ((prefix_append_right_inj _).mp hstart)
  exact congrArg Request.payload hhead

theorem sets_invoke
    (h : ∃ reading, Sets old base.calls (cfg.limits reading) ∧ (cfg.Reads →
      reading = true)) :
    ∃ reading, Sets old (base.invokeUpperLayer cfg payload).1.calls
      (cfg.limits reading) ∧ (cfg.Reads → reading = true) := by
  obtain ⟨reading, hsets, htrue⟩ := h
  refine ⟨_, (foldl_upperCall _ _).2.2 old reading hsets, fun hreads => ?_⟩
  rw [htrue hreads]
  exact hreads _

theorem next_invoke (plan : Plan cfg) (h : base.next = none) :
    (base.invokeUpperLayer cfg payload).1.next = none :=
  ((foldl_upperCall _ _).2.1 (plan.stays _)).trans h

end

section

variable {n : Nat} {seen todo : List Message} {m : Message}

section

variable (hgoing : plan.Going v sv n)
include hgoing

section

variable (h : plan.Passed seen (m :: todo) sv)
include h

theorem turn_unsized (hmode : sv.mode = .readHeader)
    (hann : m.announced cfg = none) (hfits : n + m.raw.length ≤ v.size)
    (hrecv : v.received = seen.flatMap bytes ++ (m.raw ++ v.window.drop
      (n + m.raw.length))) :
    let res := { sv with hdr := m.header cfg }.invokeUpperLayer cfg []
    plan.Turn v sv n (if res.2 then
        .again res.1 (v.bytes.drop (n + m.raw.length)) (n + m.raw.length)
      else .returns res.1 (-1)) := by
  intro res
  have hacc : res.2 = true := plan.accepts _
  have hbase : plan.Passed seen (m :: todo) { sv with hdr := m.header cfg } :=
    { h with }
  have hlong := m.length_raw
  have hbooks := @invokeUpperLayer_books cfg { sv with hdr := m.header cfg } []
  rw [if_pos hacc]
  by_cases hbody : m.body = []
  · have hright : Right cfg m := by
      rw [Right, hann, hbody]
      rfl
    have hpassed := passed_invoke hbase rfl hright
    rw [hbody] at hpassed
    refine .goes ⟨.header (seen ++ [m]) todo hpassed (hbooks.mode.trans hmode)
      ?_, hfits, sets_invoke hgoing.sets, next_invoke plan hgoing.next,
      fun hzero => by omega⟩ ?_
    · rw [hrecv]
      simp [bytes, hbody]
    · have hmode' : res.1.mode = .readHeader := hbooks.mode.trans hmode
      rw [left, left, hmode, hmode', length_drop, length_drop, v.length_bytes]
      simp only [reduceCtorEq, if_false]
      omega
  · refine .strays ⟨m, h.mem, fun hright => hbody ?_⟩
      (astray_invoke hbase fun heq => hbody heq.symm)
    rw [Right, hann] at hright
    exact length_eq_zero_iff.mp hright.symm

theorem turn_header (hmode : sv.mode = .readHeader)
    (hrecv : v.received = seen.flatMap bytes ++ v.window.drop n)
    (hin : v.bytes.drop n <+: m.raw ++ (m.body ++ todo.flatMap bytes))
    (hlong : m.raw.length ≤ (v.bytes.drop n).length) :
    plan.Turn v sv n (sv.readHeader cfg (v.bytes.drop n) n) := by
  have hwell := plan.wellFormed m h.mem
  have hraw := m.length_raw
  have hlen := v.length_left hgoing.fits
  have hsize : m.raw.length + m.body.length ≤ cfg.maxRequestSize := by
    rw [← length_append]
    exact hwell.size
  have hrecv' : v.received = seen.flatMap bytes ++
      (m.raw ++ v.window.drop (n + m.raw.length)) := by
    rw [hrecv, v.window_shown hin hlong]
  have hunchunked : chunkedTransferEncoding (m.header cfg).fields = false :=
    hwell.unchunked
  have hfields : contentLength cfg.real (m.header cfg).fields =
      m.announced cfg := rfl
  unfold readHeader
  simp only [splitHeader_long hwell hin hlong, parse_raw hwell,
    hunchunked, Bool.false_eq_true, if_false, hfields, drop_drop]
  cases hann : m.announced cfg with
  | none =>
    exact turn_unsized hgoing h hmode hann (by omega) hrecv'
  | some len =>
    simp only
    split_ifs with hsmall
    · refine .strays ⟨m, h.mem, fun hright => ?_⟩ (.inl ?_)
      · rw [Right, hann, Option.getD_some] at hright
        omega
      · simp [Outcome.server, Server.writeResponse, Server.lower, Server.abort]
    · refine .goes ⟨.payload seen m todo { h with } rfl rfl hann
          (Nat.lt_of_not_le hsmall) hrecv',
        by omega, hgoing.sets, hgoing.next, fun hzero => by omega⟩ ?_
      rw [left, left, hmode, length_drop, length_drop, v.length_bytes]
      simp only [reduceCtorEq, if_false, if_true]
      omega

theorem turn_payload (hmode : sv.mode = .readPayload)
    (hhdr : sv.hdr = m.header cfg) (hann : m.announced cfg = some sv.payloadLen)
    (hrecv : v.received = seen.flatMap bytes ++ (m.raw ++ v.window.drop n))
    (hin : v.bytes.drop n <+: m.body ++ todo.flatMap bytes) :
    plan.Turn v sv n (sv.readPayload cfg (v.bytes.drop n) n) := by
  have hlen := v.length_left hgoing.fits
  have hwaits : Waits sv (v.bytes.drop n) ↔
      (v.bytes.drop n).length < sv.payloadLen := by
    rw [Waits, hmode]
  unfold readPayload
  split_ifs with hlong
  · have hacc : (sv.invokeUpperLayer cfg
        ((v.bytes.drop n).take sv.payloadLen)).2 = true := plan.accepts _
    simp only [hacc, if_true, drop_drop]
    by_cases hright : sv.payloadLen = m.body.length
    · have hbody : (v.bytes.drop n).take sv.payloadLen = m.body := by
        rw [hright] at hlong ⊢
        have hstart := prefix_of_prefix_length_le
          (prefix_append m.body _) hin hlong
        exact (prefix_iff_eq_take.mp hstart).symm
      have hpassed := passed_invoke h hhdr (by
        rw [Right, hann, Option.getD_some, hright])
      rw [hbody]
      refine .goes ⟨.header (seen ++ [m]) todo { hpassed with } rfl ?_,
        by omega,
        sets_invoke hgoing.sets, next_invoke plan hgoing.next, ?_⟩ ?_
      · have hstart : m.body <+: v.window.drop n := by
          rw [← hbody]
          exact (List.take_prefix _ _).trans (v.bytes_start.drop n)
        rw [hrecv, hright, v.window_drop hstart]
        simp [bytes]
      · intro hzero
        have hpos := (hgoing.fresh (by omega)).2 hmode
        omega
      · simp only [left, hmode, length_drop, v.length_bytes, reduceCtorEq,
          if_false, if_true]
        omega
    · refine .strays ⟨m, h.mem, fun hr => hright ?_⟩
        (astray_invoke h fun heq => hright ?_)
      · rw [Right, hann] at hr
        exact hr
      · rw [← heq, length_take_of_le hlong]
  · exact .stops (hwaits.mpr (by omega))

end

theorem turn_iteration (hstream : v.received <+: plan.stream) :
    plan.Turn v sv n (sv.iteration cfg (v.bytes.drop n) n) := by
  have hbytes := v.bytes_start.drop n
  have hshown := hgoing.stage
  cases hshown with
  | header seen todo h hmode hrecv =>
    have hwaits : V1.splitHeader (v.bytes.drop n) = none →
        (v.bytes.drop n).length < cfg.maxRequestSize →
        plan.Turn v sv n (sv.iteration cfg (v.bytes.drop n) n) := by
      intro hnone hless
      have hstops : sv.iteration cfg (v.bytes.drop n) n =
          .returns sv n := by
        rw [iteration, hmode]
        simp only [readHeader, hnone]
        rw [if_neg (by omega)]
      rw [hstops]
      exact .stops (by rw [Waits, hmode]; exact hnone)
    have hin := hbytes.trans (h.window_start hrecv hstream)
    cases todo with
    | nil =>
      have hnil := prefix_nil.mp hin
      exact hwaits (by rw [hnil]; rfl)
        (by rw [hnil]; exact cfg.maxRequestSize_pos)
    | cons m todo =>
      have hwell := plan.wellFormed m h.mem
      have hsize : m.raw.length + m.body.length ≤ cfg.maxRequestSize := by
        rw [← length_append]
        exact hwell.size
      rw [flatMap_cons, bytes, append_assoc] at hin
      by_cases hshort : (v.bytes.drop n).length < m.raw.length
      · exact hwaits (splitHeader_short hwell hin hshort) (by omega)
      · rw [iteration, hmode]
        exact turn_header hgoing h hmode hrecv hin (by omega)
  | payload seen m todo h hmode hhdr hlen _ hrecv =>
    have hin : v.bytes.drop n <+: m.body ++ todo.flatMap bytes := by
      have hstart := h.window_start hrecv hstream
      rw [flatMap_cons, bytes, append_assoc] at hstart
      exact hbytes.trans ((prefix_append_right_inj _).mp hstart)
    rw [iteration, hmode]
    exact turn_payload hgoing h hmode hhdr hlen hrecv hin

end

/-- With enough fuel the loop returns because the server waits for more bytes,
or the size of a body was wrong. -/
theorem loop_spec (fuel : Nat) (hgoing : plan.Going v sv n)
    (hstream : v.received <+: plan.stream)
    (hfuel : left sv (v.bytes.drop n) < fuel) :
    (∃ next, ∃ n' : Nat,
      loop cfg fuel sv (v.bytes.drop n) n = (next, (n' : Int)) ∧
        plan.Going v next n' ∧ Waits next (v.bytes.drop n')) ∨
    plan.Wrong ∧
      Astray plan.expected (loop cfg fuel sv (v.bytes.drop n) n).1 := by
  induction fuel generalizing sv n with
  | zero => omega
  | succ fuel ih =>
    have hturn := turn_iteration hgoing hstream
    rw [loop]
    generalize sv.iteration cfg (v.bytes.drop n) n = out at hturn
    cases hturn with
    | stops hwaits => exact .inl ⟨sv, n, rfl, hgoing, hwaits⟩
    | goes h hless => exact ih h (by omega)
    | strays hwrong hastray =>
      refine .inr ⟨hwrong, ?_⟩
      cases out with
      | returns next consumed => exact hastray
      | again next input consumed =>
        exact loop_keeps Astray.steps fuel hastray input consumed

end

def phases (plan : Plan cfg) : Phases Server where
  stream := plan.stream
  Live sv v := v.received <+: plan.stream ∧
    plan.Stage sv v.window v.received ∧
    (∃ reading, v.policy = cfg.limits reading ∧ (cfg.Reads → reading = true)) ∧
    (sv.mode = .readPayload → 0 < sv.payloadLen)
  Waiting sv v := Waits sv v.bytes
  Dead _ := False
  Gone sv := sv.requests <+: plan.expected
  Done sv := plan.Wrong ∧ Astray plan.expected sv

section

variable (h : plan.Stage sv window received)
include h

theorem Stage.read (chunk : List Byte) :
    plan.Stage sv (window ++ chunk) (received ++ chunk) := by
  cases h with
  | header seen todo h hmode hrecv =>
    refine .header seen todo h hmode ?_
    simp [hrecv]
  | payload seen m todo h hmode hhdr hlen hmax hrecv =>
    refine .payload seen m todo h hmode hhdr hlen hmax ?_
    simp [hrecv]

theorem Stage.rest : plan.Stage sv.rest window received := by
  cases h with
  | header seen todo h hmode hrecv =>
    exact .header seen todo { h with } hmode hrecv
  | payload seen m todo h hmode hhdr hlen hmax hrecv =>
    exact .payload seen m todo { h with } hmode hhdr hlen hmax hrecv

theorem Stage.requests_le : sv.requests <+: plan.expected := by
  cases h with
  | header _ _ h => exact h.requests_le
  | payload _ _ _ h => exact h.requests_le

theorem Stage.aborts : sv.aborts = [] := by
  cases h with
  | header _ _ h => exact h.aborts
  | payload _ _ _ h => exact h.aborts

end

theorem consume_answer {out : Server × Int} {bytes delta : List Byte}
    (h : sv.rest.consume cfg bytes = out) :
    (layer cfg).consume sv bytes delta =
      { state := out.1.rest
        calls := out.1.calls
        written := bytes
        consumed := out.2
        next := out.1.next } := by
  rw [← h]
  rfl

theorem Going.passes {next : Server} {n : Nat}
    (hout : sv.rest.consume cfg v.bytes = (next, (n : Int)))
    (h : plan.Going v next n) (hwaits : Waits next (v.bytes.drop n))
    (hstream : v.received <+: plan.stream)
    (hlimits : ∃ reading, v.policy = cfg.limits reading ∧
      (cfg.Reads → reading = true)) : plan.phases.Goes (layer cfg) sv v := by
  have hpos : next.mode = .readPayload → 0 < next.payloadLen := by
    intro hmode
    rw [Waits, hmode] at hwaits
    exact Nat.zero_lt_of_lt hwaits
  by_cases hzero : n = 0
  · subst hzero
    obtain ⟨hcalls, -⟩ := h.fresh rfl
    refine .passes (consume_answer hout) h.next rfl rfl h.fits ?_
      (fun offset => ⟨hstream, h.stage.rest, hlimits, hpos⟩)
      fun _ => .inl ⟨hcalls, rfl, fun offset => hwaits⟩
    simp only [hcalls]
    exact .nothing
  · obtain ⟨reading, hsets, htrue⟩ := h.sets
    exact .passes (consume_answer hout) h.next rfl rfl h.fits hsets
      (fun offset => ⟨hstream, h.stage.rest, ⟨reading, rfl, htrue⟩, hpos⟩)
      fun hnot => absurd hnot hzero

theorem steady (plan : Plan cfg) : plan.phases.Steady (layer cfg) where
  read := fun chunk h hstream =>
    ⟨hstream, h.2.1.read chunk, h.2.2.1, h.2.2.2⟩
  consume := by
    rintro sv v ⟨hstream, hstage, hlimits, hpos⟩ -
    have hgoing : plan.Going v sv.rest 0 := by
      refine ⟨hstage.rest, Nat.zero_le _, ?_, rfl, fun _ => ⟨rfl, hpos⟩⟩
      obtain ⟨reading, hpol, htrue⟩ := hlimits
      exact ⟨reading, hpol ▸ .nothing, htrue⟩
    have hfuel : left sv.rest v.bytes < 2 * v.bytes.length + 2 := by
      unfold left
      split <;> omega
    rcases loop_spec _ hgoing hstream hfuel with
      ⟨next, n, hout, hnext, hwaits⟩ | ⟨hwrong, hastray⟩
    · exact hnext.passes hout hwaits hstream hlimits
    · exact .done _ (consume_answer rfl) v.length_bytes
        ⟨hwrong, Astray.aborted hastray _⟩
  plain := fun _ _ _ hcall => by cases hcall
  abort := fun _ h => h.2.1.requests_le
  abortDead := fun _ h => h.elim
  abortDone := fun reason h => ⟨h.1, @Astray.aborted cfg _ _ h.2 (some reason)⟩
  consumeDone := fun {sv} bytes _ h =>
    ⟨h.1, @loop_keeps cfg sv.rest _ Astray.steps _ h.2 bytes 0⟩

theorem established (plan : Plan cfg) {first : List Byte}
    (hfirst : first <+: plan.stream) :
    plan.phases.Health (.established cfg.policy {} first) := by
  refine Phases.health_established ⟨hfirst, ?_,
    ⟨true, rfl, fun _ => rfl⟩, ?_⟩ Nat.zero_lt_one
  · exact .header [] plan.msgs ⟨rfl, by simp, rfl, rfl⟩ rfl rfl
  · intro hmode
    cases hmode

theorem waits_of_rests {reading : Bool} (hpol : v.policy = cfg.limits reading)
    (hreads : 0 < v.policy.maxSize) (hrests : plan.phases.Rests sv v) :
    v.size = min v.window.length cfg.maxRequestSize ∧
      (v.window = [] ∨ Waits sv v.bytes) := by
  have hread : reading = true := by
    cases reading with
    | true => rfl
    | false =>
      rw [hpol] at hreads
      exact absurd hreads (Nat.lt_irrefl 0)
  subst hread
  refine ⟨by rw [View.size, hpol]; rfl, ?_⟩
  rcases hrests with hzero | hless | hwaits
  · omega
  · rw [hpol] at hless
    exact .inl (length_eq_zero_iff.mp (Nat.lt_one_iff.mp hless))
  · exact .inr hwaits

/-- With all bytes in the buffer, a server that has nothing to do and that reads
has passed on all requests, unless the size of a body was wrong. -/
theorem live_settled (h : plan.phases.Live sv v) (hreads : 0 < v.policy.maxSize)
    (hrests : plan.phases.Rests sv v) (hall : v.received = plan.stream) :
    plan.Wrong ∧ sv.requests ≠ plan.expected ∨
      ¬ plan.Wrong ∧ sv.requests = plan.expected ∧ sv.mode = .readHeader ∧
        v.window = [] := by
  obtain ⟨-, hstage, ⟨reading, hpol, -⟩, hpos⟩ := h
  obtain ⟨hsize, hwaits⟩ := waits_of_rests hpol hreads hrests
  have hlength := v.length_bytes
  cases hstage with
  | header seen todo h hmode hrecv =>
    have hwin : v.window = todo.flatMap bytes := by
      rw [hall, stream, h.msgs, flatMap_append] at hrecv
      exact (append_cancel_left hrecv).symm
    cases todo with
    | nil =>
      have hmsgs : plan.msgs = seen := h.msgs.trans (append_nil _)
      refine .inr ⟨?_, ?_, hmode, hwin⟩
      · rintro ⟨m, hm, hnot⟩
        exact hnot (h.right m (hmsgs ▸ hm))
      · rw [h.requests, expected, hmsgs]
    | cons m todo =>
      exfalso
      have hwell := plan.wellFormed m h.mem
      have hraw := m.length_raw
      have hmax : m.raw.length + m.body.length ≤ cfg.maxRequestSize := by
        rw [← length_append]
        exact hwell.size
      rw [flatMap_cons, bytes, append_assoc] at hwin
      have hlong : m.raw.length ≤ v.window.length := by
        rw [hwin, length_append]
        omega
      rcases hwaits with hnil | hwaits
      · rw [hnil, length_nil] at hlong
        omega
      · rw [Waits, hmode] at hwaits
        have hsome := splitHeader_long hwell
          (hwin ▸ v.bytes_start) (by omega)
        cases hsome ▸ hwaits
  | payload seen m todo h hmode hhdr hlen hmax hrecv =>
    refine .inl ⟨⟨m, h.mem, fun hright => ?_⟩, fun hsame => ?_⟩
    · rw [Right, hlen, Option.getD_some] at hright
      have hwin : v.window = m.body ++ todo.flatMap bytes := by
        rw [hall, stream, h.msgs, flatMap_append, flatMap_cons,
          bytes, append_assoc] at hrecv
        exact (append_cancel_left (append_cancel_left hrecv)).symm
      have hlong : m.body.length ≤ v.window.length := by
        rw [hwin, length_append]
        omega
      have hpos := hpos hmode
      rcases hwaits with hnil | hwaits
      · rw [hnil, length_nil] at hlong
        omega
      · rw [Waits, hmode] at hwaits
        omega
    · have hmore := congrArg List.length hsame
      rw [h.requests, expected, h.msgs] at hmore
      simp only [length_map, length_append, length_cons] at hmore
      omega

end Plan

end ActorFramework.Net.Http.Server
