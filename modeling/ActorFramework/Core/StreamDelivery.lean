import ActorFramework.Core.StreamCredit

/-!
# Delivery of batches

The batches that the observer got, those in the buffer of the sink and those
under way are all that the source has sent, in this order.  A batch that
arrives while others wait must not overtake them, and a close message must not
find the buffer filled: the sink then completes at once.
-/

namespace ActorFramework.Core

open Foundation List StreamSystem

variable {τ : Type*} {cfg : StreamConfig}

namespace StreamBridgeSub

def waiting (s : StreamBridgeSub τ) : List τ :=
  match s.pc with
  | .inPush => s.buf.tail
  | _ => s.buf

structure Heard (delivered : List τ) (ending : List (StreamEvent τ))
    (s : StreamBridgeSub τ) : Prop where
  events : s.events = delivered.map .next ++ ending
  running : s.hasOut = true → ending = []
  pointers : s.hasOut = s.hasSrc

variable {s : StreamBridgeSub τ} {delivered : List τ}
  {ending : List (StreamEvent τ)}

section

variable (hs : Heard delivered ending s)
include hs

theorem Heard.onNext (input : τ) (hout : s.hasOut = true) :
    Heard (delivered ++ [input]) [] (s.onNext input) := by
  have hevs := hs.events
  rw [hs.running hout, append_nil] at hevs
  unfold StreamBridgeSub.onNext
  rw [if_pos hout]
  refine ⟨?_, fun _ => rfl, hs.pointers⟩
  simp [hevs]

theorem Heard.finish (event : StreamEvent τ) :
    Heard delivered (if s.hasOut then [event] else ending)
      ({ s with hasSrc := false }.finish event) := by
  have hevs := hs.events
  unfold StreamBridgeSub.finish
  by_cases hout : s.hasOut = true
  · rw [if_pos hout, if_pos hout]
    rw [hs.running hout, append_nil] at hevs
    exact ⟨by rw [hevs], nofun, rfl⟩
  · rw [if_neg hout, if_neg hout]
    exact ⟨hevs, hs.running, Bool.not_eq_true _ ▸ hout⟩

theorem Heard.doCheckCredit :
    Heard delivered ending ({ s with pc := .idle }.doCheckCredit).1 ∧
      ({ s with pc := .idle }.doCheckCredit).1.waiting = s.buf ∧
      ({ s with pc := .idle }.doCheckCredit).1.hasOut = s.hasOut := by
  obtain ⟨n, msgs, hcheck⟩ := doCheckCredit_shape { s with pc := .idle }
  rw [hcheck]
  exact ⟨{ hs with }, rfl, rfl⟩

theorem Heard.push (hout : s.hasOut = true) :
    ∃ delivered', Heard delivered' [] s.push.1 ∧
      delivered' ++ s.push.1.waiting = delivered ++ s.buf ∧
      s.push.1.hasOut = true := by
  obtain rfl := hs.running hout
  rcases push_shape s with ⟨n, msgs, hpush⟩ | ⟨input, rest, hbuf, hpush⟩
  · rw [hpush]
    exact ⟨delivered, { hs with }, rfl, hout⟩
  · have hframe :
        Heard delivered [] { s with demand := s.demand - 1, pc := .inPush } :=
      { hs with }
    obtain ⟨events, hnext⟩ :=
      onNext_eq { s with demand := s.demand - 1, pc := .inPush } input
    have hheard := hframe.onNext input hout
    rw [hpush]
    refine ⟨delivered ++ [input], hheard, ?_, ?_⟩
    · rw [hnext]
      change delivered ++ [input] ++ s.buf.tail = delivered ++ s.buf
      rw [hbuf]
      simp
    · rw [hnext]
      exact hout

theorem Heard.hasOut (hok : SinkOk cfg s) (hinit : s.initialized = true)
    (hreg : s.registered = true) : s.hasOut = true :=
  hs.pointers.trans (hok.hasSrc hinit hreg)

variable {result : StreamBridgeSub τ × List ToSource}

theorem Heard.ret (hok : SinkOk cfg s) (hret : s.ret = some result) :
    ∃ delivered', Heard delivered' [] result.1 ∧
      delivered' ++ result.1.waiting = delivered ++ s.waiting ∧
      result.1.hasOut = true := by
  unfold StreamBridgeSub.ret at hret
  split at hret
  · cases hret
  · rename_i hpc
    cases hret
    obtain ⟨hinit, hreg⟩ := hok.active (by rw [hpc]; nofun)
    have hout := hs.hasOut hok hinit hreg
    obtain rfl := hs.running hout
    obtain ⟨hheard, hwait, hsame⟩ := hs.doCheckCredit
    refine ⟨delivered, hheard, ?_, hsame.trans hout⟩
    rw [hwait, waiting, hpc]
  · rename_i hpc
    cases hret
    obtain ⟨hinit, hreg⟩ := hok.active (by rw [hpc]; nofun)
    have hout := hs.hasOut hok hinit hreg
    have htail : Heard delivered ending { s with buf := s.buf.tail } :=
      { hs with }
    obtain ⟨delivered', hheard, hwait, hsame⟩ := htail.push hout
    refine ⟨delivered', hheard, ?_, hsame⟩
    rw [hwait, waiting, hpc]

end

end StreamBridgeSub

namespace StreamSystem

open StreamBridgeSub

def Ended (s : StreamSystem τ) (ending : List (StreamEvent τ)) : Prop :=
  (∃ reason, ending = [.error reason]) ∨
    ending = [.complete] ∧ s.sink.registered = false ∧ s.sink.buf = [] ∧
      s.source.subscribed = false ∧ s.source.opened = true

structure Delivery (s : StreamSystem τ) (delivered : List τ)
    (ending : List (StreamEvent τ)) : Prop where
  heard : Heard delivered ending s.sink
  all : delivered ++ s.sink.waiting ++ inputsOf s.toSink = s.source.sent
  ended : s.sink.hasOut = false → s.Ended ending

theorem Delivery.source {s t : StreamSystem τ} {delivered : List τ}
    {ending : List (StreamEvent τ)} (hs : Delivery s delivered ending)
    (inputs : List τ) (hsink : t.sink = s.sink)
    (htoSink : inputsOf t.toSink = inputsOf s.toSink ++ inputs)
    (hsent : t.source.sent = s.source.sent ++ inputs)
    (hclosed : s.source.opened = true → s.source.subscribed = false →
      t.source.opened = true ∧ t.source.subscribed = false) :
    Delivery t delivered ending := by
  refine ⟨hsink ▸ hs.heard, ?_, ?_⟩
  · rw [hsink, htoSink, hsent, ← hs.all]
    simp
  · rw [hsink]
    intro hout
    rcases hs.ended hout with herror | ⟨hend, hgone, hbuf, hsub, hopened⟩
    · exact .inl herror
    · obtain ⟨hopened', hsub'⟩ := hclosed hopened hsub
      refine .inr ⟨hend, ?_, ?_, hsub', hopened'⟩
      · rw [hsink]
        exact hgone
      · rw [hsink]
        exact hbuf

variable {s : StreamSystem τ} {delivered : List τ}
  {ending : List (StreamEvent τ)} {msg : ToSink τ} {rest : List (ToSink τ)}

theorem Delivery.updateSink {delivered' : List τ}
    (hs : Delivery s delivered ending) (hheard : Heard delivered' [] result.1)
    (hwait : delivered' ++ result.1.waiting = delivered ++ s.sink.waiting)
    (hout : result.1.hasOut = true) :
    Delivery (s.updateSink result) delivered' [] := by
  refine ⟨hheard, ?_, ?_⟩
  · change delivered' ++ result.1.waiting ++ inputsOf s.toSink =
      s.source.sent
    rw [hwait]
    exact hs.all
  · intro hnone
    cases hout ▸ hnone

theorem Ledger.closed_of_last (hs : Ledger cfg s)
    (htoSink : s.toSink = msg :: rest) (hlast : msg.isLast = true) :
    s.source.subscribed = false ∧ s.source.opened = true := by
  constructor
  · rw [← Bool.not_eq_true]
    intro hsub
    have hnot := hs.last hsub msg (htoSink ▸ mem_cons_self)
    rw [hlast] at hnot
    cases hnot
  · rw [← Bool.not_eq_false]
    intro hclosed
    have hempty := (hs.closed hclosed).2.1
    rw [htoSink] at hempty
    cases hempty

theorem Delivery.error_of_registered (hs : Delivery s delivered ending)
    (hreg : s.sink.registered = true) (hout : ¬ s.sink.hasOut = true) :
    ∃ reason, ending = [.error reason] := by
  rcases hs.ended (Bool.not_eq_true _ ▸ hout) with herror | ⟨_, hgone, _⟩
  · exact herror
  · rw [hreg] at hgone
    cases hgone

theorem Delivery.drop {s : StreamSystem τ} {msg : ToSink τ}
    {rest : List (ToSink τ)} {delivered : List τ}
    {ending : List (StreamEvent τ)} (hs : Delivery s delivered ending)
    (hledger : Ledger cfg s) (htoSink : s.toSink = msg :: rest)
    (hlast : msg.isLast = true) (hreg : s.sink.registered = true)
    (event : StreamEvent τ)
    (hevent : (∃ reason, event = .error reason) ∨
      event = .complete ∧ s.sink.buf = []) :
    ∃ ending', Delivery
      ({ s with toSink := rest }.updateSink
        ({ s.sink with registered := false }.drop event))
      delivered ending' := by
  have hheard : Heard delivered ending { s.sink with registered := false } :=
    { hs.heard with }
  obtain ⟨hasOut, events, hfinish⟩ :=
    finish_eq { s.sink with registered := false, hasSrc := false } event
  obtain ⟨hsub, hopened⟩ := hledger.closed_of_last htoSink hlast
  refine ⟨_, hheard.finish event, ?_, fun _ => ?_⟩
  · have hall := hs.all
    rw [htoSink, inputsOf_cons, (isLast_kind hlast).1] at hall
    simp only [StreamBridgeSub.drop, hfinish]
    exact hall
  · by_cases hout : s.sink.hasOut = true
    · rw [if_pos hout]
      rcases hevent with ⟨reason, rfl⟩ | ⟨rfl, hbuf⟩
      · exact .inl ⟨reason, rfl⟩
      · refine .inr ⟨rfl, ?_, ?_, hsub, hopened⟩
        · simp [StreamSystem.updateSink, StreamBridgeSub.drop, hfinish]
        · simp only [StreamBridgeSub.drop, hfinish]
          exact hbuf
    · rw [if_neg hout]
      exact .inl (hs.error_of_registered hreg hout)

theorem Delivery.ack {m : Nat} (hs : Delivery s delivered ending)
    (htoSink : s.toSink = .ack m :: rest) (hreg : s.sink.registered = true) :
    ∃ ending', Delivery
      ({ s with toSink := rest }.updateSink (s.sink.ack cfg m))
      delivered ending' := by
  have hall := hs.all
  rw [htoSink, inputsOf_cons] at hall
  unfold StreamBridgeSub.ack
  split
  · have hheard :
        Heard delivered ending { s.sink with drops := s.sink.drops + 1 } :=
      { hs.heard with }
    obtain ⟨hasOut, events, hfinish⟩ :=
      finish_eq { s.sink with hasSrc := false, drops := s.sink.drops + 1 }
        (.error .protocolError)
    refine ⟨_, hheard.finish (.error .protocolError), ?_, fun _ => .inl ?_⟩
    · simp only [StreamBridgeSub.doAbort, hfinish]
      exact hall
    · by_cases hout : s.sink.hasOut = true
      · exact ⟨.protocolError, if_pos hout⟩
      · rw [if_neg hout]
        exact hs.error_of_registered hreg hout
  · refine ⟨ending, { hs.heard with },
      hall, fun hout => .inl ?_⟩
    exact hs.error_of_registered hreg (Bool.not_eq_true _ ▸ hout)

/-- A batch must find the buffer empty or the observer without demand, and a
close message must find the buffer empty. -/
def findsBufferDrained (s : StreamSystem τ) : StreamAction τ → Bool
  | .sinkReceive =>
    match s.toSink with
    | .batch _ :: _ => s.sink.demand == 0 || s.sink.buf.isEmpty
    | .close :: _ => s.sink.buf.isEmpty
    | _ => true
  | _ => true

section

variable (hs : Delivery s delivered ending)
include hs

theorem Delivery.pushInput {input : τ} (hledger : Ledger cfg s)
    (hidle : s.sink.pc = .idle) (htoSink : s.toSink = .batch input :: rest)
    (hreg : s.sink.registered = true)
    (hdrain : s.sink.demand = 0 ∨ s.sink.buf = []) :
    ∃ delivered', Delivery
      ({ s with toSink := rest }.updateSink (s.sink.pushInput input))
      delivered' [] := by
  have hflight := hledger.batch_credit htoSink
  have hinit := hledger.sinkOk.initialized_of_pos (Nat.add_pos_left hflight _)
  have hout := hs.heard.hasOut hledger.sinkOk hinit hreg
  have hall := hs.all
  rw [htoSink, inputsOf_cons, waiting, hidle] at hall
  obtain rfl := hs.heard.running hout
  unfold StreamBridgeSub.pushInput
  rw [if_neg (by omega)]
  split_ifs with hdem
  · have hbuf := hdrain.resolve_left (Nat.ne_of_gt hdem)
    have hframe : Heard delivered []
        { s.sink with
          inFlightBatches := s.sink.inFlightBatches - 1
          demand := s.sink.demand - 1
          pc := .inPushInput } :=
      { hs.heard with }
    obtain ⟨events, hnext⟩ :=
      onNext_eq
        { s.sink with
          inFlightBatches := s.sink.inFlightBatches - 1
          demand := s.sink.demand - 1
          pc := .inPushInput } input
    refine ⟨delivered ++ [input], hframe.onNext input hout, ?_, ?_⟩
    · simp only [StreamSystem.updateSink, hnext]
      change delivered ++ [input] ++ s.sink.buf ++ inputsOf rest = s.source.sent
      rw [← hall, hbuf]
      simp [ToSink.input]
    · simp only [StreamSystem.updateSink, hnext]
      intro hnone
      cases hout ▸ hnone
  · refine ⟨delivered,
      { hs.heard with }, ?_, ?_⟩
    · simp only [StreamSystem.updateSink, waiting, hidle]
      rw [← hall]
      simp [ToSink.input]
    · intro hnone
      cases hout ▸ hnone

theorem Delivery.sinkReceive (hledger : Ledger cfg s)
    (hidle : s.sink.pc = .idle) (htoSink : s.toSink = msg :: rest)
    (hdrain : s.findsBufferDrained .sinkReceive = true) :
    ∃ delivered' ending', Delivery
      ({ s with toSink := rest }.updateSink (s.sink.handle cfg msg))
      delivered' ending' := by
  simp only [findsBufferDrained, htoSink] at hdrain
  have hall := hs.all
  rw [htoSink, inputsOf_cons] at hall
  cases msg with
  | ack m =>
    simp only [handle]
    split_ifs with hreg
    · exact ⟨delivered, hs.ack htoSink hreg⟩
    · exact ⟨delivered, ending, hs.heard, hall, hs.ended⟩
  | batch input =>
    simp only [handle]
    split_ifs with hreg
    · obtain ⟨delivered', hdelivery⟩ :=
        hs.pushInput hledger hidle htoSink hreg (by simpa using hdrain)
      exact ⟨delivered', [], hdelivery⟩
    · have hinputs := (hledger.gone (Bool.not_eq_true _ ▸ hreg)).1
      rw [htoSink] at hinputs
      cases hinputs
  | close =>
    simp only [handle]
    split_ifs with hreg
    · exact ⟨delivered, hs.drop hledger htoSink rfl hreg .complete
        (.inr ⟨rfl, List.isEmpty_iff.mp hdrain⟩)⟩
    · exact ⟨delivered, ending, hs.heard, hall, hs.ended⟩
  | abort reason =>
    simp only [handle]
    split_ifs with hreg
    · exact ⟨delivered, hs.drop hledger htoSink rfl hreg
        (.error reason) (.inl ⟨reason, rfl⟩)⟩
    · exact ⟨delivered, ending, hs.heard, hall, hs.ended⟩

theorem Delivery.tryPushStream (hledger : Ledger cfg s)
    (hidle : s.sink.pc = .idle) (hpushes : 0 < s.sink.pushes) :
    ∃ delivered' ending', Delivery
      (s.updateSink
        { s.sink with pushes := s.sink.pushes - 1 }.tryPushStream)
      delivered' ending' := by
  have hheard : Heard delivered ending
      { s.sink with pushes := s.sink.pushes - 1 } :=
    { hs.heard with }
  unfold StreamBridgeSub.tryPushStream
  split_ifs with hreg
  · have hinit := hledger.sinkOk.initialized_of_pos
      (Nat.add_pos_right _ hpushes)
    have hout := hs.heard.hasOut hledger.sinkOk hinit hreg
    obtain ⟨delivered', hpush, hwait, hsame⟩ := hheard.push hout
    refine ⟨delivered', [], hs.updateSink hpush ?_ hsame⟩
    rw [hwait, waiting, hidle]
  · exact ⟨delivered, ending, hheard, hs.all, hs.ended⟩

theorem Delivery.unsubscribe (hlast : msg.isLast = true) :
    Delivery (s.unsubscribe msg) delivered ending := by
  refine hs.source [] rfl ?_ ?_ fun hopened _ => ⟨hopened, rfl⟩
  · simp [StreamSystem.unsubscribe, (isLast_kind hlast).1]
  · simp [StreamSystem.unsubscribe]

theorem step_delivery {t : StreamSystem τ} {action : StreamAction τ}
    (hledger : Ledger cfg s) (hdrain : s.findsBufferDrained action = true)
    (hcancel : action ≠ .cancel) (hstep : s.step cfg action = some t) :
    ∃ delivered' ending', Delivery t delivered' ending' := by
  cases action with
  | openStream result =>
    obtain ⟨hopened, ht⟩ := Option.ite_none_left_eq_some.mp hstep
    cases ht
    refine ⟨delivered, ending, hs.source [] ?_ ?_ ?_ ?_⟩
    · cases result <;> rfl
    · cases result <;> simp [openStream, ToSink.input]
    · cases result <;> simp [openStream]
    · exact fun hbefore => absurd hbefore hopened
  | sourceReceive =>
    simp only [step] at hstep
    split at hstep
    · cases hstep
    · rename_i msg rest htoSource
      cases hstep
      have hrest : Delivery { s with toSource := rest } delivered ending :=
        { hs with }
      cases msg with
      | demand known newDemand =>
        refine ⟨delivered, ending, ?_⟩
        simp only [sourceHandle]
        split
        · exact { hs with }
        · exact hrest
      | cancel known =>
        refine ⟨delivered, ending, ?_⟩
        simp only [sourceHandle]
        split
        · exact hrest.unsubscribe rfl
        · exact hrest
  | emit input =>
    obtain ⟨⟨hsub, _⟩, rfl⟩ := of_guard hstep
    refine ⟨delivered, ending, hs.source [input] rfl ?_ rfl ?_⟩
    · simp [ToSink.input]
    · intro _ hnot
      rw [hsub] at hnot
      cases hnot
  | complete | fail reason =>
    obtain ⟨_, rfl⟩ := of_guard hstep
    exact ⟨delivered, ending, hs.unsubscribe rfl⟩
  | sinkReceive =>
    obtain ⟨hidle, ht⟩ := Option.ite_none_right_eq_some.mp hstep
    split at ht
    · cases ht
    · rename_i msg rest htoSink
      cases ht
      exact hs.sinkReceive hledger hidle htoSink hdrain
  | ret =>
    obtain ⟨result, hret, ht⟩ := Option.map_eq_some_iff.mp hstep
    rw [← ht]
    obtain ⟨delivered', hheard, hwait, hout⟩ :=
      hs.heard.ret hledger.sinkOk hret
    exact ⟨delivered', [], hs.updateSink hheard hwait hout⟩
  | request n =>
    cases hstep
    exact ⟨delivered, ending,
      { hs.heard with }, hs.all,
      hs.ended⟩
  | tryPushStream =>
    obtain ⟨⟨hidle, hpushes⟩, rfl⟩ := of_guard hstep
    exact hs.tryPushStream hledger hidle hpushes
  | dropFlowState =>
    obtain ⟨_, rfl⟩ := of_guard hstep
    refine ⟨delivered, ending,
      { hs.heard with }, hs.all, ?_⟩
    intro hout
    rcases hs.ended hout with herror | ⟨hend, _, hrest⟩
    · exact .inl herror
    · exact .inr ⟨hend, rfl, hrest⟩
  | cancel => exact absurd rfl hcancel
  | dispose =>
    cases (step_dispose s cfg).symm.trans hstep
    exact ⟨delivered, ending, hs⟩

end

/-- Unless the observer cancels, it hears a prefix of the batches that the
source sent, in order and each once, and then at most one terminal event.  If
that is `on_complete`, it has heard all of them. -/
theorem stream_batches_delivered {s : StreamSystem τ}
    {actions : List (StreamAction τ)}
    (hrun : exec (step cfg) initial actions = some s)
    (hcancel : .cancel ∉ actions)
    (hdrained : Along (step cfg)
      (fun s action => s.findsBufferDrained action = true) initial actions) :
    ∃ delivered ending, s.sink.events = delivered.map .next ++ ending ∧
      delivered <+: s.source.sent ∧
      (ending = [] ∨ (∃ reason, ending = [.error reason]) ∨
        ending = [.complete] ∧ delivered = s.source.sent) := by
  have hinv : Ledger cfg s ∧ ∃ delivered ending,
      Delivery s delivered ending := by
    refine exec_invariant_along
      (fun s => Ledger cfg s ∧ ∃ delivered ending,
        Delivery s delivered ending)
      (fun u action v hu hguard hstep => ?_)
      ⟨ledger_initial, [], [], ⟨rfl, fun _ => rfl, rfl⟩, rfl, nofun⟩
      (hdrained.and (along_not_cancel hcancel _)) hrun
    obtain ⟨hledger, delivered, ending, hdelivery⟩ := hu
    exact ⟨step_ledger hledger hguard.2 hstep,
      step_delivery hdelivery hledger hguard.1 hguard.2 hstep⟩
  obtain ⟨hledger, delivered, ending, hs⟩ := hinv
  refine ⟨delivered, ending, hs.heard.events, ?_, ?_⟩
  · rw [← hs.all, List.append_assoc]
    exact List.prefix_append _ _
  · by_cases hout : s.sink.hasOut = true
    · exact .inl (hs.heard.running hout)
    · refine .inr ?_
      rcases hs.ended (Bool.not_eq_true _ ▸ hout) with
        herror | ⟨hend, hgone, hbuf, _⟩
      · exact .inl herror
      · have hidle : s.sink.pc = .idle := by
          by_contra hbusy
          rw [(hledger.sinkOk.active hbusy).2] at hgone
          cases hgone
        have hall := hs.all
        rw [(hledger.gone hgone).1, waiting, hidle, hbuf] at hall
        refine .inr ⟨hend, ?_⟩
        simpa using hall

theorem stream_batches_delivered_on_request :
    ∃ s : StreamSystem Nat,
      exec (step smallStream) initial
          [.openStream .subscribed, .sinkReceive, .sourceReceive, .emit 1,
            .emit 2, .complete, .sinkReceive, .request 2, .tryPushStream,
            .ret, .sinkReceive, .ret, .sinkReceive] = some s ∧
        s.sink.events = [.next 1, .next 2, .complete] ∧
        ∃ delivered ending, s.sink.events = delivered.map .next ++ ending ∧
          delivered <+: s.source.sent ∧
          (ending = [] ∨ (∃ reason, ending = [.error reason]) ∨
            ending = [.complete] ∧ delivered = s.source.sent) := by
  refine ⟨?s, ?hrun, ?_, stream_batches_delivered ?hrun (by decide) ?_⟩
  case hrun => rfl
  · rfl
  · decide

/-- The observer has no demand when the batch arrives, and the close message
completes the stream before it has any. -/
theorem stream_close_loses_buffered_batch :
    ∃ s : StreamSystem Nat,
      exec (step smallStream) initial
          [.openStream .subscribed, .sinkReceive, .sourceReceive, .emit 1,
            .complete, .sinkReceive, .sinkReceive] = some s ∧
        s.source.sent = [1] ∧ s.sink.events = [.complete] :=
  ⟨_, rfl, rfl, rfl⟩

end StreamSystem

/-! ## Disposal

`disposed` reads the handle of the source, which the bridge has until the
stream ends.  So `dispose` does nothing. -/

namespace StreamBridgeSub

/-- The handler of the message ends the stream. -/
def endsWith (s : StreamBridgeSub τ) (msg : ToSink τ) : Bool :=
  s.registered &&
    match msg with
    | .close | .abort _ => true
    | .ack maxItemsPerBatch => maxItemsPerBatch == 0
    | .batch _ => s.inFlightBatches == 0

@[simp] theorem onNext_hasSrc (s : StreamBridgeSub τ) (input : τ) :
    (s.onNext input).hasSrc = s.hasSrc := by
  unfold onNext
  split <;> rfl

@[simp] theorem finish_hasSrc (s : StreamBridgeSub τ) (event : StreamEvent τ) :
    (s.finish event).hasSrc = s.hasSrc := by
  unfold finish
  split <;> rfl

variable (s : StreamBridgeSub τ)

@[simp] theorem push_hasSrc : s.push.1.hasSrc = s.hasSrc := by
  rcases s.push_shape with ⟨n, msgs, hpush⟩ | ⟨input, rest, -, hpush⟩
  · rw [hpush]
  · simp [hpush]

theorem ret_hasSrc {result : StreamBridgeSub τ × List ToSource}
    (hret : s.ret = some result) : result.1.hasSrc = s.hasSrc := by
  unfold ret at hret
  split at hret
  · cases hret
  · obtain ⟨n, msgs, hcheck⟩ := doCheckCredit_shape { s with pc := .idle }
    rw [hcheck] at hret
    cases hret
    rfl
  · cases hret
    simp

theorem handle_hasSrc (msg : ToSink τ) :
    (s.handle cfg msg).1.hasSrc = (s.hasSrc && !s.endsWith msg) := by
  cases hreg : s.registered with
  | false => cases msg <;> simp [StreamBridgeSub.handle, endsWith, hreg]
  | true =>
    cases msg with
    | ack m =>
      by_cases hm : m = 0
      · simp [StreamBridgeSub.handle, endsWith, ack, doAbort, hreg, hm]
      · simp [StreamBridgeSub.handle, endsWith, ack, hreg, hm]
    | batch input =>
      simp only [StreamBridgeSub.handle, hreg, if_true, pushInput]
      split_ifs with hzero hpos
      · simp [endsWith, doAbort, hreg, hzero]
      · simp [endsWith, hreg, hzero]
      · simp [endsWith, hreg, hzero]
    | close | abort reason =>
      simp [StreamBridgeSub.handle, endsWith, StreamBridgeSub.drop, hreg]

end StreamBridgeSub

namespace StreamSystem

open StreamBridgeSub

def ends (s : StreamSystem τ) : StreamAction τ → Bool
  | .cancel => true
  | .sinkReceive => s.toSink.head?.any s.sink.endsWith
  | _ => false

theorem hasSrc_step {s t : StreamSystem τ} {action : StreamAction τ}
    (hstep : step cfg s action = some t) :
    t.sink.hasSrc = (s.sink.hasSrc && !s.ends action) := by
  cases action with
  | openStream result =>
    obtain ⟨-, ht⟩ := Option.ite_none_left_eq_some.mp hstep
    cases ht
    cases result <;> simp [StreamSystem.openStream, ends]
  | sourceReceive =>
    simp only [step] at hstep
    split at hstep
    · cases hstep
    · rename_i msg rest hmsgs
      cases hstep
      cases msg <;> simp only [sourceHandle] <;> split <;>
        simp [ends, unsubscribe]
  | emit input | complete | fail reason =>
    obtain ⟨-, rfl⟩ := of_guard hstep
    simp [ends, unsubscribe]
  | sinkReceive =>
    obtain ⟨-, hstep⟩ := Option.ite_none_right_eq_some.mp hstep
    split at hstep
    · cases hstep
    · rename_i msg rest hmsgs
      cases hstep
      simp [ends, hmsgs, updateSink, handle_hasSrc]
  | ret =>
    obtain ⟨result, hret, rfl⟩ := Option.map_eq_some_iff.mp hstep
    simpa [ends, updateSink] using s.sink.ret_hasSrc hret
  | request n =>
    cases hstep
    simp [ends, StreamBridgeSub.request]
  | tryPushStream =>
    obtain ⟨-, rfl⟩ := of_guard hstep
    simp only [updateSink, tryPushStream]
    split <;> simp [ends]
  | dropFlowState =>
    obtain ⟨-, rfl⟩ := of_guard hstep
    simp [ends]
  | cancel =>
    cases hstep
    simp only [updateSink, doDispose]
    split <;> simp_all [ends]
  | dispose =>
    cases (step_dispose s cfg).symm.trans hstep
    simp [ends]

/-- A stream is active until `dispose` or a step that ends it.  What `disposed`
reports fits that only after `dispose`, until a step ends the stream. -/
theorem disposed_right_iff {t : StreamSystem τ}
    {actions : List (StreamAction τ)}
    (hrun : exec (step cfg) initial actions = some t) :
    (t.sink.disposed = false ↔ .dispose ∉ actions ∧
      Along (step cfg) (fun s action => s.ends action = false) initial
        actions) ↔
    .dispose ∈ actions ∧
      Along (step cfg) (fun s action => s.ends action = false) initial
        actions := by
  have hsrc : ∀ s, exec (step cfg) s actions = some t →
      (t.sink.hasSrc = true ↔ s.sink.hasSrc = true ∧
        Along (step cfg) (fun s action => s.ends action = false) s
          actions) := by
    clear hrun
    induction actions with
    | nil =>
      intro s hrun
      cases hrun
      simp [Along]
    | cons action actions ih =>
      intro s hrun
      obtain ⟨u, hstep, hrest⟩ := exec_cons_eq_some.mp hrun
      rw [ih u hrest, hasSrc_step hstep]
      simp [Along, hstep, and_assoc]
  have hactive := hsrc initial hrun
  simp only [initial, true_and] at hactive
  rw [disposed, ← Bool.not_eq_true, hactive]
  tauto

theorem disposed_right_after_dispose :
    ∃ t : StreamSystem Nat,
      exec (step smallStream) initial
          [.openStream .subscribed, .sinkReceive, .dispose] = some t ∧
        t.sink.disposed = true := by
  refine ⟨?t, ?hrun, (Bool.not_eq_false _).mp fun hfalse =>
    (((disposed_right_iff ?hrun).mpr (by decide)).mp hfalse).1 (by decide)⟩
  case hrun => rfl

theorem disposed_inverted :
    (initial : StreamSystem Nat).sink.disposed = true ∧
      ∃ t : StreamSystem Nat,
        exec (step smallStream) initial
            [.openStream .subscribed, .sinkReceive, .cancel] = some t ∧
          t.sink.disposed = false :=
  ⟨rfl, _, rfl, rfl⟩

end StreamSystem

end ActorFramework.Core
