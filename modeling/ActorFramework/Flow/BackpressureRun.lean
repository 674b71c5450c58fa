import ActorFramework.Flow.OnBackpressureBuffer

/-!
# Runs of the backpressure buffer

The buffer and the output of the operator are a bounded queue to which the
source offers its items and from which the observer takes them.  An item that
is passed on directly is offered to an empty queue and taken at once.
-/

namespace ActorFramework.Flow

open Foundation List OnBackpressureBufferSub Observer

variable {τ : Type*}

def BackpressureOverflowStrategy.policy :
    BackpressureOverflowStrategy → OverflowPolicy
  | .dropNewest => .dropNewest
  | .dropOldest => .dropOldest
  | .fail => .refuse

namespace OnBackpressureBufferSub

variable {cfg : BackpressureConfig} {s t : OnBackpressureBufferSub τ}

/-- The queue comes to this content when the items are offered to it in their
order, with some of them taken in between. -/
def Replayed (cfg : BackpressureConfig) (offered buffer delivered : List τ)
    (overflown : Bool) : Prop :=
  ∃ ops : List (QueueOp τ),
    exec (BoundedQueue.step cfg.bufferSize cfg.strategy.policy) {} ops =
        some ⟨buffer, delivered, overflown⟩ ∧
      offers ops = offered

section Replayed

variable {offered buffer delivered : List τ} {overflown : Bool}

theorem Replayed.step (op : QueueOp τ) (q : BoundedQueue τ)
    (h : Replayed cfg offered buffer delivered overflown)
    (hstep : BoundedQueue.step cfg.bufferSize cfg.strategy.policy
      ⟨buffer, delivered, overflown⟩ op = some q) :
    Replayed cfg (offered ++ offers [op]) q.waiting q.taken q.overflown := by
  obtain ⟨ops, hrun, hoffers⟩ := h
  refine ⟨ops ++ [op], exec_append hrun ?_, ?_⟩
  · exact exec_cons_eq_some.mpr ⟨q, hstep, rfl⟩
  · rw [offers_append, hoffers]

variable {item : τ}

theorem Replayed.take {rest : List τ}
    (h : Replayed cfg offered (item :: rest) delivered overflown) :
    Replayed cfg offered rest (delivered ++ [item]) overflown := by
  have htaken := h.step .take ⟨rest, delivered ++ [item], overflown⟩ rfl
  rwa [show offers [(.take : QueueOp τ)] = [] from rfl,
    append_nil] at htaken

section

variable (h : Replayed cfg offered buffer delivered false)
include h

theorem Replayed.offer (hroom : buffer.length < cfg.bufferSize) (item : τ) :
    Replayed cfg (offered ++ [item]) (buffer ++ [item]) delivered false := by
  refine h.step (.offer item) ⟨buffer ++ [item], delivered, false⟩ ?_
  simp [BoundedQueue.step, hroom]

theorem Replayed.overflow (hfull : buffer.length = cfg.bufferSize) (item : τ)
    {q : BoundedQueue τ}
    (hq : BoundedQueue.overflow cfg.strategy.policy ⟨buffer, delivered, false⟩
      item = q) :
    Replayed cfg (offered ++ [item]) q.waiting q.taken q.overflown := by
  refine h.step (.offer item) q ?_
  simp [BoundedQueue.step, hfull, hq]

end

end Replayed

structure Running (sub : Bool) (srcError : Option (Option Nat))
    (source : InnerSource τ) (overflown disposed : Bool) : Prop where
  sub_eq : sub = (source.subscribed && !source.ended)
  reported : srcError.isSome = source.ended
  clean : overflown = false ∧ disposed = false

/-- All but that the end of the source has been passed on if the buffer is
empty, which is open while `on_request` runs. -/
structure Stream (cfg : BackpressureConfig) (s : OnBackpressureBufferSub τ) :
    Prop where
  lawful : s.out.Lawful
  defined : s.undefined = false
  replayed : Replayed cfg s.accepted s.buffer s.out.delivered s.overflown
  room : s.buffer.length ≤ cfg.bufferSize
  kept : s.accepted <+: s.source.items
  whole : s.overflown = false → s.disposed = false → s.accepted = s.source.items
  running : s.out.valid = true → Running s.sub s.srcError s.source s.overflown
    s.disposed
  failed : s.overflown = true →
    s.out.ending = [.error (some backpressureOverflow)]
  ended : s.out.valid = false → s.overflown = false → s.disposed = false →
    s.source.ended = true ∧ s.buffer = [] ∧
      ∃ err, s.srcError = some err ∧ s.out.ending = [.ofErr err]

structure Sound (cfg : BackpressureConfig) (s : OnBackpressureBufferSub τ) :
    Prop where
  stream : Stream cfg s
  waiting : s.out.valid = true → s.srcError.isSome = true → s.buffer ≠ []

theorem sound_initial : Sound cfg ({} : OnBackpressureBufferSub τ) :=
  ⟨⟨lawful_initial, rfl, ⟨[], rfl, rfl⟩, Nat.zero_le _, prefix_rfl,
    fun _ _ => rfl, fun _ => ⟨rfl, rfl, rfl, rfl⟩, nofun, nofun⟩, nofun⟩

theorem Stream.sound_of_stopped (h : Stream cfg s)
    (hvalid : s.out.valid = false) : Sound cfg s := by
  refine ⟨h, fun hruns => ?_⟩
  cases hvalid ▸ hruns

theorem Sound.setSource (h : Sound cfg s) (hvalid : s.out.valid = false)
    {source : InnerSource τ} (hopen : s.source.ended = false)
    (hgrow : s.source.items <+: source.items) :
    Sound cfg { s with source := source } := by
  have hstream := h.stream
  have hcut : s.overflown = false → s.disposed = false → False := by
    intro hroom hkept
    cases hopen ▸ (hstream.ended hvalid hroom hkept).1
  refine Stream.sound_of_stopped { hstream with
    kept := hstream.kept.trans hgrow
    whole := fun hroom hkept => (hcut hroom hkept).elim
    running := fun hruns => ?_
    ended := fun _ hroom hkept => (hcut hroom hkept).elim } hvalid
  cases hvalid ▸ hruns

theorem Stream.requestSub (h : Stream cfg s) (hsub : s.sub = true) (n : Nat) :
    Stream cfg (s.requestSub n) := by
  refine { h with
    defined := ?_
    running := fun hvalid => { h.running hvalid with } }
  simp [OnBackpressureBufferSub.requestSub, h.defined, hsub]

theorem Stream.forward {rest : List τ} (h : Stream cfg s)
    (hvalid : s.out.valid = true) (hbuf : s.buffer = item :: rest) :
    Stream cfg ({ s with buffer := rest }.forward item) := by
  have hrepl := h.replayed
  have hroom := h.room
  rw [hbuf] at hrepl hroom
  have hnext : Stream cfg { s with
      buffer := rest
      demand := s.demand - 1
      out := s.out.onNext item } := by
    refine ⟨h.lawful.onNext item hvalid, h.defined, ?_,
      Nat.le_of_succ_le hroom, h.kept, h.whole, h.running,
      by simp [(h.running hvalid).clean.1], by simp [hvalid]⟩
    · rw [onNext_delivered]
      exact hrepl.take
  unfold OnBackpressureBufferSub.forward
  split_ifs with hsub
  · exact hnext.requestSub hsub 1
  · exact hnext

theorem forward_frame (s : OnBackpressureBufferSub τ) (item : τ) :
    (s.forward item).out.valid = s.out.valid ∧
      (s.forward item).demand = s.demand - 1 ∧
      (s.forward item).buffer = s.buffer ∧
      (s.forward item).srcError = s.srcError := by
  unfold forward
  split <;> exact ⟨rfl, rfl, rfl, rfl⟩

theorem Stream.drain (h : Stream cfg s) (fuel : Nat) :
    Stream cfg (drain fuel s) := by
  induction fuel generalizing s with
  | zero => exact h
  | succ fuel ih =>
    unfold drain
    split
    · exact h
    · rename_i item rest hbuf
      split_ifs with hguard
      · rw [Bool.and_eq_true] at hguard
        exact ih (h.forward hguard.1 hbuf)
      · exact h

theorem drain_result (fuel : Nat) (hdem : s.demand = fuel) :
    (drain fuel s).out.valid = s.out.valid ∧
      (drain fuel s).srcError = s.srcError ∧
      (s.out.valid = true → (drain fuel s).buffer = s.buffer.drop fuel) := by
  induction fuel generalizing s with
  | zero => simp [drain]
  | succ fuel ih =>
    unfold drain
    split
    · rename_i hbuf
      simp [hbuf]
    · rename_i item rest hbuf
      split_ifs with hguard
      · obtain ⟨hvalid, hless, hkept, herr⟩ :=
          forward_frame { s with buffer := rest } item
        have hnext := ih (by rw [hless]; simp [hdem])
        rw [hvalid, herr, hkept] at hnext
        simpa [hbuf] using hnext
      · refine ⟨rfl, rfl, fun hvalid => ?_⟩
        simp [hvalid, hdem] at hguard

theorem Stream.finish (h : Stream cfg s) (hvalid : s.out.valid = true)
    {err : Option Nat} (hended : s.source.ended = true)
    (herror : s.srcError = some err) (hbuf : s.buffer = []) :
    Sound cfg { s with out := s.out.finish (.ofErr err) } := by
  have hterm := FlowEvent.isTerminal_ofErr (τ := τ) err
  refine Stream.sound_of_stopped ⟨h.lawful.finish hterm hvalid, h.defined,
    ?_, h.room, h.kept, h.whole, nofun,
    by simp [(h.running hvalid).clean.1], fun _ _ _ => ?_⟩ rfl
  · rw [finish_delivered s.out hterm]
    exact h.replayed
  · exact ⟨hended, hbuf, err, herror,
      h.lawful.ending_finish hterm hvalid⟩

section

variable (h : Sound cfg s)
include h

theorem Sound.onRequest
    (hcovered : s.srcError = none ∨ s.buffer.length ≤ s.demand) :
    Sound cfg s.onRequest := by
  have hstream := h.stream.drain s.demand
  obtain ⟨hvalidEq, herrorEq, hbufferEq⟩ := drain_result s.demand rfl
  unfold OnBackpressureBufferSub.onRequest reportEnd
  split
  · rename_i hnone
    refine ⟨hstream, fun _ hsome => ?_⟩
    rw [hnone] at hsome
    cases hsome
  · rename_i err herror
    split
    · rename_i hvalid
      rw [herrorEq] at herror
      rw [hvalidEq] at hvalid
      have hfew := hcovered.resolve_left (by simp [herror])
      have hended := (hstream.running (hvalidEq.trans hvalid)).reported
      rw [herrorEq, herror] at hended
      refine hstream.finish (hvalidEq.trans hvalid) hended.symm
        (herrorEq.trans herror) ?_
      rw [hbufferEq hvalid, drop_eq_nil_iff]
      exact hfew
    · rename_i hinv
      exact hstream.sound_of_stopped (Bool.eq_false_iff.mpr hinv)

theorem Sound.onEnd (hopen : s.source.ended = false) (err : Option Nat) :
    Sound cfg ({ s with source := { s.source with
      ended := true } }.onEnd err) := by
  have hstream := h.stream
  cases hvalid : s.out.valid with
  | false =>
    have hidle : { s with source := { s.source with
        ended := true } }.onEnd err =
        { s with source := { s.source with ended := true } } := by
      simp [OnBackpressureBufferSub.onEnd, hvalid]
    rw [hidle]
    exact h.setSource hvalid hopen prefix_rfl
  | true =>
    have hruns := hstream.running hvalid
    have herror : s.srcError.isSome = false := hruns.reported.trans hopen
    have hnext : Stream cfg { s with
        source := { s.source with ended := true }
        srcError := some err
        sub := false } := by
      refine { hstream with
        running := fun _ => ⟨by simp, rfl, hruns.clean⟩
        ended := fun hinv => ?_ }
      cases hvalid ▸ hinv
    unfold OnBackpressureBufferSub.onEnd
    rw [if_neg (by simp [hvalid, herror])]
    split
    · rename_i hempty
      exact hnext.finish hvalid rfl rfl (List.isEmpty_iff.mp hempty)
    · rename_i hfull
      exact ⟨hnext, fun _ _ hnil => hfull (List.isEmpty_iff.mpr hnil)⟩

theorem Sound.onSubscribe (hstep : step cfg s .onSubscribe = some t) :
    Sound cfg t := by
  obtain ⟨hguard, ⟨⟩⟩ := Option.ite_none_left_eq_some.mp hstep
  simp only [Bool.or_eq_true, not_or, Bool.not_eq_true] at hguard
  obtain ⟨hnew, hopen⟩ := hguard
  have hstream := h.stream
  unfold onSubscribe
  split_ifs with hsub
  · refine ⟨{ hstream with running := fun hvalid => ?_ }, h.waiting⟩
    have hunset := (hstream.running hvalid).sub_eq
    rw [hnew, Bool.false_and] at hunset
    cases hunset ▸ hsub
  · refine ⟨{ hstream with defined := ?_, running := fun hvalid => ?_ },
      h.waiting⟩
    · simp [requestSub, hstream.defined]
    · refine { hstream.running hvalid with sub_eq := ?_ }
      simp [requestSub, hopen]

theorem Sound.dispose {fromExternal : Bool}
    (hstep : step cfg s (.dispose fromExternal) = some t) : Sound cfg t := by
  cases hstep
  have hstream := h.stream
  cases hvalid : s.out.valid with
  | false => simpa [doDispose, hvalid] using h
  | true =>
    have hclean := (hstream.running hvalid).clean.1
    have hfailed : s.overflown = true → ∀ P : Prop, P := by
      intro hoverflown
      cases hclean ▸ hoverflown
    unfold doDispose
    rw [if_neg (by simp [hvalid])]
    cases fromExternal with
    | false =>
      exact Stream.sound_of_stopped { hstream with
        lawful := hstream.lawful.release
        whole := by simp
        running := nofun
        failed := fun hoverflown => hfailed hoverflown _
        ended := by simp } rfl
    | true =>
      have hdeliv : (s.out.finish .disposed).delivered = s.out.delivered :=
        finish_delivered s.out rfl
      refine Stream.sound_of_stopped { hstream with
        lawful := hstream.lawful.finish rfl hvalid
        replayed := ?_
        whole := by simp
        running := nofun
        failed := fun hoverflown => hfailed hoverflown _
        ended := by simp } rfl
      rw [if_pos rfl, hdeliv]
      exact hstream.replayed

theorem Sound.requestSub (hsub : s.sub = true) (n : Nat) :
    Sound cfg (s.requestSub n) :=
  ⟨h.stream.requestSub hsub n, h.waiting⟩

theorem Sound.accept (hvalid : s.out.valid = true)
    (hopen : s.source.ended = false) (item : τ) {buffer : List τ}
    {out : Observer τ} (demand : Nat) (hlawful : out.Lawful)
    (hout : out.valid = true)
    (hrepl : Replayed cfg (s.accepted ++ [item]) buffer out.delivered
      s.overflown) (hroom : buffer.length ≤ cfg.bufferSize) :
    Sound cfg { s with
      source := { s.source with items := s.source.items ++ [item] }
      accepted := s.accepted ++ [item]
      buffer := buffer
      out := out
      demand := demand } := by
  have hstream := h.stream
  have hruns := hstream.running hvalid
  have hwhole := hstream.whole hruns.clean.1 hruns.clean.2
  refine ⟨⟨hlawful, hstream.defined, hrepl, hroom, ?_, fun _ _ => ?_,
    fun _ => ?_, by simp [hruns.clean.1], by simp [hout]⟩,
    by simp [(hruns.reported.trans hopen)]⟩
  · simp [hwhole]
  · simp [hwhole]
  · exact { hruns with }

theorem Sound.overflow (hsize : 0 < cfg.bufferSize)
    (hvalid : s.out.valid = true) (hsub : s.sub = true)
    (hopen : s.source.ended = false) (item : τ)
    (hfull : s.buffer.length = cfg.bufferSize) :
    Sound cfg ({ s with
      source := { s.source with items := s.source.items ++ [item] }
      accepted := s.accepted ++ [item] }.overflow cfg item) := by
  have hstream := h.stream
  have hruns := hstream.running hvalid
  have hroom := hstream.room
  have hwhole := hstream.whole hruns.clean.1 hruns.clean.2
  have hrepl := hstream.replayed
  rw [hruns.clean.1] at hrepl
  have hlost := hrepl.overflow hfull item rfl
  unfold OnBackpressureBufferSub.overflow
  cases hstrategy : cfg.strategy with
  | dropNewest =>
    rw [hstrategy] at hlost
    refine (h.accept hvalid hopen item s.demand hstream.lawful hvalid ?_
      hroom).requestSub hsub 1
    rw [hruns.clean.1]
    exact hlost
  | dropOldest =>
    rw [hstrategy] at hlost
    refine (h.accept hvalid hopen item s.demand hstream.lawful hvalid ?_
      ?_).requestSub hsub 1
    · rw [hruns.clean.1]
      exact hlost
    · change (s.buffer.tail ++ [item]).length ≤ cfg.bufferSize
      rw [length_append, length_tail, length_singleton]
      omega
  | fail =>
    rw [hstrategy] at hlost
    have hdeliv : (s.out.finish
        (.error (some backpressureOverflow))).delivered =
        s.out.delivered :=
      finish_delivered s.out rfl
    refine Stream.sound_of_stopped ⟨hstream.lawful.finish rfl hvalid,
      hstream.defined, ?_, Nat.zero_le _, ?_, nofun, nofun, fun _ => ?_,
      nofun⟩ rfl
    · rw [hdeliv]
      exact hlost
    · simp [hwhole]
    · exact hstream.lawful.ending_finish rfl hvalid

theorem Sound.onNext (hsize : 0 < cfg.bufferSize)
    (hstep : step cfg s (.onNext item) = some t) : Sound cfg t := by
  obtain ⟨hguard, rfl⟩ := of_guard hstep
  simp only [Bool.and_eq_true, Bool.not_eq_true'] at hguard
  obtain ⟨⟨hsubscribed, hopen⟩, -⟩ := hguard
  have hstream := h.stream
  cases hvalid : s.out.valid with
  | false =>
    have hidle : { s with source := { s.source with
        items := s.source.items ++ [item] } }.onNext cfg item =
        { s with source := { s.source with
          items := s.source.items ++ [item] } } := by
      simp [onNext, hvalid]
    rw [hidle]
    exact h.setSource hvalid hopen (prefix_append _ _)
  | true =>
    have hruns := hstream.running hvalid
    have hroom := hstream.room
    have hrepl := hstream.replayed
    rw [hruns.clean.1] at hrepl
    have hsub : s.sub = true := by
      rw [hruns.sub_eq, hsubscribed, hopen]
      rfl
    unfold onNext
    rw [if_neg (by simp [hvalid])]
    split
    · rename_i hdirect
      simp only [Bool.and_eq_true, List.isEmpty_iff] at hdirect
      rw [hdirect.2] at hrepl
      unfold forward
      rw [if_pos hsub]
      refine (h.accept hvalid hopen item (s.demand - 1)
        (hstream.lawful.onNext item hvalid) hvalid ?_ hroom).requestSub hsub 1
      rw [hdirect.2, hruns.clean.1, onNext_delivered]
      exact (hrepl.offer hsize item).take
    · split
      · rename_i hfull
        exact h.overflow hsize hvalid hsub hopen item hfull
      · rename_i hfree
        have hless := Nat.lt_of_le_of_ne hroom hfree
        refine (h.accept hvalid hopen item s.demand hstream.lawful hvalid
          ?_ ?_).requestSub hsub 1
        · rw [hruns.clean.1]
          exact hrepl.offer hless item
        · simp only [length_append, length_singleton]
          omega

end

/-- An action that runs after the source has ended finds enough demand for all
that is in the buffer. -/
def Covered (s : OnBackpressureBufferSub τ) : BackpressureAction τ → Prop
  | .onRequest => s.srcError = none ∨ s.buffer.length ≤ s.demand
  | _ => True

theorem step_sound (hsize : 0 < cfg.bufferSize) (h : Sound cfg s)
    {a : BackpressureAction τ} (hcovered : s.Covered a)
    (hstep : step cfg s a = some t) : Sound cfg t := by
  cases a with
  | onSubscribe => exact h.onSubscribe hstep
  | onNext item => exact h.onNext hsize hstep
  | onComplete =>
    obtain ⟨hguard, rfl⟩ := of_guard hstep
    simp only [Bool.and_eq_true, Bool.not_eq_true'] at hguard
    exact h.onEnd hguard.2 none
  | onError what =>
    obtain ⟨hguard, rfl⟩ := of_guard hstep
    simp only [Bool.and_eq_true, Bool.not_eq_true'] at hguard
    exact h.onEnd hguard.2 (some what)
  | request newDemand =>
    cases hstep
    unfold request
    split
    · exact h
    · exact ⟨{ h.stream with }, h.waiting⟩
  | onRequest =>
    obtain ⟨-, rfl⟩ := of_guard hstep
    have hnext : Sound cfg { s with scheduled := s.scheduled - 1 } :=
      ⟨{ h.stream with }, h.waiting⟩
    exact hnext.onRequest hcovered
  | dispose fromExternal => exact h.dispose hstep

theorem exec_sound (hsize : 0 < cfg.bufferSize)
    {actions : List (BackpressureAction τ)}
    (hcovered : Along (step cfg) Covered {} actions)
    (hrun : exec (step cfg) {} actions = some s) : Sound cfg s :=
  exec_invariant_along (Sound cfg)
    (fun _ _ _ h hguard hstep => step_sound hsize h hguard hstep)
    sound_initial hcovered hrun

structure Credited (cfg : BackpressureConfig) (source : InnerSource τ) :
    Prop where
  bound : source.requested ≤ source.items.length + cfg.bufferSize
  idle : source.subscribed = false → source.requested = 0

/-- The action passes on no buffered item while the subscription is set: the
source has got credit for it when it went into the buffer. -/
def CreditsOnce (s : OnBackpressureBufferSub τ) : BackpressureAction τ → Prop
  | .onRequest =>
    s.sub = false ∨ s.out.valid = false ∨ s.demand = 0 ∨ s.buffer = []
  | _ => True

theorem drain_source (fuel : Nat) (h : s.CreditsOnce .onRequest) :
    (drain fuel s).source = s.source := by
  induction fuel generalizing s with
  | zero => rfl
  | succ fuel ih =>
    unfold drain
    split
    · rfl
    · rename_i item rest hbuf
      split_ifs with hguard
      · rw [Bool.and_eq_true, decide_eq_true_iff] at hguard
        have hsub : s.sub = false := by
          simpa [CreditsOnce, hguard.1, hbuf, Nat.ne_of_gt hguard.2]
            using h
        simp only [forward, hsub, Bool.false_eq_true, if_false]
        exact ih (.inl rfl)
      · rfl

theorem onNext_source (s : OnBackpressureBufferSub τ) (item : τ) :
    ∃ n ≤ 1, (s.onNext cfg item).source =
      { s.source with requested := s.source.requested + n } := by
  unfold onNext forward overflow
  split_ifs
  · exact ⟨0, Nat.zero_le 1, rfl⟩
  · exact ⟨1, Nat.le_refl 1, rfl⟩
  · exact ⟨0, Nat.zero_le 1, rfl⟩
  · cases cfg.strategy with
    | dropNewest | dropOldest => exact ⟨1, Nat.le_refl 1, rfl⟩
    | fail => exact ⟨0, Nat.zero_le 1, rfl⟩
  · exact ⟨1, Nat.le_refl 1, rfl⟩

theorem step_credited (h : Credited cfg s.source)
    {a : BackpressureAction τ} (honce : s.CreditsOnce a)
    (hstep : step cfg s a = some t) : Credited cfg t.source := by
  obtain ⟨hbound, hidle⟩ := h
  cases a with
  | onSubscribe =>
    obtain ⟨hguard, ⟨⟩⟩ := Option.ite_none_left_eq_some.mp hstep
    have hzero : s.source.requested = 0 := by simp_all
    unfold onSubscribe
    split
    · exact ⟨hbound, nofun⟩
    · exact ⟨by simp [requestSub, hzero], nofun⟩
  | onNext item =>
    obtain ⟨hguard, rfl⟩ := of_guard hstep
    obtain ⟨n, hn, hsource⟩ := @onNext_source _ cfg { s with
      source := { s.source with items := s.source.items ++ [item] } } item
    rw [hsource]
    constructor
    · simp only [length_append, length_singleton]
      omega
    · simp_all
  | onComplete | onError what =>
    obtain ⟨-, rfl⟩ := of_guard hstep
    simp only [onComplete, onError, onEnd]
    split_ifs <;> exact ⟨hbound, hidle⟩
  | request newDemand =>
    cases hstep
    unfold request
    split <;> exact ⟨hbound, hidle⟩
  | onRequest =>
    obtain ⟨-, rfl⟩ := of_guard hstep
    have hkept := drain_source s.demand
      (s := { s with scheduled := s.scheduled - 1 }) honce
    unfold onRequest reportEnd
    split
    · rw [hkept]
      exact ⟨hbound, hidle⟩
    · split <;> simp only [hkept] <;> exact ⟨hbound, hidle⟩
  | dispose fromExternal =>
    cases hstep
    unfold doDispose
    split <;> exact ⟨hbound, hidle⟩

/-- At most `buffer_size` items are requested and not received. -/
theorem backpressure_credit_bounded {actions : List (BackpressureAction τ)}
    (honce : Along (step cfg) CreditsOnce {} actions)
    (hrun : exec (step cfg) {} actions = some s) :
    s.source.requested ≤ s.source.items.length + cfg.bufferSize :=
  have hcredited := exec_invariant_along (fun s => Credited cfg s.source)
    (fun _ _ _ h hguard hstep => step_credited h hguard hstep)
    ⟨Nat.zero_le _, fun _ => rfl⟩ honce hrun
  hcredited.bound

theorem backpressure_credit_bounded_direct :
    ∃ s, exec (step ⟨2, .dropOldest⟩) {}
        [.onSubscribe, .request 1, .onNext 1, .onNext 2] = some s ∧
      s.source.requested ≤ s.source.items.length + 2 := by
  refine ⟨?s, ?hrun, backpressure_credit_bounded ?_ ?hrun⟩
  case hrun => rfl
  · exact ⟨trivial, trivial, trivial, trivial, trivial⟩

theorem backpressure_credits_twice :
    (exec (step ⟨2, .dropOldest⟩) {}
      [.onSubscribe, .onNext 1, .onNext 2, .request 2, .onRequest]).map
        (fun s => (s.source.requested, s.source.items)) =
      some (6, [1, 2]) := by
  decide +kernel

end OnBackpressureBufferSub

end ActorFramework.Flow
