import ActorFramework.Async.SpscBuffer

/-!
# Delivery

Items reach the observer in the order in which they were pushed, and at most
one terminal event follows them.
-/

namespace ActorFramework.Async

open Foundation List SpscEvent

variable {τ ε : Type*}

namespace SpscRun

structure Attached (s : SpscRun τ ε) : Prop where
  consumer : s.buffer.consumer = true → s.consumerResource = false
  pulling : s.pull ≠ .idle → s.consumerResource = false
  unopened : s.producerResource = true →
    s.buffer.producer = false ∧ s.buffer.closed = false ∧ s.buffer.buf = []
  opened : s.producerResource = false →
    s.buffer.producer = true ∨ s.buffer.closed = true
  closed : s.buffer.closed = true → s.buffer.producer = false

theorem attached_initial (capacity minPullSize : Nat) :
    (initial capacity minPullSize : SpscRun τ ε).Attached := by
  constructor <;> simp [initial, SpscBuffer.initial]

theorem Takes.attached {s t : SpscRun τ ε} {a : SpscAction τ ε}
    (h : s.Takes a t) (hs : s.Attached) : t.Attached := by
  cases h with
  | @setConsumer result hres hset =>
    obtain ⟨⟨d, hsame⟩, -⟩ := SpscBuffer.setConsumer_same hset
    simp only [commit, hsame]
    exact { hs with consumer := by simp, pulling := by simp }
  | @setProducer result hres hset =>
    obtain ⟨⟨d, hsame⟩, -⟩ := SpscBuffer.setProducer_same hset
    obtain ⟨hprod, hopen, hempty⟩ := hs.unopened hres
    simp only [commit, hsame]
    exact { hs with
      unopened := by simp, opened := by simp, closed := by simp [hopen] }
  | dropConsumer hres =>
    rcases s.buffer.cancel_cases with ⟨-, hcancel⟩ | ⟨events, hcancel, -⟩
    all_goals
      simp only [commit, hcancel]
      exact { hs with consumer := by simp, pulling := by simp }
  | dropProducer reason hres =>
    obtain ⟨hprod, hopen, hempty⟩ := hs.unopened hres
    rcases s.buffer.abort_cases reason with
      ⟨hclosed, -⟩ | ⟨-, events, habort, -⟩
    · rw [hopen] at hclosed
      contradiction
    · simp only [commit, habort]
      exact { hs with
        unopened := by simp, opened := by simp, closed := by simp }
  | push items hprod hopen =>
    refine { hs with unopened := fun hres => ?_ }
    rw [(hs.unopened hres).1] at hprod
    contradiction
  | abort reason hres =>
    rcases s.buffer.abort_cases reason with
      ⟨-, habort⟩ | ⟨-, events, habort, -⟩
    · simp only [commit, habort]
      exact { hs with }
    · simp only [commit, habort]
      exact { hs with
        unopened := by simp [hres], opened := by simp, closed := by simp }
  | cancel hres =>
    rcases s.buffer.cancel_cases with ⟨-, hcancel⟩ | ⟨events, hcancel, -⟩
    · simp only [commit, hcancel]
      exact { hs with }
    · simp only [commit, hcancel]
      exact { hs with consumer := by simp }
  | prioritized reason hidle hcon herr =>
    exact { hs with consumer := by simp }
  | took policy demand consumed n hpulling hitems hpos hn =>
    have hres : s.consumerResource = false :=
      hpulling.elim hs.consumer hs.pulling
    obtain ⟨d, hsame⟩ := (s.buffer.take_signals n).same
    simp only [commit, hsame]
    refine { hs with pulling := fun _ => hres, unopened := fun hprod => ?_ }
    obtain ⟨h₁, h₂, h₃⟩ := hs.unopened hprod
    exact ⟨h₁, h₂, by simp [h₃]⟩
  | left consumed hpulling hitems hmore =>
    exact { hs with pulling := by simp }
  | finished policy consumed hpulling hitems hempty hclosed =>
    exact { hs with consumer := by simp, pulling := by simp }
  | next policy demand n consumed item items hpull =>
    refine { hs with pulling := fun _ => hs.pulling ?_ }
    simp [hpull]

end SpscRun

def SpscEvent.item? : SpscEvent τ ε → Option τ
  | .onNext item => some item
  | _ => none

def SpscEvent.isObserved : SpscEvent τ ε → Bool
  | .onNext _ | .onComplete _ | .onError .. => true
  | _ => false

def delivered (log : List (SpscEvent τ ε)) : List τ :=
  log.filterMap SpscEvent.item?

def observed (log : List (SpscEvent τ ε)) : List (SpscEvent τ ε) :=
  log.filter SpscEvent.isObserved

@[simp] theorem delivered_append (log events : List (SpscEvent τ ε)) :
    delivered (log ++ events) = delivered log ++ delivered events :=
  filterMap_append

@[simp] theorem observed_append (log events : List (SpscEvent τ ε)) :
    observed (log ++ events) = observed log ++ observed events :=
  filter_append ..

@[simp] theorem delivered_next (item : τ) :
    delivered [(.onNext item : SpscEvent τ ε)] = [item] := rfl

@[simp] theorem observed_next (item : τ) :
    observed [(.onNext item : SpscEvent τ ε)] = [.onNext item] := rfl

@[simp] theorem delivered_last (policy : PullPolicy) (err : Option ε)
    (again : Bool) (consumed : Nat) (drained : Bool) :
    delivered [(terminal policy err : SpscEvent τ ε),
      .pulled again consumed drained] = [] := by
  cases err <;> rfl

@[simp] theorem observed_last (policy : PullPolicy) (err : Option ε)
    (again : Bool) (consumed : Nat) (drained : Bool) :
    observed [(terminal policy err : SpscEvent τ ε),
      .pulled again consumed drained] = [terminal policy err] := by
  cases err <;> rfl

variable {events : List (SpscEvent τ ε)}

section

variable (h : ∀ event ∈ events, event.isObserved = false)
include h

theorem observed_silent : observed events = [] := by
  refine filter_eq_nil_iff.mpr fun event hmem => ?_
  simp [h event hmem]

theorem delivered_silent : delivered events = [] := by
  refine filterMap_eq_nil_iff.mpr fun event hmem => ?_
  have hsilent := h event hmem
  cases event <;> simp_all [isObserved, item?]

end

theorem silent_of_quiet (h : ∀ event ∈ events, event.isQuiet = true) :
    ∀ event ∈ events, event.isObserved = false := by
  intro event hmem
  have hquiet := h event hmem
  cases event <;> simp_all [isQuiet, isObserved]

namespace SpscRun

inductive Shows (s t : SpscRun τ ε) : Prop
  | silent (events new) (hlog : t.log = s.log ++ events)
      (hsilent : ∀ event ∈ events, event.isObserved = false)
      (hpushed : t.pushed = s.pushed ++ new)
      (hitems : t.pull.items ++ t.buffer.buf =
        s.pull.items ++ s.buffer.buf ++ new)
      (hfailed : (s.buffer.err ≠ none → s.buffer.closed = true) →
        t.buffer.err ≠ none → t.buffer.closed = true)
  | next (item) (hlog : t.log = s.log ++ [.onNext item])
      (hpushed : t.pushed = s.pushed)
      (hitems : s.pull.items = item :: t.pull.items)
      (hbuffer : t.buffer = s.buffer)
  | last (policy again consumed drained)
      (hlog : t.log = s.log ++
        [terminal policy s.buffer.err, .pulled again consumed drained])
      (hpushed : t.pushed = s.pushed) (hitems : s.pull.items = [])
      (hbuffer : t.buffer = { s.buffer with consumer := false })
      (hidle : t.pull = .idle) (hresource : t.consumerResource = false)
      (hdone : (s.buffer.buf = [] ∧ s.buffer.closed = true) ∨
        (policy = .prioritizeErrors ∧ s.buffer.err ≠ none))

variable {s t : SpscRun τ ε} {a : SpscAction τ ε}

private theorem shows_of_commit {b : SpscBuffer τ ε}
    (consumer producer : Bool)
    (hsilent : ∀ event ∈ events, event.isObserved = false)
    (hbuf : b.buf = s.buffer.buf)
    (hfailed : (s.buffer.err ≠ none → s.buffer.closed = true) →
      b.err ≠ none → b.closed = true) :
    s.Shows (commit { s with
      consumerResource := consumer, producerResource := producer }
      (b, events)) :=
  .silent events [] rfl hsilent (by simp [commit]) (by simp [commit, hbuf])
    hfailed

private theorem shows_of_abort (reason : Option ε) (resource : Bool) :
    s.Shows ({ s with producerResource := resource }.commit
      (s.buffer.abort reason)) := by
  rcases s.buffer.abort_cases reason with
    ⟨-, habort⟩ | ⟨-, events, habort, hevs⟩
  · rw [habort]
    exact shows_of_commit s.consumerResource resource (by simp) rfl id
  · rw [habort]
    refine shows_of_commit s.consumerResource resource ?_ rfl fun _ _ => rfl
    rcases hevs with ⟨rfl, -⟩ | rfl <;> simp [isObserved]

private theorem shows_of_cancel (resource : Bool) :
    s.Shows ({ s with consumerResource := resource }.commit
      s.buffer.cancel) := by
  rcases s.buffer.cancel_cases with ⟨-, hcancel⟩ | ⟨events, hcancel, hevs⟩
  · rw [hcancel]
    exact shows_of_commit resource s.producerResource (by simp) rfl id
  · rw [hcancel]
    refine shows_of_commit resource s.producerResource ?_ rfl id
    rcases hevs with rfl | rfl <;> simp [isObserved]

theorem Takes.shows (h : s.Takes a t) (hs : s.Attached) : s.Shows t := by
  cases h with
  | @setConsumer result hres hset =>
    obtain ⟨⟨d, hsame⟩, hquiet⟩ := SpscBuffer.setConsumer_same hset
    refine .silent result.2 [] rfl (silent_of_quiet hquiet) ?_ ?_ ?_
    all_goals simp [commit, hsame]
  | @setProducer result hres hset =>
    obtain ⟨⟨d, hsame⟩, hquiet⟩ := SpscBuffer.setProducer_same hset
    refine .silent result.2 [] rfl (silent_of_quiet hquiet) ?_ ?_ ?_
    all_goals simp [commit, hsame]
  | dropConsumer hres => exact shows_of_cancel false
  | cancel hres => exact shows_of_cancel s.consumerResource
  | dropProducer reason hres => exact shows_of_abort reason false
  | abort reason hres => exact shows_of_abort reason s.producerResource
  | push items hprod hopen =>
    refine .silent (s.buffer.push items).1.2 items rfl ?_ rfl ?_ ?_
    · intro event hmem
      simp only [SpscBuffer.push] at hmem
      split at hmem
      · obtain rfl := mem_singleton.mp hmem
        rfl
      · contradiction
    · simp [commit, SpscBuffer.push]
    · exact id
  | prioritized reason hidle hcon herr =>
    refine .last .prioritizeErrors false 0 s.buffer.buf.isEmpty ?_ rfl ?_
      rfl hidle (hs.consumer hcon) (.inr ⟨rfl, by simp [herr]⟩)
    · simp [terminal, herr]
    · simp [hidle]
  | took policy demand consumed n hpulling hempty hpos hn =>
    obtain ⟨d, hsame⟩ := (s.buffer.take_signals n).same
    refine .silent (s.buffer.take n).2 [] rfl
      (silent_of_quiet (s.buffer.take_signals n).quiet) ?_ ?_ ?_
    all_goals simp [commit, hsame, hempty]
  | left consumed hpulling hempty hmore =>
    refine .silent _ [] rfl (by simp [isObserved]) ?_ ?_ ?_
    all_goals simp [hempty]
  | finished policy consumed hpulling hempty hbuf hclosed =>
    exact .last policy false consumed true rfl rfl hempty rfl rfl
      (hpulling.elim hs.consumer hs.pulling) (.inl ⟨hbuf, hclosed⟩)
  | next policy demand n consumed item items hpull =>
    exact .next item rfl rfl (by simp [hpull]) rfl

structure Ended (s : SpscRun τ ε) (event : SpscEvent τ ε) : Prop where
  calls : observed s.log = (delivered s.log).map .onNext ++ [event]
  consumer : s.buffer.consumer = false
  idle : s.pull = .idle
  resource : s.consumerResource = false
  closed : s.buffer.closed = true
  last : ∃ policy, event = terminal policy s.buffer.err ∧
    (s.buffer.buf = [] ∨
      policy = .prioritizeErrors ∧ s.buffer.err ≠ none)

/-- The log, the running pull and the buffer account for every pushed item. -/
structure Delivery (s : SpscRun τ ε) : Prop where
  items : s.pushed = delivered s.log ++ s.pull.items ++ s.buffer.buf
  failed : s.buffer.err ≠ none → s.buffer.closed = true
  calls : observed s.log = (delivered s.log).map .onNext ∨
    ∃ event, s.Ended event

theorem Takes.ended {event : SpscEvent τ ε} (h : s.Takes a t) (hs : s.Attached)
    (hlast : s.Ended event) : t.Ended event := by
  have hcon := hlast.consumer
  have hnotPulling : ¬(s.buffer.consumer = true ∨ s.pull ≠ .idle) := by
    simp [hcon, hlast.idle]
  have hopened : s.producerResource ≠ true := by
    intro hres
    have hopen := (hs.unopened hres).2.1
    rw [hlast.closed] at hopen
    contradiction
  cases h with
  | setConsumer hres _ | dropConsumer hres =>
    rw [hlast.resource] at hres
    contradiction
  | setProducer hres _ | dropProducer _ hres => exact absurd hres hopened
  | push items hprod hopen =>
    rw [hlast.closed] at hopen
    contradiction
  | abort reason hres =>
    rcases s.buffer.abort_cases reason with ⟨-, habort⟩ | ⟨hopen, -⟩
    · rw [habort]
      refine { hlast with calls := ?_, consumer := hcon }
      simpa [commit] using hlast.calls
    · rw [hlast.closed] at hopen
      contradiction
  | cancel hres =>
    rcases s.buffer.cancel_cases with
      ⟨-, hcancel⟩ | ⟨events, hcancel, hevs⟩
    · rw [hcancel]
      refine { hlast with calls := ?_, consumer := hcon }
      simpa [commit] using hlast.calls
    · rw [hcancel]
      refine { hlast with calls := ?_, consumer := rfl }
      have hsilent : ∀ event ∈ events, event.isObserved = false := by
        rcases hevs with rfl | rfl <;> simp [isObserved]
      simpa [commit, observed_silent hsilent, delivered_silent hsilent]
        using hlast.calls
  | prioritized _ _ hset _ =>
    rw [hcon] at hset
    contradiction
  | took _ _ _ _ hpulling | left _ hpulling | finished _ _ hpulling =>
    exact absurd hpulling hnotPulling
  | next policy demand n consumed item items hpull =>
    rw [hlast.idle] at hpull
    contradiction

private theorem Shows.accounts (h : s.Shows t) (hs : s.Delivery) :
    t.pushed = delivered t.log ++ t.pull.items ++ t.buffer.buf ∧
      (t.buffer.err ≠ none → t.buffer.closed = true) := by
  have hold := hs.items
  cases h with
  | silent events new hlog hsilent hpushed hitems hfailed =>
    refine ⟨?_, hfailed hs.failed⟩
    rw [hlog, delivered_append, delivered_silent hsilent, append_nil,
      append_assoc, hitems, hpushed, hold]
    simp
  | next item hlog hpushed hitems hbuf =>
    rw [hbuf, hpushed, hold, hlog, hitems]
    exact ⟨by simp, hs.failed⟩
  | last policy again consumed drained hlog hpushed hitems hbuf hidle =>
    rw [hbuf, hpushed, hold, hlog, hitems, hidle]
    exact ⟨by simp, hs.failed⟩

theorem Takes.delivery (h : s.Takes a t) (hatt : s.Attached)
    (hs : s.Delivery) : t.Delivery := by
  have hshows := h.shows hatt
  obtain ⟨hitems, hfailed⟩ := hshows.accounts hs
  refine ⟨hitems, hfailed, ?_⟩
  rcases hs.calls with hopen | ⟨event, hended⟩
  · cases hshows with
    | silent events new hlog hsilent =>
      left
      rw [hlog, observed_append, delivered_append, observed_silent hsilent,
        delivered_silent hsilent, append_nil, append_nil]
      exact hopen
    | next item hlog =>
      left
      simp [hlog, hopen]
    | last policy again consumed drained hlog hpushed hempty hbuf hidle
        hresource hdone =>
        right
        refine ⟨terminal policy s.buffer.err, ?_, ?_, hidle, hresource, ?_,
          policy, ?_, ?_⟩
        · simp [hlog, hopen]
        · rw [hbuf]
        · rw [hbuf]
          exact hdone.elim (fun h => h.2) fun h => hs.failed h.2
        · rw [hbuf]
        · rw [hbuf]
          exact hdone.imp_left fun h => h.1
  · exact .inr ⟨event, h.ended hatt hended⟩

theorem run_delivery {capacity minPullSize : Nat}
    {actions : List (SpscAction τ ε)}
    (h : exec step (initial capacity minPullSize) actions = some s) :
    s.Delivery := by
  refine (exec_invariant (fun s => s.Attached ∧ s.Delivery) ?_
    ⟨attached_initial _ _, rfl, by simp [initial, SpscBuffer.initial],
      .inl rfl⟩ h).2
  intro s a t hs hstep
  have htakes := step_takes hstep
  exact ⟨htakes.attached hs.1, htakes.delivery hs.1 hs.2⟩

/--
Over every interleaving the observer sees a prefix of the pushed items and at
most one terminal event after them.  The terminal event carries the reason of
the producer; it follows all items unless a pull that prioritizes errors
delivered an error.
-/
theorem spsc_delivery_in_order (capacity minPullSize : Nat)
    {s : SpscRun τ ε} (actions : List (SpscAction τ ε))
    (hrun : exec step (initial capacity minPullSize) actions = some s) :
    s.pushed = delivered s.log ++ s.pull.items ++ s.buffer.buf ∧
    (observed s.log = (delivered s.log).map .onNext ∨
      ∃ policy, observed s.log = (delivered s.log).map .onNext ++
          [terminal policy s.buffer.err] ∧
        (policy = .delayErrors → delivered s.log = s.pushed) ∧
        (delivered s.log ≠ s.pushed →
          policy = .prioritizeErrors ∧ ∃ reason,
            s.buffer.err = some reason)) := by
  have hs := run_delivery hrun
  refine ⟨hs.items, ?_⟩
  rcases hs.calls with hopen | ⟨event, hended⟩
  · exact .inl hopen
  · obtain ⟨policy, rfl, hlast⟩ := hended.last
    have hall : s.buffer.buf = [] → delivered s.log = s.pushed := by
      intro hempty
      simp [hs.items, hended.idle, hempty]
    refine .inr ⟨policy, hended.calls, ?_, ?_⟩
    · rintro rfl
      rcases hlast with hempty | ⟨hpol, -⟩
      · exact hall hempty
      · contradiction
    · intro hskipped
      rcases hlast with hempty | ⟨hpol, herr⟩
      · exact absurd (hall hempty) hskipped
      · exact ⟨hpol, Option.ne_none_iff_exists'.mp herr⟩

def abortedActions : List (SpscAction Nat Nat) :=
  [.setProducer, .push [1, 2, 3], .setConsumer, .pull .delayErrors 1,
    .push [4], .resume, .resume, .abort (some 7), .pull .prioritizeErrors 5]

theorem spsc_delivery_in_order_aborted :
    ∃ s, exec step (initial 8 2) abortedActions = some s ∧
      observed s.log = [.onNext 1, .onError .prioritizeErrors 7] ∧
      s.pushed = delivered s.log ++ s.pull.items ++ s.buffer.buf :=
  ⟨_, rfl, rfl, (spsc_delivery_in_order 8 2 abortedActions rfl).1⟩

end SpscRun

end ActorFramework.Async
