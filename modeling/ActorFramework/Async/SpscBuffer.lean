import ActorFramework.Foundation.Transition

/-!
# The single-producer single-consumer buffer

Every member function of `spsc_buffer` but `pull` holds the mutex, so it is one
step.  `pull` takes a batch, releases the lock, hands the batch to the observer
item by item and locks again, so the producer can run in between.  `Pull` is
the program counter of a pull that has released the lock.

A resource grants its side of the buffer to the first caller that opens it:
each side attaches at most once, and one that was not opened ends in `cancel`
or `abort`.
-/

namespace ActorFramework.Async

open Foundation

variable {τ ε : Type*}

inductive PullPolicy where
  | prioritizeErrors
  | delayErrors

/-- Calls to the observer, the consumer and the producer, and returned pulls.
The last flag of `pulled` is whether the pull left the buffer empty. -/
inductive SpscEvent (τ ε : Type*) where
  | onNext (item : τ)
  | onComplete (policy : PullPolicy)
  | onError (policy : PullPolicy) (reason : ε)
  | onProducerReady
  | onProducerWakeup
  | onConsumerReady
  | onConsumerDemand (n : Nat)
  | onConsumerCancel
  | pulled (again : Bool) (consumed : Nat) (drained : Bool)

structure SpscBuffer (τ ε : Type*) where
  capacity : Nat
  minPullSize : Nat
  buf : List τ
  demand : Nat
  closed : Bool
  canceled : Bool
  err : Option ε
  consumer : Bool
  producer : Bool

inductive Pull (τ : Type*) where
  | idle
  | delivering (policy : PullPolicy) (demand n consumed : Nat) (items : List τ)

def Pull.items : Pull τ → List τ
  | .idle => []
  | .delivering _ _ _ _ items => items

@[simp] theorem Pull.items_idle : (idle : Pull τ).items = [] := rfl

@[simp] theorem Pull.items_delivering (policy : PullPolicy)
    (demand n consumed : Nat) (items : List τ) :
    (delivering policy demand n consumed items).items = items := rfl

namespace SpscBuffer

def initial (capacity minPullSize : Nat) : SpscBuffer τ ε :=
  ⟨capacity, minPullSize, [], 0, false, false, none, false, false⟩

variable (b : SpscBuffer τ ε)

def signalDemand (newDemand : Nat) :
    SpscBuffer τ ε × List (SpscEvent τ ε) :=
  let demand := b.demand + newDemand
  if b.minPullSize ≤ demand ∧ b.producer = true then
    ({ b with demand := 0 }, [.onConsumerDemand demand])
  else ({ b with demand }, [])

def ready : SpscBuffer τ ε × List (SpscEvent τ ε) :=
  if b.buf ≠ [] then
    if b.buf.length < b.capacity then
      let (b', events) := b.signalDemand (b.capacity - b.buf.length)
      (b', [.onConsumerReady, .onProducerReady, .onProducerWakeup] ++ events)
    else (b, [.onConsumerReady, .onProducerReady, .onProducerWakeup])
  else
    let (b', events) := b.signalDemand b.capacity
    (b', [.onConsumerReady, .onProducerReady] ++ events)

def push (items : List τ) :
    (SpscBuffer τ ε × List (SpscEvent τ ε)) × Nat :=
  let buf := b.buf ++ items
  (({ b with buf },
    if buf.length = items.length ∧ b.consumer = true then [.onProducerWakeup]
    else []), b.capacity - buf.length)

/-- `close` is `abort none`. -/
def abort (reason : Option ε) :
    SpscBuffer τ ε × List (SpscEvent τ ε) :=
  if b.closed then (b, [])
  else
    ({ b with closed := true, err := reason, producer := false },
      if b.buf = [] ∧ b.consumer = true then [.onProducerWakeup] else [])

def cancel : SpscBuffer τ ε × List (SpscEvent τ ε) :=
  if b.canceled then (b, [])
  else
    ({ b with canceled := true, consumer := false },
      if b.producer then [.onConsumerCancel] else [])

def setConsumer :
    Option (SpscBuffer τ ε × List (SpscEvent τ ε)) :=
  if b.consumer then none
  else
    let b := { b with consumer := true }
    if b.producer then some b.ready
    else if b.closed then some (b, [.onProducerWakeup])
    else some (b, [])

def setProducer :
    Option (SpscBuffer τ ε × List (SpscEvent τ ε)) :=
  if b.producer then none
  else
    let b := { b with producer := true }
    if b.consumer then some b.ready
    else if b.canceled then some (b, [.onConsumerCancel])
    else some (b, [])

def take (n : Nat) :
    SpscBuffer τ ε × List (SpscEvent τ ε) :=
  let overflow := b.buf.length - b.capacity
  let b := { b with buf := b.buf.drop n }
  if overflow < n then b.signalDemand (n - overflow) else (b, [])

end SpscBuffer

def terminal (policy : PullPolicy) : Option ε → SpscEvent τ ε
  | none => .onComplete policy
  | some reason => .onError policy reason

inductive SpscAction (τ ε : Type*) where
  | setConsumer
  | setProducer
  | dropConsumer
  | dropProducer (reason : Option ε)
  | push (items : List τ)
  | abort (reason : Option ε)
  | cancel
  | pull (policy : PullPolicy) (demand : Nat)
  | resume

def granted : List (SpscEvent τ ε) → Nat
  | [] => 0
  | .onConsumerDemand n :: events => n + granted events
  | _ :: events => granted events

structure SpscRun (τ ε : Type*) where
  buffer : SpscBuffer τ ε
  pull : Pull τ
  consumerResource : Bool
  producerResource : Bool
  pushed : List τ
  credit : Nat
  log : List (SpscEvent τ ε)

namespace SpscRun

def initial (capacity minPullSize : Nat) : SpscRun τ ε :=
  ⟨.initial capacity minPullSize, .idle, true, true, [], 0, []⟩

variable (s : SpscRun τ ε)

def commit (result : SpscBuffer τ ε × List (SpscEvent τ ε)) : SpscRun τ ε :=
  { s with
    buffer := result.1
    credit := s.credit + granted result.2
    log := s.log ++ result.2 }

/-- The loop of `pull_unsafe`, entered with the lock held. -/
def pullLoop (policy : PullPolicy) (demand consumed : Nat) : SpscRun τ ε :=
  let n := min demand s.buffer.buf.length
  if 0 < n then
    { s.commit (s.buffer.take n) with
      pull := .delivering policy demand n consumed (s.buffer.buf.take n) }
  else if s.buffer.buf ≠ [] ∨ s.buffer.closed = false then
    { s with
      pull := .idle
      log := s.log ++ [.pulled true consumed s.buffer.buf.isEmpty] }
  else
    { s with
      buffer := { s.buffer with consumer := false }
      pull := .idle
      log := s.log ++
        [terminal policy s.buffer.err, .pulled false consumed true] }

def pullStart (policy : PullPolicy) (demand : Nat) :
    SpscRun τ ε :=
  match policy, s.buffer.err with
  | .prioritizeErrors, some reason =>
    { s with
      buffer := { s.buffer with consumer := false }
      log := s.log ++ [.onError .prioritizeErrors reason,
        .pulled false 0 s.buffer.buf.isEmpty] }
  | _, _ => s.pullLoop policy demand 0

def step : SpscAction τ ε → Option (SpscRun τ ε)
  | .setConsumer =>
    if s.consumerResource then
      s.buffer.setConsumer.map { s with consumerResource := false }.commit
    else none
  | .setProducer =>
    if s.producerResource then
      s.buffer.setProducer.map { s with producerResource := false }.commit
    else none
  | .dropConsumer =>
    if s.consumerResource then
      some ({ s with consumerResource := false }.commit s.buffer.cancel)
    else none
  | .dropProducer reason =>
    if s.producerResource then
      some ({ s with producerResource := false }.commit (s.buffer.abort reason))
    else none
  | .push items =>
    if s.buffer.producer = true ∧ s.buffer.closed = false then
      some (commit
        { s with
          pushed := s.pushed ++ items, credit := s.credit - items.length }
        (s.buffer.push items).1)
    else none
  | .abort reason =>
    if s.producerResource then none
    else some (s.commit (s.buffer.abort reason))
  | .cancel =>
    if s.consumerResource then none else some (s.commit s.buffer.cancel)
  | .pull policy demand =>
    match s.pull with
    | .idle =>
      if s.buffer.consumer then some (s.pullStart policy demand) else none
    | .delivering .. => none
  | .resume =>
    match s.pull with
    | .idle => none
    | .delivering policy demand n consumed (item :: items) =>
      some { s with
        pull := .delivering policy demand n consumed items
        log := s.log ++ [.onNext item] }
    | .delivering policy demand n consumed [] =>
      some (s.pullLoop policy (demand - n) (consumed + n))

inductive Takes (s : SpscRun τ ε) : SpscAction τ ε → SpscRun τ ε → Prop
  | setConsumer {result} (hres : s.consumerResource = true)
      (hset : s.buffer.setConsumer = some result) :
      Takes s .setConsumer ({ s with consumerResource := false }.commit result)
  | setProducer {result} (hres : s.producerResource = true)
      (hset : s.buffer.setProducer = some result) :
      Takes s .setProducer ({ s with producerResource := false }.commit result)
  | dropConsumer (hres : s.consumerResource = true) :
      Takes s .dropConsumer
        ({ s with consumerResource := false }.commit s.buffer.cancel)
  | dropProducer (reason) (hres : s.producerResource = true) :
      Takes s (.dropProducer reason)
        ({ s with producerResource := false }.commit (s.buffer.abort reason))
  | push (items) (hproducer : s.buffer.producer = true)
      (hopen : s.buffer.closed = false) :
      Takes s (.push items) (commit
        { s with
          pushed := s.pushed ++ items, credit := s.credit - items.length }
        (s.buffer.push items).1)
  | abort (reason) (hres : s.producerResource = false) :
      Takes s (.abort reason) (s.commit (s.buffer.abort reason))
  | cancel (hres : s.consumerResource = false) :
      Takes s .cancel (s.commit s.buffer.cancel)
  | prioritized {demand} (reason) (hidle : s.pull = .idle)
      (hconsumer : s.buffer.consumer = true)
      (herr : s.buffer.err = some reason) :
      Takes s (.pull .prioritizeErrors demand) { s with
        buffer := { s.buffer with consumer := false }
        log := s.log ++ [.onError .prioritizeErrors reason,
          .pulled false 0 s.buffer.buf.isEmpty] }
  | took {a} (policy demand consumed n)
      (hpulling : s.buffer.consumer = true ∨ s.pull ≠ .idle)
      (hitems : s.pull.items = []) (hpos : 0 < n)
      (hn : n ≤ s.buffer.buf.length) :
      Takes s a { s.commit (s.buffer.take n) with
        pull := .delivering policy demand n consumed (s.buffer.buf.take n) }
  | left {a} (consumed)
      (hpulling : s.buffer.consumer = true ∨ s.pull ≠ .idle)
      (hitems : s.pull.items = [])
      (hmore : s.buffer.buf ≠ [] ∨ s.buffer.closed = false) :
      Takes s a { s with
        pull := .idle
        log := s.log ++ [.pulled true consumed s.buffer.buf.isEmpty] }
  | finished {a} (policy consumed)
      (hpulling : s.buffer.consumer = true ∨ s.pull ≠ .idle)
      (hitems : s.pull.items = []) (hempty : s.buffer.buf = [])
      (hclosed : s.buffer.closed = true) :
      Takes s a { s with
        buffer := { s.buffer with consumer := false }
        pull := .idle
        log := s.log ++
          [terminal policy s.buffer.err, .pulled false consumed true] }
  | next (policy demand n consumed item items)
      (hpull : s.pull = .delivering policy demand n consumed (item :: items)) :
      Takes s .resume { s with
        pull := .delivering policy demand n consumed items
        log := s.log ++ [.onNext item] }

variable {s : SpscRun τ ε} {a : SpscAction τ ε}

theorem pullLoop_takes (policy : PullPolicy) (demand consumed : Nat)
    (hpull : s.buffer.consumer = true ∨ s.pull ≠ .idle)
    (hitems : s.pull.items = []) :
    s.Takes a (s.pullLoop policy demand consumed) := by
  simp only [pullLoop]
  split
  · rename_i hpos
    exact .took policy demand consumed _ hpull hitems hpos
      (Nat.min_le_right _ _)
  · split
    · rename_i hmore
      exact .left consumed hpull hitems hmore
    · rename_i hdone
      simp only [not_or, not_not, Bool.not_eq_false] at hdone
      exact .finished policy consumed hpull hitems hdone.1 hdone.2

theorem step_takes {t : SpscRun τ ε} (h : step s a = some t) : s.Takes a t := by
  cases a with
  | setConsumer =>
    obtain ⟨hres, h⟩ := Option.ite_none_right_eq_some.mp h
    obtain ⟨result, hset, rfl⟩ := Option.map_eq_some_iff.mp h
    exact .setConsumer hres hset
  | setProducer =>
    obtain ⟨hres, h⟩ := Option.ite_none_right_eq_some.mp h
    obtain ⟨result, hset, rfl⟩ := Option.map_eq_some_iff.mp h
    exact .setProducer hres hset
  | dropConsumer =>
    obtain ⟨hres, rfl⟩ := of_guard h
    exact .dropConsumer hres
  | dropProducer reason =>
    obtain ⟨hres, rfl⟩ := of_guard h
    exact .dropProducer reason hres
  | push items =>
    obtain ⟨hguard, rfl⟩ := of_guard h
    exact .push items hguard.1 hguard.2
  | abort reason =>
    simp only [step] at h
    split at h
    · contradiction
    · rename_i hres
      cases h
      exact .abort reason (Bool.eq_false_iff.mpr hres)
  | cancel =>
    simp only [step] at h
    split at h
    · contradiction
    · rename_i hres
      cases h
      exact .cancel (Bool.eq_false_iff.mpr hres)
  | pull policy demand =>
    simp only [step] at h
    split at h
    · rename_i hidle
      obtain ⟨hcon, rfl⟩ := of_guard h
      have hitems : s.pull.items = [] := by rw [hidle]; rfl
      unfold pullStart
      split
      · rename_i reason herr
        exact .prioritized reason hidle hcon herr
      · exact pullLoop_takes _ demand 0 (.inl hcon) hitems
    · contradiction
  | resume =>
    simp only [step] at h
    split at h
    · contradiction
    · rename_i policy demand n consumed item items hpull
      cases h
      exact .next policy demand n consumed item items hpull
    · rename_i policy demand n consumed hpull
      cases h
      refine pullLoop_takes policy _ _ (.inr ?_) ?_
      · simp [hpull]
      · simp [hpull]

end SpscRun

def SpscEvent.isQuiet : SpscEvent τ ε → Bool
  | .onNext _ | .onComplete _ | .onError .. | .pulled .. => false
  | _ => true

theorem granted_append (events events' : List (SpscEvent τ ε)) :
    granted (events ++ events') = granted events + granted events' := by
  induction events with
  | nil => simp [granted]
  | cons event events ih =>
    cases event <;> simp [granted, ih]
    omega

/--
The result of operations that only signal: `demand` is the one member that
changes, and `n` new demand is either passed on or kept.
-/
structure Signals (b : SpscBuffer τ ε) (n : Nat)
    (result : SpscBuffer τ ε × List (SpscEvent τ ε)) : Prop where
  same : ∃ demand, result.1 = { b with demand }
  quiet : ∀ event ∈ result.2, event.isQuiet = true
  conserved : granted result.2 + result.1.demand = b.demand + n
  bounded : b.producer = true → 0 < b.minPullSize →
    b.demand < b.minPullSize → result.1.demand < b.minPullSize

theorem Signals.prepend {b : SpscBuffer τ ε} {n : Nat}
    {result : SpscBuffer τ ε × List (SpscEvent τ ε)} (h : Signals b n result)
    (events : List (SpscEvent τ ε))
    (hquiet : ∀ event ∈ events, event.isQuiet = true)
    (hnone : granted events = 0) :
    Signals b n (result.1, events ++ result.2) where
  same := h.same
  quiet := by
    intro event hmem
    rcases List.mem_append.mp hmem with hnew | hold
    · exact hquiet event hnew
    · exact h.quiet event hold
  conserved := by
    rw [granted_append, hnone, Nat.zero_add]
    exact h.conserved
  bounded := h.bounded

namespace SpscBuffer

theorem signalDemand_signals (b : SpscBuffer τ ε) (n : Nat) :
    Signals b n (b.signalDemand n) := by
  simp only [signalDemand]
  split_ifs with hkeep
  · constructor
    · exact ⟨_, rfl⟩
    · simp [SpscEvent.isQuiet]
    · simp [granted]
    · intro _ hpos _
      exact hpos
  · constructor
    · exact ⟨_, rfl⟩
    · simp
    · simp [granted]
    · intro hprod _ _
      simp only [hprod, and_true] at hkeep
      exact Nat.lt_of_not_le hkeep

theorem ready_signals (b : SpscBuffer τ ε) :
    Signals b (b.capacity - b.buf.length) b.ready := by
  have hsignal := b.signalDemand_signals (b.capacity - b.buf.length)
  simp only [ready]
  split
  · split
    · exact hsignal.prepend _ (by simp [SpscEvent.isQuiet]) rfl
    · constructor
      · exact ⟨_, rfl⟩
      · simp [SpscEvent.isQuiet]
      · simp only [granted]
        omega
      · exact fun _ _ hbound => hbound
  · rename_i hempty
    simp only [not_not] at hempty
    simp only [hempty, List.length_nil, Nat.sub_zero] at hsignal ⊢
    exact hsignal.prepend _ (by simp [SpscEvent.isQuiet]) rfl

theorem take_signals (b : SpscBuffer τ ε) (n : Nat) :
    Signals { b with buf := b.buf.drop n }
      (n - (b.buf.length - b.capacity)) (b.take n) := by
  simp only [take]
  split
  · exact signalDemand_signals _ _
  · constructor
    · exact ⟨_, rfl⟩
    · simp
    · simp only [granted]
      omega
    · exact fun _ _ hbound => hbound

variable {b : SpscBuffer τ ε} {result : SpscBuffer τ ε × List (SpscEvent τ ε)}

theorem mem_ready_wakeup (h : b.buf ≠ []) : .onProducerWakeup ∈ b.ready.2 := by
  unfold ready
  rw [if_pos h]
  split <;> simp

theorem setConsumer_cases (h : b.setConsumer = some result) :
    (b.producer = true ∧ result = ready { b with consumer := true }) ∨
    (b.producer = false ∧ b.closed = true ∧
      result = ({ b with consumer := true }, [.onProducerWakeup])) ∨
    (b.producer = false ∧ b.closed = false ∧
      result = ({ b with consumer := true }, [])) := by
  simp only [setConsumer] at h
  split at h
  · contradiction
  · split at h
    · rename_i hprod
      cases h
      exact .inl ⟨hprod, rfl⟩
    · rename_i hprod
      have hnone := Bool.eq_false_iff.mpr hprod
      split at h
      · rename_i hclosed
        cases h
        exact .inr (.inl ⟨hnone, hclosed, rfl⟩)
      · rename_i hopen
        cases h
        exact .inr (.inr ⟨hnone, Bool.eq_false_iff.mpr hopen, rfl⟩)

theorem setProducer_cases (h : b.setProducer = some result) :
    (b.consumer = true ∧ result = ready { b with producer := true }) ∨
    (b.consumer = false ∧ ∃ events, result =
      ({ b with producer := true }, events) ∧
      (events = [] ∨ events = [.onConsumerCancel])) := by
  simp only [setProducer] at h
  split at h
  · contradiction
  · split at h
    · rename_i hcon
      cases h
      exact .inl ⟨hcon, rfl⟩
    · rename_i hcon
      refine .inr ⟨Bool.eq_false_iff.mpr hcon, ?_⟩
      split at h
      · cases h
        exact ⟨_, rfl, .inr rfl⟩
      · cases h
        exact ⟨_, rfl, .inl rfl⟩

theorem setConsumer_same (h : b.setConsumer = some result) :
    (∃ demand, result.1 = { b with consumer := true, demand }) ∧
      ∀ event ∈ result.2, event.isQuiet = true := by
  rcases setConsumer_cases h with ⟨-, rfl⟩ | ⟨-, -, rfl⟩ | ⟨-, -, rfl⟩
  · have hready := ready_signals { b with consumer := true }
    exact ⟨hready.same, hready.quiet⟩
  · exact ⟨⟨_, rfl⟩, by simp [SpscEvent.isQuiet]⟩
  · exact ⟨⟨_, rfl⟩, by simp⟩

theorem setProducer_same (h : b.setProducer = some result) :
    (∃ demand, result.1 = { b with producer := true, demand }) ∧
      ∀ event ∈ result.2, event.isQuiet = true := by
  rcases setProducer_cases h with ⟨-, rfl⟩ | ⟨-, events, rfl, rfl | rfl⟩
  · have hready := ready_signals { b with producer := true }
    exact ⟨hready.same, hready.quiet⟩
  · exact ⟨⟨_, rfl⟩, by simp⟩
  · exact ⟨⟨_, rfl⟩, by simp [SpscEvent.isQuiet]⟩

theorem abort_cases (b : SpscBuffer τ ε) (reason : Option ε) :
    (b.closed = true ∧ b.abort reason = (b, [])) ∨
    (b.closed = false ∧ ∃ events, b.abort reason =
      ({ b with closed := true, err := reason, producer := false }, events) ∧
      (events = [] ∧ ¬(b.buf = [] ∧ b.consumer = true) ∨
        events = [.onProducerWakeup])) := by
  cases hclosed : b.closed with
  | true => exact .inl ⟨rfl, by simp [abort, hclosed]⟩
  | false =>
    refine .inr ⟨rfl, if b.buf = [] ∧ b.consumer = true then
      [.onProducerWakeup] else [], by simp [abort, hclosed], ?_⟩
    split_ifs with hquiet
    · exact .inr rfl
    · exact .inl ⟨rfl, hquiet⟩

theorem cancel_cases (b : SpscBuffer τ ε) :
    (b.canceled = true ∧ b.cancel = (b, [])) ∨
    (∃ events, b.cancel =
      ({ b with canceled := true, consumer := false }, events) ∧
      (events = [] ∨ events = [.onConsumerCancel])) := by
  cases hcanceled : b.canceled with
  | true => exact .inl ⟨rfl, by simp [cancel, hcanceled]⟩
  | false =>
    refine .inr ⟨if b.producer then [.onConsumerCancel] else [], by
      simp [cancel, hcanceled], ?_⟩
    split
    · exact .inr rfl
    · exact .inl rfl

end SpscBuffer

end ActorFramework.Async
