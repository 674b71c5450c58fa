import ActorFramework.Async.SpscDelivery

/-!
# Wakeups and credit

The buffer wakes its consumer up and hands credit to its producer.  The credit
of the producer is what `on_consumer_demand` granted and no push used yet.  A
producer may push more than its credit; its credit is zero then.
-/

namespace ActorFramework.Async

open Foundation List SpscBuffer

variable {τ ε : Type*}

/-- A wakeup came after the last pull that left an empty and open buffer. -/
def Woken (log : List (SpscEvent τ ε)) : Prop :=
  ∃ older newer, log = older ++ .onProducerWakeup :: newer ∧
    ∀ consumed, .pulled true consumed true ∉ newer

variable {events : List (SpscEvent τ ε)}

theorem Woken.append {log : List (SpscEvent τ ε)} (h : Woken log)
    (hevs : ∀ consumed, .pulled true consumed true ∉ events) :
    Woken (log ++ events) := by
  obtain ⟨older, newer, rfl, hnewer⟩ := h
  refine ⟨older, newer ++ events, by simp, ?_⟩
  intro consumed hmem
  rcases mem_append.mp hmem with hold | hnew
  · exact hnewer consumed hold
  · exact hevs consumed hnew

theorem woken_of_wakeup (log : List (SpscEvent τ ε))
    (hmem : .onProducerWakeup ∈ events)
    (hevs : ∀ consumed, .pulled true consumed true ∉ events) :
    Woken (log ++ events) := by
  obtain ⟨before, after, rfl⟩ := append_of_mem hmem
  refine ⟨log ++ before, after, by simp, ?_⟩
  intro consumed hafter
  exact hevs consumed (by simp [hafter])

theorem not_mem_pulled_of_quiet (h : ∀ event ∈ events, event.isQuiet = true)
    (consumed : Nat) : .pulled true consumed true ∉ events := by
  intro hmem
  have hquiet := h _ hmem
  contradiction

namespace SpscRun

def Notified (s : SpscRun τ ε) : Prop :=
  s.buffer.consumer = true →
    (s.buffer.buf ≠ [] ∨ s.buffer.closed = true) → Woken s.log

variable {s t : SpscRun τ ε} {a : SpscAction τ ε}

private theorem notified_cancel (hs : s.Notified) (resource : Bool) :
    ({ s with consumerResource := resource }.commit
      s.buffer.cancel).Notified := by
  rcases s.buffer.cancel_cases with ⟨-, hcancel⟩ | ⟨events, hcancel, -⟩
  · intro hcon hready
    rw [hcancel] at hcon hready ⊢
    simpa [commit] using hs hcon hready
  · intro hcon
    rw [hcancel] at hcon
    contradiction

private theorem notified_abort (hs : s.Notified) (reason : Option ε)
    (resource : Bool) :
    ({ s with producerResource := resource }.commit
      (s.buffer.abort reason)).Notified := by
  intro hcon hready
  rcases s.buffer.abort_cases reason with
    ⟨-, habort⟩ | ⟨-, events, habort, ⟨rfl, hnot⟩ | rfl⟩
  · rw [habort] at hcon hready ⊢
    simpa [commit] using hs hcon hready
  · rw [habort] at hcon hready ⊢
    have hbuf : s.buffer.buf ≠ [] := fun hempty => hnot ⟨hempty, hcon⟩
    simpa [commit] using hs hcon (.inl hbuf)
  · rw [habort]
    exact woken_of_wakeup s.log (by simp) (by simp)

theorem Takes.notified (h : s.Takes a t) (hatt : s.Attached)
    (hs : s.Notified) : t.Notified := by
  cases h with
  | setConsumer hres hset =>
    intro hcon hready
    rcases setConsumer_cases hset with
      ⟨hprod, rfl⟩ | ⟨-, -, rfl⟩ | ⟨hprod, hopen, rfl⟩
    · have hsigs := ready_signals
        { s.buffer with consumer := true }
      obtain ⟨d, hsame⟩ := hsigs.same
      simp only [commit, hsame] at hready
      rcases hready with hbuf | hclosed
      · exact woken_of_wakeup _ (mem_ready_wakeup hbuf)
          (not_mem_pulled_of_quiet hsigs.quiet)
      · rw [hatt.closed hclosed] at hprod
        contradiction
    · exact woken_of_wakeup _ (by simp) (by simp)
    · exfalso
      rcases hready with hbuf | hclosed
      · cases hresource : s.producerResource with
        | true => exact hbuf (hatt.unopened hresource).2.2
        | false =>
          rcases hatt.opened hresource with hset | hclosed
          · rw [hset] at hprod
            contradiction
          · rw [hclosed] at hopen
            contradiction
      · exact absurd (hclosed.symm.trans hopen) (by decide)
  | setProducer hres hset =>
    obtain ⟨⟨d, hsame⟩, -⟩ := setProducer_same hset
    obtain ⟨-, hopen, hempty⟩ := hatt.unopened hres
    intro _ hready
    simp [commit, hsame, hopen, hempty] at hready
  | dropConsumer hres => exact notified_cancel hs false
  | cancel hres => exact notified_cancel hs s.consumerResource
  | dropProducer reason hres => exact notified_abort hs reason false
  | abort reason hres => exact notified_abort hs reason s.producerResource
  | push items hprod hopen =>
    intro hcon hready
    have hcon' : s.buffer.consumer = true := hcon
    by_cases hempty : s.buffer.buf = []
    · refine woken_of_wakeup _ ?_ ?_
      · simp [SpscBuffer.push, hempty, hcon']
      · simp [SpscBuffer.push, hempty]
    · refine (hs hcon' (.inl hempty)).append ?_
      intro consumed hmem
      simp only [SpscBuffer.push] at hmem
      split at hmem <;> simp at hmem
  | prioritized reason hidle hcon herr
  | finished policy consumed hpulling hitems hempty hclosed =>
    intro hnone
    contradiction
  | took policy demand consumed n hpulling hitems hpos hn =>
    have hsigs := s.buffer.take_signals n
    obtain ⟨d, hsame⟩ := hsigs.same
    intro hcon hready
    simp only [commit, hsame] at hcon hready
    have hbuf : s.buffer.buf ≠ [] := by
      rintro hempty
      simp [hempty] at hn
      omega
    exact (hs hcon (.inl hbuf)).append
      (not_mem_pulled_of_quiet hsigs.quiet)
  | left consumed hpulling hitems hmore =>
    intro hcon hready
    refine (hs hcon hready).append ?_
    intro consumed' hmem
    have hempty : s.buffer.buf = [] := by
      simp only [mem_singleton, SpscEvent.pulled.injEq] at hmem
      exact List.isEmpty_iff.mp hmem.2.2.symm
    -- The pull left empty, so `hready` says closed and `hmore` open.
    simp only [hempty, ne_eq, not_true_eq_false, false_or] at hready hmore
    rw [hready] at hmore
    contradiction
  | next policy demand n consumed item items hpull =>
    intro hcon hready
    exact (hs hcon hready).append (by simp)

theorem spsc_consumer_woken (capacity minPullSize : Nat) {s : SpscRun τ ε}
    (actions : List (SpscAction τ ε))
    (hrun : exec step (initial capacity minPullSize) actions = some s)
    (hconsumer : s.buffer.consumer = true)
    (hready : s.buffer.buf ≠ [] ∨ s.buffer.closed = true) :
    Woken s.log := by
  have hinv : s.Attached ∧ s.Notified := by
    refine exec_invariant (fun s => s.Attached ∧ s.Notified) ?_
      ⟨attached_initial _ _, ?_⟩ hrun
    · intro s a t hs hstep
      have htakes := step_takes hstep
      exact ⟨htakes.attached hs.1, htakes.notified hs.1 hs.2⟩
    · intro hnone
      contradiction
  exact hinv.2 hconsumer hready

def lateActions : List (SpscAction Nat Nat) :=
  [.setConsumer, .setProducer, .push [1], .pull .delayErrors 4, .resume,
    .push [2], .abort none]

theorem spsc_consumer_woken_late :
    ∃ s, exec step (initial 4 1) lateActions = some s ∧
      s.buffer.consumer = true ∧ s.buffer.closed = true ∧ Woken s.log :=
  ⟨_, rfl, rfl, rfl, spsc_consumer_woken 4 1 lateActions rfl rfl (.inr rfl)⟩

theorem Takes.sizes (h : s.Takes a t) :
    t.buffer.capacity = s.buffer.capacity ∧
      t.buffer.minPullSize = s.buffer.minPullSize := by
  cases h with
  | setConsumer hres hset =>
    obtain ⟨⟨d, hsame⟩, -⟩ := setConsumer_same hset
    simp [commit, hsame]
  | setProducer hres hset =>
    obtain ⟨⟨d, hsame⟩, -⟩ := setProducer_same hset
    simp [commit, hsame]
  | dropConsumer hres | cancel hres =>
    rcases s.buffer.cancel_cases with ⟨-, hcancel⟩ | ⟨events, hcancel, -⟩ <;>
      simp [commit, hcancel]
  | dropProducer reason hres | abort reason hres =>
    rcases s.buffer.abort_cases reason with
      ⟨-, habort⟩ | ⟨-, events, habort, -⟩ <;> simp [commit, habort]
  | took policy demand consumed n hpull hitems hpos hn =>
    obtain ⟨d, hsame⟩ := (s.buffer.take_signals n).same
    simp [commit, hsame]
  | push | prioritized | left | finished | next => exact ⟨rfl, rfl⟩

def Connected (s : SpscRun τ ε) : Prop :=
  s.buffer.consumer = true ∧ s.buffer.producer = true

def Unopened (s : SpscRun τ ε) : Prop :=
  s.consumerResource = true ∨ s.producerResource = true

inductive Ledger (s : SpscRun τ ε) (a : SpscAction τ ε) (t : SpscRun τ ε) :
    Prop
  | keep (hcredit : t.credit = s.credit)
      (hdemand : t.buffer.demand = s.buffer.demand)
      (hbuf : t.buffer.buf = s.buffer.buf)
      (hconnected : t.Connected → s.Connected)
      (hunopened : t.Unopened → s.Unopened)
  | ready (hfirst : s.Unopened) (hlast : ¬t.Unopened)
      (hsum : t.credit + t.buffer.demand = s.credit + s.buffer.demand +
        (s.buffer.capacity - s.buffer.buf.length))
      (hbuf : t.buffer.buf = s.buffer.buf)
      (hbounded : 0 < s.buffer.minPullSize →
        s.buffer.demand < s.buffer.minPullSize →
        t.buffer.demand < s.buffer.minPullSize)
  | push (items) (haction : a = .push items)
      (hcredit : t.credit = s.credit - items.length)
      (hdemand : t.buffer.demand = s.buffer.demand)
      (hbuf : t.buffer.buf = s.buffer.buf ++ items)
      (hconnected : t.Connected → s.Connected)
      (hunopened : t.Unopened → s.Unopened)
  | take (n) (hpos : 0 < n) (hn : n ≤ s.buffer.buf.length)
      (hopened : ¬t.Unopened)
      (hsum : t.credit + t.buffer.demand = s.credit + s.buffer.demand +
        (n - (s.buffer.buf.length - s.buffer.capacity)))
      (hbuf : t.buffer.buf = s.buffer.buf.drop n)
      (hconnected : t.Connected → s.Connected)
      (hbounded : s.buffer.producer = true → 0 < s.buffer.minPullSize →
        s.buffer.demand < s.buffer.minPullSize →
        t.buffer.demand < s.buffer.minPullSize)

private theorem commit_credit (s : SpscRun τ ε) {b : SpscBuffer τ ε} {n : Nat}
    {result : SpscBuffer τ ε × List (SpscEvent τ ε)} (h : Signals b n result) :
    (s.commit result).credit + (s.commit result).buffer.demand =
      s.credit + b.demand + n := by
  have hconserved := h.conserved
  simp only [commit]
  omega

private theorem ledger_cancel (resource : Bool)
    (hresource : resource = true → s.consumerResource = true) :
    s.Ledger a ({ s with consumerResource := resource }.commit
      s.buffer.cancel) := by
  have hunop : Unopened { s with consumerResource := resource } →
      s.Unopened := Or.imp_left hresource
  rcases s.buffer.cancel_cases with
    ⟨-, hcancel⟩ | ⟨events, hcancel, rfl | rfl⟩
  all_goals
    rw [hcancel]
    refine .keep rfl rfl rfl ?_ hunop
    simp [Connected, commit]

private theorem ledger_abort (reason : Option ε) (resource : Bool)
    (hresource : resource = true → s.producerResource = true) :
    s.Ledger a ({ s with producerResource := resource }.commit
      (s.buffer.abort reason)) := by
  have hunop : Unopened { s with producerResource := resource } →
      s.Unopened := Or.imp_right hresource
  rcases s.buffer.abort_cases reason with
    ⟨-, habort⟩ | ⟨-, events, habort, ⟨rfl, -⟩ | rfl⟩
  all_goals
    rw [habort]
    refine .keep rfl rfl rfl ?_ hunop
    simp [Connected, commit]

theorem Takes.ledger (h : s.Takes a t) (hs : s.Attached) : s.Ledger a t := by
  cases h with
  | setConsumer hres hset =>
    rcases setConsumer_cases hset with
      ⟨hprod, rfl⟩ | ⟨hnone, -, rfl⟩ | ⟨hnone, -, rfl⟩
    · have hsigs := ready_signals
        { s.buffer with consumer := true }
      obtain ⟨d, hsame⟩ := hsigs.same
      refine .ready (.inl hres) ?_ ?_ ?_ (hsigs.bounded hprod)
      · rintro (hcon | hopen)
        · contradiction
        · rw [(hs.unopened hopen).1] at hprod
          contradiction
      · have hsum := commit_credit { s with consumerResource := false } hsigs
        exact hsum
      · simp [commit, hsame]
    · refine .keep rfl rfl rfl ?_ fun hopen => .inl hres
      simp [Connected, commit, hnone]
    · refine .keep rfl rfl rfl ?_ fun hopen => .inl hres
      simp [Connected, commit, hnone]
  | setProducer hres hset =>
    rcases setProducer_cases hset with
      ⟨hcon, rfl⟩ | ⟨hnone, events, rfl, hevs⟩
    · have hsigs := ready_signals
        { s.buffer with producer := true }
      obtain ⟨d, hsame⟩ := hsigs.same
      refine .ready (.inr hres) ?_ ?_ ?_ (hsigs.bounded rfl)
      · rintro (hopen | hprod)
        · rw [hs.consumer hcon] at hopen
          contradiction
        · contradiction
      · have hsum := commit_credit { s with producerResource := false } hsigs
        exact hsum
      · simp [commit, hsame]
    · have hgranted : granted events = 0 := by
        rcases hevs with rfl | rfl <;> rfl
      refine .keep ?_ rfl rfl ?_ fun hopen => .inr hres
      · simp [commit, hgranted]
      · simp [Connected, commit, hnone]
  | dropConsumer hres => exact ledger_cancel false (by simp)
  | cancel hres => exact ledger_cancel s.consumerResource id
  | dropProducer reason hres => exact ledger_abort reason false (by simp)
  | abort reason hres =>
    exact ledger_abort reason s.producerResource id
  | push items hprod hopen =>
    have hgranted : granted (s.buffer.push items).1.2 = 0 := by
      simp only [SpscBuffer.push]
      split <;> rfl
    refine .push items rfl ?_ rfl rfl id id
    simp [commit, hgranted]
  | took policy demand consumed n hpull hitems hpos hn =>
    have hsigs := s.buffer.take_signals n
    obtain ⟨d, hsame⟩ := hsigs.same
    refine .take n hpos hn ?_ ?_ ?_ ?_ hsigs.bounded
    · rintro (hcon | hprod)
      · have hresource := hpull.elim hs.consumer hs.pulling
        rw [show s.consumerResource = true from hcon] at hresource
        contradiction
      · have hempty := (hs.unopened hprod).2.2
        simp only [hempty, length_nil] at hn
        omega
    · have hsum := commit_credit s hsigs
      exact hsum
    · simp [commit, hsame]
    · simp [Connected, commit, hsame]
  | left | next => exact .keep rfl rfl rfl id id
  | prioritized | finished =>
    refine .keep rfl rfl rfl ?_ id
    simp [Connected]

def WithinCredit (s : SpscRun τ ε) : SpscAction τ ε → Prop
  | .push items => items.length ≤ s.credit
  | _ => True

instance (s : SpscRun τ ε) (a : SpscAction τ ε) :
    Decidable (WithinCredit s a) := by
  cases a <;> unfold WithinCredit <;> infer_instance

structure Balanced (s : SpscRun τ ε) : Prop where
  unopened : s.Unopened → s.credit = 0 ∧ s.buffer.demand = 0 ∧ s.buffer.buf = []
  sum : s.Connected →
    s.credit + s.buffer.demand + s.buffer.buf.length = s.buffer.capacity
  bounded : s.Connected → s.buffer.demand < s.buffer.minPullSize

theorem Ledger.balanced (h : s.Ledger a t)
    (hcap : t.buffer.capacity = s.buffer.capacity)
    (hminPull : t.buffer.minPullSize = s.buffer.minPullSize)
    (hpos : 0 < s.buffer.minPullSize) (hwithin : WithinCredit s a)
    (hs : s.Balanced) : t.Balanced := by
  cases h with
  | keep hcredit hdem hbuf hconn hunop =>
    constructor
    · intro ht
      rw [hcredit, hdem, hbuf]
      exact hs.unopened (hunop ht)
    · intro ht
      rw [hcredit, hdem, hbuf, hcap]
      exact hs.sum (hconn ht)
    · intro ht
      rw [hdem, hminPull]
      exact hs.bounded (hconn ht)
  | ready hfirst hlast hsum hbuf hbound =>
    obtain ⟨hcredit, hdem, hempty⟩ := hs.unopened hfirst
    rw [hempty] at hsum hbuf
    constructor
    · intro ht
      exact absurd ht hlast
    · intro _
      rw [hbuf, hcap]
      simp only [length_nil] at hsum ⊢
      omega
    · intro _
      rw [hminPull]
      exact hbound hpos (by omega)
  | push items haction hcredit hdem hbuf hconn hunop =>
    subst haction
    have hlen : items.length ≤ s.credit := hwithin
    constructor
    · intro ht
      obtain ⟨hzero, hnone, hempty⟩ := hs.unopened (hunop ht)
      have hitems : items = [] := eq_nil_of_length_eq_zero (by omega)
      refine ⟨by omega, by omega, ?_⟩
      rw [hbuf, hempty, hitems, append_nil]
    · intro ht
      have hsum := hs.sum (hconn ht)
      rw [hbuf, hcap, length_append]
      omega
    · intro ht
      rw [hdem, hminPull]
      exact hs.bounded (hconn ht)
  | take n hn hle hopened hsum hbuf hconn hbound =>
    constructor
    · intro ht
      exact absurd ht hopened
    · intro ht
      have hold := hs.sum (hconn ht)
      rw [hbuf, hcap, length_drop]
      omega
    · intro ht
      rw [hminPull]
      exact hbound (hconn ht).2 hpos (hs.bounded (hconn ht))

private theorem run_balanced {capacity minPullSize : Nat}
    (hpos : 0 < minPullSize) {actions : List (SpscAction τ ε)}
    (hwithin : Along step WithinCredit (initial capacity minPullSize) actions)
    (hrun : exec step (initial capacity minPullSize) actions = some s) :
    (s.buffer.capacity = capacity ∧ s.buffer.minPullSize = minPullSize) ∧
      s.Balanced := by
  refine (exec_invariant_along (fun s => s.Attached ∧
    (s.buffer.capacity = capacity ∧ s.buffer.minPullSize = minPullSize) ∧
    s.Balanced) ?_ ⟨attached_initial _ _, ⟨rfl, rfl⟩, ?_⟩ hwithin hrun).2
  · rintro s a t ⟨hatt, ⟨hcap, hminPull⟩, hs⟩ hguard hstep
    have htakes := step_takes hstep
    obtain ⟨hcap', hminPull'⟩ := htakes.sizes
    refine ⟨htakes.attached hatt, ⟨by omega, by omega⟩, ?_⟩
    exact (htakes.ledger hatt).balanced hcap' hminPull'
      (by omega) hguard hs
  · constructor <;> simp [initial, SpscBuffer.initial, Connected]

/--
With a producer that keeps to its credit, credit, pending demand and buffered
items add up to the capacity, and an empty buffer never starves the producer.
A pull counts its batch back before it releases the lock.
-/
theorem spsc_credit_conserved (capacity minPullSize : Nat)
    (hpos : 0 < minPullSize) (hle : minPullSize ≤ capacity)
    {s : SpscRun τ ε} (actions : List (SpscAction τ ε))
    (hwithin : Along step WithinCredit (initial capacity minPullSize) actions)
    (hrun : exec step (initial capacity minPullSize) actions = some s)
    (hconnected : s.Connected) :
    s.credit + s.buffer.demand + s.buffer.buf.length = capacity ∧
    s.buffer.buf.length ≤ capacity ∧
    (s.buffer.buf = [] → s.pull = .idle → 0 < s.credit) := by
  obtain ⟨⟨hcapacity, hminPull⟩, hs⟩ := run_balanced hpos hwithin hrun
  have hsum := hs.sum hconnected
  have hbounded := hs.bounded hconnected
  rw [hcapacity] at hsum
  refine ⟨hsum, by omega, ?_⟩
  intro hempty _
  rw [hempty, List.length_nil] at hsum
  omega

def pacedActions : List (SpscAction Nat Nat) :=
  [.setProducer, .setConsumer, .push [1, 2, 3, 4], .pull .delayErrors 3,
    .resume, .resume, .push [5], .resume, .resume, .pull .delayErrors 9,
    .resume, .resume, .resume]

theorem spsc_credit_conserved_paced :
    ∃ s, exec step (initial 4 2) pacedActions = some s ∧
      s.buffer.buf = [] ∧ s.credit + s.buffer.demand = 4 ∧ 0 < s.credit := by
  refine ⟨_, rfl, rfl, ?_⟩
  have h := spsc_credit_conserved 4 2 (by decide) (by decide) pacedActions
    (by decide) rfl ⟨rfl, rfl⟩
  exact ⟨h.1, h.2.2 rfl rfl⟩

def exposure (s : SpscRun τ ε) : Nat :=
  s.credit + s.buffer.demand + min s.buffer.buf.length s.buffer.capacity

def OvershootsIdle (s : SpscRun τ ε) : SpscAction τ ε → Prop
  | .push items => s.credit < items.length → s.buffer.demand = 0
  | _ => True

instance (s : SpscRun τ ε) (a : SpscAction τ ε) :
    Decidable (OvershootsIdle s a) := by
  cases a <;> unfold OvershootsIdle <;> infer_instance

structure Bounded (s : SpscRun τ ε) : Prop where
  unopened : s.Unopened → s.credit = 0 ∧ s.buffer.demand = 0
  exposure : s.exposure ≤ s.buffer.capacity

theorem Ledger.exposed (h : s.Ledger a t)
    (hcap : t.buffer.capacity = s.buffer.capacity)
    (hidle : OvershootsIdle s a) (hs : s.Bounded) : t.Bounded := by
  have hold := hs.exposure
  simp only [SpscRun.exposure] at hold
  cases h with
  | keep hcredit hdem hbuf hconn hunop =>
    constructor
    · intro ht
      rw [hcredit, hdem]
      exact hs.unopened (hunop ht)
    · simp only [SpscRun.exposure, hcredit, hdem, hbuf, hcap]
      exact hold
  | ready hfirst hlast hsum hbuf hbound =>
    obtain ⟨hcredit, hdem⟩ := hs.unopened hfirst
    constructor
    · intro ht
      exact absurd ht hlast
    · simp only [SpscRun.exposure, hbuf, hcap]
      omega
  | push items haction hcredit hdem hbuf hconn hunop =>
    subst haction
    simp only [OvershootsIdle] at hidle
    constructor
    · intro ht
      obtain ⟨hzero, hnone⟩ := hs.unopened (hunop ht)
      exact ⟨by omega, by omega⟩
    · simp only [SpscRun.exposure, hcredit, hdem, hbuf, hcap, length_append]
      by_cases hover : s.credit < items.length
      · omega
      · omega
  | take n hpos hn hopened hsum hbuf hconn hbound =>
    constructor
    · intro ht
      exact absurd ht hopened
    · simp only [SpscRun.exposure, hbuf, hcap, length_drop]
      omega

/--
As long as pushes above the credit come while no demand is pending, items
above the capacity create no demand.
-/
theorem spsc_exposure_bounded (capacity minPullSize : Nat)
    {s : SpscRun τ ε} (actions : List (SpscAction τ ε))
    (hidle : Along step OvershootsIdle (initial capacity minPullSize) actions)
    (hrun : exec step (initial capacity minPullSize) actions = some s) :
    s.exposure ≤ capacity := by
  have hinv : s.Attached ∧ s.buffer.capacity = capacity ∧ s.Bounded := by
    refine exec_invariant_along (fun s => s.Attached ∧
      s.buffer.capacity = capacity ∧ s.Bounded) ?_
      ⟨attached_initial _ _, rfl, ?_⟩ hidle hrun
    · rintro s a t ⟨hattached, hcapacity, hs⟩ hguard hstep
      have htakes := step_takes hstep
      have hcapacity' := htakes.sizes.1
      exact ⟨htakes.attached hattached, by omega,
        (htakes.ledger hattached).exposed hcapacity' hguard hs⟩
    · constructor <;> simp [initial, SpscBuffer.initial, exposure]
  obtain ⟨-, hcapacity, hs⟩ := hinv
  rw [← hcapacity]
  exact hs.exposure

def overshootActions : List (SpscAction Nat Nat) :=
  [.setConsumer, .setProducer, .push [1, 2, 3, 4], .pull .delayErrors 2,
    .resume, .resume, .resume]

theorem spsc_exposure_bounded_overshoot :
    ∃ s, exec step (initial 2 2) overshootActions = some s ∧
      s.buffer.buf = [3, 4] ∧ s.exposure ≤ 2 :=
  ⟨_, rfl, rfl, spsc_exposure_bounded 2 2 overshootActions (by decide) rfl⟩

def pendingActions : List (SpscAction Nat Nat) :=
  [.setConsumer, .setProducer, .push [1, 2], .pull .delayErrors 1, .resume,
    .resume, .push [3]]

/--
The pending demand stays although the buffer is full again, and the next pull
grants the producer two items while one is still buffered.
-/
theorem spsc_pending_demand_exceeds_capacity :
    (∃ s : SpscRun Nat Nat, exec step (initial 2 2) pendingActions = some s ∧
      s.credit = 0 ∧ s.buffer.demand = 1 ∧ s.buffer.buf = [2, 3] ∧
      ¬s.exposure ≤ 2) ∧
    ∃ s : SpscRun Nat Nat, exec step (initial 2 2)
        (pendingActions ++ [.pull .delayErrors 1]) = some s ∧
      s.credit = 2 ∧ s.buffer.buf = [3] :=
  ⟨⟨_, rfl, rfl, rfl, rfl, by decide⟩, ⟨_, rfl, rfl, rfl⟩⟩

end SpscRun

end ActorFramework.Async
