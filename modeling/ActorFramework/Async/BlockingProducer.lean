import ActorFramework.Foundation.Transition

/-!
# The blocking producer

`push` hands items to the buffer as long as there is demand.  It holds the
mutex while it looks at `demand_`, releases it around the call to the buffer
and subtracts the items afterwards, so the consumer's callbacks can run in
between.  Cancellation is the value -1 of the same counter.
-/

namespace ActorFramework.Async

open Foundation List

variable {τ : Type*}

/-- Where the running call of `push` is; `items` is the span that is left. -/
inductive PushPc (τ : Type*) where
  | idle
  | waiting (items : List τ)
  | unlocked (items : List τ) (n : Nat)
  | pushed (items : List τ) (n : Nat)

/-- `notified` says whether a waiting thread was notified.  The fields after it
record the demand granted, whether the consumer canceled, the items the buffer
got, how many of them were subtracted, and what `push` returned. -/
structure BlockingProducer (τ : Type*) where
  demand : Int
  pc : PushPc τ
  notified : Bool
  granted : Nat
  cancels : Bool
  given : List τ
  accounted : Nat
  results : List Bool

inductive ProducerAction (τ : Type*) where
  | push (items : List τ)
  | wake
  | spuriousWake
  | bufPush
  | account
  | onConsumerDemand (n : Nat)
  | onConsumerCancel
  deriving DecidableEq

namespace BlockingProducer

def initial : BlockingProducer τ := ⟨0, .idle, false, 0, false, [], 0, []⟩

variable (s : BlockingProducer τ)

def loop (items : List τ) : BlockingProducer τ :=
  if items = [] then
    { s with pc := .idle, results := s.results ++ [true] }
  else if s.demand = 0 then
    { s with pc := .waiting items, notified := false }
  else if s.demand < 0 then
    { s with pc := .idle, results := s.results ++ [false] }
  else { s with pc := .unlocked items (min s.demand.toNat items.length) }

def canceled : Bool := s.demand == -1

def onConsumerCancel : BlockingProducer τ :=
  { s with demand := -1, notified := true }

def onConsumerDemand (n : Nat) : BlockingProducer τ :=
  if s.demand = 0 then { s with demand := s.demand + n, notified := true }
  else if 0 < s.demand then { s with demand := s.demand + n }
  else s

def step :
    ProducerAction τ → Option (BlockingProducer τ)
  | .push items =>
    match s.pc with
    | .idle => some (s.loop items)
    | _ => none
  | .wake =>
    match s.pc with
    | .waiting items => if s.notified then some (s.loop items) else none
    | _ => none
  | .spuriousWake =>
    match s.pc with
    | .waiting items => some (s.loop items)
    | _ => none
  | .bufPush =>
    match s.pc with
    | .unlocked items n =>
      some
        { s with
          pc := .pushed items n, given := s.given ++ items.take n }
    | _ => none
  | .account =>
    match s.pc with
    | .pushed items n =>
      some
        (loop
          { s with
            demand := s.demand - n, accounted := s.accounted + n }
          (items.drop n))
    | _ => none
  | .onConsumerDemand n =>
    some { s.onConsumerDemand n with granted := s.granted + n }
  | .onConsumerCancel => some { s.onConsumerCancel with cancels := true }

end BlockingProducer

/-- Items that were promised to the buffer but not given to it yet. -/
def PushPc.reserved : PushPc τ → Nat
  | .unlocked _ n => n
  | _ => 0

/-- Items the buffer has but the counter still shows as demand. -/
def PushPc.unaccounted : PushPc τ → Nat
  | .pushed _ n => n
  | _ => 0

def PushPc.inWindow : PushPc τ → Bool
  | .unlocked _ _ => true
  | .pushed _ _ => true
  | _ => false

namespace BlockingProducer

structure Balanced (s : BlockingProducer τ) : Prop where
  span : ∀ items n, s.pc = .unlocked items n ∨ s.pc = .pushed items n →
    1 ≤ n ∧ n ≤ items.length
  given : s.given.length = s.accounted + s.pc.unaccounted
  budget : s.given.length + s.pc.reserved ≤ s.granted
  balance : s.cancels = false →
    s.demand = s.granted - s.accounted ∧
      (s.pc.reserved + s.pc.unaccounted : Int) ≤ s.demand
  shut : s.cancels = true → s.demand < 0

theorem balanced_initial : Balanced (initial : BlockingProducer τ) where
  span _ _ hpc := by rcases hpc with hpc | hpc <;> cases hpc
  given := rfl
  budget := Nat.le_refl _
  balance _ := ⟨rfl, Int.le_refl _⟩
  shut hcanc := nomatch hcanc

theorem balanced_loop {s : BlockingProducer τ} (items : List τ)
    (hgiven : s.given.length = s.accounted)
    (hbudget : s.given.length ≤ s.granted)
    (hbal : s.cancels = false →
      s.demand = s.granted - s.accounted ∧ 0 ≤ s.demand)
    (hshut : s.cancels = true → s.demand < 0) : Balanced (s.loop items) := by
  unfold loop
  split
  · refine ⟨?_, hgiven, hbudget, hbal, hshut⟩
    rintro _ _ (hpc | hpc) <;> cases hpc
  · split
    · refine ⟨?_, hgiven, hbudget, hbal, hshut⟩
      rintro _ _ (hpc | hpc) <;> cases hpc
    · split
      · refine ⟨?_, hgiven, hbudget, hbal, hshut⟩
        rintro _ _ (hpc | hpc) <;> cases hpc
      · rename_i hitems hzero hneg
        have hopen : s.cancels = false := by
          rw [← Bool.not_eq_true]
          exact fun hcanc => hneg (hshut hcanc)
        obtain ⟨hdem, hnonneg⟩ := hbal hopen
        have hlen := length_pos_iff.mpr hitems
        refine ⟨?_, hgiven, ?_, fun _ => ⟨hdem, ?_⟩, hshut⟩
        · rintro items' n (hpc | hpc)
          · cases hpc
            omega
          · cases hpc
        · change s.given.length + min s.demand.toNat items.length ≤ s.granted
          omega
        · change ((min s.demand.toNat items.length : Nat) + 0 : Int) ≤
            s.demand
          omega

inductive Moves (s : BlockingProducer τ) :
    ProducerAction τ → BlockingProducer τ → Prop where
  | enter (action : ProducerAction τ) (items : List τ)
      (quiet : s.pc.reserved = 0 ∧ s.pc.unaccounted = 0)
      (kind : action ≠ .onConsumerCancel) :
      Moves s action (s.loop items)
  | bufPush (items : List τ) (n : Nat) (pc : s.pc = .unlocked items n) :
      Moves s .bufPush
        { s with pc := .pushed items n, given := s.given ++ items.take n }
  | account (items : List τ) (n : Nat) (pc : s.pc = .pushed items n) :
      Moves s .account
        (loop
          { s with demand := s.demand - n, accounted := s.accounted + n }
          (items.drop n))
  | demand (n : Nat) :
      Moves s (.onConsumerDemand n)
        { s.onConsumerDemand n with granted := s.granted + n }
  | cancel :
      Moves s .onConsumerCancel { s.onConsumerCancel with cancels := true }

variable {s t : BlockingProducer τ} {action : ProducerAction τ} {items : List τ}

theorem step_moves (hstep : s.step action = some t) : Moves s action t := by
  cases action with
  | push items =>
    simp only [step] at hstep
    split at hstep
    · rename_i hpc
      cases hstep
      exact .enter _ items (by rw [hpc]; exact ⟨rfl, rfl⟩) nofun
    · cases hstep
  | wake =>
    simp only [step] at hstep
    split at hstep
    · rename_i items hpc
      rw [Option.ite_none_right_eq_some, Option.some.injEq] at hstep
      rw [← hstep.2]
      exact .enter _ items (by rw [hpc]; exact ⟨rfl, rfl⟩) nofun
    · cases hstep
  | spuriousWake =>
    simp only [step] at hstep
    split at hstep
    · rename_i items hpc
      cases hstep
      exact .enter _ items (by rw [hpc]; exact ⟨rfl, rfl⟩) nofun
    · cases hstep
  | bufPush =>
    simp only [step] at hstep
    split at hstep
    · rename_i items n hpc
      cases hstep
      exact .bufPush items n hpc
    · cases hstep
  | account =>
    simp only [step] at hstep
    split at hstep
    · rename_i items n hpc
      cases hstep
      exact .account items n hpc
    · cases hstep
  | onConsumerDemand n =>
    cases hstep
    exact .demand n
  | onConsumerCancel =>
    cases hstep
    exact .cancel

@[simp] theorem loop_demand (s : BlockingProducer τ) (items : List τ) :
    (s.loop items).demand = s.demand := by
  unfold loop
  split_ifs <;> rfl

@[simp] theorem loop_cancels (s : BlockingProducer τ) (items : List τ) :
    (s.loop items).cancels = s.cancels := by
  unfold loop
  split_ifs <;> rfl

theorem onConsumerDemand_of_neg (n : Nat) (hneg : s.demand < 0) :
    s.onConsumerDemand n = s := by
  unfold onConsumerDemand
  rw [if_neg (by omega), if_neg (by omega)]

theorem onConsumerDemand_demand (n : Nat) (hnonneg : 0 ≤ s.demand) :
    (s.onConsumerDemand n).demand = s.demand + n := by
  unfold onConsumerDemand
  split_ifs
  · rfl
  · rfl
  · omega

theorem onConsumerDemand_frame (s : BlockingProducer τ) (n : Nat) :
    (s.onConsumerDemand n).pc = s.pc ∧
      (s.onConsumerDemand n).given = s.given ∧
      (s.onConsumerDemand n).accounted = s.accounted ∧
      (s.onConsumerDemand n).cancels = s.cancels := by
  unfold onConsumerDemand
  split_ifs <;> exact ⟨rfl, rfl, rfl, rfl⟩

variable {n : Nat} {actions : List (ProducerAction τ)}

theorem balanced_bufPush (hs : Balanced s) (hpc : s.pc = .unlocked items n) :
    Balanced
      { s with pc := .pushed items n, given := s.given ++ items.take n } := by
  obtain ⟨hpos, hlen⟩ := hs.span items n (.inl hpc)
  have hgiven := hs.given
  have hbudget := hs.budget
  have htake : (items.take n).length = n := length_take_of_le hlen
  rw [hpc] at hgiven hbudget
  simp only [PushPc.unaccounted, PushPc.reserved] at hgiven hbudget
  refine ⟨?_, ?_, ?_, fun hopen => ?_, hs.shut⟩
  · rintro _ _ (hpc' | hpc')
    · cases hpc'
    · cases hpc'
      exact ⟨hpos, hlen⟩
  · simp only [length_append, htake, PushPc.unaccounted]
    omega
  · simp only [length_append, htake, PushPc.reserved]
    omega
  · obtain ⟨hdem, hle⟩ := hs.balance hopen
    rw [hpc] at hle
    simp only [PushPc.unaccounted, PushPc.reserved] at hle ⊢
    exact ⟨hdem, by omega⟩

theorem balanced_demand (n : Nat) (hs : Balanced s) :
    Balanced { s.onConsumerDemand n with granted := s.granted + n } := by
  obtain ⟨hpc, hgiven, haccounted, hcanc⟩ := onConsumerDemand_frame s n
  refine ⟨?_, ?_, ?_, ?_, ?_⟩
  · rw [hpc]
    exact hs.span
  · simp only [hpc, hgiven, haccounted]
    exact hs.given
  · simp only [hpc, hgiven]
    have hbudget := hs.budget
    omega
  · simp only [hpc, haccounted, hcanc]
    intro hopen
    obtain ⟨hdem, hle⟩ := hs.balance hopen
    rw [onConsumerDemand_demand n (by omega)]
    omega
  · simp only [hcanc]
    intro hshut
    rw [onConsumerDemand_of_neg n (hs.shut hshut)]
    exact hs.shut hshut

theorem step_balanced (hs : Balanced s) (hstep : s.step action = some t) :
    Balanced t := by
  cases step_moves hstep with
  | enter _ items hquiet _ =>
    refine balanced_loop items ?_ ?_ (fun hopen => ?_) hs.shut
    · rw [hs.given, hquiet.2, Nat.add_zero]
    · have hbudget := hs.budget
      omega
    · have hbal := hs.balance hopen
      omega
  | bufPush items n hpc => exact balanced_bufPush hs hpc
  | account items n hpc =>
    have hgiven := hs.given
    have hbudget := hs.budget
    rw [hpc] at hgiven hbudget
    refine balanced_loop _ hgiven hbudget (fun hopen => ?_) fun hcanc => ?_
    · obtain ⟨hdem, hle⟩ := hs.balance hopen
      rw [hpc] at hle
      simp only [PushPc.unaccounted, PushPc.reserved] at hle ⊢
      omega
    · have hneg := hs.shut hcanc
      change s.demand - n < 0
      omega
  | demand n => exact balanced_demand n hs
  | cancel =>
    refine ⟨hs.span, hs.given, hs.budget, nofun, fun _ => ?_⟩
    change (-1 : Int) < 0
    decide

theorem exec_balanced (hrun : exec step initial actions = some s) :
    Balanced s :=
  exec_invariant Balanced (fun _ _ _ => step_balanced)
    balanced_initial hrun

theorem exec_cancels (hrun : exec step s actions = some t) :
    t.cancels = true ↔ s.cancels = true ∨ .onConsumerCancel ∈ actions := by
  induction actions generalizing s with
  | nil =>
    rw [exec_nil, Option.some.injEq] at hrun
    simp [hrun]
  | cons action actions ih =>
    rw [exec_cons_eq_some] at hrun
    obtain ⟨u, hstep, hrest⟩ := hrun
    rw [ih hrest, mem_cons]
    cases step_moves hstep with
    | enter _ items _ hkind => simp [hkind.symm]
    | bufPush items n hpc => simp
    | account items n hpc => simp
    | demand n => simp [onConsumerDemand_frame]
    | cancel => simp

theorem loop_not_inWindow (items : List τ) (hneg : s.demand < 0) :
    (s.loop items).pc.inWindow = false := by
  unfold loop
  split_ifs <;> rfl

/-- The consumer does not cancel while `push` works without the mutex. -/
def CancelsOutsideWindow (s : BlockingProducer τ)
    (action : ProducerAction τ) : Prop :=
  action = .onConsumerCancel → s.pc.inWindow = false

instance [DecidableEq τ] (s : BlockingProducer τ)
    (action : ProducerAction τ) :
    Decidable (s.CancelsOutsideWindow action) :=
  inferInstanceAs (Decidable (_ → _))

/-- The counter keeps the value that stands for cancellation, because no
round is left that could subtract from it. -/
def Marked (s : BlockingProducer τ) : Prop :=
  s.cancels = true → s.demand = -1 ∧ s.pc.inWindow = false

theorem step_marked (hs : Marked s) (hguard : s.CancelsOutsideWindow action)
    (hstep : s.step action = some t) : Marked t := by
  intro hcanc
  cases step_moves hstep with
  | enter _ items _ _ =>
    rw [loop_cancels] at hcanc
    obtain ⟨hdem, _⟩ := hs hcanc
    exact ⟨by rw [loop_demand, hdem], loop_not_inWindow items (by omega)⟩
  | bufPush items n hpc =>
    have hwin := (hs hcanc).2
    rw [hpc] at hwin
    cases hwin
  | account items n hpc =>
    rw [loop_cancels] at hcanc
    have hwin := (hs hcanc).2
    rw [hpc] at hwin
    cases hwin
  | demand n =>
    simp only [onConsumerDemand_frame] at hcanc
    obtain ⟨hdem, hwin⟩ := hs hcanc
    rw [onConsumerDemand_of_neg n (by omega)]
    exact ⟨hdem, hwin⟩
  | cancel => exact ⟨rfl, hguard rfl⟩

/-- Until the consumer cancels, the counter is the granted demand minus the
items that were accounted for.  The buffer never gets more than was granted,
and after a cancellation every `push` of a non-empty span returns `false`.  The
counter tells of it unless `push` had released the mutex at that time. -/
theorem producer_respects_demand_and_cancel {s : BlockingProducer τ}
    {actions : List (ProducerAction τ)}
    (hrun : exec step initial actions = some s) :
    (.onConsumerCancel ∉ actions →
      s.demand = s.granted - s.accounted ∧ 0 ≤ s.demand) ∧
    s.given.length ≤ s.granted ∧
    (.onConsumerCancel ∈ actions →
      (Along step CancelsOutsideWindow initial actions →
        s.canceled = true) ∧
      ∀ later t, exec step s later = some t → t.pc = .idle →
        ∀ items ≠ [], t.step (.push items) =
          some { t with results := t.results ++ [false] }) := by
  have hs := exec_balanced hrun
  refine ⟨fun hnone => ?_, ?_, fun hcall => ⟨fun halong => ?_, ?_⟩⟩
  · have hopen : s.cancels = false := by
      rw [← Bool.not_eq_true, exec_cancels hrun]
      rintro (hinit | hcall)
      · cases hinit
      · exact hnone hcall
    obtain ⟨hdem, hle⟩ := hs.balance hopen
    exact ⟨hdem, by omega⟩
  · have hbudget := hs.budget
    omega
  · have hinit : Marked (initial : BlockingProducer τ) :=
      fun hcancels => nomatch hcancels
    have hmarked : Marked s :=
      exec_invariant_along Marked
        (fun _ _ _ => step_marked) hinit
        halong hrun
    obtain ⟨hdem, _⟩ := hmarked ((exec_cancels hrun).mpr (.inr hcall))
    rw [canceled, hdem]
    rfl
  · intro later t hlater hidle items hitems
    have hcancels : t.cancels = true :=
      (exec_cancels hlater).mpr (.inl ((exec_cancels hrun).mpr (.inr hcall)))
    have hneg := (exec_balanced (exec_append hrun hlater)).shut hcancels
    simp only [step, hidle]
    rw [loop, if_neg hitems, if_neg (by omega), if_pos hneg, ← hidle]

theorem producer_respects_cancel_while_waiting :
    ∃ s : BlockingProducer Nat,
      exec step initial
          [.onConsumerDemand 1, .push [7, 8], .bufPush, .account,
            .onConsumerCancel, .wake] = some s ∧
        s.given = [7] ∧ s.results = [false] ∧ s.canceled = true :=
  ⟨⟨-1, .idle, true, 1, true, [7], 1, [false]⟩, rfl, rfl, rfl,
    ((@producer_respects_demand_and_cancel _ _
      [.onConsumerDemand 1, .push [7, 8], .bufPush, .account,
        .onConsumerCancel, .wake] rfl).2.2 (by decide)).1 (by decide)⟩

/-- The consumer cancels while `push` hands an item to the buffer; the
subtraction afterwards turns -1 into -2. -/
theorem cancel_while_unlocked_is_forgotten :
    ∃ s : BlockingProducer Nat,
      exec step initial
          [.onConsumerDemand 1, .push [7], .onConsumerCancel, .bufPush,
            .account] = some s ∧
        s.demand = -2 ∧ s.canceled = false :=
  ⟨⟨-2, .idle, true, 1, true, [7], 1, [true]⟩, rfl, rfl, rfl⟩

end BlockingProducer

end ActorFramework.Async
