import ActorFramework.Foundation.Transition
import ActorFramework.Io.Basp.MessageQueue
import Mathlib.Data.List.Nodup

/-!
# Runs of the message queue

The broker asks for an ID before it hands a message to a worker, and the worker
settles the ID later: it pushes a message or drops the ID.  The lock of the
queue makes each call one step.
-/

namespace ActorFramework.Io.Basp

open Foundation List

variable {γ : Type}

namespace MessageQueue

abbrev Entry (γ : Type) := Nat × Option γ

def Ascending {τ : Type} (xs : List (Nat × τ)) : Prop :=
  xs.Pairwise fun x y => x.1 < y.1

instance Ascending.decidable {τ : Type} (xs : List (Nat × τ)) :
    Decidable (Ascending xs) :=
  inferInstanceAs (Decidable (List.Pairwise _ xs))

variable {xs pending : List (Entry γ)} {next : Nat}

theorem mem_insert {id : Nat} {content : Option γ} {e : Entry γ} :
    e ∈ insert id content xs ↔ e = (id, content) ∨ e ∈ xs := by
  induction xs with
  | nil => simp [insert]
  | cons x xs ih =>
    rw [insert]
    split
    · simp
    · simp only [mem_cons, ih]
      exact or_left_comm

theorem ascending_insert {id : Nat} (h : Ascending xs)
    (hid : ∀ e ∈ xs, e.1 ≠ id) (content : Option γ) :
    Ascending (insert id content xs) := by
  induction xs with
  | nil => exact pairwise_singleton _ _
  | cons x xs ih =>
    have hx := hid x mem_cons_self
    have hrest := pairwise_cons.mp h
    rw [insert]
    split_ifs with hle
    · refine pairwise_cons.mpr ⟨?_, h⟩
      intro e he
      have hlt : id < x.1 := by omega
      rcases mem_cons.mp he with rfl | he
      · exact hlt
      · exact Nat.lt_trans hlt (hrest.1 e he)
    · refine pairwise_cons.mpr ⟨?_, ih hrest.2 fun e he =>
        hid e (mem_cons_of_mem x he)⟩
      intro e he
      rcases mem_insert.mp he with rfl | he
      · change x.1 < id
        omega
      · exact hrest.1 e he

structure Cut (next : Nat) (pending front : List (Entry γ)) (last : Nat)
    (rest : List (Entry γ)) : Prop where
  split : pending = front ++ rest
  le : next ≤ last
  inside : ∀ e ∈ front, next ≤ e.1 ∧ e.1 < last
  gapless : ∀ id, next ≤ id → id < last → id ∈ front.map Prod.fst
  beyond : ∀ e ∈ rest, last < e.1

theorem Cut.none (h : ∀ e ∈ pending, next < e.1) :
    Cut next pending [] next pending :=
  ⟨rfl, Nat.le_refl next, by simp, fun id hle hlt => by omega, h⟩

theorem Cut.cons {last : Nat} {front rest : List (Entry γ)}
    (h : Cut (next + 1) pending front last rest) (content : Option γ) :
    Cut next ((next, content) :: pending) ((next, content) :: front) last
      rest := by
  have hle := h.le
  refine ⟨congrArg _ h.split, by omega, ?_, ?_, h.beyond⟩
  · refine forall_mem_cons.mpr ⟨⟨Nat.le_refl next, hle⟩, ?_⟩
    intro e he
    have hinside := h.inside e he
    omega
  · intro id hge hlt
    by_cases hid : id = next
    · rw [hid]
      exact mem_cons_self
    · exact mem_cons_of_mem _ (h.gapless id (by omega) hlt)

theorem deliver_cut (h : Ascending pending)
    (hnext : ∀ e ∈ pending, next ≤ e.1) :
    ∃ front, (deliver next pending).1 = front.filterMap Prod.snd ∧
      Cut next pending front (deliver next pending).2.1
        (deliver next pending).2.2 := by
  induction pending generalizing next with
  | nil => exact ⟨[], rfl, .none (by simp)⟩
  | cons x pending ih =>
    obtain ⟨id, content⟩ := x
    obtain ⟨hfirst, htail⟩ := pairwise_cons.mp h
    have hid : next ≤ id := hnext _ mem_cons_self
    by_cases heq : id = next
    · subst heq
      obtain ⟨front, hmsgs, hcut⟩ := @ih (id + 1) htail hfirst
      simp only [deliver, if_true]
      refine ⟨(id, content) :: front, ?_, hcut.cons content⟩
      rw [hmsgs]
      cases content <;> rfl
    · rw [deliver, if_neg heq]
      refine ⟨[], rfl, .none ?_⟩
      refine forall_mem_cons.mpr ⟨by omega, ?_⟩
      intro e he
      have hlt : id < e.1 := hfirst e he
      omega

inductive Action (γ : Type) where
  | newId
  | push (id : Nat) (content : γ)
  | drop (id : Nat)

/-- The queue with its history: the IDs that were settled, and the messages in
the order of their delivery.  Each message carries its ID. -/
structure Run (γ : Type) where
  queue : MessageQueue (Nat × γ) := .empty
  settled : List (Entry (Nat × γ)) := []
  delivered : List (Nat × γ) := []

namespace Run

def settle (r : Run γ) (id : Nat) (content : Option γ) : Option (Run γ) :=
  if id < r.queue.nextId ∧ id ∉ r.settled.map Prod.fst then
    let entry := (id, content.map fun content => (id, content))
    some
      { queue := (r.queue.push id entry.2).2
        settled := entry :: r.settled
        delivered := r.delivered ++ (r.queue.push id entry.2).1 }
  else none

def step (r : Run γ) : Action γ → Option (Run γ)
  | .newId => some { r with queue := r.queue.newId.2 }
  | .push id content => r.settle id (some content)
  | .drop id => r.settle id none

/-- What the queue has done with the IDs that are settled: those below
`nextUndelivered` are done, the others are pending. -/
structure Inv (r : Run γ) : Prop where
  issued : ∀ e ∈ r.settled, e.1 < r.queue.nextId
  labelled : ∀ e ∈ r.settled, ∀ m, e.2 = some m → m.1 = e.1
  below : ∀ id < r.queue.nextUndelivered, id ∈ r.settled.map Prod.fst
  next : r.queue.nextUndelivered ∉ r.settled.map Prod.fst
  pending : ∀ e, e ∈ r.queue.pending ↔
    e ∈ r.settled ∧ r.queue.nextUndelivered < e.1
  sorted : Ascending r.queue.pending
  ascending : Ascending r.delivered
  delivered : ∀ m, m ∈ r.delivered ↔
    m.1 < r.queue.nextUndelivered ∧ (m.1, some m) ∈ r.settled

theorem inv_initial : Inv ({} : Run γ) :=
  ⟨by simp, by simp, fun id hid => absurd hid (Nat.not_lt_zero id), by simp,
    by simp [empty], .nil, .nil, by simp⟩

section

variable {r : Run γ} {id : Nat} {content : Option (Nat × γ)} (h : r.Inv)
  (hid : id < r.queue.nextId) (hfresh : id ∉ r.settled.map Prod.fst)
  (hlabel : ∀ m, content = some m → m.1 = id)

include h hid hfresh hlabel

theorem inv_wait (hne : id ≠ r.queue.nextUndelivered) :
    Inv { r with
      queue := { r.queue with pending := insert id content r.queue.pending }
      settled := (id, content) :: r.settled } := by
  have hlt : r.queue.nextUndelivered < id := by
    rcases Nat.lt_trichotomy id r.queue.nextUndelivered with hlt | heq | hgt
    · exact absurd (h.below id hlt) hfresh
    · exact absurd heq hne
    · exact hgt
  refine ⟨?_, ?_, ?_, ?_, ?_, ?_, h.ascending, ?_⟩
  · exact forall_mem_cons.mpr ⟨hid, h.issued⟩
  · exact forall_mem_cons.mpr ⟨hlabel, h.labelled⟩
  · exact fun k hk => mem_cons_of_mem _ (h.below k hk)
  · simp only [map_cons, mem_cons, not_or]
    exact ⟨Ne.symm hne, h.next⟩
  · intro e
    simp only [mem_insert, h.pending, mem_cons]
    constructor
    · rintro (rfl | ⟨he, hgt⟩)
      · exact ⟨.inl rfl, hlt⟩
      · exact ⟨.inr he, hgt⟩
    · rintro ⟨rfl | he, hgt⟩
      · exact .inl rfl
      · exact .inr ⟨he, hgt⟩
  · refine ascending_insert h.sorted ?_ content
    rintro e he rfl
    exact hfresh (mem_map_of_mem ((h.pending e).mp he).1)
  · intro m
    rw [h.delivered, mem_cons]
    constructor
    · exact fun ⟨hm, hmem⟩ => ⟨hm, .inr hmem⟩
    · rintro ⟨hm, heq | hmem⟩
      · have heq := congrArg Prod.fst heq
        change m.1 < r.queue.nextUndelivered at hm
        omega
      · exact ⟨hm, hmem⟩

theorem inv_release {last : Nat} {front rest : List (Entry (Nat × γ))}
    (heq : id = r.queue.nextUndelivered)
    (hcut : Cut id ((id, content) :: r.queue.pending) front last rest) :
    Inv
      { queue := { r.queue with nextUndelivered := last, pending := rest }
        settled := (id, content) :: r.settled
        delivered := r.delivered ++ front.filterMap Prod.snd } := by
  subst heq
  have hle := hcut.le
  have hlabelled : ∀ e ∈ (r.queue.nextUndelivered, content) :: r.settled,
      ∀ m, e.2 = some m → m.1 = e.1 :=
    forall_mem_cons.mpr ⟨hlabel, h.labelled⟩
  -- What is cut into two parts are the settled IDs that are not done yet.
  have hmem : ∀ e, e ∈ front ∨ e ∈ rest ↔
      e ∈ (r.queue.nextUndelivered, content) :: r.settled ∧
        r.queue.nextUndelivered ≤ e.1 := by
    intro e
    rw [← mem_append, ← hcut.split, mem_cons, mem_cons, h.pending]
    constructor
    · rintro (rfl | ⟨he, hlt⟩)
      · exact ⟨.inl rfl, Nat.le_refl _⟩
      · exact ⟨.inr he, Nat.le_of_lt hlt⟩
    · rintro ⟨rfl | he, hge⟩
      · exact .inl rfl
      · have hne : e.1 ≠ r.queue.nextUndelivered := by
          intro heq
          exact h.next (heq ▸ mem_map_of_mem he)
        exact .inr ⟨he, by omega⟩
  have hsorted : Ascending (front ++ rest) := by
    rw [← hcut.split]
    exact pairwise_cons.mpr ⟨fun e he => ((h.pending e).mp he).2, h.sorted⟩
  have hparts := pairwise_append.mp hsorted
  have hfront : ∀ e ∈ front, ∀ m, e.2 = some m → e = (m.1, some m) := by
    intro e he m hm
    have hid := hlabelled e ((hmem e).mp (.inl he)).1 m hm
    exact Prod.ext hid.symm hm
  have hreleased : ∀ m, m ∈ front.filterMap Prod.snd ↔
      (m.1, some m) ∈ front := by
    intro m
    rw [mem_filterMap]
    constructor
    · rintro ⟨e, he, hm⟩
      rwa [← hfront e he m hm]
    · exact fun he => ⟨_, he, rfl⟩
  refine ⟨forall_mem_cons.mpr ⟨hid, h.issued⟩, hlabelled, ?_, ?_, ?_,
    hparts.2.1, ?_, ?_⟩
  · intro k hk
    by_cases hold : k < r.queue.nextUndelivered
    · exact mem_cons_of_mem _ (h.below k hold)
    · obtain ⟨e, he, rfl⟩ := mem_map.mp
        (hcut.gapless k (by omega) hk)
      exact mem_map_of_mem ((hmem e).mp (.inl he)).1
  · intro hlast
    obtain ⟨e, he, heq⟩ := mem_map.mp hlast
    change e.1 = last at heq
    rcases (hmem e).mpr ⟨he, by omega⟩ with hin | hout
    · have hlt := (hcut.inside e hin).2
      omega
    · have hlt := hcut.beyond e hout
      omega
  · intro e
    constructor
    · exact fun he => ⟨((hmem e).mp (.inr he)).1, hcut.beyond e he⟩
    · rintro ⟨he, hlt⟩
      change last < e.1 at hlt
      rcases (hmem e).mpr ⟨he, by omega⟩ with hin | hout
      · have hlt' := (hcut.inside e hin).2
        omega
      · exact hout
  · refine pairwise_append.mpr ⟨h.ascending, ?_, ?_⟩
    · refine pairwise_filterMap.mpr (hparts.1.imp_of_mem ?_)
      intro e e' he he' hlt m hm m' hm'
      rw [hfront e he m hm, hfront e' he' m' hm'] at hlt
      exact hlt
    · intro m hm m' hm'
      have hdone := ((h.delivered m).mp hm).1
      have hnew := (hcut.inside _ ((hreleased m').mp hm')).1
      change r.queue.nextUndelivered ≤ m'.1 at hnew
      omega
  · intro m
    rw [mem_append, h.delivered, hreleased]
    change _ ↔ m.1 < last ∧ _
    constructor
    · rintro (⟨hlt, hold⟩ | hnew)
      · exact ⟨by omega, mem_cons_of_mem _ hold⟩
      · exact ⟨(hcut.inside _ hnew).2, ((hmem _).mp (.inl hnew)).1⟩
    · rintro ⟨hlt, hset⟩
      by_cases hold : m.1 < r.queue.nextUndelivered
      · rcases mem_cons.mp hset with heq | hset
        · have heq := congrArg Prod.fst heq
          omega
        · exact .inl ⟨hold, hset⟩
      · rcases (hmem _).mpr ⟨hset, by simpa using hold⟩ with hin | hout
        · exact .inr hin
        · have hlt' := hcut.beyond _ hout
          omega

end

theorem inv_settle {r r' : Run γ} {id : Nat} {content : Option γ}
    (h : r.Inv) (hstep : r.settle id content = some r') : r'.Inv := by
  rw [settle] at hstep
  obtain ⟨hguard, rfl⟩ := of_guard hstep
  have hlabel : ∀ m, content.map (fun content => (id, content)) = some m →
      m.1 = id := by
    intro m hm
    obtain ⟨x, -, rfl⟩ := Option.map_eq_some_iff.mp hm
    rfl
  by_cases heq : id = r.queue.nextUndelivered
  · obtain ⟨front, hmsgs, hcut⟩ := @deliver_cut _ _ (id + 1) h.sorted
      fun e he => heq ▸ ((h.pending e).mp he).2
    have hnew := inv_release h hguard.1 hguard.2 hlabel heq (hcut.cons _)
    rw [push, if_pos heq]
    simp only [hmsgs]
    cases content <;> exact hnew
  · rw [push, if_neg heq]
    simp only [append_nil]
    exact inv_wait h hguard.1 hguard.2 hlabel heq

theorem inv_step (r : Run γ) (a : Action γ) (r' : Run γ) (h : r.Inv)
    (hstep : r.step a = some r') : r'.Inv := by
  cases a with
  | newId =>
    cases hstep
    exact { h with issued := fun e he => Nat.lt_succ_of_lt (h.issued e he) }
  | push id content => exact inv_settle h hstep
  | drop id => exact inv_settle h hstep

def isNewId : Action γ → Bool
  | .newId => true
  | _ => false

def Settles (calls : List (Action γ)) (id : Nat) : Prop :=
  .drop id ∈ calls ∨ ∃ content, .push id content ∈ calls

structure Books (calls : List (Action γ)) (r : Run γ) : Prop where
  inv : r.Inv
  issued : r.queue.nextId = calls.countP isNewId
  pushed : ∀ id content,
    (id, some (id, content)) ∈ r.settled ↔ .push id content ∈ calls
  dropped : ∀ id, (id, none) ∈ r.settled ↔ .drop id ∈ calls
  once : (r.settled.map Prod.fst).Nodup

theorem settle_eq_some {r r' : Run γ} {id : Nat} {content : Option γ}
    (h : r.settle id content = some r') :
    id ∉ r.settled.map Prod.fst ∧ r'.queue.nextId = r.queue.nextId ∧
      r'.settled =
        (id, content.map fun content => (id, content)) :: r.settled := by
  rw [settle] at h
  obtain ⟨hguard, rfl⟩ := of_guard h
  refine ⟨hguard.2, ?_, rfl⟩
  rw [push]
  split <;> rfl

theorem books_step (calls : List (Action γ)) (r : Run γ) (a : Action γ)
    (r' : Run γ) (h : Books calls r) (hstep : r.step a = some r') :
    Books (calls ++ [a]) r' := by
  have hinv := inv_step r a r' h.inv hstep
  cases a with
  | newId =>
    cases hstep
    refine ⟨hinv, ?_, ?_, ?_, h.once⟩
    · rw [countP_append, ← h.issued]
      rfl
    · simpa using h.pushed
    · simpa using h.dropped
  | push id content =>
    obtain ⟨hfresh, hnext, hset⟩ := settle_eq_some hstep
    refine ⟨hinv, ?_, ?_, ?_, ?_⟩
    · rw [hnext, h.issued, countP_append]
      rfl
    · intro k m
      rw [hset, mem_cons, h.pushed, mem_append, or_comm]
      simp
    · intro k
      rw [hset, mem_cons, h.dropped]
      simp
    · rw [hset]
      exact nodup_cons.mpr ⟨hfresh, h.once⟩
  | drop id =>
    obtain ⟨hfresh, hnext, hset⟩ := settle_eq_some hstep
    refine ⟨hinv, ?_, ?_, ?_, ?_⟩
    · rw [hnext, h.issued, countP_append]
      rfl
    · intro k m
      rw [hset, mem_cons, h.pushed]
      simp
    · intro k
      rw [hset, mem_cons, h.dropped, mem_append, or_comm]
      simp
    · rw [hset]
      exact nodup_cons.mpr ⟨hfresh, h.once⟩

theorem books_run {calls : List (Action γ)} {r : Run γ}
    (hrun : exec step ({} : Run γ) calls = some r) : Books calls r := by
  have hstart : Books [] ({} : Run γ) :=
    ⟨inv_initial, rfl, by simp, by simp, .nil⟩
  exact exec_history Books books_step hstart hrun

namespace Books

variable {calls : List (Action γ)} {r : Run γ} (h : Books calls r)

include h

theorem mem_settled (id : Nat) :
    id ∈ r.settled.map Prod.fst ↔ Settles calls id := by
  constructor
  · intro hid
    obtain ⟨⟨id, content⟩, he, rfl⟩ := mem_map.mp hid
    cases content with
    | none => exact .inl ((h.dropped id).mp he)
    | some m =>
      obtain ⟨k, m⟩ := m
      have hk : k = id := h.inv.labelled _ he _ rfl
      subst hk
      exact .inr ⟨m, (h.pushed k m).mp he⟩
  · rintro (hdrop | ⟨m, hpush⟩)
    · exact mem_map_of_mem ((h.dropped id).mpr hdrop)
    · exact mem_map_of_mem ((h.pushed id m).mpr hpush)

theorem lt_nextUndelivered (id : Nat) :
    id < r.queue.nextUndelivered ↔ ∀ k ≤ id, Settles calls k := by
  constructor
  · intro hid k hk
    exact (h.mem_settled k).mp (h.inv.below k (by omega))
  · intro hall
    by_contra hid
    exact h.inv.next ((h.mem_settled _).mpr (hall _ (by omega)))

theorem mem_delivered (id : Nat) (content : γ) :
    (id, content) ∈ r.delivered ↔
      .push id content ∈ calls ∧ ∀ k < id, Settles calls k := by
  rw [h.inv.delivered, h.pushed, and_comm, h.lt_nextUndelivered]
  refine and_congr_right fun hpush => ?_
  constructor
  · exact fun hall k hk => hall k (Nat.le_of_lt hk)
  · intro hall k hk
    rcases Nat.lt_or_eq_of_le hk with hlt | rfl
    · exact hall k hlt
    · exact .inr ⟨content, hpush⟩

theorem not_dropped {id : Nat} {content : γ}
    (hpush : .push id content ∈ calls) : .drop id ∉ calls := by
  intro hdrop
  have heq := inj_on_of_nodup_map h.once
    ((h.pushed id content).mpr hpush) ((h.dropped id).mpr hdrop) rfl
  cases heq

theorem nextUndelivered_le : r.queue.nextUndelivered ≤ r.queue.nextId := by
  by_contra hgt
  obtain ⟨e, he, heq⟩ := mem_map.mp (h.inv.below r.queue.nextId (by omega))
  have hlt := h.inv.issued e he
  omega

theorem all_settled (hall : ∀ id < r.queue.nextId, Settles calls id) :
    r.queue.pending = [] ∧ r.queue.nextUndelivered = r.queue.nextId := by
  have heq : r.queue.nextUndelivered = r.queue.nextId := by
    refine Nat.le_antisymm h.nextUndelivered_le ?_
    by_contra hlt
    exact h.inv.next ((h.mem_settled _).mpr (hall _ (by omega)))
  refine ⟨eq_nil_iff_forall_not_mem.mpr ?_, heq⟩
  intro e he
  obtain ⟨hset, hlt⟩ := (h.inv.pending e).mp he
  have hissued := h.inv.issued e hset
  omega

end Books

/-- In every run the messages leave the queue in the order of their IDs, each of
them once all IDs before are settled. -/
theorem delivers_in_order {calls : List (Action γ)} {r : Run γ}
    (hrun : exec step ({} : Run γ) calls = some r) :
    Ascending r.delivered ∧
      (∀ id content, (id, content) ∈ r.delivered ↔
        .push id content ∈ calls ∧ ∀ k < id, Settles calls k) ∧
      (∀ id content, .drop id ∈ calls → (id, content) ∉ r.delivered) ∧
      Ascending r.queue.pending ∧
      (∀ e ∈ r.queue.pending, r.queue.nextUndelivered < e.1) ∧
      ((∀ id < calls.countP isNewId, Settles calls id) →
        r.queue.pending = [] ∧ r.queue.nextUndelivered = r.queue.nextId ∧
          ∀ id content, (id, content) ∈ r.delivered ↔
            .push id content ∈ calls) := by
  have h := books_run hrun
  refine ⟨h.inv.ascending, h.mem_delivered, ?_, h.inv.sorted, ?_, ?_⟩
  · intro id content hdrop hmem
    exact h.not_dropped ((h.mem_delivered id content).mp hmem).1 hdrop
  · exact fun e he => ((h.inv.pending e).mp he).2
  · intro hall
    rw [← h.issued] at hall
    obtain ⟨hnil, hnext⟩ := h.all_settled hall
    refine ⟨hnil, hnext, fun id content => ?_⟩
    rw [h.mem_delivered]
    refine and_iff_left_of_imp fun hpush k hk => hall k ?_
    have hlt := h.inv.issued _ ((h.pushed id content).mpr hpush)
    omega

/-- Three workers finish in another order than they started, one of them without
a message. -/
theorem delivers_in_order_three :
    ∃ r : Run Bool, exec step ({} : Run Bool)
        [.newId, .newId, .newId, .push 2 true, .drop 1, .push 0 false] =
      some r ∧ r.delivered = [(0, false), (2, true)] ∧
        r.queue.pending = [] ∧ r.queue.nextUndelivered = r.queue.nextId := by
  refine ⟨_, rfl, rfl, ?_⟩
  have h := (@delivers_in_order Bool [.newId, .newId, .newId, .push 2 true,
    .drop 1, .push 0 false] _ rfl).2.2.2.2.2 ?_
  · exact ⟨h.1, h.2.1⟩
  · intro id hid
    have hcases : id = 0 ∨ id = 1 ∨ id = 2 := by
      change id < 3 at hid
      omega
    rcases hcases with rfl | rfl | rfl
    · exact .inr ⟨false, by simp⟩
    · exact .inl (by simp)
    · exact .inr ⟨true, by simp⟩

end Run

end MessageQueue

end ActorFramework.Io.Basp
