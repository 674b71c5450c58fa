import ActorFramework.Foundation.BoundedQueue

/-!
# Ring buffers

`detail::ring_buffer` keeps the last items in an array of fixed size.  The
items from the oldest to the newest are its contents.  A new item replaces the
oldest one when the buffer is full.
-/

namespace ActorFramework.Flow

open Foundation List

variable {τ : Type*} {maxSize : Nat}

structure RingBuffer (τ : Type*) (maxSize : Nat) where
  buf : List τ
  writePos : Nat
  size : Nat
  length_buf : buf.length = maxSize
  writePos_lt : 0 < maxSize → writePos < maxSize
  size_le : size ≤ maxSize

namespace RingBuffer

def slot (r : RingBuffer τ maxSize) (k : Nat) : Nat :=
  (r.writePos + maxSize - r.size + k) % maxSize

def popFront (r : RingBuffer τ maxSize) : RingBuffer τ maxSize :=
  { r with
    size := r.size - 1
    size_le := Nat.le_trans (Nat.sub_le _ _) r.size_le }

def full (r : RingBuffer τ maxSize) : Bool := r.size == maxSize

def isEmpty (r : RingBuffer τ maxSize) : Bool := r.size == 0

def pushBack (r : RingBuffer τ maxSize) (item : τ) : RingBuffer τ maxSize :=
  if maxSize = 0 then r
  else
    { buf := r.buf.set r.writePos item
      writePos := (r.writePos + 1) % maxSize
      size := if r.full then r.size else r.size + 1
      length_buf := by rw [List.length_set, r.length_buf]
      writePos_lt := Nat.mod_lt _
      size_le := by
        have hle := r.size_le
        simp only [full, beq_iff_eq]
        split <;> omega }

def step (r : RingBuffer τ maxSize) : QueueOp τ → Option (RingBuffer τ maxSize)
  | .offer item => some (r.pushBack item)
  | .take => if r.isEmpty then none else some r.popFront

theorem add_mod_ne {pos step n : Nat} (hpos : pos < n) (hstep : 0 < step)
    (hlt : step < n) : (pos + step) % n ≠ pos := by
  by_cases hwrap : pos + step < n
  · rw [Nat.mod_eq_of_lt hwrap]
    omega
  · rw [Nat.mod_eq_sub_mod (Nat.le_of_not_lt hwrap),
      Nat.mod_eq_of_lt (by omega)]
    omega

section

variable (r : RingBuffer τ maxSize)

theorem slot_pushBack (item : τ) (hpos : 0 < maxSize) (k : Nat) :
    (r.pushBack item).slot k =
      if r.full then r.slot (k + 1) else r.slot k := by
  have hle := r.size_le
  rw [pushBack, if_neg (Nat.pos_iff_ne_zero.mp hpos)]
  simp only [slot, full, beq_iff_eq]
  split_ifs with hfull
  · rw [hfull, Nat.add_sub_cancel, Nat.add_sub_cancel, Nat.mod_add_mod]
    congr 1
    omega
  · rw [Nat.add_sub_assoc (by omega), Nat.add_assoc, Nat.mod_add_mod]
    congr 1
    omega

theorem slot_size (hpos : 0 < maxSize) : r.slot r.size = r.writePos := by
  have hle := r.size_le
  rw [slot, Nat.sub_add_cancel (by omega), Nat.add_mod_right,
    Nat.mod_eq_of_lt (r.writePos_lt hpos)]

theorem slot_ne {k : Nat} (hpos : 0 < maxSize) (hk : k < r.size)
    (hold : r.full = true → 0 < k) : r.slot k ≠ r.writePos := by
  have hle := r.size_le
  simp only [full, beq_iff_eq] at hold
  rw [slot, Nat.add_sub_assoc hle, Nat.add_assoc]
  apply add_mod_ne (r.writePos_lt hpos)
  · omega
  · omega

end

variable [Inhabited τ]

def empty (τ : Type*) [Inhabited τ] (maxSize : Nat) : RingBuffer τ maxSize where
  buf := List.replicate maxSize default
  writePos := 0
  size := 0
  length_buf := List.length_replicate
  writePos_lt := id
  size_le := Nat.zero_le maxSize

def front (r : RingBuffer τ maxSize) : τ := r.buf.getD (r.slot 0) default

def contents (r : RingBuffer τ maxSize) : List τ :=
  (List.range r.size).map fun k => r.buf.getD (r.slot k) default

@[simp] theorem contents_empty : (empty τ maxSize).contents = [] := rfl

section

variable (r : RingBuffer τ maxSize)

@[simp] theorem length_contents : r.contents.length = r.size := by
  simp [contents]

theorem full_iff : r.full = true ↔ r.contents.length = maxSize := by
  simp [full]

theorem isEmpty_iff : r.isEmpty = true ↔ r.contents = [] := by
  simp [isEmpty, ← length_eq_zero_iff]

theorem contents_eq_cons (h : r.isEmpty = false) :
    r.contents = r.front :: r.popFront.contents := by
  obtain ⟨n, hn⟩ : ∃ n, r.size = n + 1 :=
    Nat.exists_eq_succ_of_ne_zero (by simpa [isEmpty] using h)
  have hle := r.size_le
  have hslot : ∀ k, r.popFront.slot k = r.slot (k + 1) := by
    intro k
    simp only [slot, popFront]
    congr 1
    omega
  have hpop : r.popFront.size = n := by
    simp [popFront, hn]
  simp only [contents, hpop, hslot]
  rw [hn, range_succ_eq_map, map_cons, map_map]
  rfl

theorem getD_pushBack (item : τ) (hpos : 0 < maxSize) (j : Nat) :
    (r.pushBack item).buf.getD j default =
      if j = r.writePos then item else r.buf.getD j default := by
  have hlt := r.writePos_lt hpos
  rw [pushBack, if_neg (Nat.pos_iff_ne_zero.mp hpos)]
  simp only [getD_eq_getElem?_getD]
  split
  · rename_i heq
    rw [heq, getElem?_set_self (by rw [r.length_buf]; exact hlt)]
    rfl
  · rename_i hne
    rw [getElem?_set_ne (Ne.symm hne)]

theorem contents_pushBack (item : τ) (hpos : 0 < maxSize) :
    (r.pushBack item).contents =
      (if r.full then r.contents.tail else r.contents) ++ [item] := by
  have hsize : (r.pushBack item).size =
      if r.full then r.size else r.size + 1 := by
    rw [pushBack, if_neg (Nat.pos_iff_ne_zero.mp hpos)]
  have hlast := r.slot_size hpos
  simp only [contents, hsize, getD_pushBack r item hpos,
    slot_pushBack r item hpos]
  cases hfull : r.full with
  | false =>
    simp only [Bool.false_eq_true, if_false, range_succ,
      map_append, map_singleton, hlast, if_true]
    congr 1
    refine map_congr_left fun k hk => ?_
    rw [if_neg (r.slot_ne hpos (mem_range.mp hk) (by simp [hfull]))]
  | true =>
    obtain ⟨n, hn⟩ : ∃ n, r.size = n + 1 := by
      refine Nat.exists_eq_succ_of_ne_zero ?_
      simp only [full, beq_iff_eq] at hfull
      omega
    rw [hn] at hlast
    simp only [if_true, hn]
    rw [range_succ, map_append, map_singleton, hlast, if_pos rfl, ← range_succ,
      range_succ_eq_map, map_cons, tail_cons, map_map]
    congr 1
    refine map_congr_left fun k hk => ?_
    have hk := mem_range.mp hk
    rw [if_neg (r.slot_ne hpos (by omega) (fun _ => Nat.succ_pos k))]
    rfl

end

structure Shows (r : RingBuffer τ maxSize) (q : BoundedQueue τ) : Prop where
  contents : r.contents = q.waiting
  size : r.size = q.waiting.length
  isEmpty : r.isEmpty = q.waiting.isEmpty
  full : r.full = true ↔ q.waiting.length = maxSize
  front : ∀ item ∈ q.waiting.head?, r.front = item
  overflown : q.overflown = false

theorem Shows.of_contents {r : RingBuffer τ maxSize} {q : BoundedQueue τ}
    (h : r.contents = q.waiting) (hover : q.overflown = false) : r.Shows q where
  contents := h
  size := by simp [← h]
  isEmpty := by rw [Bool.eq_iff_iff, isEmpty_iff, h, List.isEmpty_iff]
  full := by rw [full_iff, h]
  front item hitem := by
    have hcons := r.contents_eq_cons
    rw [h] at hcons
    cases hempty : r.isEmpty with
    | true => simp_all [isEmpty_iff]
    | false => simp_all
  overflown := hover

theorem shows_step (hpos : 0 < maxSize) (r : RingBuffer τ maxSize)
    (q : BoundedQueue τ) (op : QueueOp τ) (h : r.Shows q) :
    Option.Rel Shows (r.step op) (q.step maxSize .dropOldest op) := by
  have hle := r.size_le
  cases op with
  | offer item =>
    have hpush := r.contents_pushBack item hpos
    rw [h.contents] at hpush
    rw [h.size] at hle
    rw [step, BoundedQueue.step, if_neg (by simp [h.overflown])]
    by_cases hfull : q.waiting.length = maxSize
    · rw [if_pos (h.full.mpr hfull)] at hpush
      rw [if_neg (by omega)]
      exact .some (.of_contents hpush h.overflown)
    · rw [if_neg (mt h.full.mp hfull)] at hpush
      rw [if_pos (by omega)]
      exact .some (.of_contents hpush h.overflown)
  | take =>
    rw [step, BoundedQueue.step, h.isEmpty]
    cases hq : q.waiting with
    | nil => exact .none
    | cons item rest =>
      have hpop := r.contents_eq_cons (by simp [h.isEmpty, hq])
      rw [h.contents, hq] at hpop
      exact .some (.of_contents (cons.inj hpop).2.symm h.overflown)

theorem ring_buffer_keeps_last (hpos : 0 < maxSize) (ops : List (QueueOp τ)) :
    Option.Rel Shows (exec step (empty τ maxSize) ops)
      (exec (BoundedQueue.step maxSize .dropOldest) {} ops) :=
  exec_rel (shows_step hpos) (.of_contents rfl rfl) ops

theorem ring_buffer_keeps_last_two : 0 < 2 ∧
    Option.Rel Shows (exec step (empty Nat 2) [.offer 1, .offer 2, .offer 3])
      (some ⟨[2, 3], [], false⟩) :=
  ⟨by decide, ring_buffer_keeps_last (by decide) _⟩

end RingBuffer

end ActorFramework.Flow
