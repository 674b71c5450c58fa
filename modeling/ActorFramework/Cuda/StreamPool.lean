import ActorFramework.Foundation.Transition
import Mathlib.Data.List.Nodup
import Mathlib.Data.List.Perm.Basic

/-!
# Streams of actors

`DeviceStreamTable` assigns a CUDA stream to each actor.  They come from a
`StreamPool` that creates at most `max_size_` streams and then hands out the
existing ones round-robin.  Both work under a lock, so a run is a sequence of
calls.  A stream is the number of streams that existed before it.
-/

namespace ActorFramework.Cuda

open Foundation List

inductive DriverCall where
  | cuCtxPushCurrent
  | cuCtxPopCurrent
  | cuStreamCreate

def DriverCall.name : DriverCall → String
  | .cuCtxPushCurrent => "cuCtxPushCurrent"
  | .cuCtxPopCurrent => "cuCtxPopCurrent"
  | .cuStreamCreate => "cuStreamCreate"

/-- What the driver does while a stream is created: a failed call has an error
string, which may be null. -/
abbrev Driver := Option (DriverCall × Option String)

structure StreamPool where
  availableStreams : List Nat
  allStreams : List Nat
  maxSize : Nat
  totalStreams : Nat
  inUse : Nat := 0
  rrIndex : Nat := 0

namespace StreamPool

def make (initialSize maxSize : Nat) : StreamPool :=
  let created := min initialSize maxSize
  ⟨List.range created, List.range created, maxSize, created, 0, 0⟩

variable (p : StreamPool)

def createStream : Driver → Except String Nat
  | none => .ok p.allStreams.length
  | some (call, text) =>
    .error (call.name ++ " failed: " ++ text.getD "unknown error")

def acquire (driver : Driver) : Except String (Nat × StreamPool) :=
  match p.availableStreams with
  | s :: rest =>
    .ok (s, { p with availableStreams := rest, inUse := p.inUse + 1 })
  | [] =>
    if p.totalStreams < p.maxSize then
      (p.createStream driver).map fun s =>
        (s, { p with
          allStreams := p.allStreams ++ [s]
          totalStreams := p.totalStreams + 1
          inUse := p.inUse + 1 })
    else
      match p.allStreams[p.rrIndex]? with
      | some s =>
        .ok (s, { p with
          rrIndex := (p.rrIndex + 1) % p.allStreams.length
          inUse := p.inUse + 1 })
      | none =>
        .error "StreamPool: no streams available and none were created"

def release (s : Nat) : StreamPool :=
  { p with
    availableStreams := p.availableStreams ++ [s]
    inUse := p.inUse - 1 }

inductive Acquires (p : StreamPool) (s : Nat) (q : StreamPool) : Prop
  | available (hfront : p.availableStreams = s :: q.availableStreams)
      (hall : q.allStreams = p.allStreams)
      (htotal : q.totalStreams = p.totalStreams)
  | created (hnone : p.availableStreams = [])
      (hempty : q.availableStreams = []) (hnew : s = p.allStreams.length)
      (hall : q.allStreams = p.allStreams ++ [s])
      (htotal : q.totalStreams = p.totalStreams + 1)
  | shared (hnone : p.availableStreams = [])
      (hfull : p.maxSize ≤ p.totalStreams)
      (hall : q.allStreams = p.allStreams)

theorem acquire_spec {p q : StreamPool} {driver : Driver} {s : Nat}
    (h : p.acquire driver = .ok (s, q)) : Acquires p s q := by
  unfold acquire at h
  split at h
  · rename_i hfront
    cases h
    exact .available hfront rfl rfl
  · rename_i hnone
    split_ifs at h with hfull
    · cases driver <;> cases h
      exact .created hnone hnone rfl rfl rfl
    · split at h <;> cases h
      exact .shared hnone (Nat.le_of_not_lt hfull) rfl

end StreamPool

structure DeviceStreamTable where
  pool : StreamPool
  table : List (Int × Nat) := []

namespace DeviceStreamTable

def make (poolSize : Nat) : DeviceStreamTable := ⟨.make poolSize 500, []⟩

variable (t : DeviceStreamTable)

def find (actorId : Int) : Option (Int × Nat) :=
  t.table.find? (·.1 = actorId)

def getStream (actorId : Int) (driver : Driver) :
    Except String (Nat × DeviceStreamTable) :=
  match t.find actorId with
  | some entry => .ok (entry.2, t)
  | none =>
    (t.pool.acquire driver).map fun r =>
      (r.1, ⟨r.2, t.table ++ [(actorId, r.1)]⟩)

def releaseStream (actorId : Int) : DeviceStreamTable :=
  match t.find actorId with
  | some entry =>
    ⟨t.pool.release entry.2, t.table.eraseP (·.1 = actorId)⟩
  | none => t

inductive Call where
  | getStream (actorId : Int) (driver : Driver)
  | releaseStream (actorId : Int)

/-- An exception leaves the table as it was. -/
def step : Call → Option DeviceStreamTable
  | .getStream actorId driver =>
    match t.getStream actorId driver with
    | .ok (_, next) => some next
    | .error _ => some t
  | .releaseStream actorId => some (t.releaseStream actorId)

def assigned : List Nat := t.table.map (·.2)

/-- An actor without a stream asks for one only while fewer actors hold streams
than the pool may create. -/
def Spare : Call → Prop
  | .getStream actorId _ =>
    t.find actorId = none → t.table.length < t.pool.maxSize
  | .releaseStream _ => True

structure Exclusive (t : DeviceStreamTable) : Prop where
  total : t.pool.allStreams = List.range t.pool.totalStreams
  streams :
    (t.pool.availableStreams ++ t.assigned).Perm t.pool.allStreams

variable {t : DeviceStreamTable} {actorId : Int} {driver : Driver} {s : Nat}
  {next : DeviceStreamTable}

theorem perm_of_find {entry : Int × Nat} (h : t.find actorId = some entry) :
    t.assigned.Perm
      (entry.2 :: (t.table.eraseP (·.1 = actorId)).map (·.2)) := by
  obtain ⟨hentry, before, after, htable, hbefore⟩ :=
    find?_eq_some_iff_append.mp h
  have herase : t.table.eraseP (·.1 = actorId) = before ++ after := by
    rw [htable, eraseP_append_right _ (by simpa using hbefore)]
    simp_all
  rw [herase, assigned, htable]
  simp

theorem Exclusive.nodup (h : Exclusive t) :
    (t.pool.availableStreams ++ t.assigned).Nodup := by
  rw [h.streams.nodup_iff, h.total]
  exact nodup_range

theorem getStream_spec (h : t.getStream actorId driver = .ok (s, next)) :
    (actorId, s) ∈ t.table ∧ next = t ∨
      t.find actorId = none ∧ next.table = t.table ++ [(actorId, s)] ∧
        t.pool.Acquires s next.pool := by
  unfold getStream at h
  split at h
  · rename_i entry hfind
    cases h
    have hkey : entry.1 = actorId := by simpa using find?_some hfind
    subst hkey
    exact .inl ⟨mem_of_find?_eq_some hfind, rfl⟩
  · rename_i hfind
    cases hacq : t.pool.acquire driver with
    | error what => simp [hacq, Except.map] at h
    | ok r =>
      rw [hacq] at h
      cases h
      exact .inr ⟨hfind, rfl, StreamPool.acquire_spec hacq⟩

theorem Exclusive.getStream (h : Exclusive t)
    (hspare : t.Spare (.getStream actorId driver))
    (hget : t.getStream actorId driver = .ok (s, next)) : Exclusive next := by
  rcases getStream_spec hget with ⟨-, rfl⟩ | ⟨hfind, htable, hacquires⟩
  · exact h
  · have hstreams := h.streams
    have hassigned : next.assigned = t.assigned ++ [s] := by
      simp [assigned, htable]
    cases hacquires with
    | available hfront hall htotal =>
      refine ⟨by rw [hall, htotal, h.total], ?_⟩
      rw [hall, hassigned, ← append_assoc]
      rw [hfront] at hstreams
      exact (perm_append_singleton _ _).trans hstreams
    | created hnone hempty hnew hall htotal =>
      have hlen : s = t.pool.totalStreams := by
        rw [hnew, h.total, length_range]
      refine ⟨by rw [hall, htotal, range_succ, h.total, hlen], ?_⟩
      rw [hall, hassigned, hempty]
      rw [hnone] at hstreams
      exact hstreams.append_right _
    | shared hnone hfull hall =>
      -- all streams are assigned, so the table has as many entries
      have hlen := hstreams.length_eq
      rw [hnone, h.total, length_range] at hlen
      have hroom := hspare hfind
      simp only [nil_append, assigned, length_map] at hlen
      omega

theorem Exclusive.releaseStream (h : Exclusive t) (actorId : Int) :
    Exclusive (t.releaseStream actorId) := by
  unfold DeviceStreamTable.releaseStream
  split
  · rename_i entry hfind
    refine ⟨h.total, List.Perm.trans ?_ h.streams⟩
    simp only [StreamPool.release, append_assoc]
    exact (perm_of_find hfind).symm.append_left _
  · exact h

theorem step_exclusive (t : DeviceStreamTable) (call : Call)
    (next : DeviceStreamTable) (h : Exclusive t) (hspare : t.Spare call)
    (hstep : t.step call = some next) : Exclusive next := by
  cases call with
  | getStream actorId driver =>
    cases hget : t.getStream actorId driver with
    | error what =>
      simp only [step, hget, Option.some.injEq] at hstep
      rwa [← hstep]
    | ok r =>
      simp only [step, hget, Option.some.injEq] at hstep
      rw [← hstep]
      exact h.getStream hspare hget
  | releaseStream actorId =>
    cases hstep
    exact h.releaseStream actorId

/-- While no more actors hold streams than the pool may create, no available
stream is listed twice or assigned, and whoever gets a stream while one is
unassigned gets one that no other actor holds. -/
theorem streams_exclusive {poolSize : Nat} {calls : List Call}
    (hrun : exec step (make poolSize) calls = some t)
    (hspare : Along step Spare (make poolSize) calls) :
    t.pool.availableStreams.Nodup ∧
      (∀ s ∈ t.pool.availableStreams, s ∉ t.assigned) ∧
      ∀ actorId driver s next,
        t.getStream actorId driver = .ok (s, next) →
        (∃ free ∈ next.pool.allStreams, free ∉ t.assigned) →
        ∀ other, other ≠ actorId → (other, s) ∉ t.table := by
  have hmake : Exclusive (make poolSize) :=
    ⟨rfl, by simp [make, StreamPool.make, assigned]⟩
  have h := exec_invariant_along Exclusive step_exclusive hmake hspare hrun
  obtain ⟨havailable, hassigned, hapart⟩ := List.nodup_append.mp h.nodup
  have hfree : ∀ s ∈ t.pool.availableStreams, s ∉ t.assigned :=
    fun s hs hmem => hapart s hs s hmem rfl
  refine ⟨havailable, hfree, fun actorId driver s next hget hsome other hne
    hother => ?_⟩
  have hheld : s ∈ t.assigned := List.mem_map.mpr ⟨_, hother, rfl⟩
  rcases getStream_spec hget with ⟨hmem, rfl⟩ | ⟨-, -, hacquires⟩
  · have heq := List.inj_on_of_nodup_map hassigned hmem hother rfl
    exact hne (Prod.mk.inj heq).1.symm
  · cases hacquires with
    | available hfront => exact hfree s (by simp [hfront]) hheld
    | created hnone hempty hnew =>
      have hmem := h.streams.subset (List.mem_append_right _ hheld)
      rw [h.total, List.mem_range] at hmem
      rw [h.total, List.length_range] at hnew
      omega
    | shared hnone hfull hall =>
      obtain ⟨free, hmem, hnot⟩ := hsome
      rw [hall] at hmem
      have hany := h.streams.symm.subset hmem
      rw [hnone] at hany
      exact hnot hany

theorem streams_exclusive_two :
    ∃ t, exec step (make 1)
        [.getStream 7 none, .getStream 8 none, .releaseStream 7] = some t ∧
      t.table = [(8, 1)] ∧ t.pool.availableStreams.Nodup := by
  refine ⟨?t, ?hrun, ?_, (streams_exclusive ?hrun ?_).1⟩
  case hrun => rfl
  · rfl
  · exact ⟨fun _ => by decide, fun _ => by decide, trivial, trivial⟩

def crowd (n : Nat) : List Call :=
  (List.range n).map fun i : Nat => .getStream i none

def full (n : Nat) : DeviceStreamTable :=
  ⟨⟨[], List.range n, 500, n, n, 0⟩,
    (List.range n).map fun i : Nat => (i, i)⟩

theorem crowd_succ (n : Nat) :
    crowd (n + 1) = crowd n ++ [.getStream n none] := by
  rw [crowd, range_succ, map_append]
  rfl

theorem exec_crowd {n : Nat} (h : n < 500) :
    exec step (make 1) (crowd (n + 1)) = some (full (n + 1)) := by
  induction n with
  | zero => rfl
  | succ n ih =>
    rw [crowd_succ]
    refine exec_append (ih (Nat.lt_of_succ_lt h)) ?_
    have hfind : (full (n + 1)).find (n + 1 : Nat) = none := by
      simp [full, find]
      omega
    simp only [exec, step, getStream, hfind]
    simp [full, StreamPool.acquire, h, StreamPool.createStream, Except.map,
      range_succ]

theorem shared_stream_available :
    ∃ t, exec step (make 1)
        (crowd 501 ++ [.releaseStream 500, .releaseStream 1]) = some t ∧
      t.pool.availableStreams = [0, 1] ∧ t.find 0 = some (0, 0) ∧
      (t.getStream 501 none).toOption.map (·.1) = some 0 := by
  have hlast : (exec step (full 500)
      [.getStream 500 none, .releaseStream 500, .releaseStream 1]).map (fun t =>
        (t.pool.availableStreams, t.find 0,
          (t.getStream 501 none).toOption.map (·.1))) =
      some ([0, 1], some (0, 0), some 0) := by
    decide +kernel
  obtain ⟨t, hrest, ht⟩ := Option.map_eq_some_iff.mp hlast
  simp only [Prod.mk.injEq] at ht
  refine ⟨t, ?_, ht⟩
  rw [crowd_succ, List.append_assoc]
  exact exec_append (exec_crowd (by decide)) hrest

end DeviceStreamTable

end ActorFramework.Cuda
