import ActorFramework.Async.PromiseCounter
import ActorFramework.Foundation.Table

/-!
# Cells are satisfied once

A cell keeps its first value, every callback is run once after that, and a
cell without a value has a promise, provided that no assignment drops the
pointer of a promise whose cell has no value yet.
-/

namespace ActorFramework.Async

open Foundation List Function

variable {α : Type*}

def HandlePc.events : HandlePc → List CellEvent
  | .setting events => events
  | .draining events => events
  | _ => []

namespace PromiseSystem

def inHand (s : PromiseSystem α) (k : Nat) : Nat :=
  (s.handles.map fun handle =>
    handle.pc.events.countP (·.callback == k)).sum

/-- How often the callback ran, waits in a context or is about to be handed
to one. -/
def copies (s : PromiseSystem α) (k : Nat) : Nat :=
  s.ran.count k + s.queue.count k + s.inHand k

def waiting (s : PromiseSystem α) (c k : Nat) : Nat :=
  (s.cells c).events.countP (·.callback == k)

structure Callbacks (s : PromiseSystem α) : Prop where
  located : ∀ k c, s.subscribed[k]? = some c → s.copies k + s.waiting c k = 1
  fresh : ∀ k, s.subscribed.length ≤ k → s.copies k = 0
  own : ∀ c, ∀ event ∈ (s.cells c).events,
    s.subscribed[event.callback]? = some c
  quiet : ∀ c, (s.cells c).value ≠ .none → (s.cells c).events = []
  early : ∀ k c, s.subscribed[k]? = some c → (s.cells c).value = .none →
    s.copies k = 0

theorem callbacks_initial : Callbacks (initial : PromiseSystem α) where
  located _ _ hk := nomatch hk
  fresh _ _ := rfl
  own _ _ hevent := nomatch hevent
  quiet _ _ := rfl
  early _ _ hk := nomatch hk

variable {s t : PromiseSystem α} {new : PromiseHandle}
  {action : PromiseAction α} {c : Nat} {actions : List (PromiseAction α)}

theorem inHand_set {h : Nat} {old : PromiseHandle}
    (hh : s.handles[h]? = some old) (hhandles : t.handles = s.handles.set h new)
    (k : Nat) :
    t.inHand k + old.pc.events.countP (·.callback == k) =
      s.inHand k + new.pc.events.countP (·.callback == k) := by
  unfold inHand
  rw [hhandles]
  exact sum_map_set _ hh new

theorem inHand_replace {h : Nat} {old : PromiseHandle}
    (hh : s.handles[h]? = some old) (hhandles : t.handles = s.handles.set h new)
    (hevs : new.pc.events = old.pc.events) (k : Nat) :
    t.inHand k = s.inHand k := by
  have hset := inHand_set hh hhandles k
  rw [hevs] at hset
  omega

theorem inHand_append (hhandles : t.handles = s.handles ++ [new])
    (hevs : new.pc.events = []) (k : Nat) : t.inHand k = s.inHand k := by
  simp [inHand, hhandles, hevs]

namespace Callbacks

variable {s t : PromiseSystem α}

variable {c : Nat}

theorem waiting_eq_zero (hs : Callbacks s) {k : Nat}
    (hk : s.subscribed[k]? ≠ some c) : s.waiting c k = 0 := by
  refine countP_eq_zero.mpr fun event hevent hcallback => hk ?_
  rw [← eq_of_beq hcallback]
  exact hs.own c event hevent

theorem keeps (hs : Callbacks s) (hsub : t.subscribed = s.subscribed)
    (hcells : ∀ c, (t.cells c).value = (s.cells c).value ∧
      (t.cells c).events = (s.cells c).events)
    (hcopies : ∀ k, t.copies k = s.copies k) : Callbacks t where
  located k c := by
    rw [hsub, hcopies, waiting, (hcells c).2]
    exact hs.located k c
  fresh k := by
    rw [hsub, hcopies]
    exact hs.fresh k
  own c := by
    rw [hsub, (hcells c).2]
    exact hs.own c
  quiet c := by
    rw [(hcells c).1, (hcells c).2]
    exact hs.quiet c
  early k c := by
    rw [hsub, (hcells c).1, hcopies]
    exact hs.early k c

theorem keeps_handles (hs : Callbacks s)
    (hsub : t.subscribed = s.subscribed)
    (hqueue : t.queue = s.queue) (hran : t.ran = s.ran)
    (hcells : ∀ c, (t.cells c).value = (s.cells c).value ∧
      (t.cells c).events = (s.cells c).events)
    (hhand : ∀ k, t.inHand k = s.inHand k) : Callbacks t :=
  hs.keeps hsub hcells fun k => by
    rw [copies, copies, hqueue, hran, hhand]

variable {h : Nat} {old : PromiseHandle}

section

variable (hs : Callbacks s)
include hs

theorem take {cell : AsyncCell α} (hh : s.handles[h]? = some old)
    (hold : old.pc.events = []) (hnew : new.pc.events = (s.cells c).events)
    (hempty : (s.cells c).value = .none) (hval : cell.value ≠ .none)
    (hevs : cell.events = []) (hsub : t.subscribed = s.subscribed)
    (hqueue : t.queue = s.queue) (hran : t.ran = s.ran)
    (hhandles : t.handles = s.handles.set h new)
    (hcells : t.cells = update s.cells c cell) : Callbacks t := by
  have hcopies : ∀ k, t.copies k = s.copies k + s.waiting c k := by
    intro k
    have hset := inHand_set hh hhandles k
    rw [hold, hnew, countP_nil, ← waiting] at hset
    rw [copies, copies, hqueue, hran]
    omega
  have hother : ∀ {k d}, s.subscribed[k]? = some d → d ≠ c →
      s.waiting c k = 0 := by
    intro k d hk hd
    refine hs.waiting_eq_zero fun heq => hd ?_
    rw [hk] at heq
    exact Option.some.inj heq
  refine ⟨?_, ?_, ?_, ?_, ?_⟩
  · intro k d hk
    rw [hsub] at hk
    have hlocated := hs.located k d hk
    rw [hcopies]
    by_cases hd : d = c
    · have hleft : t.waiting d k = 0 := by
        rw [waiting, hcells, hd, update_self, hevs]
        rfl
      rw [hleft, ← hd]
      exact hlocated
    · have hleft : t.waiting d k = s.waiting d k := by
        rw [waiting, hcells, update_of_ne hd]
        rfl
      rw [hleft, hother hk hd]
      exact hlocated
  · intro k hk
    rw [hsub] at hk
    rw [hcopies, hs.fresh k hk, hs.waiting_eq_zero]
    simp [getElem?_eq_none hk]
  · intro d event hevent
    rw [hcells] at hevent
    rw [hsub]
    by_cases hd : d = c
    · rw [hd, update_self, hevs] at hevent
      cases hevent
    · rw [update_of_ne hd] at hevent
      exact hs.own d event hevent
  · intro d hset
    rw [hcells] at hset ⊢
    by_cases hd : d = c
    · rw [hd, update_self, hevs]
    · rw [update_of_ne hd] at hset ⊢
      exact hs.quiet d hset
  · intro k d hk hnone
    rw [hsub] at hk
    have hd : d ≠ c := by
      rintro rfl
      rw [hcells, update_self] at hnone
      exact hval hnone
    rw [hcells, update_of_ne hd] at hnone
    rw [hcopies, hs.early k d hk hnone, hother hk hd]

theorem enroll (hsub : t.subscribed = s.subscribed ++ [c])
    (hval : ∀ d, (t.cells d).value = (s.cells d).value)
    (hevs : ∀ d, ∀ event ∈ (t.cells d).events, event ∈ (s.cells d).events ∨
      (d = c ∧ event.callback = s.subscribed.length))
    (hquiet : ∀ d, (s.cells d).value ≠ .none → (t.cells d).events = (s.cells
      d).events)
    (hcopies : ∀ k, k ≠ s.subscribed.length → t.copies k = s.copies k)
    (hwait : ∀ k d, k ≠ s.subscribed.length → t.waiting d k = s.waiting d k)
    (hnew : t.copies s.subscribed.length + t.waiting c s.subscribed.length = 1)
    (hearly : (s.cells c).value = .none → t.copies s.subscribed.length = 0) :
    Callbacks t := by
  have hold : ∀ {k d}, t.subscribed[k]? = some d →
      k = s.subscribed.length ∧ d = c ∨
        k ≠ s.subscribed.length ∧ s.subscribed[k]? = some d := by
    intro k d hk
    rw [hsub] at hk
    rcases getElem?_concat_cases hk with hlookup | hlast
    · have hlt := (List.getElem?_eq_some_iff.mp hlookup).1
      exact Or.inr ⟨by omega, hlookup⟩
    · exact Or.inl hlast
  refine ⟨?_, ?_, ?_, ?_, ?_⟩
  · intro k d hk
    rcases hold hk with ⟨rfl, rfl⟩ | ⟨hne, hk⟩
    · exact hnew
    · rw [hcopies k hne, hwait k d hne]
      exact hs.located k d hk
  · intro k hk
    rw [hsub, length_append, length_singleton] at hk
    rw [hcopies k (by omega)]
    exact hs.fresh k (by omega)
  · intro d event hevent
    rw [hsub]
    rcases hevs d event hevent with hmem | ⟨rfl, hcallback⟩
    · exact getElem?_concat_of_some c (hs.own d event hmem)
    · rw [hcallback]
      simp
  · intro d hset
    rw [hval] at hset
    rw [hquiet d hset]
    exact hs.quiet d hset
  · intro k d hk hnone
    rw [hval] at hnone
    rcases hold hk with ⟨rfl, rfl⟩ | ⟨hne, hk⟩
    · exact hearly hnone
    · rw [hcopies k hne]
      exact hs.early k d hk hnone

theorem fresh_waiting (c : Nat) : s.waiting c s.subscribed.length = 0 :=
  hs.waiting_eq_zero (by simp)

theorem subscribe {listener : Option Nat} (hempty : (s.cells c).value = .none)
    (hsub : t.subscribed = s.subscribed ++ [c]) (hcopies : t.copies = s.copies)
    (hcells : t.cells = update s.cells c
      { s.cells c with
        events :=
          (s.cells c).events ++ [⟨listener, s.subscribed.length⟩] }) :
    Callbacks t := by
  have hself : (t.cells c).value = (s.cells c).value ∧
      (t.cells c).events =
        (s.cells c).events ++ [⟨listener, s.subscribed.length⟩] := by
    rw [hcells, update_self]
    exact ⟨rfl, rfl⟩
  have hother : ∀ d, d ≠ c → t.cells d = s.cells d := by
    intro d hd
    rw [hcells, update_of_ne hd]
  have hfresh := hs.fresh _ le_rfl
  refine hs.enroll hsub ?_ ?_ ?_ (fun k _ => congrFun hcopies k) ?_ ?_
    (fun _ => (congrFun hcopies _).trans hfresh)
  · intro d
    by_cases hd : d = c
    · rw [hd, hself.1]
    · rw [hother d hd]
  · intro d event hevent
    by_cases hd : d = c
    · subst hd
      rw [hself.2, mem_append, mem_singleton] at hevent
      exact hevent.imp_right fun heq => ⟨rfl, congrArg CellEvent.callback heq⟩
    · rw [hother d hd] at hevent
      exact Or.inl hevent
  · intro d hset
    have hd : d ≠ c := by
      rintro rfl
      exact hset hempty
    rw [hother d hd]
  · intro k d hk
    unfold waiting
    by_cases hd : d = c
    · rw [hd, hself.2]
      simp [hk.symm]
    · rw [hother d hd]
  · have hzero := hs.fresh_waiting c
    unfold waiting at hzero ⊢
    rw [hcopies, hfresh, hself.2, countP_append, hzero]
    simp

theorem scheduled (hset : (s.cells c).value ≠ .none) :
    Callbacks
      { s with
        subscribed := s.subscribed ++ [c]
        queue := s.queue ++ [s.subscribed.length] } := by
  refine hs.enroll rfl (fun _ => rfl) (fun _ _ => Or.inl) (fun _ _ => rfl)
    ?_ (fun _ _ _ => rfl) ?_ (fun hnone => absurd hnone hset)
  · intro k hk
    simp [copies, inHand, hk.symm]
  · have hzero := hs.fresh_waiting c
    have hcopies := hs.fresh _ le_rfl
    simp only [copies, waiting, inHand, count_append,
      count_singleton_self] at hzero hcopies ⊢
    omega

theorem runScheduled {i callback : Nat} (hi : s.queue[i]? = some callback) :
    Callbacks
      { s with
        queue := s.queue.eraseIdx i, ran := s.ran ++ [callback] } := by
  refine hs.keeps rfl (fun _ => ⟨rfl, rfl⟩) fun k => ?_
  obtain ⟨hlt, hget⟩ := List.getElem?_eq_some_iff.mp hi
  have hperm := getElem_cons_eraseIdx_perm hlt
  have hcount := hperm.count_eq k
  rw [hget, count_cons] at hcount
  simp only [copies, inHand, count_append, count_singleton]
  omega

theorem dispatch {event : CellEvent} {events : List CellEvent}
    (hh : s.handles[h]? = some old) (hold : old.pc.events = event :: events)
    (hnew : new.pc.events = events) :
    Callbacks ((s.dispatch event).setHandle h new) := by
  obtain ⟨hcells, -, hhandles, hsub⟩ := s.dispatch_frame event
  refine hs.keeps hsub (fun c => ?_) fun k => ?_
  · exact ⟨congrArg (fun f => (f c).value) hcells,
      congrArg (fun f => (f c).events) hcells⟩
  · have hset := inHand_set (t := (s.dispatch event).setHandle h new) hh
      (congrArg (List.set · h new) hhandles) k
    rw [hold, hnew, countP_cons] at hset
    have hmoved : ((s.dispatch event).setHandle h new).ran.count k +
        ((s.dispatch event).setHandle h new).queue.count k =
        s.ran.count k + s.queue.count k +
          if event.callback == k then 1 else 0 := by
      simp only [PromiseSystem.dispatch, setHandle]
      split
      · simp only [count_append, count_singleton]
        omega
      · simp only [count_append, count_singleton]
        omega
    unfold copies
    omega

end

end Callbacks

theorem Callbacks.step (hs : Callbacks s) (h : Moves s action t) :
    Callbacks t := by
  have hcounter : ∀ {c : Nat} {n : Nat} (d : Nat),
      (update s.cells c { s.cells c with promises := n } d).value =
          (s.cells d).value ∧
        (update s.cells c { s.cells c with promises := n }
          d).events = (s.cells d).events := by
    exact fun d => ⟨update_field AsyncCell.value (by rfl) d,
      update_field AsyncCell.events (by rfl) d⟩
  have hsame : ∀ d, (s.cells d).value = (s.cells d).value ∧
      (s.cells d).events = (s.cells d).events := fun _ => ⟨rfl, rfl⟩
  cases h with
  | idle => exact hs
  | construct | copy hsrc =>
    exact hs.keeps_handles rfl rfl rfl hsame (inHand_append rfl rfl)
  | fetchAdd hh | subLast hh hlast | subShared hh hshared =>
    exact hs.keeps_handles rfl rfl rfl hcounter (inHand_replace hh rfl rfl)
  | @move source cell hsrc =>
    refine hs.keeps_handles rfl rfl rfl hsame fun k => ?_
    rw [inHand_append (s := s.setHandle source ⟨none, .idle⟩) rfl rfl]
    exact inHand_replace hsrc rfl (by rfl) k
  | @assign target source old cell hne htarget hsrc =>
    refine hs.keeps_handles rfl rfl rfl hsame fun k => ?_
    have htarget' : (s.setHandle source ⟨none, .idle⟩).handles[target]? =
        some ⟨old, .idle⟩ := by
      rw [setHandle, getElem?_set_ne (Ne.symm hne), htarget]
    exact (inHand_replace htarget' rfl (by rfl) k).trans
      (inHand_replace hsrc rfl (by rfl) k)
  | satisfy hsets hwhat hh hempty =>
    exact hs.take hh rfl rfl hempty hwhat rfl rfl rfl rfl rfl rfl
  | close hh | last hh hlast | shared hh hshared | late hh hset
  | leaveSetting hh | leaveDraining hh =>
    exact hs.keeps_handles rfl rfl rfl hsame (inHand_replace hh rfl rfl)
  | broke hh hempty =>
    exact hs.take hh rfl rfl hempty (by simp) rfl rfl rfl rfl rfl rfl
  | runSetting hh => exact hs.dispatch hh rfl rfl
  | runDraining hh => exact hs.dispatch hh rfl rfl
  | subscribe hc hempty => exact hs.subscribe hempty rfl rfl rfl
  | scheduled hc hset => exact hs.scheduled hset
  | runScheduled hi => exact hs.runScheduled hi

theorem Moves.unset (h : Moves s action t) (hunset : action.sets = false)
    (hc : (s.cells c).value = .none) :
    (t.cells c).value = .none ∨ (t.cells c).value = .brokenPromise := by
  have hupdate : ∀ {d : Nat} {cell : AsyncCell α},
      cell.value = (s.cells d).value ∨ cell.value = .brokenPromise →
      (update s.cells d cell c).value = .none ∨
        (update s.cells d cell c).value = .brokenPromise := by
    intro d cell hcell
    by_cases hd : c = d
    · subst hd
      rw [update_self, ← hc]
      exact hcell
    · rw [update_of_ne hd]
      exact Or.inl hc
  cases h with
  | fetchAdd hh | subLast hh hlast | subShared hh hshared
  | subscribe hc' hempty => exact hupdate (Or.inl rfl)
  | satisfy hsets hwhat hh hempty =>
    exact absurd (hunset.symm.trans hsets) Bool.false_ne_true
  | broke hh hempty => exact hupdate (Or.inr rfl)
  | runSetting hh =>
    refine Or.inl ?_
    rw [setHandle, (s.dispatch_frame _).1]
    exact hc
  | runDraining hh =>
    refine Or.inl ?_
    rw [setHandle, (s.dispatch_frame _).1]
    exact hc
  | _ => exact Or.inl hc

theorem exec_unset (hrun : exec step s actions = some t)
    (hunset : ∀ action ∈ actions, action.sets = false)
    (hc : (s.cells c).value = .none) :
    (t.cells c).value = .none ∨ (t.cells c).value = .brokenPromise := by
  induction actions generalizing s with
  | nil =>
    cases hrun
    exact Or.inl hc
  | cons action actions ih =>
    obtain ⟨u, hfirst, hrest⟩ := exec_cons_eq_some.mp hrun
    have hlater : ∀ other ∈ actions, other.sets = false :=
      fun other hother => hunset other (mem_cons_of_mem _ hother)
    rcases (step_moves hfirst).unset (hunset action mem_cons_self) hc
      with hnone | hbroken
    · exact ih hrest hlater hnone
    · refine Or.inr ?_
      have hstays := exec_invariant
        (fun v : PromiseSystem α => (v.cells c).value = .brokenPromise)
        (fun v a w hv hstep => ?_) hbroken hrest
      · exact hstays
      · exact ((step_moves hstep).value_stays (by simp [hv])).trans hv

theorem exec_value_stays (hrun : exec step s actions = some t)
    (hc : (s.cells c).value ≠ .none) : (t.cells c).value = (s.cells c).value :=
  exec_invariant (fun u => (u.cells c).value = (s.cells c).value)
    (fun _ _ _ hu hstep =>
      ((step_moves hstep).value_stays (by rwa [hu])).trans hu) rfl hrun

theorem Moves.created_le (h : Moves s action t) : s.created ≤ t.created := by
  cases h with
  | construct => exact Nat.le_succ _
  | runSetting hh | runDraining hh =>
    exact Nat.le_of_eq (by rw [setHandle, (s.dispatch_frame _).2.1])
  | _ => exact le_rfl

theorem run_tracked (hrun : exec step initial actions = some s)
    (hretains : Along step Retains initial actions) : Tracked s :=
  exec_invariant_along Tracked
    (fun _ _ _ hs hguard hstep => hs.step hguard (step_moves hstep))
    tracked_initial hretains hrun

end PromiseSystem

open PromiseSystem in
/-- A cell keeps its first value.  No callback runs before it, and afterwards
each one has run, waits in its context or is about to be handed over, once in
total.  As long as no assignment drops the pointer to a cell without a value, a
cell that no promise refers to has a value, `broken_promise` unless a promise
was given one. -/
theorem promise_cell_satisfied_once {s t : PromiseSystem α}
    {actions later : List (PromiseAction α)}
    (hrun : exec step initial actions = some s)
    (hlater : exec step s later = some t) (c : Nat) (hc : c < s.created) :
    ((s.cells c).value ≠ .none → (t.cells c).value = (s.cells c).value) ∧
    (∀ k, s.subscribed[k]? = some c →
      ((s.cells c).value = .none → s.ran.count k = 0) ∧
      ((s.cells c).value ≠ .none →
        s.ran.count k + s.queue.count k + s.inHand k = 1)) ∧
    (Along step Retains initial (actions ++ later) →
      (∀ handle ∈ t.handles, handle.cell ≠ some c) →
      (t.cells c).value ≠ .none ∧
        ((s.cells c).value = .none →
          (∀ action ∈ later, action.sets = false) →
          (t.cells c).value = .brokenPromise)) := by
  have hcreated : s.created ≤ t.created :=
    exec_relation (R := fun u v : PromiseSystem α => u.created ≤ v.created)
      (fun _ => le_rfl) (fun _ _ _ => Nat.le_trans)
      (fun _ _ _ hstep => (step_moves hstep).created_le) hlater
  refine ⟨exec_value_stays hlater, fun k hk => ?_, fun hretains horphan => ?_⟩
  · have hcallbacks := exec_invariant Callbacks
      (fun _ _ _ hs hstep => hs.step (step_moves hstep)) callbacks_initial hrun
    constructor
    · intro hnone
      have hearly := hcallbacks.early k c hk hnone
      unfold copies at hearly
      omega
    · intro hset
      have hlocated := hcallbacks.located k c hk
      rw [waiting, hcallbacks.quiet c hset, List.countP_nil] at hlocated
      exact hlocated
  · have htracked := run_tracked (exec_append hrun hlater) hretains
    have hset : (t.cells c).value ≠ .none := by
      intro hnone
      obtain ⟨handle, hhandle, hkept⟩ := List.countP_pos_iff.mp
        (htracked.alive c (Nat.lt_of_lt_of_le hc hcreated) hnone)
      simp only [PromiseHandle.kept, Bool.and_eq_true, beq_iff_eq] at hkept
      exact horphan handle hhandle hkept.1
    refine ⟨hset, fun hnone hunset => ?_⟩
    exact (exec_unset hlater hunset hnone).resolve_left hset

open PromiseSystem in
theorem promise_cell_satisfied_once_destroyed :
    ∃ s t : PromiseSystem Nat,
      exec step initial [.construct, .subscribe 0 (some 7)] = some s ∧
      exec step s [.destroy 0, .breakPromise 0, .run 0, .leave 0,
        .runScheduled 0] = some t ∧
      (t.cells 0).value = .brokenPromise ∧ t.ran = [0] := by
  refine ⟨_, _, rfl, rfl, ?_, rfl⟩
  have hfirst : exec step (initial : PromiseSystem Nat)
      [.construct, .subscribe 0 (some 7)] = some _ := rfl
  have hcell := @promise_cell_satisfied_once Nat _ _ _
    [.destroy 0, .breakPromise 0, .run 0, .leave 0, .runScheduled 0] hfirst
    rfl 0 (by decide)
  refine (hcell.2.2 ?_ (by decide)).2 rfl (by decide)
  exact ⟨trivial, trivial, trivial, trivial, trivial, trivial, trivial, trivial⟩

open PromiseSystem in
/-- A copy is moved back onto the original.  The counter stays at two, so the
destructor of the one promise that is left does not break the promise, and
the callback waits forever. -/
theorem promise_move_assignment_leaks_cell :
    ∃ s : PromiseSystem Nat,
      exec step initial [.construct, .copy 0, .fetchAdd 1,
        .subscribe 0 (some 7), .moveAssign 0 1, .destroy 1, .destroy 0,
        .fetchSub 0] = some s ∧
      (∀ handle ∈ s.handles, handle.pc = .gone) ∧
      (∀ handle ∈ s.handles, handle.cell ≠ some 0) ∧
      s.subscribed[0]? = some 0 ∧ (s.cells 0).value = .none ∧
      s.ran = [] ∧ s.queue = [] :=
  ⟨_, rfl, by decide, by decide, rfl, rfl, rfl, rfl⟩

end ActorFramework.Async
