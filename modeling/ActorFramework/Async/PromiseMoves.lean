import ActorFramework.Async.Promise

/-!
# What a promise can do next

`Moves` lists what one step of a program over promises can do.  The invariants
of the counter and of the callbacks are proved from this relation only.
-/

namespace ActorFramework.Async

variable {α : Type*}

def PromiseAction.sets : PromiseAction α → Bool
  | .setValue _ _ => true
  | .setError _ _ => true
  | _ => false

namespace PromiseSystem

inductive Moves (s : PromiseSystem α) :
    PromiseAction α → PromiseSystem α → Prop
  | idle {action : PromiseAction α} : Moves s action s
  | construct :
      Moves s .construct
        { s with
          created := s.created + 1
          handles := s.handles ++ [⟨some s.created, .idle⟩] }
  | copy {source c : Nat}
      (hsource : s.handles[source]? = some ⟨some c, .idle⟩) :
      Moves s (.copy source)
        { s with handles := s.handles ++ [⟨some c, .copying source⟩] }
  | fetchAdd {h c source : Nat}
      (hh : s.handles[h]? = some ⟨some c, .copying source⟩) :
      Moves s (.fetchAdd h)
        ((s.setCell c
          { s.cells c with promises := (s.cells c).promises + 1 }).setHandle h
            ⟨some c, .idle⟩)
  | move {source : Nat} {cell : Option Nat}
      (hsource : s.handles[source]? = some ⟨cell, .idle⟩) :
      Moves s (.move source)
        { s with
          handles := s.handles.set source ⟨none, .idle⟩ ++ [⟨cell, .idle⟩] }
  | assign {target source : Nat} {old cell : Option Nat}
      (hne : target ≠ source)
      (htarget : s.handles[target]? = some ⟨old, .idle⟩)
      (hsource : s.handles[source]? = some ⟨cell, .idle⟩) :
      Moves s (.moveAssign target source)
        ((s.setHandle source ⟨none, .idle⟩).setHandle target ⟨cell, .idle⟩)
  | satisfy {action : PromiseAction α} {h c : Nat} {what : CellValue α}
      (hsets : action.sets = true) (hwhat : what ≠ .none)
      (hh : s.handles[h]? = some ⟨some c, .idle⟩)
      (hempty : (s.cells c).value = .none) :
      Moves s action
        ((s.setCell c { s.cells c with value := what, events := [] }).setHandle
          h ⟨some c, .setting (s.cells c).events⟩)
  | close {h : Nat} (hh : s.handles[h]? = some ⟨none, .idle⟩) :
      Moves s (.destroy h) (s.setHandle h ⟨none, .gone⟩)
  | last {h c : Nat} (hh : s.handles[h]? = some ⟨some c, .idle⟩)
      (hlast : (s.cells c).promises = 1) :
      Moves s (.destroy h) (s.setHandle h ⟨some c, .breaking⟩)
  | shared {h c : Nat} (hh : s.handles[h]? = some ⟨some c, .idle⟩)
      (hshared : (s.cells c).promises ≠ 1) :
      Moves s (.destroy h) (s.setHandle h ⟨some c, .releasing⟩)
  | subLast {h c : Nat} (hh : s.handles[h]? = some ⟨some c, .releasing⟩)
      (hlast : (s.cells c).promises = 1) :
      Moves s (.fetchSub h)
        ((s.setCell c
          { s.cells c with promises := (s.cells c).promises - 1 }).setHandle h
            ⟨some c, .breaking⟩)
  | subShared {h c : Nat} (hh : s.handles[h]? = some ⟨some c, .releasing⟩)
      (hshared : (s.cells c).promises ≠ 1) :
      Moves s (.fetchSub h)
        ((s.setCell c
          { s.cells c with promises := (s.cells c).promises - 1 }).setHandle h
            ⟨none, .gone⟩)
  | broke {h c : Nat} (hh : s.handles[h]? = some ⟨some c, .breaking⟩)
      (hempty : (s.cells c).value = .none) :
      Moves s (.breakPromise h)
        ((s.setCell c
          { s.cells c with value := .brokenPromise, events := [] }).setHandle h
            ⟨some c, .draining (s.cells c).events⟩)
  | late {h c : Nat} (hh : s.handles[h]? = some ⟨some c, .breaking⟩)
      (hset : (s.cells c).value ≠ .none) :
      Moves s (.breakPromise h) (s.setHandle h ⟨some c, .draining []⟩)
  | runSetting {h : Nat} {cell : Option Nat} {event : CellEvent}
      {events : List CellEvent}
      (hh : s.handles[h]? = some ⟨cell, .setting (event :: events)⟩) :
      Moves s (.run h) ((s.dispatch event).setHandle h ⟨cell, .setting events⟩)
  | runDraining {h : Nat} {cell : Option Nat} {event : CellEvent}
      {events : List CellEvent}
      (hh : s.handles[h]? = some ⟨cell, .draining (event :: events)⟩) :
      Moves s (.run h) ((s.dispatch event).setHandle h ⟨cell, .draining events⟩)
  | leaveSetting {h : Nat} {cell : Option Nat}
      (hh : s.handles[h]? = some ⟨cell, .setting []⟩) :
      Moves s (.leave h) (s.setHandle h ⟨none, .idle⟩)
  | leaveDraining {h : Nat} {cell : Option Nat}
      (hh : s.handles[h]? = some ⟨cell, .draining []⟩) :
      Moves s (.leave h) (s.setHandle h ⟨none, .gone⟩)
  | subscribe {c : Nat} {listener : Option Nat} (hc : c < s.created)
      (hempty : (s.cells c).value = .none) :
      Moves s (.subscribe c listener)
        { s.setCell c
            { s.cells c with
              events :=
                (s.cells c).events ++ [⟨listener, s.subscribed.length⟩] } with
          subscribed := s.subscribed ++ [c] }
  | scheduled {c : Nat} {listener : Option Nat} (hc : c < s.created)
      (hset : (s.cells c).value ≠ .none) :
      Moves s (.subscribe c listener)
        { s with
          subscribed := s.subscribed ++ [c]
          queue := s.queue ++ [s.subscribed.length] }
  | runScheduled {i callback : Nat} (hi : s.queue[i]? = some callback) :
      Moves s (.runScheduled i)
        { s with queue := s.queue.eraseIdx i, ran := s.ran ++ [callback] }

variable {s t : PromiseSystem α} {h c : Nat} {action : PromiseAction α}

theorem acquire_eq_some {cell : Option Nat} (hacq : s.acquire h = some cell) :
    s.handles[h]? = some ⟨cell, .idle⟩ := by
  unfold acquire at hacq
  split at hacq
  · rename_i other hh
    rw [Option.ite_none_right_eq_some, Option.some.injEq] at hacq
    rw [hh, hacq.2]
  · cases hacq

theorem set_moves {what : CellValue α} (hsets : action.sets = true)
    (hwhat : what ≠ .none) (hset : s.set h what = some t) :
    Moves s action t := by
  unfold set at hset
  split at hset
  · cases hset
  · cases hset
    exact .idle
  · rename_i c hacq
    cases hval : (s.cells c).value with
    | none =>
      simp only [AsyncCell.doSet, hval] at hset
      cases hset
      exact .satisfy hsets hwhat (acquire_eq_some hacq) hval
    | _ =>
      simp only [AsyncCell.doSet, hval] at hset
      cases hset
      exact .idle

variable {cell : AsyncCell α}

theorem subscribe_of_none (h : cell.value = .none) (event : CellEvent) :
    cell.subscribe event =
      ({ cell with events := cell.events ++ [event] }, true) := by
  rw [AsyncCell.subscribe, h]

theorem subscribe_moves (s : PromiseSystem α) (hc : c < s.created)
    (listener : Option Nat) :
    Moves s (.subscribe c listener) (s.subscribe c listener) := by
  cases hval : (s.cells c).value with
  | none =>
    simp only [subscribe, subscribe_of_none hval]
    exact .subscribe hc hval
  | _ =>
    cases listener with
    | none =>
      simp only [subscribe, AsyncCell.subscribe, hval]
      exact .idle
    | some ctx =>
      simp only [subscribe, AsyncCell.subscribe, hval]
      exact .scheduled hc (by simp [hval])

theorem step_moves (hstep : s.step action = some t) : Moves s action t := by
  cases action with
  | construct =>
    cases hstep
    exact .construct
  | copy source =>
    simp only [step] at hstep
    split at hstep
    · rename_i c hsrc
      cases hstep
      exact .copy hsrc
    · cases hstep
  | fetchAdd h =>
    simp only [step] at hstep
    split at hstep
    · rename_i c source hh
      cases hstep
      exact .fetchAdd hh
    · cases hstep
  | move source =>
    simp only [step, Option.map_eq_some_iff] at hstep
    obtain ⟨cell, hacq, rfl⟩ := hstep
    exact .move (acquire_eq_some hacq)
  | moveAssign target source =>
    simp only [step] at hstep
    split at hstep
    · rename_i old cell htarget hsrc
      split_ifs at hstep with hne
      · cases hstep
        exact .idle
      · cases hstep
        exact .assign hne (acquire_eq_some htarget) (acquire_eq_some hsrc)
    · cases hstep
  | setValue h v | setError h code => exact set_moves rfl (by simp) hstep
  | run h =>
    simp only [step, runEvent] at hstep
    split at hstep
    · rename_i hh
      cases hstep
      exact .runSetting hh
    · rename_i hh
      cases hstep
      exact .runDraining hh
    · cases hstep
  | leave h =>
    simp only [step, leave] at hstep
    split at hstep
    · rename_i hh
      cases hstep
      exact .leaveSetting hh
    · rename_i hh
      cases hstep
      exact .leaveDraining hh
    · cases hstep
  | destroy h =>
    simp only [step, destroy] at hstep
    split at hstep
    · cases hstep
    · rename_i hacq
      cases hstep
      exact .close (acquire_eq_some hacq)
    · rename_i c hacq
      split at hstep
      · rename_i hlast
        cases hstep
        exact .last (acquire_eq_some hacq) hlast
      · rename_i hshared
        cases hstep
        exact .shared (acquire_eq_some hacq) hshared
  | fetchSub h =>
    simp only [step, fetchSub] at hstep
    split at hstep
    · rename_i c hh
      split at hstep
      · rename_i hlast
        cases hstep
        exact .subLast hh hlast
      · rename_i hshared
        cases hstep
        exact .subShared hh hshared
    · cases hstep
  | breakPromise h =>
    simp only [step, enterBreak] at hstep
    split at hstep
    · rename_i c hh
      cases hstep
      cases hval : (s.cells c).value with
      | none =>
        simp only [AsyncCell.breakPromise, hval]
        exact .broke hh hval
      | _ =>
        simp only [AsyncCell.breakPromise, hval]
        rw [setCell, Function.update_eq_self]
        exact .late hh (by simp [hval])
    · cases hstep
  | subscribe c listener =>
    simp only [step, Option.ite_none_right_eq_some, Option.some.injEq] at hstep
    obtain ⟨hc, rfl⟩ := hstep
    exact s.subscribe_moves hc listener
  | runScheduled i =>
    simp only [step] at hstep
    split at hstep
    · cases hstep
    · rename_i callback hi
      cases hstep
      exact .runScheduled hi

theorem dispatch_frame (s : PromiseSystem α) (event : CellEvent) :
    (s.dispatch event).cells = s.cells ∧
      (s.dispatch event).created = s.created ∧
      (s.dispatch event).handles = s.handles ∧
      (s.dispatch event).subscribed = s.subscribed := by
  unfold dispatch
  split <;> exact ⟨rfl, rfl, rfl, rfl⟩

theorem update_field {β : Type*} (f : AsyncCell α → β) {d : Nat}
    (h : f cell = f (s.cells d)) (c : Nat) :
    f (Function.update s.cells d cell c) = f (s.cells c) := by
  by_cases hd : c = d
  · rw [hd, Function.update_self, h]
  · rw [Function.update_of_ne hd]

theorem Moves.value_stays (h : Moves s action t)
    (hc : (s.cells c).value ≠ .none) :
    (t.cells c).value = (s.cells c).value := by
  have hother : ∀ {d : Nat} {cell : AsyncCell α},
      (s.cells d).value = .none →
      (Function.update s.cells d cell c).value = (s.cells c).value := by
    intro d cell hempty
    rw [Function.update_of_ne]
    rintro rfl
    exact hc hempty
  cases h with
  | fetchAdd hh | subLast hh hlast | subShared hh hshared
  | subscribe hc' hempty => exact update_field AsyncCell.value (by rfl) c
  | satisfy hsets hwhat hh hempty | broke hh hempty => exact hother hempty
  | runSetting hh | runDraining hh =>
    simp only [dispatch, setHandle]
    split <;> rfl
  | _ => rfl

end PromiseSystem

end ActorFramework.Async
