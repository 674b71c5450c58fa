import ActorFramework.Flow.HotOperators
import ActorFramework.Foundation.Table

/-!
# Steps of a hot operator

A step of a subscription state keeps it disposed, and only `dispose` makes it
report so to its observer.  A step of the operator is a number of such steps,
or it adds a subscription or detaches one from its state.
-/

namespace ActorFramework.Flow

open Foundation List Option

variable {τ : Type*}

namespace UcastSubState

/-- What a step does to the observer of a state.  Only `dispose` may report
that the state was disposed, which `external` stands for. -/
structure Evolves (external : Prop) (s t : UcastSubState τ) : Prop where
  stays : s.disposed = true → t.disposed = true ∧ t.out = s.out
  held : s.disposed = true ∨ s.out.valid = true →
    t.disposed = true ∨ t.out.valid = true
  reports : .disposed ∈ t.out.events → .disposed ∈ s.out.events ∨ external

variable {external : Prop} {s t : UcastSubState τ}

theorem Evolves.of_eq (hout : t.out = s.out)
    (hdisp : t.disposed = s.disposed) : Evolves external s t := by
  refine ⟨fun hs => ⟨hdisp.trans hs, hout⟩, ?_, ?_⟩
  · rw [hout, hdisp]
    exact id
  · rw [hout]
    exact .inl

theorem Evolves.refl (s : UcastSubState τ) : Evolves external s s :=
  .of_eq rfl rfl

variable {u s' : UcastSubState τ} {action : UcastAction τ}

theorem Evolves.trans (hst : Evolves external s t)
    (htu : Evolves external t u) : Evolves external s u := by
  refine ⟨?_, fun hs => htu.held (hst.held hs), fun hu => ?_⟩
  · intro hs
    obtain ⟨ht, hout⟩ := hst.stays hs
    obtain ⟨hu, hout'⟩ := htu.stays ht
    exact ⟨hu, hout'.trans hout⟩
  · rcases htu.reports hu with ht | hext
    · exact hst.reports ht
    · exact .inr hext

theorem Evolves.after (hout : s'.out = s.out)
    (hdisp : s'.disposed = s.disposed) (h : Evolves external s' t) :
    Evolves external s t :=
  (Evolves.of_eq hout hdisp).trans h

theorem Evolves.of_onNext {item : τ} (hlive : s.disposed = false)
    (hout : t.out = s.out.onNext item) (hdisp : t.disposed = s.disposed) :
    Evolves external s t := by
  refine ⟨?_, ?_, ?_⟩
  · intro hs
    rw [hlive] at hs
    cases hs
  · rw [hdisp, hout]
    exact id
  · rw [hout, Observer.onNext, mem_append, mem_singleton]
    rintro (hmem | hmem)
    · exact .inl hmem
    · cases hmem

theorem Evolves.of_end {last : List (FlowEvent τ)} (hlive : s.disposed = false)
    (hdisp : t.disposed = true) (hevs : t.out.events = s.out.events ++ last)
    (hlast : .disposed ∈ last → external) : Evolves external s t := by
  refine ⟨?_, fun _ => .inl hdisp, ?_⟩
  · intro hs
    rw [hlive] at hs
    cases hs
  · rw [hevs, mem_append]
    exact fun hmem => hmem.imp_right hlast

structure Narrows (s t : UcastSubState τ) : Prop where
  buf : t.buf.length ≤ s.buf.length
  pushed : t.pushed = s.pushed

theorem Narrows.of_eq (hbuf : t.buf = s.buf) (hpushed : t.pushed = s.pushed) :
    Narrows s t :=
  ⟨Nat.le_of_eq (congrArg List.length hbuf), hpushed⟩

theorem Narrows.refl (s : UcastSubState τ) : Narrows s s := .of_eq rfl rfl

theorem Narrows.trans (h : Narrows s t) (h' : Narrows t u) : Narrows s u :=
  ⟨Nat.le_trans h'.buf h.buf, h'.pushed.trans h.pushed⟩

structure Changes (external : Prop) (s t : UcastSubState τ) : Prop where
  evolves : Evolves external s t
  narrows : Narrows s t

theorem Changes.of_eq (hout : t.out = s.out)
    (hdisp : t.disposed = s.disposed) (hbuf : t.buf = s.buf)
    (hpushed : t.pushed = s.pushed) : Changes external s t :=
  ⟨.of_eq hout hdisp, .of_eq hbuf hpushed⟩

theorem Changes.refl (s : UcastSubState τ) : Changes external s s :=
  .of_eq rfl rfl rfl rfl

theorem Changes.trans (hst : Changes external s t)
    (htu : Changes external t u) : Changes external s u :=
  ⟨hst.evolves.trans htu.evolves, hst.narrows.trans htu.narrows⟩

theorem Changes.after (hout : s'.out = s.out)
    (hdisp : s'.disposed = s.disposed) (hbuf : s'.buf = s.buf)
    (hpushed : s'.pushed = s.pushed) (h : Changes external s' t) :
    Changes external s t :=
  (Changes.of_eq hout hdisp hbuf hpushed).trans h

theorem evolves_push (s : UcastSubState τ) (item : τ) :
    Evolves external s (s.push item) := by
  unfold push
  split
  · exact .refl s
  · rename_i hlive
    split
    · exact .of_onNext (Bool.not_eq_true _ ▸ hlive) rfl rfl
    · exact .of_eq rfl rfl

theorem changes_finish {event : FlowEvent τ} (hlive : s.disposed = false)
    (hevent : event ≠ .disposed) : Changes external s (s.finish event) := by
  unfold finish
  split
  · refine ⟨?_, .of_eq rfl rfl⟩
    split
    · refine .of_end hlive rfl rfl fun hmem => ?_
      exact absurd (mem_singleton.mp hmem).symm hevent
    · exact .of_end hlive rfl (append_nil _).symm nofun
  · exact .refl s

section

variable (s : UcastSubState τ)

theorem changes_request (n : Nat) : Changes external s (s.request n) := by
  unfold request
  split
  · exact .of_eq rfl rfl rfl rfl
  · exact .of_eq rfl rfl rfl rfl

theorem endEvent_ne_disposed : s.endEvent ≠ .disposed := by
  unfold endEvent
  split <;> nofun

end

theorem changes_terminate (hlive : s.disposed = false) :
    Changes external s s.terminate := by
  have hdispose : s.terminate =
      { s with
        buf := [], demand := 0, disposed := true
        out := s.out.finish s.endEvent } := by
    unfold terminate dispose
    rw [if_neg (by rw [Bool.not_eq_true]; exact hlive)]
    rfl
  rw [hdispose]
  refine ⟨.of_end hlive rfl rfl fun hmem => ?_, Nat.zero_le _, rfl⟩
  exact absurd (mem_singleton.mp hmem).symm s.endEvent_ne_disposed

theorem changes_pullLoop (val : Nat) (hlive : s.disposed = false) :
    Changes external s (s.pullLoop val) := by
  unfold pullLoop
  split
  · split
    · exact (changes_terminate hlive).trans (.of_eq rfl rfl rfl rfl)
    · exact .of_eq rfl rfl rfl rfl
  · split
    · exact ⟨.of_onNext hlive rfl rfl, .of_eq rfl rfl⟩
    · exact .of_eq rfl rfl rfl rfl

theorem changes_doPull (s : UcastSubState τ) (val : Nat) :
    Changes external s (s.doPull val) := by
  unfold doPull
  split_ifs with hlive
  · exact .of_eq rfl rfl rfl rfl
  · rw [Bool.not_eq_true] at hlive
    refine .after ?_ ?_ ?_ ?_ (changes_pullLoop val hlive) <;> rfl

theorem changes_resume (s : UcastSubState τ) (val : Nat) :
    Changes external s (s.resume val) := by
  unfold resume
  split_ifs with hlive
  · exact .of_eq rfl rfl rfl rfl
  · rw [Bool.not_eq_true] at hlive
    have htail : Changes external s
        { s with buf := s.buf.tail, demand := s.demand - 1 } :=
      ⟨.of_eq rfl rfl, by simp, rfl⟩
    exact htail.trans (changes_pullLoop val hlive)

section

variable (hstep : s.step action = some t)
include hstep

theorem step_changes (haction : ∀ item, action ≠ .push item) :
    Changes (action = .dispose) s t := by
  cases action with
  | push item => exact absurd rfl (haction item)
  | close =>
    obtain ⟨_, rfl⟩ := of_guard hstep
    unfold close
    split_ifs with hlive
    · exact .refl s
    · rw [Bool.not_eq_true] at hlive
      refine .after ?_ ?_ ?_ ?_ (changes_finish hlive (by nofun)) <;> rfl
  | abort reason =>
    obtain ⟨_, rfl⟩ := of_guard hstep
    unfold abort
    split_ifs with hlive
    · exact .refl s
    · rw [Bool.or_eq_true, not_or, Bool.not_eq_true] at hlive
      refine .after ?_ ?_ ?_ ?_ (changes_finish hlive.1 (by nofun)) <;> rfl
  | request n =>
    obtain ⟨_, rfl⟩ := of_guard hstep
    refine .after ?_ ?_ ?_ ?_ (changes_request _ n) <;> rfl
  | dispose =>
    obtain ⟨_, rfl⟩ := of_guard hstep
    unfold dispose
    split
    · exact .refl s
    · rename_i hlive
      rw [Bool.not_eq_true] at hlive
      refine ⟨?_, Nat.zero_le _, rfl⟩
      split
      · exact .of_end hlive rfl rfl fun _ => rfl
      · exact .of_end hlive rfl (append_nil _).symm nofun
  | cancel =>
    obtain ⟨_, rfl⟩ := of_guard hstep
    unfold cancel
    split_ifs with hlive
    · exact .refl s
    · rw [Bool.not_eq_true] at hlive
      refine ⟨?_, Nat.zero_le _, rfl⟩
      exact .of_end hlive rfl (append_nil _).symm nofun
  | runPull =>
    obtain ⟨_, rfl⟩ := of_guard hstep
    exact .of_eq rfl rfl rfl rfl
  | iterate =>
    obtain ⟨_, rfl⟩ := of_guard hstep
    exact changes_doPull s s.inFlightDemand
  | ret =>
    simp only [step] at hstep
    split at hstep
    · cases hstep
      exact .of_eq rfl rfl rfl rfl
    · cases hstep
      exact changes_resume s _
    · cases hstep

theorem step_evolves : Evolves (action = .dispose) s t := by
  by_cases hpush : ∃ item, action = .push item
  · obtain ⟨item, rfl⟩ := hpush
    obtain ⟨_, rfl⟩ := of_guard hstep
    exact .after (by rfl) (by rfl) (evolves_push _ item)
  · exact (step_changes hstep (not_exists.mp hpush)).evolves

theorem step_disposed (haction : action = .dispose ∨ action = .cancel) :
    t.disposed = true := by
  rcases haction with rfl | rfl
  · obtain ⟨_, rfl⟩ := of_guard hstep
    unfold dispose
    split
    · assumption
    · rfl
  · obtain ⟨_, rfl⟩ := of_guard hstep
    unfold cancel
    split
    · assumption
    · rfl

end

theorem step_cancel_events (hstep : s.step .cancel = some t) :
    t.out.events = s.out.events := by
  obtain ⟨_, rfl⟩ := of_guard hstep
  unfold cancel
  split <;> rfl

theorem step_dispose_events (hstep : s.step .dispose = some t)
    (hlive : s.disposed = false) (hvalid : s.out.valid = true) :
    t.out.events = s.out.events ++ [.disposed] := by
  obtain ⟨_, rfl⟩ := of_guard hstep
  unfold dispose
  rw [if_neg (by rw [hlive]; nofun), if_pos hvalid]
  rfl

end UcastSubState

variable {sub : Subscription τ} {fromExternal : Bool}

theorem Subscription.isTrivial_of_disposeAction
    (h : sub.disposeAction fromExternal = none) : sub.isTrivial = true := by
  cases himpl : sub.impl with
  | trivialImpl err => simp only [isTrivial, himpl]
  | mcastSub => simp only [disposeAction, himpl, reduceCtorEq] at h
  | ucastSub =>
    simp only [disposeAction, himpl] at h
    split at h <;> cases h

def CellsEvolve (external : Nat → Prop) (cells cells' : List (Cell τ)) : Prop :=
  ∀ i cell, cells[i]? = some cell → ∃ cell', cells'[i]? = some cell' ∧
    UcastSubState.Evolves (external i) cell.sub cell'.sub

variable {external : Nat → Prop} {cells : List (Cell τ)}

theorem CellsEvolve.of_eq {cells' : List (Cell τ)} (h : cells' = cells) :
    CellsEvolve external cells cells' := by
  subst h
  exact fun _ cell hcell => ⟨cell, hcell, .refl cell.sub⟩

theorem CellsEvolve.trans {cells' cells'' : List (Cell τ)}
    (h : CellsEvolve external cells cells')
    (h' : CellsEvolve external cells' cells'') :
    CellsEvolve external cells cells'' := by
  intro i cell hcell
  obtain ⟨cell', hcell', hevolves⟩ := h i cell hcell
  obtain ⟨cell'', hcell'', hevolves'⟩ := h' i cell' hcell'
  exact ⟨cell'', hcell'', hevolves.trans hevolves'⟩

theorem CellsEvolve.set {i : Nat} {cell cell' : Cell τ}
    (hcell : cells[i]? = some cell)
    (hevolves : UcastSubState.Evolves (external i) cell.sub cell'.sub) :
    CellsEvolve external cells (cells.set i cell') := by
  intro j old hold
  rcases eq_or_ne i j with rfl | hne
  · rw [hcell, Option.some.injEq] at hold
    subst hold
    exact ⟨cell', getElem?_set_of_some cell' hcell, hevolves⟩
  · exact ⟨old, by rw [getElem?_set_ne hne, hold], .refl old.sub⟩

namespace HotOperator

/-- The subscriptions stay as they are, and no state is disposed from outside
of it. -/
structure Shifts (s t : HotOperator τ) : Prop where
  kind : t.kind = s.kind
  subs : t.subs = s.subs
  cells : CellsEvolve (fun _ => False) s.cells t.cells

variable {s t : HotOperator τ} {i id : Nat} {action : UcastAction τ}

theorem Shifts.of_eq (hkind : t.kind = s.kind) (hsubs : t.subs = s.subs)
    (hcells : t.cells = s.cells) : Shifts s t :=
  ⟨hkind, hsubs, .of_eq hcells⟩

theorem Shifts.refl (s : HotOperator τ) : Shifts s s := .of_eq rfl rfl rfl

variable {u : HotOperator τ} {states : List Nat} {a : HotAction τ}

theorem Shifts.trans (h : Shifts s t) (h' : Shifts t u) : Shifts s u :=
  ⟨h'.kind.trans h.kind, h'.subs.trans h.subs, h.cells.trans h'.cells⟩

theorem Shifts.after {s' : HotOperator τ} (h : Shifts s' t)
    (hkind : s'.kind = s.kind) (hsubs : s'.subs = s.subs)
    (hcells : s'.cells = s.cells) : Shifts s t :=
  (Shifts.of_eq hkind hsubs hcells).trans h

theorem act_cases (h : s.act i action = some t) :
    ∃ cell sub, s.cells[i]? = some cell ∧ cell.sub.step action = some sub ∧
      t = s.setState i cell sub := by
  unfold act at h
  split at h
  · cases h
  · rename_i cell hcell
    obtain ⟨sub, hstep, rfl⟩ := map_eq_some_iff.mp h
    exact ⟨cell, sub, hcell, hstep, rfl⟩

theorem shifts_setState {cell : Cell τ} {sub : UcastSubState τ}
    (haction : action ≠ .dispose) (hcell : s.cells[i]? = some cell)
    (hstep : cell.sub.step action = some sub) :
    Shifts s (s.setState i cell sub) := by
  refine ⟨rfl, rfl, .set hcell ?_⟩
  obtain ⟨hstays, hheld, hreports⟩ := UcastSubState.step_evolves hstep
  exact ⟨hstays, hheld, fun hmem => (hreports hmem).imp_right haction⟩

theorem shifts_act (h : s.act i action = some t) (haction : action ≠ .dispose) :
    Shifts s t := by
  obtain ⟨cell, sub, hcell, hstep, rfl⟩ := act_cases h
  exact shifts_setState haction hcell hstep

theorem shifts_setListening (s : HotOperator τ) (i : Nat) (listening : Bool) :
    Shifts s (s.setListening i listening) := by
  refine ⟨rfl, rfl, fun j cell hcell => ?_⟩
  refine ⟨if i = j then { cell with listening } else cell, ?_, ?_⟩
  · rw [setListening, getElem?_modify, hcell]
    rfl
  · split
    · exact .refl cell.sub
    · exact .refl cell.sub

theorem shifts_actAll (h : actAll action states s = some t)
    (haction : action ≠ .dispose) : Shifts s t := by
  induction states generalizing s with
  | nil =>
    cases h
    exact .refl _
  | cons i rest ih =>
    obtain ⟨u, hact, hrest⟩ := bind_eq_some_iff.mp h
    exact (shifts_setListening s i false).trans
      ((shifts_act hact haction).trans (ih hrest))

section

variable (s : HotOperator τ)

theorem shifts_tryRequestMore : Shifts s s.tryRequestMore := by
  unfold tryRequestMore
  split
  · exact .of_eq rfl rfl rfl
  · exact .of_eq rfl rfl rfl

theorem shifts_stateRemoved : Shifts s s.stateRemoved := by
  unfold stateRemoved
  split
  · split
    · exact (shifts_tryRequestMore s).trans (.of_eq rfl rfl rfl)
    · exact shifts_tryRequestMore s
  · exact .refl s

theorem shifts_onConsumedSome : Shifts s s.onConsumedSome := by
  unfold onConsumedSome
  split
  · exact .of_eq rfl rfl rfl
  · exact .refl s

theorem shifts_pushed (res published : Bool) :
    Shifts s (s.pushed res published) := by
  unfold pushed
  split
  · exact .of_eq rfl rfl rfl
  · exact .refl s

theorem shifts_sourceSubscribed : Shifts s s.sourceSubscribed := by
  unfold sourceSubscribed
  split
  · exact .refl s
  · exact .of_eq rfl rfl rfl

end

theorem shifts_push {item : τ} (h : s.push item = some t) : Shifts s t := by
  unfold push at h
  split at h
  · exact shifts_act h nofun
  · cases h
    exact .of_eq rfl rfl rfl

theorem shifts_next (h : s.next = some t) : Shifts s t := by
  unfold next at h
  split at h
  · split at h
    · cases h
    · exact (shifts_act h nofun).after rfl rfl rfl
  · cases h
    exact (shifts_pushed { s with stack := _ } _ _).after rfl rfl rfl
  · cases h

theorem shifts_map_actAll {f : HotOperator τ → HotOperator τ}
    (h : (actAll action states s).map f = some t)
    (haction : action ≠ .dispose) (hlast : ∀ u, Shifts u (f u)) :
    Shifts s t := by
  obtain ⟨u, hall, rfl⟩ := map_eq_some_iff.mp h
  exact (shifts_actAll hall haction).trans (hlast u)

theorem shifts_close (h : s.close = some t) : Shifts s t := by
  unfold close at h
  split at h
  · exact shifts_act h nofun
  · split at h
    · cases h
      exact .refl _
    · obtain ⟨_, hall⟩ := ite_none_left_eq_some.mp h
      have hloop := shifts_map_actAll hall nofun fun _ => .of_eq rfl rfl rfl
      exact hloop.after rfl rfl rfl

theorem shifts_abort {reason : Option Nat} (h : s.abort reason = some t) :
    Shifts s t := by
  unfold abort at h
  split at h
  · exact shifts_act h nofun
  · split at h
    · cases h
      exact .refl _
    · obtain ⟨_, hall⟩ := ite_none_left_eq_some.mp h
      have hloop := shifts_map_actAll hall nofun fun _ => .of_eq rfl rfl rfl
      exact hloop.after rfl rfl rfl

theorem shifts_request {n : Nat} (h : s.request id n = some t) :
    Shifts s t := by
  unfold request at h
  split at h
  · cases h
  · split at h
    · cases h
      exact .refl _
    · cases h
      exact .refl _
    · cases h
    · exact shifts_act h nofun

theorem shifts_removeState (h : s.removeState i = some t) : Shifts s t := by
  replace h := of_guarded h
  split at h
  · cases h
    exact (shifts_stateRemoved { s with removals := _, states := _ }).after
      rfl rfl rfl
  · cases h
    exact .of_eq rfl rfl rfl

inductive Drops (s t : HotOperator τ) (id : Nat) (fromExternal : Bool) :
    Prop where
  | nothing {disposals : Nat} {sub : Subscription τ}
      (hkind : t.kind = s.kind) (hcells : t.cells = s.cells)
      (hsub : s.subs[id]? = some sub)
      (hdisposals : disposals ≤ sub.disposals)
      (hsubs : t.subs = s.subs.set id { sub with live := false, disposals })
      (hstateless : sub.live = false ∨ sub.isTrivial = true) :
      Drops s t id fromExternal
  | state {disposals : Nat} {sub : Subscription τ}
      {action : UcastAction τ} {cell cell' : Cell τ} (hkind : t.kind = s.kind)
      (hcells : t.cells = s.cells.set sub.state cell')
      (hsub : s.subs[id]? = some sub)
      (hdisposals : disposals ≤ sub.disposals)
      (hpending : fromExternal = true → 0 < sub.disposals)
      (hsubs : t.subs = s.subs.set id { sub with live := false, disposals })
      (hlive : sub.live = true)
      (haction : sub.disposeAction fromExternal = some action)
      (hcell : s.cells[sub.state]? = some cell)
      (hstep : cell.sub.step action = some cell'.sub) :
      Drops s t id fromExternal

def disposeCall (id : Nat) (fromExternal : Bool) : HotAction τ :=
  if fromExternal then .runDispose id else .cancel id

inductive Moves (s t : HotOperator τ) : HotAction τ → Prop where
  | shifts {a : HotAction τ} (h : Shifts s t) : Moves s t a
  | marks {id : Nat} {sub : Subscription τ} (hkind : t.kind = s.kind)
      (hcells : t.cells = s.cells) (hsub : s.subs[id]? = some sub)
      (hsubs : t.subs =
        s.subs.set id { sub with disposals := sub.disposals + 1 }) :
      Moves s t (.dispose id)
  | drops {id : Nat} {fromExternal : Bool} (h : Drops s t id fromExternal) :
      Moves s t (disposeCall id fromExternal)
  | moves {cell : Cell τ} (hkind : t.kind = s.kind)
      (hucast : s.kind = .ucast) (hcell : s.cells[0]? = some cell)
      (hvalid : cell.sub.out.valid = false)
      (hcells : t.cells =
        s.cells.set 0 { cell with sub := { cell.sub with out := {} } })
      (hsubs : t.subs = s.subs.map (.archive cell.sub.out.events) ++
        [{ impl := .ucastSub, state := 0 }]) :
      Moves s t .subscribe
  | adds (hkind : t.kind = s.kind) (hmcast : s.kind ≠ .ucast)
      (hcells : t.cells = s.cells ++ [⟨{}, true⟩])
      (hsubs : t.subs =
        s.subs ++ [{ impl := .mcastSub, state := s.cells.length }]) :
      Moves s t .subscribe
  | rejects {err : Option Nat} (hkind : t.kind = s.kind)
      (hcells : t.cells = s.cells)
      (hsubs : t.subs = s.subs ++ [⟨.trivialImpl err, 0, true, 0, some []⟩]) :
      Moves s t .subscribe
  | answers {id : Nat} (hkind : t.kind = s.kind) (hcells : t.cells = s.cells)
      (hsubs : t.subs = s.subs.modify id .reject) : Moves s t .ret

theorem Moves.kind_eq (h : Moves s t a) : t.kind = s.kind := by
  cases h with
  | shifts h => exact h.kind
  | marks hkind => exact hkind
  | drops h =>
    cases h with
    | nothing hkind => exact hkind
    | state hkind => exact hkind
  | moves hkind => exact hkind
  | adds hkind => exact hkind
  | rejects hkind => exact hkind
  | answers hkind => exact hkind

theorem subscribe_moves (h : s.subscribe = some t) : Moves s t .subscribe := by
  unfold subscribe at h
  split at h
  · rename_i hkind
    split at h
    · cases h
    · rename_i cell hcell
      split at h
      · cases h
        exact .rejects rfl rfl rfl
      · split at h
        · cases h
          exact .rejects rfl rfl rfl
        · rename_i hvalid
          cases h
          exact .moves rfl hkind hcell (Bool.not_eq_true _ ▸ hvalid) rfl rfl
  · rename_i hkind
    split at h
    · cases h
      exact .rejects rfl rfl rfl
    · obtain ⟨_, ⟨⟩⟩ := ite_none_left_eq_some.mp h
      exact .adds rfl hkind rfl rfl

theorem doDispose_drops {disposals : Nat}
    (h : u.doDispose id fromExternal = some t) (hkind : u.kind = s.kind)
    (hcells : u.cells = s.cells) (hsub : s.subs[id]? = some sub)
    (hsubs : u.subs = s.subs.set id { sub with disposals })
    (hdisposals : disposals ≤ sub.disposals)
    (hpend : fromExternal = true → 0 < sub.disposals) :
    Drops s t id fromExternal := by
  have hfound : u.subs[id]? = some { sub with disposals } := by
    rw [hsubs]
    exact getElem?_set_of_some _ hsub
  have hreplaced : u.subs.set id { sub with live := false, disposals } =
      s.subs.set id { sub with live := false, disposals } := by
    rw [hsubs, set_set]
  unfold doDispose at h
  rw [hfound] at h
  simp only at h
  split_ifs at h with hlive
  · split at h
    · rename_i haction
      cases h
      exact .nothing hkind hcells hsub hdisposals hreplaced
        (.inr (Subscription.isTrivial_of_disposeAction haction))
    · rename_i action haction
      obtain ⟨cell, state, hcell, hstep, rfl⟩ := act_cases h
      have hset : ((u.setSub id { sub with live := false, disposals }).setState
          sub.state cell state).cells = s.cells.set sub.state
            ⟨state, cell.listening && !state.disposed⟩ := by
        rw [← hcells]
        rfl
      exact .state hkind hset hsub hdisposals hpend hreplaced hlive
        haction (hcells ▸ hcell) hstep
  · rw [Bool.not_eq_true] at hlive
    cases h
    refine .nothing hkind hcells hsub hdisposals ?_ (.inl hlive)
    rw [hsubs]
    congr 1
    rw [← hlive]

theorem dispose_moves (h : s.dispose id = some t) :
    Moves s t (.dispose id) := by
  obtain ⟨sub, hsub, rfl⟩ := map_eq_some_iff.mp h
  split
  · exact .shifts (.refl s)
  · exact .marks rfl rfl hsub rfl

theorem cancel_drops (h : s.doDispose id false = some t) :
    Drops s t id false := by
  cases hsub : s.subs[id]? with
  | none =>
    rw [doDispose, hsub] at h
    cases h
  | some sub =>
    have hsame : s.subs = s.subs.set id { sub with } :=
      (set_eq_of_getElem? hsub).symm
    exact doDispose_drops h rfl rfl hsub hsame (Nat.le_refl _) nofun

theorem runDispose_drops (h : s.runDispose id = some t) :
    Drops s t id true := by
  unfold runDispose at h
  split at h
  · cases h
  · rename_i sub hsub
    obtain ⟨hpend, hdispose⟩ := ite_none_right_eq_some.mp h
    exact doDispose_drops hdispose rfl rfl hsub rfl (Nat.sub_le _ _)
      fun _ => hpend

theorem ret_moves (h : s.ret = some t) : Moves s t .ret := by
  unfold ret at h
  split at h
  · split at h
    · cases h
    · rename_i cell hcell
      obtain ⟨sub, hstep, rfl⟩ := map_eq_some_iff.mp h
      have hshifts := shifts_setState (by nofun) hcell hstep
      split
      · exact .shifts (hshifts.trans (shifts_onConsumedSome _))
      · exact .shifts hshifts
  · cases h
    unfold subscribed
    split
    · exact .answers rfl rfl rfl
    · exact .answers rfl rfl rfl
  · cases h

theorem step_moves (h : s.step a = some t) : Moves s t a := by
  cases a with
  | subscribe => exact subscribe_moves (of_guarded h)
  | push item => exact .shifts (shifts_push (of_guarded h))
  | next => exact .shifts (shifts_next h)
  | close => exact .shifts (shifts_close (of_guarded h))
  | abort reason | onError reason => exact .shifts (shifts_abort (of_guarded h))
  | request id n => exact .shifts (shifts_request (of_guarded h))
  | cancel id => exact .drops (cancel_drops (of_guarded h))
  | dispose id => exact dispose_moves (of_guarded h)
  | runDispose id => exact .drops (runDispose_drops (of_guarded h))
  | runPull i => exact .shifts (shifts_act (of_guarded h) nofun)
  | iterate =>
    simp only [step] at h
    split at h
    · exact .shifts (shifts_act h nofun)
    · cases h
  | ret => exact ret_moves h
  | removeState i => exact .shifts (shifts_removeState (of_guarded h))
  | connect | onNext item =>
    obtain ⟨_, rfl⟩ := of_guard h
    exact .shifts (.of_eq rfl rfl rfl)
  | onSubscribe =>
    obtain ⟨_, rfl⟩ := of_guard h
    exact .shifts (shifts_sourceSubscribed s)
  | onComplete => exact .shifts (shifts_close (of_guarded h))
  | tryRequestMore =>
    obtain ⟨_, rfl⟩ := of_guard h
    exact .shifts
      ((shifts_tryRequestMore { s with source := _ }).after rfl rfl rfl)

end HotOperator

end ActorFramework.Flow
