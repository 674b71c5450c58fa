import ActorFramework.Flow.HotMoves

/-!
# Cancelling a subscription of a hot operator

A state that was disposed makes no more calls.  A `ucast_sub` disposes its
state without a call when its observer cancels.  An `mcast_sub` does not look
at the flag of `do_dispose`, so its observer gets `on_error(disposed)`.
-/

namespace ActorFramework.Flow

open Foundation List Subscription UcastSubState

variable {τ : Type*}

namespace Subscription

/-- How a subscription relates to its state.  The state refers to the observer
of a live subscription until it is disposed, and it has been disposed when a
subscription is no longer live. -/
structure Fits (cells : List (Cell τ)) (sub : Subscription τ) : Prop where
  cell : sub.isTrivial = false → ∃ cell, cells[sub.state]? = some cell
  apart : sub.isTrivial = true → sub.received ≠ none
  current : ∀ cell, cells[sub.state]? = some cell → sub.isTrivial = false →
    sub.live = true → cell.sub.disposed = false → sub.received = none
  held : ∀ cell, cells[sub.state]? = some cell → sub.isTrivial = false →
    sub.live = true → cell.sub.disposed = true ∨ cell.sub.out.valid = true
  gone : sub.live = false → sub.received ≠ none ∨
    ∃ cell, cells[sub.state]? = some cell ∧ cell.sub.disposed = true

variable {cells cells' : List (Cell τ)} {sub : Subscription τ}
  {external : Nat → Prop}

theorem Fits.isTrivial_eq (h : sub.Fits cells) (hnone : sub.received = none) :
    sub.isTrivial = false := by
  rw [← Bool.not_eq_true]
  exact fun htrivial => h.apart htrivial hnone

theorem Fits.evolve (h : sub.Fits cells)
    (hcells : CellsEvolve external cells cells') : sub.Fits cells' := by
  have hback : ∀ cell', cells'[sub.state]? = some cell' →
      sub.isTrivial = false → ∃ cell, cells[sub.state]? = some cell ∧
        Evolves (external sub.state) cell.sub cell'.sub := by
    intro cell' hcell' hproper
    obtain ⟨cell, hcell⟩ := h.cell hproper
    obtain ⟨found, hfound, hevolves⟩ := hcells _ cell hcell
    rw [hcell', Option.some.injEq] at hfound
    subst hfound
    exact ⟨cell, hcell, hevolves⟩
  refine ⟨?_, h.apart, ?_, ?_, ?_⟩
  · intro hproper
    obtain ⟨cell, hcell⟩ := h.cell hproper
    obtain ⟨cell', hcell', _⟩ := hcells _ cell hcell
    exact ⟨cell', hcell'⟩
  · intro cell' hcell' hproper hlive hopen
    obtain ⟨cell, hcell, hevolves⟩ := hback cell' hcell' hproper
    refine h.current cell hcell hproper hlive ?_
    rw [← Bool.not_eq_true] at hopen ⊢
    exact fun hdisp => hopen (hevolves.stays hdisp).1
  · intro cell' hcell' hproper hlive
    obtain ⟨cell, hcell, hevolves⟩ := hback cell' hcell' hproper
    exact hevolves.held (h.held cell hcell hproper hlive)
  · intro hdead
    refine (h.gone hdead).imp_right fun ⟨cell, hcell, hdisp⟩ => ?_
    obtain ⟨cell', hcell', hevolves⟩ := hcells _ cell hcell
    exact ⟨cell', hcell', (hevolves.stays hdisp).1⟩

theorem events_of_received {events : List (FlowEvent τ)}
    (h : sub.received = some events) : sub.events cells = events := by
  rw [Subscription.events, h]

theorem events_of_cell {cell : Cell τ} (hnone : sub.received = none)
    (hcell : cells[sub.state]? = some cell) :
    sub.events cells = cell.sub.out.events := by
  rw [events, hnone]
  rw [hcell]

theorem Fits.events_reports (h : sub.Fits cells)
    (hcells : CellsEvolve external cells cells')
    (hmem : .disposed ∈ sub.events cells') :
    .disposed ∈ sub.events cells ∨ sub.received = none ∧
      external sub.state ∧
        ∃ cell, cells[sub.state]? = some cell ∧ cell.sub.disposed = false := by
  cases hrecv : sub.received with
  | some events =>
    rw [events_of_received hrecv] at hmem ⊢
    exact .inl hmem
  | none =>
    obtain ⟨cell, hcell⟩ := h.cell (h.isTrivial_eq hrecv)
    obtain ⟨cell', hcell', hevolves⟩ := hcells _ cell hcell
    rw [events_of_cell hrecv hcell'] at hmem
    rw [events_of_cell hrecv hcell]
    cases hdisp : cell.sub.disposed with
    | true =>
      rw [(hevolves.stays hdisp).2] at hmem
      exact .inl hmem
    | false =>
      refine (hevolves.reports hmem).imp_right fun hext => ?_
      exact ⟨rfl, hext, cell, hcell, hdisp⟩

end Subscription

namespace HotOperator

/-- At most one subscription is for the observer that a state refers to. -/
structure Owned (s : HotOperator τ) : Prop where
  fits : ∀ (id : Nat) (sub : Subscription τ), s.subs[id]? = some sub →
    sub.Fits s.cells
  unique : ∀ (i j : Nat) (a b : Subscription τ), s.subs[i]? = some a →
    s.subs[j]? = some b → a.received = none → b.received = none →
      a.state = b.state → i = j
  single : ∀ (id : Nat) (sub : Subscription τ), s.subs[id]? = some sub →
    s.kind = .ucast →
      sub.impl ≠ .mcastSub ∧ (sub.isTrivial = false → sub.state = 0)

theorem owned_initial (kind : HotKind) (source : PublishState) :
    Owned (initial kind source : HotOperator τ) := by
  have hsubs : (initial kind source : HotOperator τ).subs = [] := by
    cases kind <;> rfl
  refine ⟨?_, ?_, ?_⟩
  · intro id sub hsub
    rw [hsubs] at hsub
    cases hsub
  · intro i j a b ha
    rw [hsubs] at ha
    cases ha
  · intro id sub hsub
    rw [hsubs] at hsub
    cases hsub

theorem Owned.relabel {s t : HotOperator τ} (hs : Owned s)
    (hkind : t.kind = s.kind)
    (hsubs : ∀ (id : Nat) (sub' : Subscription τ), t.subs[id]? = some sub' →
      ∃ sub : Subscription τ, s.subs[id]? = some sub ∧ sub'.Fits t.cells ∧
        (sub'.received = none → sub.received = none) ∧
        sub'.state = sub.state ∧ sub'.impl = sub.impl) : Owned t := by
  refine ⟨?_, ?_, ?_⟩
  · intro id sub' hsub'
    obtain ⟨_, _, hfits, _⟩ := hsubs id sub' hsub'
    exact hfits
  · intro i j a' b' ha' hb' hnone hnone' hstate
    obtain ⟨a, ha, _, hrecv, haState, _⟩ := hsubs i a' ha'
    obtain ⟨b, hb, _, hrecv', hbState, _⟩ := hsubs j b' hb'
    refine hs.unique i j a b ha hb (hrecv hnone) (hrecv' hnone') ?_
    rw [← haState, ← hbState, hstate]
  · intro id sub' hsub' hucast
    obtain ⟨sub, hsub, _, _, hstate, himpl⟩ := hsubs id sub' hsub'
    rw [hkind] at hucast
    obtain ⟨hmcast, hzero⟩ := hs.single id sub hsub hucast
    rw [isTrivial] at hzero
    rw [isTrivial, himpl, hstate]
    exact ⟨hmcast, hzero⟩

variable {s t : HotOperator τ} {id j : Nat} {sub : Subscription τ}
  {external : Nat → Prop} {cells cells' : List (Cell τ)} {cell : Cell τ}
  {fromExternal : Bool} {a : HotAction τ} {kind : HotKind}
  {as : List (HotAction τ)}

variable {new : Subscription τ} {action : UcastAction τ} {source : PublishState}

theorem Owned.replace (hs : Owned s) (hkind : t.kind = s.kind)
    (hsub : s.subs[id]? = some sub) (hsubs : t.subs = s.subs.set id new)
    (hcells : CellsEvolve external s.cells t.cells)
    (hrecv : new.received = sub.received) (hstate : new.state = sub.state)
    (himpl : new.impl = sub.impl) (hfits : new.Fits t.cells) : Owned t := by
  refine hs.relabel hkind fun j sub' hsub' => ?_
  rw [hsubs] at hsub'
  rcases getElem?_set_cases hsub' with ⟨rfl, rfl⟩ | ⟨_, hother⟩
  · exact ⟨sub, hsub, hfits, fun h => hrecv ▸ h, hstate, himpl⟩
  · exact ⟨sub', hother, (hs.fits j sub' hother).evolve hcells, fun h => h,
      rfl, rfl⟩

theorem fits_drop (disposals : Nat) (h : sub.Fits cells)
    (hcells : CellsEvolve external cells cells')
    (hgone : sub.received ≠ none ∨ ∃ cell,
      cells'[sub.state]? = some cell ∧ cell.sub.disposed = true) :
    Fits cells' { sub with live := false, disposals } := by
  have hnext := h.evolve hcells
  exact ⟨hnext.cell, hnext.apart, nofun, nofun, fun _ => hgone⟩

theorem Owned.moves {s t : HotOperator τ} (hs : Owned s)
    (hucast : s.kind = .ucast) (hcell : s.cells[0]? = some cell)
    (hvalid : cell.sub.out.valid = false)
    (hcells : t.cells =
      s.cells.set 0 { cell with sub := { cell.sub with out := {} } })
    (hsubs : t.subs = s.subs.map (.archive cell.sub.out.events) ++
      [{ impl := .ucastSub, state := 0 }]) : Owned t := by
  have hnew : t.cells[0]? =
      some { cell with sub := { cell.sub with out := {} } } := by
    rw [hcells]
    exact getElem?_set_of_some _ hcell
  have hcases : ∀ (id : Nat) (sub' : Subscription τ),
      t.subs[id]? = some sub' →
        (∃ sub, s.subs[id]? = some sub ∧
          sub' = sub.archive cell.sub.out.events) ∨
        id = s.subs.length ∧ sub' = { impl := .ucastSub, state := 0 } := by
    intro id sub' hsub'
    rw [hsubs] at hsub'
    rcases getElem?_concat_cases hsub' with hold | ⟨hlast, hsub'⟩
    · rw [getElem?_map] at hold
      obtain ⟨sub, hsub, harchive⟩ := Option.map_eq_some_iff.mp hold
      exact .inl ⟨sub, hsub, harchive.symm⟩
    · rw [length_map] at hlast
      exact .inr ⟨hlast, hsub'⟩
  refine ⟨?_, ?_, ?_⟩
  · intro id sub' hsub'
    rcases hcases id sub' hsub' with ⟨sub, hsub, rfl⟩ | ⟨_, rfl⟩
    · have hfits := hs.fits id sub hsub
      obtain ⟨_, hzero⟩ := hs.single id sub hsub hucast
      have hstate : sub.isTrivial = false → t.cells[sub.state]? =
          some { cell with sub := { cell.sub with out := {} } } := by
        intro hproper
        rw [hzero hproper]
        exact hnew
      refine ⟨fun hproper => ⟨_, hstate hproper⟩, fun _ => nofun, ?_, ?_,
        fun _ => .inl nofun⟩
      · intro found hfound hproper hlive hopen
        cases (hstate hproper) ▸ hfound
        rw [← hzero hproper] at hcell
        -- Only a disposed state has no observer while a subscription is live.
        rcases hfits.held cell hcell hproper hlive with hdisp | hheld
        · cases hdisp ▸ hopen
        · cases hheld ▸ hvalid
      · intro found hfound hproper _
        cases (hstate hproper) ▸ hfound
        exact .inr rfl
    · refine ⟨fun _ => ⟨_, hnew⟩, nofun, fun _ _ _ _ _ => rfl, ?_, nofun⟩
      intro found hfound _ _
      cases hnew ▸ hfound
      exact .inr rfl
  · intro i j a b ha hb hnone hnone' _
    rcases hcases i a ha with ⟨_, _, rfl⟩ | ⟨rfl, _⟩
    · cases hnone
    · rcases hcases j b hb with ⟨_, _, rfl⟩ | ⟨rfl, _⟩
      · cases hnone'
      · rfl
  · intro id sub' hsub' _
    rcases hcases id sub' hsub' with ⟨sub, hsub, rfl⟩ | ⟨_, rfl⟩
    · exact hs.single id sub hsub hucast
    · exact ⟨nofun, fun _ => rfl⟩

theorem concat_evolves {new : Cell τ} (h : cells' = cells ++ [new]) :
    CellsEvolve (fun _ => False) cells cells' := by
  intro i cell hcell
  refine ⟨cell, ?_, .refl cell.sub⟩
  rw [h]
  exact getElem?_concat_of_some _ hcell

theorem Owned.adds {s t : HotOperator τ} (hs : Owned s)
    (hkind : t.kind = s.kind) (hmcast : s.kind ≠ .ucast)
    (hcells : t.cells = s.cells ++ [⟨{}, true⟩])
    (hsubs : t.subs =
      s.subs ++ [{ impl := .mcastSub, state := s.cells.length }]) :
    Owned t := by
  have hnew : t.cells[s.cells.length]? = some ⟨{}, true⟩ := by
    rw [hcells]
    exact getElem?_concat_length
  have hfresh : ∀ (id : Nat) (sub : Subscription τ), s.subs[id]? = some sub →
      sub.received = none → sub.state ≠ s.cells.length := by
    intro id sub hsub hnone
    have hfits := hs.fits id sub hsub
    obtain ⟨cell, hcell⟩ := hfits.cell (hfits.isTrivial_eq hnone)
    exact Nat.ne_of_lt (List.getElem?_eq_some_iff.mp hcell).1
  refine ⟨?_, ?_, ?_⟩
  · intro id sub hsub
    rw [hsubs] at hsub
    rcases getElem?_concat_cases hsub with hold | ⟨_, rfl⟩
    · exact (hs.fits id sub hold).evolve (concat_evolves hcells)
    · refine ⟨fun _ => ⟨_, hnew⟩, nofun, fun _ _ _ _ _ => rfl, ?_, nofun⟩
      intro found hfound _ _
      cases hnew ▸ hfound
      exact .inr rfl
  · intro i j a b ha hb hnone hnone' hstate
    rw [hsubs] at ha hb
    rcases getElem?_concat_cases ha with ha | ⟨rfl, rfl⟩
    · rcases getElem?_concat_cases hb with hb | ⟨rfl, rfl⟩
      · exact hs.unique i j a b ha hb hnone hnone' hstate
      · exact absurd hstate (hfresh i a ha hnone)
    · rcases getElem?_concat_cases hb with hb | ⟨rfl, rfl⟩
      · exact absurd hstate.symm (hfresh j b hb hnone')
      · rfl
  · intro _ _ _ hucast
    exact absurd (hkind.symm.trans hucast) hmcast

theorem Owned.rejects {err : Option Nat} (hs : Owned s)
    (hkind : t.kind = s.kind) (hcells : t.cells = s.cells)
    (hsubs : t.subs = s.subs ++ [⟨.trivialImpl err, 0, true, 0, some []⟩]) :
    Owned t := by
  refine ⟨?_, ?_, ?_⟩
  · intro id sub hsub
    rw [hsubs] at hsub
    rw [hcells]
    rcases getElem?_concat_cases hsub with hold | ⟨_, rfl⟩
    · exact hs.fits id sub hold
    · exact ⟨nofun, fun _ => nofun, nofun, nofun, nofun⟩
  · intro i j a b ha hb hnone hnone' hstate
    rw [hsubs] at ha hb
    rcases getElem?_concat_cases ha with ha | ⟨_, rfl⟩
    · rcases getElem?_concat_cases hb with hb | ⟨_, rfl⟩
      · exact hs.unique i j a b ha hb hnone hnone' hstate
      · cases hnone'
    · cases hnone
  · intro id sub hsub hucast
    rw [hsubs] at hsub
    rcases getElem?_concat_cases hsub with hold | ⟨_, rfl⟩
    · exact hs.single id sub hold (hkind.symm.trans hucast)
    · exact ⟨nofun, nofun⟩

theorem reject_cases (sub : Subscription τ) :
    sub.reject = sub ∨ sub.isTrivial = true ∧ sub.live = true ∧
      ∃ err, sub.reject = { sub with received := some [.ofError err] } := by
  cases himpl : sub.impl with
  | ucastSub | mcastSub =>
    exact .inl (by simp only [Subscription.reject, himpl])
  | trivialImpl err =>
    cases hlive : sub.live with
    | false =>
      left
      simp only [Subscription.reject, himpl, hlive]
      rfl
    | true =>
      refine .inr ⟨?_, rfl, err, ?_⟩
      · simp [isTrivial, himpl]
      · simp only [Subscription.reject, himpl, hlive]
        rfl

theorem Owned.answers (hs : Owned s) (hkind : t.kind = s.kind)
    (hcells : t.cells = s.cells) (hsubs : t.subs = s.subs.modify id .reject) :
    Owned t := by
  refine hs.relabel hkind fun j sub' hsub' => ?_
  rw [hsubs, getElem?_modify] at hsub'
  obtain ⟨sub, hsub, hsame⟩ := Option.map_eq_some_iff.mp hsub'
  have hfits := hs.fits j sub hsub
  refine ⟨sub, hsub, ?_⟩
  rw [hcells]
  split at hsame
  · subst hsame
    rcases reject_cases sub with hsame | ⟨htrivial, hlive, err, hreject⟩
    · rw [hsame]
      exact ⟨hfits, fun h => h, rfl, rfl⟩
    · rw [hreject]
      refine ⟨⟨hfits.cell, fun _ => nofun, ?_, hfits.held, ?_⟩, nofun, rfl, rfl⟩
      · intro cell _ hproper
        cases htrivial ▸ hproper
      · simp [hlive]
  · subst hsame
    exact ⟨hfits, fun h => h, rfl, rfl⟩

theorem detach_evolves {cell' : Cell τ} (hcell : cells[sub.state]? = some cell)
    (hstep : cell.sub.step action = some cell'.sub) :
    CellsEvolve (fun i => i = sub.state ∧ action = .dispose) cells
      (cells.set sub.state cell') := by
  refine .set hcell ?_
  obtain ⟨hstays, hheld, hreports⟩ := step_evolves hstep
  exact ⟨hstays, hheld, fun hmem => (hreports hmem).imp_right fun h => ⟨rfl, h⟩⟩

theorem disposeAction_cases (h : sub.disposeAction fromExternal = some action) :
    (action = .dispose ∨ action = .cancel) ∧ sub.isTrivial = false ∧
      (action = .dispose → fromExternal = true ∨ sub.impl = .mcastSub) := by
  unfold isTrivial
  cases himpl : sub.impl with
  | ucastSub =>
    simp only [disposeAction, himpl] at h
    cases fromExternal with
    | true =>
      cases h
      exact ⟨.inl rfl, rfl, fun _ => .inl rfl⟩
    | false =>
      cases h
      refine ⟨.inr rfl, rfl, fun h => ?_⟩
      cases h
  | mcastSub =>
    simp only [disposeAction, himpl, Option.some.injEq] at h
    exact ⟨.inl h.symm, rfl, fun _ => .inr rfl⟩
  | trivialImpl err =>
    simp only [disposeAction, himpl] at h
    cases h

theorem Drops.owned (h : Drops s t id fromExternal) (hs : Owned s) :
    Owned t := by
  cases h with
  | @nothing disposals sub hkind hcells hsub _ hsubs hstateless =>
    have hfits := hs.fits _ _ hsub
    have hevolve : CellsEvolve (fun _ => False) s.cells t.cells :=
      .of_eq hcells
    refine hs.replace hkind hsub hsubs hevolve rfl rfl rfl ?_
    refine fits_drop disposals hfits hevolve ?_
    rcases hstateless with hdead | htrivial
    · rw [hcells]
      exact hfits.gone hdead
    · exact .inl (hfits.apart htrivial)
  | @state disposals sub action cell cell' hkind hcells hsub _ _ hsubs
      _ haction hcell hstep =>
      have hevolve := detach_evolves hcell hstep
      rw [← hcells] at hevolve
      refine hs.replace hkind hsub hsubs hevolve rfl rfl rfl ?_
      refine fits_drop disposals (hs.fits _ _ hsub) hevolve
        (.inr ⟨cell', ?_, ?_⟩)
      · rw [hcells]
        exact getElem?_set_of_some _ hcell
      · exact step_disposed hstep (disposeAction_cases haction).1

theorem Moves.owned (h : Moves s t a) (hs : Owned s) : Owned t := by
  cases h with
  | shifts h =>
    refine hs.relabel h.kind fun id sub hsub => ?_
    rw [h.subs] at hsub
    exact ⟨sub, hsub, (hs.fits id sub hsub).evolve h.cells, fun h => h, rfl,
      rfl⟩
  | marks hkind hcells hsub hsubs =>
    obtain ⟨hcell, hapart, hcurrent, hheld, hgone⟩ := hs.fits _ _ hsub
    have hevolve : CellsEvolve (fun _ => False) s.cells t.cells :=
      .of_eq hcells
    refine hs.replace hkind hsub hsubs hevolve rfl rfl rfl ?_
    rw [hcells]
    exact ⟨hcell, hapart, hcurrent, hheld, hgone⟩
  | drops h => exact h.owned hs
  | moves _ hucast hcell hvalid hcells hsubs =>
    exact hs.moves hucast hcell hvalid hcells hsubs
  | adds hkind hmcast hcells hsubs => exact hs.adds hkind hmcast hcells hsubs
  | rejects hkind hcells hsubs => exact hs.rejects hkind hcells hsubs
  | answers hkind hcells hsubs => exact hs.answers hkind hcells hsubs

structure Follows (a : HotAction τ) (id : Nat) (cells : List (Cell τ))
    (sub : Subscription τ) (cells' : List (Cell τ)) (sub' : Subscription τ) :
    Prop where
  silent : sub.live = false →
    sub'.live = false ∧ sub'.events cells' = sub.events cells
  reports : .disposed ∈ sub'.events cells' → .disposed ∈ sub.events cells ∨
    a = .runDispose id ∧ 0 < sub.disposals ∨
      a = .cancel id ∧ sub.impl = .mcastSub
  pending : 0 < sub'.disposals → 0 < sub.disposals ∨ a = .dispose id

theorem Follows.of_evolve {a : HotAction τ} {id : Nat} {sub' : Subscription τ}
    (hfits : sub.Fits cells) (hcells : CellsEvolve external cells cells')
    (hstate : sub'.state = sub.state)
    (hrecv : sub'.received = sub.received)
    (hlive : sub.live = false → sub'.live = false)
    (hpend : 0 < sub'.disposals → 0 < sub.disposals ∨ a = .dispose id)
    (hexternal : ∀ cell, sub.received = none → external sub.state →
      cells[sub.state]? = some cell → cell.sub.disposed = false →
        a = .runDispose id ∧ 0 < sub.disposals ∨
          a = .cancel id ∧ sub.impl = .mcastSub) :
    Follows a id cells sub cells' sub' := by
  have hsame : sub'.events cells' = sub.events cells' := by
    rw [Subscription.events, Subscription.events, hrecv, hstate]
  refine ⟨fun hdead => ⟨hlive hdead, ?_⟩, fun hmem => ?_, hpend⟩
  · rw [hsame]
    cases hrecv : sub.received with
    | some events =>
      rw [events_of_received hrecv, events_of_received hrecv]
    | none =>
      rcases hfits.gone hdead with hsome | ⟨cell, hcell, hdisp⟩
      · exact absurd hrecv hsome
      · obtain ⟨cell', hcell', hevolves⟩ := hcells _ cell hcell
        rw [events_of_cell hrecv hcell', events_of_cell hrecv hcell,
          (hevolves.stays hdisp).2]
  · rw [hsame] at hmem
    refine (hfits.events_reports hcells hmem).imp_right ?_
    rintro ⟨hnone, hext, cell, hcell, hopen⟩
    exact hexternal cell hnone hext hcell hopen

theorem Follows.refl (hfits : sub.Fits cells)
    (hcells : CellsEvolve (fun _ => False) cells cells') :
    Follows a id cells sub cells' sub :=
  .of_evolve hfits hcells rfl rfl (fun h => h) .inl fun _ _ h => h.elim

theorem follows_set {old : Subscription τ} (hsub : s.subs[j]? = some sub)
    (hold : s.subs[id]? = some old) (hsubs : t.subs = s.subs.set id new)
    (hself : Follows a id s.cells old t.cells new)
    (hother : j ≠ id → Follows a j s.cells sub t.cells sub) :
    ∃ sub', t.subs[j]? = some sub' ∧ Follows a j s.cells sub t.cells sub' := by
  rw [hsubs]
  rcases eq_or_ne j id with rfl | hne
  · cases hsub ▸ hold
    exact ⟨new, getElem?_set_of_some new hold, hself⟩
  · exact ⟨sub, by rw [getElem?_set_ne hne.symm, hsub], hother hne⟩

theorem Drops.follows (h : Drops s t id fromExternal) (hs : Owned s)
    (hsub : s.subs[j]? = some sub) :
    ∃ sub', t.subs[j]? = some sub' ∧
      Follows (disposeCall id fromExternal) j s.cells sub t.cells sub' := by
  have hfits := hs.fits j sub hsub
  cases h with
  | nothing _ hcells hold hdisposals hsubs _ =>
    have hevolve : CellsEvolve (fun _ => False) s.cells t.cells :=
      .of_eq hcells
    refine follows_set hsub hold hsubs ?_ fun _ => .refl hfits hevolve
    refine .of_evolve (hs.fits _ _ hold) hevolve rfl rfl (fun _ => rfl) ?_
      fun _ _ h => h.elim
    exact fun hpos => .inl (Nat.lt_of_lt_of_le hpos hdisposals)
  | @state disposals old action cell cell' _ hcells hold hdisposals hpend
      hsubs hlive haction hcell hstep =>
      have hevolve := detach_evolves hcell hstep
      rw [← hcells] at hevolve
      obtain ⟨_, hproper, hmcast⟩ := disposeAction_cases haction
      refine follows_set hsub hold hsubs ?_ fun hne => ?_
      · refine .of_evolve (hs.fits _ _ hold) hevolve rfl rfl (fun _ => rfl) ?_
          ?_
        · exact fun hpos => .inl (Nat.lt_of_lt_of_le hpos hdisposals)
        · intro _ _ hext _ _
          cases fromExternal with
          | true => exact .inl ⟨rfl, hpend rfl⟩
          | false =>
            exact .inr ⟨rfl, (hmcast hext.2).resolve_left nofun⟩
      · refine .of_evolve hfits hevolve rfl rfl (fun h => h) .inl ?_
        -- The two observers would share a state that is not disposed.
        intro found hnone hext hfound hopen
        rw [hext.1] at hfound
        have hcurrent := (hs.fits _ _ hold).current found hfound hproper hlive
          hopen
        exact absurd (hs.unique j id sub old hsub hold hnone hcurrent
          hext.1) hne

theorem archive_events (hfits : sub.Fits cells)
    (hcell : sub.isTrivial = false → cells[sub.state]? = some cell) :
    (sub.archive cell.sub.out.events).events cells' = sub.events cells := by
  rw [events_of_received rfl]
  cases hrecv : sub.received with
  | some events =>
    rw [events_of_received hrecv]
    rfl
  | none =>
    rw [events_of_cell hrecv (hcell (hfits.isTrivial_eq hrecv))]
    rfl

theorem Moves.follows (h : Moves s t a) (hs : Owned s)
    (hsub : s.subs[j]? = some sub) :
    ∃ sub', t.subs[j]? = some sub' ∧ Follows a j s.cells sub t.cells sub' := by
  have hfits := hs.fits j sub hsub
  cases h with
  | shifts h =>
    rw [h.subs]
    exact ⟨sub, hsub, .refl hfits h.cells⟩
  | @marks id old _ hcells hold hsubs =>
    have hevolve : CellsEvolve (fun _ => False) s.cells t.cells :=
      .of_eq hcells
    refine follows_set hsub hold hsubs ?_ fun _ => .refl hfits hevolve
    exact .of_evolve (hs.fits id old hold) hevolve rfl rfl (fun h => h)
      (fun _ => .inr rfl) fun _ _ h => h.elim
  | drops h => exact h.follows hs hsub
  | @moves cell _ hucast hcell _ _ hsubs =>
    have hstate : sub.isTrivial = false → s.cells[sub.state]? = some cell := by
      intro hproper
      rw [(hs.single j sub hsub hucast).2 hproper]
      exact hcell
    have hevs : (sub.archive cell.sub.out.events).events t.cells =
        sub.events s.cells := archive_events hfits hstate
    refine ⟨sub.archive cell.sub.out.events, ?_, ?_⟩
    · rw [hsubs]
      refine getElem?_concat_of_some _ ?_
      rw [getElem?_map, hsub]
      rfl
    · refine ⟨fun hdead => ⟨hdead, hevs⟩, fun hmem => .inl ?_, .inl⟩
      rwa [hevs] at hmem
  | adds _ _ hcells hsubs =>
    rw [hsubs]
    exact ⟨sub, getElem?_concat_of_some _ hsub,
      .refl hfits (concat_evolves hcells)⟩
  | rejects _ hcells hsubs =>
    rw [hsubs]
    exact ⟨sub, getElem?_concat_of_some _ hsub, .refl hfits (.of_eq hcells)⟩
  | @answers id _ hcells hsubs =>
    refine ⟨if id = j then sub.reject else sub, ?_, ?_⟩
    · rw [hsubs, getElem?_modify, hsub]
      rfl
    · split
      · rcases reject_cases sub with hsame | ⟨_, hlive, err, hreject⟩
        · rw [hsame]
          exact .refl hfits (.of_eq hcells)
        · rw [hreject]
          refine ⟨by simp [hlive], fun hmem => ?_, .inl⟩
          · rw [events_of_received rfl, mem_singleton] at hmem
            cases err <;> cases hmem
      · exact .refl hfits (.of_eq hcells)

theorem Moves.fresh (h : Moves s t a) (hnone : s.subs[id]? = none)
    (hsub : t.subs[id]? = some sub) :
    sub.disposals = 0 ∧ sub.events t.cells = [] := by
  have hset : ∀ (j : Nat) (old new : Subscription τ),
      s.subs[j]? = some old → t.subs = s.subs.set j new → False := by
    intro j old new hold hsubs
    rw [hsubs] at hsub
    rcases getElem?_set_cases hsub with ⟨rfl, _⟩ | ⟨_, hother⟩
    · cases hnone ▸ hold
    · cases hnone ▸ hother
  cases h with
  | shifts h =>
    rw [h.subs] at hsub
    cases hnone ▸ hsub
  | marks _ _ hold hsubs => exact (hset _ _ _ hold hsubs).elim
  | drops h =>
    cases h with
    | nothing _ _ hold _ hsubs | state _ _ hold _ _ hsubs =>
      exact (hset _ _ _ hold hsubs).elim
  | @moves cell _ _ hcell _ hcells hsubs =>
    rw [hsubs] at hsub
    rcases getElem?_concat_cases hsub with hold | ⟨_, rfl⟩
    · rw [getElem?_map, hnone] at hold
      cases hold
    · have hnew : t.cells[0]? =
          some { cell with sub := { cell.sub with out := {} } } := by
        rw [hcells]
        exact getElem?_set_of_some _ hcell
      have hevs : Subscription.events t.cells
          { impl := .ucastSub, state := 0 } = _ :=
        Subscription.events_of_cell rfl hnew
      exact ⟨rfl, hevs⟩
  | adds _ _ hcells hsubs =>
    rw [hsubs] at hsub
    rcases getElem?_concat_cases hsub with hold | ⟨_, rfl⟩
    · cases hnone ▸ hold
    · refine ⟨rfl, ?_⟩
      rw [hcells, Subscription.events_of_cell rfl getElem?_concat_length]
  | rejects _ _ hsubs =>
    rw [hsubs] at hsub
    rcases getElem?_concat_cases hsub with hold | ⟨_, rfl⟩
    · cases hnone ▸ hold
    · exact ⟨rfl, rfl⟩
  | answers _ _ hsubs =>
    rw [hsubs, getElem?_modify, hnone] at hsub
    cases hsub

theorem step_owned (hs : Owned s) (hstep : s.step a = some t) : Owned t :=
  (step_moves hstep).owned hs

theorem events_of_sub (hsub : s.subs[id]? = some sub) :
    s.events id = sub.events s.cells := by
  rw [events, hsub]

theorem exec_silent (hs : Owned s) (hsub : s.subs[id]? = some sub)
    (hdead : sub.live = false) (hrun : exec step s as = some t) :
    t.events id = s.events id := by
  have hinvariant : Owned t ∧ ∃ sub : Subscription τ,
      t.subs[id]? = some sub ∧ sub.live = false ∧
        sub.events t.cells = s.events id := by
    refine exec_invariant
      (fun t : HotOperator τ => Owned t ∧ ∃ sub : Subscription τ,
        t.subs[id]? = some sub ∧ sub.live = false ∧
          sub.events t.cells = s.events id) ?_
      ⟨hs, sub, hsub, hdead, (events_of_sub hsub).symm⟩ hrun
    rintro u a v ⟨hu, sub, hsub, hdead, hevs⟩ hstep
    have hmoves := step_moves hstep
    obtain ⟨sub', hsub', hfollows⟩ := hmoves.follows hu hsub
    obtain ⟨hdead', hevs'⟩ := hfollows.silent hdead
    exact ⟨hmoves.owned hu, sub', hsub', hdead', hevs'.trans hevs⟩
  obtain ⟨_, sub, hsub, _, hevs⟩ := hinvariant
  rw [events_of_sub hsub, hevs]

/-- Whose observers were told that they were disposed, and whose subscriptions
will be. -/
def Accounted (kind : HotKind) (as : List (HotAction τ))
    (s : HotOperator τ) : Prop :=
  ∀ (id : Nat) (sub : Subscription τ), s.subs[id]? = some sub →
    (0 < sub.disposals → .dispose id ∈ as) ∧
      (.disposed ∈ sub.events s.cells →
        .dispose id ∈ as ∨ kind ≠ .ucast ∧ .cancel id ∈ as)

theorem Accounted.step (hs : Owned s) (hkind : s.kind = kind)
    (h : Accounted kind as s) (hstep : s.step a = some t) :
    Accounted kind (as ++ [a]) t := by
  have hmoves := step_moves hstep
  intro id sub' hsub'
  cases hsub : s.subs[id]? with
  | none =>
    obtain ⟨hzero, hevs⟩ := hmoves.fresh hsub hsub'
    rw [hzero, hevs]
    exact ⟨nofun, nofun⟩
  | some sub =>
    obtain ⟨hpend, hreported⟩ := h id sub hsub
    obtain ⟨found, hfound, hfollows⟩ := hmoves.follows hs hsub
    cases hfound ▸ hsub'
    simp only [mem_append, mem_singleton]
    refine ⟨fun hpos => ?_, fun hmem => ?_⟩
    · exact (hfollows.pending hpos).imp hpend Eq.symm
    · rcases hfollows.reports hmem with hold | ⟨_, hpos⟩ | ⟨rfl, hmcast⟩
      · exact (hreported hold).imp .inl fun ⟨hne, hin⟩ => ⟨hne, .inl hin⟩
      · exact .inl (.inl (hpend hpos))
      · refine .inr ⟨fun hucast => ?_, .inr rfl⟩
        exact (hs.single id sub hsub (hkind.trans hucast)).1 hmcast

theorem exec_accounted
    (hrun : exec HotOperator.step (initial kind source) as = some s) :
    s.kind = kind ∧ Accounted kind as s := by
  have hinit : (initial kind source : HotOperator τ).kind = kind ∧
      (initial kind source : HotOperator τ).subs = [] := by
    cases kind <;> exact ⟨rfl, rfl⟩
  have hinvariant : Owned s ∧ s.kind = kind ∧ Accounted kind ([] ++ as) s := by
    refine exec_history
      (fun as s => Owned s ∧ s.kind = kind ∧ Accounted kind as s) ?_
      ⟨owned_initial kind source, hinit.1, ?_⟩ hrun
    · rintro as s a t ⟨hs, hkind, haccounted⟩ hstep
      exact ⟨step_owned hs hstep, (step_moves hstep).kind_eq.trans hkind,
        haccounted.step hs hkind hstep⟩
    · intro id sub hsub
      rw [hinit.2] at hsub
      cases hsub
  exact hinvariant.2

theorem Drops.dead (h : Drops s t id fromExternal) :
    ∃ sub : Subscription τ, t.subs[id]? = some sub ∧ sub.live = false := by
  cases h with
  | nothing _ _ hsub _ hsubs | state _ _ hsub _ _ hsubs =>
    rw [hsubs]
    exact ⟨_, getElem?_set_of_some _ hsub, rfl⟩

/-- The observer gets no event from its own call unless it belongs to an
`mcast_sub` whose state is not disposed. -/
theorem Drops.events_iff (h : Drops s t id false) (hs : Owned s)
    (hsub : s.subs[id]? = some sub) :
    t.events id = s.events id ↔
      sub.impl ≠ .mcastSub ∨ s.isDisposed sub = true := by
  have hfits := hs.fits id sub hsub
  cases h with
  | @nothing disposals old _ hcells hold _ hsubs hstateless =>
    cases hsub ▸ hold
    have hnew : t.subs[id]? = some { sub with live := false, disposals } := by
      rw [hsubs]
      exact getElem?_set_of_some _ hsub
    refine ⟨fun _ => ?_, fun _ => ?_⟩
    · rcases hstateless with hdead | htrivial
      · exact .inr (by rw [isDisposed, hdead]; rfl)
      · refine .inl fun hmcast => ?_
        rw [Subscription.isTrivial, hmcast] at htrivial
        cases htrivial
    · rw [events_of_sub hnew, events_of_sub hsub, hcells]
      rfl
  | @state disposals old action cell cell' _ hcells hold _ _ hsubs hlive haction
      hcell hstep =>
      cases hsub ▸ hold
      have hnew : t.subs[id]? = some { sub with live := false, disposals } := by
        rw [hsubs]
        exact getElem?_set_of_some _ hsub
      have hcell' : t.cells[sub.state]? = some cell' := by
        rw [hcells]
        exact getElem?_set_of_some _ hcell
      have hproper := (disposeAction_cases haction).2.1
      have hsame : s.isDisposed sub = cell.sub.disposed := by
        simp [isDisposed, hlive, hproper, hcell]
      rw [hsame, events_of_sub hnew, events_of_sub hsub]
      cases hdisp : cell.sub.disposed with
      | true =>
        have hout := ((step_evolves hstep).stays hdisp).2
        refine ⟨fun _ => .inr rfl, fun _ => ?_⟩
        simp only [Subscription.events, hcell', hcell, hout]
      | false =>
        have hnone := hfits.current cell hcell hproper hlive hdisp
        simp only [Subscription.events, hnone, hcell', hcell]
        cases himpl : sub.impl with
        | ucastSub =>
          simp only [Subscription.disposeAction, himpl] at haction
          cases haction
          refine ⟨fun _ => .inl fun h => ?_,
            fun _ => step_cancel_events hstep⟩
          cases h
        | mcastSub =>
          simp only [Subscription.disposeAction, himpl] at haction
          cases haction
          have hvalid : cell.sub.out.valid = true := by
            refine (hfits.held cell hcell hproper hlive).resolve_left ?_
            rw [hdisp]
            exact Bool.false_ne_true
          rw [step_dispose_events hstep hdisp hvalid]
          refine ⟨fun hsame => ?_, fun h => ?_⟩
          · cases append_right_eq_self.mp hsame
          · exact absurd rfl (h.resolve_right Bool.false_ne_true)
        | trivialImpl err =>
          simp only [Subscription.disposeAction, himpl] at haction
          cases haction

/-- An observer that cancels gets no event any more if and only if its
subscription is not that of an `mcast` or had been disposed already.  That it
was disposed is only reported after an external call of `dispose` or, to an
observer of an `mcast`, after its own `cancel`. -/
theorem cancel_silences_observer (kind : HotKind) (source : PublishState)
    {as : List (HotAction τ)} {s t : HotOperator τ} {id : Nat}
    {sub : Subscription τ} (hrun : exec step (initial kind source) as = some s)
    (hsub : s.subs[id]? = some sub) (hcancel : s.step (.cancel id) = some t) :
    ((∀ bs u, exec step t bs = some u → u.events id = s.events id) ↔
      sub.impl ≠ .mcastSub ∨ s.isDisposed sub = true) ∧
    (kind = .ucast → sub.impl ≠ .mcastSub) ∧
    (.disposed ∈ s.events id →
      .dispose id ∈ as ∨ kind ≠ .ucast ∧ .cancel id ∈ as) := by
  have hs := exec_invariant Owned (fun _ _ _ => step_owned)
    (owned_initial kind source) hrun
  obtain ⟨hkind, haccounted⟩ := exec_accounted hrun
  have hdrops := cancel_drops (of_guarded hcancel)
  refine ⟨⟨fun hsilent => ?_, fun hspared bs u hrest => ?_⟩, ?_, ?_⟩
  · exact (hdrops.events_iff hs hsub).mp (hsilent [] t rfl)
  · rw [← (hdrops.events_iff hs hsub).mpr hspared]
    obtain ⟨sub', hsub', hdead⟩ := hdrops.dead
    exact exec_silent (step_owned hs hcancel) hsub' hdead hrest
  · exact fun hucast => (hs.single id sub hsub (hkind.trans hucast)).1
  · rw [events_of_sub hsub]
    exact (haccounted id sub hsub).2

/-- The observer cancels from inside `on_next`, with an item in the buffer. -/
theorem cancel_silences_observer_in_pull :
    ∃ s t : HotOperator Nat,
      exec step (initial .ucast {})
        [.push 7, .push 8, .subscribe, .request 0 2, .ret, .runPull 0,
          .iterate] = some s ∧
      s.step (.cancel 0) = some t ∧ s.events 0 = [.next 7] ∧
      ∀ bs u, exec step t bs = some u → u.events 0 = [.next 7] := by
  refine ⟨_, _, rfl, rfl, rfl, ?_⟩
  have hsilent := (@cancel_silences_observer Nat .ucast {}
    [.push 7, .push 8, .subscribe, .request 0 2, .ret, .runPull 0, .iterate]
    _ _ 0 _ rfl rfl rfl).1
  exact hsilent.mpr (.inl nofun)

/-- The first call that the observer gets is due to its own `cancel`. -/
theorem mcast_cancel_reports_disposed :
    (∃ s t : HotOperator Nat,
      exec step (initial .mcast {}) [.subscribe, .ret] = some s ∧
      s.step (.cancel 0) = some t ∧ s.events 0 = [] ∧
      t.events 0 = [.disposed]) ∧
    ∃ s t : HotOperator Nat,
      exec step (initial .publish {}) [.subscribe, .ret] = some s ∧
      s.step (.cancel 0) = some t ∧ s.events 0 = [] ∧
      t.events 0 = [.disposed] :=
  ⟨⟨_, _, rfl, rfl, rfl, rfl⟩, _, _, rfl, rfl, rfl, rfl⟩

end HotOperator

end ActorFramework.Flow
