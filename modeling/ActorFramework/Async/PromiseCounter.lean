import ActorFramework.Async.PromiseMoves
import ActorFramework.Foundation.Counting

/-!
# The counter of promises

The counter of a cell lies between the number of promises that have not left
the cell and the number of those that still answer for it.  An assignment that
drops a pointer breaks the upper bound; without one, a cell that has no value
is never left alone.
-/

namespace ActorFramework.Async

open Foundation List Function

variable {α : Type*}

def PromiseHandle.held (c : Nat) (handle : PromiseHandle) : Bool :=
  handle.cell == some c &&
    match handle.pc with
    | .idle | .releasing => true
    | _ => false

/-- The object counts as a promise or is about to break the promise. -/
def PromiseHandle.kept (c : Nat) (handle : PromiseHandle) : Bool :=
  handle.cell == some c &&
    match handle.pc with
    | .idle | .releasing | .breaking => true
    | _ => false

namespace PromiseSystem

def held (s : PromiseSystem α) (c : Nat) : Nat :=
  s.handles.countP (PromiseHandle.held c)

def kept (s : PromiseSystem α) (c : Nat) : Nat :=
  s.handles.countP (PromiseHandle.kept c)

/-- The counter of a cell without a value lies between the promises that
have not left yet and those that still answer for the cell. -/
structure Tracked (s : PromiseSystem α) : Prop where
  born : ∀ handle ∈ s.handles, ∀ c, handle.cell = some c → c < s.created
  unborn : ∀ c, s.created ≤ c → s.cells c = .initial
  lower : ∀ c, (s.cells c).value = .none → s.held c ≤ (s.cells c).promises
  upper : ∀ c, c < s.created → (s.cells c).value = .none →
    (s.cells c).promises ≤ s.kept c
  alive : ∀ c, c < s.created → (s.cells c).value = .none → 1 ≤ s.kept c

theorem tracked_initial : Tracked (initial : PromiseSystem α) where
  born _ hhandle := nomatch hhandle
  unborn _ _ := rfl
  lower _ _ := Nat.zero_le _
  upper _ hc := absurd hc (Nat.not_lt_zero _)
  alive _ hc := absurd hc (Nat.not_lt_zero _)

/-- An assignment does not drop the pointer to a cell without a value. -/
def Retains (s : PromiseSystem α) : PromiseAction α → Prop
  | .moveAssign target source =>
    target = source ∨
      ∀ c, (s.handles[target]?).bind PromiseHandle.cell = some c →
        (s.cells c).value ≠ .none
  | _ => True

namespace Tracked

variable {s t : PromiseSystem α}

variable {h d source : Nat} {old new : PromiseHandle} {pc : HandlePc}
  {cell : Option Nat}

section

variable (hs : Tracked s)
include hs

theorem keeps (hcreated : t.created = s.created)
    (hunborn : ∀ c, s.created ≤ c → t.cells c = s.cells c)
    (hcell : ∀ c, (t.cells c).value = (s.cells c).value ∧
      (t.cells c).promises = (s.cells c).promises)
    (hborn : ∀ handle ∈ t.handles, ∀ c, handle.cell = some c → c < s.created)
    (hcounts : ∀ c, (s.cells c).value = .none → t.held c = s.held c ∧ t.kept c =
      s.kept c) : Tracked t where
  born := by
    rw [hcreated]
    exact hborn
  unborn c := by
    rw [hcreated]
    exact fun hc => (hunborn c hc).trans (hs.unborn c hc)
  lower c := by
    rw [(hcell c).1, (hcell c).2]
    intro hempty
    rw [(hcounts c hempty).1]
    exact hs.lower c hempty
  upper c := by
    rw [hcreated, (hcell c).1, (hcell c).2]
    intro hc hempty
    rw [(hcounts c hempty).2]
    exact hs.upper c hc hempty
  alive c := by
    rw [hcreated, (hcell c).1]
    intro hc hempty
    rw [(hcounts c hempty).2]
    exact hs.alive c hc hempty

theorem replace (hh : s.handles[h]? = some old)
    (hcreated : t.created = s.created)
    (hhandles : t.handles = s.handles.set h new)
    (hcell : ∀ c, new.cell = some c → old.cell = some c)
    (hunborn : ∀ c, s.created ≤ c → t.cells c = s.cells c)
    (hval : ∀ c, (t.cells c).value = .none → (s.cells c).value = .none)
    (hlower : ∀ c, (t.cells c).value = .none → (s.cells c).promises + (new.held
      c).toNat ≤ (t.cells c).promises + (old.held c).toNat)
    (hupper : ∀ c, (t.cells c).value = .none → (t.cells c).promises + (old.kept
      c).toNat ≤ (s.cells c).promises + (new.kept c).toNat)
    (halive : ∀ c, (t.cells c).value = .none → old.kept c = new.kept c ∨
      old.kept c = false ∨ 2 ≤ (s.cells c).promises) : Tracked t := by
  have hcount : ∀ p : PromiseHandle → Bool,
      t.handles.countP p + (p old).toNat =
        s.handles.countP p + (p new).toNat := by
    intro p
    rw [hhandles]
    exact countP_set_add p hh new
  refine ⟨?_, ?_, ?_, ?_, ?_⟩
  · intro handle hhandle c hc
    rw [hhandles] at hhandle
    rw [hcreated]
    rcases mem_or_eq_of_mem_set hhandle with hmem | rfl
    · exact hs.born handle hmem c hc
    · exact hs.born old (mem_of_getElem? hh) c (hcell c hc)
  · intro c hc
    rw [hcreated] at hc
    rw [hunborn c hc]
    exact hs.unborn c hc
  · intro c hempty
    have hsum := hcount (PromiseHandle.held c)
    have hold := hs.lower c (hval c hempty)
    have hstep := hlower c hempty
    unfold held at hold ⊢
    omega
  · intro c hc hempty
    rw [hcreated] at hc
    have hsum := hcount (PromiseHandle.kept c)
    have hold := hs.upper c hc (hval c hempty)
    have hstep := hupper c hempty
    unfold kept at hold ⊢
    omega
  · intro c hc hempty
    rw [hcreated] at hc
    have hsum := hcount (PromiseHandle.kept c)
    have hold := hs.upper c hc (hval c hempty)
    have hone := hs.alive c hc (hval c hempty)
    have hbound := Bool.toNat_le (old.kept c)
    unfold kept at hold hone ⊢
    rcases halive c hempty with heq | hzero | htwo
    · rw [heq] at hsum
      omega
    · rw [hzero] at hsum
      simp only [Bool.toNat_false] at hsum
      omega
    · omega

theorem replaceAt {cell : AsyncCell α} (hh : s.handles[h]? = some ⟨some d, pc⟩)
    (hcreated : t.created = s.created)
    (hhandles : t.handles = s.handles.set h new)
    (hcells : t.cells = update s.cells d cell)
    (hnew : ∀ c, new.cell = some c → d = c)
    (hval : cell.value = .none → (s.cells d).value = .none)
    (hlower : cell.value = .none → (s.cells d).promises + (new.held d).toNat ≤
      cell.promises + ((⟨some d, pc⟩ : PromiseHandle).held d).toNat)
    (hupper : cell.value = .none → cell.promises + ((⟨some d, pc⟩ :
      PromiseHandle).kept d).toNat ≤ (s.cells d).promises + (new.kept d).toNat)
    (halive : cell.value = .none → (⟨some d, pc⟩ : PromiseHandle).kept d =
      new.kept d ∨ (⟨some d, pc⟩ : PromiseHandle).kept d = false ∨ 2 ≤ (s.cells
      d).promises) : Tracked t := by
  have hmine : d < s.created :=
    hs.born _ (mem_of_getElem? hh) d rfl
  have hfalse : ∀ c, c ≠ d → new.held c = false ∧ new.kept c = false := by
    intro c hc
    have hcell : (new.cell == some c) = false := by
      rw [beq_eq_false_iff_ne]
      exact fun heq => hc (hnew c heq).symm
    simp [PromiseHandle.held, PromiseHandle.kept, hcell]
  have hfalse' : ∀ c, c ≠ d → (⟨some d, pc⟩ : PromiseHandle).held c = false ∧
      (⟨some d, pc⟩ : PromiseHandle).kept c = false := by
    intro c hc
    simp [PromiseHandle.held, PromiseHandle.kept, hc.symm]
  -- Away from `d` neither object counts; at `d` the hypotheses apply.
  refine hs.replace hh hcreated hhandles
    (fun c hc => by rw [hnew c hc]) ?_ ?_ ?_ ?_ ?_
  · intro c hc
    rw [hcells, update_of_ne (by omega)]
  all_goals
    intro c
    rw [hcells]
    by_cases hc : c = d
    · subst hc
      rw [update_self]
      assumption
    · rw [update_of_ne hc]
      simp [hfalse c hc, hfalse' c hc]

theorem replaceSame (hh : s.handles[h]? = some ⟨some d, pc⟩)
    (hcreated : t.created = s.created)
    (hhandles : t.handles = s.handles.set h new) (hcells : t.cells = s.cells)
    (hnew : ∀ c, new.cell = some c → d = c)
    (hcounts : (s.cells d).value = .none → (new.held d = true → (⟨some d, pc⟩ :
      PromiseHandle).held d = true) ∧ (⟨some d, pc⟩ : PromiseHandle).kept d =
      new.kept d) : Tracked t := by
  have hupdate : t.cells = update s.cells d (s.cells d) := by
    rw [hcells, update_eq_self]
  refine hs.replaceAt hh hcreated hhandles hupdate hnew id ?_ ?_ ?_
  · intro hempty
    cases hheld : new.held d with
    | false => exact Nat.le_add_right _ _
    | true =>
      exact Nat.le_of_eq (by rw [(hcounts hempty).1 hheld])
  · intro hempty
    exact Nat.le_of_eq (by rw [(hcounts hempty).2])
  · intro hempty
    exact Or.inl (hcounts hempty).2

theorem replaceUncounted (hh : s.handles[h]? = some old)
    (hcreated : t.created = s.created)
    (hhandles : t.handles = s.handles.set h new) (hcells : t.cells = s.cells)
    (hcell : ∀ c, new.cell = some c → old.cell = some c)
    (hcounts : ∀ c, old.held c = new.held c ∧ old.kept c = new.kept c) :
    Tracked t := by
  refine hs.replace hh hcreated hhandles hcell ?_ ?_ ?_ ?_ ?_
  all_goals
    intro c
    simp [hcells, hcounts c]

theorem construct (hcreated : t.created = s.created + 1)
    (hcells : t.cells = s.cells)
    (hhandles : t.handles = s.handles ++ [⟨some s.created, .idle⟩]) :
    Tracked t := by
  have hfresh : s.cells s.created = .initial := hs.unborn _ le_rfl
  have hcount : ∀ p : PromiseHandle → Bool, t.handles.countP p =
      s.handles.countP p + (p ⟨some s.created, .idle⟩).toNat := by
    intro p
    rw [hhandles, countP_concat]
  have hnone : s.held s.created = 0 := by
    refine countP_eq_zero.mpr fun handle hhandle hcount => ?_
    simp only [PromiseHandle.held, Bool.and_eq_true, beq_iff_eq] at hcount
    exact Nat.lt_irrefl _ (hs.born handle hhandle _ hcount.1)
  have hold : ∀ c, c ≠ s.created →
      t.held c = s.held c ∧ t.kept c = s.kept c := by
    intro c hc
    have hidle : (⟨some s.created, .idle⟩ : PromiseHandle).cell ≠ some c :=
      fun heq => hc (Option.some.inj heq).symm
    constructor
    · rw [held, hcount, PromiseHandle.held, beq_eq_false_iff_ne.mpr hidle]
      rfl
    · rw [kept, hcount, PromiseHandle.kept, beq_eq_false_iff_ne.mpr hidle]
      rfl
  have hnew : t.held s.created = 1 ∧ 1 ≤ t.kept s.created := by
    constructor
    · rw [held, hcount, ← held, hnone]
      simp [PromiseHandle.held]
    · rw [kept, hcount]
      simp [PromiseHandle.kept]
  refine ⟨?_, ?_, ?_, ?_, ?_⟩
  · intro handle hhandle c hc
    rw [hhandles] at hhandle
    rcases mem_append.mp hhandle with hmem | hmem
    · have := hs.born handle hmem c hc
      omega
    · rw [mem_singleton.mp hmem, Option.some.injEq] at hc
      omega
  · intro c hc
    rw [hcells]
    exact hs.unborn c (by omega)
  · intro c hempty
    rw [hcells] at hempty ⊢
    by_cases hc : c = s.created
    · rw [hc, hnew.1, hfresh]
      exact le_rfl
    · rw [(hold c hc).1]
      exact hs.lower c hempty
  · intro c hbound hempty
    rw [hcells] at hempty ⊢
    by_cases hc : c = s.created
    · rw [hc, hfresh]
      exact hnew.2
    · rw [(hold c hc).2]
      exact hs.upper c (by omega) hempty
  · intro c hbound hempty
    rw [hcells] at hempty
    by_cases hc : c = s.created
    · rw [hc]
      exact hnew.2
    · rw [(hold c hc).2]
      exact hs.alive c (by omega) hempty

theorem subscribe {c : Nat} {events : List CellEvent} (hc : c < s.created)
    (hcreated : t.created = s.created) (hhandles : t.handles = s.handles)
    (hcells : t.cells = update s.cells c { s.cells c with events := events }) :
    Tracked t := by
  have hcell : ∀ d, (t.cells d).value = (s.cells d).value ∧
      (t.cells d).promises = (s.cells d).promises := by
    rw [hcells]
    exact fun d => ⟨update_field AsyncCell.value (by rfl) d,
      update_field AsyncCell.promises (by rfl) d⟩
  refine hs.keeps hcreated (fun d hd => ?_) hcell ?_ ?_
  · rw [hcells, update_of_ne (by omega)]
  · rw [hhandles]
    exact hs.born
  · simp [held, kept, hhandles]

theorem move (hsrc : s.handles[source]? = some ⟨cell, .idle⟩) :
    Tracked
      { s with
        handles := s.handles.set source ⟨none, .idle⟩ ++ [⟨cell, .idle⟩] } := by
  have hcount : ∀ p : PromiseHandle → Bool, p ⟨none, .idle⟩ = false →
      (s.handles.set source ⟨none, .idle⟩ ++
        [(⟨cell, .idle⟩ : PromiseHandle)]).countP p =
        s.handles.countP p := by
    intro p hp
    have hset := countP_set_add p hsrc ⟨none, .idle⟩
    rw [countP_concat, hset, hp]
    rfl
  refine hs.keeps rfl (fun _ _ => rfl) (fun _ => ⟨rfl, rfl⟩) ?_ fun c _ =>
    ⟨hcount (PromiseHandle.held c) rfl, hcount (PromiseHandle.kept c) rfl⟩
  intro handle hhandle c hc
  rcases mem_append.mp hhandle with hold | hnew
  · rcases mem_or_eq_of_mem_set hold with hmem | rfl
    · exact hs.born handle hmem c hc
    · cases hc
  · rw [mem_singleton.mp hnew] at hc
    exact hs.born _ (mem_of_getElem? hsrc) c hc

theorem assign {target : Nat} {old : Option Nat} (hne : target ≠ source)
    (htarget : s.handles[target]? = some ⟨old, .idle⟩)
    (hsrc : s.handles[source]? = some ⟨cell, .idle⟩)
    (hretains : ∀ c, old = some c → (s.cells c).value ≠ .none) :
    Tracked
      ((s.setHandle source ⟨none, .idle⟩).setHandle target
        ⟨cell, .idle⟩) := by
  have htarget' : (s.handles.set source ⟨none, .idle⟩)[target]? =
      some ⟨old, .idle⟩ := by
    rw [getElem?_set_ne (Ne.symm hne), htarget]
  have hcount : ∀ p : PromiseHandle → Bool, p ⟨none, .idle⟩ = false →
      p ⟨old, .idle⟩ = false →
      ((s.handles.set source ⟨none, .idle⟩).set target
        ⟨cell, .idle⟩).countP p = s.handles.countP p := by
    intro p hnone hold
    have hfirst := countP_set_add p hsrc ⟨none, .idle⟩
    have hsecond := countP_set_add p htarget' ⟨cell, .idle⟩
    rw [hnone] at hfirst
    rw [hold] at hsecond
    simp only [Bool.toNat_false, Nat.add_zero] at hfirst hsecond
    omega
  refine hs.keeps rfl (fun _ _ => rfl) (fun _ => ⟨rfl, rfl⟩) ?_
    fun c hempty => ?_
  · intro handle hhandle c hc
    rcases mem_or_eq_of_mem_set hhandle with hmem | rfl
    · rcases mem_or_eq_of_mem_set hmem with hmem | rfl
      · exact hs.born handle hmem c hc
      · cases hc
    · exact hs.born _ (mem_of_getElem? hsrc) c hc
  · have hold : (old == some c) = false := by
      rw [beq_eq_false_iff_ne]
      exact fun heq => hretains c heq hempty
    exact ⟨hcount _ rfl (by simp [PromiseHandle.held, hold]),
      hcount _ rfl (by simp [PromiseHandle.kept, hold])⟩

end

end Tracked

theorem Tracked.step {s t : PromiseSystem α} {action : PromiseAction α}
    (hs : Tracked s) (hretains : s.Retains action) (h : Moves s action t) :
    Tracked t := by
  cases h with
  | idle => exact hs
  | construct => exact hs.construct rfl rfl rfl
  | @copy source c hsrc =>
    refine hs.keeps rfl (fun _ _ => rfl) (fun _ => ⟨rfl, rfl⟩) ?_
      fun d _ => ?_
    · intro handle hhandle d hd
      rcases mem_append.mp hhandle with hold | hnew
      · exact hs.born handle hold d hd
      · rw [mem_singleton.mp hnew] at hd
        exact hs.born _ (mem_of_getElem? hsrc) d hd
    · simp [held, kept, PromiseHandle.held, PromiseHandle.kept]
  | fetchAdd hh =>
    refine hs.replaceAt hh rfl rfl rfl (by simp) id ?_ ?_ ?_
    all_goals simp [PromiseHandle.held, PromiseHandle.kept]
  | move hsrc => exact hs.move hsrc
  | assign hne htarget hsrc =>
    refine hs.assign hne htarget hsrc fun c hc => ?_
    rcases hretains with heq | hsatisfied
    · exact absurd heq hne
    · exact hsatisfied c (by rw [htarget, Option.bind_some, hc])
  | satisfy hsets hwhat hh hempty =>
    exact hs.replaceAt hh rfl rfl rfl (by simp) (fun _ => hempty)
      (fun hnone => absurd hnone hwhat) (fun hnone => absurd hnone hwhat)
      (fun hnone => absurd hnone hwhat)
  | close hh =>
    exact hs.replaceUncounted hh rfl rfl rfl (by simp) fun c => ⟨rfl, rfl⟩
  | last hh hlast =>
    refine hs.replaceSame hh rfl rfl rfl (by simp) fun _ => ?_
    simp [PromiseHandle.held, PromiseHandle.kept]
  | shared hh hshared =>
    exact hs.replaceSame hh rfl rfl rfl (by simp) fun _ =>
      ⟨id, rfl⟩
  | subLast hh hlast =>
    refine hs.replaceAt hh rfl rfl rfl (by simp) id ?_ ?_ ?_
    all_goals simp [PromiseHandle.held, PromiseHandle.kept, hlast]
  | @subShared h c hh hshared =>
    have hlower : (s.cells c).value = .none → 2 ≤ (s.cells c).promises := by
      intro hempty
      have hone : 1 ≤ s.held c := countP_pos_iff.mpr
        ⟨_, mem_of_getElem? hh, by simp [PromiseHandle.held]⟩
      have hbound := hs.lower c hempty
      omega
    refine hs.replaceAt hh rfl rfl rfl (by simp) id ?_ ?_ ?_
    · intro _
      simp only [PromiseHandle.held, beq_self_eq_true, Bool.true_and,
        Bool.and_false, Bool.toNat_false, Bool.toNat_true]
      omega
    · intro hempty
      have := hlower hempty
      simp only [PromiseHandle.kept, beq_self_eq_true, Bool.true_and,
        Bool.and_false, Bool.toNat_false, Bool.toNat_true]
      omega
    · intro hempty
      exact Or.inr (Or.inr (hlower hempty))
  | broke hh hempty =>
    exact hs.replaceAt hh rfl rfl rfl (by simp) (fun _ => hempty)
      (fun hnone => nomatch hnone) (fun hnone => nomatch hnone)
      (fun hnone => nomatch hnone)
  | late hh hset =>
    exact hs.replaceSame hh rfl rfl rfl (by simp) fun hnone =>
      absurd hnone hset
  | runSetting hh | runDraining hh =>
    obtain ⟨hcells, hcreated, hhandles, -⟩ := s.dispatch_frame _
    exact hs.replaceUncounted hh hcreated
      (congrArg (List.set · _ _) hhandles) hcells (fun _ => id)
      fun c => ⟨rfl, rfl⟩
  | leaveSetting hh | leaveDraining hh =>
    exact hs.replaceUncounted hh rfl rfl rfl (by simp)
      fun c => by simp [PromiseHandle.held, PromiseHandle.kept]
  | subscribe hc hempty => exact hs.subscribe hc rfl rfl rfl
  | scheduled hc hset =>
    exact { hs with }
  | runScheduled hi =>
    exact { hs with }

end PromiseSystem

end ActorFramework.Async
