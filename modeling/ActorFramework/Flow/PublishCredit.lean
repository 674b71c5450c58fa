import ActorFramework.Flow.PublishMoves
import Mathlib.Data.List.Nodup

/-!
# The account of a publish operator

`in_flight_` counts the requested items that did not arrive.  An item takes at
most one place in the buffer of an observer, so the fullest buffer and the
items in flight never need more than `max_buf_size_` places.  While `push_all`
runs, the item has left the account and waits for the states not reached.
-/

namespace ActorFramework.Flow

open Foundation List

variable {τ : Type*}

def Call.rest : Call τ → List Nat
  | .pushAll _ rest _ _ => rest
  | _ => []

def Call.result : Call τ → Bool
  | .pushAll _ _ res _ => res
  | _ => false

/-- The members of `publish` when it is constructed.  `max_buf_size_` is a
`size_t`, and the settings for connecting are arbitrary. -/
structure PublishState.Fresh (p : PublishState) : Prop where
  size : p.maxBufSize < 2 ^ 64
  inFlight : p.inFlight = 0
  hasIn : p.hasIn = false
  connected : p.connected = false
  pending : p.tryRequestMorePending = false
  requests : p.requests = 0
  requested : p.requested = 0
  received : p.received = 0

theorem CellsNarrow.back {cells cells' : List (Cell τ)}
    (h : CellsNarrow cells cells') {i : Nat} {cell' : Cell τ}
    (hcell' : cells'[i]? = some cell') :
    ∃ cell, cells[i]? = some cell ∧
      UcastSubState.Narrows cell.sub cell'.sub ∧
      (cell.sub.Sound → cell'.sub.Sound) := by
  have hlt : i < cells.length := by
    rw [← h.length]
    exact (List.getElem?_eq_some_iff.mp hcell').1
  have hcell := getElem?_eq_getElem hlt
  exact ⟨_, hcell, h.each i _ cell' hcell hcell'⟩

theorem foldl_max_le {f : Nat → Nat} {states : List Nat} {first bound : Nat}
    (hfirst : first ≤ bound) (hbound : ∀ i ∈ states, f i ≤ bound) :
    states.foldl (fun res i => max res (f i)) first ≤ bound := by
  induction states generalizing first with
  | nil => exact hfirst
  | cons i rest ih =>
    apply ih
    · exact Nat.max_le.mpr ⟨hfirst, hbound i mem_cons_self⟩
    · exact fun j hj => hbound j (mem_cons_of_mem i hj)

theorem le_foldl_max (f : Nat → Nat) (states : List Nat) (first : Nat) :
    first ≤ states.foldl (fun res i => max res (f i)) first ∧
      ∀ i ∈ states, f i ≤ states.foldl (fun res i => max res (f i)) first := by
  induction states generalizing first with
  | nil => simp
  | cons i rest ih =>
    obtain ⟨hfirst, hrest⟩ := ih (max first (f i))
    simp only [foldl_cons, mem_cons, forall_eq_or_imp]
    refine ⟨?_, ?_, hrest⟩
    · omega
    · omega

namespace HotOperator

def unreached (s : HotOperator τ) : List Nat := s.pushing.flatMap Call.rest

def owed (s : HotOperator τ) (i : Nat) : Nat :=
  if i ∈ s.unreached then 1 else 0

variable {s t : HotOperator τ} {item : τ} {published : Bool}

theorem unreached_of_pushing (h : s.pushing = []) : s.unreached = [] := by
  simp [unreached, h]

structure Fed (s : HotOperator τ) : Prop where
  kind : s.kind = .publish
  sound : ∀ (i : Nat) (cell : Cell τ), s.cells[i]? = some cell → cell.sub.Sound
  known : ∀ i ∈ s.states, i < s.cells.length
  nodup : s.states.Nodup
  size : s.source.maxBufSize < 2 ^ 64
  account : s.source.inFlight + s.source.received = s.source.requested
  spare : s.source.inFlight + s.pushing.length ≤ s.source.maxBufSize
  room : ∀ i ∈ s.states, ∀ cell, s.cells[i]? = some cell →
    s.source.inFlight + s.owed i + cell.sub.buf.length ≤ s.source.maxBufSize
  full : ∀ (i : Nat) (cell : Cell τ), s.cells[i]? = some cell →
    cell.sub.buf.length ≤ s.source.maxBufSize
  unlinked : s.source.hasIn = false → s.pushing = [] ∧
    ∀ i ∈ s.states, ∀ cell, s.cells[i]? = some cell → cell.sub.buf = []
  once : s.pushing.length ≤ 1
  waits : s.unreached <:+ s.states
  clean : ∀ call ∈ s.pushing, call.result = true → ∀ i ∈ s.states,
    i ∉ s.unreached → ∀ cell, s.cells[i]? = some cell → cell.sub.buf = []

variable {i : Nat} {cell : Cell τ} {source : PublishState} {res : Bool}

theorem le_maxBuffered (hmem : i ∈ s.states) (hcell : s.cells[i]? = some cell) :
    cell.sub.buf.length ≤ s.maxBuffered := by
  have hle := (le_foldl_max
    (fun i => (s.cells[i]?.map fun c => c.sub.buf.length).getD 0) s.states
    0).2 i hmem
  simp only [hcell, Option.map_some, Option.getD_some] at hle
  exact hle

theorem maxBuffered_le {bound : Nat}
    (h : ∀ i ∈ s.states, ∀ cell, s.cells[i]? = some cell →
      cell.sub.buf.length ≤ bound) : s.maxBuffered ≤ bound := by
  refine foldl_max_le (Nat.zero_le bound) fun i hi => ?_
  cases hcell : s.cells[i]? with
  | none => exact Nat.zero_le bound
  | some cell => exact h i hi cell hcell

theorem Fed.bounded (h : Fed s) :
    s.source.inFlight + s.maxBuffered ≤ s.source.maxBufSize := by
  have hspare := h.spare
  have hle : s.maxBuffered ≤ s.source.maxBufSize - s.source.inFlight := by
    refine maxBuffered_le fun i hi cell hcell => ?_
    have hroom := h.room i hi cell hcell
    omega
  omega

theorem fed_initial (h : source.Fresh) :
    Fed (initial .publish source : HotOperator τ) where
  kind := rfl
  sound := nofun
  known := nofun
  nodup := .nil
  size := h.size
  account := by
    simp [initial, h.inFlight, h.requested, h.received]
  spare := by
    simp [initial, pushing, h.inFlight]
  room := nofun
  full := nofun
  unlinked _ := ⟨rfl, nofun⟩
  once := Nat.zero_le 1
  waits := suffix_rfl
  clean := nofun

theorem Fed.narrow (h : Fed s) (hkind : t.kind = s.kind)
    (hcells : CellsNarrow s.cells t.cells) (hstates : t.states ⊆ s.states)
    (hnodup : t.states.Nodup) (hpush : t.pushing = s.pushing)
    (hwaits : t.unreached <:+ t.states)
    (hsrc : s.source.SameCredit t.source) : Fed t := by
  have hunreached : t.unreached = s.unreached := by
    simp [unreached, hpush]
  have hempty : ∀ (i : Nat) (cell' : Cell τ), t.cells[i]? = some cell' →
      (∀ cell : Cell τ, s.cells[i]? = some cell → cell.sub.buf = []) →
      cell'.sub.buf = [] := by
    intro i cell' hcell' hempty
    obtain ⟨cell, hcell, hnarrows, -⟩ := hcells.back hcell'
    have hbuf := hnarrows.buf
    rw [hempty cell hcell] at hbuf
    exact eq_nil_of_length_eq_zero (Nat.le_zero.mp hbuf)
  refine ⟨hkind.trans h.kind, ?_, ?_, hnodup, ?_, ?_, ?_, ?_, ?_, ?_, ?_,
    hwaits, ?_⟩
  · intro i cell' hcell'
    obtain ⟨cell, hcell, -, hsound⟩ := hcells.back hcell'
    exact hsound (h.sound i cell hcell)
  · intro i hi
    rw [hcells.length]
    exact h.known i (hstates hi)
  · rw [hsrc.maxBufSize]
    exact h.size
  · rw [hsrc.inFlight, hsrc.received, hsrc.requested]
    exact h.account
  · rw [hsrc.inFlight, hsrc.maxBufSize, hpush]
    exact h.spare
  · intro i hi cell' hcell'
    obtain ⟨cell, hcell, hnarrows, -⟩ := hcells.back hcell'
    have hroom := h.room i (hstates hi) cell hcell
    have hbuf := hnarrows.buf
    rw [owed, hunreached, ← owed, hsrc.inFlight, hsrc.maxBufSize]
    omega
  · intro i cell' hcell'
    obtain ⟨cell, hcell, hnarrows, -⟩ := hcells.back hcell'
    rw [hsrc.maxBufSize]
    exact Nat.le_trans hnarrows.buf (h.full i cell hcell)
  · intro hlinked
    rw [hsrc.hasIn] at hlinked
    obtain ⟨hidle, hnone⟩ := h.unlinked hlinked
    exact ⟨hpush.trans hidle, fun i hi cell' hcell' =>
      hempty i cell' hcell' (hnone i (hstates hi))⟩
  · rw [hpush]
    exact h.once
  · intro call hcall hres i hi hreached cell' hcell'
    rw [hpush] at hcall
    rw [hunreached] at hreached
    exact hempty i cell' hcell'
      (h.clean call hcall hres i (hstates hi) hreached)

theorem Fed.keeps (h : Fed s) (hkind : t.kind = s.kind) (hkeeps : Keeps s t) :
    Fed t := by
  refine h.narrow hkind hkeeps.cells ?_ ?_ hkeeps.pushing ?_ hkeeps.source
  · rw [hkeeps.states]
    exact List.Subset.refl _
  · rw [hkeeps.states]
    exact h.nodup
  · rw [unreached, hkeeps.pushing, hkeeps.states]
    exact h.waits

theorem Fed.restrict (h : Fed s) (hkind : t.kind = s.kind)
    (hcells : CellsNarrow s.cells t.cells) (hidle : s.pushing = [])
    (hpush : t.pushing = []) (hstates : t.states ⊆ s.states)
    (hnodup : t.states.Nodup) (hsrc : s.source.SameCredit t.source) :
    Fed t := by
  refine h.narrow hkind hcells hstates hnodup (hpush.trans hidle.symm) ?_
    hsrc
  rw [unreached_of_pushing hpush]
  exact nil_suffix

structure Rests (s : HotOperator τ) : Prop where
  kind : s.kind = .publish
  sound : ∀ (i : Nat) (cell : Cell τ), s.cells[i]? = some cell → cell.sub.Sound
  known : ∀ i ∈ s.states, i < s.cells.length
  nodup : s.states.Nodup
  size : s.source.maxBufSize < 2 ^ 64
  account : s.source.inFlight + s.source.received = s.source.requested
  bounded : s.source.inFlight + s.maxBuffered ≤ s.source.maxBufSize
  full : ∀ (i : Nat) (cell : Cell τ), s.cells[i]? = some cell →
    cell.sub.buf.length ≤ s.source.maxBufSize
  unlinked : s.source.hasIn = false →
    ∀ i ∈ s.states, ∀ cell, s.cells[i]? = some cell → cell.sub.buf = []

theorem Fed.rests (h : Fed s) : Rests s :=
  ⟨h.kind, h.sound, h.known, h.nodup, h.size, h.account, h.bounded, h.full,
    fun hnone => (h.unlinked hnone).2⟩

theorem Rests.fed (h : Rests s) (hidle : s.pushing = []) : Fed s where
  kind := h.kind
  sound := h.sound
  known := h.known
  nodup := h.nodup
  size := h.size
  account := h.account
  spare := by
    have hbound := h.bounded
    simp only [hidle, length_nil]
    omega
  room i hi cell hcell := by
    have hbound := h.bounded
    have hle := le_maxBuffered hi hcell
    simp only [owed, unreached_of_pushing hidle, not_mem_nil, if_false]
    omega
  full := h.full
  unlinked hnone := ⟨hidle, h.unlinked hnone⟩
  once := by simp [hidle]
  waits := by simp [unreached_of_pushing hidle]
  clean := by simp [hidle]

theorem Rests.renew {n : Nat} (h : Rests s)
    (hlinked : source.hasIn = s.source.hasIn)
    (hsize : source.maxBufSize = s.source.maxBufSize)
    (hrecv : source.received = s.source.received)
    (hinFlight : source.inFlight = s.source.inFlight + n)
    (hreq : source.requested = s.source.requested + n)
    (hplaces : s.source.inFlight + s.maxBuffered + n ≤ s.source.maxBufSize) :
    Rests { s with source } := by
  have hacc := h.account
  refine ⟨h.kind, h.sound, h.known, h.nodup, ?_, ?_, ?_, ?_, ?_⟩
  · exact hsize ▸ h.size
  · simp only
    omega
  · change source.inFlight + s.maxBuffered ≤ source.maxBufSize
    omega
  · exact hsize ▸ h.full
  · exact hlinked ▸ h.unlinked

theorem tryRequestMore_frame (s : HotOperator τ) :
    s.tryRequestMore.cells = s.cells ∧ s.tryRequestMore.states = s.states ∧
      s.tryRequestMore.pushing = s.pushing := by
  unfold tryRequestMore
  split <;> exact ⟨rfl, rfl, rfl⟩

theorem Fed.tryRequestMore (h : Fed s) (hidle : s.pushing = []) :
    Fed s.tryRequestMore := by
  have hbound := h.bounded
  have hsize := h.size
  have hmod : (s.maxBuffered + s.source.inFlight) % 2 ^ 64 =
      s.maxBuffered + s.source.inFlight := Nat.mod_eq_of_lt (by omega)
  unfold HotOperator.tryRequestMore
  split
  · rw [hmod]
    refine Rests.fed (h.rests.renew rfl rfl rfl ?_ rfl ?_) hidle
    · refine Nat.mod_eq_of_lt ?_
      change s.source.inFlight + _ < _
      omega
    · omega
  · exact Rests.fed { h.rests with } hidle

theorem Fed.disconnect (h : Fed s) (hidle : s.pushing = [])
    (hstates : s.states = []) :
    Fed { s with
      source := { s.source with connected := false, hasIn := false } } :=
  Rests.fed { h.rests with unlinked := by simp [hstates] } hidle

theorem Fed.sourceSubscribed (h : Fed s) (hidle : s.pushing = []) :
    Fed s.sourceSubscribed := by
  unfold HotOperator.sourceSubscribed
  split_ifs with hnone
  · exact h
  · obtain ⟨-, hempty⟩ := h.unlinked (by simpa using hnone)
    have hbuf : s.maxBuffered ≤ 0 :=
      maxBuffered_le fun i hi cell hcell => by simp [hempty i hi cell hcell]
    refine Rests.fed { h.rests with
      account := rfl
      bounded := ?_
      unlinked := nofun } hidle
    change s.source.maxBufSize + s.maxBuffered ≤ s.source.maxBufSize
    omega

theorem Fed.adds (h : Fed s) (hkind : t.kind = s.kind)
    (hcells : t.cells = s.cells ++ [⟨{}, true⟩])
    (hstates : t.states = s.states ++ [s.cells.length])
    (hpush : t.pushing = []) (hsrc : t.source = s.source) : Fed t := by
  have hcell_cases : ∀ (i : Nat) (cell : Cell τ), t.cells[i]? = some cell →
      s.cells[i]? = some cell ∨ cell = ⟨{}, true⟩ := by
    intro i cell hcell
    rw [hcells, getElem?_append] at hcell
    split at hcell
    · exact .inl hcell
    · refine .inr ?_
      have hmem := mem_of_getElem? hcell
      simpa using hmem
  -- A cell of a state is the new one or that of an old state.
  have hstate_cases : ∀ i ∈ t.states, ∀ cell, t.cells[i]? = some cell →
      i ∈ s.states ∧ s.cells[i]? = some cell ∨ cell = ⟨{}, true⟩ := by
    intro i hi cell hcell
    rcases hcell_cases i cell hcell with hold | hnew
    · rw [hstates, mem_append, mem_singleton] at hi
      rcases hi with hmem | rfl
      · exact .inl ⟨hmem, hold⟩
      · exact absurd (List.getElem?_eq_some_iff.mp hold).1 (Nat.lt_irrefl _)
    · exact .inr hnew
  refine Rests.fed ⟨hkind.trans h.kind, ?_, ?_, ?_, hsrc ▸ h.size,
    hsrc ▸ h.account, ?_, ?_, ?_⟩ hpush
  · intro i cell hcell
    rcases hcell_cases i cell hcell with hold | rfl
    · exact h.sound i cell hold
    · exact UcastSubState.sound_initial
  · intro i hi
    rw [hstates, mem_append, mem_singleton] at hi
    rw [hcells, length_append, length_singleton]
    rcases hi with hold | rfl
    · exact Nat.lt_succ_of_lt (h.known i hold)
    · exact Nat.lt_succ_self _
  · rw [hstates, ← concat_eq_append]
    exact List.Nodup.concat (fun hmem => Nat.lt_irrefl _ (h.known _ hmem))
      h.nodup
  · have hbound := h.bounded
    have hle : t.maxBuffered ≤ s.maxBuffered := by
      refine maxBuffered_le fun i hi cell hcell => ?_
      rcases hstate_cases i hi cell hcell with ⟨hmem, hold⟩ | rfl
      · exact le_maxBuffered hmem hold
      · exact Nat.zero_le _
    rw [hsrc]
    omega
  · intro i cell hcell
    rw [hsrc]
    rcases hcell_cases i cell hcell with hold | rfl
    · exact h.full i cell hold
    · exact Nat.zero_le _
  · intro hnone i hi cell hcell
    rw [hsrc] at hnone
    rcases hstate_cases i hi cell hcell with ⟨hmem, hold⟩ | rfl
    · exact (h.unlinked hnone).2 i hmem cell hold
    · rfl

theorem pushing_onNext (s : HotOperator τ) (item : τ) :
    (s.onNext item).pushing =
      .pushAll item s.states true true :: s.pushing := rfl

theorem onNext_source (s : HotOperator τ) (item : τ) :
    (s.onNext item).source =
      { s.source with
        inFlight := (s.source.inFlight + (2 ^ 64 - 1)) % 2 ^ 64
        received := s.source.received + 1 } := rfl

section

variable (h : Fed s)
include h

theorem Fed.onNext (hidle : s.pushing = []) (hlinked : s.source.hasIn = true)
    (hcredit : s.source.received < s.source.requested) (item : τ) :
    Fed (s.onNext item) := by
  have hacc := h.account
  have hspare := h.spare
  have hsize := h.size
  have hpush : (s.onNext item).pushing =
      [.pushAll item s.states true true] := by
    rw [pushing_onNext, hidle]
  have hunreached : (s.onNext item).unreached = s.states := by
    simp [unreached, hpush, Call.rest]
  refine ⟨h.kind, h.sound, h.known, h.nodup, ?_, ?_, ?_, ?_, ?_, ?_, ?_, ?_, ?_⟩
  · rw [onNext_source]
    exact hsize
  · rw [onNext_source]
    simp only
    omega
  · rw [onNext_source, hpush, length_singleton]
    simp only [hidle, length_nil] at hspare ⊢
    omega
  · intro i hi cell hcell
    have hi : i ∈ s.states := hi
    have hroom := h.room i hi cell hcell
    rw [onNext_source, owed, hunreached, if_pos hi]
    simp only
    omega
  · rw [onNext_source]
    exact h.full
  · rw [onNext_source]
    intro hnone
    cases hlinked ▸ hnone
  · rw [hpush]
    exact Nat.le_refl 1
  · rw [hunreached]
    exact suffix_rfl
  · intro call hcall hres i hi hreached
    rw [hunreached] at hreached
    exact absurd hi hreached

theorem Fed.pushing_eq {call : Call τ} (hhead : s.pushing.head? = some call) :
    s.pushing = [call] := by
  have honce := h.once
  cases hpush : s.pushing with
  | nil =>
    rw [hpush] at hhead
    cases hhead
  | cons first rest =>
    rw [hpush] at hhead honce
    cases hhead
    cases rest with
    | nil => rfl
    | cons second rest => simp at honce

theorem Fed.reaches {item : τ} {rest : List Nat} {published : Bool}
    {sub : UcastSubState τ} (hkind : t.kind = s.kind)
    (hpush : s.pushing = [.pushAll item (i :: rest) res published])
    (hcell : s.cells[i]? = some cell)
    (hstep : cell.sub.step (.push item) = some sub)
    (hcells : t.cells = s.cells.set i ⟨sub, cell.listening && !sub.disposed⟩)
    (hstates : t.states = s.states)
    (hpush' : t.pushing = [.pushAll item rest (res && cell.sub.consumes)
      published]) (hsrc : t.source = s.source) : Fed t := by
  have hunreached : s.unreached = i :: rest := by
    simp [unreached, hpush, Call.rest]
  have hunreached' : t.unreached = rest := by
    simp [unreached, hpush', Call.rest]
  have hwaits := h.waits
  rw [hunreached] at hwaits
  have hmem : i ∈ s.states := hwaits.subset mem_cons_self
  have hfresh : i ∉ rest :=
    (nodup_cons.mp (h.nodup.sublist hwaits.sublist)).1
  obtain ⟨-, hlen, hconsumed⟩ :=
    UcastSubState.step_push (h.sound i cell hcell) hstep
  have hcell_cases : ∀ (j : Nat) (cell' : Cell τ), t.cells[j]? = some cell' →
      j = i ∧ cell'.sub = sub ∨ j ≠ i ∧ s.cells[j]? = some cell' := by
    intro j cell' hcell'
    rw [hcells] at hcell'
    rcases eq_or_ne i j with rfl | hne
    · rw [getElem?_set_of_some _ hcell, Option.some.injEq] at hcell'
      subst hcell'
      exact .inl ⟨rfl, rfl⟩
    · rw [getElem?_set_ne hne] at hcell'
      exact .inr ⟨hne.symm, hcell'⟩
  have howed : s.owed i = 1 := by
    simp [owed, hunreached]
  have howed' : t.owed i = 0 := by
    simp [owed, hunreached', hfresh]
  have hothers : ∀ j, j ≠ i → t.owed j = s.owed j := by
    intro j hne
    simp [owed, hunreached, hunreached', hne]
  have hroom := h.room i hmem cell hcell
  refine ⟨hkind.trans h.kind, ?_, ?_, ?_, ?_, ?_, ?_, ?_, ?_, ?_, ?_, ?_, ?_⟩
  · intro j cell' hcell'
    rcases hcell_cases j cell' hcell' with ⟨rfl, hsub⟩ | ⟨-, hold⟩
    · rw [hsub]
      exact UcastSubState.step_sound (h.sound j cell hcell) hstep
    · exact h.sound j cell' hold
  · rw [hstates, hcells, length_set]
    exact h.known
  · rw [hstates]
    exact h.nodup
  · rw [hsrc]
    exact h.size
  · rw [hsrc]
    exact h.account
  · have hspare := h.spare
    rw [hpush] at hspare
    rw [hsrc, hpush']
    exact hspare
  · intro j hj cell' hcell'
    rw [hstates] at hj
    rw [hsrc]
    rcases hcell_cases j cell' hcell' with ⟨rfl, hsub⟩ | ⟨hne, hold⟩
    · rw [howed', hsub]
      omega
    · rw [hothers j hne]
      exact h.room j hj cell' hold
  · intro j cell' hcell'
    rw [hsrc]
    rcases hcell_cases j cell' hcell' with ⟨rfl, hsub⟩ | ⟨-, hold⟩
    · rw [hsub]
      omega
    · exact h.full j cell' hold
  · intro hnone
    rw [hsrc] at hnone
    cases hpush ▸ (h.unlinked hnone).1
  · rw [hpush']
    exact Nat.le_refl 1
  · rw [hunreached', hstates]
    exact (suffix_cons i rest).trans hwaits
  · intro call hcall hres j hj hreached cell' hcell'
    rw [hpush', mem_singleton] at hcall
    rw [hcall, Call.result, Bool.and_eq_true] at hres
    rw [hstates] at hj
    rw [hunreached'] at hreached
    rcases hcell_cases j cell' hcell' with ⟨rfl, hsub⟩ | ⟨hne, hold⟩
    · rw [hsub]
      exact hconsumed hres.2
    · refine h.clean (.pushAll item (i :: rest) res published)
        (by rw [hpush]; simp) hres.1 j hj ?_ cell' hold
      rw [hunreached, mem_cons, not_or]
      exact ⟨hne, hreached⟩

/-- `push_all` returns.  If all states have consumed the item, their buffers
are empty and its place is free. -/
theorem Fed.returns {calls : List (Call τ)}
    (hstack : s.stack = .pushAll item [] res published :: calls) :
    Fed ({ s with stack := calls }.pushed res published) := by
  have hhead : s.pushing.head? = some (.pushAll item [] res published) := by
    simp [pushing, hstack, Call.isPushAll]
  have hpush := h.pushing_eq hhead
  have hcalls : calls.filter Call.isPushAll = [] := by
    rw [pushing, hstack] at hpush
    exact (List.cons.inj hpush).2
  have hunreached : s.unreached = [] := by
    simp [unreached, hpush, Call.rest]
  have hspare := h.spare
  rw [hpush, length_singleton] at hspare
  have hidle := hcalls
  have hrests : Rests { s with stack := calls } := { h.rests with }
  unfold pushed
  split_ifs with hall
  · simp only [Bool.and_eq_true] at hall
    have hempty : ({ s with stack := calls } : HotOperator τ).maxBuffered ≤
        0 := by
      refine maxBuffered_le fun i hi cell hcell => ?_
      rw [h.clean (.pushAll item [] res published)
        (by rw [hpush]; simp) hall.1.1.2 i hi (by rw [hunreached]; simp)
        cell hcell]
      exact Nat.le_refl 0
    have hsize := h.size
    refine Rests.fed (hrests.renew rfl rfl rfl ?_ rfl ?_) hidle
    · refine Nat.mod_eq_of_lt ?_
      change s.source.inFlight + 1 < 2 ^ 64
      omega
    · change s.source.inFlight + _ + 1 ≤ s.source.maxBufSize
      omega
  · exact hrests.fed hidle

theorem step_fed {a : HotAction τ} (hord : s.Orderly a)
    (hstep : s.step a = some t) : Fed t := by
  have hkind : t.kind = s.kind := (step_moves hstep).kind_eq
  have hfeeds := step_feeds h.kind hord hstep
  generalize a.published = items at hfeeds
  cases hfeeds with
  | keeps hkeeps => exact h.keeps hkind hkeeps
  | ends hcells hidle hpushing hstates hsrc =>
    refine h.restrict hkind hcells hidle hpushing ?_ ?_ hsrc
    · rw [hstates]
      exact nil_subset _
    · rw [hstates]
      exact nodup_nil
  | renews hsame hcells hidle hpushing hstates hnodup hsrc ht =>
    have hfed := h.restrict hsame (.of_eq hcells) hidle hpushing hstates
      (hnodup h.nodup) hsrc
    rcases ht with rfl | ⟨hlast, rfl⟩
    · exact hfed.tryRequestMore hpushing
    · refine (hfed.tryRequestMore hpushing).disconnect ?_ ?_
      · exact (tryRequestMore_frame _).2.2.trans hpushing
      · exact (tryRequestMore_frame _).2.1.trans hlast
  | links hidle ht =>
    subst ht
    exact h.sourceSubscribed hidle
  | adds hcells hstates hidle hpushing hsrc =>
    exact h.adds hkind hcells hstates hpushing hsrc
  | publishes hidle hlinked hcredit ht =>
    subst ht
    exact h.onNext hidle hlinked hcredit _
  | reaches hpushing hcell hpush hcells hstates hpushing' hsrc =>
    have hpushing := h.pushing_eq hpushing
    rw [hpushing] at hpushing'
    exact h.reaches hkind hpushing hcell hpush hcells hstates hpushing' hsrc
  | returns hstack ht =>
    subst ht
    exact h.returns hstack

end

theorem exec_fed {actions : List (HotAction τ)} (hsrc : source.Fresh)
    (hord : Along step Orderly (initial .publish source) actions)
    (hrun : exec step (initial .publish source) actions = some s) : Fed s :=
  exec_invariant_along Fed (fun _ _ _ h hguard hstep => step_fed h hguard hstep)
    (fed_initial hsrc) hord hrun

end HotOperator

end ActorFramework.Flow
