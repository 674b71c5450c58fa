import ActorFramework.Flow.HotMoves
import ActorFramework.Flow.UcastRun

/-!
# Steps of a publish operator

A step of a state other than `push` takes items from its buffer at most.  A
step of the operator passes the current item of `push_all` to one state, or it
lets states take items from their buffers, adds a state, removes states or
asks the source for more items.
-/

namespace ActorFramework.Flow

open Foundation List Option

variable {τ : Type*}

namespace UcastSubState

variable {s t : UcastSubState τ}

theorem step_push {item : τ} (hs : Sound s)
    (hstep : s.step (.push item) = some t) :
    t.pushed = s.pushed ++ [item] ∧ t.buf.length ≤ s.buf.length + 1 ∧
      (s.consumes = true → t.buf = []) := by
  obtain ⟨-, rfl⟩ := of_guard hstep
  unfold push
  split
  · rename_i hdisp
    refine ⟨rfl, Nat.le_succ _, fun _ => ?_⟩
    exact (hs.dead hdisp).empty
  · rename_i hlive
    have hlive : s.disposed = false := by simpa using hlive
    split
    · rename_i hdem
      refine ⟨rfl, Nat.le_succ _, fun _ => ?_⟩
      simp only [isPulling, Bool.and_eq_true, decide_eq_true_eq,
        Bool.not_eq_true', decide_eq_false_iff_not, Nat.not_lt,
        Nat.le_zero] at hdem
      exact (hs.live hlive).quiet hdem.2 hdem.1
    · rename_i hdem
      refine ⟨rfl, by simp, fun hconsumes => ?_⟩
      rw [consumes, hlive, Bool.false_or] at hconsumes
      exact absurd hconsumes hdem

theorem finish_frames (s : UcastSubState τ) (event : FlowEvent τ) :
    (s.finish event).frames = s.frames := by
  unfold finish
  split <;> rfl

theorem step_frames {action : UcastAction τ} (hstep : s.step action = some t)
    (hiterate : action ≠ .iterate) (hret : action ≠ .ret) :
    s.frames.length ≤ t.frames.length := by
  cases action with
  | push item =>
    obtain ⟨-, rfl⟩ := of_guard hstep
    unfold push
    split
    · exact Nat.le_refl _
    · split
      · exact Nat.le_succ _
      · exact Nat.le_refl _
  | close =>
    obtain ⟨-, rfl⟩ := of_guard hstep
    unfold close
    split
    · exact Nat.le_refl _
    · simp [finish_frames]
  | abort reason =>
    obtain ⟨-, rfl⟩ := of_guard hstep
    unfold abort
    split
    · exact Nat.le_refl _
    · simp [finish_frames]
  | request n =>
    obtain ⟨-, rfl⟩ := of_guard hstep
    unfold request
    split <;> exact Nat.le_refl _
  | dispose =>
    obtain ⟨-, rfl⟩ := of_guard hstep
    unfold dispose
    split <;> exact Nat.le_refl _
  | cancel =>
    obtain ⟨-, rfl⟩ := of_guard hstep
    unfold cancel
    split <;> exact Nat.le_refl _
  | runPull =>
    obtain ⟨⟨hframes, -⟩, rfl⟩ := of_guard hstep
    rw [hframes]
    exact Nat.zero_le _
  | iterate => exact absurd rfl hiterate
  | ret => exact absurd rfl hret

end UcastSubState

structure CellsNarrow (cells cells' : List (Cell τ)) : Prop where
  length : cells'.length = cells.length
  each : ∀ (i : Nat) (cell cell' : Cell τ), cells[i]? = some cell →
    cells'[i]? = some cell' → UcastSubState.Narrows cell.sub cell'.sub ∧
      (cell.sub.Sound → cell'.sub.Sound)

variable {cells : List (Cell τ)}

theorem CellsNarrow.of_eq {cells' : List (Cell τ)} (h : cells' = cells) :
    CellsNarrow cells cells' := by
  subst h
  refine ⟨rfl, fun i cell cell' hcell hcell' => ?_⟩
  rw [hcell, Option.some.injEq] at hcell'
  subst hcell'
  exact ⟨.refl cell.sub, id⟩

theorem CellsNarrow.trans {cells' cells'' : List (Cell τ)}
    (h : CellsNarrow cells cells') (h' : CellsNarrow cells' cells'') :
    CellsNarrow cells cells'' := by
  refine ⟨h'.length.trans h.length, fun i cell cell'' hcell hcell'' => ?_⟩
  have hlt : i < cells'.length := by
    rw [h.length]
    exact (List.getElem?_eq_some_iff.mp hcell).1
  have hmiddle := getElem?_eq_getElem hlt
  obtain ⟨hnarrows, hsound⟩ := h.each i cell _ hcell hmiddle
  obtain ⟨hnarrows', hsound'⟩ := h'.each i _ cell'' hmiddle hcell''
  exact ⟨hnarrows.trans hnarrows', hsound' ∘ hsound⟩

theorem CellsNarrow.set {i : Nat} {cell cell' : Cell τ} {action : UcastAction τ}
    (hcell : cells[i]? = some cell)
    (hstep : cell.sub.step action = some cell'.sub)
    (haction : ∀ item, action ≠ .push item) :
    CellsNarrow cells (cells.set i cell') := by
  refine ⟨length_set, fun j old new hold hnew => ?_⟩
  rcases eq_or_ne i j with rfl | hne
  · rw [getElem?_set_of_some cell' hcell, Option.some.injEq] at hnew
    rw [hcell, Option.some.injEq] at hold
    subst hold hnew
    exact ⟨(UcastSubState.step_changes hstep haction).narrows,
      fun hs => UcastSubState.step_sound hs hstep⟩
  · rw [getElem?_set_ne hne, hold, Option.some.injEq] at hnew
    subst hnew
    exact ⟨.refl old.sub, id⟩

structure PublishState.SameCredit (p q : PublishState) : Prop where
  inFlight : q.inFlight = p.inFlight
  maxBufSize : q.maxBufSize = p.maxBufSize
  hasIn : q.hasIn = p.hasIn
  requested : q.requested = p.requested
  received : q.received = p.received

theorem PublishState.SameCredit.refl (p : PublishState) : SameCredit p p :=
  ⟨rfl, rfl, rfl, rfl, rfl⟩

theorem PublishState.SameCredit.trans {p q r : PublishState}
    (h : SameCredit p q) (h' : SameCredit q r) : SameCredit p r :=
  ⟨h'.inFlight.trans h.inFlight, h'.maxBufSize.trans h.maxBufSize,
    h'.hasIn.trans h.hasIn, h'.requested.trans h.requested,
    h'.received.trans h.received⟩

def HotAction.published : HotAction τ → List τ
  | .onNext item => [item]
  | _ => []

namespace HotOperator

def pushing (s : HotOperator τ) : List (Call τ) :=
  s.stack.filter Call.isPushAll

/-- Observers do not call back to subscribe or to make the source act.  All
items are from the current subscription to the source, which emits no more
than was requested. -/
def Orderly (s : HotOperator τ) : HotAction τ → Prop
  | .subscribe => s.stack = []
  | .push _ => False
  | .close => s.stack = []
  | .abort _ => s.stack = []
  | .connect => s.stack = []
  | .onSubscribe => s.stack = []
  | .onNext _ => s.stack = [] ∧ s.source.hasIn = true ∧
      s.source.received < s.source.requested
  | .onComplete => s.stack = []
  | .onError _ => s.stack = []
  | _ => True

variable {s t : HotOperator τ} {i id : Nat} {action : UcastAction τ}

theorem pushing_of_stack (h : s.stack = []) : s.pushing = [] := by
  rw [pushing, h]
  rfl

structure Keeps (s t : HotOperator τ) : Prop where
  cells : CellsNarrow s.cells t.cells
  states : t.states = s.states
  pushing : t.pushing = s.pushing
  source : s.source.SameCredit t.source

theorem Keeps.refl (s : HotOperator τ) : Keeps s s :=
  ⟨.of_eq rfl, rfl, rfl, .refl s.source⟩

theorem Keeps.trans {u : HotOperator τ} (h : Keeps s t) (h' : Keeps t u) :
    Keeps s u :=
  ⟨h.cells.trans h'.cells, h'.states.trans h.states,
    h'.pushing.trans h.pushing, h.source.trans h'.source⟩

inductive Feeds (s t : HotOperator τ) : List τ → Prop where
  | keeps (h : Keeps s t) : Feeds s t []
  | ends (hcells : CellsNarrow s.cells t.cells) (hidle : s.pushing = [])
      (hpushing : t.pushing = []) (hstates : t.states = [])
      (hsource : s.source.SameCredit t.source) : Feeds s t []
  | renews {u : HotOperator τ} (hkind : u.kind = s.kind)
      (hcells : u.cells = s.cells) (hidle : s.pushing = [])
      (hpushing : u.pushing = []) (hstates : u.states ⊆ s.states)
      (hnodup : s.states.Nodup → u.states.Nodup)
      (hsource : s.source.SameCredit u.source)
      (ht : t = u.tryRequestMore ∨ u.states = [] ∧ t =
        { u.tryRequestMore with
          source := { u.tryRequestMore.source with
            connected := false, hasIn := false } }) : Feeds s t []
  | links (hidle : s.pushing = []) (ht : t = s.sourceSubscribed) : Feeds s t []
  | adds (hcells : t.cells = s.cells ++ [⟨{}, true⟩])
      (hstates : t.states = s.states ++ [s.cells.length])
      (hidle : s.pushing = []) (hpushing : t.pushing = [])
      (hsource : t.source = s.source) : Feeds s t []
  | publishes {item : τ} (hidle : s.pushing = [])
      (hlinked : s.source.hasIn = true)
      (hcredit : s.source.received < s.source.requested)
      (ht : t = s.onNext item) : Feeds s t [item]
  | reaches {item : τ} {i : Nat} {rest : List Nat} {res published : Bool}
      {cell : Cell τ} {sub : UcastSubState τ}
      (hpushing : s.pushing.head? = some (.pushAll item (i :: rest) res
        published)) (hcell : s.cells[i]? = some cell)
      (hstep : cell.sub.step (.push item) = some sub)
      (hcells : t.cells = s.cells.set i ⟨sub, cell.listening && !sub.disposed⟩)
      (hstates : t.states = s.states)
      (hpushing' : t.pushing = .pushAll item rest (res && cell.sub.consumes)
        published :: s.pushing.tail) (hsource : t.source = s.source) :
      Feeds s t []
  | returns {item : τ} {res published : Bool} {calls : List (Call τ)}
      (hstack : s.stack = .pushAll item [] res published :: calls)
      (ht : t = { s with stack := calls }.pushed res published) : Feeds s t []

theorem pushing_callStack {old new : List Frame}
    (h : old.length ≤ new.length ∨ ∃ j calls, s.stack = .observer j :: calls) :
    (s.callStack i old new).filter Call.isPushAll = s.pushing := by
  unfold callStack
  split
  · simp [pushing, Call.isPushAll]
  · split
    · rcases h with hle | ⟨j, calls, hstack⟩
      · omega
      · simp [pushing, hstack, Call.isPushAll]
    · rfl

theorem keeps_setState {cell : Cell τ} {sub : UcastSubState τ}
    (haction : ∀ item, action ≠ .push item)
    (hends : action ≠ .iterate ∧ action ≠ .ret ∨
      ∃ j calls, s.stack = .observer j :: calls)
    (hcell : s.cells[i]? = some cell)
    (hstep : cell.sub.step action = some sub) :
    Keeps s (s.setState i cell sub) := by
  refine ⟨.set hcell hstep haction, rfl, pushing_callStack ?_, .refl _⟩
  refine hends.imp_left fun hother => ?_
  exact UcastSubState.step_frames hstep hother.1 hother.2

theorem keeps_act {t : HotOperator τ} (h : s.act i action = some t)
    (haction : ∀ item, action ≠ .push item)
    (hends : action ≠ .iterate ∧ action ≠ .ret ∨
      ∃ j calls, s.stack = .observer j :: calls) : Keeps s t := by
  obtain ⟨cell, sub, hcell, hstep, rfl⟩ := act_cases h
  exact keeps_setState haction hends hcell hstep

theorem keeps_setListening (s : HotOperator τ) (i : Nat) (listening : Bool) :
    Keeps s (s.setListening i listening) := by
  refine ⟨⟨length_modify .., fun j cell cell' hcell hcell' => ?_⟩, rfl,
    rfl, .refl _⟩
  rw [setListening, getElem?_modify, hcell] at hcell'
  split at hcell'
  · cases hcell'
    exact ⟨.refl _, id⟩
  · cases hcell'
    exact ⟨.refl _, id⟩

variable {states : List Nat} {fromExternal : Bool}

theorem keeps_actAll (h : actAll action states s = some t)
    (haction : ∀ item, action ≠ .push item)
    (hends : action ≠ .iterate ∧ action ≠ .ret) : Keeps s t := by
  induction states generalizing s with
  | nil =>
    cases h
    exact .refl _
  | cons i rest ih =>
    obtain ⟨u, hact, hrest⟩ := bind_eq_some_iff.mp h
    exact (keeps_setListening s i false).trans
      ((keeps_act hact haction (.inl hends)).trans (ih hrest))

section

variable (hkind : s.kind = .publish)
include hkind

theorem close_feeds (hstack : s.stack = []) (h : s.close = some t) :
    Feeds s t [] := by
  simp only [close, hkind] at h
  split at h
  · cases h
    exact .keeps (.refl s)
  · obtain ⟨-, h⟩ := ite_none_left_eq_some.mp h
    obtain ⟨u, hall, rfl⟩ := map_eq_some_iff.mp h
    have hkeeps := keeps_actAll hall nofun ⟨nofun, nofun⟩
    have hidle : s.pushing = [] := pushing_of_stack hstack
    exact .ends hkeeps.cells hidle (hkeeps.pushing.trans hidle) rfl
      hkeeps.source

theorem abort_feeds {reason : Option Nat} (hstack : s.stack = [])
    (h : s.abort reason = some t) : Feeds s t [] := by
  simp only [abort, hkind] at h
  split at h
  · cases h
    exact .keeps (.refl s)
  · obtain ⟨-, h⟩ := ite_none_left_eq_some.mp h
    obtain ⟨u, hall, rfl⟩ := map_eq_some_iff.mp h
    have hkeeps := keeps_actAll hall nofun ⟨nofun, nofun⟩
    have hidle : s.pushing = [] := pushing_of_stack hstack
    exact .ends hkeeps.cells hidle (hkeeps.pushing.trans hidle) rfl
      hkeeps.source

theorem subscribe_feeds (hstack : s.stack = []) (h : s.subscribe = some t) :
    Feeds s t [] := by
  simp only [subscribe, hkind] at h
  split at h
  · cases h
    refine .keeps ⟨.of_eq rfl, rfl, ?_, .refl _⟩
    simp [pushing, reject, Call.isPushAll]
  · obtain ⟨-, ⟨⟩⟩ := ite_none_left_eq_some.mp h
    refine .adds rfl rfl (pushing_of_stack hstack) ?_ rfl
    simp [pushing, hstack, Call.isPushAll]

end

theorem request_keeps {n : Nat} (h : s.request id n = some t) : Keeps s t := by
  unfold request at h
  split at h
  · cases h
  · split at h
    · cases h
      exact .refl s
    · cases h
      exact .refl s
    · cases h
    · exact keeps_act h nofun (.inl ⟨nofun, nofun⟩)

theorem disposeAction_eq {sub : Subscription τ}
    (h : sub.disposeAction fromExternal = some action) :
    action = .dispose ∨ action = .cancel := by
  unfold Subscription.disposeAction at h
  split at h
  · split at h <;> cases h
    · exact .inl rfl
    · exact .inr rfl
  · cases h
    exact .inl rfl
  · cases h

theorem doDispose_keeps (h : s.doDispose id fromExternal = some t) :
    Keeps s t := by
  unfold doDispose at h
  split at h
  · cases h
  · rename_i sub hsub
    split at h
    · split at h
      · cases h
        exact ⟨.of_eq rfl, rfl, rfl, .refl _⟩
      · rename_i action haction
        have hset : Keeps s (s.setSub id { sub with live := false }) :=
          ⟨.of_eq rfl, rfl, rfl, .refl _⟩
        refine hset.trans ?_
        rcases disposeAction_eq haction with rfl | rfl
        · exact keeps_act h nofun (.inl ⟨nofun, nofun⟩)
        · exact keeps_act h nofun (.inl ⟨nofun, nofun⟩)
    · cases h
      exact .refl s

theorem dispose_keeps (h : s.dispose id = some t) : Keeps s t := by
  obtain ⟨sub, -, rfl⟩ := map_eq_some_iff.mp h
  split
  · exact .refl s
  · exact ⟨.of_eq rfl, rfl, rfl, .refl _⟩

theorem runDispose_keeps (h : s.runDispose id = some t) : Keeps s t := by
  unfold runDispose at h
  split at h
  · cases h
  · rename_i sub hsub
    replace h := of_guarded h
    have hset : Keeps s
        (s.setSub id { sub with disposals := sub.disposals - 1 }) :=
      ⟨.of_eq rfl, rfl, rfl, .refl _⟩
    exact hset.trans (doDispose_keeps h)

theorem swapPop_perm (hmem : i ∈ states) :
    (swapPop states i).Perm (states.erase i) := by
  obtain ⟨front, last, rfl⟩ : ∃ front last, states = front ++ [last] :=
    (eq_nil_or_concat' states).resolve_left (ne_nil_of_mem hmem)
  have hswap : swapPop (front ++ [last]) i =
      ((front ++ [last]).set ((front ++ [last]).idxOf i) last).dropLast := by
    simp [swapPop]
  rw [hswap]
  by_cases hfront : i ∈ front
  · have hlt := idxOf_lt_length_of_mem hfront
    rw [idxOf_append_of_mem hfront, set_append_left _ _ hlt,
      dropLast_concat, erase_append_left _ hfront]
    have herase : front.erase i =
        front.take (front.idxOf i) ++ front.drop (front.idxOf i + 1) := by
      rw [erase_eq_eraseIdx_of_idxOf rfl, eraseIdx_eq_take_drop_succ]
    rw [set_eq_take_append_cons_drop, if_pos hlt, herase]
    exact perm_middle.trans (perm_append_singleton last _).symm
  · have hlast : i = last := by
      simpa [hfront] using hmem
    subst hlast
    simp [idxOf_append_of_notMem hfront, erase_append_right _ hfront]

theorem removeState_feeds (hkind : s.kind = .publish) (hstack : s.stack = [])
    (h : s.removeState i = some t) : Feeds s t [] := by
  have hidle : s.pushing = [] := pushing_of_stack hstack
  replace h := of_guarded h
  split_ifs at h with hmem
  · have hperm := swapPop_perm hmem
    cases h
    refine .renews
      (u := { s with
        removals := s.removals.erase i
        states := swapPop s.states i }) rfl rfl hidle hidle ?_ ?_ (.refl _) ?_
    · intro j hj
      exact mem_of_mem_erase (hperm.mem_iff.mp hj)
    · intro hnodup
      exact hperm.nodup_iff.mpr (hnodup.erase i)
    · rw [stateRemoved, if_pos (by exact hkind)]
      split_ifs with hlast
      · simp only [Bool.and_eq_true, List.isEmpty_iff] at hlast
        exact .inr ⟨hlast.2, rfl⟩
      · exact .inl rfl
  · cases h
    exact .keeps ⟨.of_eq rfl, rfl, rfl, .refl _⟩

theorem keeps_onConsumedSome (s : HotOperator τ) :
    Keeps s s.onConsumedSome := by
  unfold onConsumedSome
  split
  · exact ⟨.of_eq rfl, rfl, rfl, ⟨rfl, rfl, rfl, rfl, rfl⟩⟩
  · exact .refl s

theorem ret_keeps (h : s.ret = some t) : Keeps s t := by
  unfold ret at h
  split at h
  · rename_i i calls hstack
    split at h
    · cases h
    · rename_i cell hcell
      obtain ⟨sub, hstep, rfl⟩ := map_eq_some_iff.mp h
      have hkeeps := keeps_setState (by nofun) (.inr ⟨i, calls, hstack⟩)
        hcell hstep
      split
      · exact hkeeps.trans (keeps_onConsumedSome _)
      · exact hkeeps
  · rename_i id calls hstack
    cases h
    have hpush : calls.filter Call.isPushAll = s.pushing := by
      simp [pushing, hstack, Call.isPushAll]
    unfold subscribed
    split
    · exact ⟨.of_eq rfl, rfl, hpush, ⟨rfl, rfl, rfl, rfl, rfl⟩⟩
    · exact ⟨.of_eq rfl, rfl, hpush, .refl _⟩
  · cases h

theorem next_feeds (h : s.next = some t) : Feeds s t [] := by
  unfold next at h
  split at h
  · rename_i item i rest res published calls hstack
    split at h
    · cases h
    · rename_i cell hcell
      obtain ⟨cell', sub, hcell', hstep, rfl⟩ := act_cases h
      have hsame : cell' = cell := by
        have hboth := hcell'.symm.trans hcell
        exact Option.some.inj hboth
      subst hsame
      have hpush : s.pushing.head? =
          some (.pushAll item (i :: rest) res published) := by
        simp [pushing, hstack, Call.isPushAll]
      refine .reaches hpush hcell hstep rfl rfl ?_ rfl
      refine (pushing_callStack (.inl ?_)).trans ?_
      · exact UcastSubState.step_frames hstep nofun nofun
      · simp only [pushing, hstack]
        rfl
  · rename_i item res published calls hstack
    cases h
    exact .returns hstack rfl
  · cases h

theorem step_feeds {a : HotAction τ} (hkind : s.kind = .publish)
    (hord : s.Orderly a) (h : s.step a = some t) :
    Feeds s t a.published := by
  cases a with
  | subscribe => exact subscribe_feeds hkind hord (of_guarded h)
  | push item => exact hord.elim
  | next => exact next_feeds h
  | close | onComplete => exact close_feeds hkind hord (of_guarded h)
  | abort reason | onError reason => exact abort_feeds hkind hord (of_guarded h)
  | request id n => exact .keeps (request_keeps (of_guarded h))
  | cancel id => exact .keeps (doDispose_keeps (of_guarded h))
  | dispose id => exact .keeps (dispose_keeps (of_guarded h))
  | runDispose id => exact .keeps (runDispose_keeps (of_guarded h))
  | runPull i =>
    apply Feeds.keeps
    apply keeps_act (of_guarded h)
    · simp
    · simp
  | iterate =>
    simp only [step] at h
    split at h
    · rename_i i calls hstack
      apply Feeds.keeps
      apply keeps_act h
      · simp
      · exact .inr ⟨i, calls, hstack⟩
    · cases h
  | ret => exact .keeps (ret_keeps h)
  | removeState i =>
    obtain ⟨hstack, h⟩ := ite_none_right_eq_some.mp h
    exact removeState_feeds hkind (List.isEmpty_iff.mp hstack) h
  | connect =>
    obtain ⟨_, rfl⟩ := of_guard h
    exact .keeps ⟨.of_eq rfl, rfl, rfl, ⟨rfl, rfl, rfl, rfl, rfl⟩⟩
  | onSubscribe =>
    obtain ⟨_, rfl⟩ := of_guard h
    exact .links (pushing_of_stack hord) rfl
  | onNext item =>
    obtain ⟨_, rfl⟩ := of_guard h
    obtain ⟨hstack, hlinked, hcredit⟩ := hord
    exact .publishes (pushing_of_stack hstack) hlinked hcredit rfl
  | tryRequestMore =>
    obtain ⟨hcond, rfl⟩ := of_guard h
    simp only [Bool.and_eq_true, List.isEmpty_iff] at hcond
    have hidle : s.pushing = [] := pushing_of_stack hcond.1
    refine .renews
      (u := { s with
        source := { s.source with requests := s.source.requests - 1 } })
      rfl rfl hidle hidle (List.Subset.refl _) id ⟨rfl, rfl, rfl, rfl, rfl⟩
      (.inl rfl)

end HotOperator

end ActorFramework.Flow
