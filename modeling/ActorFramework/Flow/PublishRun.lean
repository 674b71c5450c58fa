import ActorFramework.Flow.PublishCredit

/-!
# Runs of a publish operator

A state is given every item that is published while it is in the vector.  Its
observer gets them in order, so that it sees a prefix of what was published
since it subscribed.
-/

namespace ActorFramework.Flow

open Foundation List

variable {τ : Type*}

def Call.due (i : Nat) : Call τ → List τ
  | .pushAll item rest _ _ => if i ∈ rest then [item] else []
  | _ => []

namespace HotOperator

def due (s : HotOperator τ) (i : Nat) : List τ := s.pushing.flatMap (Call.due i)

/-- What state `i` was given and will be given, against the items that were
published since it was added.  A state that was removed gets no more of
them. -/
def Logged (i : Nat) (items : List τ) (s : HotOperator τ) : Prop :=
  ∃ cell, s.cells[i]? = some cell ∧ cell.sub.pushed ++ s.due i <+: items ∧
    (i ∈ s.states → cell.sub.pushed ++ s.due i = items)

variable {s t : HotOperator τ} {i : Nat} {items : List τ}

theorem due_of_pushing (h : s.pushing = []) (i : Nat) : s.due i = [] := by
  simp [due, h]

theorem Logged.narrow (h : Logged i items s)
    (hcells : CellsNarrow s.cells t.cells) (hpush : t.pushing = s.pushing)
    (hstates : t.states ⊆ s.states) : Logged i items t := by
  obtain ⟨cell, hcell, hgrow, hall⟩ := h
  have hlt : i < t.cells.length := by
    rw [hcells.length]
    exact (List.getElem?_eq_some_iff.mp hcell).1
  have hcell' := getElem?_eq_getElem hlt
  have hpushed := (hcells.each i cell _ hcell hcell').1.pushed
  refine ⟨_, hcell', ?_, ?_⟩
  · rw [hpushed, due, hpush]
    exact hgrow
  · intro hi
    rw [hpushed, due, hpush]
    exact hall (hstates hi)

theorem Logged.publishes (h : Logged i items s) (hidle : s.pushing = [])
    (item : τ) : Logged i (items ++ [item]) (s.onNext item) := by
  obtain ⟨cell, hcell, hgrow, hall⟩ := h
  rw [due_of_pushing hidle, append_nil] at hgrow hall
  have hdue : (s.onNext item).due i =
      if i ∈ s.states then [item] else [] := by
    simp [due, pushing_onNext, hidle, Call.due]
  refine ⟨cell, hcell, ?_, ?_⟩
  · rw [hdue]
    split_ifs with hi
    · simp [hall hi]
    · rw [append_nil]
      exact hgrow.trans (prefix_append items [item])
  · intro hi
    rw [hdue, if_pos (by exact hi), hall hi]

theorem Logged.reaches {item : τ} {j : Nat} {rest : List Nat}
    {res res' published : Bool} {cell : Cell τ} {sub : UcastSubState τ}
    (h : Logged i items s) (hs : Fed s)
    (hpush : s.pushing = [.pushAll item (j :: rest) res published])
    (hcell : s.cells[j]? = some cell)
    (hstep : cell.sub.step (.push item) = some sub)
    (hcells : t.cells = s.cells.set j ⟨sub, cell.listening && !sub.disposed⟩)
    (hstates : t.states = s.states)
    (hpush' : t.pushing = [.pushAll item rest res' published]) :
    Logged i items t := by
  obtain ⟨old, hold, hgrow, hall⟩ := h
  have hfresh : j ∉ rest := by
    have hwaits := hs.waits
    simp only [unreached, hpush, Call.rest, flatMap_cons,
      flatMap_nil, append_nil] at hwaits
    exact (nodup_cons.mp (hs.nodup.sublist hwaits.sublist)).1
  rcases eq_or_ne j i with rfl | hne
  · rw [hcell, Option.some.injEq] at hold
    subst hold
    obtain ⟨hpushed, -, -⟩ :=
      UcastSubState.step_push (hs.sound j cell hcell) hstep
    have hsame : sub.pushed ++ t.due j = cell.sub.pushed ++ s.due j := by
      simp [hpushed, due, hpush, hpush', Call.due, hfresh]
    refine ⟨_, by rw [hcells, getElem?_set_of_some _ hcell], ?_, ?_⟩
    · rw [hsame]
      exact hgrow
    · rw [hsame, hstates]
      exact hall
  · have hsame : t.due i = s.due i := by
      simp [due, hpush, hpush', Call.due, hne.symm]
    refine ⟨old, by rw [hcells, getElem?_set_ne hne, hold], ?_, ?_⟩
    · rw [hsame]
      exact hgrow
    · rw [hsame, hstates]
      exact hall

theorem step_logged {a : HotAction τ} (hs : Fed s) (h : Logged i items s)
    (hord : s.Orderly a) (hstep : s.step a = some t) :
    Logged i (items ++ a.published) t := by
  have hfeeds := step_feeds hs.kind hord hstep
  generalize a.published = new at hfeeds
  cases hfeeds with
  | publishes hidle hlinked hcredit ht =>
    subst ht
    exact h.publishes hidle _
  | keeps hkeeps =>
    rw [append_nil]
    exact h.narrow hkeeps.cells hkeeps.pushing
      (by rw [hkeeps.states]; exact List.Subset.refl _)
  | ends hcells hidle hpushing hstates hsrc =>
    rw [append_nil]
    exact h.narrow hcells (hpushing.trans hidle.symm)
      (by rw [hstates]; exact nil_subset _)
  | renews hsame hcells hidle hpushing hstates hnodup hsrc ht =>
    rw [append_nil]
    obtain ⟨hsame, hstates', hpushing'⟩ := tryRequestMore_frame _
    rw [← hstates'] at hstates
    rcases ht with rfl | ⟨-, rfl⟩
    · exact h.narrow (.of_eq (hsame.trans hcells))
        (hpushing'.trans (hpushing.trans hidle.symm)) hstates
    · exact h.narrow (.of_eq (hsame.trans hcells))
        (hpushing'.trans (hpushing.trans hidle.symm)) hstates
  | links hidle ht =>
    rw [append_nil, ht]
    unfold sourceSubscribed
    split
    · exact h
    · exact h.narrow (.of_eq rfl) rfl (List.Subset.refl _)
  | adds hcells hstates hidle hpushing hsrc =>
    rw [append_nil]
    obtain ⟨cell, hcell, hgrow, hall⟩ := h
    have hlt := (List.getElem?_eq_some_iff.mp hcell).1
    have hdue : t.due i = s.due i := by
      rw [due, due, hpushing, hidle]
    refine ⟨cell, ?_, by rw [hdue]; exact hgrow, fun hi => ?_⟩
    · rw [hcells, getElem?_append_left hlt, hcell]
    · rw [hstates, mem_append, mem_singleton] at hi
      rw [hdue]
      exact hall (hi.resolve_right (Nat.ne_of_lt hlt))
  | reaches hpushing hcell hpush hcells hstates hpushing' hsrc =>
    rw [append_nil]
    have hpushing := hs.pushing_eq hpushing
    rw [hpushing] at hpushing'
    exact h.reaches hs hpushing hcell hpush hcells hstates hpushing'
  | returns hstack ht =>
    rename_i item res published calls
    rw [append_nil, ht]
    have hpushing := hs.pushing_eq (by rw [pushing, hstack]; rfl)
    obtain ⟨cell, hcell, hgrow, hall⟩ := h
    have hcalls : calls.filter Call.isPushAll = [] := by
      rw [pushing, hstack] at hpushing
      exact (List.cons.inj hpushing).2
    have hdue : s.due i = [] := by
      simp [due, hpushing, Call.due]
    rw [hdue] at hgrow hall
    have hlogged : Logged i items { s with stack := calls } := by
      have hnone : ({ s with stack := calls } : HotOperator τ).due i = [] :=
        due_of_pushing (by exact hcalls) i
      exact ⟨cell, hcell, by rw [hnone]; exact hgrow, by rw [hnone]; exact hall⟩
    unfold pushed
    split
    · exact hlogged.narrow (.of_eq rfl) rfl (List.Subset.refl _)
    · exact hlogged

theorem Feeds.maxBufSize_eq (h : Feeds s t items) :
    t.source.maxBufSize = s.source.maxBufSize := by
  have hrenewed : ∀ u : HotOperator τ,
      u.tryRequestMore.source.maxBufSize = u.source.maxBufSize := by
    intro u
    unfold tryRequestMore
    split <;> rfl
  cases h with
  | keeps hkeeps => exact hkeeps.source.maxBufSize
  | ends _ _ _ _ hsrc => exact hsrc.maxBufSize
  | renews _ _ _ _ _ _ hsrc ht =>
    rcases ht with rfl | ⟨-, rfl⟩
    · exact (hrenewed _).trans hsrc.maxBufSize
    · exact (hrenewed _).trans hsrc.maxBufSize
  | links _ ht =>
    rw [ht, sourceSubscribed]
    split <;> rfl
  | adds _ _ _ _ hsrc => rw [hsrc]
  | publishes _ _ _ ht => rw [ht, onNext_source]
  | reaches _ _ _ _ _ _ hsrc => rw [hsrc]
  | returns _ ht =>
    rw [ht, pushed]
    split <;> rfl

end HotOperator

def Subscription.Reads (sub : Subscription τ) : Option Nat → Prop
  | some i => sub.received = none ∧ sub.isTrivial = false ∧ sub.state = i
  | none => ∃ events, sub.received = some events ∧
      events.filterMap FlowEvent.item = []

theorem Subscription.Reads.reject {state : Option Nat} {sub : Subscription τ}
    (h : sub.Reads state) : sub.reject.Reads state := by
  unfold Subscription.reject
  split
  · rename_i err himpl
    split
    · cases state with
      | none =>
        refine ⟨_, rfl, ?_⟩
        cases err <;> rfl
      | some i =>
        have htrivial := h.2.1
        simp [Subscription.isTrivial, himpl] at htrivial
    · exact h
  · exact h

namespace HotOperator

variable {s t : HotOperator τ} {id : Nat} {state : Option Nat}

variable {a : HotAction τ} {items : List τ} {source : PublishState}

theorem Moves.reads (h : Moves s t a) (hkind : s.kind = .publish)
    (hreads : ∃ sub, s.subs[id]? = some sub ∧ sub.Reads state) :
    ∃ sub, t.subs[id]? = some sub ∧ sub.Reads state := by
  obtain ⟨sub, hsub, hreads⟩ := hreads
  have hset : ∀ (j : Nat) (old new : Subscription τ),
      s.subs[j]? = some old → t.subs = s.subs.set j new →
      (old.Reads state → new.Reads state) →
      ∃ sub, t.subs[id]? = some sub ∧ sub.Reads state := by
    intro j old new hold hsubs hnew
    rw [hsubs]
    rcases eq_or_ne j id with rfl | hne
    · rw [hsub, Option.some.injEq] at hold
      subst hold
      exact ⟨new, getElem?_set_of_some new hsub, hnew hreads⟩
    · exact ⟨sub, by rw [getElem?_set_ne hne, hsub], hreads⟩
  have hlt := (List.getElem?_eq_some_iff.mp hsub).1
  cases h with
  | shifts h => exact ⟨sub, by rw [h.subs, hsub], hreads⟩
  | marks _ _ hold hsubs =>
    exact hset _ _ _ hold hsubs (by cases state <;> exact fun h => h)
  | drops h =>
    cases h with
    | nothing _ _ hold _ hsubs | state _ _ hold _ _ hsubs =>
      exact hset _ _ _ hold hsubs (by cases state <;> exact fun h => h)
  | moves _ hucast => cases hkind ▸ hucast
  | adds _ _ _ hsubs | rejects _ _ hsubs =>
    exact ⟨sub, by rw [hsubs, getElem?_append_left hlt, hsub], hreads⟩
  | answers _ _ hsubs =>
    rw [hsubs, getElem?_modify, hsub]
    refine ⟨_, rfl, ?_⟩
    split
    · exact hreads.reject
    · exact hreads

/-- The observer of subscription `id` reads from a state that is given the
published items, or it gets none. -/
structure Tracks (id : Nat) (state : Option Nat) (items : List τ)
    (s : HotOperator τ) : Prop where
  fed : Fed s
  reads : ∃ sub, s.subs[id]? = some sub ∧ sub.Reads state
  logged : ∀ i, state = some i → Logged i items s

theorem Tracks.step (h : Tracks id state items s) (hord : s.Orderly a)
    (hstep : s.step a = some t) : Tracks id state (items ++ a.published) t :=
  ⟨step_fed h.fed hord hstep,
    (step_moves hstep).reads h.fed.kind h.reads,
    fun i hi => step_logged h.fed (h.logged i hi) hord hstep⟩

theorem tracks_subscribe (h : Fed s) (hord : s.Orderly .subscribe)
    (hstep : s.step .subscribe = some t) :
    ∃ state, Tracks s.subs.length state [] t := by
  have hfed := step_fed h hord hstep
  have hsubscribe := (of_guarded hstep)
  simp only [subscribe, h.kind] at hsubscribe
  split at hsubscribe
  · cases hsubscribe
    refine ⟨none, hfed, ⟨_, getElem?_concat_length, [], rfl, rfl⟩, ?_⟩
    intro i hi
    cases hi
  · obtain ⟨-, ⟨⟩⟩ := Option.ite_none_left_eq_some.mp hsubscribe
    refine ⟨some s.cells.length, hfed,
      ⟨_, getElem?_concat_length, rfl, rfl, rfl⟩, ?_⟩
    rintro i ⟨⟩
    have hidle : s.pushing = [] := pushing_of_stack hord
    refine ⟨_, getElem?_concat_length, ?_, fun _ => ?_⟩
    · rw [due_of_pushing (by exact hidle)]
      exact nil_prefix
    · rw [due_of_pushing (by exact hidle)]
      exact append_nil _

theorem Tracks.items_prefix (h : Tracks id state items s) :
    (s.events id).filterMap FlowEvent.item <+: items := by
  obtain ⟨sub, hsub, hreads⟩ := h.reads
  have hevs : s.events id = sub.events s.cells := by
    rw [events, hsub]
  rw [hevs]
  cases state with
  | none =>
    obtain ⟨events, hevs, hempty⟩ := hreads
    simp only [Subscription.events, hevs, hempty]
    exact nil_prefix
  | some i =>
    obtain ⟨hnone, -, rfl⟩ := hreads
    obtain ⟨cell, hcell, hgrow, -⟩ := h.logged _ rfl
    have hsound := h.fed.sound _ cell hcell
    have hpushed := hsound.delivered_prefix
    simp only [Subscription.events, hnone, hcell]
    exact hpushed.trans ((prefix_append _ _).trans hgrow)

theorem exec_maxBufSize {actions : List (HotAction τ)} (hsrc : source.Fresh)
    (hord : Along step Orderly (initial .publish source) actions)
    (hrun : exec step (initial .publish source) actions = some s) :
    s.source.maxBufSize = source.maxBufSize := by
  refine (exec_invariant_along
    (fun s => Fed s ∧ s.source.maxBufSize = source.maxBufSize) ?_
    ⟨fed_initial hsrc, rfl⟩ hord hrun).2
  rintro s a t ⟨h, hsame⟩ hguard hstep
  exact ⟨step_fed h hguard hstep,
    (step_feeds h.kind hguard hstep).maxBufSize_eq.trans hsame⟩

/-- The buffers and the items in flight never need more than `max_buf_size_`
places, `in_flight_` is what was requested and did not arrive, and each
observer gets a prefix of the items that were published since it subscribed.
Observers do not subscribe or make the source act from inside a call, and no
item of a subscription that was cancelled arrives. -/
theorem publish_keeps_credit {source : PublishState}
    {actions : List (HotAction τ)} {s : HotOperator τ} (hsource : source.Fresh)
    (horderly : Along step Orderly (initial .publish source) actions)
    (hrun : exec step (initial .publish source) actions = some s) :
    s.source.inFlight + s.maxBuffered ≤ source.maxBufSize ∧
      (∀ (i : Nat) (cell : Cell τ), s.cells[i]? = some cell →
        cell.sub.buf.length ≤ source.maxBufSize) ∧
      s.source.received ≤ s.source.requested ∧
      s.source.inFlight = s.source.requested - s.source.received ∧
      ∀ (before rest : List (HotAction τ)) (t : HotOperator τ),
        actions = before ++ .subscribe :: rest →
        exec step (initial .publish source) before = some t →
        (s.events t.subs.length).filterMap FlowEvent.item <+:
          rest.flatMap HotAction.published := by
  have hfed := exec_fed hsource horderly hrun
  have haccount := hfed.account
  rw [← exec_maxBufSize hsource horderly hrun]
  refine ⟨hfed.bounded, hfed.full, by omega, by omega, ?_⟩
  rintro before rest t rfl hfirst
  have hprior := exec_fed hsource horderly.append_left hfirst
  have hguard := horderly.append_right hfirst
  obtain ⟨u, hsubscribe, hrest⟩ :=
    exec_cons_eq_some.mp (exec_append_eq_some hfirst hrun)
  obtain ⟨state, htracks⟩ := tracks_subscribe hprior hguard.1 hsubscribe
  have htracks : Tracks t.subs.length state
      (([] : List (HotAction τ)).flatMap HotAction.published) u := htracks
  have hlast := exec_history_along
    (fun as s' => Tracks t.subs.length state (as.flatMap HotAction.published)
      s')
    (fun as s' a t' h hguard hstep => by
      rw [flatMap_append, flatMap_singleton]
      exact h.step hguard hstep)
    htracks (hguard.tail hsubscribe) hrest
  exact hlast.items_prefix

def oneObserver : List (HotAction Nat) :=
  [.subscribe, .ret, .onSubscribe, .onNext 7, .next, .next, .request 0 1,
    .runPull 0, .iterate, .ret, .tryRequestMore]

theorem publish_keeps_credit_one_observer :
    ∃ s, exec step (initial .publish
        { maxBufSize := 2, autoConnectThreshold := 1 }) oneObserver = some s ∧
      s.events 0 = [.next 7] ∧ s.source.requested = 3 ∧
      s.source.inFlight = 3 - 1 ∧ s.source.inFlight + s.maxBuffered ≤ 2 := by
  refine exists_of_map
    (fun s => (s.events 0, s.source.requested, s.source.received))
    ([.next 7], 3, 1) (by decide +kernel) ?_
  intro s hrun hs
  simp only [Prod.mk.injEq] at hs
  have horderly : Along step Orderly (initial .publish
      { maxBufSize := 2, autoConnectThreshold := 1 }) oneObserver :=
    ⟨rfl, trivial, rfl, ⟨rfl, rfl, Nat.zero_lt_two⟩, trivial, trivial, trivial,
      trivial, trivial, trivial, trivial, trivial⟩
  have hcredit := publish_keeps_credit
    ⟨by decide, rfl, rfl, rfl, rfl, rfl, rfl, rfl⟩ horderly hrun
  refine ⟨hs.1, hs.2.1, ?_, hcredit.1⟩
  rw [hcredit.2.2.2.1, hs.2.1, hs.2.2]

/-- The first observer leaves, so that the source is disconnected, and a second
one subscribes.  Then both subscriptions to the source deliver the one item
that was requested. -/
def lateItem : List (HotAction Nat) :=
  [.subscribe, .ret, .onSubscribe, .cancel 0, .removeState 0, .subscribe, .ret,
    .onSubscribe, .onNext 1, .next, .next, .onNext 2, .next, .next]

theorem publish_overfills_buffer :
    (exec step (initial .publish
      { maxBufSize := 1, autoConnectThreshold := 1, autoDisconnect := true })
      lateItem).map
        (fun s => (s.source.inFlight, s.cells.map fun cell => cell.sub.buf)) =
      some (2 ^ 64 - 1, [[], [1, 2]]) := by
  decide +kernel

end HotOperator

end ActorFramework.Flow
