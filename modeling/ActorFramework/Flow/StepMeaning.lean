import ActorFramework.Flow.Step

/-!
# The meaning of flow steps

Each step is a stage: it reacts to an item by passing items on, and it may end
the flow.  The code of a step follows its stage, whatever comes next, and the
stage makes of a whole sequence what the corresponding list function does.
-/

namespace ActorFramework.Flow

open Foundation List RingBuffer Stage Handler

variable {α β γ σ : Type}

namespace Step

def passing {ρ : Type} (react : ρ → α → List β × Option ρ) :
    Stage α β (Option Nat) ρ where
  react := react
  flush _ e := ([], e)

def takeReact (remaining : Nat) (item : α) : List α × Option Nat :=
  if remaining = 0 then ([], none)
  else if remaining = 1 then ([item], none)
  else ([item], some (remaining - 1))

def skipReact (remaining : Nat) (item : α) : List α × Option Nat :=
  if remaining = 0 then ([item], some 0) else ([], some (remaining - 1))

def distinctReact [DecidableEq α] (prev : List α) (item : α) :
    List α × Option (List α) :=
  if item ∈ prev then ([], some prev) else ([item], some (item :: prev))

def skipLastReact [Inhabited α] {num : Nat} (elements : RingBuffer α num)
    (item : α) : List α × Option (RingBuffer α num) :=
  if elements.full then
    ([elements.front], some (elements.popFront.pushBack item))
  else ([], some (elements.pushBack item))

def elementAtReact (index current : Nat) (item : α) : List α × Option Nat :=
  if index = current then ([item], none) else ([], some (current + 1))

def stage : {α β : Type} → (step : Step α β) →
    Stage α β (Option Nat) step.State
  | _, _, .map fn => passing fun q item => ([fn item], some q)
  | _, _, .filter pred =>
    passing fun q item => (if pred item then [item] else [], some q)
  | _, _, .take _ => passing takeReact
  | _, _, .skip _ => passing skipReact
  | _, _, .takeWhile pred =>
    passing fun q item =>
      if pred item then ([item], some q) else ([], none)
  | _, _, .reduce _ fn =>
    { react := fun val item => ([], some (fn val item))
      flush := fun val e => ([val], e) }
  | _, _, .scan _ fn =>
    passing fun val item => ([fn val item], some (fn val item))
  | _, _, @distinct _ _ => passing distinctReact
  | α, _, @takeLast _ _ num =>
    { react := fun (elements : RingBuffer α num) item =>
        ([], some (elements.pushBack item))
      flush := fun elements e =>
        match e with
        | .complete => (elements.contents, .complete)
        | .error what => ([], .error what) }
  | _, _, @skipLast _ _ _ => passing skipLastReact
  | _, _, .elementAt index => passing (elementAtReact index)

section Follows

variable {ρ : Type} {next : Next β σ}

/-- What a step returns after `next` has returned: it goes on with state `r`,
or it ends the flow. -/
def outcome (next : Next β σ) (qend qcut : ρ) :
    Option ρ → σ × Bool → (ρ × σ) × Bool
  | some r, (t, true) => ((r, t), true)
  | none, (t, true) => ((qend, next.onComplete t), false)
  | _, (t, false) => ((qcut, t), false)

/-- It is enough to know what the code of a step does after it has passed on
the items of its stage. -/
theorem follows_of {stage : Stage α β (Option Nat) ρ} {h : Next α (ρ × σ)}
    (hnext : ∀ q s item, ∃ qend qcut, h.onNext (q, s) item =
      outcome next qend qcut (stage.react q item).2
        (next.feed s (stage.react q item).1))
    (hclose : ∀ q s e, ∃ r, h.close (q, s) e =
      match next.feed s (stage.flush q e).1 with
      | (t, true) => (r, next.close t (stage.flush q e).2)
      | (t, false) => (r, t)) : stage.Follows next h where
  accept := by
    intro q r s t item out hreact hfeed
    obtain ⟨qend, qcut, hcode⟩ := hnext q s item
    rw [hreact, hfeed] at hcode
    exact hcode
  stop := by
    intro q s t item out hreact hfeed
    obtain ⟨qend, qcut, hcode⟩ := hnext q s item
    rw [hreact, hfeed] at hcode
    exact ⟨qend, hcode⟩
  refuse := by
    intro q s t item out r hreact hfeed
    obtain ⟨qend, qcut, hcode⟩ := hnext q s item
    rw [hreact, hfeed] at hcode
    cases r <;> exact ⟨qcut, hcode⟩
  close := by
    intro q s t e e' out hflush hfeed
    obtain ⟨r, hcode⟩ := hclose q s e
    rw [hflush, hfeed] at hcode
    exact ⟨r, hcode⟩
  cut := by
    intro q s t e e' out hflush hfeed
    obtain ⟨r, hcode⟩ := hclose q s e
    rw [hflush, hfeed] at hcode
    exact ⟨r, hcode⟩

theorem follows_forwarding {react : ρ → α → List β × Option ρ}
    {onNext : ρ × σ → α → (ρ × σ) × Bool}
    (hnext : ∀ q s item, ∃ qend qcut, onNext (q, s) item =
      outcome next qend qcut (react q item).2
        (next.feed s (react q item).1)) :
    (passing react).Follows next (forwarding next onNext) :=
  follows_of hnext fun q _ e => ⟨q, by cases e <;> rfl⟩

theorem passOn_eq (q : ρ) (s : σ) (item : β) :
    passOn next q s item =
      outcome next q q (some q) (next.onNext s item) := by
  rcases hnext : next.onNext s item with ⟨t, _ | _⟩ <;>
    simp [passOn, hnext, outcome]

variable {num : Nat}

theorem takeLastOnComplete_eq [Inhabited β] (next : Next β σ)
    (elements : RingBuffer β num) (s : σ) :
    ∃ r, takeLastOnComplete next elements.size elements s =
      match next.feed s elements.contents with
      | (t, true) => (r, next.onComplete t)
      | (t, false) => (r, t) := by
  generalize hsize : elements.size = left
  induction left generalizing elements s with
  | zero =>
    have hnil : elements.contents = [] := by
      rw [← length_eq_zero_iff, length_contents, hsize]
    exact ⟨elements, by rw [hnil]; rfl⟩
  | succ left ih =>
    have hcons := elements.contents_eq_cons
      (by simp [RingBuffer.isEmpty, hsize])
    have hpop : elements.popFront.size = left := by
      simp [popFront, hsize]
    rw [hcons]
    simp only [takeLastOnComplete, feed]
    rcases hnext : next.onNext s elements.front with ⟨t, _ | _⟩
    · exact ⟨elements, rfl⟩
    · exact ih elements.popFront t hpop

theorem takeOnNext_eq {q : Nat} (s : σ) (item : β) (hpos : 0 < q) :
    takeOnNext next (q, s) item =
      outcome next (q - 1) q (if q = 1 then none else some (q - 1))
        (next.onNext s item) := by
  rcases hnext : next.onNext s item with ⟨t, _ | _⟩
  · simp only [takeOnNext, hpos, if_true, hnext]
    split <;> rfl
  · simp only [takeOnNext, hpos, if_true, hnext]
    by_cases hone : q = 1
    · rw [if_pos (by omega), if_pos hone]
      rfl
    · rw [if_neg (by omega), if_neg hone]
      rfl

theorem follows_take : (passing takeReact).Follows next
    (forwarding next (takeOnNext next)) := by
  refine follows_forwarding fun q s item => ?_
  by_cases hzero : q = 0
  · exact ⟨q, q, by simp [hzero, takeReact, takeOnNext, outcome]⟩
  · refine ⟨q - 1, q, (takeOnNext_eq s item (by omega)).trans ?_⟩
    rw [takeReact, if_neg hzero]
    split <;> simp

theorem follows_skip : (passing skipReact).Follows next
    (forwarding next fun (s : Nat × σ) item =>
      if s.1 = 0 then passOn next s.1 s.2 item
      else ((s.1 - 1, s.2), true)) := by
  refine follows_forwarding fun q s item => ⟨q, q, ?_⟩
  by_cases hzero : q = 0
  · simp [hzero, skipReact, passOn_eq]
  · simp [hzero, skipReact, outcome]

theorem follows_distinct [DecidableEq β] : (passing distinctReact).Follows next
    (forwarding next fun (s : List β × σ) item =>
      if item ∈ s.1 then (s, true)
      else passOn next (item :: s.1) s.2 item) := by
  refine follows_forwarding fun q s item => ⟨item :: q, item :: q, ?_⟩
  by_cases hprev : item ∈ q
  · simp [hprev, distinctReact, outcome]
  · simp [hprev, distinctReact, passOn_eq]

theorem follows_skipLast [Inhabited β] :
    (passing (@skipLastReact β _ num)).Follows next
      (forwarding next (skipLastOnNext next)) := by
  refine follows_forwarding fun q s item => ⟨q, q, ?_⟩
  cases hfull : q.full with
  | true =>
    simp only [skipLastOnNext, skipLastReact, hfull, if_true,
      feed_singleton]
    rcases next.onNext s q.front with ⟨t, _ | _⟩ <;> rfl
  | false => simp [skipLastOnNext, skipLastReact, hfull, outcome]

theorem follows_elementAt (index : Nat) :
    (passing (elementAtReact index)).Follows next
      (forwarding next (elementAtOnNext index next)) := by
  refine follows_forwarding fun q s item => ⟨q, q, ?_⟩
  by_cases hhere : index = q
  · simp only [elementAtOnNext, elementAtReact, if_pos hhere,
      feed_singleton]
    rcases next.onNext s item with ⟨t, _ | _⟩ <;> rfl
  · simp [elementAtOnNext, elementAtReact, hhere, outcome]

theorem follows (step : Step α β) (next : Next β σ) :
    step.stage.Follows next (step.handler next) := by
  cases step with
  | map fn =>
    exact follows_forwarding fun q s item => ⟨q, q, by simp [passOn_eq]⟩
  | filter pred | takeWhile pred =>
    refine follows_forwarding fun q s item => ⟨q, q, ?_⟩
    cases hpred : pred item with
    | true => simp [passOn_eq]
    | false => rfl
  | take num => exact follows_take
  | skip num => exact follows_skip
  | reduce init fn =>
    refine follows_of (fun q _ _ => ⟨q, q, rfl⟩) fun (q : β) s e => ⟨q, ?_⟩
    have hfeed := next.feed_singleton s q
    rcases hnext : next.onNext s q with ⟨t, _ | _⟩ <;> rw [hnext] at hfeed <;>
      cases e <;> simp only [close, handler, stage, hfeed, hnext]
  | scan init fn =>
    refine follows_forwarding fun (q : β) s item => ⟨fn q item, fn q item, ?_⟩
    exact (passOn_eq _ s _).trans (by rw [feed_singleton])
  | distinct => exact follows_distinct
  | takeLast num =>
    refine follows_of (fun q _ _ => ⟨q, q, rfl⟩) fun q s e => ?_
    cases e with
    | complete => exact takeLastOnComplete_eq next q s
    | error what => exact ⟨q, rfl⟩
  | skipLast num => exact follows_skipLast
  | elementAt index => exact follows_elementAt index

end Follows

section Run

variable {e : Ending (Option Nat)}

theorem run_passing_cons {ρ : Type} {react : ρ → α → List β × Option ρ}
    {q r : ρ} {item : α} {out : List β}
    (hreact : react q item = (out, some r)) (items : List α) :
    (passing react).run q (item :: items) e =
      (out ++ ((passing react).run r items e).1,
        ((passing react).run r items e).2) := by
  simp [run, passing, hreact]

theorem run_take (items : List α) (remaining : Nat) :
    (passing takeReact).run remaining items e =
      (items.take remaining,
        if !items.isEmpty && remaining ≤ items.length then .complete
        else e) := by
  induction items generalizing remaining with
  | nil => simp [run, passing]
  | cons item items ih =>
    rcases remaining with _ | _ | remaining
    · simp [run, passing, takeReact]
    · simp [run, passing, takeReact]
    · have hreact : takeReact (remaining + 2) item =
          ([item], some (remaining + 1)) := rfl
      rw [run_passing_cons hreact, ih]
      cases items <;> simp

theorem run_skip (items : List α) (remaining : Nat) :
    (passing skipReact).run remaining items e = (items.drop remaining, e) := by
  induction items generalizing remaining with
  | nil => simp [run, passing]
  | cons item items ih =>
    cases remaining with
    | zero =>
      have hreact : skipReact 0 item = ([item], some 0) := rfl
      rw [run_passing_cons hreact, ih]
      rfl
    | succ remaining =>
      have hreact : skipReact (remaining + 1) item = ([], some remaining) := rfl
      rw [run_passing_cons hreact, ih]
      rfl

theorem run_map (fn : α → β) (items : List α) :
    (map fn).stage.run () items e = (items.map fn, e) := by
  induction items with
  | nil => rfl
  | cons item items ih =>
    have hrun : (map fn).stage.run () (item :: items) e =
        (fn item :: ((map fn).stage.run () items e).1,
          ((map fn).stage.run () items e).2) := rfl
    rw [hrun, ih]
    rfl

theorem run_filter (pred : α → Bool) (items : List α) :
    (filter pred).stage.run () items e = (items.filter pred, e) := by
  induction items with
  | nil => rfl
  | cons item items ih =>
    have hrun : (filter pred).stage.run () (item :: items) e =
        ((if pred item then [item] else []) ++
          ((filter pred).stage.run () items e).1,
          ((filter pred).stage.run () items e).2) := rfl
    rw [hrun, ih, filter_cons]
    split <;> rfl

theorem run_takeWhile (pred : α → Bool) (items : List α) :
    (takeWhile pred).stage.run () items e =
      (items.takeWhile pred, if !items.all pred then .complete else e) := by
  induction items with
  | nil => rfl
  | cons item items ih =>
    cases hpred : pred item with
    | true =>
      have hreact : (takeWhile pred).stage.react () item =
          ([item], some ()) := by
        simp only [stage, passing, hpred, if_true]
        rfl
      simp only [run, hreact, ih]
      simp [hpred]
    | false =>
      have hreact : (takeWhile pred).stage.react () item = ([], none) := by
        simp [stage, passing, hpred]
      simp only [run, hreact]
      simp [hpred]

theorem run_reduce (init : β) (fn : β → α → β) (items : List α) (val : β) :
    (reduce init fn).stage.run val items e = ([items.foldl fn val], e) := by
  induction items generalizing val with
  | nil => rfl
  | cons item items ih => exact ih (fn val item)

theorem run_scan (init : β) (fn : β → α → β) (items : List α) (val : β) :
    (scan init fn).stage.run val items e = ((items.scanl fn val).tail, e) := by
  induction items generalizing val with
  | nil => rfl
  | cons item items ih =>
    have hrun : (scan init fn).stage.run val (item :: items) e =
        (fn val item :: ((scan init fn).stage.run (fn val item) items e).1,
          ((scan init fn).stage.run (fn val item) items e).2) := rfl
    rw [hrun, ih, scanl_cons]
    cases items <;> simp

theorem run_distinct [DecidableEq α] (items prev : List α) :
    (passing distinctReact).run prev items e =
      ((items.filter (· ∉ prev)).eraseDups, e) := by
  induction items generalizing prev with
  | nil => simp [run, passing]
  | cons item items ih =>
    by_cases hprev : item ∈ prev
    · have hreact : distinctReact prev item = ([], some prev) :=
        if_pos hprev
      rw [run_passing_cons hreact, ih]
      simp [hprev]
    · have hreact : distinctReact prev item =
          ([item], some (item :: prev)) := if_neg hprev
      rw [run_passing_cons hreact, ih]
      have hpred : ∀ x, (!x == item && decide (x ∉ prev)) =
          decide (x ∉ item :: prev) := by
        intro x
        by_cases hx : x = item <;> simp [hx]
      simp only [filter_cons, hprev, not_false_iff, decide_true,
        if_true, eraseDups_cons, filter_filter, hpred]
      rfl

theorem run_elementAt (index : Nat) (items : List α) (current : Nat)
    (hle : current ≤ index) :
    (passing (elementAtReact index)).run current items e =
      (items[index - current]?.toList,
        if index - current < items.length then .complete else e) := by
  induction items generalizing current with
  | nil => simp [run, passing]
  | cons item items ih =>
    by_cases hhere : index = current
    · simp [run, passing, elementAtReact, hhere]
    · have hreact : elementAtReact index current item =
          ([], some (current + 1)) := if_neg hhere
      have hsucc : index - current = index - (current + 1) + 1 := by omega
      rw [run_passing_cons hreact, ih _ (by omega), hsucc]
      simp

theorem run_takeLast [Inhabited α] (hnum : 0 < num) (items : List α)
    (elements : RingBuffer α num) :
    (takeLast (α := α) num).stage.run elements items e =
      (if (takeLast (α := α) num).discards e then []
        else (elements.contents ++ items).drop
          ((elements.contents ++ items).length - num), e) := by
  induction items generalizing elements with
  | nil =>
    have hle := elements.size_le
    have hzero : elements.contents.length - num = 0 := by
      rw [length_contents]
      omega
    cases e with
    | complete =>
      rw [append_nil, hzero, drop_zero]
      rfl
    | error what => rfl
  | cons item items ih =>
    have hrun : (takeLast (α := α) num).stage.run elements (item :: items)
        e = (takeLast (α := α) num).stage.run (elements.pushBack item)
          items e := rfl
    rw [hrun, ih, contents_pushBack _ _ hnum]
    congr 2
    cases hfull : elements.full with
    | false => simp
    | true =>
      have hlen := elements.full_iff.mp hfull
      cases hcontents : elements.contents with
      | nil => simp [hcontents] at hlen; omega
      | cons first rest =>
        rw [hcontents, length_cons] at hlen
        have hmore : (first :: rest ++ item :: items).length - num =
            (rest ++ item :: items).length - num + 1 := by
          simp only [length_append, length_cons, cons_append]
          omega
        rw [hmore, cons_append, drop_succ_cons]
        simp

theorem run_skipLast [Inhabited α] (hnum : 0 < num) (items : List α)
    (elements : RingBuffer α num) :
    (passing (@skipLastReact α _ num)).run elements items e =
      ((elements.contents ++ items).take
        ((elements.contents ++ items).length - num), e) := by
  induction items generalizing elements with
  | nil =>
    have hle := elements.size_le
    have hzero : elements.contents.length - num = 0 := by
      rw [length_contents]
      omega
    rw [append_nil, hzero, take_zero]
    rfl
  | cons item items ih =>
    cases hfull : elements.full with
    | false =>
      have hreact : skipLastReact elements item =
          ([], some (elements.pushBack item)) := by
        simp [skipLastReact, hfull]
      rw [run_passing_cons hreact, ih,
        contents_pushBack _ _ hnum, hfull]
      simp
    | true =>
      have hsize : elements.size = num := by
        simpa [full] using hfull
      have hreact : skipLastReact elements item = ([elements.front],
          some (elements.popFront.pushBack item)) := if_pos hfull
      have hcons := elements.contents_eq_cons
        (by simp only [RingBuffer.isEmpty, beq_eq_false_iff_ne]; omega)
      have hpop : elements.popFront.full = false := by
        simp only [full, popFront, beq_eq_false_iff_ne]
        omega
      have hlen : elements.popFront.contents.length = num - 1 := by
        rw [length_contents]
        exact congrArg (· - 1) hsize
      have hmore : (elements.front :: elements.popFront.contents ++
          item :: items).length - num =
          (elements.popFront.contents ++ item :: items).length - num +
            1 := by
        simp only [length_append, length_cons, cons_append]
        omega
      have hout : (elements.contents ++ item :: items).take
          ((elements.contents ++ item :: items).length - num) =
          elements.front :: (elements.popFront.contents ++ item ::
            items).take ((elements.popFront.contents ++ item ::
              items).length - num) := by
        rw [hcons, hmore, cons_append, take_succ_cons]
      rw [run_passing_cons hreact, ih,
        contents_pushBack _ _ hnum, hpop, hout]
      simp

theorem run_init (step : Step α β) (hvalid : step.Valid) (items : List α) :
    step.stage.run step.init items e = step.apply items e := by
  cases step with
  | map fn => exact run_map fn items
  | filter pred => exact run_filter pred items
  | take num => exact run_take items num
  | skip num => exact run_skip items num
  | takeWhile pred => exact run_takeWhile pred items
  | reduce init fn => exact run_reduce init fn items init
  | scan init fn => exact run_scan init fn items init
  | distinct =>
    refine (run_distinct items []).trans ?_
    simp [apply, stops, discards, onList]
  | takeLast num =>
    refine (run_takeLast hvalid items _).trans ?_
    rfl
  | skipLast num =>
    refine (run_skipLast hvalid items _).trans ?_
    rfl
  | elementAt index =>
    refine (run_elementAt index items 0 (Nat.zero_le index)).trans ?_
    simp [apply, stops, discards, onList]

end Run

end Step

def reason : Ending (Option Nat) → Option Nat
  | .complete => none
  | .error what => what

theorem Realizes.assoc {ρ δ ε : Type} {h : Step.Next α (ρ × γ × σ)}
    {live : ρ × γ × σ → Prop} {final : ρ × γ × σ → List δ × ε}
    {meaning : ρ × γ × σ → List α → Ending (Option Nat) → List δ × ε}
    (hr : h.Realizes live final meaning) :
    (assoc h).Realizes (fun s => live (s.1.1, s.1.2, s.2))
      (fun s => final (s.1.1, s.1.2, s.2))
      (fun s => meaning (s.1.1, s.1.2, s.2)) where
  accept := by
    intro s t item hlive hnext
    rcases hcode : h.onNext (s.1.1, s.1.2, s.2) item with ⟨t', res⟩
    simp only [Flow.assoc, hcode, Prod.mk.injEq] at hnext
    obtain ⟨rfl, rfl⟩ := hnext
    exact hr.accept hlive hcode
  refuse := by
    intro s t item hlive hnext
    rcases hcode : h.onNext (s.1.1, s.1.2, s.2) item with ⟨t', res⟩
    simp only [Flow.assoc, hcode, Prod.mk.injEq] at hnext
    obtain ⟨rfl, rfl⟩ := hnext
    exact hr.refuse hlive hcode
  close := by
    intro s hlive e
    refine (hr.close hlive e).trans ?_
    cases e <;> rfl
  grows := fun hlive items e => hr.grows hlive items e

theorem Sink.realizes : (Sink.handler (γ := γ)).Realizes
    (fun s => s.err = none) (fun s => (s.buf, s.err))
    (fun s items e => (s.buf ++ items, reason e)) where
  accept := by
    intro s t item hlive hnext
    cases hnext
    refine ⟨hlive, fun items e => ?_⟩
    simp
  refuse := by
    intro s t item hlive hnext
    cases hnext
  close := by
    intro s hlive e
    cases e with
    | complete => simp [close, Sink.handler, reason, hlive]
    | error what => simp [close, Sink.handler, reason]
  grows := fun _ items _ => prefix_append _ items

namespace Steps

def run : {α γ : Type} → (steps : Steps α γ) → steps.State → List α →
    Ending (Option Nat) → List γ × Ending (Option Nat)
  | _, _, .nil, _, items, e => (items, e)
  | _, _, .cons step rest, q, items, e =>
    rest.run q.2 (step.stage.run q.1 items e).1 (step.stage.run q.1 items e).2

def output (steps : Steps α γ) (s : steps.State × Sink γ) (items : List α)
    (e : Ending (Option Nat)) : List γ × Option Nat :=
  (s.2.buf ++ (steps.run s.1 items e).1, reason (steps.run s.1 items e).2)

theorem realizes : {α γ : Type} → (steps : Steps α γ) →
    steps.handler.Realizes (fun s => s.2.err = none)
      (fun s => (s.2.buf, s.2.err)) steps.output
  | _, _, .nil =>
    { accept := by
        intro s t item hlive hnext
        cases hnext
        exact Sink.realizes.accept hlive rfl
      refuse := by
        intro s t item hlive hnext
        cases hnext
      close := by
        intro s hlive e
        refine (Sink.realizes.close hlive e).trans ?_
        cases e <;> rfl
      grows := fun hlive items e => Sink.realizes.grows hlive items e }
  | _, _, .cons step rest =>
    Realizes.assoc ((step.follows rest.handler).realizes rest.realizes)

theorem run_init (steps : Steps α γ) (hvalid : steps.Valid) (items : List α)
    (e : Ending (Option Nat)) :
    steps.run steps.init items e = steps.apply items e := by
  induction steps generalizing e with
  | nil => rfl
  | cons step rest ih =>
    have hstep := step.run_init (e := e) hvalid.1 items
    exact (ih hvalid.2 _ _).trans
      (congrArg (fun out => rest.apply out.1 out.2) hstep)

theorem apply_complete (steps : Steps α γ) (items : List α) :
    steps.apply items .complete = (steps.onList items, .complete) := by
  induction steps with
  | nil => rfl
  | cons step rest ih =>
    have hstep : step.apply items .complete =
        (step.onList items, .complete) := by
      have hkeep : step.discards .complete = false := by
        cases step <;> rfl
      simp [Step.apply, hkeep]
    rw [apply, hstep]
    exact ih _

end Steps

end ActorFramework.Flow
