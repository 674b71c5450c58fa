import ActorFramework.Flow.HotOperators

/-!
# Late observers of a unicast operator

Items that are pushed before an observer subscribes wait in the buffer.  Its
request schedules a pull that passes them on, unless the operator was closed
by then: `subscribe` turns the observer away.
-/

namespace ActorFramework.Flow.HotOperator

open Foundation List

variable {τ : Type*}

/-- Runs what is left to run, with an observer that makes no calls. -/
def settle : Nat → HotOperator τ → HotOperator τ
  | 0, s => s
  | fuel + 1, s =>
    match s.step .ret <|> s.step .iterate <|> s.step (.runPull 0) with
    | none => s
    | some t => settle fuel t

/-- Not at all, `close`, or `abort` with a reason. -/
def endCalls : Option (Option Nat) → List (HotAction τ)
  | none => []
  | some none => [.close]
  | some (some what) => [.abort (some what)]

/-- What an observer gets that comes after the items and requests `n`. -/
def replay (items : List τ) (ending : Option (Option Nat)) (n fuel : Nat) :
    Option (List (FlowEvent τ)) :=
  (exec step (initial .ucast {}) (items.map .push ++
      (endCalls ending ++ [.subscribe, .ret, .request 0 n]))).map fun s =>
    (s.settle fuel).events 0

def buffered (items : List τ) : HotOperator τ :=
  { kind := .ucast
    cells :=
      [⟨{ buf := items, out := { valid := false }
          pushed := items, accepted := items }, false⟩] }

theorem exec_pushes (items old : List τ) (actions : List (HotAction τ)) :
    exec step (buffered old) (items.map .push ++ actions) =
      exec step (buffered (old ++ items)) actions := by
  induction items generalizing old with
  | nil => simp
  | cons item items ih =>
    rw [append_cons]
    exact ih (old ++ [item])

def pulling (all buf : List τ) (out : Observer τ) (demand n : Nat) :
    HotOperator τ :=
  { kind := .ucast
    cells :=
      [⟨{ buf, out, demand, inFlightDemand := n, frames := [.pull n]
          pushed := all, accepted := all, requested := n }, false⟩]
    subs := [{ impl := .ucastSub, state := 0 }]
    stack := [.observer 0] }

theorem settle_pulling {all rest : List τ} {item : τ} {out : Observer τ}
    {demand n : Nat} (hdem : rest.length < demand) (k : Nat) :
    ((pulling all (item :: rest) out demand n).settle
        (k + rest.length + 1)).events 0 = out.events ++ rest.map .next := by
  induction rest generalizing item out demand with
  | nil =>
    have hret : (pulling all [item] out demand n).step .ret = some
        { kind := .ucast
          cells :=
            [⟨{ out, demand := demand - 1, pushed := all, accepted := all
                requested := n }, false⟩]
          subs := [{ impl := .ucastSub, state := 0 }] } := by
      simp [step, ret, pulling, UcastSubState.step, UcastSubState.resume,
        UcastSubState.pullLoop, UcastSubState.finishIteration, setState,
        callStack]
    rw [settle, hret]
    cases k <;> exact (append_nil _).symm
  | cons next rest ih =>
    obtain ⟨d, rfl⟩ : ∃ d, demand = d + 2 :=
      ⟨demand - 2, by simp at hdem; omega⟩
    have hrest := @ih next (out.onNext next) (d + 1) (by simpa using hdem)
    refine Eq.trans ?_ (hrest.trans ?_)
    · rfl
    · simp [Observer.onNext]

theorem ucast_replays_iff (items : List τ) (ending : Option (Option Nat))
    {n fuel : Nat} (hn : items.length ≤ n) (hfuel : items.length + 2 ≤ fuel) :
    replay items ending n fuel =
      some (items.map .next ++ ending.toList.map .ofError) ↔
      items = [] ∨ ending = none := by
  rw [replay, show initial .ucast {} = buffered [] from rfl, exec_pushes,
    nil_append]
  obtain ⟨k, rfl⟩ := Nat.exists_eq_add_of_le' hfuel
  rcases ending with _ | _ | what <;> rcases items with _ | ⟨item, items⟩
  · exact ⟨fun _ => .inl rfl, fun _ => rfl⟩
  · rcases n with _ | n
    · cases hn
    have hsettle := @settle_pulling τ (item :: items) items item
      (Observer.onNext {} item) (0 + (0 + (n + 1))) (0 + (n + 1))
      (by simp at hn; omega) k
    refine ⟨fun _ => .inr rfl, fun _ =>
      Eq.trans ?_ ((congrArg some hsettle).trans ?_)⟩
    · rfl
    · simp [Observer.onNext]
  · exact ⟨fun _ => .inl rfl, fun _ => rfl⟩
  · refine ⟨fun h => ?_, by simp⟩
    cases (show some [FlowEvent.complete] = some (.next item :: _) from h)
  · exact ⟨fun _ => .inl rfl, fun _ => rfl⟩
  · refine ⟨fun h => ?_, by simp⟩
    cases (show some [FlowEvent.error what] = some (.next item :: _) from h)

theorem ucast_replays_two :
    replay [1, 2] none 2 4 = some [.next 1, .next 2] :=
  (ucast_replays_iff [1, 2] none (by decide) (by decide)).mpr (.inr rfl)

theorem ucast_loses_buffered_item :
    replay [1] (some none) 1 3 = some [.complete] := rfl

end ActorFramework.Flow.HotOperator
