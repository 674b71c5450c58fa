import ActorFramework.Flow.RingBuffer
import ActorFramework.Foundation.Pipeline

/-!
# Flow steps

A step processes the items of a flow and passes items on to the next step.
The parameters `Next& next, Steps&... steps` of its member functions are a
handler here: calling `next` changes the state of the steps that follow.  A step
returns `false` from `on_next` when it needs no more items, and it has called
`on_complete` of the next step then, unless that one has returned `false`.
-/

namespace ActorFramework.Flow

open Foundation

variable {α β γ σ : Type}

inductive Step : Type → Type → Type 1 where
  | map {α β : Type} (fn : α → β) : Step α β
  | filter {α : Type} (pred : α → Bool) : Step α α
  | take {α : Type} (num : Nat) : Step α α
  | skip {α : Type} (num : Nat) : Step α α
  | takeWhile {α : Type} (pred : α → Bool) : Step α α
  | reduce {α β : Type} (init : β) (fn : β → α → β) : Step α β
  | scan {α β : Type} (init : β) (fn : β → α → β) : Step α β
  | distinct {α : Type} [DecidableEq α] : Step α α
  | takeLast {α : Type} [Inhabited α] (num : Nat) : Step α α
  | skipLast {α : Type} [Inhabited α] (num : Nat) : Step α α
  | elementAt {α : Type} (index : Nat) : Step α α

namespace Step

/-- The data members that change: `remaining_`, `val_`, `prev_`, `elements_`
or `current_index_`. -/
def State : {α β : Type} → Step α β → Type
  | _, _, .map _ => Unit
  | _, _, .filter _ => Unit
  | _, _, .take _ => Nat
  | _, _, .skip _ => Nat
  | _, _, .takeWhile _ => Unit
  | _, β, .reduce _ _ => β
  | _, β, .scan _ _ => β
  | α, _, @distinct _ _ => List α
  | α, _, @takeLast _ _ num => RingBuffer α num
  | α, _, @skipLast _ _ num => RingBuffer α num
  | _, _, .elementAt _ => Nat

def init : {α β : Type} → (step : Step α β) → step.State
  | _, _, .map _ => ()
  | _, _, .filter _ => ()
  | _, _, .take num => num
  | _, _, .skip num => num
  | _, _, .takeWhile _ => ()
  | _, _, .reduce init _ => init
  | _, _, .scan init _ => init
  | _, _, @distinct _ _ => []
  | α, _, @takeLast _ _ num => RingBuffer.empty α num
  | α, _, @skipLast _ _ num => RingBuffer.empty α num
  | _, _, .elementAt _ => (0 : Nat)

abbrev Next (α σ : Type) := Handler α (Option Nat) σ

def forwarding {ρ : Type} (next : Next β σ)
    (onNext : ρ × σ → α → (ρ × σ) × Bool) : Next α (ρ × σ) where
  onNext := onNext
  onComplete s := (s.1, next.onComplete s.2)
  onError s what := (s.1, next.onError s.2 what)

def passOn {ρ : Type} (next : Next β σ) (q : ρ) (s : σ) (item : β) :
    (ρ × σ) × Bool :=
  match next.onNext s item with
  | (t, res) => ((q, t), res)

def takeOnNext (next : Next α σ) (s : Nat × σ) (item : α) : (Nat × σ) × Bool :=
  if 0 < s.1 then
    match next.onNext s.2 item with
    | (t, true) =>
      if s.1 - 1 = 0 then ((s.1 - 1, next.onComplete t), false)
      else ((s.1 - 1, t), true)
    | (t, false) => ((s.1, t), false)
  else ((s.1, next.onComplete s.2), false)

/-- The loop of `take_last::on_complete`, which has one iteration for each
element that is left. -/
def takeLastOnComplete [Inhabited α] {num : Nat} (next : Next α σ) :
    Nat → RingBuffer α num → σ → RingBuffer α num × σ
  | 0, elements, s => (elements, next.onComplete s)
  | left + 1, elements, s =>
    match next.onNext s elements.front with
    | (t, true) => takeLastOnComplete next left elements.popFront t
    | (t, false) => (elements, t)

def skipLastOnNext [Inhabited α] {num : Nat} (next : Next α σ)
    (s : RingBuffer α num × σ) (item : α) : (RingBuffer α num × σ) × Bool :=
  if s.1.full then
    match next.onNext s.2 s.1.front with
    | (t, true) => ((s.1.popFront.pushBack item, t), true)
    | (t, false) => ((s.1, t), false)
  else ((s.1.pushBack item, s.2), true)

def elementAtOnNext (index : Nat) (next : Next α σ) (s : Nat × σ) (item : α) :
    (Nat × σ) × Bool :=
  if index = s.1 then
    match next.onNext s.2 item with
    | (t, true) => ((s.1, next.onComplete t), false)
    | (t, false) => ((s.1, t), false)
  else ((s.1 + 1, s.2), true)

def handler : {α β : Type} → (step : Step α β) → Next β σ →
    Next α (step.State × σ)
  | _, _, .map fn, next =>
    forwarding next fun s item => passOn next s.1 s.2 (fn item)
  | _, _, .filter pred, next =>
    forwarding next fun s item =>
      if pred item then passOn next s.1 s.2 item else (s, true)
  | _, _, .take _, next => forwarding next (takeOnNext next)
  | _, _, .skip _, next =>
    forwarding next fun (s : Nat × _) item =>
      if s.1 = 0 then passOn next s.1 s.2 item else ((s.1 - 1, s.2), true)
  | _, _, .takeWhile pred, next =>
    forwarding next fun s item =>
      if pred item then passOn next s.1 s.2 item
      else ((s.1, next.onComplete s.2), false)
  | _, _, .reduce _ fn, next =>
    { onNext := fun s item => ((fn s.1 item, s.2), true)
      onComplete := fun s =>
        match next.onNext s.2 s.1 with
        | (t, true) => (s.1, next.onComplete t)
        | (t, false) => (s.1, t)
      onError := fun s what =>
        match next.onNext s.2 s.1 with
        | (t, true) => (s.1, next.onError t what)
        | (t, false) => (s.1, t) }
  | _, _, .scan _ fn, next =>
    forwarding next fun s item =>
      passOn next (fn s.1 item) s.2 (fn s.1 item)
  | α, _, @distinct _ _, next =>
    forwarding next fun (s : List α × _) item =>
      if item ∈ s.1 then (s, true)
      else passOn next (item :: s.1) s.2 item
  | α, _, @takeLast _ _ num, next =>
    { onNext := fun (s : RingBuffer α num × _) item =>
        ((s.1.pushBack item, s.2), true)
      onComplete := fun s => takeLastOnComplete next s.1.size s.1 s.2
      onError := fun s what => (s.1, next.onError s.2 what) }
  | _, _, @skipLast _ _ _, next => forwarding next (skipLastOnNext next)
  | _, _, .elementAt index, next =>
    forwarding next (elementAtOnNext index next)

def onList : {α β : Type} → Step α β → List α → List β
  | _, _, .map fn, items => items.map fn
  | _, _, .filter pred, items => items.filter pred
  | _, _, .take num, items => items.take num
  | _, _, .skip num, items => items.drop num
  | _, _, .takeWhile pred, items => items.takeWhile pred
  | _, _, .reduce init fn, items => [items.foldl fn init]
  | _, _, .scan init fn, items => (items.scanl fn init).tail
  | _, _, @distinct _ _, items => items.eraseDups
  | _, _, @takeLast _ _ num, items => items.drop (items.length - num)
  | _, _, @skipLast _ _ num, items => items.take (items.length - num)
  | _, _, .elementAt index, items => items[index]?.toList

def stops : {α β : Type} → Step α β → List α → Bool
  | _, _, .take num, items => !items.isEmpty && num ≤ items.length
  | _, _, .takeWhile pred, items => !items.all pred
  | _, _, .elementAt index, items => index < items.length
  | _, _, _, _ => false

def discards : {α β : Type} → Step α β → Ending (Option Nat) → Bool
  | _, _, @takeLast _ _ _, .error _ => true
  | _, _, _, _ => false

def apply (step : Step α β) (items : List α) (e : Ending (Option Nat)) :
    List β × Ending (Option Nat) :=
  (if step.discards e then [] else step.onList items,
    if step.stops items then .complete else e)

def Valid : {α β : Type} → Step α β → Prop
  | _, _, @takeLast _ _ num => 0 < num
  | _, _, @skipLast _ _ num => 0 < num
  | _, _, _ => True

end Step

inductive Steps : Type → Type → Type 1 where
  | nil {α : Type} : Steps α α
  | cons {α β γ : Type} (step : Step α β) (rest : Steps β γ) : Steps α γ

namespace Steps

def State : {α γ : Type} → Steps α γ → Type
  | _, _, .nil => Unit
  | _, _, .cons step rest => step.State × rest.State

def init : {α γ : Type} → (steps : Steps α γ) → steps.State
  | _, _, .nil => ()
  | _, _, .cons step rest => (step.init, rest.init)

def onList : {α γ : Type} → Steps α γ → List α → List γ
  | _, _, .nil, items => items
  | _, _, .cons step rest, items => rest.onList (step.onList items)

def apply : {α γ : Type} → Steps α γ → List α → Ending (Option Nat) →
    List γ × Ending (Option Nat)
  | _, _, .nil, items, e => (items, e)
  | _, _, .cons step rest, items, e =>
    rest.apply (step.apply items e).1 (step.apply items e).2

def Valid : {α γ : Type} → Steps α γ → Prop
  | _, _, .nil => True
  | _, _, .cons step rest => step.Valid ∧ rest.Valid

end Steps

structure Sink (γ : Type) where
  buf : List γ := []
  err : Option Nat := none

def Sink.handler : Step.Next γ (Sink γ) where
  onNext s item := ({ s with buf := s.buf ++ [item] }, true)
  onComplete s := s
  onError s what := { s with err := what }

def assoc {ρ : Type} (h : Step.Next α (ρ × γ × σ)) :
    Step.Next α ((ρ × γ) × σ) where
  onNext s item :=
    match h.onNext (s.1.1, s.1.2, s.2) item with
    | ((q, r, t), res) => (((q, r), t), res)
  onComplete s :=
    match h.onComplete (s.1.1, s.1.2, s.2) with
    | (q, r, t) => ((q, r), t)
  onError s what :=
    match h.onError (s.1.1, s.1.2, s.2) what with
    | (q, r, t) => ((q, r), t)

def Steps.handler : {α γ : Type} → (steps : Steps α γ) →
    Step.Next α (steps.State × Sink γ)
  | _, _, .nil =>
    { onNext := fun s item =>
        match Sink.handler.onNext s.2 item with
        | (t, res) => ((s.1, t), res)
      onComplete := fun s => (s.1, Sink.handler.onComplete s.2)
      onError := fun s what => (s.1, Sink.handler.onError s.2 what) }
  | _, _, .cons step rest => assoc (step.handler rest.handler)

end ActorFramework.Flow
