import Mathlib.Algebra.Ring.Int.Units

/-!
# Ranges of numbers

`generate_range` calls its consumer for each number of a range until there is
an error.  The numbers have 64 bits.  Unsigned arithmetic wraps around, signed
arithmetic is undefined if a result does not fit.
-/

namespace ActorFramework.Core.NumberRange

open List

variable {ε : Type}

inductive Code (ε : Type) where
  | success
  | invalidRangeExpression
  | integerOverflow
  | rejected (code : ε)

/-- The numbers that the consumer gets, unless the behavior is undefined. -/
abbrev Outcome (ε : Type) := Option (List Int × Code ε)

abbrev Fits (signed : Bool) (x : Int) : Prop :=
  if signed then -2 ^ 63 ≤ x ∧ x < 2 ^ 63 else 0 ≤ x ∧ x < 2 ^ 64

def compute (signed : Bool) (x : Int) : Option Int :=
  if Fits signed x then some x
  else if signed then none
  else some (x % 2 ^ 64)

/-- Calls `consumer`, which has no error for the numbers it takes. -/
def doApply (consumer : Int → Option ε) (x : Int) (more : Outcome ε) :
    Outcome ε :=
  match consumer x with
  | none => more.map fun res => (x :: res.1, res.2)
  | some code => some ([x], .rejected code)

def done : Outcome ε := some ([], .success)

/-- The loops of `generate_range_impl`, one for each direction. -/
def loop (consumer : Int → Option ε) (signed up : Bool) (last s : Int) :
    Nat → Int → Outcome ε
  | 0, _ => done
  | fuel + 1, i =>
    if if up then i < last else last < i then
      let distance := compute signed (if up then last - i else i - last)
      let next := compute signed (if up then i + s else i - s)
      doApply consumer i (distance.bind fun distance =>
        if distance < s then done
        else next.bind (loop consumer signed up last s fuel))
    else if i = last then doApply consumer i done
    else done

def stepVal (first last : Int) (step : Option Int) : Int :=
  step.getD (if first < last then 1 else -1)

abbrev WrongSign (first last s : Int) : Prop :=
  if first < last then s ≤ 0 else 0 ≤ s

def generateRangeImpl (consumer : Int → Option ε) (signed : Bool)
    (first last : Int) (step : Option Int) : Outcome ε :=
  let up := decide (first < last)
  let s := stepVal first last step
  if first = last then doApply consumer first done
  else if WrongSign first last s then some ([], .invalidRangeExpression)
  else (if up then some s else compute true (-s)).bind fun s =>
    loop consumer signed up last s ((last - first).natAbs + 1) first

def generateRange (consumer : Int → Option ε) (firstSigned lastSigned : Bool)
    (first last : Int) (step : Option Int) : Outcome ε :=
  if firstSigned = lastSigned then
    generateRangeImpl consumer firstSigned first last step
  else if 2 ^ 63 - 1 < if firstSigned then last else first then
    some ([], .integerOverflow)
  else generateRangeImpl consumer true first last step

def progression (first last step : Int) : List Int :=
  (range ((last - first).natAbs / step.natAbs + 1)).map fun k : Nat =>
    first + step * k

def applyAll (consumer : Int → Option ε) : List Int → Outcome ε
  | [] => done
  | x :: xs => doApply consumer x (applyAll consumer xs)

def denoted (consumer : Int → Option ε) (first last : Int)
    (step : Option Int) : Outcome ε :=
  let s := stepVal first last step
  if first = last then applyAll consumer [first]
  else if WrongSign first last s then some ([], .invalidRangeExpression)
  else applyAll consumer (progression first last s)

/-- The negation of the step and the distance of signed numbers fit. -/
abbrev NoOverflow (consumer : Int → Option ε) (signed : Bool)
    (first last : Int) (step : Option Int) : Prop :=
  let s := stepVal first last step
  WrongSign first last s ∨ (last < first → Fits true (-s)) ∧
    (signed = true → consumer first = none → (last - first).natAbs < 2 ^ 63)

abbrev TooLarge (firstSigned lastSigned : Bool) (first last : Int) : Prop :=
  firstSigned ≠ lastSigned ∧ (2 ^ 63 ≤ first ∨ 2 ^ 63 ≤ last)

theorem compute_eq {signed : Bool} {x : Int} (h : Fits signed x) :
    compute signed x = some x :=
  if_pos h

variable {consumer : Int → Option ε} {signed up : Bool}
  {first last i step : Int} {s d fuel : Nat}

theorem progression_short (h : (last - first).natAbs < step.natAbs) :
    progression first last step = [first] := by
  simp [progression, Nat.div_eq_of_lt h]

theorem progression_cons (hs : step ≠ 0)
    (h : (last - first).natAbs = (last - (first + step)).natAbs + step.natAbs) :
    progression first last step =
      first :: progression (first + step) last step := by
  rw [progression, h, Nat.add_div_right _ (Int.natAbs_pos.mpr hs),
    range_succ_eq_map]
  simp only [progression, map_cons, map_map, Function.comp_def]
  simp [Int.mul_add, Int.add_assoc, Int.add_comm step]

theorem doApply_congr {more more' : Outcome ε}
    (h : consumer i = none → more = more') :
    doApply consumer i more = doApply consumer i more' := by
  unfold doApply
  split
  · rw [h ‹_›]
  · rfl

theorem loop_eq (hs : 0 < s) (hfuel : d < fuel) (hlast : Fits signed last)
    (hroom : signed = true → consumer i = none → d < 2 ^ 63)
    (hi : i = if up then last - d else last + d) (hfits : Fits signed i) :
    loop consumer signed up last s fuel i =
      applyAll consumer (progression i last (if up then s else -s)) := by
  induction fuel generalizing i d with
  | zero => omega
  | succ fuel ih =>
    have hnext : (if up then i + s else i - s) =
        i + if up then (s : Int) else -s := by
      split <;> rfl
    have hdist : (if up then last - i else i - last) = (d : Int) := by grind
    rw [loop, hdist, hnext]
    by_cases hzero : d = 0
    · rw [progression_short (by grind), if_neg (by grind), if_pos (by grind)]
      rfl
    · rw [if_pos (by grind)]
      by_cases hshort : d < s
      · rw [progression_short (by grind)]
        refine doApply_congr fun hnone => ?_
        have hd : Fits signed d := by grind
        simp [hshort, compute_eq hd, applyAll]
      · rw [progression_cons (by grind) (by grind)]
        refine doApply_congr fun hnone => ?_
        have hd : Fits signed d ∧
            Fits signed (i + if up then (s : Int) else -s) := by
          grind
        have hrest := @ih (i + if up then (s : Int) else -s) (d - s) (by omega)
          (by grind) (by grind) hd.2
        simp [hshort, compute_eq hd.1, compute_eq hd.2, hrest]

theorem generateRangeImpl_eq {step : Option Int} (hfirst : Fits signed first)
    (hlast : Fits signed last)
    (h : NoOverflow consumer signed first last step) :
    generateRangeImpl consumer signed first last step =
      denoted consumer first last step := by
  unfold generateRangeImpl denoted
  by_cases hsame : first = last
  · simp [hsame, applyAll]
  · by_cases hsign : WrongSign first last (stepVal first last step)
    · simp only [hsame, hsign, if_true, if_false]
    · obtain ⟨hneg, hroom⟩ := h.resolve_left hsign
      generalize stepVal first last step = x at *
      have hloop :=
        @loop_eq ε consumer signed (first < last) last first x.natAbs
        (last - first).natAbs _ (by grind) (Nat.lt_succ_self _) hlast hroom
        (by grind) hfirst
      have hs : (if decide (first < last) = true then some x
          else compute true (-x)) = some (x.natAbs : Int) := by
        split
        · grind
        · rw [compute_eq (hneg (by grind))]
          grind
      have hx : (if decide (first < last) = true then (x.natAbs : Int)
          else -x.natAbs) = x := by
        grind
      simp only [hsame, hsign, if_false, hs, Option.bind_some, hloop, hx]

theorem generateRange_denoted {firstSigned lastSigned : Bool}
    {step : Option Int} (hfirst : Fits firstSigned first)
    (hlast : Fits lastSigned last)
    (h : TooLarge firstSigned lastSigned first last ∨
      NoOverflow consumer (firstSigned || lastSigned) first last step) :
    generateRange consumer firstSigned lastSigned first last step =
      if TooLarge firstSigned lastSigned first last then
        some ([], .integerOverflow)
      else denoted consumer first last step := by
  unfold generateRange
  by_cases hlarge : TooLarge firstSigned lastSigned first last
  · rw [if_pos hlarge, if_neg hlarge.1, if_pos (by grind)]
  · have hno := h.resolve_left hlarge
    rw [if_neg hlarge]
    by_cases hsame : firstSigned = lastSigned
    · subst hsame
      rw [Bool.or_self] at hno
      rw [if_pos rfl, generateRangeImpl_eq hfirst hlast hno]
    · have hfits : Fits true first ∧ Fits true last := by grind
      have hany : (firstSigned || lastSigned) = true := by grind
      rw [hany] at hno
      rw [if_neg hsame, if_neg (by grind),
        generateRangeImpl_eq hfits.1 hfits.2 hno]

theorem generateRange_one_to_ten :
    @generateRange Unit (fun _ => none) true false 1 10 (some 4) =
      some ([1, 5, 9], .success) := by
  rw [generateRange_denoted (by decide) (by decide) (by decide)]
  rfl

/-- The distance of the bounds, the sign of the step and a bound that is not
signed need not fit, and one number is a range with any step. -/
theorem generateRange_limits :
    let range := @generateRange Unit fun _ => none
    range true true (-2 ^ 63) (2 ^ 63 - 1) (some (2 ^ 62)) = none ∧
      range true true 1 0 (some (-2 ^ 63)) = none ∧
      range true false 0 (2 ^ 63) none = some ([], .integerOverflow) ∧
      range true true 1 1 (some 0) = some ([1], .success) :=
  ⟨rfl, rfl, rfl, rfl⟩

end ActorFramework.Core.NumberRange
