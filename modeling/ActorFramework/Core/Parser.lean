import ActorFramework.Core.StringAlgorithms
import ActorFramework.Foundation.Scanner

/-!
# Parsers

The parsers are state machines that look at one character at a time.  The null
character stands for the end of the input.  A parser that stops at a character
it does not know succeeds if its state is terminal.

A leading zero selects the base of an integer, so `010` is the number 8.  A
string that is no integer is read as a floating point number.  The result of
that attempt is a parameter.
-/

namespace ActorFramework.Core

open Foundation List Scanner

/-- The codes of a parser.  A parser that has stopped early has its result, so
only the caller turns this into an error. -/
inductive Pec where
  | trailingCharacter
  | unexpectedEof
  | unexpectedCharacter
  | unexpectedNewline
  | integerOverflow
  | integerUnderflow
  | exponentUnderflow
  | exponentOverflow
  | invalidArgument
  | nestedTooDeeply
  | invalidEscapeSequence
  deriving DecidableEq

abbrev Parser (τ : Type) := Scanner Byte Pec τ

def isDigit (base : Nat) (c : Byte) : Bool :=
  decide (48 ≤ c.toNat ∧ c.toNat < 48 + min base 10 ∨
    base = 16 ∧ (65 ≤ c.toNat ∧ c.toNat ≤ 70 ∨ 97 ≤ c.toNat ∧ c.toNat ≤ 102))

def asciiToInt (base : Nat) (c : Byte) : Nat :=
  if base = 16 then
    if c.toNat ≤ 57 then c.toNat - 48
    else if c.toNat ≤ 70 then 10 + (c.toNat - 65)
    else 10 + (c.toNat - 97)
  else c.toNat - 48

theorem isDigit_digitByte {base d : Nat} (hbase : base ≤ 10 ∨ base = 16)
    (h : d < base) : isDigit base (digitByte d) = true := by
  have hd : d < 16 := by omega
  have hnat := digitByte_toNat hd
  unfold isDigit
  rw [hnat]
  split <;> simp <;> omega

theorem asciiToInt_digitByte {base d : Nat} (hbase : base ≤ 10 ∨ base = 16)
    (h : d < base) : asciiToInt base (digitByte d) = d := by
  have hd : d < 16 := by omega
  have hnat := digitByte_toNat hd
  unfold asciiToInt
  rw [hnat]
  by_cases hten : d < 10
  · split
    · rw [if_pos (by omega)]
      omega
    · omega
  · simp only [hten, if_false]
    rw [if_pos (by omega), if_neg (by omega), if_pos (by omega)]
    omega

theorem le_foldl_digits (ds : List Nat) (x : Nat) :
    x ≤ ds.foldl (fun x d => x * 10 + d) x := by
  induction ds generalizing x with
  | nil => exact le_rfl
  | cons d ds ih =>
    have hle := ih (x * 10 + d)
    rw [foldl_cons]
    omega

namespace Parser

variable {τ : Type}

def unexpected (c : Byte) : Pec :=
  if c = 0#8 then .unexpectedEof
  else if c = 10#8 then .unexpectedNewline
  else .unexpectedCharacter

def current : Parser Byte := fun input => .ok (input.headD 0#8, input)

def next : Parser Unit := fun input => .ok ((), input.tail)

def transition (whitelist : Byte → Bool) : Parser Byte := do
  let c ← current
  if whitelist c then
    next
    return c
  else throw (unexpected c)

def fsmEpsilon (whitelist : Byte → Bool) (fsm : Parser τ) : Parser τ := do
  let c ← current
  if whitelist c then fsm else throw (unexpected c)

def char (c : Byte) : Byte → Bool := fun ch => ch == c

def complete (p : Parser τ) (input : List Byte) : Except Pec τ :=
  match p input with
  | .error code => .error code
  | .ok (x, rest) =>
    if rest.headD 0#8 = 0#8 then .ok x else .error .trailingCharacter

/-- How digits are added, and the code for a number that is out of range. -/
structure Sum where
  add : Nat → Int → Byte → Option Int
  code : Pec

def addAscii (max : Int) : Sum where
  add base x c :=
    if max / base < x then none
    else if max - asciiToInt base c < x * base then none
    else some (x * base + asciiToInt base c)
  code := .integerOverflow

def subAscii (min : Int) : Sum where
  add base x c :=
    if x < min.tdiv base then none
    else if x * base < min + asciiToInt base c then none
    else some (x * base - asciiToInt base c)
  code := .integerUnderflow

def digits (sum : Sum) (base : Nat) (x : Int) : Parser Int
  | [] => .ok (x, [])
  | c :: cs =>
    if isDigit base c then
      match sum.add base x c with
      | some x => digits sum base x cs
      | none => .error sum.code
    else .ok (x, c :: cs)

def startDigits (sum : Sum) (base : Nat) : Parser Int :=
  fsmEpsilon (isDigit base) (digits sum base 0)

def afterZero (sum : Sum) : Parser Int := do
  let c ← current
  if c ∈ ascii "bB" then
    next
    startDigits sum 2
  else if c ∈ ascii "xX" then
    next
    startDigits sum 16
  else digits sum 8 0

def afterSign (sum : Sum) : Parser Int := do
  let c ← current
  if c = 48#8 then
    next
    afterZero sum
  else startDigits sum 10

def readSignedInteger (bits : Nat) : Parser Int
  | [] => .error .unexpectedEof
  | c :: cs =>
    if c ∈ ascii " \t" then readSignedInteger bits cs
    else if c ∈ ascii "+" then afterSign (addAscii (2 ^ (bits - 1) - 1)) cs
    else if c ∈ ascii "-" then afterSign (subAscii (-2 ^ (bits - 1))) cs
    else afterSign (addAscii (2 ^ (bits - 1) - 1)) (c :: cs)

def readUnsignedInteger (bits : Nat) : Parser Int
  | [] => .error .unexpectedEof
  | c :: cs =>
    if c ∈ ascii " \t" then readUnsignedInteger bits cs
    else if c ∈ ascii "+" then afterSign (addAscii (2 ^ bits - 1)) cs
    else afterSign (addAscii (2 ^ bits - 1)) (c :: cs)

def NoDigit (rest : List Byte) : Prop :=
  isDigit 10 (rest.headD 0#8) = false ∧ rest.headD 0#8 ∉ ascii "bBxX"

variable {υ : Type}

theorem current_bind (f : Byte → Parser υ) (input : List Byte) :
    (current >>= f) input = f (input.headD 0#8) input := rfl

theorem next_bind (f : Unit → Parser υ) (c : Byte) (input : List Byte) :
    (next >>= f) (c :: input) = f () input := rfl

variable {whitelist : Byte → Bool} {c : Byte} {text rest : List Byte}
  {base x n : Nat} {max : Int}

theorem reads_transition (h : whitelist c = true) (after : List Byte → Prop) :
    Reads (transition whitelist) [c] c after := by
  intro rest _
  rw [transition, current_bind]
  rw [singleton_append, headD_cons, if_pos h]
  rfl

theorem reads_char (c : Byte) (after : List Byte → Prop) :
    Reads (transition (char c)) [c] c after :=
  reads_transition (beq_self_eq_true c) after

theorem char_bind (c : Byte) (f : Byte → Parser υ) (input : List Byte) :
    (transition (char c) >>= f) (c :: input) = f c input :=
  bind_of_eq (reads_char c (fun _ => True) input trivial)

theorem reads_fsmEpsilon {fsm : Parser τ} {x : τ} {after : List Byte → Prop}
    (hc : whitelist c = true) (h : Reads fsm (c :: text) x after) :
    Reads (fsmEpsilon whitelist fsm) (c :: text) x after := by
  intro rest hrest
  rw [fsmEpsilon, current_bind]
  rw [cons_append, headD_cons, if_pos hc]
  exact h rest hrest

theorem complete_eq {p : Parser τ} {x : τ}
    (h : Reads p text x (· = [])) : complete p text = .ok x := by
  have hread := h [] rfl
  rw [append_nil] at hread
  rw [complete, hread]
  rfl

theorem digits_stop (sum : Sum) (base : Nat) (x : Int)
    (h : isDigit base (rest.headD 0#8) = false) :
    digits sum base x rest = .ok (x, rest) := by
  cases rest with
  | nil => rfl
  | cons c rest =>
    rw [headD_cons] at h
    simp [digits, h]

theorem isDigit_of_le (hbase : base ≤ 10) (h : isDigit 10 c = false) :
    isDigit base c = false := by
  simp only [isDigit, decide_eq_false_iff_not] at h ⊢
  omega

theorem addAscii_add {d : Nat} (hbase : 0 < base) (hc : asciiToInt base c = d)
    (hmax : (x * base + d : Int) ≤ max) :
    (addAscii max).add base x c = some ((x * base + d : Nat) : Int) := by
  have hx : (x : Int) ≤ max / base :=
    Int.le_ediv_of_mul_le (by omega) (by omega)
  simp only [addAscii, hc]
  rw [if_neg (by omega), if_neg (by omega)]
  push_cast
  rfl

theorem digits_append {ds : List Nat} (hds : ∀ d ∈ ds, d < 10)
    (hmax : ((ds.foldl (fun x d => x * 10 + d) x : Nat) : Int) ≤ max)
    (hrest : isDigit 10 (rest.headD 0#8) = false) :
    digits (addAscii max) 10 x (ds.map digitByte ++ rest) =
      .ok (((ds.foldl (fun x d => x * 10 + d) x : Nat) : Int), rest) := by
  induction ds generalizing x with
  | nil => exact digits_stop _ 10 x hrest
  | cons d ds ih =>
    have hd := hds d mem_cons_self
    have hle := le_foldl_digits ds (x * 10 + d)
    rw [foldl_cons] at hmax
    rw [map_cons, cons_append, digits,
      isDigit_digitByte (.inl (Nat.le_refl _)) hd, if_pos rfl,
      addAscii_add (by decide) (asciiToInt_digitByte (.inl (by decide)) hd)
        (by push_cast; omega)]
    exact ih (fun e he => hds e (mem_cons_of_mem _ he)) hmax

theorem digits_octal {ds : List Nat} {x y : Int} {mid : List Byte}
    (hds : ∀ d ∈ ds, d < 10)
    (h : digits (addAscii max) 8 x (ds.map digitByte ++ 45#8 :: rest) =
      .ok (y, mid)) (hmid : mid.headD 0#8 = 45#8) :
    (∀ d ∈ ds, d < 8) ∧ y = ds.foldl (fun x d => x * 8 + (d : Int)) x := by
  induction ds generalizing x with
  | nil =>
    cases h
    simp
  | cons d ds ih =>
    obtain ⟨hd, hds⟩ := forall_mem_cons.mp hds
    rw [map_cons, cons_append, digits] at h
    by_cases hoctal : d < 8
    · rw [isDigit_digitByte (.inl (by decide)) hoctal, if_pos rfl] at h
      split at h
      · rename_i sum hadd
        simp only [addAscii, asciiToInt_digitByte (.inl (by decide)) hoctal,
          Option.ite_none_left_eq_some, Option.some.injEq] at hadd
        obtain ⟨-, -, rfl⟩ := hadd
        obtain ⟨hall, hy⟩ := ih hds h
        exact ⟨forall_mem_cons.mpr ⟨hoctal, hall⟩, hy⟩
      · cases h
    · have hstop : ∀ d < 10, ¬d < 8 → isDigit 8 (digitByte d) = false ∧
          digitByte d ≠ 45#8 := by
        decide
      rw [(hstop d hd hoctal).1] at h
      cases h
      exact absurd hmid (hstop d hd hoctal).2

section

variable {d : Nat} {ds : List Nat} (hlt : ∀ e ∈ d :: ds, e < 10)
  (hzero : d = 0 → ds = [])
  (hval : (d :: ds).foldl (fun x e => x * 10 + e) 0 = n)
include hlt hzero hval

theorem reads_digits (h : (n : Int) ≤ max) :
    Reads (afterSign (addAscii max)) ((d :: ds).map digitByte) n NoDigit := by
  intro rest hrest
  have hd := hlt d mem_cons_self
  have hfirst : ∀ e < 10, digitByte e = 48#8 → e = 0 := by decide
  have hdigits := @digits_append rest 0 max (d :: ds) hlt
    (by rw [hval]; exact h) hrest.1
  rw [hval] at hdigits
  rw [map_cons, cons_append, afterSign, current_bind, headD_cons]
  split_ifs with hc
  · obtain rfl := hfirst d hd hc
    obtain rfl := hzero rfl
    have hbin : rest.headD 0#8 ∉ ascii "bB" := fun hmem =>
      hrest.2 (mem_append_left (ascii "xX") hmem)
    have hhex : rest.headD 0#8 ∉ ascii "xX" := fun hmem =>
      hrest.2 (mem_append_right (ascii "bB") hmem)
    rw [next_bind, map_nil, nil_append, afterZero, current_bind,
      if_neg hbin, if_neg hhex,
      digits_stop _ 8 0 (isDigit_of_le (by decide) hrest.1), ← hval]
    rfl
  · rw [startDigits, fsmEpsilon, current_bind, headD_cons,
      if_pos (isDigit_digitByte (.inl (by decide)) hd)]
    exact hdigits

theorem reads_signed {bits : Nat} (h : (n : Int) ≤ 2 ^ (bits - 1) - 1) :
    Reads (readSignedInteger bits) ((d :: ds).map digitByte) n NoDigit := by
  intro rest hrest
  have hread := reads_digits hlt hzero hval h rest hrest
  have hplain : ∀ e < 10, digitByte e ∉ ascii " \t" ∧ digitByte e ∉ ascii "+" ∧
      digitByte e ∉ ascii "-" := by
    decide
  obtain ⟨hblank, hplus, hminus⟩ := hplain d (hlt d mem_cons_self)
  rw [map_cons, cons_append] at hread ⊢
  rw [readSignedInteger, if_neg hblank, if_neg hplus, if_neg hminus]
  exact hread

end

end Parser

/-- `to_integer` of a string.  `real` reads it as a floating point number and
converts that. -/
def toInteger (real : List Byte → Option Int) (str : List Byte) : Option Int :=
  (Parser.complete (Parser.readSignedInteger 64) str).toOption <|> real str

def getAsUnsigned (real : List Byte → Option Int) (bits : Nat)
    (str : List Byte) : Option Nat :=
  match toInteger real str with
  | some x => if 0 ≤ x ∧ x < 2 ^ bits then some x.toNat else none
  | none => none

theorem getAsUnsigned_toString10 {real : List Byte → Option Int}
    {bits n : Nat} (hbits : n < 2 ^ bits) (hmax : n < 2 ^ 63) :
    getAsUnsigned real bits (toString10 n) = some n := by
  obtain ⟨d, ds, htext, hlt, hzero, hval⟩ :=
    numberText_eq_map (by decide : 1 < 10) n
  have hcast : (n : Int) < 2 ^ bits := by exact_mod_cast hbits
  have hread : Parser.complete (Parser.readSignedInteger 64)
      ((d :: ds).map digitByte) = .ok (n : Int) := by
    refine Parser.complete_eq fun rest hrest =>
      Parser.reads_signed hlt hzero hval (by omega) rest ?_
    rw [hrest]
    exact ⟨rfl, by decide⟩
  rw [getAsUnsigned, toInteger, toString10, htext, hread]
  simp [Except.toOption, hcast]

end ActorFramework.Core
