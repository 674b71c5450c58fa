import ActorFramework.Core.Parser

/-!
# Date and time

A date and time is printed in the format of ISO 8601 and read back from it.
The text is assembled in a buffer of a fixed size.
-/

namespace ActorFramework.Core

open Foundation List ActorFramework.Core.Parser Int

/-- Prints an integer.  The smallest value of a type is printed from a table,
with the same text. -/
def printInteger (x : Int) : List Byte :=
  if x < 0 then 45#8 :: toString10 x.natAbs else toString10 x.natAbs

structure Datetime where
  year : Int := 0
  month : Int := 0
  day : Int := 0
  hour : Int := 0
  minute : Int := 0
  second : Int := 0
  nanosecond : Int := 0
  utcOffset : Option Int := none
  deriving DecidableEq

namespace Datetime

def inRange (x lower upper : Int) : Bool := decide (lower ≤ x ∧ x ≤ upper)

def isLeapYear (year : Int) : Bool :=
  year.tmod 4 == 0 && year.tmod 100 != 0 || year.tmod 400 == 0

def isValidDay (day month year : Int) : Bool :=
  if day < 1 then false
  else if month ∈ [1, 3, 5, 7, 8, 10, 12] then decide (day ≤ 31)
  else if month ∈ [4, 6, 9, 11] then decide (day ≤ 30)
  else if month = 2 then
    if isLeapYear year then decide (day ≤ 29) else decide (day ≤ 28)
  else false

def valid (dt : Datetime) : Bool :=
  inRange dt.month 1 12 && isValidDay dt.day dt.month dt.year &&
    inRange dt.hour 0 23 && inRange dt.minute 0 59 && inRange dt.second 0 59 &&
    inRange dt.nanosecond 0 999999999

def digitChar (x : Int) : Byte := BitVec.ofInt 8 (x + 48)

def print3Digits (val : Int) : List Byte :=
  [digitChar (val.tdiv 100), digitChar ((val.tmod 100).tdiv 10),
    digitChar (val.tmod 10)]

def effectivePrecision (ms us ns precision : Int) : Int :=
  if 0 < ns ∧ precision = 9 then 9
  else if 0 < us ∧ 6 ≤ precision then 6
  else if 0 < ms ∧ 3 ≤ precision then 3
  else 0

def printFractionalComponent (ns precision : Int) (isFixed : Bool) :
    List Byte :=
  let msVal := ns.tdiv 1000000
  let usVal := (ns.tdiv 1000).tmod 1000
  let nsVal := ns.tmod 1000
  if 0 < precision ∧ (0 < ns ∨ isFixed = true) then
    if isFixed then
      46#8 ::
        (if precision = 3 then print3Digits msVal
        else if precision = 6 then print3Digits msVal ++ print3Digits usVal
        else print3Digits msVal ++ print3Digits usVal ++ print3Digits nsVal)
    else
      let effective := effectivePrecision msVal usVal nsVal precision
      if effective = 3 then 46#8 :: print3Digits msVal
      else if effective = 6 then
        46#8 :: (print3Digits msVal ++ print3Digits usVal)
      else if effective = 9 then
        46#8 :: (print3Digits msVal ++ print3Digits usVal ++ print3Digits nsVal)
      else []
  else []

def offsetDigits (x : Int) : List Byte :=
  [digitChar (x.tdiv 10), digitChar (x.tmod 10)]

def printUtfOffset (offset : Int) : List Byte :=
  if offset = 0 then [90#8]
  else
    (if 0 < offset then 43#8 else 45#8) ::
      (offsetDigits (|offset|.tdiv 3600) ++
        58#8 :: offsetDigits ((|offset|.tmod 3600).tdiv 60))

def twoDigits (x : Int) : List Byte :=
  if x < 10 then 48#8 :: printInteger x else printInteger x

def printToBuf (dt : Datetime) (precision : Int) (isFixed : Bool) : List Byte :=
  printInteger dt.year ++ 45#8 :: (twoDigits dt.month ++ 45#8 ::
    (twoDigits dt.day ++ 84#8 :: (twoDigits dt.hour ++ 58#8 ::
      (twoDigits dt.minute ++ 58#8 :: (twoDigits dt.second ++
        (printFractionalComponent dt.nanosecond precision isFixed ++
          (dt.utcOffset.map printUtfOffset).getD []))))))

def formatBufferSize : Nat := 40

/-- There is no result if the text and its null terminator do not fit into the
buffer, because the program then writes beyond it. -/
def toString (dt : Datetime) : Option (List Byte) :=
  let text := printToBuf dt 9 false
  if text.length + 1 ≤ formatBufferSize then some text else none

def readTwoDigitInt : Parser Int := do
  let c ← Parser.transition (isDigit 10)
  let d ← Parser.transition (isDigit 10)
  return asciiToInt 10 c * 10 + asciiToInt 10 d

def afterHh : Parser Int := do
  let c ← Parser.current
  if c = 58#8 then
    Parser.next
    readTwoDigitInt
  else if isDigit 10 c then readTwoDigitInt
  else return 0

def readUtcOffset : Parser Int := do
  let sign ← Parser.transition (· ∈ ascii "+-")
  let hh ← readTwoDigitInt
  let mm ← afterHh
  let result := hh * 3600 + mm * 60
  return if sign = 45#8 then -result else result

def maybeUtcOffset : Parser (Option Int) := do
  let c ← Parser.current
  if c = 90#8 then
    Parser.next
    return some 0
  else if c ∈ ascii "+-" then
    let offset ← readUtcOffset
    return some offset
  else return none

def fractionalDigits : Nat → Parser (List Byte)
  | n + 1, c :: cs =>
    if isDigit 10 c then do
      let res ← fractionalDigits n cs
      return (c :: res.1, res.2)
    else .ok ([], c :: cs)
  | _, input => .ok ([], input)

def digitsValue (ds : List Byte) : Int :=
  ds.foldl (fun x c => x * 10 + asciiToInt 10 c) 0

def afterSeconds : Parser (Int × Option Int) := do
  let c ← Parser.current
  if c = 46#8 then
    Parser.next
    let ds ← fractionalDigits 9
    if ds = [] then return (0, none)
    else
      let offset ← maybeUtcOffset
      return (digitsValue ds * (1000000000 / 10 ^ ds.length), offset)
  else
    let offset ← maybeUtcOffset
    return (0, offset)

def readYear : Parser Int :=
  Parser.fsmEpsilon (isDigit 10) (Parser.readSignedInteger 32)

def readTimestamp : Parser Datetime := do
  let year ← readYear
  let _ ← Parser.transition (Parser.char 45#8)
  let month ← readTwoDigitInt
  let _ ← Parser.transition (Parser.char 45#8)
  let day ← readTwoDigitInt
  let _ ← Parser.transition (Parser.char 84#8)
  let hour ← Parser.fsmEpsilon (isDigit 10) readTwoDigitInt
  let _ ← Parser.transition (Parser.char 58#8)
  let minute ← Parser.fsmEpsilon (isDigit 10) readTwoDigitInt
  let _ ← Parser.transition (Parser.char 58#8)
  let second ← Parser.fsmEpsilon (isDigit 10) readTwoDigitInt
  let (nanosecond, utcOffset) ← afterSeconds
  let result : Datetime :=
    ⟨year, month, day, hour, minute, second, nanosecond, utcOffset⟩
  if result.valid then return result else throw .invalidArgument

def parse (str : List Byte) : Except Pec Datetime :=
  Parser.complete readTimestamp str

open Scanner

variable {n : Nat} {offset x : Int} {utcOffset : Option Int} {ds : List Nat}
  {dt : Datetime}

theorem digitChar_natCast (h : n < 10) : digitChar (n : Int) = digitByte n := by
  have hall : ∀ n < 10, digitChar ((n : Nat) : Int) = digitByte n := by decide
  exact hall n h

def pairText (n : Nat) : List Byte := [digitByte (n / 10), digitByte (n % 10)]

theorem twoDigits_eq (h : n < 100) : twoDigits n = pairText n := by
  have hall : ∀ n < 100, twoDigits ((n : Nat) : Int) = pairText n := by
    decide +kernel
  exact hall n h

theorem offsetDigits_eq (h : n < 100) : offsetDigits n = pairText n := by
  have hhigh : (n : Int).tdiv 10 = ((n / 10 : Nat) : Int) := rfl
  have hlow : (n : Int).tmod 10 = ((n % 10 : Nat) : Int) := rfl
  rw [offsetDigits, hhigh, hlow, digitChar_natCast (by omega),
    digitChar_natCast (by omega), pairText]

theorem reads_pairText (h : n < 100) (after : List Byte → Prop) :
    Reads readTwoDigitInt (pairText n) n after := by
  have hhigh : n / 10 < 10 := by omega
  have hlow : n % 10 < 10 := by omega
  have hval : (asciiToInt 10 (digitByte (n / 10)) : Int) * 10 +
      asciiToInt 10 (digitByte (n % 10)) = n := by
    rw [asciiToInt_digitByte (.inl (by decide)) hhigh,
      asciiToInt_digitByte (.inl (by decide)) hlow]
    omega
  have hread : Reads readTwoDigitInt (pairText n) _ after :=
    (reads_transition (isDigit_digitByte (.inl (by decide)) hhigh)
      _).andThen ((reads_transition (isDigit_digitByte
        (.inl (by decide)) hlow) _).andThen (reads_pure _ after))
  rwa [hval] at hread

def PrintableOffset (offset : Int) : Prop := 60 ∣ offset ∧ |offset| < 360000

theorem printUtfOffset_eq (h : PrintableOffset offset) (hne : offset ≠ 0) :
    ∃ hh mm : Nat, hh < 100 ∧ mm < 60 ∧ |offset| = hh * 3600 + mm * 60 ∧
      printUtfOffset offset = (if 0 < offset then 43#8 else 45#8) ::
        (pairText hh ++ 58#8 :: pairText mm) := by
  obtain ⟨n, hn⟩ := eq_ofNat_of_zero_le (abs_nonneg offset)
  obtain ⟨hdvd, hlt⟩ := h
  have hminutes : 60 ∣ n := by
    rw [← natAbs_of_nonneg (abs_nonneg offset), natAbs_abs] at hn
    omega
  have hhours : (n : Int).tdiv 3600 = ((n / 3600 : Nat) : Int) := rfl
  have hrest : ((n : Int).tmod 3600).tdiv 60 =
      ((n % 3600 / 60 : Nat) : Int) := rfl
  refine ⟨n / 3600, n % 3600 / 60, by omega, by omega, ?_, ?_⟩
  · rw [hn]
    omega
  · rw [printUtfOffset, if_neg hne, hn, hhours, hrest,
      offsetDigits_eq (by omega), offsetDigits_eq (by omega)]

inductive MinutesText : List Byte → Nat → Prop where
  | none : MinutesText [] 0
  | plain {mm : Nat} (h : mm < 100) : MinutesText (pairText mm) mm
  | colon {mm : Nat} (h : mm < 100) : MinutesText (58#8 :: pairText mm) mm

inductive ZoneText : List Byte → Option Int → Prop where
  | none : ZoneText [] none
  | utc : ZoneText [90#8] (some 0)
  | offset {hh mm : Nat} {text : List Byte} {sign : Byte}
      (hsign : sign ∈ ascii "+-") (hhours : hh < 100)
      (hminutes : MinutesText text mm) :
      ZoneText (sign :: (pairText hh ++ text))
        (some (if sign = 45#8 then -(hh * 3600 + mm * 60)
          else hh * 3600 + mm * 60))

variable {zone : List Byte}

theorem MinutesText.reads {mm : Nat} (h : MinutesText zone mm) :
    Reads afterHh zone mm (· = []) := by
  rintro _ rfl
  rw [append_nil, afterHh, current_bind]
  cases h with
  | none => rfl
  | plain hmm =>
    have hdigit : isDigit 10 (digitByte (mm / 10)) = true :=
      isDigit_digitByte (.inl (by decide)) (by omega)
    have hcolon : ∀ d < 10, digitByte d ≠ 58#8 := by decide
    rw [pairText, headD_cons, if_neg (hcolon _ (by omega)), if_pos hdigit]
    exact reads_pairText hmm (· = []) [] rfl
  | colon hmm => exact reads_pairText hmm (· = []) [] rfl

theorem ZoneText.reads (h : ZoneText zone utcOffset) :
    Reads maybeUtcOffset zone utcOffset (· = []) := by
  cases h with
  | none | utc =>
    rintro _ rfl
    rfl
  | @offset hh mm text sign hsign hhours hminutes =>
    have hread : Reads readUtcOffset ([sign] ++ (pairText hh ++ text))
        (if sign = 45#8 then -(hh * 3600 + mm * 60 : Int)
          else hh * 3600 + mm * 60) (· = []) :=
      (reads_transition (decide_eq_true hsign) _).andThen
        ((reads_pairText hhours _).andThen
          (hminutes.reads.finish (reads_pure _ _)))
    have hutc : ∀ sign ∈ ascii "+-", sign ≠ 90#8 := by decide
    rw [singleton_append] at hread
    intro rest hrest
    rw [maybeUtcOffset, current_bind, cons_append, headD_cons,
      if_neg (hutc sign hsign), if_pos hsign, ← cons_append,
      bind_of_eq (hread rest hrest)]
    rfl

theorem ZoneText.head (h : ZoneText zone utcOffset) :
    isDigit 10 (zone.headD 0#8) = false ∧ zone.headD 0#8 ≠ 46#8 := by
  cases h with
  | none | utc => decide
  | offset hsign =>
    have hall : ∀ sign ∈ ascii "+-", isDigit 10 sign = false ∧
        sign ≠ 46#8 := by
      decide
    exact hall _ hsign

theorem zoneText_print (h : ∀ offset ∈ utcOffset, PrintableOffset offset) :
    ZoneText ((utcOffset.map printUtfOffset).getD []) utcOffset := by
  cases utcOffset with
  | none => exact .none
  | some offset =>
    by_cases hzero : offset = 0
    · rw [hzero]
      exact .utc
    · obtain ⟨hh, mm, hhours, hminutes, habs, htext⟩ :=
        printUtfOffset_eq (h offset rfl) hzero
      rw [Option.map_some, Option.getD_some, htext]
      by_cases hpos : 0 < offset
      · rw [abs_of_pos hpos] at habs
        rw [if_pos hpos, habs]
        exact .offset (by decide) hhours (.colon (by omega))
      · rw [abs_of_nonpos (by omega), neg_eq_iff_eq_neg] at habs
        rw [if_neg hpos, habs]
        exact .offset (by decide) hhours (.colon (by omega))

def group (n : Nat) : List Nat := [n / 100, n % 100 / 10, n % 10]

theorem print3Digits_eq (h : n < 1000) :
    print3Digits n = (group n).map digitByte := by
  have hhigh : (n : Int).tdiv 100 = ((n / 100 : Nat) : Int) := rfl
  have hmid : ((n : Int).tmod 100).tdiv 10 = ((n % 100 / 10 : Nat) : Int) := rfl
  have hlow : (n : Int).tmod 10 = ((n % 10 : Nat) : Int) := rfl
  rw [print3Digits, hhigh, hmid, hlow, digitChar_natCast (by omega),
    digitChar_natCast (by omega), digitChar_natCast (by omega)]
  rfl

def fraction (n : Nat) : List Nat :=
  if n % 1000 ≠ 0 then
    group (n / 1000000) ++ group (n / 1000 % 1000) ++ group (n % 1000)
  else if n / 1000 % 1000 ≠ 0 then
    group (n / 1000000) ++ group (n / 1000 % 1000)
  else group (n / 1000000)

theorem effectivePrecision_eq {ms us ns : Nat} (h : ms ≠ 0 ∨ us ≠ 0 ∨ ns ≠ 0) :
    effectivePrecision ms us ns 9 =
      if ns ≠ 0 then 9 else if us ≠ 0 then 6 else 3 := by
  unfold effectivePrecision
  split_ifs <;> omega

theorem printFractionalComponent_eq (h : n < 1000000000) (hpos : n ≠ 0) :
    printFractionalComponent n 9 false =
      46#8 :: (fraction n).map digitByte := by
  have hms : (n : Int).tdiv 1000000 = ((n / 1000000 : Nat) : Int) := rfl
  have hus : ((n : Int).tdiv 1000).tmod 1000 =
      ((n / 1000 % 1000 : Nat) : Int) := rfl
  have hns : (n : Int).tmod 1000 = ((n % 1000 : Nat) : Int) := rfl
  have hn : (0 : Int) < 9 ∧ ((0 : Int) < n ∨ false = true) :=
    ⟨by decide, .inl (by omega)⟩
  unfold printFractionalComponent
  simp only [hms, hus, hns]
  rw [if_pos hn, if_neg (by decide), effectivePrecision_eq (by omega),
    print3Digits_eq (by omega), print3Digits_eq (by omega),
    print3Digits_eq (by omega), fraction]
  by_cases hnano : n % 1000 = 0
  · by_cases hmicro : n / 1000 % 1000 = 0
    · simp [hnano, hmicro]
    · simp [hnano, hmicro]
  · simp [hnano]

theorem fraction_spec (h : n < 1000000000) : (∀ d ∈ fraction n, d < 10) ∧
    (fraction n).length = (if n % 1000 ≠ 0 then 9 else
      if n / 1000 % 1000 ≠ 0 then 6 else 3) ∧
    (fraction n).foldl (fun x d => x * 10 + d) 0 *
      (1000000000 / 10 ^ (fraction n).length) = n := by
  unfold fraction
  split
  · simp [group]
    omega
  · split
    · simp [group]
      omega
    · simp [group]
      omega

theorem fractionalDigits_append {k : Nat} {rest : List Byte}
    (hds : ∀ d ∈ ds, d < 10) (hk : ds.length ≤ k)
    (hrest : isDigit 10 (rest.headD 0#8) = false) :
    fractionalDigits k (ds.map digitByte ++ rest) =
      .ok (ds.map digitByte, rest) := by
  induction ds generalizing k with
  | nil =>
    cases k with
    | zero => rfl
    | succ k =>
      cases rest with
      | nil => rfl
      | cons c rest =>
        rw [headD_cons] at hrest
        simp [fractionalDigits, hrest]
  | cons d ds ih =>
    obtain ⟨hd, hlater⟩ := forall_mem_cons.mp hds
    cases k with
    | zero => simp at hk
    | succ k =>
      rw [map_cons, cons_append, fractionalDigits,
        isDigit_digitByte (.inl (by decide)) hd, if_pos rfl,
        ih hlater (by simpa using hk)]
      rfl

theorem digitsValue_map (h : ∀ d ∈ ds, d < 10) :
    digitsValue (ds.map digitByte) =
      ((ds.foldl (fun x d => x * 10 + d) 0 : Nat) : Int) := by
  have hfold : ∀ x : Nat, (ds.map digitByte).foldl
      (fun x c => x * 10 + (asciiToInt 10 c : Int)) (x : Int) =
        ((ds.foldl (fun x d => x * 10 + d) x : Nat) : Int) := by
    induction ds with
    | nil => exact fun _ => rfl
    | cons d ds ih =>
      intro x
      obtain ⟨hd, hlater⟩ := forall_mem_cons.mp h
      rw [map_cons, foldl_cons, foldl_cons,
        asciiToInt_digitByte (.inl (by decide)) hd, ← ih hlater]
      push_cast
      rfl
  exact hfold 0

def decimal (ds : List Nat) : Nat := ds.foldl (fun x d => x * 10 + d) 0

def fractionText (ds : List Nat) : List Byte :=
  if ds = [] then [] else 46#8 :: ds.map digitByte

def nanoseconds (ds : List Nat) : Nat :=
  decimal ds * (1000000000 / 10 ^ ds.length)

theorem fractionText_print (hn : n < 1000000000) :
    ∃ ds, (∀ d ∈ ds, d < 10) ∧ ds.length ≤ 9 ∧ nanoseconds ds = n ∧
      printFractionalComponent n 9 false = fractionText ds := by
  by_cases hzero : n = 0
  · rw [hzero]
    exact ⟨[], by simp, by simp, rfl, rfl⟩
  · obtain ⟨hds, hlen, hval⟩ := fraction_spec hn
    have hne : fraction n ≠ [] ∧ (fraction n).length ≤ 9 := by
      rw [Ne, ← length_eq_zero_iff, hlen]
      split_ifs <;> decide
    refine ⟨fraction n, hds, hne.2, hval, ?_⟩
    rw [printFractionalComponent_eq hn hzero, fractionText, if_neg hne.1]

theorem reads_afterSeconds (hds : ∀ d ∈ ds, d < 10) (hlen : ds.length ≤ 9)
    (hzone : ZoneText zone utcOffset) :
    Reads afterSeconds (fractionText ds ++ zone) (nanoseconds ds, utcOffset)
      (· = []) := by
  intro rest hrest
  have hread := hzone.reads rest hrest
  obtain ⟨hdigit, hdot⟩ := hzone.head
  rw [hrest, append_nil] at hread ⊢
  unfold fractionText nanoseconds
  split
  · rename_i hnone
    rw [nil_append, afterSeconds, current_bind, if_neg hdot, bind_of_eq hread,
      hnone]
    rfl
  · rename_i hsome
    have hne : ds.map digitByte ≠ [] := by simpa using hsome
    rw [cons_append, afterSeconds, current_bind, headD_cons, if_pos rfl,
      next_bind, bind_of_eq (fractionalDigits_append hds hlen hdigit),
      if_neg hne, bind_of_eq hread, digitsValue_map hds, length_map]
    push_cast
    rfl

theorem reads_digitPair (h : n < 100) (after : List Byte → Prop) :
    Reads (fsmEpsilon (isDigit 10) readTwoDigitInt) (pairText n) n
      after :=
  reads_fsmEpsilon (isDigit_digitByte (.inl (by decide)) (by omega))
    (reads_pairText h after)

theorem bounds_of_valid (h : dt.valid = true) :
    (1 ≤ dt.month ∧ dt.month ≤ 12) ∧ (1 ≤ dt.day ∧ dt.day ≤ 31) ∧
      (0 ≤ dt.hour ∧ dt.hour ≤ 23) ∧ (0 ≤ dt.minute ∧ dt.minute ≤ 59) ∧
      (0 ≤ dt.second ∧ dt.second ≤ 59) ∧
      (0 ≤ dt.nanosecond ∧ dt.nanosecond ≤ 999999999) := by
  simp only [valid, inRange, Bool.and_eq_true, decide_eq_true_eq] at h
  obtain ⟨⟨⟨⟨⟨hmonth, hday⟩, hhour⟩, hminute⟩, hsecond⟩, hnano⟩ := h
  refine ⟨hmonth, ?_, hhour, hminute, hsecond, hnano⟩
  unfold isValidDay at hday
  split_ifs at hday <;> simp at hday <;> omega

structure Written where
  year : List Nat
  month : Nat
  day : Nat
  hour : Nat
  minute : Nat
  second : Nat
  fraction : List Nat
  zone : List Byte
  utcOffset : Option Int
  digits : ∀ d ∈ year ++ fraction, d < 10
  short : fraction.length ≤ 9
  zoned : ZoneText zone utcOffset
  valid : Datetime.valid ⟨decimal year, month, day, hour, minute, second,
    nanoseconds fraction, utcOffset⟩ = true

namespace Written

variable (w : Written)

def text : List Byte :=
  w.year.map digitByte ++ 45#8 :: (pairText w.month ++ 45#8 ::
    (pairText w.day ++ 84#8 :: (pairText w.hour ++ 58#8 ::
      (pairText w.minute ++ 58#8 :: (pairText w.second ++
        (fractionText w.fraction ++ w.zone))))))

def datetime : Datetime :=
  ⟨decimal w.year, w.month, w.day, w.hour, w.minute, w.second,
    nanoseconds w.fraction, w.utcOffset⟩

theorem reads (hyear : Reads readYear (w.year.map digitByte)
    (decimal w.year) NoDigit) :
    Reads readTimestamp w.text w.datetime (· = []) := by
  obtain ⟨hmonth, hday, hhour, hminute, hsecond, -⟩ := bounds_of_valid w.valid
  dsimp only at hmonth hday hhour hminute hsecond
  have hdash : ∀ rest, NoDigit (45#8 :: rest) := fun _ =>
    ⟨(by decide : isDigit 10 45#8 = false), (by decide : 45#8 ∉ ascii "bBxX")⟩
  have hlast : Reads (if w.datetime.valid = true then
      (pure w.datetime : Parser Datetime) else throw .invalidArgument) []
        w.datetime (· = []) := by
    rw [if_pos (by exact w.valid)]
    exact reads_pure _ _
  exact hyear.bind
    ((reads_char 45#8 _).andThen ((reads_pairText (by omega) _).andThen
    ((reads_char 45#8 _).andThen ((reads_pairText (by omega) _).andThen
    ((reads_char 84#8 _).andThen ((reads_digitPair (by omega) _).andThen
    ((reads_char 58#8 _).andThen ((reads_digitPair (by omega) _).andThen
    ((reads_char 58#8 _).andThen ((reads_digitPair (by omega) _).andThen
    ((reads_afterSeconds (fun d hd => w.digits d (mem_append_right _ hd))
      w.short w.zoned).finish hlast)))))))))))
    fun rest _ => hdash _

end Written

theorem reads_readYear {d : Nat} (hlt : ∀ e ∈ d :: ds, e < 10)
    (hzero : d = 0 → ds = []) (hint : decimal (d :: ds) < 2 ^ 31) :
    Reads readYear ((d :: ds).map digitByte) (decimal (d :: ds)) NoDigit :=
  reads_fsmEpsilon
    (isDigit_digitByte (.inl (by decide)) (hlt d mem_cons_self))
    (reads_signed (n := decimal (d :: ds)) hlt hzero rfl (by omega))

theorem reads_octalYear {e : Nat} (h : e < 8) :
    Reads readYear ([0, 0, 0, e].map digitByte) e NoDigit := by
  intro rest hrest
  have hstop := digits_stop (Parser.addAscii (2 ^ 31 - 1)) 8 e
    (isDigit_of_le (by decide) hrest.1)
  interval_cases e <;> exact hstop

theorem year_of_readTimestamp {input rest : List Byte}
    (h : readTimestamp input = .ok (dt, rest)) :
    ∃ mid, readYear input = .ok (dt.year, mid) ∧ mid.headD 0#8 = 45#8 := by
  obtain ⟨year, mid, hyear, h⟩ := exists_of_bind h
  obtain ⟨_, _, hdash, h⟩ := exists_of_bind h
  iterate 10 obtain ⟨_, _, -, h⟩ := exists_of_bind h
  dsimp only at h
  split at h
  · cases h
    refine ⟨mid, hyear, ?_⟩
    by_contra hne
    rw [transition, current_bind, if_neg (by simpa [char] using hne)] at hdash
    cases hdash
  · cases h

theorem reads_timestamp (hvalid : dt.valid = true) (hyear : 0 ≤ dt.year)
    (hint : dt.year < 2 ^ 31)
    (hoff : ∀ offset ∈ dt.utcOffset, PrintableOffset offset) :
    Reads readTimestamp (printToBuf dt 9 false) dt (· = []) := by
  obtain ⟨hmonth, hday, hhour, hminute, hsecond, hnano⟩ :=
    bounds_of_valid hvalid
  obtain ⟨year, month, day, hour, minute, second, nanosecond, utcOffset⟩ := dt
  dsimp only at hyear hint hoff hmonth hday hhour hminute hsecond hnano
  obtain ⟨y, rfl⟩ := eq_ofNat_of_zero_le hyear
  obtain ⟨mo, rfl⟩ := eq_ofNat_of_zero_le (by omega : 0 ≤ month)
  obtain ⟨d, rfl⟩ := eq_ofNat_of_zero_le (by omega : 0 ≤ day)
  obtain ⟨h, rfl⟩ := eq_ofNat_of_zero_le hhour.1
  obtain ⟨mi, rfl⟩ := eq_ofNat_of_zero_le hminute.1
  obtain ⟨s, rfl⟩ := eq_ofNat_of_zero_le hsecond.1
  obtain ⟨n, rfl⟩ := eq_ofNat_of_zero_le hnano.1
  obtain ⟨c, cs, htext, hlt, hzero, hval⟩ :=
    numberText_eq_map (by decide : 1 < 10) y
  obtain rfl : decimal (c :: cs) = y := hval
  obtain ⟨ds, hds, hshort, rfl, hfraction⟩ :=
    fractionText_print (by omega : n < 1000000000)
  have hy : printInteger (decimal (c :: cs)) =
      (c :: cs).map digitByte := htext
  have hread := Written.reads ⟨c :: cs, mo, d, h, mi, s, ds, _, utcOffset,
    fun e he => (mem_append.mp he).elim (hlt e) (hds e), hshort,
    zoneText_print hoff, hvalid⟩
    (reads_readYear hlt hzero (by exact_mod_cast hint))
  rw [printToBuf]
  rw [hy, twoDigits_eq (by omega), twoDigits_eq (by omega),
    twoDigits_eq (by omega), twoDigits_eq (by omega), twoDigits_eq (by omega),
    hfraction]
  exact hread

theorem length_twoDigits (h : 0 ≤ x) (hx : x < 100) :
    (twoDigits x).length = 2 := by
  obtain ⟨n, rfl⟩ := eq_ofNat_of_zero_le h
  rw [twoDigits_eq (by omega)]
  rfl

def fractionLength (nanosecond : Int) : Nat :=
  if nanosecond = 0 then 0
  else if nanosecond % 1000 ≠ 0 then 10
  else if nanosecond / 1000 % 1000 ≠ 0 then 7
  else 4

theorem length_printFractionalComponent (h : 0 ≤ x) (hx : x ≤ 999999999) :
    (printFractionalComponent x 9 false).length = fractionLength x := by
  obtain ⟨n, rfl⟩ := eq_ofNat_of_zero_le h
  unfold fractionLength
  by_cases hzero : n = 0
  · rw [hzero]
    rfl
  · obtain ⟨-, hlen, -⟩ := fraction_spec (by omega : n < 1000000000)
    have hcast : (n : Int) ≠ 0 := by omega
    rw [printFractionalComponent_eq (by omega) hzero, length_cons,
      length_map, hlen, if_neg hcast]
    split_ifs <;> omega

def offsetLength : Option Int → Nat
  | none => 0
  | some offset => if offset = 0 then 1 else 6

theorem length_printUtfOffset
    (h : ∀ offset ∈ utcOffset, PrintableOffset offset) :
    ((utcOffset.map printUtfOffset).getD []).length =
      offsetLength utcOffset := by
  cases utcOffset with
  | none => rfl
  | some offset =>
    by_cases hzero : offset = 0
    · rw [hzero]
      rfl
    · obtain ⟨hh, mm, -, -, -, htext⟩ := printUtfOffset_eq (h offset rfl) hzero
      rw [Option.map_some, Option.getD_some, htext, offsetLength, if_neg hzero]
      rfl

theorem length_printToBuf (hvalid : dt.valid = true) (hyear : 0 ≤ dt.year)
    (hoff : ∀ offset ∈ dt.utcOffset, PrintableOffset offset) :
    (printToBuf dt 9 false).length = (toString10 dt.year.natAbs).length + 15 +
      fractionLength dt.nanosecond + offsetLength dt.utcOffset := by
  obtain ⟨hmonth, hday, hhour, hminute, hsecond, hnano⟩ :=
    bounds_of_valid hvalid
  have hprint : printInteger dt.year = toString10 dt.year.natAbs :=
    if_neg (by omega)
  simp only [printToBuf, length_append, length_cons, hprint,
    length_printFractionalComponent hnano.1 hnano.2, length_printUtfOffset hoff]
  rw [length_twoDigits (by omega) (by omega), length_twoDigits (by omega)
    (by omega), length_twoDigits (by omega) (by omega), length_twoDigits
    (by omega) (by omega), length_twoDigits (by omega) (by omega)]
  omega

/-- The text of a year with nine or more digits is too long if it is followed by
nine digits for the fraction and an offset with hours and minutes. -/
def Fits (dt : Datetime) : Prop :=
  dt.year < 10 ^ 8 ∨ dt.nanosecond % 1000 = 0 ∨ dt.utcOffset = none ∨
    dt.utcOffset = some 0

theorem length_lt_formatBufferSize_iff (hvalid : dt.valid = true)
    (hyear : 0 ≤ dt.year) (hint : dt.year < 2 ^ 31)
    (hoff : ∀ offset ∈ dt.utcOffset, PrintableOffset offset) :
    (printToBuf dt 9 false).length + 1 ≤ formatBufferSize ↔ Fits dt := by
  rw [length_printToBuf hvalid hyear hoff, formatBufferSize]
  have hten : (toString10 dt.year.natAbs).length ≤ 10 :=
    (length_numberText_le_iff (by decide) (by decide)).mpr (by omega)
  have height : (toString10 dt.year.natAbs).length ≤ 8 ↔
      dt.year.natAbs < 10 ^ 8 :=
    length_numberText_le_iff (by decide) (by decide)
  have hfraction : fractionLength dt.nanosecond = 10 ∧
      dt.nanosecond % 1000 ≠ 0 ∨ fractionLength dt.nanosecond ≤ 7 ∧
        dt.nanosecond % 1000 = 0 := by
    unfold fractionLength
    split_ifs <;> omega
  have hlast : offsetLength dt.utcOffset = 6 ∧ dt.utcOffset ≠ none ∧
      dt.utcOffset ≠ some 0 ∨ offsetLength dt.utcOffset ≤ 1 ∧
        (dt.utcOffset = none ∨ dt.utcOffset = some 0) := by
    cases dt.utcOffset with
    | none => simp [offsetLength]
    | some offset =>
      by_cases hzero : offset = 0
      · simp [offsetLength, hzero]
      · simp [offsetLength, hzero]
  unfold Fits
  rcases hfraction with hfraction | hfraction
  · rcases hlast with hlast | hlast
    · simp only [hfraction, hlast, or_false]
      omega
    · simp only [hfraction, hlast, or_true, iff_true]
      omega
  · rcases hlast with hlast | hlast <;> omega

/-- Exactly the texts that fit into the buffer are read back. -/
theorem parse_toString_iff {dt : Datetime} (hvalid : dt.valid = true)
    (hyear : 0 ≤ dt.year) (hint : dt.year < 2 ^ 31)
    (hoffset : ∀ offset ∈ dt.utcOffset, PrintableOffset offset) :
    (∃ text, dt.toString = some text ∧ parse text = .ok dt) ↔ Fits dt := by
  rw [← length_lt_formatBufferSize_iff hvalid hyear hint hoffset]
  unfold toString
  constructor
  · rintro ⟨text, htext, -⟩
    by_contra hlong
    rw [if_neg hlong] at htext
    cases htext
  · intro hfits
    exact ⟨_, if_pos hfits, complete_eq
      (reads_timestamp hvalid hyear hint hoffset)⟩

theorem parse_toString_leap_day :
    ∃ text, toString ⟨2024, 2, 29, 23, 59, 59, 123456789, some (-19800)⟩ =
        some text ∧
      parse text = .ok ⟨2024, 2, 29, 23, 59, 59, 123456789, some (-19800)⟩ := by
  refine (parse_toString_iff (by decide) (by decide) (by decide) ?_).mpr
    (.inl (by decide))
  intro offset hoff
  cases hoff
  exact ⟨by decide, by decide⟩

/-- A year with leading zeros is an octal number. -/
theorem parse_written_iff (w : Written) {a b c e : Nat}
    (hyear : w.year = [a, b, c, e]) :
    parse w.text = .ok w.datetime ↔ a ≠ 0 ∨ b = 0 ∧ c = 0 ∧ e < 8 := by
  have hdigits : ∀ d ∈ [a, b, c, e], d < 10 := fun d hd =>
    w.digits d (mem_append_left _ (hyear ▸ hd))
  constructor
  · intro h
    by_contra hnot
    obtain ⟨rfl, hnot⟩ : a = 0 ∧ ¬(b = 0 ∧ c = 0 ∧ e < 8) := by omega
    unfold parse complete at h
    split at h
    · cases h
    · rename_i dt rest hread
      split at h
      · cases h
        obtain ⟨mid, hmid, hdash⟩ := year_of_readTimestamp hread
        have hbase : ∀ d < 10, digitByte d ∉ ascii "bB" ∧
            digitByte d ∉ ascii "xX" := by
          decide
        obtain ⟨hbin, hhex⟩ := hbase b (by simp_all)
        rw [Written.text, hyear] at hmid
        change afterZero _ ([b, c, e].map digitByte ++ _) = _ at hmid
        rw [afterZero, current_bind, map_cons, cons_append, headD_cons,
          if_neg hbin, if_neg hhex] at hmid
        obtain ⟨hoctal, hval⟩ := digits_octal (forall_mem_cons.mp hdigits).2
          hmid hdash
        simp [Written.datetime, decimal, hyear] at hval hoctal
        omega
      · cases h
  · intro h
    refine complete_eq (w.reads ?_)
    rw [hyear]
    by_cases hzero : a = 0
    · obtain ⟨rfl, rfl, he⟩ := h.resolve_left (not_not.mpr hzero)
      rw [hzero]
      simpa [decimal] using reads_octalYear he
    · refine reads_readYear hdigits (fun h => absurd h hzero) ?_
      simp [decimal] at hdigits ⊢
      omega

theorem parse_written_1999 :
    ∃ w : Written, w.year = [1, 9, 9, 9] ∧ parse w.text = .ok w.datetime :=
  ⟨⟨[1, 9, 9, 9], 12, 31, 23, 59, 59, [5], _, _, by decide, by decide, .utc,
    by decide⟩, rfl, (parse_written_iff _ rfl).mpr (.inl (by decide))⟩

theorem parse_octal_year : parse (ascii "0010-01-01T00:00:00Z") =
    .ok ⟨8, 1, 1, 0, 0, 0, 0, some 0⟩ := by
  decide +kernel

/-- A date that the parser accepts and that does not fit into the buffer. -/
theorem toString_overflow :
    parse (ascii "100000000-01-01T00:00:00.000000001+01:00") =
      .ok ⟨100000000, 1, 1, 0, 0, 0, 1, some 3600⟩ ∧
    valid ⟨100000000, 1, 1, 0, 0, 0, 1, some 3600⟩ = true ∧
    toString ⟨100000000, 1, 1, 0, 0, 0, 1, some 3600⟩ = none := by
  decide +kernel

end Datetime

end ActorFramework.Core
