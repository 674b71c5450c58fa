import ActorFramework.Core.Parser

/-!
# Quoted strings

What `print_escaped` writes and what `read_string` reads.  The printer knows
more escape sequences than the reader.
-/

namespace ActorFramework.Core

open List

def escapes : List (Byte × Byte) :=
  [(92#8, 92#8), (8#8, 98#8), (12#8, 102#8), (10#8, 110#8), (13#8, 114#8),
    (9#8, 116#8), (11#8, 118#8), (34#8, 34#8)]

def toHex (d : Byte) : Byte := (ascii "0123456789abcdef").getD d.toNat 0#8

def printEscapedTo (c : Byte) : List Byte :=
  match escapes.lookup c with
  | some e => [92#8, e]
  | none =>
    if 31 < c.toNat then [c]
    else 92#8 :: 117#8 :: 48#8 :: 48#8 :: [toHex (c >>> 4), toHex (c &&& 15#8)]

def printEscaped (str : List Byte) : List Byte :=
  34#8 :: str.flatMap printEscapedTo ++ [34#8]

namespace Parser

def alphanumericChars (c : Byte) : Bool :=
  decide (48 ≤ c.toNat ∧ c.toNat ≤ 57 ∨ 65 ≤ c.toNat ∧ c.toNat ≤ 90 ∨
    97 ≤ c.toNat ∧ c.toNat ≤ 122)

def blank (c : Byte) : Bool := decide (c ∈ ascii " \t")

mutual

def readChars (quoteMark : Byte) (res : List Byte) : Parser (List Byte)
  | [] => .error .unexpectedEof
  | ch :: cs =>
    if ch = 0#8 then .error .unexpectedEof
    else if ch = 92#8 then escape quoteMark res cs
    else if ch = quoteMark then .ok (res, cs.dropWhile blank)
    else if ch = 10#8 then .error .unexpectedNewline
    else readChars quoteMark (res ++ [ch]) cs

def escape (quoteMark : Byte) (res : List Byte) : Parser (List Byte)
  | [] => .error .unexpectedEof
  | ch :: cs =>
    if ch = 0#8 then .error .unexpectedEof
    else if ch = 102#8 then readChars quoteMark (res ++ [12#8]) cs
    else if ch = 110#8 then readChars quoteMark (res ++ [10#8]) cs
    else if ch = 114#8 then readChars quoteMark (res ++ [13#8]) cs
    else if ch = 116#8 then readChars quoteMark (res ++ [9#8]) cs
    else if ch = 118#8 then readChars quoteMark (res ++ [11#8]) cs
    else if ch = 92#8 then readChars quoteMark (res ++ [92#8]) cs
    else if ch = quoteMark then readChars quoteMark (res ++ [quoteMark]) cs
    else .error .invalidEscapeSequence

end

def readString : Parser (List Byte)
  | [] => .error .unexpectedEof
  | ch :: cs =>
    if blank ch then readString cs
    else if ch ∈ ascii "\"'" then readChars ch [] cs
    else if alphanumericChars ch then
      .ok (ch :: cs.takeWhile alphanumericChars,
        (cs.dropWhile alphanumericChars).dropWhile blank)
    else .error (unexpected ch)

def readable (c : Byte) : Bool :=
  decide (31 < c.toNat ∨ 9 ≤ c.toNat ∧ c.toNat ≤ 13)

theorem mem_escapes_or_plain : ∀ c : Byte,
    c ∈ escapes.map Prod.fst ∨
      escapes.lookup c = none ∧ c ≠ 0#8 ∧ c ≠ 92#8 ∧ c ≠ 34#8 ∧ c ≠ 10#8 ∧
        readable c ∧ 31 < c.toNat ∨
      escapes.lookup c = none ∧ ¬31 < c.toNat ∧ readable c = false := by
  decide

theorem readChars_printEscapedTo (res rest : List Byte) (c : Byte) :
    readChars 34#8 res (printEscapedTo c ++ rest) =
      if readable c then readChars 34#8 (res ++ [c]) rest
      else .error .invalidEscapeSequence := by
  rcases mem_escapes_or_plain c with hmem | ⟨hnone, h⟩ | ⟨hnone, h⟩
  · revert c
    simp [escapes, lookup_cons, printEscapedTo, readChars, escape, readable]
  · simp [printEscapedTo, hnone, h, readChars]
  · simp [printEscapedTo, hnone, h, readChars, escape]

theorem readChars_printEscaped (str : List Byte) (res : List Byte) :
    readChars 34#8 res (str.flatMap printEscapedTo ++ [34#8]) =
      if str.all readable then .ok (res ++ str, [])
      else .error .invalidEscapeSequence := by
  induction str generalizing res with
  | nil => simp [readChars]
  | cons c str ih =>
    rw [flatMap_cons, append_assoc, readChars_printEscapedTo, all_cons, ih]
    cases readable c <;> simp

theorem readString_printEscaped_iff (str : List Byte) :
    complete readString (printEscaped str) = .ok str ↔
      ∀ c ∈ str, 31 < c.toNat ∨ 9 ≤ c.toNat ∧ c.toNat ≤ 13 := by
  have hread : readString (printEscaped str) =
      readChars 34#8 [] (str.flatMap printEscapedTo ++ [34#8]) := rfl
  rw [complete, hread, readChars_printEscaped]
  cases hall : str.all readable <;> simp_all [readable]

theorem readString_backspace : complete readString (printEscaped [8#8]) =
    .error .invalidEscapeSequence :=
  rfl

end Parser

end ActorFramework.Core
