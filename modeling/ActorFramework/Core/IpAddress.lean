import ActorFramework.Core.Parser

/-!
# IP addresses

An address of version 6 is printed in groups of 16 bits, and the longest run of
zeros is left out.  An address of version 4 has a place among the addresses of
version 6 and is printed in its own format.
-/

namespace ActorFramework.Core

open Foundation

structure Ipv4Address where
  bytes : List Byte
  size : bytes.length = 4
  deriving DecidableEq

structure Ipv6Address where
  bytes : List Byte
  size : bytes.length = 16
  deriving DecidableEq

def Ipv4Address.toString (x : Ipv4Address) : List Byte :=
  (x.bytes.map fun octet => toString10 octet.toNat).intersperse [46#8]
    |>.flatten

namespace Ipv6Address

def v4Prefix : List Byte := List.replicate 10 0#8 ++ [255#8, 255#8]

def ofV4 (addr : Ipv4Address) : Ipv6Address :=
  ⟨v4Prefix ++ addr.bytes, by simp [v4Prefix, addr.size]⟩

variable (x : Ipv6Address)

def embedsV4 : Bool := decide (x.bytes.take 12 = v4Prefix)

def embeddedV4 : Ipv4Address :=
  ⟨x.bytes.drop 12, by simp [x.size]⟩

def zero : Bool := x.bytes.all (· == 0#8)

abbrev Chunk := Byte × Byte

def chunksOf : List Byte → List Chunk
  | hi :: lo :: rest => (hi, lo) :: chunksOf rest
  | _ => []

def octSegments : List Chunk := chunksOf x.bytes

def hexChar (d : Nat) : Byte :=
  if d < 10 then BitVec.ofNat 8 (48 + d) else BitVec.ofNat 8 (87 + d)

def appendV6Hex (chunk : Chunk) : List Byte :=
  let buf := [hexChar (chunk.1.toNat / 16), hexChar (chunk.1.toNat % 16),
    hexChar (chunk.2.toNat / 16), hexChar (chunk.2.toNat % 16)]
  let str := buf.dropWhile (· == 48#8)
  if str = [] then [48#8] else str

def adjacentFind (p : Chunk → Chunk → Bool) : List Chunk → Nat
  | x :: y :: rest => if p x y then 0 else adjacentFind p (y :: rest) + 1
  | [_] => 1
  | [] => 0

def longestStreak : Nat → List Chunk → Nat × Nat
  | 0, xs => (xs.length, xs.length)
  | fuel + 1, xs =>
    let first := adjacentFind (fun x y => x == (0, 0) && y == (0, 0)) xs
    if first = xs.length then (xs.length, xs.length)
    else
      let second := first + 2 +
        (xs.drop (first + 2)).findIdx (fun x => x != (0, 0))
      if second = xs.length then (first, second)
      else
        let next := longestStreak fuel (xs.drop second)
        if next.2 - next.1 ≤ second - first then (first, second)
        else (second + next.1, second + next.2)

def addChunks (chunks : List Chunk) : List Byte :=
  ((chunks.map appendV6Hex).intersperse [58#8]).flatten

def toString : List Byte :=
  if x.embedsV4 then x.embeddedV4.toString
  else if x.zero then ascii "::"
  else
    let chunks := x.octSegments
    let streak := longestStreak (chunks.length + 1) chunks
    if streak.1 = chunks.length then addChunks chunks
    else
      addChunks (chunks.take streak.1) ++ ascii "::" ++
        addChunks (chunks.drop streak.2)

def networkOrder (x : Int) : List Byte :=
  [BitVec.ofInt 8 (x / 256), BitVec.ofInt 8 x]

def h16Digits : Nat → Int → Parser (List Byte)
  | room + 1, res, c :: cs =>
    if isDigit 16 c then
      match (Parser.addAscii 65535).add 16 res c with
      | some res => h16Digits room res cs
      | none => .error .integerOverflow
    else .ok (networkOrder res, c :: cs)
  | _, res, input => .ok (networkOrder res, input)

def readIpv6H16 : Parser (List Byte) :=
  Parser.fsmEpsilon (isDigit 16) (h16Digits 4 0)

def readOctet : Parser Byte := do
  let dec ← Parser.startDigits (Parser.addAscii 255) 10
  let _ ← Parser.transition (Parser.char 46#8)
  return BitVec.ofInt 8 dec

def readOctets (first : Byte) : Parser (List Byte) := do
  let second ← readOctet
  let third ← readOctet
  let dec ← Parser.digits (Parser.addAscii 255) 10 0
  return [first, second, third, BitVec.ofInt 8 dec]

/-- The state `read` of `read_ipv6_h16_or_l32`.  The number is a group in any
case, and it is an octet as well as long as there is a value `dec` for it. -/
def readGroup (hex : Int) (dec : Option Int) : Parser (List Byte)
  | c :: cs =>
    if isDigit 16 c then
      match (Parser.addAscii 65535).add 16 hex c with
      | some hex =>
        readGroup hex (dec.bind fun dec =>
          if isDigit 10 c then (Parser.addAscii 255).add 10 dec c
          else none) cs
      | none => .error .integerOverflow
    else
      match dec with
      | some dec =>
        if c = 46#8 then readOctets (BitVec.ofInt 8 dec) cs
        else .ok (networkOrder hex, c :: cs)
      | none => .ok (networkOrder hex, c :: cs)
  | [] => .ok (networkOrder hex, [])

def readIpv6H16OrL32 : Parser (List Byte) :=
  Parser.fsmEpsilon (isDigit 16) (readGroup 0 (some 0))

def zeros : List Byte := List.replicate 16 0#8

def pushSuffix (suffix bytes : List Byte) : List Byte :=
  (bytes ++ suffix.drop bytes.length).rotateLeft bytes.length

/-- The states that read the suffix.  The bytes of the address that have been
filled so far are counted by `filled`. -/
def rdSuffix : Nat → Nat → List Byte → Parser (List Byte)
  | 0, _, _ => throw .unexpectedCharacter
  | fuel + 1, filled, suffix => do
      let remaining := 16 - filled
      let fsm : Parser (List Byte) :=
        if 4 ≤ remaining then readIpv6H16OrL32
        else if remaining = 2 then readIpv6H16
        else Parser.fsmEpsilon (fun _ => false) (pure [])
      let bytes ← fsm
      let c ← Parser.current
      if c = 58#8 then
        Parser.next
        rdSuffix fuel (filled + bytes.length) (pushSuffix suffix bytes)
      else return pushSuffix suffix bytes

def hasSep (pre : List Byte) : Parser (List Byte × List Byte) := do
  let c ← Parser.current
  if isDigit 16 c then
    let suffix ← rdSuffix 9 pre.length zeros
    return (pre, suffix)
  else return (pre, zeros)

def rdPrefixSep (rdPrefix : List Byte → Parser (List Byte × List Byte))
    (pre : List Byte) : Parser (List Byte × List Byte) := do
  let _ ← Parser.transition (Parser.char 58#8)
  let c ← Parser.current
  if c = 58#8 then
    Parser.next
    hasSep pre
  else rdPrefix pre

def rdPrefix : Nat → List Byte → Parser (List Byte × List Byte)
  | 0, _ => throw .unexpectedCharacter
  | fuel + 1, pre => do
      let remaining := 16 - pre.length
      if 4 < remaining then
        let bytes ← readIpv6H16
        rdPrefixSep (rdPrefix fuel) (pre ++ bytes)
      else if remaining = 4 then
        let bytes ← readIpv6H16OrL32
        if 16 - (pre ++ bytes).length = 0 then return (pre ++ bytes, zeros)
        else rdPrefixSep (rdPrefix fuel) (pre ++ bytes)
      else if remaining = 2 then
        let bytes ← readIpv6H16
        return (pre ++ bytes, zeros)
      else Parser.fsmEpsilon (fun _ => false) (pure (pre, zeros))

def readParts : Parser (List Byte × List Byte) := do
  let c ← Parser.current
  if c = 58#8 then
    Parser.next
    let _ ← Parser.transition (Parser.char 58#8)
    hasSep []
  else
    let bytes ← readIpv6H16OrL32
    if bytes.length = 4 then return (v4Prefix ++ bytes, zeros)
    else rdPrefixSep (rdPrefix 8) bytes

def array (bytes : List Byte) : List Byte := (bytes ++ zeros).take 16

theorem length_array (bytes : List Byte) : (array bytes).length = 16 := by
  simp [array, zeros]

def combine (parts : List Byte × List Byte) : Ipv6Address :=
  ⟨List.zipWith (· ||| ·) (array parts.1) (array parts.2),
    by simp [length_array]⟩

def readIpv6Address : Parser Ipv6Address := do
  let parts ← readParts
  return combine parts

def parse (str : List Byte) : Except Pec Ipv6Address :=
  Parser.complete readIpv6Address str

end Ipv6Address

end ActorFramework.Core
