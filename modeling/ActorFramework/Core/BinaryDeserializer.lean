import Mathlib.Control.Monad.Basic

/-!
# The binary deserializer

A `Reader` consumes a prefix of the remaining bytes or fails.  Objects, tuples
and fields without presence flag leave no trace in the binary format.
-/

namespace ActorFramework.Core

abbrev Byte := BitVec 8

instance : LawfulBEq Byte := inferInstance

abbrev Reader (τ : Type) := StateT (List Byte) Option τ

namespace Reader

variable {τ : Type}

def bytes (n : Nat) : Reader (List Byte) := fun input =>
  if n ≤ input.length then some (input.take n, input.drop n) else none

def byte : Reader Byte
  | [] => none
  | x :: input => some (x, input)

def int (w : Nat) : Reader (BitVec w) := do
  let digits ← bytes (w / 8)
  pure (digits.foldl (fun x digit => x <<< 8 ||| digit.setWidth w) 0)

/-- The loop of `begin_sequence` after `n` digits. -/
def varbyte (n : Nat) (x : BitVec 32) : Reader (BitVec 32)
  | [] => none
  | low7 :: input =>
    let x := x ||| ((low7 &&& 0x7F#8).setWidth 32 <<< (7 * n))
    if low7 &&& 0x80#8 = 0#8 then some (x, input)
    else varbyte (n + 1) x input

def beginSequence : Reader Nat := do
  let x ← varbyte 0 0
  pure x.toNat

def tuple (item : Reader τ) : Nat → Reader (List τ)
  | 0 => pure []
  | n + 1 => do
      let x ← item
      let xs ← tuple item n
      pure (x :: xs)

def list (item : Reader τ) : Reader (List τ) := do
  let n ← beginSequence
  tuple item n

def string : Reader (List Byte) := do
  let n ← beginSequence
  bytes n

/-- `begin_field` of an optional field. -/
def isPresent : Reader Bool := do
  let x ← byte
  pure (x != 0#8)

/--
`begin_field` of an optional variant field with fewer than 127 types; a
negative index stands for an absent value.
-/
def variantIndex (types : Nat) : Reader (Option Nat) := do
  let x ← byte
  if x.msb then pure none
  else if x.toNat < types then pure (some x.toNat)
  else failure

end Reader

inductive NodeData (υ : Type) where
  | uri (value : υ)
  | hashed (processId : BitVec 32) (host : List Byte)
  deriving DecidableEq

abbrev NodeId (υ : Type) := Option (NodeData υ)

def loadNodeId {υ : Type} (loadUri : Reader υ) : Reader (NodeId υ) := do
  match ← Reader.variantIndex 2 with
  | none => pure none
  | some 0 => do
      let value ← loadUri
      pure (some (.uri value))
  | some _ => do
      let processId ← Reader.int 32
      let host ← Reader.tuple Reader.byte 20
      pure (some (.hashed processId host))

abbrev ActorId := BitVec 64

instance : LawfulBEq ActorId := inferInstance

abbrev TypeId := BitVec 16

structure ActorHandle (υ : Type) where
  nid : NodeId υ
  aid : ActorId
  deriving DecidableEq

/--
The result of loading a value: the actor handles `load_actor` was asked for on
the way, and the value with the remaining bytes.
-/
structure Loaded (υ τ : Type) where
  handles : List (ActorHandle υ)
  result : Option (τ × List Byte)

/--
The part of the format that depends on the types an application registers.
`metaObject` is the global table of meta objects.
-/
structure Codec (υ ν : Type) where
  loadUri : Reader υ
  metaObject : TypeId → Option (List Byte → Loaded υ ν)
  linkAtom : TypeId
  unlinkAtom : TypeId
  strongActorPtr : TypeId

structure Element (υ ν : Type) where
  type : TypeId
  value : ν
  handles : List (ActorHandle υ)

namespace Codec

variable {υ ν : Type}

variable (codec : Codec υ ν)

def nodeId : Reader (NodeId υ) := loadNodeId codec.loadUri

def messageTypes : Reader (List TypeId) := do
  let n ← Reader.beginSequence
  if 65534 < n then failure
  else
    Reader.tuple (do
      let id ← Reader.int 16
      if (codec.metaObject id).isSome then pure id else failure) n

def messageValues (codec : Codec υ ν) :
    List TypeId → List Byte → Loaded υ (List (Element υ ν))
  | [], input => ⟨[], some ([], input)⟩
  | id :: ids, input =>
    match codec.metaObject id with
    | none => ⟨[], none⟩
    | some load =>
      match load input with
      | ⟨handles, none⟩ => ⟨handles, none⟩
      | ⟨handles, some (value, rest)⟩ =>
        let tail := codec.messageValues ids rest
        ⟨handles ++ tail.handles, tail.result.map fun (xs, rest) =>
          (⟨id, value, handles⟩ :: xs, rest)⟩

def message (input : List Byte) :
    Loaded υ (List (Element υ ν)) :=
  match codec.messageTypes input with
  | none => ⟨[], none⟩
  | some (ids, rest) => codec.messageValues ids rest

structure ErrorData (υ ν : Type) where
  code : Byte
  category : TypeId
  context : List (Element υ ν)

def error (input : List Byte) :
    Loaded υ (Option (ErrorData υ ν)) :=
  match Reader.isPresent input with
  | none => ⟨[], none⟩
  | some (false, rest) => ⟨[], some (none, rest)⟩
  | some (true, rest) =>
    let head : Reader (Byte × TypeId) := do
      let code ← Reader.byte
      let category ← Reader.int 16
      pure (code, category)
    match head rest with
    | none => ⟨[], none⟩
    | some ((code, category), rest) =>
      let context := codec.message rest
      ⟨context.handles, context.result.map fun (context, rest) =>
        (some ⟨code, category, context⟩, rest)⟩

end Codec

end ActorFramework.Core
