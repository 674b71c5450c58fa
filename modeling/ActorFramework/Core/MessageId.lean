import Mathlib.Data.List.Basic

/-!
# Message IDs

A message ID packs two flags, a category, and a 60-bit request number into
one 64-bit word.  The flags mark responses and answered requests; the category
holds the priority, where zero means urgent.
-/

namespace ActorFramework.Core

inductive MessagePriority where
  | high
  | normal
  deriving DecidableEq

structure MessageId where
  value : BitVec 64
  deriving DecidableEq

namespace MessageId

def responseFlagMask : BitVec 64 := 0x8000000000000000#64
def answeredFlagMask : BitVec 64 := 0x4000000000000000#64
def categoryFlagMask : BitVec 64 := 0x3000000000000000#64
def requestIdMask : BitVec 64 := 0x0FFFFFFFFFFFFFFF#64
def urgentMessageCategory : BitVec 64 := 0#64
def categoryOffset : Nat := 60
def defaultAsyncValue : BitVec 64 := 0x1000000000000000#64

variable (id : MessageId)

def category : BitVec 64 :=
  (id.value &&& categoryFlagMask) >>> categoryOffset

def isAsync : Bool :=
  id.value == 0#64 || id.value == defaultAsyncValue

def isResponse : Bool :=
  id.value &&& responseFlagMask != 0#64

def isRequest : Bool :=
  id.value &&& requestIdMask != 0#64 && !id.isResponse

def isAnswered : Bool :=
  id.value &&& answeredFlagMask != 0#64

def isUrgentMessage : Bool :=
  id.category == urgentMessageCategory

def priority : MessagePriority :=
  if id.isUrgentMessage then .high else .normal

def responseId : MessageId :=
  if id.isRequest then ⟨id.value ||| responseFlagMask⟩
  else ⟨if id.isUrgentMessage then 0#64 else defaultAsyncValue⟩

def withHighPriority : MessageId :=
  ⟨id.value &&& ~~~categoryFlagMask⟩

def markAsAnswered : MessageId :=
  ⟨id.value ||| answeredFlagMask⟩

def makeMessageId (value : BitVec 64) : MessageId :=
  ⟨value ||| defaultAsyncValue⟩

theorem isAsync_eq_false_of_isRequest {id : MessageId}
    (h : id.isRequest = true) : id.isAsync = false := by
  rw [Bool.eq_false_iff]
  intro hasync
  obtain ⟨hnumber, -⟩ := Bool.and_eq_true_iff.mp h
  simp only [isAsync, Bool.or_eq_true, beq_iff_eq] at hasync
  rcases hasync with hzero | hdefault
  · rw [hzero] at hnumber
    exact absurd hnumber (by decide)
  · rw [hdefault] at hnumber
    exact absurd hnumber (by decide)

theorem isResponse_eq_false_of_isRequest {id : MessageId}
    (h : id.isRequest = true) : id.isResponse = false := by
  simp only [isRequest, Bool.and_eq_true, Bool.not_eq_true'] at h
  exact h.2

@[simp] theorem isAnswered_markAsAnswered (id : MessageId) :
    id.markAsAnswered.isAnswered = true := by
  have habsorb : (id.value ||| answeredFlagMask) &&& answeredFlagMask =
      answeredFlagMask := by
    ext i hi
    simp only [BitVec.getElem_and, BitVec.getElem_or]
    cases id.value[i] <;> cases answeredFlagMask[i] <;> rfl
  simp only [isAnswered, markAsAnswered, habsorb]
  decide

end MessageId

end ActorFramework.Core
