import Mathlib.Data.List.Basic

/-!
# The message queue

Workers deserialize messages in parallel.  `message_queue` hands out an ID to
every message before its deserialization starts and delivers the results in
the order of the IDs.  A dropped message is `none`.
-/

namespace ActorFramework.Io.Basp

variable {γ : Type*}

structure MessageQueue (γ : Type*) where
  nextId : Nat
  nextUndelivered : Nat
  pending : List (Nat × Option γ)

namespace MessageQueue

def empty : MessageQueue γ := ⟨0, 0, []⟩

def newId (q : MessageQueue γ) : Nat × MessageQueue γ :=
  (q.nextId, { q with nextId := q.nextId + 1 })

def deliver (next : Nat) :
    List (Nat × Option γ) → List γ × Nat × List (Nat × Option γ)
  | [] => ([], next, [])
  | (id, content) :: rest =>
    if id = next then
      let (delivered, next, rest) := deliver (next + 1) rest
      (content.toList ++ delivered, next, rest)
    else ([], next, (id, content) :: rest)

def insert (id : Nat) (content : Option γ) :
    List (Nat × Option γ) → List (Nat × Option γ)
  | [] => [(id, content)]
  | (id', content') :: rest =>
    if id ≤ id' then (id, content) :: (id', content') :: rest
    else (id', content') :: insert id content rest

/-- `push` and `drop`, with what they deliver. -/
def push (q : MessageQueue γ) (id : Nat) (content : Option γ) :
    List γ × MessageQueue γ :=
  if id = q.nextUndelivered then
    let (delivered, next, pending) := deliver (id + 1) q.pending
    (content.toList ++ delivered,
      { q with nextUndelivered := next, pending })
  else ([], { q with pending := insert id content q.pending })

end MessageQueue

end ActorFramework.Io.Basp
