import ActorFramework.Core.MessageId
import Mathlib.Data.List.Count

/-!
# Attachables and links

Every actor keeps a list of attachables that it notifies when it terminates.
A link is stored twice, as an attachable of both actors.  The critical section
of each member function is one step; what a call does after it released its
locks, such as sending exit messages, is queued under the number of the call
and done in later steps.
-/

namespace ActorFramework.Core

variable {ι : Type*} [DecidableEq ι]

inductive ObserveType where
  | monitor
  | link
  deriving DecidableEq

/-- A `default_attachable` or any other attachable, which no token selects. -/
inductive Attachable (ι : Type*) where
  | observe (observed observer : ι) (type : ObserveType)
      (priority : MessagePriority)
  | functor (id : Nat)

structure ObserveToken (ι : Type*) where
  observer : ι
  type : ObserveType
  deriving DecidableEq

namespace Attachable

def makeLink (observed observer : ι) : Attachable ι :=
  .observe observed observer .link .normal

def matchesToken (what : ObserveToken ι) : Attachable ι → Bool
  | .observe _ observer type _ =>
    what.observer == observer && what.type == type
  | .functor _ => false

def isLink : Attachable ι → Bool
  | .observe _ _ .link _ => true
  | _ => false

end Attachable

inductive SystemMessage (ι : Type*) where
  | exitMsg (source : ι) (reason : Nat)
  | downMsg (source : ι) (reason : Nat)

structure Envelope (ι : Type*) where
  sender : Option ι
  receiver : ι
  priority : MessagePriority
  content : SystemMessage ι

def makeExit (source : ι) (reason : Nat) (receiver : ι) : Envelope ι :=
  ⟨none, receiver, .normal, .exitMsg source reason⟩

def detachImpl (what : ObserveToken ι) (stopOnHit dryRun : Bool) :
    List (Attachable ι) → Nat × List (Attachable ι)
  | [] => (0, [])
  | x :: xs =>
    if x.matchesToken what then
      if stopOnHit then (1, if dryRun then x :: xs else xs)
      else
        ((detachImpl what stopOnHit dryRun xs).1 + 1,
          if dryRun then x :: (detachImpl what stopOnHit dryRun xs).2
          else (detachImpl what stopOnHit dryRun xs).2)
    else
      ((detachImpl what stopOnHit dryRun xs).1,
        x :: (detachImpl what stopOnHit dryRun xs).2)

/-- `destroyed` says that no strong reference is left. -/
structure AbstractActor (ι : Type*) where
  attachables : List (Attachable ι) := []
  terminated : Bool := false
  failState : Nat := 0
  destroyed : Bool := false

namespace AbstractActor

variable (self : AbstractActor ι)

def attachImpl (ptr : Attachable ι) :
    AbstractActor ι :=
  { self with attachables := ptr :: self.attachables }

def detach (what : ObserveToken ι) (stopOnHit : Bool) : AbstractActor ι :=
  { self with attachables := (detachImpl what stopOnHit false
      self.attachables).2 }

def addBacklink (address x : ι) :
    AbstractActor ι × Bool × List (Envelope ι) :=
  if self.terminated then
    (self, false, [makeExit address self.failState x])
  else if (detachImpl ⟨x, .link⟩ true true self.attachables).1 = 0 then
    (self.attachImpl (.makeLink address x), true, [])
  else (self, false, [])

def removeBacklink (x : ι) : AbstractActor ι :=
  self.detach ⟨x, .link⟩ true

end AbstractActor

inductive Notice (ι : Type*) where
  | actorExited (x : Attachable ι) (reason : Nat)
  | enqueue (element : Envelope ι)

structure Duty (ι : Type*) where
  owner : ι
  notice : Notice ι

def Duty.keeps (duty : Duty ι) (a : ι) : Bool :=
  duty.owner == a ||
    match duty.notice with
    | .enqueue element => element.receiver == a
    | .actorExited _ _ => false

structure LinkSystem (ι : Type*) where
  actors : ι → AbstractActor ι
  calls : Nat
  duties : Nat → List (Duty ι)
  sent : List (Nat × Envelope ι)

inductive LinkAction (ι : Type*) where
  | linkTo (self other : ι)
  | unlinkFrom (self other : ι)
  | cleanup (self : ι) (reason : Nat)
  | attach (self : ι) (ptr : Attachable ι)
  | detach (self : ι) (what : ObserveToken ι)
  | proceed (call : Nat)
  | destroy (self : ι)

namespace LinkSystem

def initial : LinkSystem ι := ⟨fun _ => {}, 0, fun _ => [], []⟩

variable (s : LinkSystem ι)

def set (a : ι) (actor : AbstractActor ι) : LinkSystem ι :=
  { s with actors := Function.update s.actors a actor }

/-- The next call leaves its critical section with these duties, after having
sent `letters` inside of it. -/
def finish (duties : List (Duty ι))
    (letters : List (Envelope ι)) : LinkSystem ι :=
  { s with
    calls := s.calls + 1
    duties := Function.update s.duties s.calls duties
    sent := s.sent ++ letters.map fun letter => (s.calls, letter) }

def addLink (self x : ι) : LinkSystem ι :=
  if (s.actors self).terminated then
    s.finish [⟨self, .enqueue (makeExit self (s.actors self).failState x)⟩] []
  else
    match (s.actors x).addBacklink x self with
    | (actor, true, letters) =>
      ((s.set x actor).set self
        ((s.actors self).attachImpl (.makeLink self x))).finish [] letters
    | (actor, false, letters) => (s.set x actor).finish [] letters

def removeLink (self x : ι) : LinkSystem ι :=
  ((s.set x ((s.actors x).removeBacklink self)).set self
    ((s.actors self).detach ⟨x, .link⟩ true)).finish [] []

/-- `link_to(const actor_addr&)`: the cast to a strong pointer gives a null
pointer once the actor was destroyed. -/
def linkTo (self other : ι) : LinkSystem ι :=
  if (s.actors other).destroyed || other == self then s.finish [] []
  else s.addLink self other

def unlinkFrom (self other : ι) : LinkSystem ι :=
  if (s.actors other).destroyed then
    (s.set self ((s.actors self).detach ⟨other, .link⟩ true)).finish [] []
  else if other == self then s.finish [] []
  else s.removeLink self other

def cleanup (self : ι) (reason : Nat) : LinkSystem ι :=
  if (s.actors self).terminated then s.finish [] []
  else
    (s.set self
      { s.actors self with
        attachables := [], terminated := true, failState := reason }).finish
      ((s.actors self).attachables.map fun x =>
        ⟨self, .actorExited x reason⟩) []

def attach (self : ι) (ptr : Attachable ι) : LinkSystem ι :=
  if (s.actors self).terminated then
    s.finish [⟨self, .actorExited ptr (s.actors self).failState⟩] []
  else (s.set self ((s.actors self).attachImpl ptr)).finish [] []

/-- `attachable::actor_exited`; a functor only runs user code. -/
def actorExited (reason : Nat) :
    Attachable ι → List (Envelope ι)
  | .functor _ => []
  | .observe observed observer type priority =>
    if (s.actors observer).destroyed then []
    else
      [⟨if (s.actors observed).destroyed then none else some observed,
        observer, priority,
        match type with
        | .monitor => .downMsg observed reason
        | .link => .exitMsg observed reason⟩]

def perform : Notice ι → List (Envelope ι)
  | .actorExited x reason => s.actorExited reason x
  | .enqueue element => [element]

def Unreferenced (a : ι) : Prop :=
  ∀ call < s.calls, ∀ duty ∈ s.duties call, duty.keeps a = false

instance (s : LinkSystem ι) (a : ι) : Decidable (s.Unreferenced a) :=
  inferInstanceAs (Decidable (∀ call < s.calls, _))

/-- A call that is made on `self` needs `self` to exist.  Links are attached
and detached by the functions for links only. -/
def step : LinkAction ι → Option (LinkSystem ι)
  | .linkTo self other =>
    if (s.actors self).destroyed then none else some (s.linkTo self other)
  | .unlinkFrom self other =>
    if (s.actors self).destroyed then none
    else some (s.unlinkFrom self other)
  | .cleanup self reason =>
    if (s.actors self).destroyed then none
    else some (s.cleanup self reason)
  | .attach self ptr =>
    if (s.actors self).destroyed || ptr.isLink then none
    else some (s.attach self ptr)
  | .detach self what =>
    if (s.actors self).destroyed || what.type == .link then none
    else
      some ((s.set self ((s.actors self).detach what false)).finish [] [])
  | .proceed call =>
    match s.duties call with
    | [] => none
    | duty :: rest =>
      some
        { s with
          duties := Function.update s.duties call rest
          sent := s.sent ++
            (s.perform duty.notice).map fun letter => (call, letter) }
  -- The last strong reference to an actor that was not cleaned up yet is
  -- followed by its cleanup, so only a terminated actor is destroyed.
  | .destroy self =>
    if (s.actors self).terminated ∧ s.Unreferenced self then
      some (s.set self { s.actors self with destroyed := true })
    else none

end LinkSystem

end ActorFramework.Core
