import ActorFramework.Foundation.Transition

/-!
# Promises and futures

A promise and its futures share an `async_cell`, which counts its promises in
an atomic counter: the copy constructor adds to it and the destructor subtracts
from it, each in a step of its own.  Locked sections are one step.  The
callbacks that one takes out of the cell are run afterwards, one at a time.
-/

namespace ActorFramework.Async

variable {α : Type*}

inductive CellValue (α : Type*) where
  | none
  | value (v : α)
  | error (code : Nat)
  | brokenPromise

/-- A callback and the execution context that runs it; without a context the
thread that satisfies the cell runs it. -/
structure CellEvent where
  listener : Option Nat
  callback : Nat
  deriving DecidableEq

structure AsyncCell (α : Type*) where
  promises : Nat
  value : CellValue α
  events : List CellEvent

namespace AsyncCell

def initial : AsyncCell α := ⟨1, .none, []⟩

def subscribe (cell : AsyncCell α) (event : CellEvent) : AsyncCell α × Bool :=
  match cell.value with
  | .none => ({ cell with events := cell.events ++ [event] }, true)
  | _ => (cell, false)

/-- The locked section of `do_set`: the cell and the events to run. -/
def doSet (cell : AsyncCell α) (what : CellValue α) :
    Except String (AsyncCell α × List CellEvent) :=
  match cell.value with
  | .none => .ok ({ cell with value := what, events := [] }, cell.events)
  | _ => .error "promise already satisfied"

def breakPromise (cell : AsyncCell α) : AsyncCell α × List CellEvent :=
  match cell.value with
  | .none =>
    ({ cell with value := .brokenPromise, events := [] }, cell.events)
  | _ => (cell, [])

end AsyncCell

inductive HandlePc where
  | idle
  | copying (source : Nat)
  | setting (events : List CellEvent)
  | releasing
  | breaking
  | draining (events : List CellEvent)
  | gone
  deriving DecidableEq

structure PromiseHandle where
  cell : Option Nat
  pc : HandlePc

/-- The cells are numbered in the order of their construction, as are the
promise objects and the callbacks. -/
structure PromiseSystem (α : Type*) where
  cells : Nat → AsyncCell α
  created : Nat
  handles : List PromiseHandle
  subscribed : List Nat
  queue : List Nat
  ran : List Nat

inductive PromiseAction (α : Type*) where
  | construct
  | copy (source : Nat)
  | fetchAdd (h : Nat)
  | move (source : Nat)
  | moveAssign (target source : Nat)
  | setValue (h : Nat) (v : α)
  | setError (h : Nat) (code : Nat)
  | run (h : Nat)
  | leave (h : Nat)
  | destroy (h : Nat)
  | fetchSub (h : Nat)
  | breakPromise (h : Nat)
  | subscribe (c : Nat) (listener : Option Nat)
  | runScheduled (i : Nat)

namespace PromiseSystem

def initial : PromiseSystem α := ⟨fun _ => .initial, 0, [], [], [], []⟩

variable (s : PromiseSystem α)

def setHandle (h : Nat) (handle : PromiseHandle) :
    PromiseSystem α :=
  { s with handles := s.handles.set h handle }

def setCell (c : Nat) (cell : AsyncCell α) :
    PromiseSystem α :=
  { s with cells := Function.update s.cells c cell }

def Unread (h : Nat) : Prop :=
  ∀ handle ∈ s.handles, handle.pc ≠ .copying h

instance (s : PromiseSystem α) (h : Nat) : Decidable (s.Unread h) :=
  inferInstanceAs (Decidable (∀ handle ∈ s.handles, _))

def acquire (h : Nat) : Option (Option Nat) :=
  match s.handles[h]? with
  | some ⟨cell, .idle⟩ => if s.Unread h then some cell else none
  | _ => none

/-- `listener->schedule(callback)` or `callback.run()`. -/
def dispatch (event : CellEvent) : PromiseSystem α :=
  match event.listener with
  | some _ => { s with queue := s.queue ++ [event.callback] }
  | none => { s with ran := s.ran ++ [event.callback] }

def set (h : Nat) (what : CellValue α) :
    Option (PromiseSystem α) :=
  match s.acquire h with
  | none => none
  | some none => some s
  | some (some c) =>
    match (s.cells c).doSet what with
    -- The exception leaves the pointer as it is.
    | .error _ => some s
    | .ok (cell, events) =>
      some ((s.setCell c cell).setHandle h ⟨some c, .setting events⟩)

def destroy (h : Nat) : Option (PromiseSystem α) :=
  match s.acquire h with
  | none => none
  | some none => some (s.setHandle h ⟨none, .gone⟩)
  | some (some c) =>
    if (s.cells c).promises = 1 then
      some (s.setHandle h ⟨some c, .breaking⟩)
    else some (s.setHandle h ⟨some c, .releasing⟩)

def fetchSub (h : Nat) : Option (PromiseSystem α) :=
  match s.handles[h]? with
  | some ⟨some c, .releasing⟩ =>
    let left :=
      s.setCell c { s.cells c with promises := (s.cells c).promises - 1 }
    if (s.cells c).promises = 1 then
      some (left.setHandle h ⟨some c, .breaking⟩)
    else some (left.setHandle h ⟨none, .gone⟩)
  | _ => none

def enterBreak (h : Nat) : Option (PromiseSystem α) :=
  match s.handles[h]? with
  | some ⟨some c, .breaking⟩ =>
    some ((s.setCell c (s.cells c).breakPromise.1).setHandle h
      ⟨some c, .draining (s.cells c).breakPromise.2⟩)
  | _ => none

def runEvent (h : Nat) : Option (PromiseSystem α) :=
  match s.handles[h]? with
  | some ⟨cell, .setting (event :: events)⟩ =>
    some ((s.dispatch event).setHandle h ⟨cell, .setting events⟩)
  | some ⟨cell, .draining (event :: events)⟩ =>
    some ((s.dispatch event).setHandle h ⟨cell, .draining events⟩)
  | _ => none

def leave (h : Nat) : Option (PromiseSystem α) :=
  match s.handles[h]? with
  | some ⟨_, .setting []⟩ => some (s.setHandle h ⟨none, .idle⟩)
  | some ⟨_, .draining []⟩ => some (s.setHandle h ⟨none, .gone⟩)
  | _ => none

/-- `bound_future::then` subscribes for a context and schedules the callback
there if the cell has a value already; `future::get` subscribes without one
and reads the value in that case. -/
def subscribe (c : Nat) (listener : Option Nat) :
    PromiseSystem α :=
  let callback := s.subscribed.length
  match (s.cells c).subscribe ⟨listener, callback⟩, listener with
  | (cell, true), _ =>
    { s.setCell c cell with subscribed := s.subscribed ++ [c] }
  | (_, false), some _ =>
    { s with
      subscribed := s.subscribed ++ [c], queue := s.queue ++ [callback] }
  | (_, false), none => s

def step :
    PromiseAction α → Option (PromiseSystem α)
  | .construct =>
    some
      { s with
        created := s.created + 1
        handles := s.handles ++ [⟨some s.created, .idle⟩] }
  | .copy source =>
    match s.handles[source]? with
    | some ⟨some c, .idle⟩ =>
      some { s with handles := s.handles ++ [⟨some c, .copying source⟩] }
    | _ => none
  | .fetchAdd h =>
    match s.handles[h]? with
    | some ⟨some c, .copying _⟩ =>
      some ((s.setCell c
        { s.cells c with promises := (s.cells c).promises + 1 }).setHandle h
          ⟨some c, .idle⟩)
    | _ => none
  | .move source =>
    (s.acquire source).map fun cell =>
      { s with
        handles := s.handles.set source ⟨none, .idle⟩ ++ [⟨cell, .idle⟩] }
  -- The pointer of the target is dropped, its cell keeps counting it.
  | .moveAssign target source =>
    match s.acquire target, s.acquire source with
    | some _, some cell =>
      if target = source then some s
      else
        some ((s.setHandle source ⟨none, .idle⟩).setHandle target ⟨cell, .idle⟩)
    | _, _ => none
  | .setValue h v => s.set h (.value v)
  | .setError h code => s.set h (.error code)
  | .run h => s.runEvent h
  | .leave h => s.leave h
  | .destroy h => s.destroy h
  | .fetchSub h => s.fetchSub h
  | .breakPromise h => s.enterBreak h
  | .subscribe c listener =>
    if c < s.created then some (s.subscribe c listener) else none
  | .runScheduled i =>
    match s.queue[i]? with
    | none => none
    | some callback =>
      some
        { s with
          queue := s.queue.eraseIdx i, ran := s.ran ++ [callback] }

/-- `operator=(const promise&)` is `*this = promise{other}`; `tmp` is the
number the temporary object gets. -/
def copyAssign (target source tmp : Nat) : List (PromiseAction α) :=
  if target = source then []
  else
    [.copy source, .fetchAdd tmp, .moveAssign target tmp, .destroy tmp]

end PromiseSystem

end ActorFramework.Async
