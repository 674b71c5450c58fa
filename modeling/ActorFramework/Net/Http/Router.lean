import ActorFramework.Net.Http.V1

/-!
# The router of the HTTP server

The server passes on requests as it reads them, and does not wait for their
responses.  Handlers of the router respond at once or keep a promise for later,
and a response goes to the output as soon as it exists.
-/

namespace ActorFramework.Net.Http

open ActorFramework.Core
open Foundation List

def Status.notFound : Status := 404#16

def Status.internalServerError : Status := 500#16

namespace Router

structure Response where
  code : Status
  fields : List Field
  body : List Byte

/-- The calls `begin_header`, `add_header_field`, `end_header` and
`send_payload`. -/
def Response.write (res : Response) : List Byte :=
  V1.beginResponseHeader res.code ++ res.fields.flatMap V1.addHeaderField ++
    V1.endHeader ++ res.body

def sendResponse (code : Status) (contentType content : List Byte) :
    Response where
  code := code
  fields := [(ascii "Content-Type", contentType),
    (ascii "Content-Length", toString10 content.length)]
  body := content

/-- What the handler of a route does with the responder: it calls `respond`,
`to_request` or `to_promise`. -/
inductive Handling where
  | respond (res : Response)
  | lift
  | promise

/-- A request without response.  A lifted one has an entry in `pending_`, the
others are known to their promises only. -/
structure Pending where
  request : Nat
  lifted : Bool

/-- `consume` has what each route does with the request, if it takes it.  The
others are for the promise at a position: it has a response, or it is broken,
for a lifted one with the description of the error. -/
inductive Action where
  | consume (routes : List (Option Handling))
  | fulfill (pos : Nat) (res : Response)
  | fail (pos : Nat) (description : List Byte)
  | abort

end Router

open Router in
/-- Requests have numbers in the order in which they are read.  The output has
each response with the number of its request. -/
structure Router where
  received : Nat := 0
  pending : List Pending := []
  output : List (Nat × List Byte) := []

namespace Router

variable (s : Router)

def write (request : Nat) (res : Response) : Router :=
  { s with output := s.output ++ [(request, res.write)] }

def lift (lifted : Bool) : Router :=
  { s with pending := s.pending ++ [⟨s.received, lifted⟩] }

def notFound : Response :=
  sendResponse .notFound (ascii "text/plain") (ascii "Not found.")

def consume (routes : List (Option Handling)) : Router :=
  let s' : Router :=
    match routes.findSome? id with
    | some (.respond res) => s.write s.received res
    | some .lift => s.lift true
    | some .promise => s.lift false
    | none => s.write s.received notFound
  { s' with received := s.received + 1 }

def Pending.broken (p : Pending) (description : List Byte) : Response :=
  sendResponse .internalServerError (ascii "text/plain")
    (if p.lifted then description
      else ascii "Internal server error: broken responder promise.")

def complete (pos : Nat) (res : Pending → Response) :
    Option Router :=
  s.pending[pos]?.map fun p =>
    { s with pending := s.pending.eraseIdx pos }.write p.request (res p)

def step : Action → Option Router
  | .consume routes => some (s.consume routes)
  | .fulfill pos res => s.complete pos fun _ => res
  | .fail pos description => s.complete pos (·.broken description)
  | .abort => some { s with pending := s.pending.filter (!·.lifted) }

/-- The numbers of the requests in the order of their responses, where those of
pending requests come last. -/
def order : List Nat :=
  s.output.map Prod.fst ++ s.pending.map Pending.request

structure InOrder (s : Router) : Prop where
  order : s.order.Pairwise (· < ·)
  bound : ∀ n ∈ s.order, n < s.received

/-- Nothing is pending if a request is answered at once, and the promise of the
oldest request is the next one to be fulfilled. -/
def InTurn : Action → Prop
  | .consume routes =>
    match routes.findSome? id with
    | some .lift | some .promise => True
    | _ => s.pending = []
  | .fulfill pos _ | .fail pos _ => pos = 0
  | .abort => True

variable {s t : Router}

theorem InOrder.concat (h : s.InOrder)
    (horder : t.order = s.order ++ [s.received])
    (hrecv : t.received = s.received + 1) : t.InOrder where
  order := by
    rw [horder, pairwise_append]
    simpa using ⟨h.order, h.bound⟩
  bound := by
    have := h.bound
    simp only [horder, hrecv, mem_append, mem_singleton]
    grind

theorem complete_order {res : Pending → Response}
    (hstep : s.complete 0 res = some t) :
    t.order = s.order ∧ t.received = s.received := by
  cases hpend : s.pending with
  | nil => simp [complete, hpend] at hstep
  | cons p ps =>
    simp only [complete, hpend, getElem?_cons_zero, Option.map_some,
      Option.some.injEq] at hstep
    simp [← hstep, order, write, hpend]

theorem step_inOrder {a : Action} (h : s.InOrder) (hturn : s.InTurn a)
    (hstep : s.step a = some t) : t.InOrder := by
  have hsame : t.order.Sublist s.order → t.received = s.received →
      t.InOrder := fun horder hrecv =>
    ⟨h.order.sublist horder,
      fun n hn => hrecv ▸ h.bound n (horder.subset hn)⟩
  cases a with
  | consume routes =>
    cases hstep
    apply h.concat
    · simp only [InTurn] at hturn
      unfold consume
      generalize routes.findSome? id = handling at hturn ⊢
      rcases handling with _ | (_ | _ | _) <;> simp_all [order, write, lift]
    · rfl
  | fulfill pos res | fail pos description =>
    subst hturn
    obtain ⟨horder, hrecv⟩ := complete_order hstep
    exact hsame (by rw [horder]) hrecv
  | abort =>
    cases hstep
    exact hsame (.append (.refl _) (filter_sublist.map _)) rfl

/-- Responses are in the order of their requests, and none is ahead of the one
for an earlier request that is still pending. -/
theorem responses_in_order {as : List Action} {s : Router}
    (hturn : Along step InTurn {} as) (hrun : exec step {} as = some s) :
    (s.output.map Prod.fst).Pairwise (· < ·) ∧
      ∀ n ∈ s.output.map Prod.fst, ∀ p ∈ s.pending, n < p.request := by
  have h : s.InOrder := exec_invariant_along InOrder
    (fun _ _ _ => step_inOrder)
    ⟨.nil, by simp [order]⟩ hturn hrun
  obtain ⟨hout, -, hlt⟩ := List.pairwise_append.mp h.order
  exact ⟨hout, fun n hn p hp => hlt n hn _ (List.mem_map_of_mem hp)⟩

def pipelined : List Action :=
  [.consume [some .lift], .consume [none, some .promise],
    .fulfill 0 notFound, .fail 0 [], .consume [none]]

theorem responses_in_order_pipelined : ∃ s, exec step {} pipelined = some s ∧
    s.output.map Prod.fst = [0, 1, 2] ∧
    (s.output.map Prod.fst).Pairwise (· < ·) :=
  ⟨_, rfl, rfl, (@responses_in_order pipelined _
    ⟨trivial, trivial, rfl, rfl, rfl, trivial⟩ rfl).1⟩

/-- The first of two requests is lifted, and there is no route for the second
one. -/
theorem responses_out_of_order :
    (exec step {} [.consume [some .lift], .consume [none],
      .fulfill 0 notFound]).map (·.output.map Prod.fst) = some [1, 0] :=
  rfl

end Router
end ActorFramework.Net.Http
