import ActorFramework.Foundation.Counting
import ActorFramework.Foundation.Table
import ActorFramework.Foundation.Transition

/-!
# The memory actor

`memory_actor` lends the memory of CUDA devices to clients, who return it with
the destructors and assignments of `mem_token` objects.  A run is any sequence
of requests, operations on tokens and release messages that reach the actor.
-/

namespace ActorFramework.Cuda

open Foundation List

abbrev Release := Int × Nat

structure MemToken where
  memoryBytes : Nat := 0
  deviceNumber : Int := -1
  /-- Whether `memory_actor_` is a valid handle. -/
  memoryActor : Bool := false
  deriving DecidableEq

namespace MemToken

def content (t : MemToken) : Release := (t.deviceNumber, t.memoryBytes)

def release (t : MemToken) : List Release :=
  if 0 < t.memoryBytes ∧ t.memoryActor then [t.content] else []

def copied (t : MemToken) : MemToken := { t with memoryBytes := 0 }

def moved (t : MemToken) : MemToken :=
  { t with memoryBytes := 0, memoryActor := false }

end MemToken

structure MemoryRequestToken where
  size : Nat
  deviceNumber : Int
  replyActor : Nat
  deriving DecidableEq

structure Grant where
  token : MemToken
  replyActor : Nat
  available : Nat

structure DeviceMemory where
  available : Nat
  requests : List MemoryRequestToken := []
  deriving DecidableEq

namespace DeviceMemory

def onRequest (m : DeviceMemory) (token : MemoryRequestToken) :
    DeviceMemory × List Grant :=
  if token.size ≤ m.available then
    ({ m with available := m.available - token.size },
      [⟨⟨token.size, token.deviceNumber, true⟩, token.replyActor,
        m.available⟩])
  else ({ m with requests := m.requests ++ [token] }, [])

def grantQueued (device : Int) :
    Nat → List MemoryRequestToken → DeviceMemory × List Grant
  | available, [] => (⟨available, []⟩, [])
  | available, front :: q =>
    if front.size ≤ available then
      let r := grantQueued device (available - front.size) q
      (r.1, ⟨⟨front.size, device, true⟩, front.replyActor, available⟩ :: r.2)
    else (⟨available, front :: q⟩, [])

/-- The handler of a release message; the counter is a `size_t`. -/
def onRelease (device : Int) (bytes : Nat) (m : DeviceMemory) :
    DeviceMemory × List Grant :=
  grantQueued device ((m.available + bytes) % 2 ^ 64) m.requests

structure Serves (device : Int) (total : Nat)
    (r : DeviceMemory × List Grant) : Prop where
  balance : r.1.available + (r.2.map (·.token.memoryBytes)).sum = total
  device : ∀ g ∈ r.2, g.token.deviceNumber = device
  fits : ∀ g ∈ r.2, g.token.memoryActor = true ∧
    g.token.memoryBytes ≤ g.available

theorem serves_grantQueued (device : Int) (available : Nat)
    (q : List MemoryRequestToken) :
    Serves device available (grantQueued device available q) := by
  induction q generalizing available with
  | nil => constructor <;> simp [grantQueued]
  | cons front q ih =>
    unfold grantQueued
    split_ifs with hfits
    · have hrest := ih (available - front.size)
      constructor
      · have := hrest.balance
        simp only [map_cons, sum_cons]
        omega
      · exact forall_mem_cons.mpr ⟨rfl, hrest.device⟩
      · exact forall_mem_cons.mpr ⟨⟨rfl, hfits⟩, hrest.fits⟩
    · constructor <;> simp

end DeviceMemory

/-- The actor, the tokens of clients and of messages, and the release messages
on their way; what was granted and which releases were handled is recorded. -/
structure System where
  devices : List DeviceMemory
  tokens : List MemToken := []
  transit : List Release := []
  granted : List Grant := []
  handled : List Release := []

inductive Action where
  | request (token : MemoryRequestToken)
  | construct
  | copyConstruct (other : Nat)
  | moveConstruct (other : Nat)
  | copyAssign (this other : Nat)
  | moveAssign (this other : Nat)
  | destroy (token : Nat)
  | handleRelease (message : Nat)

namespace System

structure Initial where
  bytes : List Nat
  bounded : ∀ d, bytes.getD d 0 < 2 ^ 64

def init (initial : Initial) : System :=
  { devices := initial.bytes.map fun bytes => { available := bytes } }

variable (s : System)

/-- Handlers ignore messages with an invalid device number. -/
def deliver (device : Int)
    (handler : DeviceMemory → DeviceMemory × List Grant) : System :=
  match device with
  | .negSucc _ => s
  | .ofNat d =>
    match s.devices[d]? with
    | none => s
    | some m =>
      { s with
        devices := s.devices.set d (handler m).1
        tokens := s.tokens ++ (handler m).2.map (·.token)
        granted := s.granted ++ (handler m).2 }

def construct (left : MemToken → MemToken) (other : Nat) :
    Option System :=
  s.tokens[other]?.map fun source =>
    { s with tokens := s.tokens.set other (left source) ++ [source] }

def assign (left : MemToken → MemToken) (this other : Nat) :
    Option System :=
  s.tokens[this]?.bind fun target => s.tokens[other]?.map fun source =>
    if this = other then s else
      { s with
        tokens := (s.tokens.set this source).set other (left source)
        transit := s.transit ++ target.release }

def step : Action → Option System
  | .request token => some (s.deliver token.deviceNumber (·.onRequest token))
  | .construct => some { s with tokens := s.tokens ++ [{}] }
  | .copyConstruct other => s.construct MemToken.copied other
  | .moveConstruct other => s.construct MemToken.moved other
  | .copyAssign this other => s.assign MemToken.copied this other
  | .moveAssign this other => s.assign MemToken.moved this other
  | .destroy token =>
    s.tokens[token]?.map fun t =>
      { s with
        tokens := s.tokens.eraseIdx token
        transit := s.transit ++ t.release }
  | .handleRelease message =>
    s.transit[message]?.map fun m =>
      { s with
        transit := s.transit.eraseIdx message
        handled := s.handled ++ [m] }.deliver m.1
          (DeviceMemory.onRelease m.1 m.2)

def bytesOn (device : Int) (m : Release) : Nat :=
  if m.1 = device then m.2 else 0

@[simp] theorem bytesOn_zero (device d : Int) : bytesOn device (d, 0) = 0 :=
  ite_self 0

def weigh (w : Release → Nat) : Nat :=
  (s.tokens.map (w ·.content)).sum + (s.transit.map w).sum +
    (s.handled.map w).sum

/-- The books of the system, when `back` is still to be added to the counter
of a device. -/
structure Books (initial : Initial) (back : Release) (s : System) : Prop where
  devices : s.devices.length = initial.bytes.length
  account : ∀ w : Release → Nat, (∀ d, w (d, 0) = 0) →
    (s.granted.map (w ·.token.content)).sum = s.weigh w
  sound : ∀ t ∈ s.tokens, 0 < t.memoryBytes → t.memoryActor = true
  fits : ∀ g ∈ s.granted, g.token.memoryBytes ≤ g.available
  balance : ∀ (d : Nat) m, s.devices[d]? = some m →
    m.available + bytesOn d back +
        (s.granted.map (bytesOn d ·.token.content)).sum =
      initial.bytes.getD d 0 + (s.handled.map (bytesOn d)).sum

theorem books_init (initial : Initial) :
    Books initial (0, 0) (init initial) where
  devices := by simp [init]
  account w hw := by simp [init, weigh]
  sound := by simp [init]
  fits := by simp [init]
  balance d m hm := by
    simp only [init, getElem?_map, Option.map_eq_some_iff] at hm
    obtain ⟨bytes, hbytes, rfl⟩ := hm
    simp [init, bytesOn, hbytes]

variable {initial : Initial} {back : Release} {s : System}

theorem sum_release {w : Release → Nat} (hw : ∀ d, w (d, 0) = 0)
    {t : MemToken} (ht : 0 < t.memoryBytes → t.memoryActor = true) :
    (t.release.map w).sum = w t.content := by
  unfold MemToken.release
  split
  · simp
  · have hzero : t.memoryBytes = 0 := by grind
    simp [MemToken.content, hzero, hw]

theorem Books.client (h : Books initial back s) (tokens : List MemToken)
    (sent : List Release)
    (hsound : ∀ t ∈ tokens, 0 < t.memoryBytes → t.memoryActor = true)
    (hweigh : ∀ w : Release → Nat, (∀ d, w (d, 0) = 0) →
      (tokens.map (w ·.content)).sum + (sent.map w).sum =
        (s.tokens.map (w ·.content)).sum) :
    Books initial back
      { s with tokens := tokens, transit := s.transit ++ sent } where
  devices := h.devices
  account w hw := by
    have hacc := h.account w hw
    have hsame := hweigh w hw
    simp only [weigh, map_append, sum_append] at hacc ⊢
    omega
  sound := hsound
  fits := h.fits
  balance := h.balance

variable {device : Int} {t : System} {left : MemToken → MemToken} {other : Nat}

theorem sum_bytesOn {total : Nat} {r : DeviceMemory × List Grant}
    (h : DeviceMemory.Serves device total r) (d : Int) :
    (r.2.map (bytesOn d ·.token.content)).sum =
      if device = d then (r.2.map (·.token.memoryBytes)).sum else 0 := by
  split_ifs with hd
  · refine congrArg List.sum (map_congr_left fun g hg => ?_)
    exact if_pos ((h.device g hg).trans hd)
  · refine sum_eq_zero fun x hx => ?_
    obtain ⟨g, hg, rfl⟩ := mem_map.mp hx
    exact if_neg fun heq => hd ((h.device g hg).symm.trans heq)

theorem deliver_cases (s : System) (device : Int)
    (handler : DeviceMemory → DeviceMemory × List Grant) :
    (∀ d : Nat, device = d → s.devices[d]? = none) ∧
        s.deliver device handler = s ∨
      ∃ (d : Nat) (m : DeviceMemory), device = d ∧ s.devices[d]? = some m ∧
        s.deliver device handler =
          { s with
            devices := s.devices.set d (handler m).1
            tokens := s.tokens ++ (handler m).2.map (·.token)
            granted := s.granted ++ (handler m).2 } := by
  unfold System.deliver
  split
  · exact .inl ⟨nofun, rfl⟩
  · rename_i d
    split
    · rename_i hnone
      refine .inl ⟨fun d' hd => ?_, rfl⟩
      cases hd
      exact hnone
    · rename_i m hm
      exact .inr ⟨d, m, rfl, hm, rfl⟩

section

variable (h : Books initial back s)
include h

theorem Books.deliver {handler : DeviceMemory → DeviceMemory × List Grant}
    (hback : ∀ d, d ≠ device → bytesOn d back = 0)
    (hserves : ∀ (d : Nat) m, device = d → s.devices[d]? = some m →
      DeviceMemory.Serves device (m.available + bytesOn d back) (handler m)) :
    Books initial (0, 0) (s.deliver device handler) := by
  rcases s.deliver_cases device handler with
    ⟨hnone, hsame⟩ | ⟨d, m, rfl, hm, hnew⟩
  · rw [hsame]
    refine { h with balance := fun d m hm => ?_ }
    have hne : (d : Int) ≠ device := by
      rintro rfl
      rw [hnone d rfl] at hm
      cases hm
    simpa [hback d hne] using h.balance d m hm
  · have hserve := hserves d m rfl hm
    rw [hnew]
    constructor
    · rw [length_set]
      exact h.devices
    · intro w hw
      have hacc := h.account w hw
      simp only [weigh, map_append, sum_append, map_map,
        Function.comp_def] at hacc ⊢
      omega
    · intro t ht
      rcases mem_append.mp ht with hold | hnew
      · exact h.sound t hold
      · obtain ⟨g, hg, rfl⟩ := mem_map.mp hnew
        exact fun _ => (hserve.fits g hg).1
    · intro g hg
      rcases mem_append.mp hg with hold | hnew
      · exact h.fits g hold
      · exact (hserve.fits g hnew).2
    · intro d' m' hm'
      have hsum := sum_bytesOn hserve d'
      simp only [map_append, sum_append, bytesOn_zero]
      rcases getElem?_set_cases hm' with ⟨rfl, rfl⟩ | ⟨hne, hother⟩
      · have hbal := h.balance d' m hm
        have hserved := hserve.balance
        rw [if_pos rfl] at hsum
        omega
      · have hne' : (d' : Int) ≠ d := fun heq => hne (Int.ofNat.inj heq)
        have hbal := h.balance d' m' hother
        rw [hback d' hne'] at hbal
        rw [if_neg hne'.symm] at hsum
        omega

theorem Books.construct (hleft : ∀ t, (left t).memoryBytes = 0)
    (hstep : s.construct left other = some t) : Books initial back t := by
  obtain ⟨source, hsrc, rfl⟩ := Option.map_eq_some_iff.mp hstep
  have hnew := h.client (s.tokens.set other (left source) ++ [source]) [] ?_ ?_
  · rwa [append_nil] at hnew
  · grind [h.sound, mem_or_eq_of_mem_set]
  · intro w hw
    have hset := sum_map_set (w ·.content) hsrc (left source)
    have hzero : w (left source).content = 0 := by
      rw [MemToken.content, hleft, hw]
    simp only [map_append, sum_append, map_cons, map_nil, sum_cons, sum_nil]
    omega

theorem Books.assign (hleft : ∀ t, (left t).memoryBytes = 0) {this : Nat}
    (hstep : s.assign left this other = some t) : Books initial back t := by
  obtain ⟨target, htarget, hstep⟩ := Option.bind_eq_some_iff.mp hstep
  obtain ⟨source, hsrc, rfl⟩ := Option.map_eq_some_iff.mp hstep
  split_ifs with hne
  · exact h
  · refine h.client _ _ ?_ ?_
    · grind [h.sound, mem_or_eq_of_mem_set]
    · intro w hw
      have hfirst := sum_map_set (w ·.content) htarget source
      have hsrc' : (s.tokens.set this source)[other]? = some source :=
        (getElem?_set_ne hne).trans hsrc
      have hsecond := sum_map_set (w ·.content) hsrc' (left source)
      have hzero : w (left source).content = 0 := by
        rw [MemToken.content, hleft, hw]
      rw [sum_release hw (h.sound target (mem_of_getElem? htarget))]
      omega

theorem Books.destroy {token : Nat} {t : MemToken}
    (ht : s.tokens[token]? = some t) :
    Books initial back
      { s with
        tokens := s.tokens.eraseIdx token
        transit := s.transit ++ t.release } := by
  refine h.client _ _ ?_ ?_
  · exact fun u hu => h.sound u (mem_of_mem_eraseIdx hu)
  · intro w hw
    rw [sum_release hw (h.sound t (mem_of_getElem? ht))]
    exact sum_map_eraseIdx _ ht

end

theorem Books.handleRelease (h : Books initial (0, 0) s) {message : Nat}
    {m : Release} (hm : s.transit[message]? = some m) :
    Books initial (0, 0)
      ({ s with
        transit := s.transit.eraseIdx message
        handled := s.handled ++ [m] }.deliver m.1
          (DeviceMemory.onRelease m.1 m.2)) := by
  have herase (w : Release → Nat) := sum_map_eraseIdx w hm
  have hpend : Books initial m
      { s with
        transit := s.transit.eraseIdx message
        handled := s.handled ++ [m] } := by
    constructor
    · exact h.devices
    · intro w hw
      have hacc := h.account w hw
      have hleft := herase w
      simp only [weigh, map_append, sum_append, map_cons,
        map_nil, sum_cons, sum_nil] at hacc ⊢
      omega
    · exact h.sound
    · exact h.fits
    · intro d dev hdev
      have hbal := h.balance d dev hdev
      simp only [map_append, sum_append, map_cons, map_nil, sum_cons, sum_nil]
      rw [bytesOn_zero] at hbal
      omega
  refine hpend.deliver (fun d hd => if_neg hd.symm) ?_
  intro d dev hd hdev
  -- the message is part of what was granted, so the sum does not wrap
  have hbound := initial.bounded d
  have hbal := h.balance d dev hdev
  have hacc := h.account (bytesOn d) (bytesOn_zero d)
  have hleft := herase (bytesOn d)
  have hfits : (dev.available + m.2) % 2 ^ 64 =
      dev.available + bytesOn d m := by
    have hm : bytesOn d m = m.2 := if_pos hd
    simp only [weigh] at hacc
    rw [hm] at hleft ⊢
    refine Nat.mod_eq_of_lt ?_
    omega
  rw [← hfits]
  exact DeviceMemory.serves_grantQueued m.1 _ _

theorem step_books {a : Action} (h : Books initial (0, 0) s)
    (hstep : step s a = some t) : Books initial (0, 0) t := by
  cases a with
  | request token =>
    cases hstep
    refine h.deliver (fun d _ => bytesOn_zero d 0) fun d m _ _ => ?_
    rw [bytesOn_zero]
    unfold DeviceMemory.onRequest
    split
    · constructor <;> simp <;> omega
    · constructor <;> simp
  | construct =>
    cases hstep
    have hnew := h.client (s.tokens ++ [({} : MemToken)]) [] ?_ ?_
    · rwa [append_nil] at hnew
    · simpa [or_imp, forall_and] using h.sound
    · intro w hw
      simp [MemToken.content, hw]
  | copyConstruct other | moveConstruct other =>
    exact h.construct (fun _ => rfl) hstep
  | copyAssign this other | moveAssign this other =>
    exact h.assign (fun _ => rfl) hstep
  | destroy token =>
    obtain ⟨t, ht, rfl⟩ := Option.map_eq_some_iff.mp hstep
    exact h.destroy ht
  | handleRelease message =>
    obtain ⟨m, hm, rfl⟩ := Option.map_eq_some_iff.mp hstep
    exact h.handleRelease hm

/-- The amount `r` has been granted as often as tokens hold it and releases
return it. -/
theorem memory_conserved {actions : List Action}
    (hrun : exec step (init initial) actions = some s) :
    (∀ (d : Nat) bytes, initial.bytes[d]? = some bytes →
      ∃ m, s.devices[d]? = some m ∧
        m.available + (s.tokens.map (bytesOn d ·.content)).sum +
          (s.transit.map (bytesOn d)).sum = bytes) ∧
    (∀ r : Release, 0 < r.2 →
      s.granted.countP (·.token.content = r) =
        s.tokens.countP (·.content = r) +
          (s.transit ++ s.handled).countP (· = r)) ∧
    ∀ g ∈ s.granted, g.token.memoryBytes ≤ g.available := by
  have hbooks := exec_invariant (Books initial (0, 0))
    (fun _ _ _ => step_books) (books_init initial) hrun
  refine ⟨?_, ?_, hbooks.fits⟩
  · intro d bytes hbytes
    have hd : d < s.devices.length := by
      rw [hbooks.devices]
      exact (List.getElem?_eq_some_iff.mp hbytes).1
    refine ⟨s.devices[d], List.getElem?_eq_getElem hd, ?_⟩
    have hbalance := hbooks.balance d _ (List.getElem?_eq_getElem hd)
    have haccount := hbooks.account (bytesOn d) (bytesOn_zero d)
    rw [List.getD, hbytes, Option.getD_some, bytesOn_zero] at hbalance
    simp only [weigh] at haccount
    omega
  · intro r hr
    have haccount := hbooks.account (fun m => (decide (m = r)).toNat) ?_
    · simp only [weigh, ← countP_eq_sum] at haccount
      rw [haccount, List.countP_append, Nat.add_assoc]
    · intro d
      have hne : (d, 0) ≠ r := by grind
      simp [hne]

def oneDevice : Initial := ⟨[10], fun d => by cases d <;> simp⟩

def lateGrant : List Action :=
  [.request ⟨6, 0, 1⟩, .request ⟨8, 0, 2⟩, .copyConstruct 0, .destroy 0,
    .destroy 0, .handleRelease 0]

theorem memory_conserved_late_grant :
    ∃ s, exec step (init oneDevice) lateGrant = some s ∧
      s.devices = [⟨2, []⟩] ∧ s.tokens = [⟨8, 0, true⟩] ∧
      ∀ g ∈ s.granted, g.token.memoryBytes ≤ g.available := by
  have hlast : (exec step (init oneDevice) lateGrant).map
      (fun s => (s.devices, s.tokens)) =
        some ([⟨2, []⟩], [⟨8, 0, true⟩]) := by
    decide +kernel
  obtain ⟨s, hrun, hs⟩ := Option.map_eq_some_iff.mp hlast
  obtain ⟨hdevices, htokens⟩ := Prod.mk.inj hs
  exact ⟨s, hrun, hdevices, htokens, (memory_conserved hrun).2.2⟩

def asked (token : MemoryRequestToken) : Nat × Nat :=
  (token.size, token.replyActor)

def given (g : Grant) : Nat × Nat := (g.token.memoryBytes, g.replyActor)

/-- The requests that were not granted on arrival, and the grants other than
those to the request that just arrived. -/
structure Log where
  waited : List MemoryRequestToken := []
  late : List Grant := []

def observe (l : System × Log) (a : Action) : Option (System × Log) :=
  (l.1.step a).map fun t =>
    let new := t.granted.drop l.1.granted.length
    (t, match a with
      | .request token =>
        if new.map given = [asked token] then l.2
        else ⟨l.2.waited ++ [token], l.2.late ++ new⟩
      | _ => { l.2 with late := l.2.late ++ new })

theorem exec_observe {actions : List Action} (log : Log)
    (hrun : exec step s actions = some t) :
    ∃ log', exec observe (s, log) actions = some (t, log') := by
  induction actions generalizing s log with
  | nil =>
    cases hrun
    exact ⟨log, rfl⟩
  | cons a actions ih =>
    obtain ⟨u, hstep, hrest⟩ := exec_cons_eq_some.mp hrun
    obtain ⟨log', hlog'⟩ := ih _ hrest
    refine ⟨log', exec_cons_eq_some.mpr ⟨_, ?_, hlog'⟩⟩
    rw [observe, hstep]
    rfl

theorem grantQueued_order (device : Int) (available : Nat)
    (q : List MemoryRequestToken) :
    q.map asked =
      (DeviceMemory.grantQueued device available q).2.map given ++
        (DeviceMemory.grantQueued device available q).1.requests.map asked := by
  induction q generalizing available with
  | nil => rfl
  | cons front q ih =>
    unfold DeviceMemory.grantQueued
    split
    · simpa [asked, given] using ih (available - front.size)
    · rfl

/-- For each device, the requests that had to wait are those that were granted
later and those that still wait, in this order. -/
def InOrder (l : System × Log) : Prop :=
  ∀ (d : Nat) m, l.1.devices[d]? = some m →
    (l.2.waited.filter (·.deviceNumber = (d : Int))).map asked =
      (l.2.late.filter (·.token.deviceNumber = (d : Int))).map given ++
        m.requests.map asked

variable {log : Log}

theorem InOrder.keeps (h : InOrder (s, log)) (hdevices : t.devices = s.devices)
    (hgranted : t.granted = s.granted) :
    InOrder (t, { log with
      late := log.late ++ t.granted.drop s.granted.length }) := by
  intro d m hm
  rw [hdevices] at hm
  simpa [hgranted] using h d m hm

variable {l : System × Log}

theorem InOrder.request (h : InOrder (s, log)) {token : MemoryRequestToken}
    (hstep : observe (s, log) (.request token) = some l) : InOrder l := by
  cases hstep
  intro d m hm
  simp only at hm ⊢
  rcases s.deliver_cases token.deviceNumber (·.onRequest token) with
    ⟨hnone, hsame⟩ | ⟨d', m', hdevice, hm', hnew⟩
  · -- a request for a device that does not exist is in no queue
    rw [hsame] at hm ⊢
    have hne : token.deviceNumber ≠ d := fun heq => by
      rw [hnone d heq] at hm
      cases hm
    simpa [hne] using h d m hm
  · rw [hnew] at hm ⊢
    by_cases hfits : token.size ≤ m'.available
    · simp only [DeviceMemory.onRequest, hfits, if_true] at hm ⊢
      rcases getElem?_set_cases hm with ⟨rfl, rfl⟩ | ⟨-, hother⟩
      · simpa [asked, given] using h d m' hm'
      · simpa [asked, given] using h d m hother
    · simp only [DeviceMemory.onRequest, hfits, if_false] at hm ⊢
      rcases getElem?_set_cases hm with ⟨rfl, rfl⟩ | ⟨hne, hother⟩
      · have hqueue := h d m' hm'
        simp_all
      · have hne' : (d' : Int) ≠ d := fun heq => hne (Int.ofNat.inj heq).symm
        simpa [hdevice, hne'] using h d m hother

theorem InOrder.handleRelease (h : InOrder (s, log)) {message : Nat}
    (hstep : observe (s, log) (.handleRelease message) = some l) :
    InOrder l := by
  obtain ⟨t, ht, rfl⟩ := Option.map_eq_some_iff.mp hstep
  obtain ⟨r, -, rfl⟩ := Option.map_eq_some_iff.mp ht
  intro d m hm
  simp only at hm ⊢
  rcases deliver_cases _ r.1 (DeviceMemory.onRelease r.1 r.2) with
    ⟨-, hsame⟩ | ⟨d', m', hdevice, hm', hnew⟩
  · rw [hsame] at hm ⊢
    simpa using h d m hm
  · rw [hnew] at hm ⊢
    have hgrants : ∀ g ∈ (m'.onRelease r.1 r.2).2, g.token.deviceNumber = d' :=
      fun g hg => hdevice ▸ (DeviceMemory.serves_grantQueued ..).device g hg
    simp only [drop_left, filter_append, map_append]
    rcases getElem?_set_cases hm with ⟨rfl, rfl⟩ | ⟨hne, hother⟩
    · rw [filter_eq_self.mpr fun g hg => decide_eq_true (hgrants g hg),
        h d m' hm', append_assoc]
      exact congrArg _ (grantQueued_order ..)
    · have hnone : ∀ g ∈ (m'.onRelease r.1 r.2).2,
          ¬ decide (g.token.deviceNumber = (d : Int)) = true := by
        intro g hg
        rw [hgrants g hg, decide_eq_true_iff]
        exact fun heq => hne (Int.ofNat.inj heq).symm
      rw [filter_eq_nil_iff.mpr hnone]
      simpa using h d m hother

theorem step_inOrder (l : System × Log) (a : Action) (l' : System × Log)
    (h : InOrder l) (hstep : observe l a = some l') : InOrder l' := by
  cases a with
  | request token => exact h.request hstep
  | handleRelease message => exact h.handleRelease hstep
  | construct =>
    cases hstep
    exact h.keeps rfl rfl
  | copyConstruct other | moveConstruct other | destroy other =>
    obtain ⟨t, ht, rfl⟩ := Option.map_eq_some_iff.mp hstep
    obtain ⟨source, -, rfl⟩ := Option.map_eq_some_iff.mp ht
    exact h.keeps rfl rfl
  | copyAssign this other | moveAssign this other =>
    obtain ⟨t, ht, rfl⟩ := Option.map_eq_some_iff.mp hstep
    obtain ⟨target, -, ht⟩ := Option.bind_eq_some_iff.mp ht
    obtain ⟨source, -, rfl⟩ := Option.map_eq_some_iff.mp ht
    apply h.keeps <;> split <;> rfl

/-- Whoever has to wait is served in order of arrival: only a request that fits
when it arrives is granted before requests that wait. -/
theorem waiting_requests_in_order {actions : List Action}
    (hrun : exec step (init initial) actions = some s) :
    ∃ log, exec observe (init initial, {}) actions = some (s, log) ∧
      ∀ (d : Nat) m, s.devices[d]? = some m →
        (log.waited.filter (·.deviceNumber = (d : Int))).map asked =
          (log.late.filter (·.token.deviceNumber = (d : Int))).map given ++
            m.requests.map asked := by
  obtain ⟨log, hlog⟩ := exec_observe {} hrun
  have hinit : InOrder (init initial, {}) := by
    intro d m hm
    simp only [init, List.getElem?_map, Option.map_eq_some_iff] at hm
    obtain ⟨bytes, -, rfl⟩ := hm
    rfl
  exact ⟨log, hlog, exec_invariant InOrder step_inOrder hinit hlog⟩

theorem waiting_requests_in_order_late_grant :
    ∃ s log, exec observe (init oneDevice, {}) lateGrant = some (s, log) ∧
      (log.waited.filter (·.deviceNumber = 0)).map asked =
        (log.late.filter (·.token.deviceNumber = 0)).map given := by
  have hlast : (exec step (init oneDevice) lateGrant).map (·.devices) =
      some [⟨2, []⟩] := by
    decide +kernel
  obtain ⟨s, hrun, hdevices⟩ := Option.map_eq_some_iff.mp hlast
  obtain ⟨log, hlog, horder⟩ := waiting_requests_in_order hrun
  have hfirst := horder 0 ⟨2, []⟩ (by rw [hdevices]; rfl)
  exact ⟨s, log, hlog, hfirst.trans (List.append_nil _)⟩

theorem small_request_overtakes :
    (exec step (init oneDevice)
        [.request ⟨6, 0, 1⟩, .request ⟨8, 0, 2⟩, .request ⟨3, 0, 3⟩]).map
      (fun s => (s.granted.map (·.replyActor), s.devices)) =
        some ([1, 3], [⟨1, [⟨8, 0, 2⟩]⟩]) := by
  decide +kernel

end System

end ActorFramework.Cuda
