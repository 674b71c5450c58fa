import ActorFramework.Net.WebSocket.Books

/-!
# What a sequence of frames means

The meaning of frames knows nothing about bytes, headers and reads.  A message
is the concatenation of its fragments, and a ping asks for a pong with the same
payload.  Text has to be UTF-8; after a text message that is not, the frames
have no meaning.
-/

namespace ActorFramework.Net.WebSocket

open ActorFramework.Core (Byte)
open Net.Rfc3629 (Octets Extendable)
open Net.Rfc6455 List

def UpperCall.frames : UpperCall → Nat
  | .suspendReading => 0
  | .requestMessages => 0
  | .endTextMessage _ => 1
  | .endBinaryMessage _ => 1
  | .shutdown _ _ => 1

namespace Config

def key (cfg : Config) (drawn : Nat) : BitVec 32 :=
  if cfg.maskOutgoingFrames then cfg.keys drawn else 0#32

def draws (cfg : Config) (frames : Nat) : Nat :=
  if cfg.maskOutgoingFrames then frames else 0

end Config

/-- The message that is not complete yet, and what the framing has to do for
the frames so far. -/
structure Meaning where
  opcode : Option Opcode := none
  payload : List Byte := []
  outputs : List Output := []
  drawn : Nat := 0
  broken : Bool := false

/-- A text message that is complete is UTF-8, and one that is not could become
UTF-8. -/
def Acceptable (opcode : Opcode) (fin : Bool) (payload : List Byte) : Prop :=
  opcode = .text → if fin then Octets payload else Extendable payload

instance (opcode : Opcode) (fin : Bool) (payload : List Byte) :
    Decidable (Acceptable opcode fin payload) :=
  inferInstanceAs (Decidable (_ → _))

def Message.ofOpcode (opcode : Opcode) (payload : List Byte) : Message :=
  if opcode = .text then .text payload else .binary payload

namespace Meaning

variable (cfg : Config)

variable (m : Meaning)

def messages : List Message :=
  m.outputs.filterMap Output.message?

def answer (payload : List Byte) : Meaning :=
  { m with
    outputs := m.outputs ++
      [.pong (Frame.assembled .pong (cfg.key m.drawn) payload).encode]
    drawn := m.drawn + cfg.draws 1 }

def complete (msg : Message) : Meaning :=
  { m with
    opcode := none
    payload := []
    outputs := m.outputs ++ [.message msg]
    drawn := m.drawn + cfg.draws
      ((cfg.upper (m.messages ++ [msg])).calls.map UpperCall.frames).sum }

def fragment (g : Frame) : Meaning :=
  let opcode := m.opcode.getD g.opcode
  let payload := m.payload ++ g.payload
  if m.broken = true ∨ ¬ Acceptable opcode g.fin payload then
    { m with
      opcode := if g.fin then none else some opcode
      payload := if g.fin then [] else payload
      broken := true }
  else if g.fin then m.complete cfg (.ofOpcode opcode payload)
  else { m with opcode := some opcode, payload := payload }

def frame (g : Frame) : Meaning :=
  match g.opcode with
  | .ping => if m.broken then m else m.answer cfg g.payload
  | .pong => m
  | .connectionClose => m
  | _ => m.fragment cfg g

end Meaning

def meaning (cfg : Config) (frames : List Frame) : Meaning :=
  frames.foldl (Meaning.frame cfg) {}

/-- A frame that may follow: control frames are short and in one piece, the
fragments of a message follow each other, and no size exceeds the maximum. -/
structure Allowed (m : Meaning) (g : Frame) : Prop where
  fits : g.Fits
  control : isControlFrame g.opcode = true →
    g.payload.length ≤ 125 ∧ g.fin = true ∧ g.opcode ≠ .connectionClose
  data : isControlFrame g.opcode = false →
    g.payload.length < maxFrameSize - g.headerBytes.length ∧
      m.payload.length + g.payload.length ≤ maxFrameSize ∧
      (g.opcode = .continuation ↔ m.opcode ≠ none)

def Framed (cfg : Config) : Meaning → List Frame → Prop
  | _, [] => True
  | m, g :: frames => Allowed m g ∧ Framed cfg (m.frame cfg g) frames

instance Allowed.decidable (m : Meaning) (g : Frame) :
    Decidable (Allowed m g) :=
  decidable_of_iff (g.Fits ∧ (isControlFrame g.opcode = true →
      g.payload.length ≤ 125 ∧ g.fin = true ∧ g.opcode ≠ .connectionClose) ∧
    (isControlFrame g.opcode = false →
      g.payload.length < maxFrameSize - g.headerBytes.length ∧
        m.payload.length + g.payload.length ≤ maxFrameSize ∧
        (g.opcode = .continuation ↔ m.opcode ≠ none)))
    ⟨fun h => ⟨h.1, h.2.1, h.2.2⟩, fun h => ⟨h.fits, h.control, h.data⟩⟩

instance Framed.decidable (cfg : Config) :
    ∀ m frames, Decidable (Framed cfg m frames)
  | _, [] => .isTrue trivial
  | m, g :: frames =>
    have := Framed.decidable cfg (m.frame cfg g) frames
    inferInstanceAs (Decidable (_ ∧ _))

variable {cfg : Config} {m : Meaning} {g : Frame}

theorem meaning_append (gs : List Frame) (g : Frame) :
    meaning cfg (gs ++ [g]) = (meaning cfg gs).frame cfg g := by
  simp [meaning]

variable {gs todo : List Frame}

theorem framed_append (h : Framed cfg m (gs ++ todo)) :
    Framed cfg (gs.foldl (Meaning.frame cfg) m) todo := by
  induction gs generalizing m with
  | nil => exact h
  | cons g gs ih => exact ih h.2

structure Tidy (m : Meaning) : Prop where
  payload : m.opcode = none → m.payload = []
  opcode : m.opcode = none ∨ m.opcode = some .text ∨ m.opcode = some .binary

theorem tidy_fragment (h : Tidy m) (hg : Allowed m g)
    (hdata : isControlFrame g.opcode = false) : Tidy (m.fragment cfg g) := by
  have hopcode : m.opcode.getD g.opcode = .text ∨
      m.opcode.getD g.opcode = .binary := by
    rcases h.opcode with hnone | hsome | hsome
    · have hfirst : g.opcode ≠ .continuation := by
        rw [Ne, (hg.data hdata).2.2, hnone]
        simp
      rw [hnone, Option.getD_none]
      cases hop : g.opcode with
      | text => exact .inl rfl
      | binary => exact .inr rfl
      | continuation => exact absurd hop hfirst
      | connectionClose | ping | pong =>
        simp [hop, isControlFrame, Opcode.toNat] at hdata
    · simp [hsome]
    · simp [hsome]
  unfold Meaning.fragment
  cases hfin : g.fin with
  | true =>
    simp only [if_true]
    split
    · exact ⟨fun _ => rfl, .inl rfl⟩
    · exact ⟨fun _ => rfl, .inl rfl⟩
  | false =>
    simp only [Bool.false_eq_true, if_false]
    split
    · exact ⟨fun hnone => by simp at hnone, by simpa using hopcode⟩
    · exact ⟨fun hnone => by simp at hnone, by simpa using hopcode⟩

theorem tidy_frame (h : Tidy m) (hg : Allowed m g) : Tidy (m.frame cfg g) := by
  cases hop : g.opcode with
  | ping =>
    simp only [Meaning.frame, hop]
    split
    · exact h
    · exact ⟨h.payload, h.opcode⟩
  | pong | connectionClose => simpa only [Meaning.frame, hop] using h
  | text | binary | continuation =>
    simp only [Meaning.frame, hop]
    exact tidy_fragment h hg (by simp [hop, isControlFrame, Opcode.toNat])

theorem tidy_foldl (h : Tidy m) (hframed : Framed cfg m (gs ++ todo)) :
    Tidy (gs.foldl (Meaning.frame cfg) m) := by
  induction gs generalizing m with
  | nil => exact h
  | cons g gs ih => exact ih (tidy_frame h hframed.1) hframed.2

theorem tidy_meaning (hframed : Framed cfg {} (gs ++ todo)) :
    Tidy (meaning cfg gs) :=
  tidy_foldl ⟨fun _ => rfl, .inl rfl⟩ hframed

theorem frame_outputs (m : Meaning) (g : Frame) :
    m.outputs <+: (m.frame cfg g).outputs ∧
      (m.broken = true → (m.frame cfg g).broken = true ∧
        (m.frame cfg g).outputs = m.outputs) := by
  have hfragment : m.outputs <+: (m.fragment cfg g).outputs ∧
      (m.broken = true → (m.fragment cfg g).broken = true ∧
        (m.fragment cfg g).outputs = m.outputs) := by
    unfold Meaning.fragment
    simp only
    split
    · exact ⟨prefix_refl _, fun _ => ⟨rfl, rfl⟩⟩
    · rename_i hwhole
      refine ⟨?_, fun hbroken => absurd (.inl hbroken) hwhole⟩
      split
      · exact prefix_append _ _
      · exact prefix_refl _
  cases hop : g.opcode with
  | ping =>
    simp only [Meaning.frame, hop]
    split
    · exact ⟨prefix_refl _, fun h => ⟨h, rfl⟩⟩
    · rename_i hwhole
      exact ⟨prefix_append _ _, fun h => absurd h hwhole⟩
  | pong | connectionClose =>
    simp only [Meaning.frame, hop]
    exact ⟨prefix_refl _, fun h => ⟨h, trivial⟩⟩
  | text | binary | continuation =>
    simpa only [Meaning.frame, hop] using hfragment

theorem foldl_outputs (m : Meaning) (gs : List Frame) :
    m.outputs <+: (gs.foldl (Meaning.frame cfg) m).outputs ∧
      (m.broken = true → (gs.foldl (Meaning.frame cfg) m).broken = true ∧
        (gs.foldl (Meaning.frame cfg) m).outputs = m.outputs) := by
  induction gs generalizing m with
  | nil => exact ⟨prefix_refl _, fun h => ⟨h, rfl⟩⟩
  | cons g gs ih =>
    obtain ⟨hstart, hbroken⟩ := @frame_outputs cfg m g
    obtain ⟨hstart', hbroken'⟩ := ih (m.frame cfg g)
    refine ⟨hstart.trans hstart', fun h => ?_⟩
    obtain ⟨hnow, hsame⟩ := hbroken h
    obtain ⟨hlater, hsame'⟩ := hbroken' hnow
    exact ⟨hlater, hsame'.trans hsame⟩

theorem meaning_outputs (gs todo : List Frame) :
    (meaning cfg gs).outputs <+: (meaning cfg (gs ++ todo)).outputs ∧
      ((meaning cfg gs).broken = true →
        (meaning cfg (gs ++ todo)).broken = true ∧
          (meaning cfg (gs ++ todo)).outputs = (meaning cfg gs).outputs) := by
  have h := @foldl_outputs cfg (meaning cfg gs) todo
  rw [meaning, ← foldl_append] at h
  exact h

end ActorFramework.Net.WebSocket
