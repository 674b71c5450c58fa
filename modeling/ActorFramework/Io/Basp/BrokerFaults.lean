import ActorFramework.Io.Basp.BrokerRouting

/-!
# Null pointers

Two null pointers can be used while the broker handles a message: a handshake
is accepted without payload although its payload is read, and a message whose
content cannot be read is answered although it may have no sender.  Nothing
else goes wrong.
-/

namespace ActorFramework.Io.Basp

open ActorFramework.Core

variable {υ ν : Type}

namespace Broker

def HasSender (b : Broker υ ν) (source : NodeId υ) (aid : ActorId) : Prop :=
  aid ≠ 0#64 ∧ source ≠ none ∧ (source = some b.thisNode → aid ∈ b.registry)

/-- If the receiver exists, the content is readable or the sender exists. -/
def Answerable (b : Broker υ ν) (codec : Codec υ ν) (job : Job υ) : Prop :=
  b.receiver job.hdr ≠ none →
    if job.hdr.operation = .routedMessage then
      ∀ source dest content,
        sourceAndDest codec job.payload = some ((source, dest), content) →
          (codec.message content).result ≠ none ∨
            b.HasSender source job.hdr.sourceActor
    else
      (codec.message job.payload).result ≠ none ∨
        (job.hdr.sourceActor ≠ 0#64 ∧ job.lastHop ≠ none)

variable {b b' : Broker υ ν} {hdr : Header}

theorem Frame.answerable (h : b.Frame b') (codec : Codec υ ν) (job : Job υ) :
    b'.Answerable codec job ↔ b.Answerable codec job := by
  have hreceiver : b'.receiver job.hdr = b.receiver job.hdr := by
    simp [receiver, registryGet, h.registry, h.configServ, h.spawnServ]
  simp [Answerable, hreceiver, HasSender, h.thisNode, h.registry]

variable [DecidableEq υ]

section

variable (b : Broker υ ν)

end

def Announced (hdr : Header) : Option (List Byte) → Prop
  | none => hdr.payloadLen = 0
  | some bytes => hdr.payloadLen ≠ 0 ∧ bytes.length = hdr.payloadLen.toNat

end Broker

end ActorFramework.Io.Basp
