import ActorFramework.Net.WebSocket.DecodingRun

/-!
# The end of a connection

When the framing finds an error, it aborts the upper layer, writes a close
frame and returns a negative result.  The transport answers that by aborting
the framing, which writes a close frame and aborts the upper layer again.

As long as the peer sends valid frames and no close frame, and the upper layer
accepts the messages, only the socket ends the connection, and does so once.
-/

namespace ActorFramework.Net.WebSocket

open ActorFramework.Core (Byte)
open Foundation List
open Net.Rfc6455

/-- Each abort of the upper layer came with one close frame, and no message
came after it. -/
structure Fair (f : Framing) : Prop where
  closings : f.closings = f.aborts.length
  afterAbort : f.afterAbort = []

variable {cfg : Config} {f g : Framing} {c d : Stack Framing}

theorem Fair.of_books (h : Fair f) (hbooks : Books f g) : Fair g :=
  ⟨by rw [hbooks.closings, h.closings, hbooks.aborts],
    hbooks.afterAbort.trans h.afterAbort⟩

theorem Fair.abort (h : Fair f) (reason : Error) :
    Fair ((framing cfg).abort f reason).1 :=
  ⟨by
    rw [(Plan.abort_outputs f reason).2, length_append, ← h.closings]
    rfl, h.afterAbort⟩

theorem Fair.aborted (h : Fair f) (reason : Option Error) :
    Fair ((framing cfg).aborted f reason).1 := by
  cases reason with
  | none => exact h
  | some reason => exact h.abort reason

theorem Fair.failed (h : Fair f) (err : Error) :
    Fair (f.abortAndShutdown cfg err) := by
  unfold Framing.abortAndShutdown Framing.shutdownWith
  split <;> exact ⟨by
    simp [Framing.abortUpper, Framing.shutdown, Framing.lower,
      Framing.shipClosingStatus, Framing.ship, h.closings], h.afterAbort⟩

def greeting : List Byte := wire [.assembled .text 0#32 [0x78#8]]

/-- An upper layer that rejects a message and has asked for more receives the
message again after the abort. -/
theorem rejected_message_again :
    ∃ c, exec (Stack.step (framing { server [] with
          upper := fun _ =>
            ⟨[.suspendReading, .requestMessages], false⟩ }))
        (.established defaultReceivePolicy {} [])
        [.read (.data greeting []), .consume, .consume, .runScheduled,
          .consume] = some c ∧
      c.layer.aborts.length = 2 ∧ c.layer.afterAbort = [.text [0x78#8]] := by
  exact exists_of_map (fun c => (c.layer.aborts.length, c.layer.afterAbort))
    (_, _) (by decide +kernel) fun c _ heq => Prod.mk.inj heq

/-- An upper layer closes the connection, but the close frame cannot be
written. -/
theorem closes_twice_if_write_fails :
    ∃ c, exec (Stack.step (framing (server [.shutdown .normalClose []])))
        (.established defaultReceivePolicy {} [])
        [.read (.data greeting []), .consume, .consume, .writeFails true] =
          some c ∧ c.layer.aborts.length = 1 ∧ c.layer.closings = 2 := by
  exact exists_of_map (fun c => (c.layer.aborts.length, c.layer.closings))
    (_, _) (by decide +kernel) fun c _ heq => Prod.mk.inj heq

end ActorFramework.Net.WebSocket
