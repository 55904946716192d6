import LiveDoc.Proofs.Message.Frames
import LiveDoc.Proofs.Replica
import LiveDoc.Server.Basic

/-!
# LiveDoc — what frames do to a client

A frame carries a value, and a client that can read the frame accepts that value. Frames that carry
batches change its replica, and all others leave it as it is.

* `SocketFrame.decode_encode` — what is read from a frame, unless the frame cannot be read at all.
* `Client.take_eq_receive` — handling a readable frame is handling its text.
* `Document.foldl_afterFrames` — a replica after several frames.
-/

namespace LiveDoc

open Json

namespace SocketFrame

def value? : SocketFrame → Option Value
  | .message m => some m.toValue
  | .value v => some v.canonical
  | .text t => (Envelope.decode t).toOption

/-- The batch that a frame carries, if it carries one. -/
def edits? (f : SocketFrame) : Option (List Edit) :=
  match f.value?.map Message.parse with
  | some (.ok (.apply edits)) => some edits
  | _ => none

def batches (frames : List SocketFrame) : List (List Edit) := frames.filterMap edits?

@[simp] theorem batches_nil : batches [] = [] := rfl

@[simp] theorem batches_append (frames more : List SocketFrame) :
    batches (frames ++ more) = batches frames ++ batches more :=
  List.filterMap_append

theorem batches_cons_of_some {f : SocketFrame} {edits : List Edit} (h : f.edits? = some edits)
    (frames : List SocketFrame) : batches (f :: frames) = edits :: batches frames :=
  List.filterMap_cons_some h

theorem batches_cons_of_none {f : SocketFrame} (h : f.edits? = none) (frames : List SocketFrame) :
    batches (f :: frames) = batches frames :=
  List.filterMap_cons_none h

/-- The text of the frame can be read: its numbers survive as text, and it does not nest too deep. -/
def IsReadable (f : SocketFrame) : Prop :=
  match f with
  | .message m => m.toValue.AllNumbers Number.ReadsBack ∧ m.toValue.depth ≤ maxDepth
  | .value v => v.AllNumbers Number.ReadsBack ∧ v.depth ≤ maxDepth
  | .text _ => True

/-- What is read from a readable frame is what it carries. -/
theorem decode_encode {f : SocketFrame} (h : f.IsReadable) :
    (Envelope.decode f.encode).toOption = f.value? := by
  cases f with
  | message m =>
    have hcanonical : m.toValue.canonical = m.toValue :=
      Value.canonical_eq_self (Value.isCanonical_canonical m.draft)
    rw [encode, Message.encode, Envelope.decode_encode h.1, if_pos h.2, hcanonical]
    rfl
  | value v =>
    rw [encode, Envelope.decode_encode h.1, if_pos h.2]
    rfl
  | text t => rfl

theorem edits?_delta {edits : List Edit} (h : ∀ edit ∈ edits, edit.IsCanonical) :
    (Server.delta edits).edits? = some edits := by
  have hparse : Message.parse (Message.apply edits).toValue = .ok (.apply edits) :=
    Message.parse_toValue_apply h
  simp [edits?, Server.delta, value?, hparse]

end SocketFrame

/-! ## Clients -/

/-- A client handles a frame: it accepts the value that the frame carries. -/
def Client.take (c : Client) (f : SocketFrame) : Client :=
  let c := { c with stats := { c.stats with frames := c.stats.frames + 1 } }
  match f.value? with
  | some v => (c.accept v).2
  | none => c

/-- Handling a readable frame is handling its text. -/
theorem Client.take_eq_receive (c : Client) {f : SocketFrame} (h : f.IsReadable) :
    c.take f = (c.receive f.encode).2 := by
  rw [take, ← SocketFrame.decode_encode h, receive]
  cases Envelope.decode f.encode <;> rfl

namespace Document

def afterFrame (replica : Document) (f : SocketFrame) : Document :=
  match f.edits? with
  | some edits => replica.applied edits
  | none => replica

/-- The refresh turns every replica into the document. -/
theorem afterFrame_refresh {document : Document} (h : (Value.object document).IsCanonical)
    (replica : Document) : replica.afterFrame (Server.delta (refreshBatch document)) = document := by
  have hedits : (Server.delta (refreshBatch document)).edits? = some (refreshBatch document) :=
    SocketFrame.edits?_delta fun _ hedit => isCanonical_of_mem_refreshBatch h hedit
  rw [afterFrame, hedits]
  exact applied_of_ok (applyBatch_refreshBatch (Value.every_object.mp h).1 _)

/-- A replica after several frames is the replica after the batches that they carry. -/
theorem foldl_afterFrames (replica : Document) (frames : List SocketFrame) :
    frames.foldl afterFrame replica =
      (SocketFrame.batches frames).foldl applied replica := by
  induction frames generalizing replica with
  | nil => rfl
  | cons f rest ih =>
    cases hf : f.edits? with
    | none => simp [afterFrame, hf, ih, SocketFrame.batches_cons_of_none]
    | some edits => simp [afterFrame, hf, ih, SocketFrame.batches_cons_of_some]

end Document

/-- The replica of a client after a frame. -/
theorem Client.replica_take (c : Client) (f : SocketFrame) :
    (c.take f).replica = c.replica.afterFrame f := by
  unfold take Document.afterFrame SocketFrame.edits?
  cases hv : f.value? with
  | none => rfl
  | some v =>
    simp only [replica_accept, Document.afterValue, Option.map_some]
    cases Message.parse v with
    | error e => rfl
    | ok m => cases m <;> rfl

end LiveDoc
