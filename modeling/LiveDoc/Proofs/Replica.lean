import LiveDoc.Client
import LiveDoc.Proofs.Message.RoundTrip

/-!
# LiveDoc — what messages do to a replica

Of all that a client receives only batches touch its replica, and a batch that is refused leaves it
as it is. What a value does to a replica is so a function of the two, whatever else the client is at.

* `Client.replica_accept` — the replica after a value.
* `Client.replica_receive` — the replica after a frame.
-/

namespace LiveDoc

open Json

namespace Document

/-- The document after a batch, or as it was if the batch is refused. -/
def applied (document : Document) (edits : List Edit) : Document :=
  match applyBatch document edits with
  | .ok document => document
  | .error _ => document

/-- A replica after a value that came in an envelope. -/
def afterValue (replica : Document) (v : Value) : Document :=
  match Message.parse v with
  | .ok (.apply edits) => replica.applied edits
  | _ => replica

def afterText (replica : Document) (text : String) : Document :=
  match Envelope.decode text with
  | .ok v => replica.afterValue v
  | .error _ => replica

variable {document : Document}

theorem applied_of_ok {edits : List Edit} {result : Document}
    (h : applyBatch document edits = .ok result) : document.applied edits = result := by
  rw [applied, h]

theorem afterValue_of_apply {v : Value} {edits : List Edit}
    (h : Message.parse v = .ok (.apply edits)) : document.afterValue v = document.applied edits := by
  rw [afterValue, h]

/-- A value that is no batch leaves the replica as it is. -/
theorem afterValue_of_ne {v : Value} (h : ∀ edits, Message.parse v ≠ .ok (.apply edits)) :
    document.afterValue v = document := by
  unfold afterValue
  split
  · next edits hedits => exact absurd hedits (h edits)
  · rfl

end Document

namespace Client

@[simp] theorem replica_emit (c : Client) (event : ClientEvent) :
    (c.emit event).replica = c.replica := rfl

@[simp] theorem replica_resolve (c : Client) (response : RpcResponse) :
    (c.resolve response).2.replica = c.replica := by
  unfold resolve
  split <;> rfl

/-- A batch that is refused leaves the replica as it is. -/
theorem replica_update (c : Client) (edits : List Edit) :
    (c.update edits).replica = c.replica.applied edits := by
  unfold update Document.applied
  cases applyBatch c.replica edits <;> rfl

/-- Of a value only its batch, if it is one, touches the replica. -/
theorem replica_accept (c : Client) (v : Value) :
    (c.accept v).2.replica = c.replica.afterValue v := by
  unfold accept
  split
  · next edits h => rw [Document.afterValue_of_apply h, replica_update]
  · next response h =>
    rw [Document.afterValue_of_ne (by simp [h]), replica_resolve]
  · next tag h => rw [Document.afterValue_of_ne (by simp [h]), replica_emit]
  · next hne hresponse htag => rw [Document.afterValue_of_ne hne]

/-- A frame that cannot be decoded leaves the replica as it is. -/
theorem replica_receive (c : Client) (text : String) :
    (c.receive text).2.replica = c.replica.afterText text := by
  rw [receive, Document.afterText]
  cases Envelope.decode text with
  | ok v => exact replica_accept _ v
  | error e => rfl

end Client

/-! ## The refresh -/

/-- The refresh turns every document into the given one. -/
theorem applyBatch_refreshBatch {document : Document} (h : KeyMap.Sorted document)
    (other : Document) : applyBatch other (refreshBatch document) = .ok document := by
  have hvalid : validateFrom 0 (refreshBatch document) = .ok () := rfl
  rw [applyBatch, hvalid]
  exact congrArg Except.ok (KeyMap.ofEntries_eq_self h)

theorem isCanonical_of_mem_refreshBatch {document : Document}
    (h : (Value.object document).IsCanonical) {edit : Edit}
    (hedit : edit ∈ refreshBatch document) : edit.IsCanonical := by
  intro v hv
  rcases List.mem_pair.mp hedit with rfl | rfl
  · cases hv
  · cases hv
    exact h

end LiveDoc
