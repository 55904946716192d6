import LiveDoc.Edit.Apply

/-!
# LiveDoc — batches of valid edits

Nothing but a refused edit refuses a batch. So a batch of valid edits is applied in turn, as a whole
or as one batch for each edit.

* `applyBatch_of_forall` — what a batch of valid edits comes to.
* `exists_error_of_all` — what refuses any other batch.
* `foldlM_applyBatch_singleton` — the same edits as batches of one.
-/

namespace LiveDoc

open Json

variable {path : String} {edits : List Edit}

theorem ne_empty_of_isValidPath (h : isValidPath path = true) : path ≠ "" := by
  rintro rfl
  simp [isValidPath, segments, Text.pieces] at h

theorem checkPath_of_isValidPath (tag : String) (h : isValidPath path = true) :
    checkPath tag (some path) = .ok () := by
  have hne : path ≠ "" := ne_empty_of_isValidPath h
  unfold checkPath
  split <;> simp_all

theorem validateFrom_of_forall (h : ∀ edit ∈ edits, edit.validate = .ok ()) (index : Nat) :
    validateFrom index edits = .ok () := by
  induction edits generalizing index with
  | nil => rfl
  | cons edit rest ih =>
    obtain ⟨hedit, hrest⟩ := List.forall_mem_cons.mp h
    rw [validateFrom, hedit]
    exact ih hrest (index + 1)

/-- Valid edits are applied in turn. -/
theorem applyBatch_of_forall (h : ∀ edit ∈ edits, edit.validate = .ok ()) (document : Document) :
    applyBatch document edits = .ok (edits.foldl Edit.apply document) := by
  rw [applyBatch, validateFrom_of_forall h]

/-- A batch is checked edit by edit. -/
theorem isOk_validateFrom (index : Nat) (edits : List Edit) :
    (validateFrom index edits).isOk = edits.all (·.validate.isOk) := by
  induction edits generalizing index with
  | nil => rfl
  | cons edit rest ih =>
    rw [validateFrom, List.all_cons]
    cases hedit : edit.validate with
    | ok checked => exact ih (index + 1)
    | error e => rfl

theorem applyBatch_of_all (h : edits.all (·.validate.isOk) = true) (document : Document) :
    applyBatch document edits = .ok (edits.foldl Edit.apply document) := by
  rw [← isOk_validateFrom 0] at h
  unfold applyBatch
  cases hvalid : validateFrom 0 edits with
  | ok checked => rfl
  | error e => simp [hvalid, Except.isOk, Except.toBool] at h

/-- An edit that is refused refuses the batch, wherever it stands. -/
theorem exists_error_of_all (h : edits.all (·.validate.isOk) = false) (document : Document) :
    ∃ e, applyBatch document edits = .error e := by
  rw [← isOk_validateFrom 0] at h
  unfold applyBatch
  cases hvalid : validateFrom 0 edits with
  | ok checked => simp [hvalid, Except.isOk, Except.toBool] at h
  | error e => exact ⟨e, rfl⟩

theorem applyBatch_singleton {edit : Edit} (h : edit.validate = .ok ()) (document : Document) :
    applyBatch document [edit] = .ok (edit.apply document) :=
  applyBatch_of_forall (by simpa using h) document

/-- As batches of one they do the same. -/
theorem foldlM_applyBatch_singleton (h : ∀ edit ∈ edits, edit.validate = .ok ())
    (document : Document) :
    edits.foldlM (fun document edit => applyBatch document [edit]) document =
      .ok (edits.foldl Edit.apply document) := by
  induction edits generalizing document with
  | nil => rfl
  | cons edit rest ih =>
    obtain ⟨hedit, hrest⟩ := List.forall_mem_cons.mp h
    rw [List.foldlM_cons, applyBatch_singleton hedit]
    exact ih hrest _

end LiveDoc
