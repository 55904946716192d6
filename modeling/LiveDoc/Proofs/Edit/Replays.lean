import LiveDoc.Proofs.Document.Merging
import LiveDoc.Proofs.Edit.Addressing
import LiveDoc.Proofs.Edit.Regular
import LiveDoc.Proofs.Edit.Validity

/-!
# LiveDoc — replaying an edit

An edit that comes a second time finds the slot that the first one has left at its path: the way
there has been made, and an array that blocks it blocks it again. So it comes down to what the edit
makes of the slot. Setting, assigning and deleting make nothing more of what they have made, and a
merged object absorbs its source. Only an append adds its items again.

* `Document.rewriteObject_rewriteObject`, `Document.amendObject_amendObject` — changing the object at
  a path twice is changing it once.
* `Edit.apply_apply` — what an edit does that comes twice.
* `applyBatch_replay` — the same for batches.
-/

namespace LiveDoc

open Json Json.Value

variable {document : Document} {path : Option String}

namespace Document

theorem rewriteObject_rewriteObject (document : Document) (path : Option String)
    (f g : Fields → Fields) :
    (document.rewriteObject path f).rewriteObject path g = document.rewriteObject path (g ∘ f) := by
  unfold rewriteObject
  cases nonEmpty? path with
  | none => rfl
  | some path => exact rewrite_rewrite document path _ _

/-- Changes that agree on canonical objects agree on a canonical document. -/
theorem rewriteObject_congr {f g : Fields → Fields}
    (hdocument : (Value.object document).IsCanonical)
    (h : ∀ fields, (Value.object fields).IsCanonical → f fields = g fields) :
    document.rewriteObject path f = document.rewriteObject path g := by
  unfold rewriteObject
  cases nonEmpty? path with
  | none => exact h document hdocument
  | some path =>
    have hagree : (Value.object document).rewrite? (fun slot => .object (f slot.members))
        (segments path) =
          (Value.object document).rewrite? (fun slot => .object (g slot.members)) (segments path) :=
      rewrite?_congr hdocument (fun slot hslot => by rw [h _ hslot.members]) _
    simp only [rewrite, hagree]

theorem amendObject_amendObject (document : Document) (path : Option String)
    (f g : Fields → Fields) :
    (document.amendObject path f).amendObject path g = document.amendObject path (g ∘ f) := by
  unfold amendObject
  cases nonEmpty? path with
  | none => rfl
  | some path =>
    simp only [object_members_amend, amend_amend]
    congr 2
    funext slot
    cases slot <;> rfl

end Document

/-- An edit that does not append makes nothing more of a document to which it was applied. -/
theorem Edit.apply_apply {edit : Edit} (hdocument : (Value.object document).IsCanonical)
    (hedit : edit.IsCanonical) (hkind : ∀ path value limit, edit ≠ .append path value limit) :
    edit.apply (edit.apply document) = edit.apply document := by
  cases edit with
  | clear => rfl
  | set path value => exact Document.rewrite_rewrite document _ _ _
  | merge path value =>
    cases value with
    | object source =>
      rw [apply, apply, Document.rewriteObject_rewriteObject]
      exact Document.rewriteObject_congr hdocument fun fields hfields =>
        mergeFields_mergeFields hfields (hedit _ rfl)
    | _ => rfl
  | assign path value =>
    cases value with
    | object source =>
      rw [apply, apply, Document.rewriteObject_rewriteObject]
      exact Document.rewriteObject_congr hdocument fun fields hfields =>
        (every_object.mp hfields).1.setAll_setAll source
    | _ => rfl
  | append path value limit => exact absurd rfl (hkind path value limit)
  | delete path keys =>
    rw [apply, apply, Document.amendObject_amendObject]
    congr 1
    funext fields
    rw [Function.comp_apply, KeyMap.foldl_erase, KeyMap.foldl_erase, List.filter_filter]
    simp only [Bool.and_self]

/-- A valid edit that does not append comes to the same twice as once, in one batch or in two, at the
root or at a path, passed over or not. -/
theorem applyBatch_replay {edit : Edit} (hdocument : (Value.object document).IsCanonical)
    (hedit : edit.IsCanonical) (hkind : ∀ path value limit, edit ≠ .append path value limit)
    (hvalid : edit.validate = .ok ()) :
    ∃ result, applyBatch document [edit] = .ok result ∧ applyBatch result [edit] = .ok result ∧
      applyBatch document [edit, edit] = .ok result := by
  have htwice := edit.apply_apply hdocument hedit hkind
  refine ⟨edit.apply document, applyBatch_singleton hvalid document, ?_, ?_⟩
  · rw [applyBatch_singleton hvalid, htwice]
  · rw [applyBatch_of_forall (by simpa using hvalid)]
    exact congrArg Except.ok htwice

/-- A merge past the end of a list extends the list and makes the objects on the way. Coming again it
finds them there. -/
theorem applyBatch_replay_merge :
    let source : Fields := [("a", .object [("b", .null)]), ("c", .array [])]
    let edit := Edit.merge (some "rows.1.x") (.object source)
    let once : Document := [("rows", .array [.string "r", .object [("x", .object source)]])]
    applyBatch [("rows", .array [.string "r"])] [edit, edit] = .ok once ∧
      applyBatch once [edit] = .ok once := by
  intro source edit once
  have hkeys : KeyMap.Sorted source := by
    show List.Pairwise (· < ·) ["a", "c"]
    decide
  have hdocument : (Value.object [("rows", .array [.string "r"])]).IsCanonical :=
    every_object.mpr ⟨List.pairwise_singleton _ _, by simp⟩
  have hmember : (Value.object [("b", .null)]).IsCanonical :=
    every_object.mpr ⟨List.pairwise_singleton _ _, by simp⟩
  have hedit : edit.IsCanonical := by
    rintro _ ⟨⟩
    exact every_object.mpr ⟨hkeys, by simpa [source] using hmember⟩
  have honce : edit.apply [("rows", .array [.string "r"])] = once := by
    have hpath : segments "rows.1.x" = ["rows", "1", "x"] := by decide
    have hindex : index? "1" = some 1 := by decide
    have hpadded : padTo [.string "r"] 1 = [.string "r", .null] := by decide
    have hnamed : nonEmpty? (some "rows.1.x") = some "rows.1.x" := rfl
    simp [edit, Edit.apply, Document.rewriteObject, hnamed, Document.rewrite, hpath, rewrite?,
      hindex, hpadded, members, fields?, KeyMap.get?, KeyMap.set, mergeFields_nil hkeys, once]
  have hvalid : edit.validate = .ok () := rfl
  obtain ⟨result, hresult, hagain, htwice⟩ :=
    applyBatch_replay hdocument hedit (by simp [edit]) hvalid
  obtain rfl : once = result := by
    rw [applyBatch_singleton hvalid, honce] at hresult
    exact Except.ok.inj hresult
  exact ⟨htwice, hagain⟩

end LiveDoc
