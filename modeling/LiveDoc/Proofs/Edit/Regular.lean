import LiveDoc.Edit.Apply
import LiveDoc.Proofs.Document.Slots
import LiveDoc.Proofs.Edit.Wire

/-!
# LiveDoc — edits keep documents regular

A document is regular if its objects are sorted and its numbers have some property. Rewriting and
amending a slot, merging and appending build the new document from parts of the old one and of the
edit, with a null here and there, so no edit brings in an object out of order or a new number.

* `Edit.apply_regular` — a regular edit keeps a document regular.
* `applyBatch_regular` — so does a batch of such edits, accepted or not.
-/

namespace LiveDoc

open Json Json.Value

variable {P : Number → Prop}

/-! ## Objects -/

/-- What a value holds as an object is regular if the value is; a value of another kind holds no
members. -/
theorem Json.Value.Every.members {v : Value} (h : v.Regular P) :
    (Value.object v.members).Regular P := by
  cases v with
  | object members => exact h
  | _ => exact every_object.mpr ⟨KeyMap.sorted_nil, by simp [Value.members, fields?]⟩

theorem regular_set {fields : Fields} {key : String} {v : Value}
    (hfields : (Value.object fields).Regular P) (hv : v.Regular P) :
    (Value.object (KeyMap.set fields key v)).Regular P := by
  obtain ⟨hsorted, hmembers⟩ := every_object.mp hfields
  refine every_object.mpr ⟨hsorted.set key v, fun entry hentry => ?_⟩
  rcases KeyMap.mem_set hentry with rfl | hmem
  · exact hv
  · exact hmembers entry hmem

theorem regular_setAll {fields source : Fields} (hfields : (Value.object fields).Regular P)
    (hsource : ∀ entry ∈ source, entry.2.Regular P) :
    (Value.object (KeyMap.setAll fields source)).Regular P := by
  obtain ⟨hsorted, hmembers⟩ := every_object.mp hfields
  refine every_object.mpr ⟨hsorted.setAll source, fun entry hentry => ?_⟩
  rcases KeyMap.mem_of_mem_setAll hentry with hmem | hmem
  · exact hmembers entry hmem
  · exact hsource entry hmem

theorem regular_foldl_erase {fields : Fields} (keys : List String)
    (hfields : (Value.object fields).Regular P) :
    (Value.object (keys.foldl KeyMap.erase fields)).Regular P := by
  induction keys generalizing fields with
  | nil => exact hfields
  | cons key rest ih =>
    obtain ⟨hsorted, hmembers⟩ := every_object.mp hfields
    refine ih (every_object.mpr ⟨hsorted.erase key, fun entry hentry => ?_⟩)
    exact hmembers entry (List.mem_filter.mp hentry).1

theorem regular_items {v : Value} (h : v.Regular P) : ∀ w ∈ v.items?.getD [], w.Regular P := by
  cases v with
  | array items => exact every_array.mp h
  | _ => simp [items?]

theorem regular_appended {v : Value} (h : v.Regular P) : ∀ w ∈ appended v, w.Regular P := by
  cases v with
  | array items => exact every_array.mp h
  | null | bool | string => simp [appended]
  | number | object => simpa [appended] using h

/-! ## Merging -/

mutual

/-- Merging regular members into a regular object keeps it regular, at every depth. -/
theorem regular_mergeFields : ∀ {source target : Fields}, (Value.object target).Regular P →
    everyMember KeyMap.Sorted P source → (Value.object (mergeFields target source)).Regular P
  | [], target, htarget, _ => by rwa [mergeFields]
  | (key, incoming) :: rest, target, htarget, hsource => by
    rw [mergeFields]
    refine regular_mergeFields (regular_set htarget ?_) hsource.2
    exact regular_mergeSlot (fun slot hslot => htarget.of_get? hslot) hsource.1

theorem regular_mergeSlot : ∀ {incoming : Value} {existing : Option Value},
    (∀ slot, existing = some slot → slot.Regular P) → incoming.Regular P →
      (mergeSlot existing incoming).Regular P
  | .object source, existing, hexisting, hincoming => by
    unfold mergeSlot
    split
    · exact regular_mergeFields (hexisting _ rfl) hincoming.2
    · exact hincoming
  | .null, _, _, _ => by simp [mergeSlot]
  | .bool _, _, _, _ => by simp [mergeSlot]
  | .number _, _, _, h => by simpa [mergeSlot] using h
  | .string _, _, _, _ => by simp [mergeSlot]
  | .array _, _, _, h => by simpa [mergeSlot] using h

end

/-! ## Rewriting and amending a slot -/

/-- The nulls that an array is padded with are regular. -/
theorem regular_padTo {items : List Value} (h : ∀ v ∈ items, v.Regular P) (index : Nat) :
    ∀ v ∈ padTo items index, v.Regular P := by
  intro v hv
  unfold padTo at hv
  split at hv
  · exact h v hv
  · rcases List.mem_append.mp hv with hmem | hmem
    · exact h v (List.mem_of_mem_take hmem)
    · rw [List.eq_of_mem_replicate hmem]
      exact every_null

theorem regular_array_set {items : List Value} {v : Value} (index : Nat)
    (hitems : ∀ v ∈ items, v.Regular P) (hv : v.Regular P) :
    (Value.array (items.set index v)).Regular P := by
  refine every_array.mpr fun w hw => ?_
  rcases List.mem_or_eq_of_mem_set hw with hmem | rfl
  · exact hitems w hmem
  · exact hv

/-- A child that is put in place keeps a value regular, if it is regular itself. -/
theorem regular_putChild? {v w slot : Value} {segment : String} (hv : v.Regular P)
    (hslot : slot.Regular P) (h : v.putChild? segment slot = some w) : w.Regular P := by
  cases v with
  | array items =>
    obtain ⟨index, -, -, rfl⟩ := putChild?_array_eq_some.mp h
    exact regular_array_set index (regular_padTo (every_array.mp hv) index) hslot
  | _ =>
    obtain rfl := Option.some.inj h
    exact regular_set hv.members hslot

/-- Rewriting a slot keeps a value regular, if the new content of the slot is. -/
theorem regular_rewrite? {f : Value → Value} (hf : ∀ v, v.Regular P → (f v).Regular P)
    {path : List String} {v w : Value} (hv : v.Regular P) (h : rewrite? f path v = some w) :
    w.Regular P := by
  induction path generalizing v w with
  | nil =>
    cases h
    exact hf v hv
  | cons segment rest ih =>
    by_cases hoverflows : v.Overflows segment
    · rw [rewrite?_of_overflows hoverflows] at h
      cases h
      exact every_array.mpr (by simp)
    · rw [rewrite?_cons hoverflows] at h
      obtain ⟨slot, hslot, hput⟩ := Option.bind_eq_some_iff.mp h
      exact regular_putChild? hv (ih (hv.getD_child? segment) hslot) hput

/-- Amending what a path finds keeps a value regular, if the new content is. -/
theorem regular_amend {f : Value → Value} (hf : ∀ v, v.Regular P → (f v).Regular P)
    {path : List String} {v : Value} (hv : v.Regular P) : (amend f path v).Regular P := by
  induction path generalizing v with
  | nil => exact hf v hv
  | cons segment rest ih =>
    rw [amend_cons]
    cases hchild : v.child? segment with
    | none => exact hv
    | some child =>
      obtain ⟨w, hput⟩ := exists_putChild?_of_child? hchild (child.amend f rest)
      rw [Option.bind_some, hput, Option.getD_some]
      exact regular_putChild? hv (ih (hv.of_child? hchild)) hput

/-! ## Edits -/

variable {document : Document}

/-- A rewrite at any path keeps a document regular if its function keeps values regular. -/
theorem regular_rewrite {f : Value → Value} (hf : ∀ v, v.Regular P → (f v).Regular P)
    {path : String} (hdocument : (Value.object document).Regular P) :
    (Value.object (document.rewrite path f)).Regular P := by
  unfold Document.rewrite
  split
  · next v hv => exact (regular_rewrite? hf hdocument hv).members
  · exact hdocument

/-- A regular edit keeps a document regular. -/
theorem Edit.apply_regular {edit : Edit} (hdocument : (Value.object document).Regular P)
    (hedit : edit.Regular P) : (Value.object (edit.apply document)).Regular P := by
  cases edit with
  | clear => exact every_object.mpr ⟨KeyMap.sorted_nil, by simp [apply]⟩
  | set path value => exact regular_rewrite (fun _ _ => hedit value rfl) hdocument
  | merge path value =>
    cases value with
    | object source =>
      have hsource := (hedit _ rfl).2
      simp only [apply, Document.rewriteObject]
      split
      · exact regular_mergeFields hdocument hsource
      · exact regular_rewrite (fun v hv => regular_mergeFields hv.members hsource) hdocument
    | _ => exact hdocument
  | assign path value =>
    cases value with
    | object source =>
      have hsource := (every_object.mp (hedit _ rfl)).2
      simp only [apply, Document.rewriteObject]
      split
      · exact regular_setAll hdocument hsource
      · exact regular_rewrite (fun v hv => regular_setAll hv.members hsource) hdocument
    | _ => exact hdocument
  | append path value limit =>
    refine regular_rewrite (fun slot hslot => every_array.mpr fun v hv => ?_) hdocument
    rcases List.mem_append.mp (List.mem_of_mem_drop hv) with hmem | hmem
    · exact regular_items hslot v hmem
    · exact regular_appended (hedit value rfl) v hmem
  | delete path keys =>
    simp only [apply, Document.amendObject]
    split
    · exact regular_foldl_erase keys hdocument
    · refine (regular_amend (fun v hv => ?_) hdocument).members
      cases v with
      | object fields => exact regular_foldl_erase keys hv
      | _ => exact hv

theorem foldl_apply_regular {edits : List Edit} (hdocument : (Value.object document).Regular P)
    (hedits : ∀ edit ∈ edits, edit.Regular P) :
    (Value.object (edits.foldl Edit.apply document)).Regular P := by
  induction edits generalizing document with
  | nil => exact hdocument
  | cons edit rest ih =>
    refine ih (edit.apply_regular hdocument (hedits edit (by simp))) fun e he => ?_
    exact hedits e (List.mem_cons_of_mem _ he)

/-- The document that a batch of regular edits turns a regular one into is regular. -/
theorem applyBatch_regular {edits : List Edit} {result : Document}
    (hdocument : (Value.object document).Regular P) (hedits : ∀ edit ∈ edits, edit.Regular P)
    (h : applyBatch document edits = .ok result) : (Value.object result).Regular P := by
  unfold applyBatch at h
  split at h
  · cases h
    exact foldl_apply_regular hdocument hedits
  · cases h

end LiveDoc
