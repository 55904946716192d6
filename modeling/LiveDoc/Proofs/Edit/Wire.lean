import LiveDoc.Edit.Wire
import LiveDoc.Proofs.Json.Record

/-!
# LiveDoc — edits survive the wire

An edit whose value is canonical is read back from its JSON as it was, whatever its path, its keys
and its limit are. And whatever is read from a regular value carries a regular value.

* `Edit.read?_toValue`, `Edit.parse_toValue` — reading what was written gives the same edit.
* `Edit.regular_of_read?` — what is read carries over what is known of the numbers.
-/

namespace LiveDoc.Edit

open Json Json.Value

variable {P : Number → Prop}

def value? : Edit → Option Value
  | .set _ v | .merge _ v | .assign _ v | .append _ v _ => some v
  | .clear | .delete .. => none

def Regular (P : Number → Prop) (edit : Edit) : Prop := ∀ v, edit.value? = some v → v.Regular P

def IsCanonical (edit : Edit) : Prop := edit.Regular fun _ => True

/-! ## Reading what was written -/

theorem contains_tag (edit : Edit) : tags.contains edit.tag = true := by
  cases edit <;> rfl

/-- The tag stands where it is looked for in the canonical form of a draft. -/
theorem get?_type_sortedMembers {tag : String} {fields : Fields}
    (hfields : "type" ∉ KeyMap.keys fields) :
    KeyMap.get? (sortedMembers (("type", .string tag) :: fields)) "type" = some (.string tag) := by
  have habsent : KeyMap.get? fields.reverse "type" = none :=
    KeyMap.get?_reverse_eq_none_iff.mpr hfields
  rw [get?_sortedMembers, List.reverse_cons, KeyMap.get?_append, habsent]
  simp [KeyMap.get?]

/-- The fields that are read from the canonical form of a draft. -/
theorem read?_canonical_draft {tag : String} {fields : Fields} (htag : tags.contains tag = true)
    (hfields : "type" ∉ KeyMap.keys fields) :
    read? (canonical (.object (("type", .string tag) :: fields))) =
      ofFields? tag ((fieldNames tag).map fun name =>
        (KeyMap.get? (("type", .string tag) :: fields).reverse name).map canonical) := by
  have hnamed : namedTag? (.string tag) = some tag := by
    simpa [namedTag?] using htag
  rw [canonical_object, read?, get?_type_sortedMembers hfields]
  simp only [Option.bind_eq_bind, Option.bind_some, hnamed, ofRecord?, Record.fields?]
  exact congrArg (ofFields? tag) (List.map_congr_left fun name _ => get?_sortedMembers _ name)

/-- Reading what was written gives the same edit. -/
theorem read?_toValue {edit : Edit} (h : edit.IsCanonical) : read? edit.toValue = some edit := by
  have hvalue : ∀ v, edit.value? = some v → v.canonical = v := fun v hv =>
    canonical_eq_self (h v hv)
  cases edit with
  | clear => exact read?_canonical_draft (contains_tag .clear) (by simp)
  | set path v =>
    refine (read?_canonical_draft (contains_tag _) (by simp)).trans ?_
    simp [tag, fieldNames, KeyMap.get?, ofFields?, Record.value, hvalue v rfl]
  | merge path v =>
    refine (read?_canonical_draft (contains_tag _) (by simp)).trans ?_
    simp [tag, fieldNames, KeyMap.get?, ofFields?, Record.value, hvalue v rfl]
  | assign path v =>
    refine (read?_canonical_draft (contains_tag _) (by simp)).trans ?_
    simp [tag, fieldNames, KeyMap.get?, ofFields?, Record.value, hvalue v rfl]
  | append path v limit =>
    refine (read?_canonical_draft (contains_tag _) (by simp)).trans ?_
    simp [tag, fieldNames, KeyMap.get?, ofFields?, Record.value, hvalue v rfl]
  | delete path keys =>
    refine (read?_canonical_draft (contains_tag _) (by simp)).trans ?_
    simp [tag, fieldNames, KeyMap.get?, ofFields?, keyList?]

/-- A draft has its tag first and no other member by that name. -/
theorem exists_draft_eq (edit : Edit) :
    ∃ fields, edit.draft = .object (("type", .string edit.tag) :: fields) ∧
      "type" ∉ KeyMap.keys fields := by
  cases edit <;> exact ⟨_, rfl, by simp⟩

/-- An edit that stands alone is read back too. -/
theorem parse_toValue {edit : Edit} (h : edit.IsCanonical) : parse edit.toValue = .ok edit := by
  obtain ⟨fields, hdraft, hfields⟩ := edit.exists_draft_eq
  have htype : (edit.toValue.member? "type").bind text? = some edit.tag := by
    rw [toValue, hdraft, canonical_object, member?, fields?, Option.bind_some,
      get?_type_sortedMembers hfields]
    rfl
  simp only [parse, htype, contains_tag, if_true, read?_toValue h]

/-! ## What is read is regular -/

/-- The declared fields of a regular record are regular. -/
theorem regular_fields {names : List String} {record : Value} {fields : List (Option Value)}
    (h : record.Regular P) (hfields : Record.fields? names record = some fields) :
    ∀ v, some v ∈ fields → v.Regular P := by
  intro v hv
  cases record with
  | object members =>
    simp only [Record.fields?, Option.some.injEq] at hfields
    subst hfields
    obtain ⟨name, -, hname⟩ := List.mem_map.mp hv
    exact h.of_get? hname
  | array items =>
    simp only [Record.fields?, Option.ite_none_right_eq_some, Option.some.injEq] at hfields
    obtain ⟨-, rfl⟩ := hfields
    have hmem : v ∈ items := by simpa using hv
    exact every_array.mp h v hmem
  | _ => simp [Record.fields?] at hfields

theorem regular_value {fields : List (Option Value)} {field : Option Value}
    (h : ∀ v, some v ∈ fields → v.Regular P) (hfield : field ∈ fields) :
    (Record.value field).Regular P := by
  cases field with
  | none => exact every_null
  | some v => exact h v hfield

theorem regular_of_ofFields? {tag : String} {fields : List (Option Value)} {edit : Edit}
    (h : ∀ v, some v ∈ fields → v.Regular P) (hread : ofFields? tag fields = some edit) :
    edit.Regular P := by
  unfold ofFields? at hread
  split at hread
  · cases hread
    simp [Regular, value?]
  · obtain ⟨path, -, hread⟩ := Option.bind_eq_some_iff.mp hread
    cases hread
    simpa [Regular, value?] using regular_value h (by simp)
  · obtain ⟨path, -, hread⟩ := Option.bind_eq_some_iff.mp hread
    cases hread
    simpa [Regular, value?] using regular_value h (by simp)
  · obtain ⟨path, -, hread⟩ := Option.bind_eq_some_iff.mp hread
    cases hread
    simpa [Regular, value?] using regular_value h (by simp)
  · obtain ⟨path, -, hread⟩ := Option.bind_eq_some_iff.mp hread
    obtain ⟨limit, -, hread⟩ := Option.bind_eq_some_iff.mp hread
    cases hread
    simpa [Regular, value?] using regular_value h (by simp)
  · obtain ⟨path, -, hread⟩ := Option.bind_eq_some_iff.mp hread
    obtain ⟨keys, -, hread⟩ := Option.bind_eq_some_iff.mp hread
    cases hread
    simp [Regular, value?]
  · simp at hread

/-- An edit that is read from a regular value carries a regular value. -/
theorem regular_of_read? {v : Value} {edit : Edit} (h : v.Regular P)
    (hread : read? v = some edit) : edit.Regular P := by
  have hrecord : ∀ {tag : String} {record : Value}, record.Regular P →
      ofRecord? tag record = some edit → edit.Regular P := by
    intro tag record hregular hof
    obtain ⟨fields, hfields, hof⟩ := Option.bind_eq_some_iff.mp hof
    exact regular_of_ofFields? (regular_fields hregular hfields) hof
  unfold read? at hread
  split at hread
  · obtain ⟨tagValue, -, hread⟩ := Option.bind_eq_some_iff.mp hread
    obtain ⟨tag, -, hread⟩ := Option.bind_eq_some_iff.mp hread
    exact hrecord h hread
  · next tagValue fields =>
    obtain ⟨tag, -, hread⟩ := Option.bind_eq_some_iff.mp hread
    have hfields : ∀ item ∈ fields, item.Regular P := fun item hitem =>
      every_array.mp h item (List.mem_cons_of_mem _ hitem)
    exact hrecord (every_array.mpr hfields) hread
  · simp at hread

end LiveDoc.Edit
