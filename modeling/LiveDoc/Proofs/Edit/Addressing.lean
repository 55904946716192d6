import LiveDoc.Edit.Apply
import LiveDoc.Proofs.Document.Slots

/-!
# LiveDoc — what an edit does at its path

An edit with a path reads what the path finds, and what it puts there depends on that alone. Whether
it can be put there is a matter of the path and the document, not of the edit: all edits but
deletions are passed over at the same paths, and a deletion is for what is there already.

* `Edit.Writes` — what an edit makes of the value at its path.
* `Document.rewrite_rewrite` — rewriting a slot twice is rewriting it once.
* `Document.rewrite_eq_inPlace` — rewriting a slot is what a walk in place does.
* `Edit.apply_at` — what is found at the path of a valid edit once it was applied.
-/

namespace LiveDoc

open Json Json.Value

variable {document : Document} {path : String}

/-- The path of an edit, if it has one. -/
def Edit.path? : Edit → Option String
  | .clear => none
  | .set path _ | .merge path _ | .assign path _ | .delete path _ => path
  | .append path _ _ => some path

/-- The edit writes at the path, and puts there what the function makes of the value found there.
What is absent counts as the empty object or the empty array, and so does every value of another
kind. -/
inductive Edit.Writes (path : String) : Edit → (Option Value → Value) → Prop
  | set (value : Value) : Writes path (.set (some path) value) fun _ => value
  | merge (source : Fields) :
      Writes path (.merge (some path) (.object source))
        fun slot => .object (mergeFields ((slot.bind fields?).getD []) source)
  | assign (source : Fields) :
      Writes path (.assign (some path) (.object source))
        fun slot => .object (KeyMap.setAll ((slot.bind fields?).getD []) source)
  | append (value : Value) (limit : UInt64) :
      Writes path (.append path value limit)
        fun slot => .array (keepLast limit.toNat ((slot.bind items?).getD [] ++ appended value))

/-! ## Documents -/

theorem Document.get?_eq (document : Document) (path : String) :
    document.get? path = (Value.object document).find? (segments path) := rfl

theorem segments_ne_nil (path : String) : segments path ≠ [] := by
  simp [segments, Text.pieces_ne_nil]

/-- A path that is blocked is not rewritten. -/
theorem Document.rewrite_of_isBlocked (h : (Value.object document).IsBlocked (segments path))
    (f : Value → Value) : document.rewrite path f = document := by
  rw [rewrite, (rewrite?_eq_none_iff f).mpr h]

/-- A document that is rewritten below its root is a document. -/
theorem Document.object_rewrite (document : Document) (path : String) (f : Value → Value) :
    Value.object (document.rewrite path f) =
      ((Value.object document).rewrite? f (segments path)).getD (.object document) := by
  rw [rewrite]
  cases hrewrite : (Value.object document).rewrite? f (segments path) with
  | none => rfl
  | some v =>
    obtain ⟨fields, rfl⟩ := exists_object_of_rewrite? (segments_ne_nil path) hrewrite
    rfl

/-- Any other path is, and there is found what was made of the value found there before, unless an
array on the way was overrun. -/
theorem Document.get?_rewrite (hblocked : ¬ (Value.object document).IsBlocked (segments path))
    (hoverruns : ¬ (Value.object document).Overruns (segments path)) (f : Value → Value) :
    (document.rewrite path f).get? path = some (f ((document.get? path).getD .null)) := by
  obtain ⟨w, hw⟩ := Option.ne_none_iff_exists'.mp (mt (rewrite?_eq_none_iff f).mp hblocked)
  rw [get?_eq, object_rewrite, hw]
  exact find?_rewrite? hoverruns hw

/-- An array that is overrun is emptied, and nothing else is done. -/
theorem Document.rewrite_of_overruns (h : (Value.object document).Overruns (segments path))
    (f : Value → Value) :
    ∃ (before : List String) (segment : String) (after : List String) (items : List Value)
      (index : Nat),
      segments path = before ++ segment :: after ∧
        (Value.object document).find? before = some (.array items) ∧
        index? segment = some index ∧ ¬ HasRoom items index ∧
        Value.object (document.rewrite path f) =
          (Value.object document).amend (fun _ => .array []) before := by
  obtain ⟨before, segment, after, items, hpath, hfind, index, hindex, hroom⟩ := h
  refine ⟨before, segment, after, items, index, hpath, hfind, hindex, hroom, ?_⟩
  rw [object_rewrite, hpath, rewrite?_of_overrun hfind hindex hroom, Option.getD_some]

/-- Of two rewritings at the same path the second starts from what the first has made. -/
theorem Document.rewrite_rewrite (document : Document) (path : String) (f g : Value → Value) :
    (document.rewrite path f).rewrite path g = document.rewrite path (g ∘ f) := by
  by_cases h : (Value.object document).IsBlocked (segments path)
  · simp only [rewrite_of_isBlocked h]
  · obtain ⟨w, hw⟩ := Option.ne_none_iff_exists'.mp (mt (rewrite?_eq_none_iff f).mp h)
    obtain ⟨fields, rfl⟩ := exists_object_of_rewrite? (segments_ne_nil path) hw
    have hfirst : document.rewrite path f = fields := by
      rw [rewrite, hw]
      rfl
    rw [hfirst, rewrite, rewrite, rewrite?_rewrite? g hw]
    cases hagain : (Value.object document).rewrite? (g ∘ f) (segments path) with
    | some v => rfl
    | none => exact absurd ((rewrite?_eq_none_iff _).mp hagain) h

/-- Rewrites the slot at a key path by a walk in place. -/
def Document.rewriteInPlace (document : Document) (path : String) (f : Value → Value) : Document :=
  let (v, reached) := (Value.object document).makeWay (segments path)
  (if reached then v.amend f (segments path) else v).members

/-- Rewriting a slot is what a walk in place does. -/
theorem Document.rewrite_eq_inPlace (hdocument : (Value.object document).IsCanonical)
    (path : String) (f : Value → Value) :
    document.rewrite path f = document.rewriteInPlace path f := by
  by_cases hblocked : (Value.object document).IsBlocked (segments path)
  · rw [rewrite_of_isBlocked hblocked, rewriteInPlace, makeWay_of_isBlocked hdocument hblocked]
    rfl
  by_cases hoverruns : (Value.object document).Overruns (segments path)
  · obtain ⟨before, segment, after, items, hpath, hfind, index, hindex, hroom⟩ := hoverruns
    rw [rewrite, rewriteInPlace, hpath, rewrite?_of_overrun hfind hindex hroom,
      makeWay_of_overrun hfind hindex hroom]
    rfl
  · obtain ⟨hreached, hrewrite⟩ := makeWay_of_free f hblocked hoverruns
    rw [rewrite, hrewrite, rewriteInPlace]
    simp [hreached]

theorem nonEmpty?_of_ne (h : path ≠ "") : nonEmpty? (some path) = some path := by
  simp [nonEmpty?, Option.filter, h]

/-! ## Edits that write -/

/-- A valid edit with a path writes there or deletes there. -/
theorem Edit.writes_or_deletes {edit : Edit} (hpath : edit.path? = some path)
    (hvalid : edit.validate = .ok ()) :
    (∃ effect, edit.Writes path effect) ∨ ∃ keys, edit = .delete (some path) keys := by
  cases edit with
  | clear => simp [path?] at hpath
  | set _ value =>
    cases hpath
    exact .inl ⟨_, .set value⟩
  | merge _ value =>
    cases hpath
    cases value with
    | object source => exact .inl ⟨_, .merge source⟩
    | _ => simp [validate, isObject, fields?] at hvalid
  | assign _ value =>
    cases hpath
    cases value with
    | object source => exact .inl ⟨_, .assign source⟩
    | _ => simp [validate, isObject, fields?] at hvalid
  | append _ value limit =>
    cases hpath
    exact .inl ⟨_, .append value limit⟩
  | delete _ keys =>
    cases hpath
    exact .inr ⟨keys, rfl⟩

theorem Edit.Writes.path?_eq {edit : Edit} {effect : Option Value → Value}
    (h : edit.Writes path effect) : edit.path? = some path := by
  cases h <;> rfl

/-- Applying an edit that writes is rewriting the slot at its path, where a null counts as nothing. -/
theorem Edit.Writes.apply_eq {edit : Edit} {effect : Option Value → Value}
    (h : edit.Writes path effect) (hpath : path ≠ "") :
    (∀ document : Document,
      edit.apply document = document.rewrite path fun slot => effect (some slot)) ∧
    effect (some .null) = effect none := by
  cases h with
  | set | append => exact ⟨fun _ => rfl, rfl⟩
  | merge | assign =>
    refine ⟨fun document => ?_, rfl⟩
    simp only [apply, Document.rewriteObject, nonEmpty?_of_ne hpath]
    rfl

/-- The edit writes at a path that leads into an array of the document at an index for which the
array has no room: the number of items up to it overflows. -/
def Edit.Overruns (edit : Edit) (document : Document) : Prop :=
  ∃ path effect, edit.Writes path effect ∧ (Value.object document).Overruns (segments path)

/-- What a deletion makes of a value. -/
def eraseKeys (keys : List String) : Value → Value
  | .object fields => .object (fields.filter fun entry => entry.1 ∉ keys)
  | v => v

theorem apply_delete (hpath : path ≠ "") (keys : List String) :
    (Edit.delete (some path) keys).apply document =
      ((Value.object document).amend (eraseKeys keys) (segments path)).members := by
  simp only [Edit.apply, Document.amendObject, nonEmpty?_of_ne hpath, KeyMap.foldl_erase]
  rfl

/-- A document that is amended below its root is a document. -/
theorem object_members_amend (f : Value → Value) (document : Document) (path : String) :
    Value.object ((Value.object document).amend f (segments path)).members =
      (Value.object document).amend f (segments path) := by
  obtain ⟨fields, hfields⟩ := exists_object_of_amend f document (segments_ne_nil path)
  rw [hfields]
  rfl

theorem isSome_find?_of_eraseKeys {keys : List String} {v : Value} {other : List String}
    (h : ((eraseKeys keys v).find? other).isSome) : (v.find? other).isSome := by
  cases v with
  | object fields =>
    cases other with
    | nil => rfl
    | cons segment rest =>
      rw [eraseKeys, ← KeyMap.foldl_erase, find?_cons, child?, KeyMap.get?_foldl_erase] at h
      split at h
      · simp at h
      · exact h
  | _ => exact h

/-- A deletion is for the object that stands at its path, and changes nothing if there is none. -/
theorem apply_delete_eq_self (hdocument : (Value.object document).IsCanonical) (hpath : path ≠ "")
    (keys : List String) (hno : ∀ fields, document.get? path ≠ some (.object fields)) :
    (Edit.delete (some path) keys).apply document = document := by
  rw [apply_delete hpath, amend_eq_self hdocument]
  · rfl
  · intro slot hslot
    cases slot with
    | object fields => exact absurd hslot (hno fields)
    | _ => rfl

/-- Otherwise it sets the path to what is left of that object. -/
theorem apply_delete_eq_set (hpath : path ≠ "") (keys : List String) {fields : Fields}
    (hfields : document.get? path = some (.object fields)) :
    (Edit.delete (some path) keys).apply document =
      (Edit.set (some path)
        (.object (fields.filter fun entry => entry.1 ∉ keys))).apply document := by
  have hrewrite := rewrite?_eq_amend (f := eraseKeys keys) hfields
  rw [apply_delete hpath, Edit.apply, Option.getD_some, Document.rewrite]
  rw [eraseKeys] at hrewrite
  rw [hrewrite]

/-- Nothing is found after a deletion where nothing was found before. -/
theorem isSome_get?_of_apply_delete (hpath : path ≠ "") {keys : List String} {other : String}
    (h : (((Edit.delete (some path) keys).apply document).get? other).isSome) :
    (document.get? other).isSome := by
  rw [apply_delete hpath, Document.get?_eq, object_members_amend] at h
  exact isSome_find?_of_amend (fun _ _ => isSome_find?_of_eraseKeys) h

/-! ## Any edit with a path -/

/-- What a valid edit does at its path. An edit that writes is passed over if the path is blocked,
and then not even the walk there has changed the document; otherwise the path finds what the edit
makes of the value found there before, provided that the arrays on the way have room for the indexes
there. A deletion takes the keys from the object that stands at the
path and changes nothing else; it changes nothing at all if there is none, and makes nothing. -/
theorem Edit.apply_at {edit : Edit} (hdocument : (Value.object document).IsCanonical)
    (hedit : edit.path? = some path) (hpath : path ≠ "") (hvalid : edit.validate = .ok ()) :
    (∃ effect, edit.Writes path effect ∧
      ((Value.object document).IsBlocked (segments path) →
        edit.apply document = document ∧
        (Value.object document).makeWay (segments path) = (.object document, false)) ∧
      (¬ (Value.object document).IsBlocked (segments path) →
        ¬ (Value.object document).Overruns (segments path) →
        (edit.apply document).get? path = some (effect (document.get? path)))) ∨
    ∃ keys, edit = .delete (some path) keys ∧
      ((∀ fields, document.get? path ≠ some (.object fields)) → edit.apply document = document) ∧
      (∀ fields, document.get? path = some (.object fields) →
        let left := Value.object (fields.filter fun entry => entry.1 ∉ keys)
        (edit.apply document).get? path = some left ∧
        edit.apply document = (Edit.set (some path) left).apply document) ∧
      (∀ other, ((edit.apply document).get? other).isSome → (document.get? other).isSome) := by
  rcases edit.writes_or_deletes hedit hvalid with ⟨effect, hwrites⟩ | ⟨keys, rfl⟩
  · obtain ⟨happly, hnull⟩ := hwrites.apply_eq hpath
    refine .inl ⟨effect, hwrites, fun hblocked => ⟨?_, ?_⟩, fun hblocked hoverruns => ?_⟩
    · rw [happly, Document.rewrite_of_isBlocked hblocked]
    · exact makeWay_of_isBlocked hdocument hblocked
    · rw [happly, Document.get?_rewrite hblocked hoverruns]
      cases document.get? path with
      | none => exact congrArg some hnull
      | some slot => rfl
  · refine .inr ⟨keys, rfl, apply_delete_eq_self hdocument hpath keys, fun fields hfields => ⟨?_, ?_⟩,
      fun other => isSome_get?_of_apply_delete hpath⟩
    · rw [apply_delete hpath, Document.get?_eq, object_members_amend, find?_amend,
        ← Document.get?_eq, hfields]
      rfl
    · exact apply_delete_eq_set hpath keys hfields

/-- In a document with a list of one row, an append two rows further on finds its way past the end
of the list; at a name, which is no index, it is passed over. -/
theorem get?_append_rows :
    ((Edit.append "rows.2.log" (.bool true) 1).apply [("rows", .array [.null])]).get? "rows.2.log" =
      some (.array [.bool true]) ∧
    (Edit.append "rows.last.log" (.bool true) 1).apply [("rows", .array [.null])] =
      [("rows", .array [.null])] := by
  have hrows : (Value.object [("rows", .array [.null])]).IsCanonical :=
    every_object.mpr ⟨by simp [KeyMap.Sorted, KeyMap.keys], by simp⟩
  constructor
  · have hpath : (Edit.append "rows.2.log" (.bool true) 1).path? = some "rows.2.log" := rfl
    rcases Edit.apply_at hrows hpath (by decide) (by decide) with
      ⟨effect, hwrites, -, hfree⟩ | ⟨keys, hdelete, -⟩
    · rw [hfree (by decide) (by decide)]
      cases hwrites
      decide
    · cases hdelete
  · have hpath : (Edit.append "rows.last.log" (.bool true) 1).path? = some "rows.last.log" := rfl
    rcases Edit.apply_at hrows hpath (by decide) (by decide) with
      ⟨effect, -, hblocked, -⟩ | ⟨keys, hdelete, -⟩
    · exact (hblocked (by decide)).1
    · cases hdelete

end LiveDoc
