import LiveDoc.Document.Merge
import LiveDoc.Proofs.Json.Canonical

/-!
# LiveDoc — merging key by key

A merge is settled key by key: under each key of the source it makes something of the two values
there, and it leaves every other key alone. What it makes of an object that is laid over no object is
that object itself, so there it is as if an empty one had stood there. That is why a merged object
absorbs its source: whatever stood under a key before, the same source finds there what it has left.

* `sorted_mergeFields`, `get?_mergeFields` — the object after a merge.
* `mergeSlot_object` — an object laid over whatever stands there.
* `mergeFields_mergeFields` — the same source merged twice.
-/

namespace LiveDoc.Json

open Value

variable {target source : Fields}

theorem sorted_mergeFields (h : KeyMap.Sorted target) (source : Fields) :
    KeyMap.Sorted (mergeFields target source) := by
  induction source generalizing target with
  | nil => rwa [mergeFields]
  | cons entry rest ih =>
    rw [mergeFields]
    exact ih (h.set _ _)

/-- What a key holds after a merge: what was made of the two values there, or what it held before if
the source has nothing there. -/
theorem get?_mergeFields (h : KeyMap.Sorted source) (target : Fields) (key : String) :
    KeyMap.get? (mergeFields target source) key =
      ((KeyMap.get? source key).map (mergeSlot (KeyMap.get? target key))).or
        (KeyMap.get? target key) := by
  induction source generalizing target with
  | nil => simp [mergeFields]
  | cons entry rest ih =>
    obtain ⟨k, incoming⟩ := entry
    obtain ⟨hlt, hrest⟩ := KeyMap.sorted_cons.mp h
    rw [mergeFields, ih hrest]
    by_cases hkey : k = key
    · subst hkey
      have habsent : KeyMap.get? rest k = none :=
        KeyMap.get?_eq_none_iff.mpr fun hmem => (hlt k hmem).ne rfl
      simp [habsent, KeyMap.get?, KeyMap.get?_set_self]
    · simp [KeyMap.get?, hkey, KeyMap.get?_set_of_ne]

/-- Laid over nothing a value stays as it is. -/
@[simp] theorem mergeSlot_none (incoming : Value) : mergeSlot none incoming = incoming := by
  cases incoming <;> simp [mergeSlot]

theorem mergeFields_nil (h : KeyMap.Sorted source) : mergeFields [] source = source := by
  refine KeyMap.Sorted.ext (sorted_mergeFields KeyMap.sorted_nil source) h fun key => ?_
  rw [get?_mergeFields h]
  cases KeyMap.get? source key <;> simp

/-- An object is merged into the one that stands there; anything else counts as an empty object. -/
theorem mergeSlot_object (h : KeyMap.Sorted source) (existing : Option Value) :
    mergeSlot existing (.object source) =
      .object (mergeFields ((existing.bind fields?).getD []) source) := by
  cases existing with
  | none => simp [mergeFields_nil h]
  | some slot => cases slot <;> simp [mergeSlot, fields?, mergeFields_nil h]

/-- A merged object absorbs its source if every value of the source is absorbed where it was laid. -/
theorem mergeFields_mergeFields_of_forall (htarget : KeyMap.Sorted target)
    (hsource : KeyMap.Sorted source)
    (h : ∀ entry ∈ source,
      mergeSlot (some (mergeSlot (KeyMap.get? target entry.1) entry.2)) entry.2 =
        mergeSlot (KeyMap.get? target entry.1) entry.2) :
    mergeFields (mergeFields target source) source = mergeFields target source := by
  have hmerged := sorted_mergeFields htarget source
  refine KeyMap.Sorted.ext (sorted_mergeFields hmerged source) hmerged fun key => ?_
  rw [get?_mergeFields hsource, get?_mergeFields hsource]
  cases hkey : KeyMap.get? source key with
  | none => rfl
  | some incoming => simp [h _ (KeyMap.mem_of_get? hkey)]

theorem isCanonical_getD_fields? {existing : Option Value}
    (h : ∀ slot, existing = some slot → slot.IsCanonical) :
    (Value.object ((existing.bind fields?).getD [])).IsCanonical := by
  have hempty : (Value.object []).IsCanonical := every_object.mpr ⟨KeyMap.sorted_nil, nofun⟩
  cases existing with
  | none => exact hempty
  | some slot =>
    cases slot with
    | object target => exact h _ rfl
    | _ => exact hempty

mutual

/-- What was made of a value and what stood there absorbs the value. -/
theorem mergeSlot_mergeSlot : ∀ {incoming : Value} {existing : Option Value},
    incoming.IsCanonical → (∀ slot, existing = some slot → slot.IsCanonical) →
      mergeSlot (some (mergeSlot existing incoming)) incoming = mergeSlot existing incoming
  | .object source, existing, hincoming, hexisting => by
    have hsource := (every_object.mp hincoming).1
    have htarget := isCanonical_getD_fields? hexisting
    rw [mergeSlot_object hsource existing, mergeSlot_object hsource, Option.bind_some, fields?,
      Option.getD_some, mergeFields_mergeFields_of_forall (every_object.mp htarget).1 hsource]
    exact fun entry hentry => mergeSlot_mergeSlot_of_mem hincoming.2 entry hentry
      fun slot hslot => htarget.of_get? hslot
  | .null, _, _, _ | .bool _, _, _, _ | .number _, _, _, _ | .string _, _, _, _
  | .array _, _, _, _ => by simp [mergeSlot]

theorem mergeSlot_mergeSlot_of_mem : ∀ {source : Fields},
    everyMember KeyMap.Sorted (fun _ => True) source →
      ∀ entry ∈ source, ∀ {existing : Option Value},
        (∀ slot, existing = some slot → slot.IsCanonical) →
          mergeSlot (some (mergeSlot existing entry.2)) entry.2 = mergeSlot existing entry.2
  | (_, _) :: _, hsource, entry, hentry, existing, hexisting => by
    rcases List.mem_cons.mp hentry with rfl | hmem
    · exact mergeSlot_mergeSlot hsource.1 hexisting
    · exact mergeSlot_mergeSlot_of_mem hsource.2 entry hmem hexisting

end

/-- A merged object absorbs the source that was merged into it. -/
theorem mergeFields_mergeFields (htarget : (Value.object target).IsCanonical)
    (hsource : (Value.object source).IsCanonical) :
    mergeFields (mergeFields target source) source = mergeFields target source :=
  mergeFields_mergeFields_of_forall (every_object.mp htarget).1 (every_object.mp hsource).1
    fun entry hentry => mergeSlot_mergeSlot_of_mem hsource.2 entry hentry
      fun _ hslot => htarget.of_get? hslot

end LiveDoc.Json
