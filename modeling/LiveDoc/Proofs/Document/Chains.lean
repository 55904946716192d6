import LiveDoc.Proofs.Document.Merging

/-!
# LiveDoc — a merge read by chains of keys

A chain of keys leads from object to object. It may come to a value, to an object that lacks the
next key, or to something in which there are no keys. What a chain finds in a merged object is
settled by where it leads in the source: the source's value stands there, laid over the target's if
both are objects; past a value of the source that is no object there is nothing; and where the
source lacks a key the merge shows what the target has. So nothing of the target is lost or changed
beside the keys of the source, and no leaf of the source is missing.

* `Value.follow`, `Value.under?` — where a chain leads, and what it finds.
* `under?_mergeFields` — what it finds in a merged object.
-/

namespace LiveDoc.Json

/-- Where a chain of keys leads. -/
inductive Landing where
  | value (v : Value)
  -- An object on the way lacks its key.
  | missing
  -- There are no keys in what was met before the end.
  | barred

namespace Landing

def value? : Landing → Option Value
  | .value v => some v
  | .missing | .barred => none

/-- What is read of a merge where a chain leads in its source, by what it finds in the target. -/
def laidOver (existing : Option Value) : Landing → Option Value
  | .value incoming => some (mergeSlot existing incoming)
  | .missing => existing
  | .barred => none

end Landing

namespace Value

/-- Follows a chain of keys, through objects only. -/
def follow : Value → List String → Landing
  | v, [] => .value v
  | .object members, key :: keys =>
    match KeyMap.get? members key with
    | some v => v.follow keys
    | none => .missing
  | _, _ :: _ => .barred

/-- What a chain of keys finds, through objects only. -/
def under? (v : Value) (keys : List String) : Option Value := (v.follow keys).value?

variable {members : Fields} {key : String}

theorem follow_nil (v : Value) : v.follow [] = .value v := by cases v <;> rfl

theorem follow_of_get? {v : Value} (h : KeyMap.get? members key = some v) (keys : List String) :
    (Value.object members).follow (key :: keys) = v.follow keys := by
  rw [follow, h]

theorem follow_of_absent (h : KeyMap.get? members key = none) (keys : List String) :
    (Value.object members).follow (key :: keys) = .missing := by
  rw [follow, h]

theorem under?_singleton (members : Fields) (key : String) :
    (Value.object members).under? [key] = KeyMap.get? members key := by
  cases hget : KeyMap.get? members key with
  | none => rw [under?, follow_of_absent hget]; rfl
  | some v => rw [under?, follow_of_get? hget, follow_nil]; rfl

/-- A chain that goes on needs an object; to what it finds, anything else is as good as an empty
one. -/
theorem under?_cons_cons (members : Fields) (key next : String) (keys : List String) :
    (Value.object members).under? (key :: next :: keys) =
      (Value.object (((KeyMap.get? members key).bind fields?).getD [])).under? (next :: keys) := by
  cases hget : KeyMap.get? members key with
  | none => rw [under?, follow_of_absent hget]; rfl
  | some v => rw [under?, follow_of_get? hget]; cases v <;> rfl

end Value

open Value

variable {source : Fields}

/-- What a chain finds in a merged object, by where it leads in the source. -/
theorem under?_mergeFields_eq_laidOver (h : (Value.object source).IsCanonical) (target : Fields)
    (key : String) (keys : List String) :
    (Value.object (mergeFields target source)).under? (key :: keys) =
      ((Value.object source).follow (key :: keys)).laidOver
        ((Value.object target).under? (key :: keys)) := by
  have hsource := (every_object.mp h).1
  -- The chain is followed step by step, through source, target and merge at once.
  induction keys generalizing target source key with
  | nil =>
    rw [under?_singleton, under?_singleton, get?_mergeFields hsource]
    cases hkey : KeyMap.get? source key with
    | none => rw [follow_of_absent hkey]; rfl
    | some incoming => rw [follow_of_get? hkey, follow_nil]; rfl
  | cons next keys ih =>
    rw [under?_cons_cons, under?_cons_cons, get?_mergeFields hsource]
    cases hkey : KeyMap.get? source key with
    | none => rw [follow_of_absent hkey]; rfl
    | some incoming =>
      have hincoming := h.of_get? hkey
      rw [follow_of_get? hkey, Option.map_some, Option.some_or, Option.bind_some]
      cases incoming with
      | object nested =>
        have hnested := (every_object.mp hincoming).1
        rw [mergeSlot_object hnested]
        exact ih hincoming _ next hnested
      | _ => rfl

/-- What a chain of keys finds in a merged object, for all shapes that the two objects may have.
Where the source has an object it is merged into the object that the target has there, and stands
there itself if the target has none. Where the source has any other value this is what is found, and
past it nothing is. Where the source lacks a key of the chain, the target is read. -/
theorem under?_mergeFields (h : (Value.object source).IsCanonical) (target : Fields) (key : String)
    (keys : List String) :
    (Value.object (mergeFields target source)).under? (key :: keys) =
      match (Value.object source).follow (key :: keys) with
      | .value (.object nested) =>
        match (Value.object target).under? (key :: keys) with
        | some (.object existing) => some (.object (mergeFields existing nested))
        | _ => some (.object nested)
      | .value incoming => some incoming
      | .barred => none
      | .missing => (Value.object target).under? (key :: keys) := by
  rw [under?_mergeFields_eq_laidOver h]
  generalize (Value.object target).under? (key :: keys) = existing
  cases (Value.object source).follow (key :: keys) with
  | value incoming =>
    cases incoming with
    | object nested =>
      cases existing with
      | none => rfl
      | some slot => cases slot <;> rfl
    | _ => rfl
  | missing => rfl
  | barred => rfl

/-- A member that the target has beside the source's is kept two keys down; a scalar of the source
takes the place of an object. -/
theorem under?_mergeFields_beside :
    let target : Fields :=
      [("a", .object [("b", .object [("x", .bool true)]), ("c", .object [("y", .null)])])]
    let source : Fields :=
      [("a", .object [("b", .object [("z", .array [])]), ("c", .bool false)])]
    let merged := Value.object (mergeFields target source)
    (Value.object source).IsCanonical ∧ merged.under? ["a", "b", "x"] = some (.bool true) ∧
      merged.under? ["a", "b"] = some (.object [("x", .bool true), ("z", .array [])]) ∧
      merged.under? ["a", "c"] = some (.bool false) ∧ merged.under? ["a", "c", "y"] = none := by
  intro target source merged
  have hnested : (Value.object [("z", .array [])]).IsCanonical :=
    every_object.mpr ⟨List.pairwise_singleton _ _, by simp⟩
  have hkeys : List.Pairwise (· < ·) ["b", "c"] := by decide
  have hmiddle :
      (Value.object [("b", .object [("z", .array [])]), ("c", .bool false)]).IsCanonical :=
    every_object.mpr ⟨hkeys, by simpa using hnested⟩
  have hsource : (Value.object source).IsCanonical :=
    every_object.mpr ⟨List.pairwise_singleton _ _, by simpa [source] using hmiddle⟩
  refine ⟨hsource, ?_, ?_, ?_, ?_⟩
  · exact (under?_mergeFields hsource target "a" ["b", "x"]).trans rfl
  · exact (under?_mergeFields hsource target "a" ["b"]).trans (by decide)
  · exact (under?_mergeFields hsource target "a" ["c"]).trans rfl
  · exact (under?_mergeFields hsource target "a" ["c", "y"]).trans rfl

end LiveDoc.Json
