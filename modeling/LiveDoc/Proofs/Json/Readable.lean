import LiveDoc.Proofs.Json.Nesting
import LiveDoc.Proofs.Json.Numerals

/-!
# LiveDoc — what is read from text

Whatever text it is read from, a value has sorted objects and integers of 64 bits, and it nests no
deeper than the limit.

* `Node.readable_of_value?` — values that are read are regular and within the limit.
* `parse?_regular`, `parse?_depth` — the same for a whole text.
-/

namespace LiveDoc.Json

open Json.Value

/-! ## Numbers -/

theorem appendDigits_lt {acc : Nat} (h : acc < UInt64.size) (ds : List Char) :
    (appendDigits acc ds).1 < UInt64.size := by
  induction ds generalizing acc with
  | nil => exact h
  | cons c ds ih =>
    rw [appendDigits]
    by_cases hfits : acc * 10 + digitValue c < UInt64.size
    · simpa [hfits] using ih hfits
    · simpa [hfits] using h

/-- The number of a numeral fits 64 bits if it is an integer. -/
theorem Numeral.fits_of_number? {numeral : Numeral} {n : Number} (h : numeral.number? = some n) :
    n.Fits := by
  have hlt : (appendDigits 0 numeral.whole).1 < UInt64.size :=
    appendDigits_lt (by decide) numeral.whole
  rcases happend : appendDigits 0 numeral.whole with ⟨whole, used, left⟩
  rw [happend] at hlt
  rw [Numeral.number?, happend] at h
  by_cases hwhole : numeral.isWhole ∧ left = 0 ∧
      (numeral.negative → 0 < whole ∧ whole ≤ 9223372036854775808)
  · obtain rfl := Option.some.inj ((if_pos hwhole).symm.trans h)
    have hsize : UInt64.size = 18446744073709551616 := rfl
    cases hneg : numeral.negative with
    | true =>
      have hbound := (hwhole.2.2 hneg).2
      simp only [Number.Fits, ↓reduceIte]
      omega
    | false =>
      simp only [Number.Fits, Bool.false_eq_true, ↓reduceIte]
      omega
  · obtain ⟨x, -, rfl⟩ := Option.map_eq_some_iff.mp ((if_neg hwhole).symm.trans h)
    trivial

/-! ## Values -/

namespace Node

mutual

/-- What is read under a limit is regular and nests no deeper than that. -/
theorem readable_of_value? : ∀ {node : Node} {limit : Nat} {v : Value},
    node.value? limit = some v → v.Regular Number.Fits ∧ v.depth ≤ limit
  | .null, limit, _, h => by
    cases h
    exact ⟨every_null, Nat.zero_le limit⟩
  | .bool b, limit, _, h => by
    cases h
    exact ⟨every_bool b, Nat.zero_le limit⟩
  | .number numeral, limit, _, h => by
    obtain ⟨n, hn, rfl⟩ := Option.map_eq_some_iff.mp h
    exact ⟨every_number.mpr (Numeral.fits_of_number? hn), Nat.zero_le limit⟩
  | .string glyphs, limit, _, h => by
    obtain ⟨text, -, rfl⟩ := Option.map_eq_some_iff.mp h
    exact ⟨every_string text, Nat.zero_le limit⟩
  | .array nodes, limit, v, h => by
    rw [value?] at h
    split at h
    · cases h
    · obtain ⟨items, hitems, rfl⟩ := Option.map_eq_some_iff.mp h
      have hread := readable_of_itemsValue? hitems
      have hinner : itemsDepth items ≤ limit - 1 :=
        itemsDepth_le_iff.mpr fun v hv => (hread v hv).2
      refine ⟨every_array.mpr fun v hv => (hread v hv).1, ?_⟩
      rw [depth]
      omega
  | .object nodes, limit, v, h => by
    rw [value?] at h
    split at h
    · cases h
    · obtain ⟨members, hmembers, rfl⟩ := Option.map_eq_some_iff.mp h
      have hread : ∀ entry ∈ KeyMap.ofEntries members,
          entry.2.Regular Number.Fits ∧ entry.2.depth ≤ limit - 1 := fun entry hentry =>
        readable_of_membersValue? hmembers entry (KeyMap.mem_of_mem_ofEntries hentry)
      have hinner : membersDepth (KeyMap.ofEntries members) ≤ limit - 1 :=
        membersDepth_le_iff.mpr fun entry hentry => (hread entry hentry).2
      refine ⟨every_object.mpr ⟨KeyMap.sorted_ofEntries members, fun entry hentry =>
        (hread entry hentry).1⟩, ?_⟩
      rw [depth]
      omega

theorem readable_of_itemsValue? : ∀ {nodes : List Node} {limit : Nat} {items : List Value},
    itemsValue? limit nodes = some items →
      ∀ v ∈ items, v.Regular Number.Fits ∧ v.depth ≤ limit
  | [], _, _, h, v, hv => by
    cases h
    cases hv
  | node :: nodes, limit, items, h, v, hv => by
    rw [itemsValue?] at h
    obtain ⟨first, hfirst, h⟩ := Option.bind_eq_some_iff.mp h
    obtain ⟨rest, hrest, h⟩ := Option.bind_eq_some_iff.mp h
    cases h
    rcases List.mem_cons.mp hv with rfl | hmem
    · exact readable_of_value? hfirst
    · exact readable_of_itemsValue? hrest v hmem

theorem readable_of_membersValue? : ∀ {nodes : List (List Glyph × Node)} {limit : Nat}
    {members : Fields}, membersValue? limit nodes = some members →
      ∀ entry ∈ members, entry.2.Regular Number.Fits ∧ entry.2.depth ≤ limit
  | [], _, _, h, entry, hentry => by
    cases h
    cases hentry
  | (glyphs, node) :: nodes, limit, members, h, entry, hentry => by
    rw [membersValue?] at h
    obtain ⟨key, -, h⟩ := Option.bind_eq_some_iff.mp h
    obtain ⟨first, hfirst, h⟩ := Option.bind_eq_some_iff.mp h
    obtain ⟨rest, hrest, h⟩ := Option.bind_eq_some_iff.mp h
    cases h
    rcases List.mem_cons.mp hentry with rfl | hmem
    · exact readable_of_value? hfirst
    · exact readable_of_membersValue? hrest entry hmem

end

end Node

/-- A value that is read from a text is regular. -/
theorem parse?_regular {text : String} {v : Value} (h : parse? text = some v) :
    v.Regular Number.Fits := by
  obtain ⟨node, -, hvalue⟩ := Option.bind_eq_some_iff.mp h
  exact (Node.readable_of_value? hvalue).1

/-- A value that is read from a text nests within the limit. -/
theorem parse?_depth {text : String} {v : Value} (h : parse? text = some v) : v.depth ≤ maxDepth := by
  obtain ⟨node, -, hvalue⟩ := Option.bind_eq_some_iff.mp h
  exact (Node.readable_of_value? hvalue).2

end LiveDoc.Json
