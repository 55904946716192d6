import LiveDoc.Proofs.Json.ReadBack
import LiveDoc.Proofs.Json.Readable

/-!
# LiveDoc — which values are read back

A canonical value is read back from its text exactly if all its numbers are and it nests within the
limit. Integers of 64 bits always are. The text of a float shows the float, but what is read from it
is computed with one rounding for its digits, one for the power of ten and one for both together, and
may come out as a neighbour.

* `parse?_text_eq_self_iff` — which values are read back.
* `Numeral.number?_eq_div` — the float of a numeral that stands for digits over a power of ten.
-/

namespace LiveDoc.Json

namespace Value

mutual

/-- Only numbers that read back are read back. -/
theorem allNumbers_of_value? : ∀ {v : Value} {limit : Nat}, v.IsCanonical →
    v.toNode.value? limit = some v → v.AllNumbers Number.ReadsBack
  | .null, _, _, _ | .bool _, _, _, _ | .string _, _, _, _ => by simp
  | .number n, _, _, h => by
    rw [toNode, Node.value?] at h
    obtain ⟨m, hm, heq⟩ := Option.map_eq_some_iff.mp h
    cases heq
    exact every_number.mpr ⟨n.toNumeral, n.numeral_chars, hm⟩
  | .array items, _, hcanonical, h => by
    rw [toNode, Node.value?] at h
    split at h
    · cases h
    · obtain ⟨read, hread, heq⟩ := Option.map_eq_some_iff.mp h
      cases heq
      exact allNumbers_of_itemsValue? hcanonical hread
  | .object members, _, hcanonical, h => by
    rw [toNode, Node.value?] at h
    split at h
    · cases h
    · obtain ⟨read, hread, heq⟩ := Option.map_eq_some_iff.mp h
      -- The keys are read as they are, and so in their order already.
      have hsorted : KeyMap.Sorted read := by
        refine KeyMap.sorted_of_keys_eq ?_ (every_object.mp hcanonical).1
        rw [Node.membersValue?_memberNodes hread]
        simp [KeyMap.keys]
      rw [KeyMap.ofEntries_eq_self hsorted] at heq
      cases heq
      exact ⟨trivial, allNumbers_of_membersValue? hcanonical.2 hread⟩

theorem allNumbers_of_itemsValue? : ∀ {items : List Value} {limit : Nat},
    everyItem KeyMap.Sorted (fun _ => True) items →
      Node.itemsValue? limit (itemNodes items) = some items →
        everyItem (fun _ => True) Number.ReadsBack items
  | [], _, _, _ => trivial
  | v :: rest, _, hcanonical, h => by
    rw [itemNodes, Node.itemsValue?] at h
    obtain ⟨first, hfirst, h⟩ := Option.bind_eq_some_iff.mp h
    obtain ⟨more, hmore, h⟩ := Option.bind_eq_some_iff.mp h
    cases h
    exact ⟨allNumbers_of_value? hcanonical.1 hfirst, allNumbers_of_itemsValue? hcanonical.2 hmore⟩

theorem allNumbers_of_membersValue? : ∀ {members : Fields} {limit : Nat},
    everyMember KeyMap.Sorted (fun _ => True) members →
      Node.membersValue? limit (memberNodes members) = some members →
        everyMember (fun _ => True) Number.ReadsBack members
  | [], _, _, _ => trivial
  | (key, v) :: rest, _, hcanonical, h => by
    rw [memberNodes, Node.membersValue?] at h
    obtain ⟨text, -, h⟩ := Option.bind_eq_some_iff.mp h
    obtain ⟨first, hfirst, h⟩ := Option.bind_eq_some_iff.mp h
    obtain ⟨more, hmore, h⟩ := Option.bind_eq_some_iff.mp h
    cases h
    exact ⟨allNumbers_of_value? hcanonical.1 hfirst, allNumbers_of_membersValue? hcanonical.2 hmore⟩

end

end Value

/-- A canonical value is read back from its text exactly if its numbers are and it nests within the
limit. -/
theorem parse?_text_eq_self_iff {v : Value} (h : v.IsCanonical) :
    parse? v.text = some v ↔ v.AllNumbers Number.ReadsBack ∧ v.depth ≤ maxDepth := by
  refine ⟨fun hread => ?_, fun ⟨hnumbers, hdepth⟩ => ?_⟩
  · rw [parse?_text_eq] at hread
    exact ⟨Value.allNumbers_of_value? h hread, parse?_depth (parse?_text_eq v ▸ hread)⟩
  · rw [parse?_text hnumbers, if_pos hdepth, Value.canonical_eq_self h]

/-! ## Floats -/

/-- Integers that fit read back, so it depends on the floats whether all numbers do. -/
theorem Value.Every.readsBack_iff {v : Value} (h : v.Regular Number.Fits) :
    v.AllNumbers Number.ReadsBack ↔ v.AllNumbers Number.FloatReadsBack := by
  refine ⟨fun hnumbers => hnumbers.mono (fun _ _ => trivial) fun n hn => ?_, fun hfloats =>
    (h.and hfloats).mono (fun _ _ => trivial) fun _ hn => Number.readsBack_of_fits hn.1 hn.2⟩
  cases n with
  | int i => trivial
  | float bits => exact hn

theorem Value.Every.readsBack {v : Value} (h : v.Regular Number.Fits)
    (hfloats : v.AllNumbers Number.FloatReadsBack) : v.Regular Number.ReadsBack :=
  h.isCanonical.regular (h.readsBack_iff.mpr hfloats)

/-- A numeral without sign, whose digits all fit 64 bits and stand for a multiple of a negative power of
ten, is read as the digits over that power, each rounded to a float and their quotient again. -/
theorem Numeral.number?_eq_div {n : Numeral} (whole used significand places power : Nat)
    (hsign : n.negative = false) (hpart : n.isWhole = false)
    (hwhole : appendDigits 0 n.whole = (whole, used, 0))
    (hfraction : appendDigits whole n.fraction = (significand, places, 0))
    (hexponent : n.writtenExponent? = some (places - power : Int))
    (hpower : 0 < power ∧ power ≤ 308) :
    n.number? = some (.float ((UInt64.ofNat significand).toFloat / powerOfTen power).toBits) := by
  have hscale (x : Float) : scaleByTen x (-power) = some (x / powerOfTen power) := by
    rw [scaleByTen, if_neg (by omega), if_neg (by omega), if_pos (by omega)]
    simp
  have hnet : (places - power : Int) + (0 : Nat) - places = -power := by omega
  have hfloat : n.float? = some ((UInt64.ofNat significand).toFloat / powerOfTen power) := by
    rw [float?, hwhole]
    simp only [hfraction, hexponent, hnet, hscale, hsign, Option.map_some, Bool.false_eq_true,
      ↓reduceIte]
  rw [number?, hwhole, hfloat]
  simp [hpart]

end LiveDoc.Json
