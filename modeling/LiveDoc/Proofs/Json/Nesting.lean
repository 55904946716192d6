import LiveDoc.Proofs.Json.Canonical

/-!
# LiveDoc — how deep a value nests

An array or object nests one container more than any value in it. Chains of objects show that values
of every depth exist.

* `Value.itemsDepth_le_iff`, `Value.membersDepth_le_iff` — a limit on all values of a container.
* `Value.depth_canonical_le` — the canonical form nests no deeper.
* `chain` — a value of the given depth.
-/

namespace LiveDoc.Json.Value

/-- A limit on the depth of items is one on each of them. -/
theorem itemsDepth_le_iff {items : List Value} {limit : Nat} :
    itemsDepth items ≤ limit ↔ ∀ v ∈ items, v.depth ≤ limit := by
  induction items with
  | nil => simp [itemsDepth]
  | cons v rest ih => simp [itemsDepth, ih]

/-- A limit on the depth of members is one on the value of each of them. -/
theorem membersDepth_le_iff {members : Fields} {limit : Nat} :
    membersDepth members ≤ limit ↔ ∀ member ∈ members, member.2.depth ≤ limit := by
  induction members with
  | nil => simp [membersDepth]
  | cons member rest ih => simp [membersDepth, ih]

mutual

/-- The canonical form of a value nests no deeper than the value. -/
theorem depth_canonical_le : ∀ v : Value, v.canonical.depth ≤ v.depth
  | .null | .bool _ | .number _ | .string _ => by simp [canonical]
  | .array items => by
    rw [canonical, depth, depth, Nat.succ_le_succ_iff]
    exact itemsDepth_canonicalItems_le items
  | .object members => by
    rw [canonical, depth, depth, Nat.succ_le_succ_iff, membersDepth_le_iff]
    intro entry hentry
    exact membersDepth_le_iff.mp (membersDepth_canonicalMembers_le members) entry
      (KeyMap.mem_of_mem_ofEntries hentry)

theorem itemsDepth_canonicalItems_le :
    ∀ items : List Value, itemsDepth (canonicalItems items) ≤ itemsDepth items
  | [] => by rw [canonicalItems]
  | v :: rest => by
    rw [canonicalItems, itemsDepth, itemsDepth]
    exact max_le_max (depth_canonical_le v) (itemsDepth_canonicalItems_le rest)

theorem membersDepth_canonicalMembers_le :
    ∀ members : Fields, membersDepth (canonicalMembers members) ≤ membersDepth members
  | [] => by rw [canonicalMembers]
  | (key, v) :: rest => by
    rw [canonicalMembers, membersDepth, membersDepth]
    exact max_le_max (depth_canonical_le v) (membersDepth_canonicalMembers_le rest)

end

end LiveDoc.Json.Value

namespace LiveDoc

open Json Json.Value

/-! ## Chains -/

/-- Objects with one member each around a null. -/
def chain : Nat → Value
  | 0 => .null
  | n + 1 => .object [("a", chain n)]

/-- A chain nests exactly as deep as it is long. -/
theorem depth_chain (n : Nat) : (chain n).depth = n := by
  induction n with
  | zero => rfl
  | succ n ih => simp [chain, depth, membersDepth, ih]

/-- A chain is canonical and holds no number, so that only its depth can matter. -/
theorem regular_chain (P : Number → Prop) (n : Nat) : (chain n).Regular P := by
  induction n with
  | zero => exact every_null
  | succ n ih => exact every_object.mpr ⟨List.pairwise_singleton _ _, by simpa using ih⟩

theorem allNumbers_chain (P : Number → Prop) (n : Nat) : (chain n).AllNumbers P :=
  (regular_chain P n).allNumbers

end LiveDoc
