import LiveDoc.Json.Value
import LiveDoc.Proofs.SortedMap

/-!
# LiveDoc — canonical values

Members of an object are a map, and a list of members stands for that map in one form only: by
ascending keys, each key once. `Value.Every` asks something of the members of every object inside a
value and of every number. A value is regular if all its objects are sorted and its numbers have
some property, and canonical if nothing is asked of its numbers.

* `Value.canonical_eq_self` — a canonical value is its own canonical form.
* `Value.isCanonical_canonical` — every canonical form is canonical.
* `Value.get?_sortedMembers` — what the canonical form of an object holds under a key.
-/

namespace LiveDoc.Json.Value

variable {S T : Fields → Prop} {P Q : Number → Prop}

mutual

/-- The members of every object have a property, and so has every number. -/
def Every (S : Fields → Prop) (P : Number → Prop) : Value → Prop
  | .number n => P n
  | .array items => everyItem S P items
  | .object members => S members ∧ everyMember S P members
  | .null | .bool _ | .string _ => True

def everyItem (S : Fields → Prop) (P : Number → Prop) : List Value → Prop
  | [] => True
  | v :: rest => v.Every S P ∧ everyItem S P rest

def everyMember (S : Fields → Prop) (P : Number → Prop) : List (String × Value) → Prop
  | [] => True
  | (_, v) :: rest => v.Every S P ∧ everyMember S P rest

end

abbrev AllNumbers (P : Number → Prop) (v : Value) : Prop := v.Every (fun _ => True) P

/-- Every object lists its members by ascending keys, each key once, and every number has the
property. -/
abbrev Regular (P : Number → Prop) (v : Value) : Prop := v.Every KeyMap.Sorted P

/-- Every object lists its members by ascending keys, each key once. -/
abbrev IsCanonical (v : Value) : Prop := v.Regular fun _ => True

/-! ## Items and members -/

@[simp] theorem every_null : Every S P .null := trivial

@[simp] theorem every_bool (b : Bool) : Every S P (.bool b) := trivial

@[simp] theorem every_string (text : String) : Every S P (.string text) := trivial

@[simp] theorem every_number {n : Number} : Every S P (.number n) ↔ P n := Iff.rfl

/-- What is asked of a list of items is asked of each of them. -/
theorem everyItem_iff {items : List Value} : everyItem S P items ↔ ∀ v ∈ items, v.Every S P := by
  induction items with
  | nil => simp [everyItem]
  | cons v rest ih => simp [everyItem, ih]

/-- What is asked of the values of members is asked of each of them. -/
theorem everyMember_iff {members : Fields} :
    everyMember S P members ↔ ∀ entry ∈ members, entry.2.Every S P := by
  induction members with
  | nil => simp [everyMember]
  | cons entry rest ih => simp [everyMember, ih]

/-- An array has no members of its own: only its items are asked. -/
@[simp] theorem every_array {items : List Value} :
    Every S P (.array items) ↔ ∀ v ∈ items, v.Every S P := by
  rw [← everyItem_iff, Every]

/-- The members of an object are asked as a whole, and the value of each of them. -/
@[simp] theorem every_object {members : Fields} :
    Every S P (.object members) ↔ S members ∧ ∀ entry ∈ members, entry.2.Every S P := by
  rw [← everyMember_iff, Every]

/-- What holds of an object holds of the value under any of its keys. -/
theorem Every.of_get? {members : Fields} {key : String} {v : Value}
    (h : Every S P (.object members)) (hget : KeyMap.get? members key = some v) : v.Every S P :=
  (every_object.mp h).2 (key, v) (KeyMap.mem_of_get? hget)

mutual

/-- What follows from a property of members and numbers may be put in its place. -/
theorem Every.mono (hST : ∀ m, S m → T m) (hPQ : ∀ n, P n → Q n) :
    ∀ {v : Value}, v.Every S P → v.Every T Q
  | .null, _ => every_null
  | .bool _, _ => every_bool _
  | .string _, _ => every_string _
  | .number _, h => every_number.mpr (hPQ _ (every_number.mp h))
  | .array _, h => everyItem_mono hST hPQ h
  | .object _, h => ⟨hST _ h.1, everyMember_mono hST hPQ h.2⟩

theorem everyItem_mono (hST : ∀ m, S m → T m) (hPQ : ∀ n, P n → Q n) :
    ∀ {items : List Value}, everyItem S P items → everyItem T Q items
  | [], _ => trivial
  | _ :: _, h => ⟨Every.mono hST hPQ h.1, everyItem_mono hST hPQ h.2⟩

theorem everyMember_mono (hST : ∀ m, S m → T m) (hPQ : ∀ n, P n → Q n) :
    ∀ {members : Fields}, everyMember S P members → everyMember T Q members
  | [], _ => trivial
  | (_, _) :: _, h => ⟨Every.mono hST hPQ h.1, everyMember_mono hST hPQ h.2⟩

end

mutual

/-- Two things that hold throughout a value hold together throughout it. -/
theorem Every.and : ∀ {v : Value}, v.Every S P → v.Every T Q →
    v.Every (fun m => S m ∧ T m) fun n => P n ∧ Q n
  | .null, _, _ => every_null
  | .bool _, _, _ => every_bool _
  | .string _, _, _ => every_string _
  | .number _, h, h' => every_number.mpr ⟨every_number.mp h, every_number.mp h'⟩
  | .array _, h, h' => everyItem_and h h'
  | .object _, h, h' => ⟨⟨h.1, h'.1⟩, everyMember_and h.2 h'.2⟩

theorem everyItem_and : ∀ {items : List Value}, everyItem S P items → everyItem T Q items →
    everyItem (fun m => S m ∧ T m) (fun n => P n ∧ Q n) items
  | [], _, _ => trivial
  | _ :: _, h, h' => ⟨Every.and h.1 h'.1, everyItem_and h.2 h'.2⟩

theorem everyMember_and : ∀ {members : Fields}, everyMember S P members →
    everyMember T Q members → everyMember (fun m => S m ∧ T m) (fun n => P n ∧ Q n) members
  | [], _, _ => trivial
  | (_, _) :: _, h, h' => ⟨Every.and h.1 h'.1, everyMember_and h.2 h'.2⟩

end

/-- A regular value is canonical, whatever is known of its numbers. -/
theorem Every.isCanonical {v : Value} (h : v.Regular P) : v.IsCanonical :=
  h.mono (fun _ hm => hm) fun _ _ => trivial

/-- What is known of the numbers of a regular value does not depend on the order of its members. -/
theorem Every.allNumbers {v : Value} (h : v.Regular P) : v.AllNumbers P :=
  h.mono (fun _ _ => trivial) fun _ hn => hn

/-- A canonical value is regular as soon as its numbers have the property. -/
theorem Every.regular {v : Value} (h : v.IsCanonical) (hnumbers : v.AllNumbers P) : v.Regular P :=
  (h.and hnumbers).mono (fun _ hs => hs.1) fun _ hn => hn.2

/-! ## The canonical form -/

/-- The canonical form of a list of items is that of each of them, so library lemmas on
lists apply. -/
theorem canonicalItems_eq_map (items : List Value) : canonicalItems items = items.map canonical := by
  induction items with
  | nil => simp [canonicalItems]
  | cons v rest ih => simp [canonicalItems, ih]

/-- The canonical form of members before they are sorted: that of each value, under the key
it had. -/
theorem canonicalMembers_eq_map (members : Fields) :
    canonicalMembers members = members.map fun entry => (entry.1, entry.2.canonical) := by
  induction members with
  | nil => simp [canonicalMembers]
  | cons entry rest ih => simp [canonicalMembers, ih]

/-- An array keeps the order of its items. -/
@[simp] theorem canonical_array (items : List Value) :
    canonical (.array items) = .array (items.map canonical) := by
  rw [canonical, canonicalItems_eq_map]

mutual

/-- A canonical value is its own canonical form. -/
theorem canonical_eq_self : ∀ {v : Value}, v.Regular P → v.canonical = v
  | .null, _ => by simp [canonical]
  | .bool _, _ => by simp [canonical]
  | .string _, _ => by simp [canonical]
  | .number _, _ => by simp [canonical]
  | .array items, h => by rw [canonical, canonicalItems_eq_self h]
  | .object members, h => by
    rw [canonical, canonicalMembers_eq_self h.2, KeyMap.ofEntries_eq_self h.1]

/-- Items that are canonical are left as they are. -/
theorem canonicalItems_eq_self :
    ∀ {items : List Value}, everyItem KeyMap.Sorted P items → canonicalItems items = items
  | [], _ => by simp [canonicalItems]
  | v :: rest, h => by
    rw [canonicalItems, canonical_eq_self h.1, canonicalItems_eq_self h.2]

/-- Members whose values are canonical keep their order before they are sorted. -/
theorem canonicalMembers_eq_self :
    ∀ {members : Fields}, everyMember KeyMap.Sorted P members → canonicalMembers members = members
  | [], _ => by simp [canonicalMembers]
  | (k, v) :: rest, h => by
    rw [canonicalMembers, canonical_eq_self h.1, canonicalMembers_eq_self h.2]

end

mutual

/-- Every canonical form is canonical, however the members were listed before. -/
theorem isCanonical_canonical : ∀ v : Value, v.canonical.IsCanonical
  | .null => by simp [canonical]
  | .bool _ => by simp [canonical]
  | .string _ => by simp [canonical]
  | .number _ => by simp [canonical]
  | .array items => by
    rw [canonical]
    exact every_array.mpr (isCanonical_canonicalItems items)
  | .object members => by
    rw [canonical]
    refine every_object.mpr ⟨KeyMap.sorted_ofEntries _, fun entry hentry => ?_⟩
    exact isCanonical_canonicalMembers members entry (KeyMap.mem_of_mem_ofEntries hentry)

/-- Canonical forms of items are canonical. -/
theorem isCanonical_canonicalItems :
    ∀ items : List Value, ∀ v ∈ canonicalItems items, v.IsCanonical
  | [], v, h => by simp [canonicalItems] at h
  | head :: rest, v, h => by
    rcases List.mem_cons.mp h with rfl | hmem
    · exact isCanonical_canonical head
    · exact isCanonical_canonicalItems rest v hmem

/-- Canonical forms of the values of members are canonical. -/
theorem isCanonical_canonicalMembers :
    ∀ members : Fields, ∀ entry ∈ canonicalMembers members, entry.2.IsCanonical
  | [], entry, h => by simp [canonicalMembers] at h
  | (k, head) :: rest, entry, h => by
    rcases List.mem_cons.mp h with rfl | hmem
    · exact isCanonical_canonical head
    · exact isCanonical_canonicalMembers rest entry hmem

end

mutual

/-- Every number of the canonical form is one of the value. -/
theorem Every.canonical : ∀ {v : Value}, v.AllNumbers P → v.canonical.AllNumbers P
  | .null, _ | .bool _, _ | .string _, _ => by simp [Value.canonical]
  | .number n, h => by simpa [Value.canonical] using h
  | .array items, h => by
    rw [Value.canonical]
    exact every_array.mpr (allNumbers_canonicalItems h)
  | .object members, h => by
    rw [Value.canonical]
    refine every_object.mpr ⟨trivial, fun entry hentry => ?_⟩
    exact allNumbers_canonicalMembers h.2 entry (KeyMap.mem_of_mem_ofEntries hentry)

/-- The canonical forms of items hold no number that the items did not hold. -/
theorem allNumbers_canonicalItems : ∀ {items : List Value},
    everyItem (fun _ => True) P items → ∀ v ∈ canonicalItems items, v.AllNumbers P
  | [], _, v, hv => by simp [canonicalItems] at hv
  | head :: rest, h, v, hv => by
    rcases List.mem_cons.mp hv with rfl | hmem
    · exact Every.canonical h.1
    · exact allNumbers_canonicalItems h.2 v hmem

/-- The canonical forms of members hold no number that the members did not hold. -/
theorem allNumbers_canonicalMembers : ∀ {members : Fields},
    everyMember (fun _ => True) P members → ∀ entry ∈ canonicalMembers members, entry.2.AllNumbers P
  | [], _, entry, hentry => by simp [canonicalMembers] at hentry
  | (k, head) :: rest, h, entry, hentry => by
    rcases List.mem_cons.mp hentry with rfl | hmem
    · exact Every.canonical h.1
    · exact allNumbers_canonicalMembers h.2 entry hmem

end

/-! ## Members of a canonical form -/

/-- The members of the canonical form of an object. -/
def sortedMembers (members : Fields) : Fields := KeyMap.ofEntries (canonicalMembers members)

/-- The canonical form of an object lists its sorted members. -/
theorem canonical_object (members : Fields) :
    canonical (.object members) = .object (sortedMembers members) := by
  rw [canonical, sortedMembers]

/-- Under a key the canonical form of an object holds the canonical form of what was listed last. -/
theorem get?_sortedMembers (members : Fields) (key : String) :
    KeyMap.get? (sortedMembers members) key =
      (KeyMap.get? members.reverse key).map canonical := by
  rw [sortedMembers, KeyMap.get?_ofEntries, canonicalMembers_eq_map, ← List.map_reverse,
    KeyMap.get?_mapValues]

end LiveDoc.Json.Value
