import LiveDoc.Json.Record
import LiveDoc.Proofs.Json.Canonical

/-!
# LiveDoc — reading back the fields of records

What a record writes into a field is what its reader takes out of it: texts, lists and maps of
texts, words of 16 and 64 bits, and any value that may be absent. What a reader takes out of a
canonical value is canonical again.
-/

namespace LiveDoc.Json

open Value

/-! ## Texts -/

@[simp] theorem Value.canonical_ofText? (text : Option String) :
    (Value.ofText? text).canonical = Value.ofText? text := by
  cases text <;> simp [Value.ofText?, canonical]

@[simp] theorem Value.canonical_string (text : String) :
    (Value.string text).canonical = .string text := by simp [canonical]

@[simp] theorem Value.canonical_comp_string : Value.canonical ∘ Value.string = Value.string :=
  funext canonical_string

@[simp] theorem Value.canonical_nat (n : Nat) : (Value.nat n).canonical = .nat n := by
  simp [Value.nat, canonical]

namespace Record

@[simp] theorem text?_string (text : String) : text? (some (.string text)) = some text := rfl

@[simp] theorem optionalText?_ofText? (text : Option String) :
    optionalText? (some (.ofText? text)) = some text := by
  cases text <;> rfl

/-- A text that is left out when there is none reads back. -/
@[simp] theorem optionalText?_map_string (text : Option String) :
    optionalText? (text.map .string) = some text := by
  cases text <;> rfl

@[simp] theorem texts?_map_string (texts : List String) :
    texts? (texts.map .string) = some texts := by
  induction texts with
  | nil => rfl
  | cons text rest ih => simp [texts?, ih]

@[simp] theorem textList?_map_string (texts : List String) :
    textList? (.array (texts.map .string)) = some texts := by
  simp [textList?, Value.items?]

theorem textMembers?_map_string (map : KeyMap String) :
    textMembers? (map.map fun entry => (entry.1, .string entry.2)) = some map := by
  induction map with
  | nil => rfl
  | cons entry rest ih => simp [textMembers?, ih]

/-- A map of texts reads back from the object that it is written as. -/
@[simp] theorem textMap?_ofTextMap (map : KeyMap String) :
    textMap? (some (ofTextMap map)) = some map := by
  simp [textMap?, ofTextMap, Value.fields?, textMembers?_map_string]

/-- No number is in a map of texts, so whatever is asked of its numbers holds. -/
theorem regular_ofTextMap {P : Number → Prop} {map : KeyMap String} (h : KeyMap.Sorted map) :
    (ofTextMap map).Regular P := by
  refine every_object.mpr ⟨KeyMap.sorted_of_keys_eq ?_ h, ?_⟩
  · simp [KeyMap.keys]
  · intro entry hentry
    obtain ⟨source, -, rfl⟩ := List.mem_map.mp hentry
    exact every_string _

/-- A sorted map of texts is written in its canonical form. -/
theorem canonical_ofTextMap {map : KeyMap String} (h : KeyMap.Sorted map) :
    (ofTextMap map).canonical = ofTextMap map :=
  canonical_eq_self (P := fun _ => True) (regular_ofTextMap h)

/-- The entries of a map of texts that reads back come in the order of its object. -/
theorem keys_of_textMembers? {members : Fields} {map : KeyMap String}
    (h : textMembers? members = some map) : KeyMap.keys map = KeyMap.keys members := by
  induction members generalizing map with
  | nil => simp_all [textMembers?]
  | cons entry rest ih =>
    obtain ⟨key, v⟩ := entry
    cases v with
    | string text =>
      obtain ⟨tail, htail, rfl⟩ := Option.map_eq_some_iff.mp h
      simp [ih htail]
    | _ => simp [textMembers?] at h

/-- A map of texts that was read from a canonical value is sorted; an absent one is empty. -/
theorem sorted_of_textMap? {field : Option Value} {map : KeyMap String}
    (hfield : ∀ v, field = some v → v.IsCanonical) (h : textMap? field = some map) :
    KeyMap.Sorted map := by
  cases field with
  | none =>
    cases h
    exact KeyMap.sorted_nil
  | some v =>
    cases v with
    | object members =>
      have hsorted := (every_object.mp (hfield _ rfl)).1
      exact KeyMap.sorted_of_keys_eq (keys_of_textMembers? h).symm hsorted
    | _ => simp [textMap?, Value.fields?] at h

/-! ## Words -/

@[simp] theorem word64?_nat (n : UInt64) : word64? (some (.nat n.toNat)) = some n := by
  simp [word64?, Value.nat, Value.nat?, UInt64.size, n.toNat_lt]

@[simp] theorem word16?_nat (n : UInt16) : word16? (some (.nat n.toNat)) = some n := by
  simp [word16?, Value.nat, Value.nat?, UInt16.size, n.toNat_lt]

/-- Only integers are words. -/
theorem eq_nat_of_word16? {v : Value} {word : UInt16} (h : word16? (some v) = some word) :
    v = .nat word.toNat := by
  obtain ⟨n, hnat, hword⟩ := Option.bind_eq_some_iff.mp h
  split at hword
  · next hlt =>
    cases hword
    rw [UInt16.toNat_ofNat_of_lt' hlt]
    change v.nat? = some n at hnat
    unfold Value.nat? at hnat
    split at hnat
    · split at hnat
      · cases hnat
        rw [Value.nat, Int.toNat_of_nonneg ‹_›]
      · cases hnat
    · cases hnat
  · cases hword

/-! ## Free members -/

theorem keys_others_disjoint {names : List String} {members : Fields} {key : String}
    (h : key ∈ KeyMap.keys (others names members)) : key ∉ names := by
  obtain ⟨entry, hentry, rfl⟩ := List.mem_map.mp h
  simpa using (List.mem_filter.mp hentry).2

/-- What is left of an object behind its declared members are the free ones that have other names. -/
theorem others_sortedMembers_append {names : List String} {declared free : Fields}
    (hdeclared : ∀ entry ∈ declared, entry.1 ∈ names) (hcanonical : (Value.object free).IsCanonical) :
    others names (sortedMembers (declared ++ free)) = others names free := by
  have hsplit : canonicalMembers (declared ++ free) = canonicalMembers declared ++ free := by
    rw [canonicalMembers_eq_map, List.map_append, ← canonicalMembers_eq_map,
      ← canonicalMembers_eq_map, canonicalMembers_eq_self hcanonical.2]
  have hdrop : (canonicalMembers declared).filter (fun e => !names.contains e.1) = [] := by
    refine List.filter_eq_nil_iff.mpr fun entry hentry => ?_
    rw [canonicalMembers_eq_map] at hentry
    obtain ⟨source, hsource, rfl⟩ := List.mem_map.mp hentry
    simpa using hdeclared source hsource
  calc others names (sortedMembers (declared ++ free))
      = KeyMap.ofEntries ((canonicalMembers (declared ++ free)).filter
          fun e => !names.contains e.1) :=
        KeyMap.filter_ofEntries (fun key => !names.contains key) _
    _ = KeyMap.ofEntries (others names free) := by
        rw [hsplit, List.filter_append, hdrop, List.nil_append, others]
    _ = others names free := KeyMap.ofEntries_eq_self (KeyMap.Sorted.filter hcanonical.1 _)

/-- What is known of an object is known of its free members. -/
theorem regular_others {P : Number → Prop} {members : Fields} (names : List String)
    (h : (Value.object members).Regular P) :
    (Value.object (others names members)).Regular P := by
  obtain ⟨hsorted, hvalues⟩ := every_object.mp h
  exact every_object.mpr
    ⟨hsorted.filter _, fun entry hentry => hvalues entry (List.mem_filter.mp hentry).1⟩

end Record

end LiveDoc.Json
