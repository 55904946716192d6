import LiveDoc.KeyMap
import Mathlib.Data.String.Basic

/-!
# LiveDoc — sorted maps

A map that is made by the operations of `KeyMap` lists its keys in ascending order, and setting its
entries one by one builds it again.

* `KeyMap.sorted_ofEntries` — every map made from entries is sorted.
* `KeyMap.ofEntries_eq_self` — a sorted map is made from its own entries.
* `KeyMap.get?_ofEntries` — of equal keys the last entry counts.
* `KeyMap.Sorted.get?_filter` — what a key holds when entries were dropped.
* `KeyMap.Sorted.ext` — a sorted map is known by what its keys hold.
* `KeyMap.Sorted.set_eq_self` — setting a key to what it holds changes nothing.
* `KeyMap.Sorted.set_comm` — two keys can be set in either order.
* `KeyMap.filter_ofEntries` — dropping keys commutes with making the map.
-/

namespace LiveDoc.KeyMap

variable {α : Type u}

/-! ## Keys and order -/

@[simp] theorem keys_nil : keys ([] : KeyMap α) = [] := rfl

@[simp] theorem keys_cons (entry : String × α) (m : KeyMap α) :
    keys (entry :: m) = entry.1 :: keys m := rfl

@[simp] theorem keys_append (a b : KeyMap α) : keys (a ++ b) = keys a ++ keys b :=
  List.map_append

theorem keys_filter (p : String → Bool) (m : KeyMap α) :
    keys (m.filter fun entry => p entry.1) = (keys m).filter p :=
  List.filter_map.symm

@[simp] theorem sorted_nil : Sorted ([] : KeyMap α) := List.Pairwise.nil

theorem sorted_cons {k : String} {v : α} {m : KeyMap α} :
    Sorted ((k, v) :: m) ↔ (∀ key ∈ keys m, k < key) ∧ Sorted m := List.pairwise_cons

theorem mem_keys_of_mem {k : String} {v : α} {m : KeyMap α} (h : (k, v) ∈ m) : k ∈ keys m :=
  List.mem_map_of_mem h

/-- Whether a map is sorted is seen from its keys. -/
theorem sorted_of_keys_eq {β : Type v} {a : KeyMap α} {b : KeyMap β} (h : keys a = keys b)
    (ha : Sorted a) : Sorted b := by
  unfold Sorted at *
  rwa [← h]

/-- The entries that are kept of a sorted map are sorted. -/
theorem Sorted.filter {m : KeyMap α} (h : Sorted m) (p : String × α → Bool) :
    Sorted (m.filter p) :=
  h.sublist (List.filter_sublist.map Prod.fst)

theorem Sorted.erase {m : KeyMap α} (h : Sorted m) (key : String) : Sorted (erase m key) :=
  h.filter _

/-! ## Setting a key -/

/-- Behind a set there are the new entry and some of those before. -/
theorem mem_set {m : KeyMap α} {key : String} {value : α} {entry : String × α}
    (h : entry ∈ set m key value) : entry = (key, value) ∨ entry ∈ m := by
  induction m with
  | nil => simpa [set] using h
  | cons head rest ih => grind [set]

theorem mem_keys_set {m : KeyMap α} {key other : String} {value : α}
    (h : other ∈ keys (set m key value)) : other = key ∨ other ∈ keys m := by
  obtain ⟨entry, hmem, rfl⟩ := List.mem_map.mp h
  rcases mem_set hmem with rfl | hrest
  · exact Or.inl rfl
  · exact Or.inr (List.mem_map_of_mem hrest)

theorem Sorted.set {m : KeyMap α} (h : Sorted m) (key : String) (value : α) :
    Sorted (set m key value) := by
  induction m with
  | nil => simp [KeyMap.set, Sorted]
  | cons head rest ih =>
    obtain ⟨k, v⟩ := head
    obtain ⟨hlt, hrest⟩ := sorted_cons.mp h
    unfold KeyMap.set
    split
    · next heq =>
      subst heq
      exact sorted_cons.mpr ⟨hlt, hrest⟩
    · next hne =>
      split
      · next hkey =>
        refine sorted_cons.mpr ⟨fun other hother => ?_, h⟩
        rcases List.mem_cons.mp hother with rfl | hmem
        · exact hkey
        · exact lt_trans hkey (hlt other hmem)
      · next hkey =>
        refine sorted_cons.mpr ⟨fun other hother => ?_, ih hrest⟩
        rcases mem_keys_set hother with rfl | hmem
        · exact lt_of_le_of_ne (not_lt.mp hkey) hne
        · exact hlt other hmem

/-- A key above all others is put at the end. -/
theorem set_eq_append {m : KeyMap α} {key : String} (value : α) (h : ∀ k ∈ keys m, k < key) :
    set m key value = m ++ [(key, value)] := by
  induction m with
  | nil => rfl
  | cons head rest ih =>
    have hhead : head.1 < key := h head.1 (by simp)
    have hrest : set rest key value = rest ++ [(key, value)] :=
      ih fun k hk => h k (by simp [hk])
    simp [set, hhead.ne, hhead.not_gt, hrest]

/-- Dropping keys commutes with setting one. -/
theorem filter_set {m : KeyMap α} (h : Sorted m) (p : String → Bool) (key : String) (value : α) :
    (set m key value).filter (fun e => p e.1) =
      if p key then set (m.filter fun e => p e.1) key value else m.filter fun e => p e.1 := by
  induction m with
  | nil => cases hp : p key <;> simp [set, hp]
  | cons head rest ih =>
    obtain ⟨k, v⟩ := head
    obtain ⟨hlt, hrest⟩ := sorted_cons.mp h
    have ih := ih hrest
    rcases lt_trichotomy k key with hk | rfl | hk
    · -- the key belongs behind the head
      rw [show set ((k, v) :: rest) key value = (k, v) :: set rest key value by
        simp [set, hk.ne, hk.not_gt]]
      cases hpk : p k <;> cases hp : p key <;> simp [hpk, hp, ih, set, hk.ne, hk.not_gt]
    · cases hp : p k <;> simp [set, hp]
    · -- the key belongs in front of the head, and of all that is kept of the rest
      have hset : ∀ l : KeyMap α, (∀ other ∈ keys l, key < other) →
          set l key value = (key, value) :: l := by
        intro l hl
        cases l with
        | nil => rfl
        | cons e l => simp [set, (hl e.1 (by simp)).ne', hl e.1 (by simp)]
      have habove : ∀ other ∈ keys ((k, v) :: rest), key < other := by
        intro other hother
        rcases List.mem_cons.mp hother with rfl | hmem
        · exact hk
        · exact lt_trans hk (hlt other hmem)
      have hkept : ∀ other ∈ keys (((k, v) :: rest).filter fun e => p e.1), key < other :=
        fun other hother => habove other ((List.filter_sublist.map Prod.fst).mem hother)
      rw [hset _ habove, hset _ hkept]
      cases hp : p key <;> simp [List.filter_cons, hp]

/-- Of two values set for a key the second stays. -/
theorem set_set (m : KeyMap α) (key : String) (first second : α) :
    set (set m key first) key second = set m key second := by
  induction m with
  | nil => simp [set]
  | cons head rest ih => grind [set]

/-- A key that is new adds one entry. -/
theorem length_set {m : KeyMap α} {key : String} (value : α) (h : key ∉ keys m) :
    (set m key value).length = m.length + 1 := by
  induction m with
  | nil => rfl
  | cons head rest ih =>
    rw [keys_cons, List.mem_cons, not_or] at h
    unfold set
    rw [if_neg (Ne.symm h.1)]
    split
    · rfl
    · rw [List.length_cons, ih h.2, List.length_cons]

/-! ## Looking up -/

theorem get?_append (a b : KeyMap α) (key : String) :
    get? (a ++ b) key = (get? a key).or (get? b key) := by
  induction a with
  | nil => simp [get?]
  | cons head rest ih =>
    by_cases h : head.1 = key <;> simp [get?, h, ih]

/-- A change of every value, which may look at the key, is one of the value under the key. -/
theorem get?_mapEntries {β : Type v} (f : String → α → β) (m : KeyMap α) (key : String) :
    get? (m.map fun entry => (entry.1, f entry.1 entry.2)) key = (get? m key).map (f key) := by
  induction m with
  | nil => rfl
  | cons head rest ih =>
    by_cases h : head.1 = key
    · simp [get?, h]
    · simp [get?, h, ih]

theorem get?_mapValues {β : Type v} (f : α → β) (m : KeyMap α) (key : String) :
    get? (m.map fun entry => (entry.1, f entry.2)) key = (get? m key).map f :=
  get?_mapEntries (fun _ => f) m key

/-- A key holds nothing exactly if it is not listed. -/
theorem get?_eq_none_iff {m : KeyMap α} {key : String} : get? m key = none ↔ key ∉ keys m := by
  induction m with
  | nil => simp
  | cons head rest ih =>
    by_cases h : head.1 = key
    · simp [get?, h]
    · simp [get?, h, ih, Ne.symm h]

theorem mem_keys_iff {m : KeyMap α} {key : String} :
    key ∈ keys m ↔ ∃ value, get? m key = some value := by
  rw [← Option.ne_none_iff_exists', ne_eq, get?_eq_none_iff, not_not]

theorem mem_keys_set_iff {m : KeyMap α} {key other : String} {value : α} :
    other ∈ keys (set m key value) ↔ other = key ∨ other ∈ keys m := by
  refine ⟨mem_keys_set, fun h => ?_⟩
  by_contra habsent
  rw [← get?_eq_none_iff] at habsent
  by_cases hkey : key = other
  · rw [← hkey, get?_set_self] at habsent
    cases habsent
  · rw [get?_set_of_ne _ _ hkey] at habsent
    exact h.elim (fun heq => hkey heq.symm) (get?_eq_none_iff.mp habsent)

theorem mem_keys_erase_iff {m : KeyMap α} {key other : String} :
    other ∈ keys (erase m key) ↔ other ∈ keys m ∧ other ≠ key := by
  rw [erase, keys_filter (fun k => k ≠ key), List.mem_filter, decide_eq_true_iff]

/-- There is nothing to erase under a key that holds nothing. -/
theorem erase_eq_self {m : KeyMap α} {key : String} (h : get? m key = none) : erase m key = m := by
  refine List.filter_eq_self.mpr fun entry hmem => ?_
  have hne : entry.1 ≠ key := fun heq => get?_eq_none_iff.mp h (heq ▸ List.mem_map_of_mem hmem)
  simpa using hne

theorem get?_reverse_eq_none_iff {m : KeyMap α} {key : String} :
    get? m.reverse key = none ↔ key ∉ keys m := by
  rw [get?_eq_none_iff, keys, keys, List.map_reverse, List.mem_reverse]

theorem mem_of_get? {m : KeyMap α} {key : String} {value : α} (h : get? m key = some value) :
    (key, value) ∈ m := by
  induction m with
  | nil => simp at h
  | cons head rest ih => grind [get?]

/-- In a sorted map a key holds what any entry says, since each key is listed once. -/
theorem Sorted.get?_of_mem {m : KeyMap α} (hm : Sorted m) {key : String} {value : α}
    (h : (key, value) ∈ m) : get? m key = some value := by
  induction m with
  | nil => simp at h
  | cons head rest ih =>
    obtain ⟨k, v⟩ := head
    obtain ⟨hlt, hrest⟩ := sorted_cons.mp hm
    rcases List.mem_cons.mp h with heq | hmem
    · cases heq
      simp [get?]
    · have hne : k ≠ key := (hlt key (mem_keys_of_mem hmem)).ne
      simpa [get?, hne] using ih hrest hmem

/-- A sorted map is known by what its keys hold. -/
theorem Sorted.ext {a b : KeyMap α} (ha : Sorted a) (hb : Sorted b)
    (h : ∀ key, get? a key = get? b key) : a = b := by
  induction a generalizing b with
  | nil =>
    cases b with
    | nil => rfl
    | cons entry rest => simpa [get?] using h entry.1
  | cons entry rest ih =>
    obtain ⟨k, v⟩ := entry
    cases b with
    | nil => simpa [get?] using h k
    | cons other others =>
      obtain ⟨l, w⟩ := other
      obtain ⟨hk, hrest⟩ := sorted_cons.mp ha
      obtain ⟨hl, hothers⟩ := sorted_cons.mp hb
      -- the least key of each map is a key of the other, so the first keys are the same
      have hkl : k ∈ keys ((l, w) :: others) := mem_keys_iff.mpr ⟨v, by rw [← h k]; simp [get?]⟩
      have hlk : l ∈ keys ((k, v) :: rest) := mem_keys_iff.mpr ⟨w, by rw [h l]; simp [get?]⟩
      obtain rfl : k = l := by
        rcases List.mem_cons.mp hkl with heq | hmem
        · exact heq
        · rcases List.mem_cons.mp hlk with heq | hmem'
          · exact heq.symm
          · exact absurd (hl k hmem) (hk l hmem').not_gt
      obtain rfl : v = w := by simpa [get?] using h k
      have htail : ∀ key, get? rest key = get? others key := by
        intro key
        by_cases hkey : k = key
        · subst hkey
          rw [get?_eq_none_iff.mpr fun hmem => (hk k hmem).ne rfl,
            get?_eq_none_iff.mpr fun hmem => (hl k hmem).ne rfl]
        · simpa [get?, hkey] using h key
      rw [ih hrest hothers htail]

/-- What a key holds among the entries of a sorted map that are kept. -/
theorem Sorted.get?_filter {m : KeyMap α} (h : Sorted m) (p : String × α → Bool) (key : String) :
    get? (m.filter p) key = (get? m key).filter fun v => p (key, v) := by
  induction m with
  | nil => rfl
  | cons entry rest ih =>
    obtain ⟨k, v⟩ := entry
    obtain ⟨hlt, hrest⟩ := sorted_cons.mp h
    by_cases hk : k = key
    · subst hk
      have habsent : get? (rest.filter p) k = none :=
        get?_eq_none_iff.mpr fun hmem =>
          (hlt k ((List.filter_sublist.map Prod.fst).mem hmem)).ne rfl
      cases hp : p (k, v) <;> simp [hp, get?, habsent, Option.filter]
    · cases hp : p (k, v) <;> simp [hp, get?, hk, ih hrest]

/-- Setting a key to what it holds changes nothing. -/
theorem Sorted.set_eq_self {m : KeyMap α} (h : Sorted m) {key : String} {value : α}
    (hget : get? m key = some value) : KeyMap.set m key value = m := by
  induction m with
  | nil => simp at hget
  | cons entry rest ih =>
    obtain ⟨k, v⟩ := entry
    obtain ⟨hlt, hrest⟩ := sorted_cons.mp h
    by_cases hk : k = key
    · subst hk
      obtain rfl : v = value := by simpa [get?] using hget
      simp [KeyMap.set]
    · have hget : get? rest key = some value := by simpa [get?, hk] using hget
      have hbelow : k < key := hlt key (mem_keys_of_mem (mem_of_get? hget))
      simp [KeyMap.set, hk, hbelow.not_gt, ih hrest hget]

/-- What a key holds after several were erased. -/
theorem get?_foldl_erase (m : KeyMap α) (keys : List String) (key : String) :
    get? (keys.foldl erase m) key = if key ∈ keys then none else get? m key := by
  induction keys generalizing m with
  | nil => simp
  | cons first rest ih =>
    rw [List.foldl_cons, ih]
    by_cases h : first = key
    · subst h
      simp [get?_erase_self]
    · simp [get?_erase_of_ne m h, Ne.symm h]

theorem foldl_erase (m : KeyMap α) (keys : List String) :
    keys.foldl erase m = m.filter fun entry => entry.1 ∉ keys := by
  induction keys generalizing m with
  | nil => simp
  | cons first rest ih =>
    rw [List.foldl_cons, ih, erase, List.filter_filter]
    refine List.filter_congr fun entry _ => ?_
    simp [Bool.and_comm]

/-- Where entries under one key alone count, the one that a sorted map has is found. -/
theorem Sorted.findSome?_reverse {β : Type v} {m : KeyMap α} (h : Sorted m)
    {f : String × α → Option β} {key : String} (hkey : ∀ entry, entry.1 ≠ key → f entry = none) :
    m.reverse.findSome? f = (get? m key).bind fun v => f (key, v) := by
  induction m with
  | nil => rfl
  | cons entry rest ih =>
    obtain ⟨k, v⟩ := entry
    obtain ⟨hlt, hrest⟩ := sorted_cons.mp h
    rw [List.reverse_cons, List.findSome?_append, ih hrest]
    by_cases hk : k = key
    · subst hk
      have habsent : get? rest k = none :=
        get?_eq_none_iff.mpr fun hmem => (hlt k hmem).ne rfl
      simp [get?, habsent]
    · simp [get?, hk, hkey (k, v) hk]

/-! ## Making a map from entries -/

theorem Sorted.setAll {m : KeyMap α} (h : Sorted m) (entries : List (String × α)) :
    Sorted (setAll m entries) := by
  induction entries generalizing m with
  | nil => exact h
  | cons entry rest ih => exact ih (h.set entry.1 entry.2)

theorem sorted_ofEntries (entries : List (String × α)) : Sorted (ofEntries entries) :=
  sorted_nil.setAll entries

theorem mem_of_mem_setAll {m : KeyMap α} {entries : List (String × α)} {entry : String × α}
    (h : entry ∈ setAll m entries) : entry ∈ m ∨ entry ∈ entries := by
  induction entries generalizing m with
  | nil => exact Or.inl h
  | cons head rest ih =>
    have hrest : entry ∈ set m head.1 head.2 ∨ entry ∈ rest := ih h
    rcases hrest with hset | hmem
    · rcases mem_set hset with rfl | hm
      · exact Or.inr List.mem_cons_self
      · exact Or.inl hm
    · exact Or.inr (List.mem_cons_of_mem _ hmem)

theorem mem_of_mem_ofEntries {entries : List (String × α)} {entry : String × α}
    (h : entry ∈ ofEntries entries) : entry ∈ entries := by
  simpa using mem_of_mem_setAll h

/-- Of many entries for a key the last one wins, and over what was there before. -/
theorem get?_setAll (m : KeyMap α) (entries : List (String × α)) (key : String) :
    get? (setAll m entries) key = (get? entries.reverse key).or (get? m key) := by
  induction entries generalizing m with
  | nil => simp [setAll]
  | cons entry rest ih =>
    obtain ⟨k, v⟩ := entry
    have hstep : setAll m ((k, v) :: rest) = setAll (set m k v) rest := rfl
    rw [hstep, ih, List.reverse_cons, get?_append]
    by_cases h : k = key
    · subst h
      cases get? rest.reverse k <;> simp [get?, get?_set_self]
    · simp [get?, h, get?_set_of_ne]

theorem get?_ofEntries (entries : List (String × α)) (key : String) :
    get? (ofEntries entries) key = get? entries.reverse key := by
  rw [ofEntries, get?_setAll]
  simp

/-- Setting the same entries again changes nothing. -/
theorem Sorted.setAll_setAll {m : KeyMap α} (h : Sorted m) (entries : List (String × α)) :
    KeyMap.setAll (KeyMap.setAll m entries) entries = KeyMap.setAll m entries := by
  refine Sorted.ext ((h.setAll entries).setAll entries) (h.setAll entries) fun key => ?_
  rw [get?_setAll, get?_setAll]
  cases get? entries.reverse key <;> rfl

/-- Entries that come in order behind the others are put behind them. -/
theorem setAll_eq_append {m : KeyMap α} {entries : List (String × α)}
    (h : Sorted (m ++ entries)) : setAll m entries = m ++ entries := by
  induction entries generalizing m with
  | nil => simp [setAll]
  | cons entry rest ih =>
    obtain ⟨k, v⟩ := entry
    have hbelow : ∀ key ∈ keys m, key < k := by
      intro key hkey
      have hpairwise : (keys m ++ k :: keys rest).Pairwise (· < ·) := by
        rw [← keys_cons (k, v), ← keys_append]
        exact h
      exact (List.pairwise_append.mp hpairwise).2.2 key hkey k List.mem_cons_self
    have hstep : setAll m ((k, v) :: rest) = setAll (set m k v) rest := rfl
    rw [hstep, set_eq_append v hbelow, ih (by simpa using h)]
    simp

/-- A sorted map is made from its own entries. -/
theorem ofEntries_eq_self {m : KeyMap α} (h : Sorted m) : ofEntries m = m :=
  @setAll_eq_append _ [] m h

/-- In a sorted map the first entry for a key is also the last. -/
theorem Sorted.get?_reverse {m : KeyMap α} (h : Sorted m) (key : String) :
    get? m.reverse key = get? m key := by
  rw [← get?_ofEntries, ofEntries_eq_self h]

/-- Dropping keys commutes with setting entries. -/
theorem filter_setAll {m : KeyMap α} (h : Sorted m) (p : String → Bool)
    (entries : List (String × α)) :
    (setAll m entries).filter (fun e => p e.1) =
      setAll (m.filter fun e => p e.1) (entries.filter fun e => p e.1) := by
  induction entries generalizing m with
  | nil => rfl
  | cons entry rest ih =>
    obtain ⟨k, v⟩ := entry
    have hstep : ∀ l : KeyMap α, setAll l ((k, v) :: rest) = setAll (set l k v) rest :=
      fun _ => rfl
    rw [hstep, ih (h.set k v), filter_set h]
    cases hp : p k
    · simp [hp]
    · rw [List.filter_cons_of_pos (by simpa using hp)]
      simp [setAll]

/-- Dropping keys commutes with making the map. -/
theorem filter_ofEntries (p : String → Bool) (entries : List (String × α)) :
    (ofEntries entries).filter (fun e => p e.1) = ofEntries (entries.filter fun e => p e.1) :=
  filter_setAll sorted_nil p entries

end LiveDoc.KeyMap
