/-!
# LiveDoc — maps keyed by text

A `KeyMap` is the list of its entries. The operations keep the entries in the order of their keys,
which is the order of Unicode code points and so the order of the keys' UTF-8 bytes, with each key
once.

* `get?_set_self`, `get?_set_of_ne` — what a key holds after one key was set.
* `get?_erase_self`, `get?_erase_of_ne` — what a key holds after one key was erased.
-/

namespace LiveDoc

/-- The entries of a map from text to `α`. -/
abbrev KeyMap (α : Type u) := List (String × α)

namespace KeyMap

variable {α : Type u}

/-- The value of the first entry with the key. -/
def get? : KeyMap α → String → Option α
  | [], _ => none
  | (k, v) :: rest, key => if k = key then some v else get? rest key

def hasKey (m : KeyMap α) (key : String) : Bool := (get? m key).isSome

/-- Gives the key a new value in place, or puts a new entry in front of the first greater key. -/
def set : KeyMap α → String → α → KeyMap α
  | [], key, value => [(key, value)]
  | (k, v) :: rest, key, value =>
    if k = key then (key, value) :: rest
    else if key < k then (key, value) :: (k, v) :: rest
    else (k, v) :: set rest key value

def erase (m : KeyMap α) (key : String) : KeyMap α := m.filter fun entry => entry.1 ≠ key

/-- Sets all the entries in turn, so that the last of equal keys wins. -/
def setAll (m : KeyMap α) (entries : List (String × α)) : KeyMap α :=
  entries.foldl (fun m entry => set m entry.1 entry.2) m

/-- The map of the entries; of equal keys the last one wins. -/
def ofEntries (entries : List (String × α)) : KeyMap α := setAll [] entries

/-- The keys of the entries, in their order. -/
def keys (m : KeyMap α) : List String := m.map Prod.fst

def Sorted (m : KeyMap α) : Prop := (keys m).Pairwise (· < ·)

@[simp] theorem get?_nil (key : String) : get? ([] : KeyMap α) key = none := rfl

theorem get?_set_self (m : KeyMap α) (key : String) (value : α) :
    get? (set m key value) key = some value := by
  induction m with
  | nil => simp [set, get?]
  | cons entry rest ih => grind [set, get?]

theorem get?_set_of_ne (m : KeyMap α) {key other : String} (value : α) (h : key ≠ other) :
    get? (set m key value) other = get? m other := by
  induction m with
  | nil => simp [set, get?, h]
  | cons entry rest ih => grind [set, get?]

theorem get?_erase_self (m : KeyMap α) (key : String) : get? (erase m key) key = none := by
  induction m with
  | nil => rfl
  | cons entry rest ih => grind [erase, get?]

theorem get?_erase_of_ne (m : KeyMap α) {key other : String} (h : key ≠ other) :
    get? (erase m key) other = get? m other := by
  induction m with
  | nil => rfl
  | cons entry rest ih => grind [erase, get?]

end KeyMap

end LiveDoc
