import LiveDoc.Json.Printer

/-!
# LiveDoc — JSON text holds no control characters

A string escapes the control characters that it holds, and nothing else in the text of a value is
one. So the text of a value, whatever strings are in it, stays on one line.

* `Value.isPrintable_chars` — the text of a value holds no control character.
-/

namespace LiveDoc.Json

/-- The text holds no control character below U+0020. -/
def IsPrintable (s : List Char) : Prop := ∀ c ∈ s, 0x20 ≤ c.toNat

variable {s t : List Char} {c : Char}

@[simp] theorem isPrintable_nil : IsPrintable [] := nofun

@[simp] theorem isPrintable_cons : IsPrintable (c :: s) ↔ 0x20 ≤ c.toNat ∧ IsPrintable s := by
  simp [IsPrintable]

/-- Two texts put together hold no control character if neither of them does. -/
@[simp] theorem isPrintable_append : IsPrintable (s ++ t) ↔ IsPrintable s ∧ IsPrintable t := by
  simp [IsPrintable, or_imp, forall_and]

/-- What is left of a text when characters are taken out holds no new ones. -/
theorem IsPrintable.sublist (h : IsPrintable t) (hst : s.Sublist t) : IsPrintable s :=
  fun c hc => h c (hst.mem hc)

/-! ## Strings -/

/-- A digit of an escape is no control character, for any number that it is cut from. -/
theorem isPrintable_hexDigit (n : Nat) : 0x20 ≤ (hexDigit n).toNat := by
  have hdigit : ∀ m < 16, 0x20 ≤ (Nat.digitChar m).toNat := by decide
  exact hdigit (n % 16) (Nat.mod_lt n (by decide))

/-- Control characters are the ones that are escaped, and no escape is made of any. -/
theorem isPrintable_escape (c : Char) : IsPrintable (escape c) := by
  unfold escape
  split
  case h_8 =>
    split
    · simp [isPrintable_hexDigit]
    · next h => simpa using h
  all_goals simp

/-- A text between quotes holds no control character, whatever the text. -/
theorem isPrintable_quote (text : String) : IsPrintable (quote text) := by
  have hescapes : IsPrintable (text.toList.flatMap escape) := by
    intro c hc
    obtain ⟨source, -, hc⟩ := List.mem_flatMap.mp hc
    exact isPrintable_escape source c hc
  simp [quote, hescapes]

/-! ## Numbers -/

/-- The digits of a natural number lie between the characters for zero and nine. -/
theorem isPrintable_natChars (n : Nat) : IsPrintable (natChars n) := by
  intro c hc
  have hdigit : 48 ≤ c.val ∧ c.val ≤ 57 := by
    simpa [Char.isDigit] using Nat.isDigit_of_mem_toDigits (by decide) (by decide) hc
  exact Nat.le_trans (by decide) (UInt32.le_iff_toNat_le.mp hdigit.1)

theorem isPrintable_intChars (x : Int) : IsPrintable (intChars x) := by
  cases x <;> simp [intChars, isPrintable_natChars]

theorem isPrintable_zeros (n : Nat) : IsPrintable (List.replicate n '0') := by
  intro c hc
  rw [List.eq_of_mem_replicate hc]
  decide

/-- Digits, a point and an exponent: each form that a decimal number is printed in. -/
theorem isPrintable_decimalChars (d : Decimal.Scaled) : IsPrintable (decimalChars d) := by
  have hdigits := isPrintable_natChars d.digits
  have htake (n : Nat) := hdigits.sublist (List.take_sublist n _)
  have hdrop (n : Nat) := hdigits.sublist (List.drop_sublist n _)
  unfold decimalChars
  dsimp only
  split
  · split
    · simp [hdigits, isPrintable_zeros]
    · split
      · simp [htake, hdrop]
      · simp [hdigits, isPrintable_zeros]
  · have htail : IsPrintable (if (natChars d.digits).length ≤ 1 then []
        else '.' :: (natChars d.digits).drop 1) := by
      split
      · exact isPrintable_nil
      · exact isPrintable_cons.mpr ⟨by decide, hdrop 1⟩
    have hsign (x : Int) : IsPrintable (if 0 ≤ x then ['+'] else []) := by
      split <;> simp
    refine isPrintable_append.mpr ⟨isPrintable_append.mpr ⟨htake 1, htail⟩, ?_⟩
    exact isPrintable_cons.mpr ⟨by decide,
      isPrintable_append.mpr ⟨hsign _, isPrintable_intChars _⟩⟩

/-- The text of a number holds no control character, whether integer or float. -/
theorem Number.isPrintable_chars (n : Number) : IsPrintable n.chars := by
  cases n with
  | int value => exact isPrintable_intChars value
  | float bits =>
    unfold chars floatChars
    dsimp only
    refine isPrintable_append.mpr ⟨?_, ?_⟩
    · split <;> simp
    · split
      · simp
      · exact isPrintable_decimalChars _

/-! ## Values -/

namespace Value

mutual

/-- The text of a value holds no control character, by recursion over its items and members. -/
theorem isPrintable_chars : ∀ v : Value, IsPrintable v.chars
  | .null => by simp [chars]
  | .bool true => by simp [chars]
  | .bool false => by simp [chars]
  | .number n => by simpa [chars] using n.isPrintable_chars
  | .string text => by simpa [chars] using isPrintable_quote text
  | .array [] => by simp [chars]
  | .array (v :: rest) => by simp [chars, isPrintable_chars v, isPrintable_itemsChars rest]
  | .object [] => by simp [chars]
  | .object ((k, v) :: rest) => by
    simp [chars, isPrintable_quote, isPrintable_chars v, isPrintable_membersChars rest]

/-- The text of further items, each behind a comma, holds no control character. -/
theorem isPrintable_itemsChars : ∀ items : List Value, IsPrintable (itemsChars items)
  | [] => by simp [itemsChars]
  | v :: rest => by simp [itemsChars, isPrintable_chars v, isPrintable_itemsChars rest]

/-- The text of further members, each behind a comma, holds no control character. -/
theorem isPrintable_membersChars : ∀ members : Fields, IsPrintable (membersChars members)
  | [] => by simp [membersChars]
  | (k, v) :: rest => by
    simp [membersChars, isPrintable_quote, isPrintable_chars v, isPrintable_membersChars rest]

end

end Value

end LiveDoc.Json
