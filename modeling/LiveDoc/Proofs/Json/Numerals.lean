import LiveDoc.Json.Parser
import LiveDoc.Json.Printer
import LiveDoc.Proofs.Json.Canonical
import Mathlib.Data.List.TakeDrop
import Mathlib.Data.List.TakeWhile

/-!
# LiveDoc — numbers survive as text

A numeral ends where the next character can not belong to it, and then what follows is left as it
is. Integers of 64 bits, with or without a sign, are read back from their digits.

* `Parser.numeral_append` — a numeral is read the same whatever follows it.
* `Number.readsBack_of_fits` — which numbers are read back from their text.
-/

namespace LiveDoc.Json.Parser

/-! ## Where a numeral ends -/

def EndsNumeral (rest : List Char) : Prop :=
  ∀ c, rest.head? = some c → c.isDigit = false ∧ c ≠ '.' ∧ c ≠ 'e' ∧ c ≠ 'E'

theorem endsNumeral_nil : EndsNumeral [] := by
  intro c hc
  simp at hc

theorem endsNumeral_cons {c : Char} {rest : List Char}
    (h : c.isDigit = false ∧ c ≠ '.' ∧ c ≠ 'e' ∧ c ≠ 'E') : EndsNumeral (c :: rest) := by
  intro d hd
  cases hd
  exact h

variable {s t rest : List Char}

theorem digits_eq (s : List Char) :
    digits s = (s.takeWhile Char.isDigit, s.dropWhile Char.isDigit) :=
  List.span_eq_takeWhile_dropWhile _ s

/-- Behind the end of a numeral there are no digits of it. -/
theorem digits_of_endsNumeral (hrest : EndsNumeral rest) : digits rest = ([], rest) := by
  rw [digits_eq]
  cases rest with
  | nil => rfl
  | cons c rest => simp [(hrest c rfl).1]

/-- Digits end where they did, whatever follows that can not belong to the numeral. -/
theorem digits_append (hrest : EndsNumeral rest) {ds : List Char} (h : digits s = (ds, t)) :
    digits (s ++ rest) = (ds, t ++ rest) := by
  induction s generalizing ds with
  | nil =>
    cases h
    exact digits_of_endsNumeral hrest
  | cons c s ih =>
    rw [digits_eq] at h
    rw [List.cons_append, digits_eq]
    cases hc : c.isDigit with
    | false =>
      simp only [hc, List.takeWhile_cons, List.dropWhile_cons, Bool.false_eq_true, ↓reduceIte,
        Prod.mk.injEq] at h ⊢
      obtain ⟨rfl, rfl⟩ := h
      exact ⟨rfl, rfl⟩
    | true =>
      simp only [hc, List.takeWhile_cons, List.dropWhile_cons, ↓reduceIte, Prod.mk.injEq] at h ⊢
      obtain ⟨rfl, rfl⟩ := h
      have hih := ih (digits_eq s)
      rw [digits_eq, Prod.mk.injEq] at hih
      exact ⟨by rw [hih.1], hih.2⟩

/-- At least one digit: the digits there are, if there are any. -/
theorem digits1_eq_some {ds : List Char} :
    digits1 s = some (ds, t) ↔ digits s = (ds, t) ∧ ds ≠ [] := by
  unfold digits1
  split
  · next rest hd =>
    rw [hd]
    grind
  · next taken hne =>
    constructor
    · intro h
      have heq : digits s = (ds, t) := Option.some.inj h
      refine ⟨heq, fun hnil => hne t ?_⟩
      rw [heq, hnil]
    · rintro ⟨heq, -⟩
      exact congrArg some heq

theorem digits1_append (hrest : EndsNumeral rest) {ds : List Char}
    (h : digits1 s = some (ds, t)) : digits1 (s ++ rest) = some (ds, t ++ rest) := by
  obtain ⟨hdigits, hne⟩ := digits1_eq_some.mp h
  exact digits1_eq_some.mpr ⟨digits_append hrest hdigits, hne⟩

/-- The whole part ends where it did; behind a leading zero no digit can follow. -/
theorem whole_append (hrest : EndsNumeral rest) {ds : List Char} (h : whole s = some (ds, t)) :
    whole (s ++ rest) = some (ds, t ++ rest) := by
  cases s with
  | nil => simp [whole, digits1, digits, List.span, List.span.loop] at h
  | cons c s =>
    by_cases hc : c = '0'
    · subst hc
      simp only [whole, List.cons_append] at h ⊢
      split at h
      · simp at h
      · next hhead =>
        obtain ⟨rfl, rfl⟩ : ['0'] = ds ∧ s = t := by simpa using h
        -- No digit follows the zero, neither in the numeral nor behind it.
        have hhead' : ¬ (s ++ rest).head?.any Char.isDigit = true := by
          cases s with
          | nil =>
            cases hr : rest with
            | nil => simp
            | cons d rest' => simp [(hrest d (by simp [hr])).1]
          | cons d s => simpa using hhead
        rw [if_neg hhead']
    · have hwhole : ∀ u, whole (c :: u) = digits1 (c :: u) := by
        intro u
        simp [whole, hc]
      rw [hwhole] at h
      rw [List.cons_append, hwhole, ← List.cons_append]
      exact digits1_append hrest h

theorem fraction_append (hrest : EndsNumeral rest) {ds : List Char}
    (h : fraction s = some (ds, t)) : fraction (s ++ rest) = some (ds, t ++ rest) := by
  have hplain : ∀ {u : List Char}, u.head? ≠ some '.' → fraction u = some ([], u) := by
    intro u hu
    unfold fraction
    split
    · simp at hu
    · rfl
  cases s with
  | nil =>
    cases h
    exact hplain fun hdot => (hrest '.' hdot).2.1 rfl
  | cons c s =>
    by_cases hc : c = '.'
    · subst hc
      exact digits1_append hrest h
    · rw [hplain (by simpa using hc)] at h
      cases h
      exact hplain (by simpa using hc)

/-! ## Signs -/

/-- The sign of an exponent and what is behind it. -/
def signed : List Char → Bool × List Char
  | '+' :: s => (false, s)
  | '-' :: s => (true, s)
  | s => (false, s)

/-- The sign of a numeral and what is behind it. -/
def minus : List Char → Bool × List Char
  | '-' :: s => (true, s)
  | s => (false, s)

theorem exponent_cons (c : Char) (s : List Char) :
    exponent (c :: s) =
      if c = 'e' || c = 'E' then
        (digits1 (signed s).2).map fun (ds, rest) => (some ((signed s).1, ds), rest)
      else some (none, c :: s) := rfl

theorem numeral_eq (s : List Char) :
    numeral s = do
      let (w, s') ← whole (minus s).2
      let (f, s') ← fraction s'
      let (e, s') ← exponent s'
      return ({ negative := (minus s).1, whole := w, fraction := f, exponent := e }, s') := rfl

theorem signed_append (hs : s ≠ []) : signed (s ++ rest) = ((signed s).1, (signed s).2 ++ rest) := by
  obtain ⟨c, s, rfl⟩ := List.exists_cons_of_ne_nil hs
  by_cases hp : c = '+'
  · subst hp
    rfl
  · by_cases hm : c = '-'
    · subst hm
      rfl
    · simp [signed, hp, hm]

theorem minus_append (hs : s ≠ []) : minus (s ++ rest) = ((minus s).1, (minus s).2 ++ rest) := by
  obtain ⟨c, s, rfl⟩ := List.exists_cons_of_ne_nil hs
  by_cases hm : c = '-'
  · subst hm
    rfl
  · simp [minus, hm]

theorem exponent_append (hrest : EndsNumeral rest) {e : Option (Bool × List Char)}
    (h : exponent s = some (e, t)) : exponent (s ++ rest) = some (e, t ++ rest) := by
  have hplain : ∀ {u : List Char}, (∀ c, u.head? = some c → c ≠ 'e' ∧ c ≠ 'E') →
      exponent u = some (none, u) := by
    intro u hu
    cases u with
    | nil => rfl
    | cons c u => simp [exponent_cons, hu c rfl]
  cases s with
  | nil =>
    cases h
    exact hplain fun c hc => (hrest c hc).2.2
  | cons c s =>
    by_cases he : c = 'e' ∨ c = 'E'
    · rw [exponent_cons, if_pos (by simpa using he)] at h
      obtain ⟨⟨ds, u⟩, hds, hout⟩ := Option.map_eq_some_iff.mp h
      cases hout
      have hne : s ≠ [] := by
        rintro rfl
        simp [signed, digits1, digits_eq] at hds
      rw [List.cons_append, exponent_cons, if_pos (by simpa using he), signed_append hne,
        digits1_append hrest hds]
      rfl
    · have hc : c ≠ 'e' ∧ c ≠ 'E' := by simpa using he
      rw [hplain (by simpa using hc)] at h
      cases h
      exact hplain (by simpa using hc)

/-- A numeral is read the same whatever follows it. -/
theorem numeral_append (hrest : EndsNumeral rest) {n : Numeral} (h : numeral s = some (n, t)) :
    numeral (s ++ rest) = some (n, t ++ rest) := by
  rw [numeral_eq] at h
  obtain ⟨⟨w, s₁⟩, hw, h⟩ := Option.bind_eq_some_iff.mp h
  obtain ⟨⟨f, s₂⟩, hf, h⟩ := Option.bind_eq_some_iff.mp h
  obtain ⟨⟨e, s₃⟩, he, h⟩ := Option.bind_eq_some_iff.mp h
  cases h
  -- Each part is read the same, and what is left of it goes to the next.
  have hne : s ≠ [] := by
    rintro rfl
    simp [minus, whole, digits1, digits_eq] at hw
  rw [numeral_eq, minus_append hne, whole_append hrest hw]
  simp [fraction_append hrest hf, exponent_append hrest he]

/-- A numeral starts with a minus sign or a digit. -/
theorem head_of_numeral {n : Numeral} (h : numeral s = some (n, t)) :
    ∃ c u, s = c :: u ∧ (c = '-' ∨ c.isDigit = true) := by
  rw [numeral_eq] at h
  obtain ⟨⟨w, s₁⟩, hw, -⟩ := Option.bind_eq_some_iff.mp h
  cases s with
  | nil => simp [minus, whole, digits1, digits_eq] at hw
  | cons c s =>
    refine ⟨c, s, rfl, ?_⟩
    by_contra hc
    have hminus : c ≠ '-' := fun heq => hc (Or.inl heq)
    have hdigit : c.isDigit = false := by simpa using fun hd => hc (Or.inr hd)
    have hzero : c ≠ '0' := by
      rintro rfl
      simp at hdigit
    simp [minus, hminus, whole, hzero, digits1, digits_eq, hdigit] at hw

end LiveDoc.Json.Parser

namespace LiveDoc.Json

open LiveDoc.Json.Parser

/-! ## Integers -/

/-- Digits that stay below the limit add up to the number that they stand for, and none is left
over. -/
theorem appendDigits_eq {acc : Nat} {ds : List Char}
    (h : Nat.ofDigitChars 10 ds acc < UInt64.size) :
    appendDigits acc ds = (Nat.ofDigitChars 10 ds acc, ds.length, 0) := by
  induction ds generalizing acc with
  | nil => simp [appendDigits]
  | cons c ds ih =>
    have hnext : acc * 10 + digitValue c = 10 * acc + (c.toNat - '0'.toNat) := by
      rw [digitValue, Nat.mul_comm]
    rw [Nat.ofDigitChars_cons, ← hnext] at h ⊢
    -- What is read so far is at most the whole number.
    have hfits : acc * 10 + digitValue c < UInt64.size := by
      rw [Nat.ofDigitChars_eq_ofDigitChars_zero] at h
      have hpow : 0 < 10 ^ ds.length := Nat.pow_pos (by decide)
      have hmul := Nat.le_mul_of_pos_left (acc * 10 + digitValue c) hpow
      omega
    simp [appendDigits, hfits, ih h]

/-- The digits of a number start with a zero only if it is zero. -/
theorem head_natChars {n : Nat} (hn : 0 < n) : (natChars n).head? ≠ some '0' := by
  induction n using Nat.strongRecOn with
  | ind n ih =>
    by_cases hlt : n < 10
    · rw [natChars, Nat.toDigits_of_lt_base hlt]
      have hdigit : ∀ d, d < 10 → 0 < d → d.digitChar ≠ '0' := by decide
      simpa using hdigit n hlt hn
    · rw [natChars, Nat.toDigits_of_base_le (by decide) (by omega),
        List.head?_append_of_ne_nil _ Nat.toDigits_ne_nil]
      exact ih (n / 10) (by omega) (by omega)

theorem digits_natChars (n : Nat) : digits (natChars n) = (natChars n, []) := by
  have hall : ∀ c ∈ natChars n, c.isDigit = true := fun c hc =>
    Nat.isDigit_of_mem_toDigits (by decide) (by decide) hc
  rw [digits_eq, List.takeWhile_eq_self_iff.mpr hall, List.dropWhile_eq_nil_iff.mpr hall]

/-- A natural number is written without a leading zero, so that its digits are a whole part. -/
theorem whole_natChars (n : Nat) : whole (natChars n) = some (natChars n, []) := by
  rcases Nat.eq_zero_or_pos n with rfl | hn
  · rfl
  · have hhead := head_natChars hn
    have hdigits : digits1 (natChars n) = some (natChars n, []) :=
      digits1_eq_some.mpr ⟨digits_natChars n, Nat.toDigits_ne_nil⟩
    cases hchars : natChars n with
    | nil => exact absurd hchars Nat.toDigits_ne_nil
    | cons c s =>
      have hc : c ≠ '0' := by simpa [hchars] using hhead
      rw [hchars] at hdigits
      simpa [whole, hc] using hdigits

theorem minus_natChars (n : Nat) : minus (natChars n) = (false, natChars n) := by
  cases hchars : natChars n with
  | nil => rfl
  | cons c s =>
    have hdigit : c.isDigit = true :=
      Nat.isDigit_of_mem_toDigits (b := 10) (n := n) (by decide) (by decide)
        (by rw [← natChars, hchars]; exact List.mem_cons_self)
    have hc : c ≠ '-' := by
      rintro rfl
      simp at hdigit
    simp [minus, hc]

/-- The numeral that an integer is written as. -/
theorem numeral_intChars (i : Int) :
    numeral (intChars i) =
      some ({ negative := i < 0, whole := natChars i.natAbs, fraction := [], exponent := none },
        []) := by
  cases i with
  | ofNat n =>
    simp [intChars, numeral_eq, minus_natChars, whole_natChars, fraction, exponent]
  | negSucc n =>
    have hminus : minus (intChars (.negSucc n)) = (true, natChars (n + 1)) := rfl
    have hsign : Int.negSucc n < 0 := Int.negSucc_lt_zero n
    simp [numeral_eq, hminus, whole_natChars, fraction, exponent, hsign]

/-! ## Numbers that read back -/

/-- The text of a number reads back as the number. -/
def Number.ReadsBack (n : Number) : Prop :=
  ∃ numeral, Parser.numeral n.chars = some (numeral, []) ∧ numeral.number? = some n

/-- An integer of 64 bits, with or without a sign, or any float. -/
def Number.Fits : Number → Prop
  | .int i => -9223372036854775808 ≤ i ∧ i < 18446744073709551616
  | .float _ => True

/-- The text of a float reads back; nothing is asked of an integer. -/
def Number.FloatReadsBack : Number → Prop
  | .int _ => True
  | .float bits => (Number.float bits).ReadsBack

/-- The digits of a word of 64 bits are an integer again; a sign is kept only if the integer fits
with it. -/
theorem number?_of_digits {negative : Bool} {n : Nat} (hn : n < UInt64.size)
    (hsign : negative = true → 0 < n ∧ n ≤ 9223372036854775808) :
    ({ negative, whole := natChars n, fraction := [], exponent := none } : Numeral).number? =
      some (.int (if negative then -n else n)) := by
  have hvalue : Nat.ofDigitChars 10 (natChars n) 0 = n := Nat.ofDigitChars_ten_toDigits
  have happend : appendDigits 0 (natChars n) = (n, (natChars n).length, 0) := by
    have h := @appendDigits_eq 0 (natChars n) (by rwa [hvalue])
    rwa [hvalue] at h
  rw [Numeral.number?, happend]
  have hcond : (({ negative, whole := natChars n, fraction := [], exponent := none } :
      Numeral).isWhole = true ∧ 0 = 0 ∧
      (negative = true → 0 < n ∧ n ≤ 9223372036854775808)) := ⟨rfl, rfl, hsign⟩
  exact if_pos hcond

theorem Number.readsBack_int {i : Int} (h : (Number.int i).Fits) : (Number.int i).ReadsBack := by
  obtain ⟨hlow, hhigh⟩ := h
  refine ⟨_, numeral_intChars i, ?_⟩
  rw [number?_of_digits (by simp [UInt64.size]; omega)]
  · by_cases hneg : i < 0
    · simp only [hneg, decide_true, ↓reduceIte, Option.some.injEq, Number.int.injEq]
      omega
    · simp only [hneg, decide_false, Bool.false_eq_true, ↓reduceIte, Option.some.injEq,
        Number.int.injEq]
      omega
  · intro hneg
    have hlt : i < 0 := by simpa using hneg
    omega

/-- An integer that fits reads back, and so does a float if its text does. -/
theorem Number.readsBack_of_fits {n : Number} (hfits : n.Fits) (hfloat : n.FloatReadsBack) :
    n.ReadsBack := by
  cases n with
  | int i => exact Number.readsBack_int hfits
  | float bits => exact hfloat

end LiveDoc.Json
