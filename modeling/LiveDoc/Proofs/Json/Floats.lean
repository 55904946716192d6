import LiveDoc.Proofs.Json.Numerals

/-!
# LiveDoc — every number is written as a numeral

Whatever a number is, its text is one numeral. Integers are written by their digits. The shortest
decimal of a float has digits that do not start with a zero, and wherever the point comes to stand
among them, or an exponent behind them, there are digits on both sides of it. Whether the numeral is
read as the same number is another question.

* `Decimal.shortest_digits` — the shortest decimal has digits.
* `Number.exists_numeral` — the text of a number is a numeral.
-/

namespace LiveDoc

open Json

/-! ## Shortest decimals -/

namespace Decimal

/-- A number has as many digits as its magnitude asks for. -/
theorem pow_length_le {n : Nat} (hn : 0 < n) : Nat.pow 10 ((Nat.toDigits 10 n).length - 1) ≤ n := by
  by_cases hlength : (Nat.toDigits 10 n).length ≤ 1
  · rw [Nat.sub_eq_zero_of_le hlength]
    exact hn
  · have hlt : ¬ (Nat.toDigits 10 n).length ≤ (Nat.toDigits 10 n).length - 1 := by omega
    rw [Nat.length_toDigits_le_iff (by decide) (by omega)] at hlt
    exact Nat.le_of_not_lt hlt

/-- Without its trailing zeros a number is still there. -/
theorem reduce_digits {d : Scaled} (hd : 0 < d.digits) : 0 < d.reduce.digits := by
  let zeros := ((Nat.toDigits 10 d.digits).reverse.takeWhile (· = '0')).length
  have hzeros : zeros < (Nat.toDigits 10 d.digits).length := by
    have hsplit := congrArg List.length (List.takeWhile_append_dropWhile
      (p := (· = '0')) (l := (Nat.toDigits 10 d.digits).reverse))
    rw [List.length_append, List.length_reverse] at hsplit
    -- The first digit is no zero, and so it is kept.
    have hkept : (Nat.toDigits 10 d.digits).reverse.dropWhile (· = '0') ≠ [] := by
      intro hnil
      rw [List.dropWhile_eq_nil_iff] at hnil
      obtain ⟨first, rest, hdigits⟩ := List.exists_cons_of_ne_nil (@Nat.toDigits_ne_nil d.digits 10)
      have hfirst : first = '0' := by
        simpa using hnil first (by simp [hdigits])
      have hhead : (natChars d.digits).head? ≠ some '0' := head_natChars hd
      rw [natChars, hdigits, hfirst] at hhead
      exact hhead rfl
    have hpos := List.length_pos_iff.mpr hkept
    omega
  have hpow : Nat.pow 10 zeros ≤ d.digits :=
    (Nat.pow_le_pow_right (by decide) (by omega)).trans (pow_length_le hd)
  exact Nat.div_pos hpow (Nat.pow_pos (by decide))

theorem nearest?_digits {i : Interval} {k : Int} {point : Scaled} (h : i.nearest? k = some point) :
    0 < point.digits := by
  unfold Interval.nearest? at h
  dsimp only at h
  split at h
  · next hbelow _ =>
    rw [Bool.and_eq_true, decide_eq_true_iff] at hbelow
    split at h <;> cases h
    · exact Nat.pos_of_ne_zero hbelow.2
    · exact Nat.succ_pos _
  · next hbelow _ =>
    rw [Bool.and_eq_true, decide_eq_true_iff] at hbelow
    cases h
    exact Nat.pos_of_ne_zero hbelow.2
  · cases h
    exact Nat.succ_pos _
  · cases h

theorem shortestFrom_digits {i : Interval} {magnitude : Int} {tries : Nat} {point : Scaled}
    (h : i.shortestFrom magnitude tries = some point) : 0 < point.digits := by
  induction tries with
  | zero => cases h
  | succ tries ih =>
    rw [Interval.shortestFrom] at h
    split at h
    · next hpoint =>
      cases h
      exact nearest?_digits hpoint
    · exact ih h

/-- The shortest decimal is not zero, except where there is none. -/
theorem shortest_digits (x : Binary64) : 0 < (shortest x).digits ∨ shortest x = ⟨0, 0⟩ := by
  unfold shortest
  dsimp only
  split
  · next hpoint => exact .inl (reduce_digits (shortestFrom_digits hpoint))
  · exact .inr rfl

end Decimal

/-! ## Runs of digits -/

namespace Json

open LiveDoc.Json.Parser

variable {ds rest s t u : List Char}

/-- A run of digits, and what is behind it. -/
theorem digits1_run (hall : ∀ c ∈ ds, c.isDigit = true) (hne : ds ≠ [])
    (hrest : ∀ c, rest.head? = some c → c.isDigit = false) :
    digits1 (ds ++ rest) = some (ds, rest) := by
  have htake : rest.takeWhile Char.isDigit = [] ∧ rest.dropWhile Char.isDigit = rest := by
    cases rest with
    | nil => exact ⟨rfl, rfl⟩
    | cons c rest => simp [hrest c rfl]
  refine digits1_eq_some.mpr ⟨?_, hne⟩
  rw [digits_eq, List.takeWhile_append_of_pos hall, List.dropWhile_append_of_pos hall, htake.1,
    htake.2, List.append_nil]

/-- Whole digits that do not start with a zero, and what is behind them. -/
theorem whole_run (hall : ∀ c ∈ ds, c.isDigit = true) (hne : ds ≠ []) (hhead : ds.head? ≠ some '0')
    (hrest : ∀ c, rest.head? = some c → c.isDigit = false) :
    whole (ds ++ rest) = some (ds, rest) := by
  have hrun := digits1_run hall hne hrest
  obtain ⟨first, more, rfl⟩ := List.exists_cons_of_ne_nil hne
  have hfirst : first ≠ '0' := by simpa using hhead
  rw [List.cons_append] at hrun ⊢
  simpa [whole, hfirst] using hrun

theorem isDigit_natChars (n : Nat) : ∀ c ∈ natChars n, c.isDigit = true := fun _ hc =>
  Nat.isDigit_of_mem_toDigits (by decide) (by decide) hc

/-- A signed exponent is read to its end. -/
theorem exponent_intChars (x : Int) :
    exponent ('e' :: ((if 0 ≤ x then ['+'] else []) ++ intChars x)) =
      some (some (decide (x < 0), natChars x.natAbs), []) := by
  have hrun (n : Nat) : digits1 (natChars n) = some (natChars n, []) :=
    digits1_eq_some.mpr ⟨digits_natChars n, Nat.toDigits_ne_nil⟩
  cases x with
  | ofNat n =>
    have hsigned : signed ('+' :: natChars n) = (false, natChars n) := rfl
    simp [exponent_cons, intChars, hsigned, hrun]
  | negSucc n =>
    have hsigned : signed ('-' :: natChars (n + 1)) = (true, natChars (n + 1)) := rfl
    have hsign : Int.negSucc n < 0 := Int.negSucc_lt_zero n
    simp [exponent_cons, intChars, hsigned, hrun, hsign, not_le.mpr hsign]

/-- The text of a numeral without a sign: each part is read, and nothing is left. -/
def IsUnsigned (s : List Char) : Prop :=
  ∃ w t f u e, whole s = some (w, t) ∧ fraction t = some (f, u) ∧ exponent u = some (e, [])

theorem IsUnsigned.numeral (h : IsUnsigned s) (negative : Bool) :
    ∃ n, Parser.numeral ((if negative then ['-'] else []) ++ s) = some (n, []) := by
  obtain ⟨w, t, f, u, e, hw, hf, he⟩ := h
  have hminus : minus ((if negative then ['-'] else []) ++ s) = (negative, s) := by
    cases negative with
    | true => rfl
    | false =>
      cases s with
      | nil => rfl
      | cons c s =>
        have hc : c ≠ '-' := by
          rintro rfl
          simp [whole, digits1, digits_eq] at hw
        simp [minus, hc]
  exact ⟨{ negative, whole := w, fraction := f, exponent := e }, by
    simp [numeral_eq, hminus, hw, hf, he]⟩

/-! ## Floats -/

/-- The digits behind a point are read to their end. -/
theorem fraction_run (ds rest : List Char) (hall : ∀ c ∈ ds, c.isDigit = true) (hne : ds ≠ [])
    (hrest : ∀ c, rest.head? = some c → c.isDigit = false) :
    fraction ('.' :: (ds ++ rest)) = some (ds, rest) :=
  digits1_run hall hne hrest

theorem isDigit_replicate (k : Nat) : ∀ c ∈ List.replicate k '0', c.isDigit = true := by
  intro c hc
  rw [List.eq_of_mem_replicate hc]
  rfl

theorem not_isDigit_head {c : Char} (hc : c.isDigit = false) (s : List Char) :
    ∀ d, (c :: s).head? = some d → d.isDigit = false := by
  rintro d hd
  cases hd
  exact hc

/-- Whole digits, a point, more digits, and at most an exponent. -/
theorem isUnsigned_point {w f : List Char} {e : Option (Bool × List Char)}
    (hw : ∀ s, whole (w ++ '.' :: s) = some (w, '.' :: s)) (hf : ∀ c ∈ f, c.isDigit = true)
    (hne : f ≠ []) (hrest : ∀ c, rest.head? = some c → c.isDigit = false)
    (he : exponent rest = some (e, [])) : IsUnsigned (w ++ '.' :: (f ++ rest)) :=
  ⟨w, _, f, rest, e, hw _, fraction_run f rest hf hne hrest, he⟩

/-- A decimal that is not zero is written as a numeral. -/
theorem isUnsigned_decimalChars {d : Decimal.Scaled} (hd : 0 < d.digits) :
    IsUnsigned (decimalChars d) := by
  have hall := isDigit_natChars d.digits
  have hhead := head_natChars hd
  have hne : natChars d.digits ≠ [] := Nat.toDigits_ne_nil
  unfold decimalChars
  dsimp only
  generalize natChars d.digits = digits at hall hhead hne ⊢
  have hlength := List.length_pos_iff.mpr hne
  generalize hexponent : d.exponent + ((digits.length - 1 : Nat) : Int) = exponent
  have htake (k : Nat) (hk : 0 < k) (c : Char) (hc : c.isDigit = false) (s : List Char) :
      whole (digits.take k ++ c :: s) = some (digits.take k, c :: s) := by
    refine whole_run (fun c hc => hall c (List.mem_of_mem_take hc)) ?_ ?_ (not_isDigit_head hc s)
    · simp [hne, hk.ne']
    · rwa [List.head?_take, if_neg hk.ne']
  have hdrop (k : Nat) : ∀ c ∈ digits.drop k, c.isDigit = true :=
    fun c hc => hall c (List.mem_of_mem_drop hc)
  have hpoint {w f : List Char} (hw : ∀ s, whole (w ++ '.' :: s) = some (w, '.' :: s))
      (hf : ∀ c ∈ f, c.isDigit = true) (hfne : f ≠ []) : IsUnsigned (w ++ '.' :: f) := by
    have h : IsUnsigned (w ++ '.' :: (f ++ [])) := isUnsigned_point hw hf hfne nofun rfl
    rwa [List.append_nil] at h
  split
  · split
    · -- The point comes behind all digits.
      refine hpoint (fun s => whole_run (fun c hc => ?_) (by simp [hne]) ?_
        (not_isDigit_head rfl s)) (isDigit_replicate 1) nofun
      · exact (List.mem_append.mp hc).elim (hall c) (isDigit_replicate _ c)
      · rwa [List.head?_append_of_ne_nil _ hne]
    · split
      · -- The point comes among the digits.
        have hinside : exponent.toNat + 1 < digits.length := by omega
        exact hpoint (htake _ (Nat.succ_pos _) '.' rfl) (hdrop _)
          (mt List.drop_eq_nil_iff.mp (by omega))
      · -- The point comes before all digits.
        exact hpoint (w := ['0']) (fun _ => rfl)
          (fun c hc => (List.mem_append.mp hc).elim (isDigit_replicate _ c) (hall c))
          (by simp [hne])
  · -- An exponent comes behind the digits.
    split
    · rw [List.append_nil]
      exact ⟨_, _, [], _, _, htake 1 Nat.one_pos 'e' rfl _, rfl, exponent_intChars exponent⟩
    · rw [List.append_assoc]
      exact isUnsigned_point (htake 1 Nat.one_pos '.' rfl) (hdrop 1)
        (mt List.drop_eq_nil_iff.mp (by omega)) (not_isDigit_head rfl _)
        (exponent_intChars exponent)

theorem isUnsigned_zero : IsUnsigned ['0', '.', '0'] := ⟨['0'], _, ['0'], [], none, rfl, rfl, rfl⟩

/-- The text of a number is a numeral. -/
theorem Number.exists_numeral (n : Number) :
    ∃ numeral, Parser.numeral n.chars = some (numeral, []) := by
  cases n with
  | int i => exact ⟨_, numeral_intChars i⟩
  | float bits =>
    refine IsUnsigned.numeral ?_ (Decimal.Binary64.ofBits bits).negative
    split
    · exact isUnsigned_zero
    · rcases Decimal.shortest_digits (Decimal.Binary64.ofBits bits) with hdigits | hzero
      · exact isUnsigned_decimalChars hdigits
      · rw [hzero]
        exact isUnsigned_zero

end Json

end LiveDoc
