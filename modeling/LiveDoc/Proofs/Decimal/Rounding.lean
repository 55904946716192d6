import Mathlib

/-!
# LiveDoc — what rounding keeps

An operation on floats computes a number exactly, or with enough digits, and rounds it. The float
that comes out may be below that number, but it does not jump a float: nothing that a float has
digits for lies above it and not above the number. So a float that compares above a sum is above the
exact sum of whatever its terms reach, and no bound on the error is needed. Nor is a bound on the
terms, since a sum that is too large becomes infinite, and nothing is above that.

Floats are read as their logical model has them, with sign, mantissa and exponent.

* `IsPoint`, `IsPoint.le_div` — what a float has digits for is not lost with the further digits.
* `Keeps` — a float that stands for a number, rounded.
* `keeps_add`, `keeps_div` — arithmetic.
* `unpack_pack` — storing a float keeps it.
* `lt_magnitude` — comparing a float with one that stands for a number.
-/

namespace LiveDoc.Decimal

open Float.Model Float.Model.UnpackedFloat

/-- A number that a float has enough digits for. -/
def IsPoint (v : Rat) : Prop := ∃ (q : Nat) (j : Int), q < 2 ^ 53 ∧ -1074 ≤ j ∧ v = q * 2 ^ j

/-- A number with the last digit `2 ^ e` has enough digits to be rounded to a float. -/
def IsFine (r : Nat) (e : Int) : Prop := e ≤ -1074 ∨ 2 ^ 52 ≤ r

/-- A magnitude `m * 2 ^ e` in the form in which floats are compared. -/
structure IsCanonical (m : Nat) (e : Int) : Prop where
  lt : m < 2 ^ 53
  le : -1074 ≤ e
  fine : IsFine m e

/-- A float in its canonical form stands on a point of the grid. -/
theorem IsCanonical.isPoint {m : Nat} {e : Int} (h : IsCanonical m e) : IsPoint (m * 2 ^ e) :=
  ⟨m, e, h.lt, h.le, rfl⟩

/-- Nothing that a float has digits for lies between a number and its leading digits. -/
theorem IsPoint.le_div {v : Rat} {m d : Nat} {e : Int} (h : IsPoint v) (hd : 0 < d)
    (hv : v ≤ (m : Rat) / d * 2 ^ e) (hfine : IsFine (m / d) e) : v ≤ (m / d : Nat) * 2 ^ e := by
  obtain ⟨q, j, hq, hj, rfl⟩ := h
  have hpow : (0 : Rat) < 2 ^ e := by positivity
  by_cases hle : e ≤ j
  · -- The point is a multiple of the last digit.
    obtain ⟨k, rfl⟩ := Int.exists_add_of_le hle
    rw [zpow_add₀ two_ne_zero, zpow_natCast, mul_comm (2 ^ e : Rat), ← mul_assoc] at hv ⊢
    refine mul_le_mul_of_nonneg_right ?_ hpow.le
    have hquot := le_of_mul_le_mul_right hv hpow
    rw [le_div_iff₀ (by exact_mod_cast hd)] at hquot
    exact_mod_cast (Nat.le_div_iff_mul_le hd).mpr (by exact_mod_cast hquot)
  · -- The point is below the least number with that many digits.
    have hmany : 2 ^ 52 ≤ m / d := hfine.resolve_left (by omega)
    have hnext : (2 : Rat) ^ j ≤ 2 ^ (e - 1) := zpow_le_zpow_right₀ (by norm_num) (by omega)
    calc (q : Rat) * 2 ^ j ≤ 2 ^ 53 * 2 ^ (e - 1) := by
          refine mul_le_mul (by exact_mod_cast hq.le) hnext (by positivity) (by positivity)
      _ = 2 ^ 52 * 2 ^ e := by rw [zpow_sub_one₀ two_ne_zero]; ring
      _ ≤ (m / d : Nat) * 2 ^ e := by
          refine mul_le_mul_of_nonneg_right ?_ hpow.le
          exact_mod_cast hmany

/-! ## Shifting and rounding -/

theorem mantissa_shiftRight (em : ExtendedMantissa) (k : Nat) :
    (em >>> k).mantissa = em.mantissa / 2 ^ k := by
  induction k with
  | zero => rw [Nat.pow_zero, Nat.div_one]; rfl
  | succ k ih =>
    rw [Nat.pow_succ, ← Nat.div_div_eq_div_mul, ← ih]
    rfl

theorem mantissa_ofMantissaAndAccuracy (m : Nat) (accuracy : Accuracy) :
    (ExtendedMantissa.ofMantissaAndAccuracy m accuracy).mantissa = m := by
  rcases accuracy with _ | (_ | _ | _) <;> rfl

/-- Rounding to nearest never goes below what was cut off. -/
theorem le_roundedMantissa (em : ExtendedMantissa) : em.mantissa ≤ em.roundedMantissa := by
  rcases em with ⟨m, _ | _, _ | _⟩ <;>
    simp [ExtendedMantissa.roundedMantissa, ExtendedMantissa.accuracy, Accuracy.roundToNearestEven]

/-- The exponent of the last digit of a float of the magnitude. -/
theorem targetExponent_eq (m : Nat) (e : Int) :
    Format.binary64.targetExponent (totalExponent m e) = max (m.log2 + e - 52) (-1074) := by
  simp only [Format.targetExponent, totalExponent, Format.minExponent, Format.mantissaBits]
  norm_num
  omega

/-- A mantissa that is fine enough is shifted to the right, if at all. -/
theorem IsFine.le_target {m : Nat} {e : Int} (h : IsFine m e) :
    e ≤ max (m.log2 + e - 52) (-1074) := by
  rcases h with h | h
  · omega
  · have : 52 ≤ m.log2 := (Nat.le_log2 (by omega)).mpr h
    omega

/-- The leading digits of a magnitude are those of a float. -/
theorem isCanonical_shift {m : Nat} {e : Int} (h : IsFine m e) (accuracy : Accuracy) :
    let cut := shiftToTargetExponent Format.binary64 m e accuracy
    IsCanonical cut.1.mantissa cut.2 ∧
      ∀ v, IsPoint v → v ≤ m * 2 ^ e → v ≤ cut.1.mantissa * 2 ^ cut.2 := by
  set k := (max (m.log2 + e - 52) (-1074) - e).toNat with hk
  have hcut : shiftToTargetExponent Format.binary64 m e accuracy =
      (ExtendedMantissa.ofMantissaAndAccuracy m accuracy >>> k, e + k) := by
    rw [shiftToTargetExponent, shiftToExponent, targetExponent_eq]
  have htarget : e + k = max (m.log2 + e - 52) (-1074) := by
    have := h.le_target
    omega
  have hfine : IsFine (m / 2 ^ k) (e + k) := by
    by_cases hleast : e + k ≤ -1074
    · exact .inl hleast
    · refine .inr ((Nat.le_div_iff_mul_le (Nat.two_pow_pos k)).mpr ?_)
      have hlog : m.log2 = 52 + k := by omega
      rw [← Nat.pow_add, ← hlog]
      refine Nat.log2_self_le fun hzero => ?_
      simp only [hzero, Nat.log2_zero] at hlog
      omega
  rw [hcut]
  dsimp only
  rw [mantissa_shiftRight, mantissa_ofMantissaAndAccuracy]
  refine ⟨⟨?_, by omega, hfine⟩, fun v hv hle => hv.le_div (Nat.two_pow_pos k) ?_ hfine⟩
  · refine (Nat.div_lt_iff_lt_mul (Nat.two_pow_pos k)).mpr (Nat.lt_log2_self.trans_le ?_)
    rw [← Nat.pow_add]
    exact Nat.pow_le_pow_right (by decide) (by omega)
  · have hpow : (2 : Rat) ^ k ≠ 0 := by positivity
    rw [zpow_add₀ two_ne_zero, zpow_natCast, mul_comm (2 ^ e : Rat), ← mul_assoc, Nat.cast_pow,
      Nat.cast_ofNat, div_mul_cancel₀ _ hpow]
    exact hle

/-- A float in the form in which floats are compared. -/
def IsRounded : UnpackedFloat → Prop
  | .finite _ m e _ => IsCanonical m e
  | _ => True

/-- A float that is not negative and not below the value. -/
def Reaches (v : Rat) : UnpackedFloat → Prop
  | .infinity .positive => True
  | .zero _ => v ≤ 0
  | .finite .positive m e _ => v ≤ m * 2 ^ e
  | _ => False

/-- A float that stands for the value, rounded: it may be below the value, but not below anything
that a float has digits for and that is not above the value. -/
structure Keeps (x : Rat) (u : UnpackedFloat) : Prop where
  isRounded : IsRounded u
  reaches : ∀ v, IsPoint v → v ≤ x → Reaches v u

theorem Reaches.of_le {v w : Rat} {u : UnpackedFloat} (h : Reaches v u) (hle : w ≤ v) :
    Reaches w u := by
  rcases u with ⟨_ | _⟩ | _ | _ | ⟨_ | _⟩ <;> first | exact h | exact hle.trans h

/-- What a float that reaches a value can be. -/
theorem Reaches.cases {v : Rat} {u : UnpackedFloat} (h : Reaches v u) :
    u = .infinity .positive ∨ (∃ s, u = .zero s ∧ v ≤ 0) ∨
      ∃ m e hm, u = .finite .positive m e hm ∧ v ≤ m * 2 ^ e := by
  rcases u with ⟨_ | _⟩ | _ | s | ⟨_ | _, m, e, hm⟩
  · exact h.elim
  · exact .inl rfl
  · exact h.elim
  · exact .inr (.inl ⟨s, rfl, h⟩)
  · exact h.elim
  · exact .inr (.inr ⟨m, e, hm, rfl, h⟩)

theorem Keeps.of_le {x y : Rat} {u : UnpackedFloat} (h : Keeps x u) (hle : y ≤ x) : Keeps y u :=
  ⟨h.isRounded, fun v hv hvy => h.reaches v hv (hvy.trans hle)⟩

theorem keeps_infinity (x : Rat) : Keeps x (.infinity .positive) := ⟨trivial, fun _ _ _ => trivial⟩

theorem keeps_zero (s : Sign) : Keeps 0 (.zero s) := ⟨trivial, fun _ _ h => h⟩

/-- A rounded float that reaches a value keeps every point up to it. -/
theorem Reaches.keeps {x : Rat} {u : UnpackedFloat} (h : Reaches x u) (hu : IsRounded u) :
    Keeps x u :=
  ⟨hu, fun _ _ hle => h.of_le hle⟩

/-- A magnitude with enough digits is rounded: where no float lies between it and the value, that is
the value, rounded. -/
theorem keeps_roundWithAccuracy {m : Nat} {e : Int} (h : IsFine m e) (accuracy : Accuracy)
    {x : Rat} (hx : ∀ v, IsPoint v → v ≤ x → v ≤ m * 2 ^ e) :
    Keeps x (roundWithAccuracy Format.binary64 .positive m e accuracy) := by
  rw [roundWithAccuracy]
  obtain ⟨hfirst, hkept⟩ := isCanonical_shift h accuracy
  generalize shiftToTargetExponent Format.binary64 m e accuracy = cut at hfirst hkept ⊢
  obtain ⟨em, e'⟩ := cut
  have hrounded := le_roundedMantissa em
  -- The digits may have become one more, and are cut once more.
  have hfine : IsFine em.roundedMantissa e' := hfirst.fine.imp_right (·.trans hrounded)
  obtain ⟨hsecond, hkept'⟩ := isCanonical_shift hfine .exact
  dsimp only
  generalize shiftToTargetExponent Format.binary64 em.roundedMantissa e' .exact = cut at *
  have hreached : ∀ v, IsPoint v → v ≤ x → v ≤ cut.1.mantissa * 2 ^ cut.2 := fun v hv hle => by
    refine hkept' v hv ((hkept v hv (hx v hv hle)).trans ?_)
    exact mul_le_mul_of_nonneg_right (by exact_mod_cast hrounded) (by positivity)
  split
  · next hzero =>
    refine ⟨trivial, fun v hv hle => ?_⟩
    have hle := hreached v hv hle
    rw [hzero, Nat.cast_zero, zero_mul] at hle
    exact hle
  · exact ⟨hsecond, hreached⟩

theorem shiftLeft_mul_zpow (m k : Nat) (e : Int) :
    ((m <<< k : Nat) : Rat) * 2 ^ (e - k) = m * 2 ^ e := by
  have hpow : (2 : Rat) ^ k ≠ 0 := by positivity
  rw [Nat.shiftLeft_eq, zpow_sub₀ two_ne_zero, zpow_natCast, Nat.cast_mul, Nat.cast_pow,
    Nat.cast_ofNat, mul_assoc, mul_div_cancel₀ _ hpow]

/-- Rounding does not go below a point of the grid that the value has reached. -/
theorem keeps_round {m : Nat} (hm : 0 < m) (e : Int) :
    Keeps (m * 2 ^ e) (UnpackedFloat.round Format.binary64 .positive m e) := by
  rw [UnpackedFloat.round, targetExponent_eq, decreaseExponent]
  set k := (e - max (m.log2 + e - 52) (-1074)).toNat with hk
  refine keeps_roundWithAccuracy ?_ .exact fun v _ hle => ?_
  · by_cases hleast : e - k ≤ -1074
    · exact .inl hleast
    · have hlog : 2 ^ m.log2 ≤ m := Nat.log2_self_le hm.ne'
      rw [IsFine, Nat.shiftLeft_eq]
      refine .inr (le_trans ?_ (Nat.mul_le_mul_right (2 ^ k) hlog))
      rw [← Nat.pow_add]
      exact Nat.pow_le_pow_right (by decide) (by omega)
  · rw [shiftLeft_mul_zpow]
    exact hle

/-! ## Arithmetic -/

/-- Normalizing a value and rounding it does not go below a point that it has reached. -/
theorem keeps_normalize (m : Nat) (e : Int) (s : Sign) :
    Keeps (m * 2 ^ e) (UnpackedFloat.normalize Format.binary64 m e s) := by
  rcases Nat.eq_zero_or_pos m with rfl | hm
  · have hzero : UnpackedFloat.normalize Format.binary64 (0 : Nat) e s = .zero s := rfl
    rw [hzero, Nat.cast_zero, zero_mul]
    exact keeps_zero s
  · rw [UnpackedFloat.normalize, Int.compare_eq_gt.mpr (by omega), Int.toNat_natCast]
    exact keeps_round hm e

/-- A natural number becomes a float no lower than any point up to it. -/
theorem keeps_ofNat (n : Nat) : Keeps n (UnpackedFloat.ofNat Format.binary64 n) := by
  have h := keeps_normalize n 0 .positive
  rwa [zpow_zero, mul_one] at h

theorem keeps_add {v w : Rat} {a b : UnpackedFloat} (ha : IsRounded a) (hb : IsRounded b)
    (hv : Reaches v a) (hw : Reaches w b) :
    Keeps (v + w) (UnpackedFloat.add Format.binary64 a b) := by
  rcases hv.cases with rfl | ⟨s, rfl, hv⟩ | ⟨m, e, hm, rfl, hv⟩
  · rcases hw.cases with rfl | ⟨t, rfl, -⟩ | ⟨m, e, hm, rfl, -⟩ <;> exact keeps_infinity _
  · rcases hw.cases with rfl | ⟨t, rfl, hw⟩ | ⟨m', e', hm', rfl, -⟩
    · exact keeps_infinity _
    · have hsum : ∃ sign, UnpackedFloat.add Format.binary64 (.zero s) (.zero t) = .zero sign := by
        cases s <;> cases t <;> exact ⟨_, rfl⟩
      obtain ⟨sign, hsum⟩ := hsum
      rw [hsum]
      exact (keeps_zero sign).of_le (by linarith)
    · exact (hw.keeps hb).of_le (by linarith)
  · rcases hw.cases with rfl | ⟨t, rfl, hw⟩ | ⟨m', e', hm', rfl, hw⟩
    · exact keeps_infinity _
    · exact (Reaches.keeps (show Reaches v _ from hv) ha).of_le (by linarith)
    · -- Both are shifted to the finer last digit, and then the sum is exact.
      have hsum := keeps_normalize
        (m <<< (e - min e e').toNat + m' <<< (e' - min e e').toNat) (min e e') .positive
      have hshift := shiftLeft_mul_zpow m (e - min e e').toNat e
      have hshift' := shiftLeft_mul_zpow m' (e' - min e e').toNat e'
      rw [show e - ((e - min e e').toNat : Int) = min e e' by omega] at hshift
      rw [show e' - ((e' - min e e').toNat : Int) = min e e' by omega] at hshift'
      rw [Nat.cast_add, add_mul, hshift, hshift'] at hsum
      exact hsum.of_le (add_le_add hv hw)

/-- A quotient is computed with enough digits to be rounded. -/
theorem isFine_div {m d : Nat} (hm : 0 < m) (hd : 0 < d) {e f t : Int}
    (ht : t ≤ Format.binary64.targetExponent (totalExponent m e - totalExponent d f)) :
    IsFine ((m <<< (e - f - t).toNat) / d) t := by
  simp only [Format.targetExponent, totalExponent, Format.minExponent, Format.mantissaBits] at ht
  norm_num at ht
  refine or_iff_not_imp_left.mpr fun hleast => (Nat.le_div_iff_mul_le hd).mpr ?_
  calc 2 ^ 52 * d ≤ 2 ^ 52 * 2 ^ (d.log2 + 1) := Nat.mul_le_mul_left _ Nat.lt_log2_self.le
    _ = 2 ^ (52 + (d.log2 + 1)) := (Nat.pow_add ..).symm
    _ ≤ 2 ^ (m.log2 + (e - f - t).toNat) := Nat.pow_le_pow_right (by decide) (by omega)
    _ = 2 ^ m.log2 * 2 ^ (e - f - t).toNat := Nat.pow_add ..
    _ ≤ m * 2 ^ (e - f - t).toNat := Nat.mul_le_mul_right _ (Nat.log2_self_le hm.ne')
    _ = m <<< (e - f - t).toNat := (Nat.shiftLeft_eq ..).symm

theorem keeps_div {v : Rat} {a : UnpackedFloat} (hv : Reaches v a) {d : Nat} (f : Int)
    (hd : 0 < d) :
    Keeps (v / (d * 2 ^ f)) (UnpackedFloat.div Format.binary64 a (.finite .positive d f hd)) := by
  have hpos : (0 : Rat) < d * 2 ^ f := mul_pos (by exact_mod_cast hd) (by positivity)
  rcases hv.cases with rfl | ⟨s, rfl, hv⟩ | ⟨m, e, hm, rfl, hv⟩
  · exact keeps_infinity _
  · exact (keeps_zero _).of_le (div_nonpos_of_nonpos_of_nonneg hv hpos.le)
  · rw [UnpackedFloat.div, divCore]
    set t := min (e - f) (Format.binary64.targetExponent (totalExponent m e - totalExponent d f))
      with ht
    have hfine := isFine_div hm hd (min_le_right _ _ : t ≤ _)
    refine keeps_roundWithAccuracy hfine _ fun w hw hle => hw.le_div hd (hle.trans ?_) hfine
    calc v / (d * 2 ^ f) ≤ m * 2 ^ e / (d * 2 ^ f) := by gcongr
      _ = (m <<< (e - f - t).toNat : Nat) * 2 ^ (e - (e - f - t).toNat) / (d * 2 ^ f) := by
        rw [shiftLeft_mul_zpow]
      _ = (m <<< (e - f - t).toNat : Nat) * 2 ^ (t + f) / (d * 2 ^ f) := by
        rw [show e - ((e - f - t).toNat : Int) = t + f by omega]
      _ = (m <<< (e - f - t).toNat : Nat) / d * 2 ^ t := by
        rw [zpow_add₀ two_ne_zero, ← mul_assoc, mul_div_mul_right _ _ (by positivity),
          div_mul_eq_mul_div]

/-! ## Comparing -/

/-- The magnitude of a finite float. -/
def magnitude : UnpackedFloat → Rat
  | .finite _ m e _ => m * 2 ^ e
  | _ => 0

theorem isPoint_magnitude {u : UnpackedFloat} (h : IsRounded u) : IsPoint (magnitude u) := by
  cases u with
  | finite s m e hm => exact IsCanonical.isPoint h
  | _ => exact ⟨0, 0, by norm_num, by norm_num, by simp [magnitude]⟩

/-- Of two magnitudes in canonical form the greater has the greater exponent or, if the exponents
are the same, more units. -/
theorem IsCanonical.compare_isLE {m m' : Nat} {e e' : Int} (h : IsCanonical m e)
    (h' : IsCanonical m' e') (hle : (m : Rat) * 2 ^ e ≤ m' * 2 ^ e') :
    ((compare e e').then (compare m m')).isLE = true := by
  rcases lt_trichotomy e e' with hlt | rfl | hgt
  · simp [Int.compare_eq_lt.mpr hlt]
  · have hm : m ≤ m' := by
      exact_mod_cast le_of_mul_le_mul_right hle (by positivity : (0 : Rat) < 2 ^ e)
    simpa [Nat.isLE_compare] using hm
  · have hmany : 2 ^ 52 ≤ m := h.fine.resolve_left (by have := h'.le; omega)
    have hnext : (2 : Rat) ^ (e' + 1) ≤ 2 ^ e := zpow_le_zpow_right₀ (by norm_num) (by omega)
    refine absurd hle (not_le.mpr ?_)
    calc (m' : Rat) * 2 ^ e' < 2 ^ 53 * 2 ^ e' := by
          refine mul_lt_mul_of_pos_right ?_ (by positivity)
          exact_mod_cast h'.lt
      _ = 2 ^ 52 * 2 ^ (e' + 1) := by rw [zpow_add_one₀ two_ne_zero]; ring
      _ ≤ m * 2 ^ e := mul_le_mul (by exact_mod_cast hmany) hnext (by positivity) (by positivity)

/-- A finite float is not above a float that reaches its magnitude. -/
theorem le_of_reaches {a b : UnpackedFloat} (hfinite : a.isFinite = true) (ha : IsRounded a)
    (hb : IsRounded b) (h : Reaches (magnitude a) b) : a.le b = true := by
  rcases a with _ | _ | s | ⟨_ | _, m, e, hm⟩
  · cases hfinite
  · cases hfinite
  · rcases h.cases with rfl | ⟨t, rfl, -⟩ | ⟨m', e', hm', rfl, -⟩ <;> rfl
  · rcases h.cases with rfl | ⟨t, rfl, -⟩ | ⟨m', e', hm', rfl, -⟩ <;> rfl
  · rcases h.cases with rfl | ⟨t, rfl, hle⟩ | ⟨m', e', hm', rfl, hle⟩
    · rfl
    · refine absurd hle (not_le.mpr ?_)
      exact mul_pos (by exact_mod_cast hm) (by positivity)
    · exact IsCanonical.compare_isLE ha hb hle

/-! ## Bits -/

/-- A float by its sign, its biased exponent and its fraction. -/
def ofParts (s : Sign) (biased : BitVec 11) (fraction : BitVec 52) : UnpackedFloat :=
  if biased = -1#11 then
    if fraction = 0#52 then .infinity s else .notANumber
  else if biased = 0#11 then
    if h : fraction = 0#52 then .zero s
    else
      .finite s fraction.toNat (-1074)
        (Nat.pos_of_ne_zero fun hzero => h (BitVec.eq_of_toNat_eq hzero))
  else .finite s (2 ^ 52 + fraction.toNat) (biased.toNat - 1075) (by omega)

theorem unpack_eq (bits : BitVec 64) :
    UnpackedFloat.unpack Format.binary64 bits =
      ofParts (Sign.ofBitVec (@unpackSign Format.binary64 bits))
        (@unpackExponent Format.binary64 bits)
        (@unpackMantissa Format.binary64 bits) := by
  have hone (fraction : BitVec 52) : (1#1 ++ fraction).toNat = 2 ^ 52 + fraction.toNat := by
    rw [BitVec.toNat_append, ← Nat.shiftLeft_add_eq_or_of_lt fraction.isLt]
    rfl
  rw [UnpackedFloat.unpack, ofParts]
  dsimp only
  split
  · rfl
  · split
    · next hleast =>
      split
      · rfl
      · congr 1
        rw [hleast]
        rfl
    · congr 1
      exact hone _

/-- A word packed from three fields is unpacked into the same three. -/
theorem unpack_packComponents (s : Sign) (biased : BitVec 11) (fraction : BitVec 52) :
    UnpackedFloat.unpack Format.binary64 (packComponents Format.binary64 s biased fraction) =
      ofParts s biased fraction := by
  rw [unpack_eq, unpackSign_packComponents, Sign.ofBitVec_toBitVec, unpackExponent_packComponents,
    unpackMantissa_packComponents]

/-- Every word stands for a rounded float. -/
theorem isRounded_ofParts (s : Sign) (biased : BitVec 11) (fraction : BitVec 52) :
    IsRounded (ofParts s biased fraction) := by
  have hfraction := fraction.isLt
  rw [ofParts]
  split
  · split <;> trivial
  · split
    · split
      · trivial
      · exact ⟨hfraction.trans (by decide), by decide, .inl (by decide)⟩
    · next hleast =>
      have hpos : biased.toNat ≠ 0 := fun hzero => hleast (BitVec.eq_of_toNat_eq hzero)
      exact ⟨by omega, by omega, .inr (by omega)⟩

theorem ofParts_normal (s : Sign) {m : Nat} {e : Int} (hm : 0 < m) (h : IsCanonical m e)
    (hmany : 2 ^ 52 ≤ m) (hfits : (e + 1075).toNat + 1 < 2 ^ 11) :
    ofParts s (BitVec.ofNat 11 (e + 1075).toNat) (BitVec.ofNat 52 m) = .finite s m e hm := by
  have hle := h.le
  have hlt := h.lt
  have hbiased : (BitVec.ofNat 11 (e + 1075).toNat).toNat = (e + 1075).toNat := by
    rw [BitVec.toNat_ofNat, Nat.mod_eq_of_lt (by omega)]
  have hinf : BitVec.ofNat 11 (e + 1075).toNat ≠ -1#11 := fun heq => by
    have htop : (e + 1075).toNat = 2047 := hbiased.symm.trans (congrArg BitVec.toNat heq)
    omega
  have hleast : BitVec.ofNat 11 (e + 1075).toNat ≠ 0#11 := fun heq => by
    have hzero : (e + 1075).toNat = 0 := hbiased.symm.trans (congrArg BitVec.toNat heq)
    omega
  rw [ofParts, if_neg hinf, if_neg hleast]
  congr 1
  · rw [BitVec.toNat_ofNat]
    omega
  · rw [hbiased]
    omega

theorem ofParts_least (s : Sign) {m : Nat} (hm : 0 < m) (hlt : m < 2 ^ 52) :
    ofParts s 0#11 (BitVec.ofNat 52 m) = .finite s m (-1074) hm := by
  have hfraction : (BitVec.ofNat 52 m).toNat = m := by
    rw [BitVec.toNat_ofNat, Nat.mod_eq_of_lt hlt]
  have hne : BitVec.ofNat 52 m ≠ 0#52 := fun heq => by
    have hzero : m = 0 := hfraction.symm.trans (congrArg BitVec.toNat heq)
    omega
  rw [ofParts, if_neg (by decide), if_pos rfl, dif_neg hne]
  congr 1

/-- A float that is too large becomes infinite, and any other stays what it is. -/
theorem unpack_pack {u : UnpackedFloat} (h : IsRounded u) :
    UnpackedFloat.unpack Format.binary64 (UnpackedFloat.pack Format.binary64 u) = u ∨
      ∃ s m e hm, u = .finite s m e hm ∧
        UnpackedFloat.unpack Format.binary64 (UnpackedFloat.pack Format.binary64 u) =
          .infinity s := by
  rcases u with s | _ | s | ⟨s, m, e, hm⟩
  · exact .inl (unpack_packComponents s _ _)
  · exact .inl (unpack_packComponents _ _ _)
  · exact .inl (unpack_packComponents s _ _)
  · have hm' : IsCanonical m e := h
    have hbias : e + (Format.binary64.exponentBias : Int) + (52 : Nat) = e + 1075 := by
      simp only [Format.exponentBias]
      norm_num
      omega
    rw [UnpackedFloat.pack]
    dsimp only
    rw [hbias]
    split
    · exact .inr ⟨s, m, e, hm, rfl, unpack_packComponents s _ _⟩
    · next hfits =>
      refine .inl ?_
      split
      · next hlog =>
        have hmany : 2 ^ 52 ≤ m := (Nat.le_log2 hm.ne').mp (Nat.le_of_eq (Nat.succ.inj hlog).symm)
        exact (unpack_packComponents s _ _).trans (ofParts_normal s hm hm' hmany (by omega))
      · next hlog =>
        have hlt : m.log2 < 52 :=
          Nat.lt_of_le_of_ne (Nat.lt_succ_iff.mp ((Nat.log2_lt hm.ne').mpr hm'.lt))
            fun heq => hlog (congrArg (· + 1) heq)
        have hfew : m < 2 ^ 52 := (Nat.log2_lt hm.ne').mp hlt
        obtain rfl : e = -1074 :=
          le_antisymm (hm'.fine.resolve_right (by omega)) hm'.le
        exact (unpack_packComponents s _ _).trans (ofParts_least s hm hfew)

/-- Packing a float into a word and unpacking it keeps what it kept. -/
theorem Keeps.pack {x : Rat} {u : UnpackedFloat} (h : Keeps x u) :
    Keeps x (Float.Model.pack u).unpack := by
  change Keeps x (UnpackedFloat.unpack Format.binary64 (UnpackedFloat.pack Format.binary64 u))
  rcases unpack_pack h.isRounded with hsame | ⟨s, m, e, hm, rfl, hinf⟩
  · rw [hsame]
    exact h
  · rw [hinf]
    cases s with
    | negative => exact ⟨trivial, fun v hv hle => (h.reaches v hv hle).elim⟩
    | positive => exact keeps_infinity x

/-! ## Floats -/

/-- What the bits of a float say. -/
def unpacked (x : Float) : UnpackedFloat := x.toModel.unpack

theorem unpacked_eq (x : Float) :
    unpacked x =
      ofParts (Sign.ofBitVec (@unpackSign Format.binary64 x.toBits.toBitVec))
        (@unpackExponent Format.binary64 x.toBits.toBitVec)
        (@unpackMantissa Format.binary64 x.toBits.toBitVec) :=
  unpack_eq x.toBits.toBitVec

/-- Every float of the language is rounded. -/
theorem isRounded_unpacked (x : Float) : IsRounded (unpacked x) := by
  rw [unpacked_eq]
  exact isRounded_ofParts _ _ _

variable {a b : Float} {v w : Rat}

theorem float_le_iff : a ≤ b ↔ (unpacked a).le (unpacked b) = true := by
  change decide ((unpacked a).le (unpacked b) = true) = true ↔ _
  rw [decide_eq_true_iff]

theorem float_lt_iff : a < b ↔ (unpacked a).lt (unpacked b) = true := by
  change decide ((unpacked a).lt (unpacked b) = true) = true ↔ _
  rw [decide_eq_true_iff]

theorem keeps_toFloat (n : UInt64) : Keeps n.toNat (unpacked n.toFloat) :=
  (keeps_ofNat n.toNat).pack

theorem keeps_float_add (hv : Reaches v (unpacked a)) (hw : Reaches w (unpacked b)) :
    Keeps (v + w) (unpacked (a + b)) :=
  (keeps_add (isRounded_unpacked a) (isRounded_unpacked b) hv hw).pack

theorem keeps_float_div (hv : Reaches v (unpacked a)) {d : Nat} {f : Int} {hd : 0 < d}
    (hb : unpacked b = .finite .positive d f hd) :
    Keeps (v / (d * 2 ^ f)) (unpacked (a / b)) := by
  have h := (keeps_div hv f hd).pack
  rw [← hb] at h
  exact h

/-- A finite float above one that stands for a value is above the value. -/
theorem lt_magnitude (hfinite : (unpacked a).isFinite = true) (hb : Keeps v (unpacked b))
    (hab : ¬ a ≤ b) : v < magnitude (unpacked a) := by
  refine not_le.mp fun hle => hab (float_le_iff.mpr ?_)
  exact le_of_reaches hfinite (isRounded_unpacked a) (isRounded_unpacked b)
    (hb.reaches _ (isPoint_magnitude (isRounded_unpacked a)) hle)

end LiveDoc.Decimal
