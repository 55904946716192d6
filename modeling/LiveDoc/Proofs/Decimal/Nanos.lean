import LiveDoc.Decimal.Nanos
import LiveDoc.Proofs.Decimal.Rounding

/-!
# LiveDoc — delays and seconds

A delay and the seconds that it comes to as a float are not the same number: the fraction of a
second is rounded, and so is the sum. Where a float is above those seconds it is, all the same, a
delay that is no shorter, since rounding never jumps a float.

* `le_of_nanosOfSeconds?` — the delay that seconds make, from below.
* `keeps_secondsOfNanos` — the seconds of a delay.
* `le_nanosOfSeconds?` — more seconds make no shorter delay.
-/

namespace LiveDoc.Decimal

open Float.Model Float.Model.UnpackedFloat

/-- The nearest natural number is not below one that is less than a half above the fraction. -/
theorem le_roundHalfEven {n num den : Nat} (hden : 0 < den) (h : 2 * n * den < 2 * num + den) :
    n ≤ roundHalfEven num den := by
  have hsplit := Nat.div_add_mod num den
  have hrest : num % den < den := Nat.mod_lt num hden
  rw [roundHalfEven]
  by_cases hle : n ≤ num / den
  · split <;> omega
  · have hnext : n ≤ num / den + 1 := by
      by_contra hlt
      have : (num / den + 2) * den ≤ n * den := Nat.mul_le_mul_right den (by omega)
      nlinarith
    have hup : den < 2 * (num % den) := by
      have : (num / den + 1) * den ≤ n * den := Nat.mul_le_mul_right den (by omega)
      nlinarith
    rw [if_pos (.inl hup)]
    exact hnext

/-! ## The parts of a float -/

theorem toNat_unpackExponent (bits : UInt64) :
    (@unpackExponent Format.binary64 bits.toBitVec).toNat =
      (Binary64.ofBits bits).biased := by
  change (bits.toNat >>> 52) % 2 ^ 11 = (bits.toNat >>> 52) &&& (2 ^ 11 - 1)
  rw [Nat.and_two_pow_sub_one_eq_mod]

theorem toNat_unpackMantissa (bits : UInt64) :
    (@unpackMantissa Format.binary64 bits.toBitVec).toNat =
      (Binary64.ofBits bits).fraction := by
  change (bits.toNat >>> 0) % 2 ^ 52 = bits.toNat &&& (2 ^ 52 - 1)
  rw [Nat.and_two_pow_sub_one_eq_mod, Nat.shiftRight_zero]

theorem magnitude_ofParts {s : Sign} {biased : BitVec 11} {fraction : BitVec 52}
    (h : (ofParts s biased fraction).isFinite = true) (x : Binary64)
    (hbiased : biased.toNat = x.biased) (hfraction : fraction.toNat = x.fraction) :
    magnitude (ofParts s biased fraction) = x.significand * 2 ^ x.scale := by
  rw [Binary64.significand, Binary64.scale, ← hbiased, ← hfraction]
  rw [ofParts] at h ⊢
  split at h
  · split at h <;> cases h
  · next hinf =>
    rw [if_neg hinf]
    split
    · next hleast =>
      subst hleast
      split
      · next hzero =>
        subst hzero
        simp [magnitude]
      · simp [magnitude]
    · next hleast =>
      have hpos : biased.toNat ≠ 0 := fun hzero => hleast (BitVec.eq_of_toNat_eq hzero)
      rw [if_neg hpos, Nat.max_eq_left (by omega)]
      rfl

theorem magnitude_unpacked {x : Float} (h : (unpacked x).isFinite = true) :
    magnitude (unpacked x) =
      (Binary64.ofBits x.toBits).significand * 2 ^ (Binary64.ofBits x.toBits).scale := by
  rw [unpacked_eq] at h ⊢
  exact magnitude_ofParts h _ (toNat_unpackExponent x.toBits) (toNat_unpackMantissa x.toBits)

/-- Seconds that make a delay are not infinite. -/
theorem isFinite_of_nanosOfSeconds? {secs : Float} {m : Nat} (h : nanosOfSeconds? secs = some m) :
    (unpacked secs).isFinite = true := by
  rw [nanosOfSeconds?] at h
  dsimp only at h
  split at h
  · cases h
  · next hrange =>
    simp only [Bool.or_eq_true, decide_eq_true_eq, not_or, float_lt_iff, float_le_iff] at hrange
    obtain ⟨⟨hnan, hneg⟩, hlarge⟩ := hrange
    change ¬ (unpacked secs).isNaN = true at hnan
    generalize unpacked secs = u at *
    cases u with
    | infinity s =>
      cases s with
      | negative => exact absurd rfl hneg
      | positive => exact absurd rfl hlarge
    | notANumber => exact absurd rfl hnan
    | zero | finite => rfl

/-- The delay is not shorter than anything that it is nearest to. -/
theorem le_of_nanosOfSeconds? {secs : Float} {m n : Nat} (h : nanosOfSeconds? secs = some m)
    (hn : (n : Rat) < magnitude (unpacked secs) * nanosPerSecond + 1 / 2) : n ≤ m := by
  rw [magnitude_unpacked (isFinite_of_nanosOfSeconds? h)] at hn
  rw [nanosOfSeconds?] at h
  dsimp only at h
  split at h
  · cases h
  generalize Binary64.ofBits secs.toBits = x at h hn
  obtain rfl := Option.some.inj h
  have hscale : (2 : Rat) ^ x.scale * 2 ^ (-x.scale).toNat = 2 ^ x.scale.toNat := by
    rw [← zpow_natCast, ← zpow_natCast, ← zpow_add₀ two_ne_zero]
    congr 1
    omega
  have hden : (0 : Rat) < 2 ^ (-x.scale).toNat := by positivity
  have hnum : (2 * n * 2 ^ (-x.scale).toNat : Rat) <
      2 * (x.significand * nanosPerSecond * 2 ^ x.scale.toNat) + 2 ^ (-x.scale).toNat := by
    rw [← hscale]
    linarith [mul_lt_mul_of_pos_right hn hden]
  refine le_roundHalfEven (Nat.pow_pos (by decide)) ?_
  rw [Nat.pow_eq, Nat.pow_eq]
  exact_mod_cast hnum

theorem keeps_secondsOfNanos {ns : Nat} (hns : ns < 2 ^ 64 * nanosPerSecond) {v w : Rat}
    (hv : IsPoint v) (hvs : v ≤ (ns / nanosPerSecond : Nat)) (hw : IsPoint w)
    (hws : w ≤ (ns % nanosPerSecond : Nat) / nanosPerSecond) :
    Keeps (v + w) (unpacked (secondsOfNanos ns)) := by
  have hwhole : (UInt64.ofNat (ns / nanosPerSecond)).toNat = ns / nanosPerSecond :=
    UInt64.toNat_ofNat_of_lt' (Nat.div_lt_of_lt_mul (by rwa [Nat.mul_comm] at hns))
  have hpart : (UInt64.ofNat (ns % nanosPerSecond)).toNat = ns % nanosPerSecond :=
    UInt64.toNat_ofNat_of_lt' ((Nat.mod_lt ns (by decide)).trans (by decide))
  have hbillion : unpacked 1e9 = .finite .positive 8388608000000000 (-23) (by decide) := rfl
  have hden : ((8388608000000000 : Nat) : Rat) * 2 ^ (-23 : Int) = nanosPerSecond := by
    norm_num [nanosPerSecond]
  have hpoint : IsPoint (ns % nanosPerSecond : Nat) :=
    ⟨ns % nanosPerSecond, 0, (Nat.mod_lt ns (by decide)).trans (by decide), by decide, by simp⟩
  have hS := keeps_toFloat (UInt64.ofNat (ns / nanosPerSecond))
  have hN := keeps_toFloat (UInt64.ofNat (ns % nanosPerSecond))
  rw [hwhole] at hS
  rw [hpart] at hN
  have hF := keeps_float_div (hN.reaches _ hpoint le_rfl) hbillion
  rw [hden] at hF
  exact keeps_float_add (hS.reaches v hv hvs) (hF.reaches w hw hws)

/-- A float has 53 digits for the whole seconds up to `2 ^ 53`, and as many for the part of one. -/
theorem lt_magnitude_of_lt {secs : Float} {ns : Nat} (hns : ns < 2 ^ 64 * nanosPerSecond)
    (hfinite : (unpacked secs).isFinite = true) (hsecs : ¬ secs ≤ secondsOfNanos ns)
    (hwhole : ns / nanosPerSecond < 2 ^ 53) :
    (ns : Rat) < magnitude (unpacked secs) * nanosPerSecond + 1 / 2 := by
  set part := ns % nanosPerSecond * 2 ^ 53 / nanosPerSecond with hpart
  have hrest : ns % nanosPerSecond < nanosPerSecond := Nat.mod_lt ns (by decide)
  have hle : part * nanosPerSecond ≤ ns % nanosPerSecond * 2 ^ 53 := Nat.div_mul_le_self _ _
  have hnext : ns % nanosPerSecond * 2 ^ 53 < (part + 1) * nanosPerSecond := by
    rw [hpart, Nat.mul_comm (_ + 1)]
    exact Nat.lt_mul_div_succ _ (by decide)
  have hsplit := Nat.div_add_mod ns nanosPerSecond
  have hwholePoint : IsPoint (ns / nanosPerSecond : Nat) :=
    ⟨ns / nanosPerSecond, 0, hwhole, by decide, by simp⟩
  have hpartPoint : IsPoint (part * 2 ^ (-53 : Int)) :=
    ⟨part, -53, Nat.div_lt_of_lt_mul (by omega), by decide, rfl⟩
  have hnanos : (nanosPerSecond : Rat) = 1000000000 := by norm_num [nanosPerSecond]
  have hdigit : (2 : Rat) ^ (-53 : Int) = 1 / 9007199254740992 := by norm_num
  have hle' : (part * nanosPerSecond : Rat) ≤ (ns % nanosPerSecond : Nat) * 2 ^ 53 := by
    exact_mod_cast hle
  have hnext' : ((ns % nanosPerSecond : Nat) * 2 ^ 53 : Rat) < (part + 1) * nanosPerSecond := by
    exact_mod_cast hnext
  have hsplit' : (nanosPerSecond * (ns / nanosPerSecond : Nat) + (ns % nanosPerSecond : Nat) : Rat)
      = ns := by exact_mod_cast hsplit
  have hpartLe : part * 2 ^ (-53 : Int) ≤ (ns % nanosPerSecond : Nat) / (nanosPerSecond : Rat) := by
    rw [le_div_iff₀ (by rw [hnanos]; norm_num), hdigit]
    linarith
  have hlt := lt_magnitude hfinite
    (keeps_secondsOfNanos hns hwholePoint le_rfl hpartPoint hpartLe) hsecs
  rw [hdigit] at hlt
  rw [hnanos] at hnext' hsplit' ⊢
  linarith

/-- Above `2 ^ 53` every float is a whole number. -/
theorem lt_magnitude_of_le {secs : Float} {ns : Nat} (hns : ns < 2 ^ 64 * nanosPerSecond)
    (hfinite : (unpacked secs).isFinite = true) (hsecs : ¬ secs ≤ secondsOfNanos ns)
    (hwhole : 2 ^ 53 ≤ ns / nanosPerSecond) :
    (ns : Rat) < magnitude (unpacked secs) * nanosPerSecond := by
  have hpoint := isPoint_magnitude (isRounded_unpacked secs)
  have hlt : ((ns / nanosPerSecond : Nat) : Rat) < magnitude (unpacked secs) := by
    refine not_le.mp fun hle => ?_
    have hzero : IsPoint 0 := ⟨0, 0, by decide, by decide, by simp⟩
    have hkeeps := keeps_secondsOfNanos hns hpoint hle hzero (by positivity)
    rw [add_zero] at hkeeps
    exact lt_irrefl _ (lt_magnitude hfinite hkeeps hsecs)
  obtain ⟨q, j, hq, -, heq⟩ := hpoint
  rw [heq] at hlt ⊢
  have hj : 0 ≤ j := by
    by_contra hneg
    have hone : (2 : Rat) ^ j ≤ 1 := zpow_le_one_of_nonpos₀ one_le_two (by omega)
    have hfew : (q : Rat) * 2 ^ j ≤ q := mul_le_of_le_one_right (by positivity) hone
    have hq' : (q : Rat) ≤ (ns / nanosPerSecond : Nat) := by exact_mod_cast hq.le.trans hwhole
    linarith
  obtain ⟨k, rfl⟩ := Int.eq_ofNat_of_zero_le hj
  rw [zpow_natCast] at hlt ⊢
  have hnext : ns / nanosPerSecond + 1 ≤ q * 2 ^ k := by exact_mod_cast hlt
  have hns' : ns < (ns / nanosPerSecond + 1) * nanosPerSecond := by
    rw [Nat.mul_comm]
    exact Nat.lt_mul_div_succ ns (by decide)
  exact_mod_cast hns'.trans_le (Nat.mul_le_mul_right nanosPerSecond hnext)

theorem lt_magnitude_of_not_le {secs : Float} {ns : Nat} (hns : ns < 2 ^ 64 * nanosPerSecond)
    (hfinite : (unpacked secs).isFinite = true) (hsecs : ¬ secs ≤ secondsOfNanos ns) :
    (ns : Rat) < magnitude (unpacked secs) * nanosPerSecond + 1 / 2 := by
  rcases Nat.lt_or_ge (ns / nanosPerSecond) (2 ^ 53) with hwhole | hwhole
  · exact lt_magnitude_of_lt hns hfinite hsecs hwhole
  · linarith [lt_magnitude_of_le hns hfinite hsecs hwhole]

/-- More seconds than those of a delay make no shorter delay. -/
theorem le_nanosOfSeconds? {secs : Float} {ns m : Nat} (hns : ns < 2 ^ 64 * nanosPerSecond)
    (hsecs : ¬ secs ≤ secondsOfNanos ns) (h : nanosOfSeconds? secs = some m) : ns ≤ m :=
  le_of_nanosOfSeconds? h
    (lt_magnitude_of_not_le hns (isFinite_of_nanosOfSeconds? h) hsecs)

end LiveDoc.Decimal
