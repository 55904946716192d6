import LiveDoc.Decimal.Shortest

/-!
# LiveDoc — seconds as floats

Delays are whole nanoseconds, and are scaled as float seconds. On the way back a delay is rounded to
the nearest nanosecond, a half to the even one, in exact arithmetic.
-/

namespace LiveDoc.Decimal

/-- The nearest natural number to a fraction; of two nearest ones the even one. -/
def roundHalfEven (num den : Nat) : Nat :=
  let whole := num / den
  let rest := 2 * (num % den)
  if den < rest ∨ (rest = den ∧ whole % 2 = 1) then whole + 1 else whole

def nanosPerSecond : Nat := 1000000000

/-- A delay in seconds: the whole seconds plus the part of a second. -/
def secondsOfNanos (ns : Nat) : Float :=
  (UInt64.ofNat (ns / nanosPerSecond)).toFloat +
    (UInt64.ofNat (ns % nanosPerSecond)).toFloat / 1e9

/-- Seconds as a delay. Nothing if they are negative, not a number, or do not fit 64 bits. -/
def nanosOfSeconds? (secs : Float) : Option Nat :=
  let x := Binary64.ofBits secs.toBits
  if secs.isNaN || secs < 0 || 18446744073709551616.0 <= secs then none
  else
    let num := x.significand * nanosPerSecond * Nat.pow 2 x.scale.toNat
    some (roundHalfEven num (Nat.pow 2 (-x.scale).toNat))

end LiveDoc.Decimal
