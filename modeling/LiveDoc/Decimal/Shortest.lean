/-!
# LiveDoc — the shortest decimal of a binary float

A finite 64-bit float is `m · 2 ^ q`, and the reals that round to it form an interval around it.
`shortest` returns the decimal with the fewest digits in that interval, of two such decimals the
nearer one, and halfway between them the even one. On a grid of decimals with a fixed number of
digits only the two neighbours of the value have to be tried: when any point of the grid lies in the
interval, one of these two does.

All arithmetic is exact, on natural numbers.
-/

namespace LiveDoc.Decimal

/-- How many decimal digits a number is written with. -/
def length (n : Nat) : Nat := (Nat.toDigits 10 n).length

/-- A positive decimal `digits · 10 ^ exponent`. -/
structure Scaled where
  digits : Nat
  exponent : Int
  deriving DecidableEq, Repr, Inhabited

/-- The parts of a 64-bit float: sign, biased exponent, and fraction. -/
structure Binary64 where
  negative : Bool
  biased : Nat
  fraction : Nat

namespace Binary64

def ofBits (bits : UInt64) : Binary64 where
  negative := bits >>> 63 = 1
  biased := ((bits >>> 52) &&& 0x7ff).toNat
  fraction := (bits &&& 0xfffffffffffff).toNat

def isFinite (x : Binary64) : Bool := x.biased ≠ 0x7ff

def isZero (x : Binary64) : Bool := x.biased = 0 ∧ x.fraction = 0

/-- The `m` of the magnitude `m · 2 ^ q`. -/
def significand (x : Binary64) : Nat :=
  if x.biased = 0 then x.fraction else 4503599627370496 + x.fraction

/-- The `q` of the magnitude `m · 2 ^ q`. -/
def scale (x : Binary64) : Int := (max x.biased 1 : Nat) - 1075

/-- The float below is only half as far away as the float above. -/
def isUneven (x : Binary64) : Bool := x.fraction = 0 ∧ 1 < x.biased

end Binary64

/-- A value and the reals that round to it, as fractions with the denominator `den`. -/
structure Interval where
  value : Nat
  low : Nat
  high : Nat
  den : Nat
  -- Whether the two ends round to the value as well.
  closed : Bool

namespace Interval

/-- The magnitude of a float and what rounds to it, in quarters of the unit `2 ^ q`. -/
def ofBinary64 (x : Binary64) : Interval :=
  let m := x.significand
  let q := x.scale - 2
  let unit := Nat.pow 2 q.toNat
  { value := 4 * m * unit
    low := (4 * m - if x.isUneven then 1 else 2) * unit
    high := (4 * m + 2) * unit
    den := Nat.pow 2 (-q).toNat
    closed := m % 2 = 0 }

/-- The exponent of the first decimal digit of the value. -/
def magnitude (i : Interval) : Int :=
  let guess : Int := (length i.value : Int) - length i.den
  if i.den * Nat.pow 10 guess.toNat ≤ i.value * Nat.pow 10 (-guess).toNat then guess else guess - 1

/-- Whether `digits · 10 ^ k` lies in the interval. -/
def contains (i : Interval) (digits : Nat) (k : Int) : Bool :=
  let point := digits * Nat.pow 10 k.toNat * i.den
  let grid := Nat.pow 10 (-k).toNat
  if i.closed then i.low * grid ≤ point ∧ point ≤ i.high * grid
  else i.low * grid < point ∧ point < i.high * grid

/-- The point in the interval, of the two neighbours of the value among the multiples of `10 ^ k`,
that is nearer to the value; halfway between the two, the even one. -/
def nearest? (i : Interval) (k : Int) : Option Scaled :=
  let value := i.value * Nat.pow 10 (-k).toNat
  let step := Nat.pow 10 k.toNat * i.den
  let below := value / step
  let above := below + 1
  match i.contains below k && below ≠ 0, i.contains above k with
  | true, true =>
    let down := value - below * step
    let up := above * step - value
    if down < up ∨ (down = up ∧ below % 2 = 0) then some ⟨below, k⟩ else some ⟨above, k⟩
  | true, false => some ⟨below, k⟩
  | false, true => some ⟨above, k⟩
  | false, false => none

/-- Tries one more digit until a grid has a point in the interval. -/
def shortestFrom (i : Interval) (magnitude : Int) : (tries : Nat) → Option Scaled
  | 0 => none
  | tries + 1 =>
    match i.nearest? (magnitude - (16 - tries : Int)) with
    | some point => some point
    | none => shortestFrom i magnitude tries

end Interval

/-- The same decimal without trailing zeros among its digits. -/
def Scaled.reduce (d : Scaled) : Scaled :=
  let zeros := ((Nat.toDigits 10 d.digits).reverse.takeWhile (· = '0')).length
  ⟨d.digits / Nat.pow 10 zeros, d.exponent + zeros⟩

/-- The shortest decimal that rounds to the magnitude of a finite float other than zero. Seventeen
digits always suffice. -/
def shortest (x : Binary64) : Scaled :=
  let i := Interval.ofBinary64 x
  match i.shortestFrom i.magnitude 17 with
  | some point => point.reduce
  | none => ⟨0, 0⟩

end LiveDoc.Decimal
