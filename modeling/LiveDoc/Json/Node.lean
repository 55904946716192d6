import LiveDoc.Json.Value

/-!
# LiveDoc — JSON as written

A `Node` is a JSON text as its author wrote it: numbers as digits, strings as characters and
escapes, the members of an object in order and with repeated keys. Every text of the JSON grammar is
a node. Only reading a node as a value asks for more: numbers have to be in range, surrogate escapes
have to pair up, and containers may nest to a limit only.

* `Glyph.decode?` — the text of a string literal.
* `Numeral.number?` — the number of a numeral.
* `Node.value?` — the value of a node, the last of equal keys kept.
-/

namespace LiveDoc.Json

/-! ## Strings -/

/-- One piece of a string literal: a character, written plainly or by a short escape, or an escape
that names one UTF-16 unit. -/
inductive Glyph where
  | char (c : Char)
  | unit (code : Nat)
  deriving DecidableEq, Repr

/-- The code units that start a surrogate pair. -/
def isHighSurrogate (code : Nat) : Bool := 0xd800 ≤ code ∧ code < 0xdc00

/-- The code units that end a surrogate pair. -/
def isLowSurrogate (code : Nat) : Bool := 0xdc00 ≤ code ∧ code < 0xe000

def pairCode (high low : Nat) : Nat := 0x10000 + (high - 0xd800) * 0x400 + (low - 0xdc00)

/-- The characters of a string literal. An escape of one half of a surrogate pair is a character
only together with the escape of the other half right behind it. -/
def Glyph.decode? : List Glyph → Option (List Char)
  | [] => some []
  | .char c :: rest => (c :: ·) <$> decode? rest
  | .unit high :: .unit low :: rest =>
    if isHighSurrogate high && isLowSurrogate low then
      (Char.ofNat (pairCode high low) :: ·) <$> decode? rest
    else if isHighSurrogate high || isLowSurrogate high then none
    else (Char.ofNat high :: ·) <$> decode? (.unit low :: rest)
  | .unit code :: rest =>
    if isHighSurrogate code || isLowSurrogate code then none
    else (Char.ofNat code :: ·) <$> decode? rest

/-! ## Numbers -/

/-- A numeral as written: a sign, whole digits, digits after a point, and a signed exponent. -/
structure Numeral where
  negative : Bool
  whole : List Char
  fraction : List Char
  exponent : Option (Bool × List Char)
  deriving DecidableEq, Repr

def digitValue (c : Char) : Nat := c.toNat - '0'.toNat

/-- Appends digits to a 64-bit significand until one does not fit; also says how many were appended
and how many were not. -/
def appendDigits (significand : Nat) : List Char → Nat × Nat × Nat
  | [] => (significand, 0, 0)
  | c :: rest =>
    let next := significand * 10 + digitValue c
    if next < UInt64.size then
      let (total, used, left) := appendDigits next rest
      (total, used + 1, left)
    else (significand, 0, rest.length + 1)

/-- A power of ten as the nearest float, for exponents up to 308. -/
def powerOfTen (n : Nat) : Float := Float.ofScientific 1 false n

/-- `x · 10 ^ exponent` by one multiplication or division, after steps of `10 ^ 308` if the exponent
is below the range of floats. Nothing if the result exceeds every float. -/
def scaleByTen (x : Float) (exponent : Int) : Option Float :=
  if 308 < exponent then if x == 0 then some x else none
  else if 0 ≤ exponent then
    let y := x * powerOfTen exponent.toNat
    if y.isInf then none else some y
  else if -308 ≤ exponent then some (x / powerOfTen (-exponent).toNat)
  else if x == 0 then some x
  else scaleByTen (x / powerOfTen 308) (exponent + 308)
termination_by (-exponent).toNat
decreasing_by omega

namespace Numeral

/-- The exponent that was written; nothing if it does not fit 32 bits. -/
def writtenExponent? (n : Numeral) : Option Int :=
  match n.exponent with
  | none => some 0
  | some (negative, digits) =>
    let magnitude := digits.foldl (fun total c => total * 10 + digitValue c) 0
    if magnitude < 2147483648 then some (if negative then -magnitude else magnitude) else none

/-- The float of a numeral. Up to 64 bits of each run of digits count; whole digits beyond that only
scale the result, and digits after the point beyond that are dropped. Nothing if the numeral exceeds
every float. -/
def float? (n : Numeral) : Option Float :=
  let (whole, _, wholeLeft) := appendDigits 0 n.whole
  let (significand, places, _) := appendDigits whole n.fraction
  let magnitude :=
    match n.writtenExponent? with
    | some exponent =>
      scaleByTen (UInt64.ofNat significand).toFloat (exponent + wholeLeft - places)
    | none =>
      if significand ≠ 0 ∧ (n.exponent.map Prod.fst) = some false then none else some 0
  magnitude.map fun x => if n.negative then -x else x

/-- Whether the numeral has neither a point nor an exponent. -/
def isWhole (n : Numeral) : Bool := n.fraction.isEmpty && n.exponent.isNone

/-- The number of a numeral. Without point and exponent it is an integer if it fits 64 bits, signed
or unsigned; a negative zero, and all else, is a float. -/
def number? (n : Numeral) : Option Number :=
  let (whole, _, left) := appendDigits 0 n.whole
  if n.isWhole ∧ left = 0 ∧ (n.negative → 0 < whole ∧ whole ≤ 9223372036854775808) then
    some (.int (if n.negative then -whole else whole))
  else n.float?.map fun x => .float x.toBits

end Numeral

/-! ## Nodes -/

inductive Node where
  | null
  | bool (value : Bool)
  | number (numeral : Numeral)
  | string (glyphs : List Glyph)
  | array (items : List Node)
  | object (members : List (List Glyph × Node))

/-- How many arrays and objects may nest in a value that is read. -/
def maxDepth : Nat := 127

namespace Node

def text? (glyphs : List Glyph) : Option String := (Glyph.decode? glyphs).map String.ofList

mutual

/-- The value of a node, in which containers nest to the limit at most. Of equal keys the last one
wins. -/
def value? (limit : Nat) : Node → Option Value
  | .null => some .null
  | .bool b => some (.bool b)
  | .number numeral => numeral.number?.map .number
  | .string glyphs => (text? glyphs).map .string
  | .array items => if limit = 0 then none else (itemsValue? (limit - 1) items).map .array
  | .object members =>
    if limit = 0 then none
    else (membersValue? (limit - 1) members).map fun ms => .object (KeyMap.ofEntries ms)

def itemsValue? (limit : Nat) : List Node → Option (List Value)
  | [] => some []
  | node :: rest => do return (← value? limit node) :: (← itemsValue? limit rest)

def membersValue? (limit : Nat) : List (List Glyph × Node) → Option (List (String × Value))
  | [] => some []
  | (key, node) :: rest => do
    return (← text? key, ← value? limit node) :: (← membersValue? limit rest)

end

end Node

end LiveDoc.Json
