/-!
# LiveDoc — integers in text

An integer is an optional sign and one or more digits, with leading zeros allowed. A minus sign is
allowed only if the range has negative numbers. The text is read from the left and the first fault
decides, so digits that leave the range hide a stray character behind them.
-/

namespace LiveDoc.Decimal

inductive IntegerFault where
  | empty
  | invalidDigit
  | tooLarge
  | tooSmall
  deriving DecidableEq, Repr

def IntegerFault.message : IntegerFault → String
  | .empty => "cannot parse integer from empty string"
  | .invalidDigit => "invalid digit found in string"
  | .tooLarge => "number too large to fit in target type"
  | .tooSmall => "number too small to fit in target type"

structure IntegerRange where
  low : Int
  high : Int

namespace IntegerRange

/-- The integers that fit the given number of bits without a sign. -/
def unsigned (bits : Nat) : IntegerRange := ⟨0, (Nat.pow 2 bits : Int) - 1⟩

/-- The integers that fit the given number of bits with a sign. -/
def signed (bits : Nat) : IntegerRange :=
  ⟨-(Nat.pow 2 (bits - 1) : Int), (Nat.pow 2 (bits - 1) : Int) - 1⟩

/-- Reads digits behind the magnitude read so far. -/
def readDigits (range : IntegerRange) (negative : Bool) (total : Nat) :
    List Char → Except IntegerFault Int
  | [] => .ok (if negative then -total else total)
  | c :: rest =>
    if c.isDigit then
      let total := total * 10 + (c.toNat - '0'.toNat)
      if negative then
        if range.low ≤ -(total : Int) then readDigits range negative total rest
        else .error .tooSmall
      else
        if (total : Int) ≤ range.high then readDigits range negative total rest
        else .error .tooLarge
    else .error .invalidDigit

def read (range : IntegerRange) (text : String) : Except IntegerFault Int :=
  match text.toList with
  | [] => .error .empty
  | ['+'] | ['-'] => .error .invalidDigit
  | '+' :: rest => range.readDigits false 0 rest
  | '-' :: rest =>
    if range.low < 0 then range.readDigits true 0 rest else .error .invalidDigit
  | chars => range.readDigits false 0 chars

end IntegerRange

end LiveDoc.Decimal
