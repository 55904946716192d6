import LiveDoc.Decimal.Shortest
import LiveDoc.Json.Value

/-!
# LiveDoc — compact JSON text

`Value.chars` writes a value without blanks, the members of an object in the order in which they
are listed. A value whose members are sorted is so written in the order of its keys, and a message
that lists its members in declared order keeps that order.

Strings escape the quote, the backslash and the control characters only. Floats show the fewest
digits that read back, positionally while the exponent of their first digit is between -5 and 15.
-/

namespace LiveDoc.Json

/-! ## Strings -/

def hexDigit (n : Nat) : Char := Nat.digitChar (n % 16)

/-- How a character is written inside a string. -/
def escape (c : Char) : List Char :=
  match c with
  | '"' => ['\\', '"']
  | '\\' => ['\\', '\\']
  | '\x08' => ['\\', 'b']
  | '\t' => ['\\', 't']
  | '\n' => ['\\', 'n']
  | '\x0c' => ['\\', 'f']
  | '\r' => ['\\', 'r']
  | c =>
    if c.toNat < 0x20 then ['\\', 'u', '0', '0', hexDigit (c.toNat / 16), hexDigit c.toNat]
    else [c]

def quote (text : String) : List Char := '"' :: (text.toList.flatMap escape ++ ['"'])

/-! ## Numbers -/

def natChars (n : Nat) : List Char := Nat.toDigits 10 n

/-- An integer, with a sign if it is negative. -/
def intChars : Int → List Char
  | .ofNat n => natChars n
  | .negSucc n => '-' :: natChars (n + 1)

/-- A positive decimal: positional with at least one digit after the point while the exponent of its
first digit is between -5 and 15, else with one digit before the point and a signed exponent. -/
def decimalChars (d : Decimal.Scaled) : List Char :=
  let digits := natChars d.digits
  let exponent : Int := d.exponent + (digits.length - 1 : Nat)
  if -5 ≤ exponent ∧ exponent ≤ 15 then
    if 0 ≤ d.exponent then digits ++ List.replicate d.exponent.toNat '0' ++ ['.', '0']
    else if 0 ≤ exponent then
      digits.take (exponent.toNat + 1) ++ '.' :: digits.drop (exponent.toNat + 1)
    else '0' :: '.' :: (List.replicate (-exponent - 1).toNat '0' ++ digits)
  else
    let tail := if digits.length ≤ 1 then [] else '.' :: digits.drop 1
    let sign := if 0 ≤ exponent then ['+'] else []
    digits.take 1 ++ tail ++ 'e' :: (sign ++ intChars exponent)

def floatChars (bits : UInt64) : List Char :=
  let x := Decimal.Binary64.ofBits bits
  let sign := if x.negative then ['-'] else []
  sign ++ if x.isZero then ['0', '.', '0'] else decimalChars (Decimal.shortest x)

/-- A number. Integers have no point and floats always have one or an exponent. -/
def Number.chars : Number → List Char
  | .int value => intChars value
  | .float bits => floatChars bits

/-! ## Values -/

namespace Value

mutual

def chars : Value → List Char
  | .null => ['n', 'u', 'l', 'l']
  | .bool true => ['t', 'r', 'u', 'e']
  | .bool false => ['f', 'a', 'l', 's', 'e']
  | .number n => n.chars
  | .string text => quote text
  | .array [] => ['[', ']']
  | .array (v :: rest) => '[' :: (v.chars ++ itemsChars rest)
  | .object [] => ['{', '}']
  | .object ((k, v) :: rest) => '{' :: (quote k ++ ':' :: (v.chars ++ membersChars rest))

/-- The items after the first, and the closing bracket. -/
def itemsChars : List Value → List Char
  | [] => [']']
  | v :: rest => ',' :: (v.chars ++ itemsChars rest)

/-- The members after the first, and the closing brace. -/
def membersChars : List (String × Value) → List Char
  | [] => ['}']
  | (k, v) :: rest => ',' :: (quote k ++ ':' :: (v.chars ++ membersChars rest))

end

def text (v : Value) : String := String.ofList v.chars

end Value

end LiveDoc.Json
