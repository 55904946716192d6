import LiveDoc.Json.Node

/-!
# LiveDoc — reading JSON text

`node?` reads a text by the JSON grammar: one value, blanks around it (space, tab, line feed and
carriage return), and nothing else. `parse?` then reads the node as a value that nests at most
`maxDepth` containers.

The readers take what they need from the front of the text and return the rest. Those of values
count down a number that starts at twice the length of the text, which every step that calls another
reader outruns: such a step has consumed a character, or is called by one that has.
-/

namespace LiveDoc.Json.Parser

/-- A reader takes a piece off the front of the text. -/
abbrev Reader (α : Type) := List Char → Option (α × List Char)

def isBlank (c : Char) : Bool := c = ' ' || c = '\t' || c = '\n' || c = '\r'

def skipBlanks (s : List Char) : List Char := s.dropWhile isBlank

def word : List Char → List Char → Option (List Char)
  | [], s => some s
  | c :: cs, d :: s => if c = d then word cs s else none
  | _ :: _, [] => none

/-! ## Numbers -/

def digits (s : List Char) : List Char × List Char := s.span Char.isDigit

def digits1 (s : List Char) : Option (List Char × List Char) :=
  match digits s with
  | ([], _) => none
  | taken => some taken

/-- Takes whole digits, which start with a zero only if they are a single zero. -/
def whole : Reader (List Char)
  | '0' :: s => if s.head?.any Char.isDigit then none else some (['0'], s)
  | s => digits1 s

/-- Takes a point and digits, or nothing. -/
def fraction : Reader (List Char)
  | '.' :: s => digits1 s
  | s => some ([], s)

def exponent : Reader (Option (Bool × List Char))
  | c :: s =>
    if c = 'e' || c = 'E' then
      let (negative, s) :=
        match s with
        | '+' :: s => (false, s)
        | '-' :: s => (true, s)
        | s => (false, s)
      (digits1 s).map fun (ds, rest) => (some (negative, ds), rest)
    else some (none, c :: s)
  | [] => some (none, [])

def numeral (s : List Char) : Option (Numeral × List Char) := do
  let (negative, s) :=
    match s with
    | '-' :: s => (true, s)
    | s => (false, s)
  let (whole, s) ← whole s
  let (fraction, s) ← fraction s
  let (exponent, s) ← exponent s
  return ({ negative, whole, fraction, exponent }, s)

/-! ## Strings -/

def hexValue? (c : Char) : Option Nat :=
  if c.isDigit then some (c.toNat - '0'.toNat)
  else if 'a' ≤ c ∧ c ≤ 'f' then some (c.toNat - 'a'.toNat + 10)
  else if 'A' ≤ c ∧ c ≤ 'F' then some (c.toNat - 'A'.toNat + 10)
  else none

def shortEscape? (c : Char) : Option Char :=
  match c with
  | '"' => some '"'
  | '\\' => some '\\'
  | '/' => some '/'
  | 'b' => some '\x08'
  | 'f' => some '\x0c'
  | 'n' => some '\n'
  | 'r' => some '\r'
  | 't' => some '\t'
  | _ => none

/-- Takes the rest of a string literal, behind its opening quote, and its closing quote. -/
def glyphs : Reader (List Glyph)
  | '"' :: s => some ([], s)
  | '\\' :: 'u' :: a :: b :: c :: d :: s => do
    let code := (((← hexValue? a) * 16 + (← hexValue? b)) * 16 + (← hexValue? c)) * 16
      + (← hexValue? d)
    let (rest, s) ← glyphs s
    return (.unit code :: rest, s)
  | '\\' :: c :: s => do
    let plain ← shortEscape? c
    let (rest, s) ← glyphs s
    return (.char plain :: rest, s)
  | c :: s =>
    if c.toNat < 0x20 || c = '\\' then none
    else (glyphs s).map fun (rest, s) => (.char c :: rest, s)
  | [] => none

/-! ## Values -/

mutual

def node : (fuel : Nat) → Reader Node
  | 0, _ => none
  | fuel + 1, s =>
    match skipBlanks s with
    | '"' :: s => (glyphs s).map fun (text, s) => (.string text, s)
    | '[' :: s =>
      match skipBlanks s with
      | ']' :: s => some (.array [], s)
      | s => (items fuel s).map fun (nodes, s) => (.array nodes, s)
    | '{' :: s =>
      match skipBlanks s with
      | '}' :: s => some (.object [], s)
      | s => (members fuel s).map fun (nodes, s) => (.object nodes, s)
    | 'n' :: s => (word ['u', 'l', 'l'] s).map fun s => (.null, s)
    | 't' :: s => (word ['r', 'u', 'e'] s).map fun s => (.bool true, s)
    | 'f' :: s => (word ['a', 'l', 's', 'e'] s).map fun s => (.bool false, s)
    | s => (numeral s).map fun (n, s) => (.number n, s)

/-- Takes the items of an array that has some, and the closing bracket. -/
def items : (fuel : Nat) → Reader (List Node)
  | 0, _ => none
  | fuel + 1, s => do
    let (first, s) ← node fuel s
    match skipBlanks s with
    | ',' :: s =>
      let (rest, s) ← items fuel s
      return (first :: rest, s)
    | ']' :: s => return ([first], s)
    | _ => none

/-- Takes the members of an object that has some, and the closing brace. -/
def members : (fuel : Nat) → Reader (List (List Glyph × Node))
  | 0, _ => none
  | fuel + 1, s => do
    let '"' :: s := skipBlanks s | none
    let (key, s) ← glyphs s
    let ':' :: s := skipBlanks s | none
    let (first, s) ← node fuel s
    match skipBlanks s with
    | ',' :: s =>
      let (rest, s) ← members fuel s
      return ((key, first) :: rest, s)
    | '}' :: s => return ([(key, first)], s)
    | _ => none

end

end Parser

def node? (text : String) : Option Node := do
  let s := text.toList
  let (node, rest) ← Parser.node (2 * s.length + 1) s
  if (Parser.skipBlanks rest).isEmpty then return node else none

def parse? (text : String) : Option Value := do (← node? text).value? maxDepth

end LiveDoc.Json
