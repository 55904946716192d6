/-!
# LiveDoc — white space

The characters with the property White_Space of the Unicode character database, and what it means to
trim a text and to split it into words.
-/

namespace LiveDoc.Text

/-- The characters that count as white space. -/
def isBlank (c : Char) : Bool :=
  let n := c.toNat
  (9 ≤ n && n ≤ 13) || n = 0x20 || n = 0x85 || n = 0xa0 || n = 0x1680 ||
    (0x2000 ≤ n && n ≤ 0x200a) || n = 0x2028 || n = 0x2029 || n = 0x202f || n = 0x205f ||
    n = 0x3000

/-- Drops leading and trailing white space. -/
def trimChars (s : List Char) : List Char :=
  ((s.dropWhile isBlank).reverse.dropWhile isBlank).reverse

/-- Drops leading and trailing white space. -/
def trim (text : String) : String := String.ofList (trimChars text.toList)

/-- The words of a text: the runs of characters between white space. -/
def wordChars : List Char → List (List Char)
  | [] => []
  | c :: rest =>
    if isBlank c then wordChars rest
    else
      match rest, wordChars rest with
      | d :: _, word :: words => if isBlank d then [c] :: word :: words else (c :: word) :: words
      | _, words => [c] :: words

def words (text : String) : List String := (wordChars text.toList).map String.ofList

end LiveDoc.Text
