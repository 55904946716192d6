/-!
# LiveDoc — texts in pieces

`pieces` splits a text at every separator, and `lines` is what a reader of lines makes of a text.

* `pieces_ne_nil` — there is one piece at least.
-/

namespace LiveDoc.Text

/-- Splits at every separator, so that there is one piece more than there are separators. -/
def pieces (separator : Char) : List Char → List (List Char)
  | [] => [[]]
  | c :: rest =>
    if c = separator then [] :: pieces separator rest
    else
      match pieces separator rest with
      | [] => [[c]]
      | piece :: more => (c :: piece) :: more

theorem pieces_ne_nil (separator : Char) (s : List Char) : pieces separator s ≠ [] := by
  cases s with
  | nil => simp [pieces]
  | cons c rest =>
    rw [pieces]
    split
    · simp
    · split <;> simp

def dropReturn (line : List Char) : List Char :=
  if line.getLast? = some '\r' then line.dropLast else line

/-- The lines of a text: what stands before each line feed, without a carriage return right before
it, and what stands behind the last line feed if that is not empty. -/
def lineChars (s : List Char) : List (List Char) :=
  let all := pieces '\n' s
  all.dropLast.map dropReturn ++ (all.getLast?.filter (· ≠ [])).toList

def lines (text : String) : List String := (lineChars text.toList).map String.ofList

end LiveDoc.Text
