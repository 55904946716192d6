/-!
# LiveDoc — durations as text

A duration is written in seconds if it is a second or longer, with the fraction it needs and no
more, and else in milliseconds. No time at all is no nanoseconds.
-/

namespace LiveDoc.Text

/-- The digits of a part of a thousand behind the point, without trailing zeros. -/
def thousandths (n : Nat) : String :=
  let digits := [n / 100 % 10, n / 10 % 10, n % 10]
  String.ofList (((digits.reverse.dropWhile (· = 0)).reverse).map Nat.digitChar)

/-- The text of a duration of some milliseconds. -/
def duration (ms : Nat) : String :=
  if ms = 0 then "0ns"
  else if ms < 1000 then s!"{ms}ms"
  else if ms % 1000 = 0 then s!"{ms / 1000}s"
  else s!"{ms / 1000}.{thousandths (ms % 1000)}s"

end LiveDoc.Text
