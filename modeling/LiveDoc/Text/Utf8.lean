/-!
# LiveDoc — UTF-8

A byte string is read as a sequence of chunks: either one character, or a maximal ill-formed part,
which is the longest run of bytes that starts a character and breaks off, and is one byte at least.
`decode?` accepts exactly the byte strings without an ill-formed part, and `decodeLossy` shows each
ill-formed part as one replacement character.
-/

namespace LiveDoc.Utf8

/-- What a first byte announces: how many bytes have to follow, the range of the first of them, and
the leading bits of the code point. -/
structure Lead where
  following : Nat
  low : UInt8
  high : UInt8
  code : Nat

/-- Reads a first byte. The ranges leave out surrogates, code points above U+10FFFF, and code points
written with more bytes than they need. -/
def lead? (b : UInt8) : Option Lead :=
  if b < 0x80 then some ⟨0, 0x80, 0xbf, b.toNat⟩
  else if b < 0xc2 then none
  else if b < 0xe0 then some ⟨1, 0x80, 0xbf, b.toNat - 0xc0⟩
  else if b < 0xf0 then
    some ⟨2, if b = 0xe0 then 0xa0 else 0x80, if b = 0xed then 0x9f else 0xbf, b.toNat - 0xe0⟩
  else if b < 0xf5 then
    some ⟨3, if b = 0xf0 then 0x90 else 0x80, if b = 0xf4 then 0x8f else 0xbf, b.toNat - 0xf0⟩
  else none

/-- Takes the bytes that a first byte announced. The code point is missing if they break off. -/
def follow : (following : Nat) → (low high : UInt8) → (code : Nat) → List UInt8 →
    Option Nat × List UInt8
  | 0, _, _, code, rest => (some code, rest)
  | _ + 1, _, _, _, [] => (none, [])
  | n + 1, low, high, code, b :: rest =>
    if low ≤ b ∧ b ≤ high then follow n 0x80 0xbf (code * 64 + (b.toNat - 0x80)) rest
    else (none, b :: rest)

theorem length_follow (n : Nat) (low high : UInt8) (code : Nat) (bytes : List UInt8) :
    (follow n low high code bytes).2.length ≤ bytes.length := by
  fun_induction follow n low high code bytes <;> grind

/-- The chunks of a byte string: characters, and nothing for each maximal ill-formed part. -/
def chunks : List UInt8 → List (Option Char)
  | [] => []
  | b :: rest =>
    match lead? b with
    | none => none :: chunks rest
    | some l =>
      (follow l.following l.low l.high l.code rest).1.map Char.ofNat ::
        chunks (follow l.following l.low l.high l.code rest).2
termination_by bytes => bytes.length
decreasing_by
  · simp
  · have := length_follow l.following l.low l.high l.code rest
    simp only [List.length_cons]
    omega

/-- The text of a well-formed byte string. -/
def decode? (bytes : List UInt8) : Option String := ((chunks bytes).mapM id).map String.ofList

/-- The text of any byte string, each maximal ill-formed part shown as U+FFFD. -/
def decodeLossy (bytes : List UInt8) : String :=
  String.ofList ((chunks bytes).map (·.getD '\ufffd'))

end LiveDoc.Utf8
