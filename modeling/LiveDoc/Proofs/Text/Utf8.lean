import LiveDoc.Text.Utf8
import Mathlib.Tactic.IntervalCases

/-!
# LiveDoc — UTF-8 that texts are written in

A character is written as a first byte, which announces how many bytes follow, and those bytes. The
first byte alone tells a character below U+0080, and all bytes of every other character are above.
So bytes that texts are written in are read as those texts, and a byte below 0x80 among them stands
for its character, wherever it stands.

* `Utf8.encode` — the bytes of a text.
* `Utf8.decode?_encode` — they are read back as that text.
* `Utf8.mem_encodeChar` — the bytes of a character below 0x80.
-/

namespace LiveDoc.Utf8

/-- The bytes that a text is written in. -/
def encode (text : String) : List UInt8 := text.toUTF8.data.toList

/-- They are the bytes of its characters, one after the other. -/
theorem encode_eq (text : String) : encode text = text.toList.flatMap String.utf8EncodeChar := by
  have htext : text.toByteArray = text.toList.utf8Encode := by
    rw [← String.toByteArray_ofList, String.ofList_toList]
  rw [encode, String.toUTF8_eq_toByteArray, htext, List.utf8Encode, List.data_toByteArray]

theorem encode_append (a b : String) : encode (a ++ b) = encode a ++ encode b := by
  simp [encode_eq]

/-! ## First bytes -/

theorem toNat_ofNat_of_lt {n : Nat} (h : n < 256) : (UInt8.ofNat n).toNat = n := by
  rw [UInt8.toNat_ofNat', Nat.mod_eq_of_lt h]

theorem lead?_one {n : Nat} (h : n < 0x80) : lead? (UInt8.ofNat n) = some ⟨0, 0x80, 0xbf, n⟩ := by
  have hn : (UInt8.ofNat n).toNat = n := toNat_ofNat_of_lt (by omega)
  have hlt : UInt8.ofNat n < 0x80 := by
    rw [UInt8.lt_iff_toNat_lt, hn]
    exact h
  rw [lead?, if_pos hlt, hn]

theorem lead?_two {n : Nat} (hlow : 2 ≤ n) (hhigh : n < 0x20) :
    lead? (UInt8.ofNat (n + 0xc0)) = some ⟨1, 0x80, 0xbf, n⟩ := by
  interval_cases n <;> rfl

theorem lead?_three {n : Nat} (h : n < 0x10) :
    lead? (UInt8.ofNat (n + 0xe0)) =
      some ⟨2, if n = 0 then 0xa0 else 0x80, if n = 0xd then 0x9f else 0xbf, n⟩ := by
  interval_cases n <;> rfl

theorem lead?_four {n : Nat} (h : n < 5) :
    lead? (UInt8.ofNat (n + 0xf0)) =
      some ⟨3, if n = 0 then 0x90 else 0x80, if n = 4 then 0x8f else 0xbf, n⟩ := by
  interval_cases n <;> rfl

/-! ## Bytes that follow -/

/-- A byte that follows is taken if it is in the range that holds for it. -/
theorem follow_cons {x : Nat} {low high : UInt8} (hx : x < 0x40) (hlow : low.toNat ≤ x + 0x80)
    (hhigh : x + 0x80 ≤ high.toNat) (following code : Nat) (rest : List UInt8) :
    follow (following + 1) low high code (UInt8.ofNat (x + 0x80) :: rest) =
      follow following 0x80 0xbf (code * 64 + x) rest := by
  have hn : (UInt8.ofNat (x + 0x80)).toNat = x + 0x80 := toNat_ofNat_of_lt (by omega)
  have hrange : low ≤ UInt8.ofNat (x + 0x80) ∧ UInt8.ofNat (x + 0x80) ≤ high := by
    rw [UInt8.le_iff_toNat_le, UInt8.le_iff_toNat_le, hn]
    exact ⟨hlow, hhigh⟩
  rw [follow, if_pos hrange, hn, Nat.add_sub_cancel]

/-- Any byte that follows another one but the first. -/
theorem follow_cons_later {x : Nat} (hx : x < 0x40) (following code : Nat) (rest : List UInt8) :
    follow (following + 1) 0x80 0xbf code (UInt8.ofNat (x + 0x80) :: rest) =
      follow following 0x80 0xbf (code * 64 + x) rest := by
  refine follow_cons hx ?_ ?_ following code rest
  · show 0x80 ≤ x + 0x80
    omega
  · show x + 0x80 ≤ 0xbf
    omega

/-- The last byte of a character holds the last six bits of its code point. -/
theorem follow_last (v : Nat) (rest : List UInt8) :
    follow 1 0x80 0xbf (v / 64) (UInt8.ofNat (v % 64 + 0x80) :: rest) = (some v, rest) := by
  rw [follow_cons_later (by omega), follow, show v / 64 * 64 + v % 64 = v by omega]

/-- The byte before it holds the six bits before. -/
theorem follow_last_two (v : Nat) (rest : List UInt8) :
    follow 2 0x80 0xbf (v / 4096)
      (UInt8.ofNat (v / 64 % 64 + 0x80) :: UInt8.ofNat (v % 64 + 0x80) :: rest) =
        (some v, rest) := by
  rw [follow_cons_later (by omega), show v / 4096 * 64 + v / 64 % 64 = v / 64 by omega, follow_last]

/-- The second byte of three leaves out the code points that two bytes can hold, and surrogates. -/
theorem follow_three {v : Nat} (hlong : 0x800 ≤ v) (hvalid : v < 0xd800 ∨ 0xdfff < v)
    (hshort : v < 0x10000) (rest : List UInt8) :
    follow 2 (if v / 4096 = 0 then 0xa0 else 0x80) (if v / 4096 = 0xd then 0x9f else 0xbf)
      (v / 4096) (UInt8.ofNat (v / 64 % 64 + 0x80) :: UInt8.ofNat (v % 64 + 0x80) :: rest) =
        (some v, rest) := by
  have hlow : (if v / 4096 = 0 then 0xa0 else 0x80 : UInt8).toNat ≤ v / 64 % 64 + 0x80 := by
    split
    · show 0xa0 ≤ _
      omega
    · show 0x80 ≤ _
      omega
  have hhigh : v / 64 % 64 + 0x80 ≤ (if v / 4096 = 0xd then 0x9f else 0xbf : UInt8).toNat := by
    split
    · show _ ≤ 0x9f
      omega
    · show _ ≤ 0xbf
      omega
  rw [follow_cons (by omega) hlow hhigh, show v / 4096 * 64 + v / 64 % 64 = v / 64 by omega,
    follow_last]

/-- The second byte of four leaves out the code points that three bytes can hold, and those above
U+10FFFF. -/
theorem follow_four {v : Nat} (hlong : 0x10000 ≤ v) (hvalid : v < 0x110000) (rest : List UInt8) :
    follow 3 (if v / 262144 = 0 then 0x90 else 0x80) (if v / 262144 = 4 then 0x8f else 0xbf)
      (v / 262144) (UInt8.ofNat (v / 4096 % 64 + 0x80) :: UInt8.ofNat (v / 64 % 64 + 0x80) ::
        UInt8.ofNat (v % 64 + 0x80) :: rest) = (some v, rest) := by
  have hlow : (if v / 262144 = 0 then 0x90 else 0x80 : UInt8).toNat ≤ v / 4096 % 64 + 0x80 := by
    split
    · show 0x90 ≤ _
      omega
    · show 0x80 ≤ _
      omega
  have hhigh : v / 4096 % 64 + 0x80 ≤ (if v / 262144 = 4 then 0x8f else 0xbf : UInt8).toNat := by
    split
    · show _ ≤ 0x8f
      omega
    · show _ ≤ 0xbf
      omega
  rw [follow_cons (by omega) hlow hhigh,
    show v / 262144 * 64 + v / 4096 % 64 = v / 4096 by omega, follow_last_two]

/-! ## Characters -/

/-- What is read where a first byte announces bytes that are there. -/
theorem chunks_cons_of_lead {b : UInt8} {l : Lead} {code : Nat} {bytes rest : List UInt8}
    (hlead : lead? b = some l)
    (hfollow : follow l.following l.low l.high l.code bytes = (some code, rest)) :
    chunks (b :: bytes) = some (Char.ofNat code) :: chunks rest := by
  rw [chunks, hlead]
  simp only [hfollow, Option.map_some]

/-- The bytes of a character are read as that character, whatever follows them. -/
theorem chunks_encodeChar (c : Char) (rest : List UInt8) :
    chunks (String.utf8EncodeChar c ++ rest) = some c :: chunks rest := by
  have hvalid : c.val.toNat < 0xd800 ∨ 0xdfff < c.val.toNat ∧ c.val.toNat < 0x110000 := c.valid
  have hc : Char.ofNat c.val.toNat = c := Char.ofNat_toNat c
  unfold String.utf8EncodeChar
  generalize c.val.toNat = v at hvalid hc ⊢
  rw [← hc]
  simp only [apply_ite (· ++ rest), List.cons_append, List.nil_append]
  -- one case for each number of bytes
  split
  · next h => exact chunks_cons_of_lead (lead?_one (by omega)) rfl
  split
  · next h =>
    rw [Nat.mod_eq_of_lt (by omega : v / 64 < 0x20)]
    exact chunks_cons_of_lead (lead?_two (by omega) (by omega)) (follow_last v rest)
  split
  · next h =>
    rw [Nat.mod_eq_of_lt (by omega : v / 4096 < 0x10)]
    exact chunks_cons_of_lead (lead?_three (by omega))
      (follow_three (by omega) (by omega) (by omega) rest)
  · next h =>
    rw [Nat.mod_eq_of_lt (by omega : v / 262144 < 0x08)]
    exact chunks_cons_of_lead (lead?_four (by omega)) (follow_four (by omega) (by omega) rest)

theorem chunks_flatMap_encodeChar (s : List Char) :
    chunks (s.flatMap String.utf8EncodeChar) = s.map some := by
  induction s with
  | nil => simp [chunks]
  | cons c s ih => rw [List.flatMap_cons, chunks_encodeChar, ih, List.map_cons]

/-- The bytes of a text are read as that text. -/
theorem decode?_flatMap_encodeChar (s : List Char) :
    decode? (s.flatMap String.utf8EncodeChar) = some (String.ofList s) := by
  have hall : (s.map some).mapM id = some s := by
    induction s with
    | nil => rfl
    | cons c s ih => simp [ih]
  rw [decode?, chunks_flatMap_encodeChar, hall, Option.map_some]

theorem decode?_encode (text : String) : decode? (encode text) = some text := by
  rw [encode_eq, decode?_flatMap_encodeChar, String.ofList_toList]

/-- A byte below 0x80 is a byte of one character only, the one that it stands for. -/
theorem mem_encodeChar {c : Char} {b : UInt8} (hb : b.toNat < 0x80) :
    b ∈ String.utf8EncodeChar c ↔ c.toNat = b.toNat := by
  have habove {x k : Nat} (hk : 0x80 ≤ k) (hx : x + k < 0x100) : b ≠ UInt8.ofNat (x + k) := by
    rintro rfl
    rw [toNat_ofNat_of_lt hx] at hb
    omega
  show _ ↔ c.val.toNat = b.toNat
  unfold String.utf8EncodeChar
  generalize c.val.toNat = v
  simp only
  split
  · next h =>
    rw [List.mem_singleton]
    constructor
    · rintro rfl
      exact (toNat_ofNat_of_lt (by omega)).symm
    · rintro rfl
      exact UInt8.ofNat_toNat.symm
  · next h =>
    -- Every byte of a longer character is at least 0x80.
    refine iff_of_false ?_ (by omega)
    split
    · simp only [List.mem_cons, List.not_mem_nil, or_false, not_or]
      exact ⟨habove (by omega) (by omega), habove (by omega) (by omega)⟩
    split
    · simp only [List.mem_cons, List.not_mem_nil, or_false, not_or]
      exact ⟨habove (by omega) (by omega), habove (by omega) (by omega),
        habove (by omega) (by omega)⟩
    · simp only [List.mem_cons, List.not_mem_nil, or_false, not_or]
      exact ⟨habove (by omega) (by omega), habove (by omega) (by omega),
        habove (by omega) (by omega), habove (by omega) (by omega)⟩

end LiveDoc.Utf8
