import LiveDoc.Json.Parser
import LiveDoc.Json.Printer

/-!
# LiveDoc — strings survive as text

Every character of a string is written as itself, as a short escape, or as the escape of its code.
Reading the literal gives one glyph for each, and the glyphs stand for the characters.

* `Parser.glyphs_flatMap_escape` — a string literal is read to its closing quote.
* `Node.text?_ofChar` — the glyphs of a text stand for the text.
-/

namespace LiveDoc.Json

/-- The characters that are written as the escape of their code. -/
def isCoded (c : Char) : Bool :=
  c.toNat < 0x20 && !(['\x08', '\t', '\n', '\x0c', '\r'].contains c)

def Glyph.ofChar (c : Char) : Glyph := if isCoded c then .unit c.toNat else .char c

/-! ## One character -/

namespace Parser

theorem hexValue?_hexDigit {n : Nat} (h : n < 16) : hexValue? (hexDigit n) = some n := by
  have hall : ∀ d, d < 16 → hexValue? (hexDigit d) = some d := by decide
  exact hall n h

theorem glyphs_shortEscape {c plain : Char} (h : shortEscape? c = some plain) (s : List Char) :
    glyphs ('\\' :: c :: s) = (glyphs s).map fun (rest, s) => (.char plain :: rest, s) := by
  have hu : c ≠ 'u' := by
    rintro rfl
    simp [shortEscape?] at h
  rw [glyphs, h]
  · cases glyphs s <;> rfl
  · intro _ _ _ _ _ heq
    exact absurd heq hu

theorem glyphs_plain {c : Char} (hcontrol : 0x20 ≤ c.toNat) (hquote : c ≠ '"')
    (hbackslash : c ≠ '\\') (s : List Char) :
    glyphs (c :: s) = (glyphs s).map fun (rest, s) => (.char c :: rest, s) := by
  have hlow : ¬ c.toNat < 0x20 := Nat.not_lt.mpr hcontrol
  rw [glyphs.eq_def]
  simp [hbackslash, hlow]

/-- Reading the escape of a code below 32 gives the code. -/
theorem glyphs_coded {n : Nat} (hn : n < 0x20) (s : List Char) :
    glyphs ('\\' :: 'u' :: '0' :: '0' :: hexDigit (n / 16) :: hexDigit n :: s) =
      (glyphs s).map fun (rest, s) => (.unit n :: rest, s) := by
  have hhigh := hexValue?_hexDigit (n := n / 16) (by omega)
  have hlow : hexValue? (hexDigit n) = some (n % 16) := by
    have h := hexValue?_hexDigit (n := n % 16) (by omega)
    rwa [hexDigit, Nat.mod_mod, ← hexDigit] at h
  have hzero : hexValue? '0' = some 0 := by decide
  have hcode : ((0 * 16 + 0) * 16 + n / 16) * 16 + n % 16 = n := by omega
  simp only [glyphs, hzero, hhigh, hlow, hcode, Option.bind_eq_bind, Option.bind_some]
  cases glyphs s <;> rfl

/-- Reading a written character takes exactly what was written for it. -/
theorem glyphs_escape (c : Char) (s : List Char) :
    glyphs (escape c ++ s) = (glyphs s).map fun (rest, s) => (Glyph.ofChar c :: rest, s) := by
  unfold escape
  split
  case h_8 hquote hbackslash hb ht hn hf hr =>
    split
    · next hcontrol =>
      have hcoded : isCoded c = true := by
        simpa [isCoded, hcontrol] using ⟨hb, ht, hn, hf, hr⟩
      simpa [Glyph.ofChar, hcoded] using glyphs_coded hcontrol s
    · next hplain =>
      have hcoded : isCoded c = false := by simp [isCoded, hplain]
      simpa [Glyph.ofChar, hcoded] using glyphs_plain (Nat.not_lt.mp hplain) hquote hbackslash s
  all_goals exact glyphs_shortEscape rfl s

/-- A string literal is read to its closing quote. -/
theorem glyphs_flatMap_escape (cs rest : List Char) :
    glyphs (cs.flatMap escape ++ '"' :: rest) = some (cs.map Glyph.ofChar, rest) := by
  induction cs with
  | nil => rfl
  | cons c cs ih =>
    rw [List.flatMap_cons, List.append_assoc, glyphs_escape, ih]
    rfl

end Parser

/-! ## A text -/

/-- A coded character is no half of a surrogate pair. -/
theorem not_surrogate_of_isCoded {c : Char} (h : isCoded c = true) :
    isHighSurrogate c.toNat = false ∧ isLowSurrogate c.toNat = false := by
  have hlow : c.toNat < 0x20 := by
    simp only [isCoded, Bool.and_eq_true, decide_eq_true_eq] at h
    exact h.1
  simp only [isHighSurrogate, isLowSurrogate, decide_eq_false_iff_not]
  omega

theorem Glyph.decode?_unit_cons {c : Char} (h : isCoded c = true) (glyphs : List Glyph) :
    Glyph.decode? (.unit c.toNat :: glyphs) = (c :: ·) <$> Glyph.decode? glyphs := by
  obtain ⟨hhigh, hlow⟩ := not_surrogate_of_isCoded h
  have hchar : Char.ofNat c.toNat = c := Char.ofNat_toNat c
  generalize c.toNat = code at hhigh hlow hchar
  cases glyphs with
  | nil => simp [Glyph.decode?, hhigh, hlow, hchar]
  | cons glyph rest => cases glyph <;> simp [Glyph.decode?, hhigh, hlow, hchar]

theorem Glyph.decode?_map_ofChar (cs : List Char) :
    Glyph.decode? (cs.map Glyph.ofChar) = some cs := by
  induction cs with
  | nil => rfl
  | cons c cs ih =>
    by_cases hc : isCoded c = true
    · rw [List.map_cons, Glyph.ofChar, if_pos hc, Glyph.decode?_unit_cons hc, ih]
      rfl
    · rw [List.map_cons, Glyph.ofChar, if_neg hc, Glyph.decode?, ih]
      rfl

/-- The glyphs of a text stand for the text. -/
theorem Node.text?_ofChar (text : String) :
    Node.text? (text.toList.map Glyph.ofChar) = some text := by
  rw [Node.text?, Glyph.decode?_map_ofChar, Option.map_some, String.ofList_toList]

end LiveDoc.Json
