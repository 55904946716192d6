import LiveDoc.Api.Body
import LiveDoc.Proofs.Json.ReadBack
import LiveDoc.Proofs.Text.IllFormed

/-!
# LiveDoc — what becomes of a body

Any bytes can be the body of a request. The text of a value is read as that value, any other text is
kept as it is, and bytes that are no text at all are never taken for JSON: they are shown as text,
in which every well-formed run of them has its place.

* `parseBody_text`, `parseBody_encode`, `parseBody_of_illFormed` — the three kinds of bodies.
* `parseBody_keeps` — all of them together.
-/

namespace LiveDoc

open Json

theorem Utf8.encode_ne_nil {text : String} (h : text ≠ "") : Utf8.encode text ≠ [] := by
  intro hnil
  have hread : Utf8.decode? [] = some text := hnil ▸ Utf8.decode?_encode text
  have hempty : Utf8.decode? [] = some "" := Utf8.decode?_encode ""
  exact h (Option.some.inj (hread.symm.trans hempty))

/-- Text in a body is read by the parser, and kept as it is if that does not accept it. -/
theorem parseBody_encode {text : String} (h : text ≠ "") :
    parseBody (Utf8.encode text) = (parse? text).getD (.string text) := by
  rw [parseBody, List.isEmpty_eq_false_iff.mpr (Utf8.encode_ne_nil h), Utf8.decode?_encode,
    Utf8.decodeLossy_encode h, Option.bind_some]
  cases parse? text <;> simp

/-- The text of a value is read as that value. -/
theorem parseBody_text {v : Value} (h : v.Regular Number.ReadsBack)
    (hdepth : v.depth ≤ maxDepth) : parseBody (Utf8.encode v.text) = v := by
  have hread : parse? v.text = some v := by
    rw [parse?_text h.allNumbers, if_pos hdepth, Value.canonical_eq_self h]
  have hempty : v.text ≠ "" := by
    intro hempty
    rw [hempty] at hread
    cases hread
  rw [parseBody_encode hempty, hread, Option.getD_some]

/-- Bytes that no text is written in are no JSON; they are shown as text. -/
theorem parseBody_of_illFormed {bytes : List UInt8} (h : ∀ text, Utf8.encode text ≠ bytes) :
    parseBody bytes = .string (Utf8.decodeLossy bytes) := by
  have hempty : bytes.isEmpty = false :=
    List.isEmpty_eq_false_iff.mpr fun hnil => h "" (by rw [hnil]; rfl)
  have hnone : Utf8.decode? bytes = none :=
    Option.eq_none_iff_forall_ne_some.mpr fun text htext =>
      h text (Utf8.decode?_eq_some_iff.mp htext).symm
  rw [parseBody, hempty, hnone]
  rfl

/-- What becomes of a body. The text of a value is read as that value; any other text is kept as it
is; bytes that are no text come to a text and never to a JSON value. Whichever runs of well-formed
bytes one finds among these, the longest included, that text shows them unchanged and in their
order, with what is shown of the bytes between them; and bytes without any text among them show
replacement characters only. -/
theorem parseBody_keeps :
    (∀ v : Value, v.Regular Number.ReadsBack → v.depth ≤ maxDepth →
      parseBody (Utf8.encode v.text) = v) ∧
    (∀ text, text ≠ "" → parse? text = none → parseBody (Utf8.encode text) = .string text) ∧
    (∀ bytes, (∀ text, Utf8.encode text ≠ bytes) →
      ∃ text, parseBody bytes = .string text ∧
        ∀ runs rest, bytes = Utf8.spliced runs rest → (∀ run ∈ runs, run.2 ≠ "") →
          text = Utf8.shown runs rest) ∧
    ∀ gap, (∀ run, Utf8.encode run <:+: gap → run = "") →
      ∀ c ∈ (Utf8.decodeLossy gap).toList, c = '\ufffd' := by
  refine ⟨fun v h hdepth => parseBody_text h hdepth, fun text hempty hnone => ?_,
    fun bytes h => ⟨_, parseBody_of_illFormed h, ?_⟩, fun gap hgap c hc =>
      Utf8.eq_replacement_of_mem hgap hc⟩
  · rw [parseBody_encode hempty, hnone, Option.getD_none]
  · rintro runs rest rfl hruns
    exact Utf8.decodeLossy_spliced hruns rest

/-- An object with a text that needs escapes, a text that only begins like JSON, and a euro sign
between a byte that starts nothing and the first two bytes of another one. -/
theorem parseBody_keeps_euro :
    let v : Value := .object [("é", .array [.string "\"\n", .number (.int (-7))])]
    let bytes : List UInt8 := [0x61, 0xff, 0xe2, 0x82, 0xac, 0xe2, 0x82]
    parseBody (Utf8.encode v.text) = v ∧
      parseBody (Utf8.encode "\x7b\"a\" b") = .string "\x7b\"a\" b" ∧
      parseBody bytes = .string "a\ufffd€\ufffd" := by
  intro v bytes
  obtain ⟨hvalue, htext, hbytes, -⟩ := parseBody_keeps
  have hregular : v.Regular Number.ReadsBack := by
    have hseven : (Value.number (.int (-7))).Regular Number.ReadsBack :=
      Value.every_number.mpr (Number.readsBack_int (by constructor <;> decide))
    refine Value.every_object.mpr ⟨List.pairwise_singleton _ _, ?_⟩
    simpa using hseven
  have hillFormed : ∀ text, Utf8.encode text ≠ bytes := by
    have hnone : Utf8.decode? bytes = none := by decide +kernel
    intro text htext
    rw [← htext, Utf8.decode?_encode] at hnone
    cases hnone
  obtain ⟨text, hshown, hruns⟩ := hbytes bytes hillFormed
  have hsplit : bytes = Utf8.spliced [([], "a"), ([0xff], "€")] [0xe2, 0x82] := rfl
  refine ⟨hvalue v hregular (by decide), htext _ (by decide) (by decide), ?_⟩
  rw [hshown, hruns _ _ hsplit (by decide)]
  decide +kernel

end LiveDoc
