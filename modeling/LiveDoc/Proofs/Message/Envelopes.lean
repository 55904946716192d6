import LiveDoc.Proofs.Json.Faithful
import LiveDoc.Proofs.Message.Frames

/-!
# LiveDoc — values in envelopes

The payload of an envelope is the text of a value, and stands as a string in the envelope's own text.
So what is escaped in a value is escaped twice, but the value nests no deeper for it. It comes out as
it was put in, up to the limit of nested containers and not one beyond. Only a float may come out as
a neighbour, since the reader of numbers rounds more than once. A value that came out of an envelope
keeps to the limit, so it is handed on unchanged exactly if its floats read back.

* `Envelope.regular_of_decode`, `Envelope.depth_of_decode` — what comes out of an envelope.
* `Envelope.decode_encode_of_fits` — which values come out as they were put in.
* `Envelope.decode_encode_ne_self` — a float that comes out as its neighbour.
-/

namespace LiveDoc.Envelope

open Json Json.Value

variable {text : String} {v : Value}

/-! ## What comes out of an envelope -/

/-- What comes out of an envelope is null, or was read from the payload. -/
theorem eq_null_or_parse?_of_decode (h : decode text = .ok v) :
    v = .null ∨ ∃ inner, parse? inner = some v := by
  unfold decode at h
  split at h
  · cases h
  · next members hmembers =>
    dsimp only at h
    split at h
    · cases h
    split at h
    · cases h
      exact .inl rfl
    · cases h
      exact .inl rfl
    · next inner hinner =>
      split at h
      · next w hw =>
        cases h
        exact .inr ⟨inner, hw⟩
      · cases h
    · cases h
  · cases h

theorem regular_of_decode (h : decode text = .ok v) : v.Regular Number.Fits := by
  obtain rfl | ⟨inner, hinner⟩ := eq_null_or_parse?_of_decode h
  · exact every_null
  · exact parse?_regular hinner

theorem depth_of_decode (h : decode text = .ok v) : v.depth ≤ maxDepth := by
  obtain rfl | ⟨inner, hinner⟩ := eq_null_or_parse?_of_decode h
  · exact Nat.zero_le _
  · exact parse?_depth hinner

/-! ## What comes out as it was put in -/

theorem decode_encode_eq_self_iff (h : v.IsCanonical) :
    decode (encode v) = .ok v ↔ v.AllNumbers Number.ReadsBack ∧ v.depth ≤ maxDepth := by
  rw [← parse?_text_eq_self_iff h, decode_encode_eq]
  cases parse? v.text <;> simp

/-- What comes out in place of a number. -/
theorem decode_encode_number {n m : Number} {numeral : Numeral}
    (hchars : Parser.numeral n.chars = some (numeral, [])) (hnumber : numeral.number? = some m) :
    decode (encode (.number n)) = .ok (.number m) := by
  have hnumeral : n.toNumeral = numeral := by
    rw [Number.toNumeral, hchars]
    rfl
  rw [decode_encode_eq, parse?_text_eq, toNode, Node.value?, hnumeral, hnumber]
  rfl

/-- A value whose integers fit and whose floats read back comes out of its envelope as it was put in
if it nests at most 127 containers, and else not at all. Whatever once came out of an envelope comes
out again, in an envelope of its own, exactly if its floats read back. -/
theorem decode_encode_of_fits :
    (∀ v : Value, v.Regular Number.Fits → v.AllNumbers Number.FloatReadsBack →
      decode (encode v) = if v.depth ≤ 127 then .ok v else .error (.invalidPayload unreadable)) ∧
    ∀ (text : String) (w : Value), decode text = .ok w →
      (decode (encode w) = .ok w ↔ w.AllNumbers Number.FloatReadsBack) := by
  refine ⟨fun v hfits hfloats => ?_, fun text w hdecode => ?_⟩
  · rw [decode_encode (hfits.readsBack_iff.mpr hfloats), canonical_eq_self hfits]
    rfl
  · have hfits := regular_of_decode hdecode
    have hdepth : w.depth ≤ maxDepth := depth_of_decode hdecode
    rw [decode_encode_eq_self_iff hfits.isCanonical, hfits.readsBack_iff]
    exact and_iff_left hdepth

/-- Quotes, backslashes, control characters and others beyond ASCII, in a key and in a text, beside a
float and the least integer that fits; the deepest chain that comes out, and the next one; and an
envelope that somebody else wrote. -/
theorem decode_encode_of_fits_escapes :
    let v : Value := .object [("\"\\\né", .array [.string "\"\\u0041\x01/😀",
      .number (.float 4602678819172646912), .number (.int (-9223372036854775808))])]
    let text := "\x7b\"v\": 1, \"payload\": \"[ 7, \\\"\\\\u00e9\\\" ]\"\x7d"
    let w : Value := .array [.nat 7, .string "é"]
    decode (encode v) = .ok v ∧ decode (encode (chain 127)) = .ok (chain 127) ∧
      decode (encode (chain 128)) = .error (.invalidPayload unreadable) ∧
      decode text = .ok w ∧ decode (encode w) = .ok w := by
  intro v text w
  have hhalf : (Number.float 4602678819172646912).FloatReadsBack := by
    refine ⟨⟨false, ['0'], ['5'], none⟩, by decide +kernel, ?_⟩
    rw [Numeral.number?_eq_div 0 1 5 1 1 rfl rfl rfl rfl rfl (by decide)]
    decide +kernel
  have hfits : v.Regular Number.Fits :=
    every_object.mpr ⟨List.pairwise_singleton _ _, by simp [Number.Fits]⟩
  have hfloats : v.AllNumbers Number.FloatReadsBack :=
    every_object.mpr ⟨trivial, by simpa using ⟨hhalf, trivial⟩⟩
  have hchain (n : Nat) :=
    decode_encode_of_fits.1 (chain n) (regular_chain _ n) (allNumbers_chain _ n)
  have htext : decode text = .ok w := by
    have houter : parse? text = some (.object
        [("payload", .string "[ 7, \"\\u00e9\" ]"), ("v", .nat 1)]) := by decide +kernel
    have hinner : parse? "[ 7, \"\\u00e9\" ]" = some w := by decide +kernel
    rw [decode, houter]
    simp [KeyMap.get?, Value.nat, nat?, protocolVersion, hinner]
  refine ⟨decode_encode_of_fits.1 v hfits hfloats, ?_, ?_, htext, ?_⟩
  · rw [hchain, depth_chain, if_pos (by decide)]
  · rw [hchain, depth_chain, if_neg (by decide)]
  · exact (decode_encode_of_fits.2 text w htext).mpr (by simp [w, Value.nat, Number.FloatReadsBack])

/-- The float nearest to 1e-24 comes out of an envelope, but not of its own: what is read there is
one over the float nearest to 1e24, which is the next float above. -/
theorem decode_encode_ne_self :
    let text := "\x7b\"payload\":\"1.0000000000000001e-24\",\"v\":1\x7d"
    let w : Value := .number (.float 4247835366853742247)
    decode text = .ok w ∧ decode (encode w) ≠ .ok w := by
  intro text w
  have htext : text = encode (.number (.float 4247835366853742248)) := by decide +kernel
  have habove : (⟨false, ['1'], "0000000000000001".toList,
      some (true, ['2', '4'])⟩ : Numeral).number? = some (.float 4247835366853742247) := by
    rw [Numeral.number?_eq_div 1 1 10000000000000001 16 40 rfl rfl rfl rfl rfl (by decide)]
    decide +kernel
  have hself : (⟨false, ['1'], [], some (true, ['2', '4'])⟩ : Numeral).number? =
      some (.float 4247835366853742248) := by
    rw [Numeral.number?_eq_div 1 1 1 0 24 rfl rfl rfl rfl rfl (by decide)]
    decide +kernel
  refine ⟨?_, ?_⟩
  · rw [htext]
    exact decode_encode_number (by decide +kernel) habove
  · rw [decode_encode_number (by decide +kernel) hself]
    simp [w]

end LiveDoc.Envelope
