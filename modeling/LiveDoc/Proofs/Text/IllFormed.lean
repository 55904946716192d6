import LiveDoc.Proofs.Text.Utf8

/-!
# LiveDoc — bytes that are no text

A chunk is a character only if the bytes that it was read from are the bytes of that character, so
the byte strings that are read as text are those that some text is written in, and no others. In any
other byte string the text that is shown keeps every run of well-formed bytes. A run starts with the
first byte of a character, which no chunk takes for a byte that follows; so the chunks before it are
the same without it, and from there on characters are read as they stand.

* `Utf8.decode?_eq_some_iff` — what is read as text.
* `Utf8.decodeLossy_spliced` — runs of text among any bytes.
* `Utf8.eq_replacement_of_mem` — bytes without a character among them.
-/

namespace LiveDoc.Utf8

/-! ## The bytes of a code point -/

theorem val_ofNat {n : Nat} (h : n.isValidChar) : (Char.ofNat n).val.toNat = n := by
  rw [Char.ofNat, dif_pos h]
  rfl

theorem encodeChar_ofNat_one {n : Nat} (h : n < 0x80) :
    String.utf8EncodeChar (Char.ofNat n) = [UInt8.ofNat n] := by
  rw [String.utf8EncodeChar, val_ofNat (.inl (by omega))]
  exact if_pos (by omega)

theorem encodeChar_ofNat_two {n : Nat} (hlow : 0x80 ≤ n) (hhigh : n < 0x800) :
    String.utf8EncodeChar (Char.ofNat n) =
      [UInt8.ofNat (n / 64 + 0xc0), UInt8.ofNat (n % 64 + 0x80)] := by
  rw [String.utf8EncodeChar, val_ofNat (.inl (by omega))]
  rw [if_neg (by omega), if_pos (by omega), Nat.mod_eq_of_lt (by omega : n / 64 < 32)]

theorem encodeChar_ofNat_three {n : Nat} (hlow : 0x800 ≤ n) (hvalid : n < 0xd800 ∨ 0xdfff < n)
    (hhigh : n < 0x10000) :
    String.utf8EncodeChar (Char.ofNat n) =
      [UInt8.ofNat (n / 4096 + 0xe0), UInt8.ofNat (n / 64 % 64 + 0x80),
        UInt8.ofNat (n % 64 + 0x80)] := by
  rw [String.utf8EncodeChar, val_ofNat (hvalid.imp id fun h => ⟨h, by omega⟩)]
  rw [if_neg (by omega), if_neg (by omega), if_pos (by omega),
    Nat.mod_eq_of_lt (by omega : n / 4096 < 16)]

theorem encodeChar_ofNat_four {n : Nat} (hlow : 0x10000 ≤ n) (hhigh : n < 0x110000) :
    String.utf8EncodeChar (Char.ofNat n) =
      [UInt8.ofNat (n / 262144 + 0xf0), UInt8.ofNat (n / 4096 % 64 + 0x80),
        UInt8.ofNat (n / 64 % 64 + 0x80), UInt8.ofNat (n % 64 + 0x80)] := by
  rw [String.utf8EncodeChar, val_ofNat (.inr ⟨by omega, hhigh⟩)]
  rw [if_neg (by omega), if_neg (by omega), if_neg (by omega),
    Nat.mod_eq_of_lt (by omega : n / 262144 < 8)]

/-! ## Reading one character -/

theorem eq_ofNat {b : UInt8} {n : Nat} (h : b.toNat = n) : b = UInt8.ofNat n := by
  rw [← h, UInt8.ofNat_toNat]

/-- Whatever a first byte announces, only bytes from 0x80 to 0xbf can follow. -/
theorem lead?_range {b : UInt8} {l : Lead} (h : lead? b = some l) :
    0x80 ≤ l.low.toNat ∧ l.high.toNat ≤ 0xbf := by
  unfold lead? at h
  repeat' split at h
  all_goals cases h <;> dsimp only <;> decide

/-- A byte is taken if it is in the range, and its low bits are added to the code point. -/
theorem follow_succ_some (following : Nat) {code n : Nat} {low high : UInt8}
    {bytes rest : List UInt8}
    (h : follow (following + 1) low high code bytes = (some n, rest)) :
    ∃ b more, bytes = b :: more ∧ (low.toNat ≤ b.toNat ∧ b.toNat ≤ high.toNat) ∧
      follow following 0x80 0xbf (code * 64 + (b.toNat - 0x80)) more = (some n, rest) := by
  cases bytes with
  | nil => cases h
  | cons b more =>
    rw [follow] at h
    split at h
    · next hrange =>
      rw [UInt8.le_iff_toNat_le, UInt8.le_iff_toNat_le] at hrange
      exact ⟨b, more, rfl, hrange, h⟩
    · cases h

theorem follow_zero_some {code n : Nat} {low high : UInt8} {bytes rest : List UInt8}
    (h : follow 0 low high code bytes = (some n, rest)) : n = code ∧ bytes = rest := by
  cases h
  exact ⟨rfl, rfl⟩

/-- The bytes that a character was read from are the bytes of that character. -/
theorem eq_encodeChar_of_follow {b : UInt8} {l : Lead} {n : Nat} {bytes rest : List UInt8}
    (hlead : lead? b = some l)
    (hfollow : follow l.following l.low l.high l.code bytes = (some n, rest)) :
    b :: bytes = String.utf8EncodeChar (Char.ofNat n) ++ rest := by
  have hrange := lead?_range hlead
  unfold lead? at hlead
  simp only [UInt8.lt_iff_toNat_lt, UInt8.reduceToNat] at hlead
  -- one case for each number of bytes that follow
  split at hlead
  · next h =>
    cases hlead
    obtain ⟨rfl, rfl⟩ := follow_zero_some hfollow
    rw [encodeChar_ofNat_one h, UInt8.ofNat_toNat, List.singleton_append]
  split at hlead
  · cases hlead
  split at hlead
  · next hshort h =>
    cases hlead
    dsimp only at hfollow
    obtain ⟨x, more, rfl, hx, hdone⟩ := follow_succ_some 0 hfollow
    obtain ⟨hn, rfl⟩ := follow_zero_some hdone
    simp only [UInt8.reduceToNat] at hx
    rw [encodeChar_ofNat_two (by omega) (by omega),
      eq_ofNat (b := b) (n := n / 64 + 0xc0) (by omega),
      eq_ofNat (b := x) (n := n % 64 + 0x80) (by omega)]
    rfl
  split at hlead
  · next hb h =>
    cases hlead
    dsimp only at hfollow
    obtain ⟨x, more, rfl, hx, hmore⟩ := follow_succ_some 1 hfollow
    obtain ⟨y, more, rfl, hy, hdone⟩ := follow_succ_some 0 hmore
    obtain ⟨hn, rfl⟩ := follow_zero_some hdone
    simp only [apply_ite UInt8.toNat, ← UInt8.toNat_inj, UInt8.reduceToNat] at hrange hx hy
    have hlong : 0x800 ≤ n := by split at hx <;> omega
    have hvalid : n < 0xd800 ∨ 0xdfff < n := by
      by_cases hsurrogate : b.toNat = 0xed
      · rw [if_pos hsurrogate] at hx
        omega
      · omega
    rw [encodeChar_ofNat_three hlong hvalid (by omega),
      eq_ofNat (b := b) (n := n / 4096 + 0xe0) (by omega),
      eq_ofNat (b := x) (n := n / 64 % 64 + 0x80) (by omega),
      eq_ofNat (b := y) (n := n % 64 + 0x80) (by omega)]
    rfl
  split at hlead
  · next hb h =>
    cases hlead
    dsimp only at hfollow
    obtain ⟨x, more, rfl, hx, hmore⟩ := follow_succ_some 2 hfollow
    obtain ⟨y, more, rfl, hy, hmore⟩ := follow_succ_some 1 hmore
    obtain ⟨z, more, rfl, hz, hdone⟩ := follow_succ_some 0 hmore
    obtain ⟨hn, rfl⟩ := follow_zero_some hdone
    simp only [apply_ite UInt8.toNat, ← UInt8.toNat_inj, UInt8.reduceToNat] at hrange hx hy hz
    have hlong : 0x10000 ≤ n := by split at hx <;> omega
    have hvalid : n < 0x110000 := by
      by_cases hlast : b.toNat = 0xf4
      · rw [if_pos hlast] at hx
        omega
      · omega
    rw [encodeChar_ofNat_four hlong hvalid,
      eq_ofNat (b := b) (n := n / 262144 + 0xf0) (by omega),
      eq_ofNat (b := x) (n := n / 4096 % 64 + 0x80) (by omega),
      eq_ofNat (b := y) (n := n / 64 % 64 + 0x80) (by omega),
      eq_ofNat (b := z) (n := n % 64 + 0x80) (by omega)]
    rfl
  · cases hlead

/-! ## What is read as text -/

theorem chunks_cons {b : UInt8} {l : Lead} (hlead : lead? b = some l) (bytes : List UInt8) :
    chunks (b :: bytes) =
      (follow l.following l.low l.high l.code bytes).1.map Char.ofNat ::
        chunks (follow l.following l.low l.high l.code bytes).2 := by
  rw [chunks, hlead]

/-- Bytes all of whose chunks are characters are the bytes of these characters. -/
theorem eq_flatMap_of_chunks {bytes : List UInt8} {s : List Char}
    (h : chunks bytes = s.map some) : bytes = s.flatMap String.utf8EncodeChar := by
  induction bytes using chunks.induct generalizing s with
  | case1 =>
    have hnil : s = [] := by simpa [chunks] using h.symm
    rw [hnil, List.flatMap_nil]
  | case2 b rest hlead ih =>
    rw [chunks, hlead] at h
    cases s with
    | nil => cases h
    | cons c s => cases h
  | case3 b rest l hlead ih =>
    rw [chunks_cons hlead] at h
    cases s with
    | nil => cases h
    | cons c s =>
      obtain ⟨hhead, hrest⟩ := List.cons.inj h
      obtain ⟨n, hn, rfl⟩ := Option.map_eq_some_iff.mp hhead
      rw [List.flatMap_cons, ← ih hrest]
      exact eq_encodeChar_of_follow hlead (Prod.ext hn rfl)

/-- Chunks that make a text are characters. -/
theorem eq_map_some_of_mapM {all : List (Option Char)} {s : List Char}
    (h : all.mapM id = some s) : all = s.map some := by
  induction all generalizing s with
  | nil =>
    cases h
    rfl
  | cons head rest ih =>
    simp only [List.mapM_cons, id, Option.pure_def, Option.bind_eq_bind,
      Option.bind_eq_some_iff, Option.some.injEq] at h
    obtain ⟨c, rfl, s, hs, rfl⟩ := h
    rw [ih hs, List.map_cons]

/-- Exactly the bytes that a text is written in are read as text, and as that text. -/
theorem decode?_eq_some_iff {bytes : List UInt8} {text : String} :
    decode? bytes = some text ↔ bytes = encode text := by
  constructor
  · intro h
    obtain ⟨s, hs, rfl⟩ := Option.map_eq_some_iff.mp h
    rw [encode_eq, String.toList_ofList]
    exact eq_flatMap_of_chunks (eq_map_some_of_mapM hs)
  · rintro rfl
    exact decode?_encode text

/-! ## Runs of text among other bytes -/

/-- A byte that no chunk takes for one that follows. -/
def Starts (b : UInt8) : Prop := ¬ (0x80 ≤ b.toNat ∧ b.toNat ≤ 0xbf)

/-- The bytes of a character begin with such a byte. -/
theorem exists_starts (c : Char) :
    ∃ b more, String.utf8EncodeChar c = b :: more ∧ Starts b := by
  have hvalid : c.val.toNat < 0x110000 := c.valid.elim (fun h => by omega) fun h => h.2
  unfold String.utf8EncodeChar
  generalize c.val.toNat = v at hvalid
  have hstarts {n : Nat} (hlow : n < 0x80 ∨ 0xc0 ≤ n) (hhigh : n < 0x100) :
      Starts (UInt8.ofNat n) := by
    rw [Starts, toNat_ofNat_of_lt hhigh]
    omega
  dsimp only
  split
  · exact ⟨_, _, rfl, hstarts (by omega) (by omega)⟩
  split
  · exact ⟨_, _, rfl, hstarts (by omega) (by omega)⟩
  split
  · exact ⟨_, _, rfl, hstarts (by omega) (by omega)⟩
  · exact ⟨_, _, rfl, hstarts (by omega) (by omega)⟩

/-- Bytes that follow are looked for no further than such a byte. -/
theorem follow_append {b : UInt8} (hb : Starts b) (post : List UInt8) {low high : UInt8}
    (hrange : 0x80 ≤ low.toNat ∧ high.toNat ≤ 0xbf) (following code : Nat)
    (bytes : List UInt8) :
    follow following low high code (bytes ++ b :: post) =
      ((follow following low high code bytes).1,
        (follow following low high code bytes).2 ++ b :: post) := by
  induction bytes generalizing following low high code with
  | nil =>
    cases following with
    | zero => rfl
    | succ following =>
      have hout : ¬ (low ≤ b ∧ b ≤ high) := by
        rw [UInt8.le_iff_toNat_le, UInt8.le_iff_toNat_le]
        exact fun h => hb ⟨hrange.1.trans h.1, h.2.trans hrange.2⟩
      exact if_neg hout
  | cons x bytes ih =>
    cases following with
    | zero => rfl
    | succ following =>
      rw [List.cons_append, follow, follow]
      split
      · exact ih ⟨by decide, by decide⟩ _ _
      · rfl

/-- The chunks before the first byte of a character are those without it. -/
theorem chunks_append {b : UInt8} (hb : Starts b) (pre post : List UInt8) :
    chunks (pre ++ b :: post) = chunks pre ++ chunks (b :: post) := by
  induction pre using chunks.induct with
  | case1 => simp [chunks]
  | case2 x rest hlead ih => rw [List.cons_append, chunks, chunks, hlead, ih, List.cons_append]
  | case3 x rest l hlead ih =>
    rw [List.cons_append, chunks_cons hlead, chunks_cons hlead,
      follow_append hb post (lead?_range hlead), ih, List.cons_append]

/-- A run of text among any bytes is shown as it is, between what is shown of the bytes before it
and of those behind it. -/
theorem decodeLossy_append (pre : List UInt8) {run : String} (hrun : run ≠ "")
    (post : List UInt8) :
    decodeLossy (pre ++ (encode run ++ post)) = decodeLossy pre ++ (run ++ decodeLossy post) := by
  have hchunks : chunks (pre ++ (encode run ++ post)) =
      chunks pre ++ (run.toList.map some ++ chunks post) := by
    have hread : chunks (encode run ++ post) = run.toList.map some ++ chunks post := by
      rw [encode_eq]
      induction run.toList with
      | nil => rfl
      | cons c s ih =>
        rw [List.flatMap_cons, List.append_assoc, chunks_encodeChar, ih, List.map_cons,
          List.cons_append]
    obtain ⟨c, s, hs⟩ := List.exists_cons_of_ne_nil (mt String.toList_eq_nil_iff.mp hrun)
    obtain ⟨b, more, hc, hb⟩ := exists_starts c
    rw [← hread, encode_eq, hs, List.flatMap_cons, hc, List.append_assoc, List.cons_append,
      chunks_append hb]
  have hshown : (run.toList.map some).map (·.getD '\ufffd') = run.toList := by
    rw [List.map_map]
    exact List.map_id' _
  rw [decodeLossy, hchunks, List.map_append, List.map_append, hshown, String.ofList_append,
    String.ofList_append, String.ofList_toList]
  rfl

theorem decodeLossy_nil : decodeLossy [] = "" := by
  rw [decodeLossy, chunks]
  rfl

/-- Text is shown as it is. -/
theorem decodeLossy_encode {text : String} (h : text ≠ "") : decodeLossy (encode text) = text := by
  simpa [decodeLossy_nil] using decodeLossy_append [] h []

/-- Bytes in which runs of text stand, each behind some other bytes, and the rest behind them. -/
def spliced (runs : List (List UInt8 × String)) (rest : List UInt8) : List UInt8 :=
  runs.foldr (fun run bytes => run.1 ++ (encode run.2 ++ bytes)) rest

/-- The runs as they are, and what is shown of the bytes between them. -/
def shown (runs : List (List UInt8 × String)) (rest : List UInt8) : String :=
  runs.foldr (fun run text => decodeLossy run.1 ++ (run.2 ++ text)) (decodeLossy rest)

/-- Every run of text is shown as it is, and in its place. -/
theorem decodeLossy_spliced {runs : List (List UInt8 × String)} (h : ∀ run ∈ runs, run.2 ≠ "")
    (rest : List UInt8) : decodeLossy (spliced runs rest) = shown runs rest := by
  induction runs with
  | nil => rfl
  | cons run runs ih =>
    have hrest := ih fun other hother => h other (List.mem_cons_of_mem _ hother)
    rw [spliced, List.foldr_cons, decodeLossy_append _ (h run List.mem_cons_self), ← spliced, hrest]
    rfl

/-! ## Bytes without text -/

theorem follow_suffix (following code : Nat) (low high : UInt8) (bytes : List UInt8) :
    (follow following low high code bytes).2 <:+ bytes := by
  fun_induction follow following low high code bytes with
  | case1 => exact List.suffix_refl _
  | case2 => exact List.suffix_refl _
  | case3 n low high code b rest h ih => exact ih.trans (List.suffix_cons b rest)
  | case4 => exact List.suffix_refl _

/-- A character that is read stands among the bytes. -/
theorem infix_of_mem_chunks {bytes : List UInt8} {c : Char} (h : some c ∈ chunks bytes) :
    String.utf8EncodeChar c <:+: bytes := by
  induction bytes using chunks.induct with
  | case1 => simp [chunks] at h
  | case2 b rest hlead ih =>
    rw [chunks, hlead] at h
    exact (ih (by simpa using h)).trans (List.infix_cons List.infix_rfl)
  | case3 b rest l hlead ih =>
    rw [chunks_cons hlead] at h
    rcases List.mem_cons.mp h with hhead | hrest
    · obtain ⟨n, hn, rfl⟩ := Option.map_eq_some_iff.mp hhead.symm
      rw [eq_encodeChar_of_follow hlead (Prod.ext hn rfl)]
      exact (List.prefix_append _ _).isInfix
    · exact (ih hrest).trans ((follow_suffix _ _ _ _ _).isInfix.trans
        (List.infix_cons List.infix_rfl))

/-- Bytes with no text among them are shown as replacement characters. -/
theorem eq_replacement_of_mem {bytes : List UInt8}
    (h : ∀ text, encode text <:+: bytes → text = "") {c : Char}
    (hc : c ∈ (decodeLossy bytes).toList) : c = '\ufffd' := by
  rw [decodeLossy, String.toList_ofList] at hc
  obtain ⟨chunk, hchunk, rfl⟩ := List.mem_map.mp hc
  cases chunk with
  | none => rfl
  | some c =>
    have hbytes : encode (String.ofList [c]) = String.utf8EncodeChar c := by
      rw [encode_eq, String.toList_ofList, List.flatMap_singleton]
    have hempty := h (String.ofList [c]) (hbytes ▸ infix_of_mem_chunks hchunk)
    rw [String.ofList_eq_empty_iff] at hempty
    cases hempty

end LiveDoc.Utf8
