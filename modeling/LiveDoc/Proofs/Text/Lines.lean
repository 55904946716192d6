import LiveDoc.Proofs.Text.Utf8
import LiveDoc.Text.Pieces

/-!
# LiveDoc — texts that travel as lines

Lines are sent with a line feed behind each, as bytes. Whoever reads them looks for the line feeds
among the bytes and takes what lies between two of them for the text of a line. No byte of another
character looks like a line feed, so this makes the same lines as looking for the line feeds in the
text would; and lines that hold none themselves, and do not end in a carriage return, come out as
they went in.

* `Text.lines_unlines` — lines that are sent are the lines that are read.
* `Utf8.lines?_encode` — reading lines from bytes is reading them from the text.
-/

namespace LiveDoc

/-! ## Lines of a text -/

namespace Text

variable {separator : Char} {piece : List Char}

/-- The first piece ends at the first separator. -/
theorem pieces_append_cons (h : separator ∉ piece) (rest : List Char) :
    pieces separator (piece ++ separator :: rest) = piece :: pieces separator rest := by
  induction piece with
  | nil => rw [List.nil_append, pieces, if_pos rfl]
  | cons c piece ih =>
    rw [List.mem_cons, not_or] at h
    rw [List.cons_append, pieces, if_neg (Ne.symm h.1), ih h.2]

/-- The text can stand on a line of its own and be read from it. -/
def IsLine (text : String) : Prop := '\n' ∉ text.toList ∧ text.toList.getLast? ≠ some '\r'

/-- The text in which every line is ended by a line feed. -/
def unlines (lines : List String) : String := String.join (lines.map (· ++ "\n"))

theorem toList_unlines_cons (line : String) (lines : List String) :
    (unlines (line :: lines)).toList = line.toList ++ '\n' :: (unlines lines).toList := by
  simp [unlines]

theorem unlines_concat (lines : List String) (line : String) :
    unlines (lines ++ [line]) = unlines lines ++ (line ++ "\n") := by
  rw [← String.toList_inj]
  simp [unlines]

/-- Such a text falls into its lines and the nothing behind the last of them. -/
theorem pieces_unlines {lines : List String} (h : ∀ line ∈ lines, IsLine line) :
    pieces '\n' (unlines lines).toList = lines.map String.toList ++ [[]] := by
  induction lines with
  | nil => rfl
  | cons line lines ih =>
    have hrest := ih fun other hother => h other (List.mem_cons_of_mem _ hother)
    rw [toList_unlines_cons, pieces_append_cons (h line List.mem_cons_self).1, hrest]
    rfl

theorem dropReturn_of_isLine {line : String} (h : IsLine line) :
    dropReturn line.toList = line.toList := by
  rw [dropReturn, if_neg h.2]

/-- Lines that are sent are the lines that are read: none is split, none is lost. -/
theorem lines_unlines {sent : List String} (h : ∀ line ∈ sent, IsLine line) :
    lines (unlines sent) = sent := by
  have hreturns : (sent.map String.toList).map dropReturn = sent.map String.toList := by
    rw [List.map_map]
    exact List.map_congr_left fun line hline => dropReturn_of_isLine (h line hline)
  rw [lines, lineChars, pieces_unlines h, List.dropLast_concat, hreturns]
  simp

end Text

/-! ## Lines of bytes -/

namespace Utf8

/-- The lines of bytes: what stands before each line feed, without a carriage return right before
it, and what stands behind the last one if that is not empty. None if some line is ill-formed. -/
def lines? (bytes : List UInt8) : Option (List String) := do
  let all := bytes.splitOn 0x0a
  let ended ← all.dropLast.mapM decode?
  let rest ← (all.getLast?.filter (· ≠ [])).toList.mapM decode?
  return ended.map (fun line => String.ofList (Text.dropReturn line.toList)) ++ rest

/-- Bytes without a line feed come to stand in front of the first piece. -/
theorem splitOn_append {bytes : List UInt8} (h : 0x0a ∉ bytes) (rest : List UInt8) :
    (bytes ++ rest).splitOn 0x0a = (rest.splitOn 0x0a).modifyHead (bytes ++ ·) := by
  induction bytes with
  | nil => exact (congrFun List.modifyHead_id _).symm
  | cons b bytes ih =>
    rw [List.mem_cons, not_or] at h
    have hb : ¬ (b == 0x0a) = true := by simpa using Ne.symm h.1
    rw [List.cons_append, List.splitOn_cons_eq_if_modifyHead, if_neg hb, ih h.2,
      List.modifyHead_modifyHead]
    rfl

/-- The line feeds among the bytes of a text are those of the text. -/
theorem splitOn_flatMap_encodeChar (s : List Char) :
    (s.flatMap String.utf8EncodeChar).splitOn 0x0a =
      (Text.pieces '\n' s).map (·.flatMap String.utf8EncodeChar) := by
  induction s with
  | nil => rfl
  | cons c s ih =>
    rw [List.flatMap_cons, Text.pieces]
    by_cases hc : c = '\n'
    · have hbytes : String.utf8EncodeChar '\n' = [0x0a] := rfl
      rw [if_pos hc, hc, hbytes, List.singleton_append, List.splitOn_cons_eq_if_modifyHead,
        if_pos (beq_self_eq_true _), ih]
      rfl
    · have hnone : 0x0a ∉ String.utf8EncodeChar c := by
        rw [mem_encodeChar (by decide)]
        exact fun h => hc (Char.toNat_inj.mp h)
      rw [if_neg hc, splitOn_append hnone, ih]
      cases hpieces : Text.pieces '\n' s with
      | nil => exact absurd hpieces (Text.pieces_ne_nil _ _)
      | cons piece pieces => rfl

theorem mapM_decode? (pieces : List (List Char)) :
    (pieces.map (·.flatMap String.utf8EncodeChar)).mapM decode? =
      some (pieces.map String.ofList) := by
  induction pieces with
  | nil => rfl
  | cons piece pieces ih => simp [decode?_flatMap_encodeChar, ih]

/-- Reading lines from the bytes of a text is reading them from the text. -/
theorem lines?_encode (text : String) : lines? (encode text) = some (Text.lines text) := by
  obtain ⟨ended, last, hpieces⟩ :=
    (List.eq_nil_or_concat (Text.pieces '\n' text.toList)).resolve_left (Text.pieces_ne_nil _ _)
  have hempty : last.flatMap String.utf8EncodeChar = [] ↔ last = [] := by
    cases last <;> simp
  rw [lines?, encode_eq, splitOn_flatMap_encodeChar, Text.lines, Text.lineChars, hpieces,
    List.concat_eq_append, List.map_append, List.map_singleton, List.dropLast_concat,
    List.dropLast_concat, List.getLast?_concat, List.getLast?_concat, mapM_decode?]
  by_cases hlast : last = []
  · simp [hlast, Option.filter]
  · simp [hlast, hempty, Option.filter, decode?_flatMap_encodeChar]

end Utf8

end LiveDoc
