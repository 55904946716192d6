import LiveDoc.Proofs.Edit.Addressing
import LiveDoc.Proofs.Edit.Validity

/-!
# LiveDoc — appending in portions

An append keeps the last items only, up to its limit. What it drops from the front would have been
dropped by a later append as well, which drops from the same end and never less. So items can be
appended in portions, and in the end the array is what one append of all of them had made of it. The
later appends find the array that the first one has left, wherever the path leads; a path that is
blocked stays so, and so does one that overruns an array.

* `keepLast_keepLast_append` — dropping in between loses nothing.
* `Edit.apply_append_append` — two portions are appended as one.
* `Edit.append_in_portions` — the document after any number of portions.
-/

namespace LiveDoc

open Json Json.Value

variable {path : String}

/-! ## The last items -/

theorem keepLast_suffix (limit : Nat) (items : List Value) : keepLast limit items <:+ items :=
  List.drop_suffix _ _

theorem length_keepLast (limit : Nat) (items : List Value) :
    (keepLast limit items).length = min limit items.length := by
  rw [keepLast, List.length_drop]
  omega

/-- Nothing that is kept in the end depends on what was dropped in between. -/
theorem keepLast_keepLast_append (limit : Nat) (old new : List Value) :
    keepLast limit (keepLast limit old ++ new) = keepLast limit (old ++ new) := by
  have hle : old.length - limit ≤ old.length := Nat.sub_le _ _
  have hsplit : keepLast limit old ++ new = (old ++ new).drop (old.length - limit) :=
    (List.drop_append_of_le_length hle).symm
  rw [keepLast, hsplit, List.drop_drop, keepLast, List.length_drop, List.length_append]
  congr 1
  omega

/-! ## Portions -/

/-- The items of the array that a path finds. What is absent or no array has none. -/
def Document.itemsAt (document : Document) (path : String) : List Value :=
  ((document.get? path).bind items?).getD []

namespace Edit

/-- One append for each portion of items, all at the same path and with the same limit. -/
def appends (path : String) (limit : UInt64) (portions : List (List Value)) : List Edit :=
  portions.map fun items => .append path (.array items) limit

theorem validate_of_mem_appends {limit : UInt64} {portions : List (List Value)}
    (h : isValidPath path = true) : ∀ edit ∈ appends path limit portions, edit.validate = .ok () := by
  intro edit hedit
  obtain ⟨items, -, rfl⟩ := List.mem_map.mp hedit
  exact checkPath_of_isValidPath _ h

theorem apply_append (document : Document) (path : String) (items : List Value) (limit : UInt64) :
    (append path (.array items) limit).apply document =
      document.rewrite path fun slot =>
        .array (keepLast limit.toNat (slot.items?.getD [] ++ items)) := rfl

/-- Two portions are appended as one. -/
theorem apply_append_append (document : Document) (path : String) (limit : UInt64)
    (first second : List Value) :
    (append path (.array second) limit).apply
        ((append path (.array first) limit).apply document) =
      (append path (.array (first ++ second)) limit).apply document := by
  rw [apply_append, apply_append, apply_append, Document.rewrite_rewrite]
  congr 1
  funext slot
  rw [Function.comp_apply, items?, Option.getD_some, keepLast_keepLast_append, List.append_assoc]

/-- So are any number of them. -/
theorem foldl_apply_appends (document : Document) (path : String) (limit : UInt64)
    (first : List Value) (rest : List (List Value)) :
    (appends path limit (first :: rest)).foldl apply document =
      (append path (.array (first :: rest).flatten) limit).apply document := by
  induction rest generalizing first with
  | nil => simp [appends]
  | cons second rest ih =>
    -- the first two portions are one, and there is one portion less
    have hmerged := ih (first ++ second)
    rw [appends, List.map_cons, List.foldl_cons] at hmerged
    rw [appends, List.map_cons, List.map_cons, List.foldl_cons, List.foldl_cons,
      apply_append_append, hmerged]
    simp

/-- What is found at a path after an append. -/
theorem get?_apply_append {document : Document}
    (hblocked : ¬ (Value.object document).IsBlocked (segments path))
    (hoverruns : ¬ (Value.object document).Overruns (segments path)) (items : List Value)
    (limit : UInt64) :
    ((append path (.array items) limit).apply document).get? path =
      some (.array (keepLast limit.toNat (document.itemsAt path ++ items))) := by
  rw [apply_append, Document.get?_rewrite hblocked hoverruns, Document.itemsAt]
  cases document.get? path <;> rfl

/-- Items that are appended in portions, in one batch or in a batch for each of them, come to the
same as when they are appended at once, whatever the path meets. If the path is blocked, nothing
comes of either. If it overruns an array, that is left without items, and nothing is appended.
Otherwise the array at the path holds the last of the old items and all that were appended, in their
order and up to the limit. -/
theorem append_in_portions (hpath : isValidPath path = true) (document : Document)
    (limit : UInt64) :
    (∀ first second : List Value,
      applyBatch document (appends path limit [first, second]) =
        applyBatch document [.append path (.array (first ++ second)) limit]) ∧
    ∀ (first : List Value) (rest : List (List Value)),
      let portions := first :: rest
      let all := document.itemsAt path ++ portions.flatten
      ∃ result, applyBatch document (appends path limit portions) = .ok result ∧
        (appends path limit portions).foldlM (fun document edit => applyBatch document [edit])
          document = .ok result ∧
        applyBatch document [.append path (.array portions.flatten) limit] = .ok result ∧
        ((Value.object document).IsBlocked (segments path) → result = document) ∧
        ((Value.object document).Overruns (segments path) →
          ∃ before segment after, segments path = before ++ segment :: after ∧
            Value.object result = (Value.object document).amend (fun _ => .array []) before) ∧
        (¬ (Value.object document).IsBlocked (segments path) →
          ¬ (Value.object document).Overruns (segments path) →
          ∃ kept, result.get? path = some (.array kept) ∧ kept <:+ all ∧
            kept.length = min limit.toNat all.length) := by
  have hone (items : List Value) : (append path (.array items) limit).validate = .ok () :=
    checkPath_of_isValidPath _ hpath
  have hall (portions : List (List Value)) :
      ∀ edit ∈ appends path limit portions, edit.validate = .ok () := validate_of_mem_appends hpath
  refine ⟨fun first second => ?_, fun first rest => ?_⟩
  · rw [applyBatch_of_forall (hall _), applyBatch_singleton (hone _), foldl_apply_appends]
    simp
  · intro portions all
    refine ⟨(append path (.array portions.flatten) limit).apply document, ?_, ?_,
      applyBatch_singleton (hone _) document, fun hblocked => ?_, fun hoverruns => ?_,
      fun hblocked hoverruns => ?_⟩
    · rw [applyBatch_of_forall (hall _), foldl_apply_appends]
    · rw [foldlM_applyBatch_singleton (hall _), foldl_apply_appends]
    · exact Document.rewrite_of_isBlocked hblocked _
    · obtain ⟨before, segment, after, -, -, hsegments, -, -, -, hempty⟩ :=
        Document.rewrite_of_overruns hoverruns _
      exact ⟨before, segment, after, hsegments, hempty⟩
    · exact ⟨_, get?_apply_append hblocked hoverruns _ limit, keepLast_suffix _ _,
        length_keepLast _ _⟩

/-- A list of three items is left with the last two after two portions of one each; of two portions
at a row past the end of a list one item is left; and at a name in the list nothing is done. -/
theorem append_in_portions_rows :
    let document : Document :=
      [("log", .array [.nat 1, .nat 2, .nat 3]), ("rows", .array [.null])]
    (∃ result, applyBatch document (appends "log" 2 [[.nat 4], [.nat 5]]) = .ok result ∧
      result.get? "log" = some (.array [.nat 4, .nat 5])) ∧
    (∃ result, applyBatch document (appends "rows.2.log" 1 [[.nat 4, .nat 5], [], [.nat 6]]) =
        .ok result ∧ result.get? "rows.2.log" = some (.array [.nat 6])) ∧
    applyBatch document (appends "rows.last" 1 [[.nat 4], [.nat 5]]) = .ok document ∧
    applyBatch document (appends "log" 0 [[.nat 4], [.nat 5]]) =
      applyBatch document [.append "log" (.array [.nat 4, .nat 5]) 0] := by
  intro document
  refine ⟨?_, ?_, ?_, ?_⟩
  · obtain ⟨result, hresult, -, -, -, -, hfree⟩ :=
      (@append_in_portions "log" (by decide) document 2).2 [.nat 4] [[.nat 5]]
    obtain ⟨kept, hget, hsuffix, hlength⟩ := hfree (by decide) (by decide)
    rw [List.suffix_iff_eq_drop, hlength] at hsuffix
    exact ⟨result, hresult, by rw [hget, hsuffix]; rfl⟩
  · obtain ⟨result, hresult, -, -, -, -, hfree⟩ :=
      (@append_in_portions "rows.2.log" (by decide) document 1).2 [.nat 4, .nat 5]
        [[], [.nat 6]]
    obtain ⟨kept, hget, hsuffix, hlength⟩ := hfree (by decide) (by decide)
    rw [List.suffix_iff_eq_drop, hlength] at hsuffix
    exact ⟨result, hresult, by rw [hget, hsuffix]; rfl⟩
  · obtain ⟨result, hresult, -, -, hblocked, -, -⟩ :=
      (@append_in_portions "rows.last" (by decide) document 1).2 [.nat 4] [[.nat 5]]
    rw [hresult, hblocked (by decide)]
  · exact (@append_in_portions "log" (by decide) document 0).1 [.nat 4] [.nat 5]

end Edit

end LiveDoc
