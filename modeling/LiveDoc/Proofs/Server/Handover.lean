import LiveDoc.Proofs.Edit.Regular
import LiveDoc.Proofs.Edit.Validity
import LiveDoc.Proofs.Json.Faithful
import LiveDoc.Proofs.Message.Frames
import LiveDoc.Proofs.Replica

/-!
# LiveDoc — handing the document to a new client

A client that comes in is sent the refresh: a batch that drops everything and puts the document in
its place. Its frame nests three containers around the document. The batches that made the document
were read under the same limit as the frame will be, but what they add up to is not bounded by it: a
key path makes a container for each of its segments. So a document may be too deep to be handed on,
and depth is the only thing that can go wrong.

* `Document.Reachable.handover` — what every client makes of the frame.
* `Document.reachable_chain` — documents of every depth are reached.
-/

namespace LiveDoc

open Json Json.Value

/-! ## Documents that are reached -/

/-- The documents that accepted batches lead to, each read from a line of the backend. -/
inductive Document.Reachable : Document → Prop where
  | empty : Reachable []
  | batch {document document' : Document} {line : String} {edits : List Edit}
      (reachable : Reachable document) (read : parseLine line = .ok (.apply edits))
      (accepted : applyBatch document edits = .ok document') : Reachable document'

/-- A document that is reached has sorted objects and integers that fit. -/
theorem Document.Reachable.regular {document : Document} (h : document.Reachable) :
    (Value.object document).Regular Number.Fits := by
  induction h with
  | empty => exact every_object.mpr ⟨KeyMap.sorted_nil, by simp⟩
  | batch _ hread haccepted ih => exact applyBatch_regular ih (regular_of_parseLine hread) haccepted

/-! ## The refresh -/

theorem toValue_refresh (document : Document) :
    (Message.apply (refreshBatch document)).toValue =
      .object [("ops", .array [.object [("type", .string "$clearAll")],
        .object [("keyPath", .null), ("type", .string "$shallowAssign"),
          ("value", (Value.object document).canonical)]]), ("type", .string "apply")] := by
  have hops : ("ops" : String) < "type" := by decide
  have hpath : ("keyPath" : String) < "type" := by decide
  have hvalue : ¬ ("value" : String) < "type" := by decide
  have hvalue' : ¬ ("value" : String) < "keyPath" := by decide
  simp only [Message.toValue, Message.draft, Message.draftMembers, Message.tag, refreshBatch,
    List.map_cons, List.map_nil, Edit.draft, Edit.tag, Value.ofText?, canonical, canonicalItems,
    canonicalMembers, KeyMap.ofEntries, KeyMap.setAll, KeyMap.set, List.foldl_cons, List.foldl_nil,
    hops, hpath, hvalue, hvalue', ↓reduceIte, String.reduceEq]

variable {document : Document}

/-- The refresh nests three containers around the document. -/
theorem depth_refresh (h : (Value.object document).IsCanonical) :
    (Message.apply (refreshBatch document)).toValue.depth = (Value.object document).depth + 3 := by
  rw [toValue_refresh, canonical_eq_self h]
  simp [depth, itemsDepth, membersDepth]

/-- What is in the envelope of the refresh. -/
theorem envelope_refresh (h : (Value.object document).Regular Number.ReadsBack) :
    Envelope.decode (Message.apply (refreshBatch document)).encode =
      if (Value.object document).depth + 3 ≤ maxDepth then
        .ok (Message.apply (refreshBatch document)).toValue
      else .error (.invalidPayload unreadable) := by
  have hnumbers : (Message.apply (refreshBatch document)).toValue.AllNumbers Number.ReadsBack := by
    rw [toValue_refresh, canonical_eq_self h]
    simpa using (every_object.mp h.allNumbers).2
  have hcanonical : (Message.apply (refreshBatch document)).toValue.canonical =
      (Message.apply (refreshBatch document)).toValue :=
    canonical_eq_self (isCanonical_canonical _)
  rw [Message.encode, Envelope.decode_encode hnumbers, depth_refresh h.isCanonical, hcanonical]

/-- What is read from the frame of the refresh. -/
theorem decode_refresh (h : (Value.object document).Regular Number.ReadsBack) :
    Message.decode (Message.apply (refreshBatch document)).encode =
      if (Value.object document).depth + 3 ≤ maxDepth then .ok (.apply (refreshBatch document))
      else .error (.invalidPayload unreadable) := by
  rw [Message.decode, envelope_refresh h]
  split
  · exact Message.parse_toValue_apply fun _ => isCanonical_of_mem_refreshBatch h.isCanonical
  · rfl

/-- A client that reads the refresh shows the document then; one that cannot shows what it did. -/
theorem receive_refresh (h : (Value.object document).Regular Number.ReadsBack) (c : Client) :
    (c.receive (Message.apply (refreshBatch document)).encode).2.replica =
      if (Value.object document).depth + 3 ≤ maxDepth then document else c.replica := by
  have hparse : Message.parse (Message.apply (refreshBatch document)).toValue =
      .ok (.apply (refreshBatch document)) :=
    Message.parse_toValue_apply fun _ => isCanonical_of_mem_refreshBatch h.isCanonical
  have happly := applyBatch_refreshBatch (every_object.mp h).1 c.replica
  rw [Client.replica_receive, Document.afterText, envelope_refresh h]
  by_cases hdepth : (Value.object document).depth + 3 ≤ maxDepth
  · simp only [if_pos hdepth]
    rw [Document.afterValue_of_apply hparse, Document.applied_of_ok happly]
  · simp only [if_neg hdepth]

theorem Document.Reachable.regular_readsBack (h : document.Reachable)
    (hfloats : (Value.object document).AllNumbers Number.FloatReadsBack) :
    (Value.object document).Regular Number.ReadsBack :=
  h.regular.readsBack hfloats

/-- Every client can read the refresh of a document that is reached, and shows the document then, if
the document nests no deeper than 124 containers. Otherwise no client can. -/
theorem Document.Reachable.handover (h : document.Reachable)
    (hfloats : (Value.object document).AllNumbers Number.FloatReadsBack) :
    (Message.decode (Message.apply (refreshBatch document)).encode =
        if (Value.object document).depth ≤ 124 then .ok (.apply (refreshBatch document))
        else .error (.invalidPayload unreadable)) ∧
      ∀ c : Client, (c.receive (Message.apply (refreshBatch document)).encode).2.replica =
        if (Value.object document).depth ≤ 124 then document else c.replica := by
  have hregular := h.regular_readsBack hfloats
  have hlimit : (Value.object document).depth + 3 ≤ maxDepth ↔
      (Value.object document).depth ≤ 124 := by
    simp only [maxDepth]
    omega
  simp only [← hlimit]
  exact ⟨decode_refresh hregular, receive_refresh hregular⟩

/-! ## Deep documents -/

/-- The characters of a key path that leads into the innermost object of a chain. -/
def chainChars : Nat → List Char
  | 0 => ['a']
  | n + 1 => 'a' :: '.' :: chainChars n

/-- The edit that makes a chain in an empty document. -/
def chainEdit (n : Nat) : Edit := .set (some (String.ofList (chainChars n))) .null

theorem segments_chainChars (n : Nat) :
    segments (String.ofList (chainChars n)) = List.replicate (n + 1) "a" := by
  have hpieces : Text.pieces '.' (chainChars n) = List.replicate (n + 1) ['a'] := by
    induction n with
    | zero => rfl
    | succ n ih => simp [chainChars, Text.pieces, ih, List.replicate_succ]
  rw [segments, String.toList_ofList, hpieces, List.map_replicate]

theorem rewrite?_replicate (n : Nat) :
    rewrite? (fun _ => .null) (List.replicate n "a") .null = some (chain n) := by
  induction n with
  | zero => rfl
  | succ n ih => simp [List.replicate_succ, rewrite?, chain, Value.members, fields?, ih, KeyMap.set]

theorem validate_chainEdit (n : Nat) : (chainEdit n).validate = .ok () :=
  checkPath_of_isValidPath _ (by simp [isValidPath, segments_chainChars])

theorem applyBatch_chainEdit (n : Nat) :
    applyBatch [] [chainEdit n] = .ok [("a", chain n)] := by
  have hvalid : validateFrom 0 [chainEdit n] = .ok () := by
    simp [validateFrom, validate_chainEdit]
  have hrewrite : rewrite? (fun _ => .null) (List.replicate (n + 1) "a") (.object []) =
      some (chain (n + 1)) := by
    simp [List.replicate_succ, rewrite?, chain, Value.members, fields?, rewrite?_replicate,
      KeyMap.set]
  rw [applyBatch, hvalid]
  simp [chainEdit, Edit.apply, Document.rewrite, segments_chainChars, hrewrite, chain,
    Value.members, fields?]

/-- Documents of every depth are reached, by one line that nests three containers. -/
theorem Document.reachable_chain (n : Nat) : Document.Reachable [("a", chain n)] := by
  -- However long its key path is, the edit itself nests but a null.
  have hline : parseLine (Message.apply [chainEdit n]).line = .ok (.apply [chainEdit n]) := by
    refine parseLine_line ?_ ?_ ?_ ?_
    · intro edit hedit v hv
      obtain rfl := List.mem_singleton.mp hedit
      cases hv
      exact every_null
    · intro key hkey
      cases hkey
    · simp [Message.draft, Message.draftMembers, Edit.draft, chainEdit, Value.ofText?]
    · simp [Message.draft, Message.draftMembers, Edit.draft, chainEdit, Value.ofText?, depth,
        membersDepth, itemsDepth, maxDepth]
  exact .batch .empty hline (applyBatch_chainEdit n)

/-- A chain of 124 containers can still be handed on, and one of 125 can not. -/
theorem Document.handover_chain :
    (Message.decode (Message.apply (refreshBatch [("a", chain 123)])).encode =
        .ok (.apply (refreshBatch [("a", chain 123)])) ∧
      ∀ c : Client, (c.receive (Message.apply (refreshBatch [("a", chain 123)])).encode).2.replica =
        [("a", chain 123)]) ∧
    Message.decode (Message.apply (refreshBatch [("a", chain 124)])).encode =
      .error (.invalidPayload unreadable) := by
  have hdepth (n : Nat) : (Value.object [("a", chain n)]).depth = n + 1 := depth_chain (n + 1)
  have hshallow : (Value.object [("a", chain 123)]).depth ≤ 124 := by rw [hdepth]
  have hdeep : ¬ (Value.object [("a", chain 124)]).depth ≤ 124 := by rw [hdepth]; decide
  have hnumbers (n : Nat) : (Value.object [("a", chain n)]).AllNumbers Number.FloatReadsBack :=
    allNumbers_chain _ (n + 1)
  obtain ⟨hdecode, hreceive⟩ := Reachable.handover (reachable_chain 123) (hnumbers 123)
  obtain ⟨hdecode', -⟩ := Reachable.handover (reachable_chain 124) (hnumbers 124)
  rw [if_pos hshallow] at hdecode
  rw [if_neg hdeep] at hdecode'
  refine ⟨⟨hdecode, fun c => ?_⟩, hdecode'⟩
  rw [hreceive c, if_pos hshallow]

/-- A document is reached whose refresh no client can read. -/
theorem Document.exists_reachable_unreadable :
    ∃ document : Document, document.Reachable ∧
      (Value.object document).AllNumbers Number.FloatReadsBack ∧
        Message.decode (Message.apply (refreshBatch document)).encode ≠
          .ok (.apply (refreshBatch document)) := by
  have hnumbers : (Value.object [("a", chain 124)]).AllNumbers Number.FloatReadsBack :=
    allNumbers_chain _ 125
  have hdepth : ¬ (Value.object [("a", chain 124)]).depth + 3 ≤ maxDepth := by
    have hchain : (Value.object [("a", chain 124)]).depth = 125 := depth_chain 125
    simp [hchain, maxDepth]
  refine ⟨_, reachable_chain 124, hnumbers, ?_⟩
  rw [decode_refresh ((reachable_chain 124).regular_readsBack hnumbers), if_neg hdepth]
  simp

end LiveDoc
