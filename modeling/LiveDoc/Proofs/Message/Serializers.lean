import LiveDoc.Proofs.Message.Envelopes

/-!
# LiveDoc — two ways to write a message

A line lists the members of a message in declared order, and a free member may come again under a
declared name. The value of the message is the canonical form of that list. Whoever reads the line
lets the last of equal names win, so it gets the same value, provided that the line can be read at
all. What the value leaves out can not stand in the way: only declared members are overwritten, and
those are texts and small integers. So the line nests as deep as the value, and has no other numbers
that might not read back.

* `Value.IsKept` — a value of which the canonical form leaves out nothing that matters for reading.
* `Message.isKept_draft` — the list of a message is such a value.
* `Message.line_agrees_with_value` — what the line, the envelope and a forwarded frame deliver.
-/

namespace LiveDoc

open Json Json.Value

namespace Json.Value

/-! ## What canonical forms leave out -/

/-- A value that nests nothing and can always be read. -/
def IsPlain (v : Value) : Prop := v.depth = 0 ∧ v.AllNumbers Number.ReadsBack

/-- The value nests no deeper than its canonical form, and its numbers read back if those do. -/
def IsKept (v : Value) : Prop :=
  v.depth ≤ v.canonical.depth ∧
    (v.canonical.AllNumbers Number.ReadsBack → v.AllNumbers Number.ReadsBack)

theorem isPlain_string (text : String) : (Value.string text).IsPlain := ⟨rfl, every_string text⟩

theorem isPlain_ofText? (text : Option String) : (Value.ofText? text).IsPlain := by
  cases text with
  | none => exact ⟨rfl, every_null⟩
  | some text => exact isPlain_string text

theorem isPlain_nat {n : Nat} (h : n < UInt64.size) : (Value.nat n).IsPlain :=
  ⟨rfl, every_number.mpr (Number.readsBack_nat h)⟩

theorem Every.isKept {v : Value} (h : v.IsCanonical) : v.IsKept := by
  rw [IsKept, canonical_eq_self h]
  exact ⟨Nat.le_refl _, id⟩

theorem isKept_array {items : List Value} (h : ∀ v ∈ items, v.IsKept) :
    (Value.array items).IsKept := by
  rw [IsKept, canonical_array]
  refine ⟨?_, fun hnumbers => ?_⟩
  · rw [depth, depth, Nat.succ_le_succ_iff, itemsDepth_le_iff]
    have hle := itemsDepth_le_iff.mp (Nat.le_refl (itemsDepth (items.map canonical)))
    exact fun v hv => (h v hv).1.trans (hle _ (List.mem_map_of_mem hv))
  · have hitems := every_array.mp hnumbers
    exact every_array.mpr fun v hv => (h v hv).2 (hitems _ (List.mem_map_of_mem hv))

/-- An object loses nothing that matters if all members are plain that are listed again later. -/
theorem isKept_object {members : Fields}
    (h : ∀ entry ∈ members, entry.2.IsPlain ∨
      KeyMap.get? members.reverse entry.1 = some entry.2 ∧ entry.2.IsKept) :
    (Value.object members).IsKept := by
  have hlast {key : String} {v : Value} (hget : KeyMap.get? members.reverse key = some v) :
      (key, v.canonical) ∈ sortedMembers members :=
    KeyMap.mem_of_get? (by rw [get?_sortedMembers, hget]; rfl)
  rw [IsKept, canonical_object]
  refine ⟨?_, fun hnumbers => ?_⟩
  · rw [depth, depth, Nat.succ_le_succ_iff, membersDepth_le_iff]
    have hle := membersDepth_le_iff.mp (Nat.le_refl (membersDepth (sortedMembers members)))
    intro entry hentry
    rcases h entry hentry with hplain | ⟨hget, hkept⟩
    · exact hplain.1 ▸ Nat.zero_le _
    · exact hkept.1.trans (hle _ (hlast hget))
  · refine every_object.mpr ⟨trivial, fun entry hentry => ?_⟩
    rcases h entry hentry with hplain | ⟨hget, hkept⟩
    · exact hplain.2
    · exact hkept.2 ((every_object.mp hnumbers).2 _ (hlast hget))

end Json.Value

/-! ## Drafts -/

theorem isKept_texts (texts : List String) : (Value.array (texts.map .string)).IsKept :=
  Every.isKept (every_array.mpr (by simp))

theorem isKept_ofTextMap {map : KeyMap String} (h : KeyMap.Sorted map) :
    (Record.ofTextMap map).IsKept :=
  Every.isKept (Record.regular_ofTextMap h)

/-- What an edit writes is kept if its value is canonical. -/
theorem Edit.isKept_draft {edit : Edit} (h : edit.IsCanonical) : edit.draft.IsKept := by
  cases edit with
  | clear => exact isKept_object (by simp [isPlain_string])
  | set path v | merge path v | assign path v =>
    have hv : v.IsKept := (h v rfl).isKept
    exact isKept_object (by simp [isPlain_string, isPlain_ofText?, KeyMap.get?, hv])
  | append path v limit =>
    have hv : v.IsKept := (h v rfl).isKept
    have hlimit := isPlain_nat limit.toNat_lt
    exact isKept_object (by simp [isPlain_string, KeyMap.get?, hv, hlimit])
  | delete path keys =>
    have hkeys := isKept_texts keys
    exact isKept_object (by simp [isPlain_string, isPlain_ofText?, KeyMap.get?, hkeys])

namespace Message

/-- An optional text is plain where it is written. -/
theorem isPlain_optionalMember {name : String} (text : Option String) {entry : String × Value}
    (h : entry ∈ optionalMember name (text.map .string)) : entry.2.IsPlain := by
  obtain ⟨v, hv, rfl⟩ := List.mem_map.mp h
  obtain ⟨content, -, rfl⟩ := Option.map_eq_some_iff.mp (Option.mem_toList.mp hv)
  exact isPlain_string content

/-- Free members come last, each name once. -/
theorem isKept_free {declared free : Fields} (hdeclared : ∀ entry ∈ declared, entry.2.IsPlain)
    (hfree : (Value.object free).IsCanonical) : (Value.object (declared ++ free)).IsKept := by
  refine isKept_object fun entry hentry => ?_
  obtain ⟨hsorted, hvalues⟩ := every_object.mp hfree
  rcases List.mem_append.mp hentry with hmem | hmem
  · exact .inl (hdeclared entry hmem)
  · refine .inr ⟨?_, (hvalues entry hmem).isKept⟩
    rw [List.reverse_append, KeyMap.get?_append, hsorted.get?_reverse, hsorted.get?_of_mem hmem]
    rfl

/-- What a canonical message writes is kept, for each of its kinds. -/
theorem isKept_draft {m : Message} (h : m.IsCanonical) : m.draft.IsKept := by
  cases m with
  | ready => exact isKept_object (by simp [draftMembers, isPlain_string])
  | apply edits =>
    have hedits : (Value.array (edits.map Edit.draft)).IsKept := by
      refine isKept_array fun v hv => ?_
      obtain ⟨edit, hedit, rfl⟩ := List.mem_map.mp hv
      exact Edit.isKept_draft (h edit hedit)
    exact isKept_object (by simp [draftMembers, isPlain_string, KeyMap.get?, hedits])
  | rpcRequest r =>
    let declared : Fields :=
      [("type", .string "rpc_request"), ("rpcId", .string r.id), ("fnName", .string r.function)]
    have hdeclared : ∀ entry ∈ declared, entry.2.IsPlain := by simp [declared, isPlain_string]
    exact isKept_free hdeclared h
  | rpcResponse r =>
    refine isKept_object fun entry hentry => ?_
    simp only [draftMembers, List.mem_cons, List.mem_append] at hentry
    rcases hentry with rfl | rfl | rfl | (hresult | herror) | hfunction
    · exact .inl (isPlain_string _)
    · exact .inl (isPlain_string _)
    · exact .inl (isPlain_ofText? _)
    · obtain ⟨v, hv, rfl⟩ := List.mem_map.mp hresult
      rw [Option.mem_toList] at hv
      refine .inr ⟨?_, (h v hv).isKept⟩
      simp [draftMembers, KeyMap.get?_append, hv]
    · exact .inl (isPlain_optionalMember _ herror)
    · exact .inl (isPlain_optionalMember _ hfunction)
  | apiRequest r =>
    obtain ⟨hquery, hheaders, hbody⟩ := h
    have hquery := isKept_ofTextMap hquery
    have hheaders := isKept_ofTextMap hheaders
    have hbody := hbody.isKept
    exact isKept_object
      (by simp [draftMembers, isPlain_string, KeyMap.get?, hquery, hheaders, hbody])
  | apiResponse r =>
    obtain ⟨hheaders, hbody⟩ := h
    have hstatus : (Value.nat r.status.toNat).IsPlain :=
      isPlain_nat (r.status.toNat_lt.trans (by decide))
    have hheaders := isKept_ofTextMap hheaders
    have hbody := hbody.isKept
    exact isKept_object
      (by simp [draftMembers, isPlain_string, KeyMap.get?, hstatus, hheaders, hbody])
  | authRequest r =>
    have hheaders := isKept_ofTextMap h
    exact isKept_object (by simp [draftMembers, isPlain_string, KeyMap.get?, hheaders])
  | authVerdict v =>
    have hstatus : (Value.nat v.status.toNat).IsPlain :=
      isPlain_nat (v.status.toNat_lt.trans (by decide))
    let declared : Fields :=
      ("type", .string "ws_auth_response") :: ("clientId", .string v.client) ::
        ("status", .nat v.status.toNat) :: optionalMember "error" (v.error.map .string)
    have hdeclared : ∀ entry ∈ declared, entry.2.IsPlain := by
      simpa [declared, isPlain_string, hstatus] using fun key value => isPlain_optionalMember _
    exact isKept_free hdeclared h
  | log lines =>
    have hlines := isKept_texts lines
    exact isKept_object (by simp [draftMembers, isPlain_string, KeyMap.get?, hlines])

/-- The value of a message nests as deep as its list. -/
theorem depth_toValue {m : Message} (h : m.IsCanonical) : m.toValue.depth = m.draft.depth :=
  Nat.le_antisymm (depth_canonical_le m.draft) (isKept_draft h).1

/-- The value of a message is regular if its numbers have the property. -/
theorem regular_toValue {m : Message} {P : Number → Prop} (h : m.draft.AllNumbers P) :
    m.toValue.Regular P :=
  (isCanonical_canonical m.draft).regular h.canonical

/-! ## What is delivered -/

/-- A line of a message whose numbers read back holds the value of the message, if this nests at
most 127 containers, and else can not be read. So a line and an envelope deliver the same message, or
the same error. A frame nests one container more around the value, and delivers it if this nests at
most 126. -/
theorem line_agrees_with_value {m : Message} (hcanonical : m.IsCanonical)
    (hnumbers : m.toValue.AllNumbers Number.ReadsBack) :
    parse? m.line = (if m.toValue.depth ≤ 127 then some m.toValue else none) ∧
    (m.toValue.depth ≤ 127 →
      parseLine m.line = parse m.toValue ∧ decode m.encode = parse m.toValue) ∧
    ∀ f : ChannelFrame, f.message = m.toValue →
      ChannelFrame.read? f.line = if m.toValue.depth ≤ 126 then some f else none := by
  have hdepth := depth_toValue hcanonical
  have hdraft : m.draft.AllNumbers Number.ReadsBack := (isKept_draft hcanonical).2 hnumbers
  have hvalue : m.toValue.Regular Number.ReadsBack := regular_toValue hdraft
  refine ⟨?_, fun hlimit => ⟨parseLine_line_eq hdraft (hdepth ▸ hlimit), ?_⟩, fun f hf => ?_⟩
  · rw [line, parse?_text hdraft, ← hdepth]
    rfl
  · have henvelope : Envelope.decode m.encode = .ok m.toValue :=
      (Envelope.decode_encode_eq_self_iff hvalue.isCanonical).mpr ⟨hnumbers, hlimit⟩
    rw [decode, henvelope]
    rfl
  · have hlimit : m.toValue.depth < maxDepth ↔ m.toValue.depth ≤ 126 := Nat.lt_succ_iff
    rw [ChannelFrame.read?_line (hf ▸ hvalue), hf]
    simp only [hlimit]

/-- A call whose arguments take the place of its id and of its tag is read as log lines, which it
does not hold, from its line, its envelope and its frame alike. -/
theorem line_agrees_with_value_repeated :
    let m := rpcRequest
      { id := "1", function := "f", args := [("rpcId", .nat 2), ("type", .string "log")] }
    let v : Value := .object [("fnName", .string "f"), ("rpcId", .nat 2), ("type", .string "log")]
    parse? m.line = some v ∧ parseLine m.line = .error (.invalidPayload unreadable) ∧
      decode m.encode = .error (.invalidPayload unreadable) ∧
      ChannelFrame.read? (ChannelFrame.line { message := v }) = some { message := v } := by
  intro m v
  have hvalue : m.toValue = v := by decide +kernel
  have hcanonical : m.IsCanonical := by
    refine every_object.mpr ⟨?_, by simp [Value.nat]⟩
    show List.Pairwise (· < ·) ["rpcId", "type"]
    decide
  have hnumbers : m.toValue.AllNumbers Number.ReadsBack := by
    have hid : (Value.nat 2).AllNumbers Number.ReadsBack :=
      every_number.mpr (Number.readsBack_nat (by decide))
    simpa [hvalue, v] using hid
  have hdepth : m.toValue.depth = 1 := by rw [hvalue]; rfl
  obtain ⟨hline, hdelivered, hframe⟩ := line_agrees_with_value hcanonical hnumbers
  obtain ⟨hparse, hdecode⟩ := hdelivered (by rw [hdepth]; decide)
  have herror : parse m.toValue = .error (.invalidPayload unreadable) := by rw [hvalue]; rfl
  refine ⟨?_, hparse.trans herror, hdecode.trans herror, ?_⟩
  · rw [hline, if_pos (by rw [hdepth]; decide), hvalue]
  · rw [hframe _ hvalue.symm, if_pos (by rw [hdepth]; decide)]

/-- An HTTP request with a body of 126 containers is read from its line and from its envelope, but
not from the frame in which it is forwarded. -/
theorem deep_request_unread :
    let m := apiRequest { id := "1", method := "POST", path := "/p", body := chain 126 }
    m.IsCanonical ∧ m.toValue.AllNumbers Number.ReadsBack ∧ m.toValue.depth = 127 ∧
      parseLine m.line = .ok m ∧ decode m.encode = .ok m ∧
      ∀ origin : Option MessageMeta,
        ChannelFrame.read? (ChannelFrame.line { message := m.toValue, origin }) = none := by
  intro m
  have hcanonical : m.IsCanonical := ⟨KeyMap.sorted_nil, KeyMap.sorted_nil, regular_chain _ 126⟩
  have hwritable : m.IsWritable := by
    have hmap : (Record.ofTextMap []).Regular Number.ReadsBack :=
      Record.regular_ofTextMap KeyMap.sorted_nil
    have hmapDepth : (Record.ofTextMap []).depth < maxDepth := by decide
    simpa [m, IsWritable, draftMembers, hmap, hmapDepth, regular_chain, depth_chain] using by decide
  have hparse : parse m.toValue = .ok m := parse_toValue_apiRequest hcanonical
  have hdepth : m.toValue.depth = 127 := by
    rw [depth_toValue hcanonical]
    simp [m, draft, draftMembers, depth, membersDepth, Record.ofTextMap, depth_chain]
  refine ⟨hcanonical, hwritable.regular_toValue.allNumbers, hdepth,
    hwritable.parseLine_line.trans hparse, hwritable.decode_encode.trans hparse, fun origin => ?_⟩
  rw [ChannelFrame.read?_line hwritable.regular_toValue, if_neg]
  show ¬ m.toValue.depth < maxDepth
  rw [hdepth]
  decide

end Message

end LiveDoc
