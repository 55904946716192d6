import LiveDoc.Message.Wire
import LiveDoc.Proofs.Edit.Wire

/-!
# LiveDoc — messages survive as values

A call and a verdict list free members behind their declared ones. The value of a message is a map,
so a free member that repeats a declared name or the tag takes its place, and the message is not
read back. These are the only messages that are lost.

* `Message.IsClear` — no free member has a reserved name.
* `Message.ofMembers?_rpcRequest`, `Message.parse_toValue_authVerdict_eq` — what a call and a verdict
  are read as, clear or not.
* `Message.parse_toValue` — a clear message is read back from its value.
* `Message.isClear_of_parse` — every message that is read is clear.
* `Message.parse_toValue_eq_ok_iff` — the two as one law.
-/

namespace LiveDoc.Message

open Json Json.Value

variable {P : Number → Prop}

def freeMembers : Message → Fields
  | .rpcRequest r => r.args
  | .authVerdict v => v.extra
  | _ => []

/-- The names that the free members of a message must not have: its tag and its declared ones. -/
def reservedNames : Message → List String
  | .rpcRequest _ => ["type", "rpcId", "fnName"]
  | .authVerdict _ => ["type", "clientId", "status", "error"]
  | _ => []

def IsClear (m : Message) : Prop := ∀ key ∈ KeyMap.keys m.freeMembers, key ∉ m.reservedNames

/-- The maps inside the message list their keys in order, and its values are regular. -/
def Regular (P : Number → Prop) : Message → Prop
  | .apply edits => ∀ edit ∈ edits, edit.Regular P
  | .rpcRequest r => (Value.object r.args).Regular P
  | .rpcResponse r => ∀ v, r.result = some v → v.Regular P
  | .apiRequest r => KeyMap.Sorted r.query ∧ KeyMap.Sorted r.headers ∧ r.body.Regular P
  | .apiResponse r => KeyMap.Sorted r.headers ∧ r.body.Regular P
  | .authRequest r => KeyMap.Sorted r.headers
  | .authVerdict v => (Value.object v.extra).Regular P
  | .ready | .log _ => True

/-- All maps inside the message list their keys in ascending order, each key once. -/
def IsCanonical (m : Message) : Prop := m.Regular fun _ => True

/-! ## Reading a draft -/

theorem tag_mem_tags (m : Message) : m.tag ∈ tags := by
  cases m <;> simp [tag, tags]

/-- What is read from an object that has a tag. -/
theorem parse_object_eq {tag : String} {members : Fields} (htag : tag ∈ tags)
    (htype : (KeyMap.get? members "type").bind text? = some tag) :
    parse (.object members) =
      (ofMembers? tag members).elim (.error (.invalidPayload unreadable)) .ok := by
  have hclaimed : claimedTag? (.object members) = some tag := htype
  rw [parse, hclaimed]
  simp only [List.contains_iff_mem, htag, if_true, fields?, Option.getD_some]
  cases ofMembers? tag members <;> rfl

/-- What is read from the canonical form of a draft. -/
theorem parse_canonical_draft_eq {tag : String} {members : Fields} (htag : tag ∈ tags)
    (hmembers : "type" ∉ KeyMap.keys members) :
    parse (canonical (.object (("type", .string tag) :: members))) =
      (ofMembers? tag (sortedMembers (("type", .string tag) :: members))).elim
        (.error (.invalidPayload unreadable)) .ok := by
  have habsent : KeyMap.get? members.reverse "type" = none :=
    KeyMap.get?_reverse_eq_none_iff.mpr hmembers
  rw [canonical_object, parse_object_eq htag]
  rw [get?_sortedMembers, List.reverse_cons, KeyMap.get?_append, habsent]
  simp [KeyMap.get?, text?]

/-- Which message is read from the canonical form of a draft. -/
theorem parse_canonical_draft {tag : String} {members : Fields} (htag : tag ∈ tags)
    (hmembers : "type" ∉ KeyMap.keys members) {m : Message}
    (hread : ofMembers? tag (sortedMembers (("type", .string tag) :: members)) = some m) :
    parse (canonical (.object (("type", .string tag) :: members))) = .ok m := by
  rw [parse_canonical_draft_eq htag hmembers, hread]
  rfl

@[simp] theorem get?_optionalMember (name key : String) (v : Option Value) :
    KeyMap.get? (optionalMember name v) key = if name = key then v else none := by
  cases v <;> simp [optionalMember, KeyMap.get?]

@[simp] theorem reverse_optionalMember (name : String) (v : Option Value) :
    (optionalMember name v).reverse = optionalMember name v := by
  cases v <;> simp [optionalMember]

theorem keys_optionalMember {name key : String} {v : Option Value}
    (h : key ∈ KeyMap.keys (optionalMember name v)) : key = name := by
  cases v <;> simp_all [optionalMember]

/-- No declared member is named like the tag. -/
theorem type_notMem_draftMembers {m : Message} (h : "type" ∉ KeyMap.keys m.freeMembers) :
    "type" ∉ KeyMap.keys m.draftMembers := by
  have hoption {name : String} (v : Option Value) (hname : name ≠ "type") :
      "type" ∉ KeyMap.keys (optionalMember name v) :=
    fun hmem => hname (keys_optionalMember hmem).symm
  cases m <;> simp_all [freeMembers, draftMembers]

/-- Free members stand before the declared ones of the same name. -/
theorem get?_sortedMembers_append {declared free : Fields}
    (hfree : (Value.object free).IsCanonical) (name : String) :
    KeyMap.get? (sortedMembers (declared ++ free)) name =
      (KeyMap.get? free name).or ((KeyMap.get? declared.reverse name).map canonical) := by
  have hself : (KeyMap.get? free name).map canonical = KeyMap.get? free name := by
    cases hget : KeyMap.get? free name with
    | none => rfl
    | some v => exact congrArg some (canonical_eq_self (hfree.of_get? hget))
  rw [get?_sortedMembers, List.reverse_append, KeyMap.get?_append,
    KeyMap.Sorted.get?_reverse (every_object.mp hfree).1, Option.map_or, hself]

/-! ## Reading what was written -/

section Written

-- Every proof here runs the reader on members it knows, so its equations are generated once.
attribute [local simp] ofMembers?

theorem edits?_map_toValue {edits : List Edit} (h : ∀ edit ∈ edits, edit.IsCanonical) :
    edits? (edits.map Edit.toValue) = some edits := by
  induction edits with
  | nil => rfl
  | cons edit rest ih =>
    have hhead : Edit.read? edit.toValue = some edit := Edit.read?_toValue (h edit (by simp))
    have hrest : edits? (rest.map Edit.toValue) = some rest :=
      ih fun e he => h e (by simp [he])
    simp [edits?, hhead, hrest]

theorem parse_toValue_apply {edits : List Edit} (h : ∀ edit ∈ edits, edit.IsCanonical) :
    parse (apply edits).toValue = .ok (apply edits) := by
  refine parse_canonical_draft (tag_mem_tags _) (by simp [draftMembers]) ?_
  have hops : (Value.array (edits.map Edit.draft)).canonical =
      .array (edits.map Edit.toValue) := by
    rw [canonical_array, List.map_map]
    rfl
  simp only [tag, draftMembers, ofMembers?, get?_sortedMembers, List.reverse_cons, List.reverse_nil,
    List.nil_append, List.cons_append, KeyMap.get?, ↓reduceIte, Option.map_some, hops]
  simp [items?, edits?_map_toValue h]

/-- What is read from the value of a call, as far as that is taken for a call: an argument by the name
of a declared member stands in its place. -/
theorem ofMembers?_rpcRequest {r : RpcRequest} (h : (rpcRequest r).IsCanonical) :
    ofMembers? "rpc_request" (sortedMembers (("type", .string "rpc_request") ::
        draftMembers (rpcRequest r))) =
      ((KeyMap.get? r.args "rpcId").getD (.string r.id)).text?.bind fun id =>
        ((KeyMap.get? r.args "fnName").getD (.string r.function)).text?.map fun function =>
          rpcRequest {
            id
            function
            args := Record.others ["type", "rpcId", "fnName"] r.args } := by
  let declared : Fields :=
    [("type", .string "rpc_request"), ("rpcId", .string r.id), ("fnName", .string r.function)]
  have hid : KeyMap.get? (sortedMembers (declared ++ r.args)) "rpcId" =
      some ((KeyMap.get? r.args "rpcId").getD (.string r.id)) := by
    rw [get?_sortedMembers_append h]
    simp [declared, KeyMap.get?]
  have hfunction : KeyMap.get? (sortedMembers (declared ++ r.args)) "fnName" =
      some ((KeyMap.get? r.args "fnName").getD (.string r.function)) := by
    rw [get?_sortedMembers_append h]
    simp [declared, KeyMap.get?]
  have hargs : Record.others ["type", "rpcId", "fnName"] (sortedMembers (declared ++ r.args)) =
      Record.others ["type", "rpcId", "fnName"] r.args :=
    Record.others_sortedMembers_append (by simp [declared]) h
  show ofMembers? "rpc_request" (sortedMembers (declared ++ r.args)) = _
  simp only [Option.map_eq_bind, Function.comp_def]
  simp [hid, hfunction, hargs, Record.text?]

/-- A clear call is read back from its value. -/
theorem parse_toValue_rpcRequest {r : RpcRequest} (h : (rpcRequest r).IsCanonical)
    (hclear : (rpcRequest r).IsClear) : parse (rpcRequest r).toValue = .ok (rpcRequest r) := by
  have habsent : ∀ name ∈ ["type", "rpcId", "fnName"], KeyMap.get? r.args name = none :=
    fun name hname => KeyMap.get?_eq_none_iff.mpr fun hkey => hclear name hkey hname
  have htype : "type" ∉ KeyMap.keys (draftMembers (rpcRequest r)) :=
    type_notMem_draftMembers (KeyMap.get?_eq_none_iff.mp (habsent _ (by simp)))
  have hargs : Record.others ["type", "rpcId", "fnName"] r.args = r.args :=
    List.filter_eq_self.mpr fun entry hentry => by
      simpa [reservedNames] using hclear _ (List.mem_map_of_mem hentry)
  refine parse_canonical_draft (tag_mem_tags _) htype ?_
  rw [tag, ofMembers?_rpcRequest h]
  simp [habsent, hargs, text?]

/-- An answer to a call is read back from its value. -/
theorem parse_toValue_rpcResponse {r : RpcResponse} (h : (rpcResponse r).IsCanonical) :
    parse (rpcResponse r).toValue = .ok (rpcResponse r) := by
  have htype : "type" ∉ KeyMap.keys (draftMembers (rpcResponse r)) :=
    type_notMem_draftMembers (by simp [freeMembers])
  refine parse_canonical_draft (tag_mem_tags _) htype ?_
  have hresult : r.result.map canonical = r.result := by
    cases hr : r.result with
    | none => rfl
    | some v => exact congrArg some (canonical_eq_self (h v hr))
  simp [tag, draftMembers, get?_sortedMembers, KeyMap.get?, KeyMap.get?_append, hresult,
    Function.comp_def]

/-- An HTTP request is read back from its value. -/
theorem parse_toValue_apiRequest {r : ApiRequest} (h : (apiRequest r).IsCanonical) :
    parse (apiRequest r).toValue = .ok (apiRequest r) := by
  obtain ⟨hquery, hheaders, hbody⟩ := h
  refine parse_canonical_draft (tag_mem_tags _) (by simp [draftMembers]) ?_
  simp [tag, draftMembers, get?_sortedMembers, KeyMap.get?, Record.value,
    Record.canonical_ofTextMap hquery, Record.canonical_ofTextMap hheaders, canonical_eq_self hbody]

/-- An HTTP answer is read back from its value. -/
theorem parse_toValue_apiResponse {r : ApiResponse} (h : (apiResponse r).IsCanonical) :
    parse (apiResponse r).toValue = .ok (apiResponse r) := by
  obtain ⟨hheaders, hbody⟩ := h
  refine parse_canonical_draft (tag_mem_tags _) (by simp [draftMembers]) ?_
  simp [tag, draftMembers, get?_sortedMembers, KeyMap.get?, Record.value,
    Record.canonical_ofTextMap hheaders, canonical_eq_self hbody]

/-- A client that asks to be let in is read back from its value. -/
theorem parse_toValue_authRequest {r : AuthRequest} (h : (authRequest r).IsCanonical) :
    parse (authRequest r).toValue = .ok (authRequest r) := by
  refine parse_canonical_draft (tag_mem_tags _) (by simp [draftMembers]) ?_
  simp [tag, draftMembers, get?_sortedMembers, KeyMap.get?,
    Record.canonical_ofTextMap h]

/-- What a verdict is read as that names no other client or message: a free member by the name of a
declared one is read in its place, and has to be of its kind. -/
theorem parse_toValue_authVerdict_eq {v : AuthVerdict} (h : (authVerdict v).IsCanonical)
    (hown : ∀ name ∈ ["type", "clientId"], name ∉ KeyMap.keys v.extra) :
    parse (authVerdict v).toValue =
      ((Record.word16? ((KeyMap.get? v.extra "status").or (some (.nat v.status.toNat)))).bind
        fun status =>
          (Record.optionalText? ((KeyMap.get? v.extra "error").or (v.error.map .string))).map
            fun error => authVerdict {
              client := v.client
              status
              error
              extra := Record.others ["type", "clientId", "status", "error"] v.extra }).elim
        (.error (.invalidPayload unreadable)) .ok := by
  have htype : "type" ∉ KeyMap.keys (draftMembers (authVerdict v)) :=
    type_notMem_draftMembers (hown _ (by simp))
  let declared : Fields :=
    ("type", .string "ws_auth_response") :: ("clientId", .string v.client) ::
      ("status", .nat v.status.toNat) :: optionalMember "error" (v.error.map .string)
  have hclient : KeyMap.get? (sortedMembers (declared ++ v.extra)) "clientId" =
      some (.string v.client) := by
    rw [get?_sortedMembers_append h, KeyMap.get?_eq_none_iff.mpr (hown _ (by simp))]
    simp [declared, KeyMap.get?, KeyMap.get?_append]
  have hstatus : KeyMap.get? (sortedMembers (declared ++ v.extra)) "status" =
      (KeyMap.get? v.extra "status").or (some (.nat v.status.toNat)) := by
    rw [get?_sortedMembers_append h]
    simp [declared, KeyMap.get?, KeyMap.get?_append]
  have herror : KeyMap.get? (sortedMembers (declared ++ v.extra)) "error" =
      (KeyMap.get? v.extra "error").or (v.error.map .string) := by
    rw [get?_sortedMembers_append h]
    simp [declared, KeyMap.get?, KeyMap.get?_append, Function.comp_def]
  have hextra : Record.others ["type", "clientId", "status", "error"]
      (sortedMembers (declared ++ v.extra)) =
        Record.others ["type", "clientId", "status", "error"] v.extra := by
    refine Record.others_sortedMembers_append (fun entry hentry => ?_) h
    simp only [declared, List.mem_cons] at hentry
    rcases hentry with rfl | rfl | rfl | hentry
    · simp
    · simp
    · simp
    · simp [keys_optionalMember (List.mem_map_of_mem hentry)]
  rw [toValue, draft, parse_canonical_draft_eq (tag_mem_tags _) htype]
  show (ofMembers? "ws_auth_response" (sortedMembers (declared ++ v.extra))).elim _ _ = _
  simp only [Option.map_eq_bind, Function.comp_def] at herror ⊢
  simp [hclient, hstatus, herror, hextra]

/-- A clear verdict is read back from its value. -/
theorem parse_toValue_authVerdict {v : AuthVerdict} (h : (authVerdict v).IsCanonical)
    (hclear : (authVerdict v).IsClear) : parse (authVerdict v).toValue = .ok (authVerdict v) := by
  have hfree : ∀ name ∈ ["type", "clientId", "status", "error"], name ∉ KeyMap.keys v.extra :=
    fun name hname hkey => hclear name hkey hname
  have hstatus : KeyMap.get? v.extra "status" = none :=
    KeyMap.get?_eq_none_iff.mpr (hfree _ (by simp))
  have herror : KeyMap.get? v.extra "error" = none :=
    KeyMap.get?_eq_none_iff.mpr (hfree _ (by simp))
  have hextra : Record.others ["type", "clientId", "status", "error"] v.extra = v.extra :=
    List.filter_eq_self.mpr fun entry hentry => by
      simpa [reservedNames] using hclear _ (List.mem_map_of_mem hentry)
  have hown : ∀ name ∈ ["type", "clientId"], name ∉ KeyMap.keys v.extra :=
    fun name hname => hfree name (List.mem_append_left ["status", "error"] hname)
  rw [parse_toValue_authVerdict_eq h hown]
  simp [hstatus, herror, hextra]

/-- A clear message is read back from its value. -/
theorem parse_toValue {m : Message} (h : m.IsCanonical) (hclear : m.IsClear) :
    parse m.toValue = .ok m := by
  cases m with
  | ready => exact parse_canonical_draft (tag_mem_tags .ready) (by simp [draftMembers]) rfl
  | apply edits => exact parse_toValue_apply h
  | rpcRequest r => exact parse_toValue_rpcRequest h hclear
  | rpcResponse r => exact parse_toValue_rpcResponse h
  | apiRequest r => exact parse_toValue_apiRequest h
  | apiResponse r => exact parse_toValue_apiResponse h
  | authRequest r => exact parse_toValue_authRequest h
  | authVerdict v => exact parse_toValue_authVerdict h hclear
  | log lines =>
    refine parse_canonical_draft (tag_mem_tags _) (by simp [draftMembers]) ?_
    simp [tag, draftMembers, get?_sortedMembers, KeyMap.get?]

end Written

/-! ## What is read is regular and clear -/

theorem regular_of_edits? {items : List Value} {edits : List Edit}
    (h : ∀ v ∈ items, v.Regular P) (hread : edits? items = some edits) :
    ∀ edit ∈ edits, edit.Regular P := by
  induction items generalizing edits with
  | nil =>
    cases hread
    simp
  | cons v rest ih =>
    obtain ⟨edit, hedit, hread⟩ := Option.bind_eq_some_iff.mp hread
    obtain ⟨tail, htail, hread⟩ := Option.bind_eq_some_iff.mp hread
    cases hread
    intro e he
    rcases List.mem_cons.mp he with rfl | hmem
    · exact Edit.regular_of_read? (h v (by simp)) hedit
    · exact ih (fun w hw => h w (by simp [hw])) htail e hmem

theorem regular_value_get? {members : Fields} (h : (Value.object members).Regular P)
    (name : String) : (Record.value (KeyMap.get? members name)).Regular P := by
  cases hget : KeyMap.get? members name with
  | none => exact every_null
  | some v => exact h.of_get? hget

/-- A message that is read from a regular object is regular, and its free members are those that
nothing declares. -/
theorem regular_and_isClear_of_ofMembers? {tag : String} {members : Fields} {m : Message}
    (h : (Value.object members).Regular P) (hread : ofMembers? tag members = some m) :
    m.Regular P ∧ m.IsClear := by
  have hmap : ∀ {name : String} {map : KeyMap String},
      Record.textMap? (KeyMap.get? members name) = some map → KeyMap.Sorted map :=
    fun hmap => Record.sorted_of_textMap? (fun v hv => (h.of_get? hv).isCanonical) hmap
  unfold ofMembers? at hread
  split at hread
  · cases hread
    exact ⟨trivial, by simp [IsClear, freeMembers]⟩
  · -- a batch
    obtain ⟨ops, hops, hread⟩ := Option.bind_eq_some_iff.mp hread
    obtain ⟨items, hitems, hread⟩ := Option.bind_eq_some_iff.mp hread
    obtain ⟨edits, hedits, hread⟩ := Option.bind_eq_some_iff.mp hread
    cases hread
    have hregular : ∀ v ∈ items, v.Regular P := by
      cases ops <;> simp only [items?, Option.some.injEq, reduceCtorEq] at hitems
      subst hitems
      exact every_array.mp (h.of_get? hops)
    exact ⟨regular_of_edits? hregular hedits, by simp [IsClear, freeMembers]⟩
  · -- a call
    obtain ⟨id, -, hread⟩ := Option.bind_eq_some_iff.mp hread
    obtain ⟨function, -, hread⟩ := Option.bind_eq_some_iff.mp hread
    cases hread
    exact ⟨Record.regular_others _ h, fun key hkey => Record.keys_others_disjoint hkey⟩
  · -- an answer to a call
    obtain ⟨id, -, hread⟩ := Option.bind_eq_some_iff.mp hread
    obtain ⟨client, -, hread⟩ := Option.bind_eq_some_iff.mp hread
    obtain ⟨error, -, hread⟩ := Option.bind_eq_some_iff.mp hread
    obtain ⟨function, -, hread⟩ := Option.bind_eq_some_iff.mp hread
    cases hread
    exact ⟨fun v hv => h.of_get? hv, by simp [IsClear, freeMembers]⟩
  · -- an HTTP request
    obtain ⟨id, -, hread⟩ := Option.bind_eq_some_iff.mp hread
    obtain ⟨method, -, hread⟩ := Option.bind_eq_some_iff.mp hread
    obtain ⟨path, -, hread⟩ := Option.bind_eq_some_iff.mp hread
    obtain ⟨query, hquery, hread⟩ := Option.bind_eq_some_iff.mp hread
    obtain ⟨headers, hheaders, hread⟩ := Option.bind_eq_some_iff.mp hread
    cases hread
    exact ⟨⟨hmap hquery, hmap hheaders, regular_value_get? h _⟩, by simp [IsClear, freeMembers]⟩
  · -- an HTTP answer
    obtain ⟨id, -, hread⟩ := Option.bind_eq_some_iff.mp hread
    obtain ⟨status, -, hread⟩ := Option.bind_eq_some_iff.mp hread
    obtain ⟨headers, hheaders, hread⟩ := Option.bind_eq_some_iff.mp hread
    cases hread
    exact ⟨⟨hmap hheaders, regular_value_get? h _⟩, by simp [IsClear, freeMembers]⟩
  · -- a client that asks to be let in
    obtain ⟨client, -, hread⟩ := Option.bind_eq_some_iff.mp hread
    obtain ⟨remote, -, hread⟩ := Option.bind_eq_some_iff.mp hread
    obtain ⟨method, -, hread⟩ := Option.bind_eq_some_iff.mp hread
    obtain ⟨url, -, hread⟩ := Option.bind_eq_some_iff.mp hread
    obtain ⟨headers, hheaders, hread⟩ := Option.bind_eq_some_iff.mp hread
    cases hread
    exact ⟨hmap hheaders, by simp [IsClear, freeMembers]⟩
  · -- a verdict
    obtain ⟨client, -, hread⟩ := Option.bind_eq_some_iff.mp hread
    obtain ⟨status, -, hread⟩ := Option.bind_eq_some_iff.mp hread
    obtain ⟨error, -, hread⟩ := Option.bind_eq_some_iff.mp hread
    cases hread
    exact ⟨Record.regular_others _ h, fun key hkey => Record.keys_others_disjoint hkey⟩
  · -- log lines
    obtain ⟨payload, -, hread⟩ := Option.bind_eq_some_iff.mp hread
    obtain ⟨lines, -, hread⟩ := Option.bind_eq_some_iff.mp hread
    cases hread
    exact ⟨trivial, by simp [IsClear, freeMembers]⟩
  · simp at hread

/-- Whoever reads a message reads an object with a tag. -/
theorem ofMembers?_of_parse {v : Value} {m : Message} (hread : parse v = .ok m) :
    ∃ tag members, v = .object members ∧ ofMembers? tag members = some m := by
  unfold parse at hread
  split at hread
  · simp at hread
  · next tag htag =>
    cases v with
    | object members =>
      refine ⟨tag, members, rfl, ?_⟩
      split at hread
      · split at hread
        · next hof =>
          cases hread
          exact hof
        · simp at hread
      · simp at hread
    | _ => simp [claimedTag?, member?, fields?] at htag

theorem tag_of_ofMembers? {tag : String} {members : Fields} {m : Message}
    (hread : ofMembers? tag members = some m) : m.tag = tag := by
  unfold ofMembers? at hread
  split at hread <;>
    simp only [Option.bind_eq_bind, Option.bind_eq_some_iff, Option.some.injEq, reduceCtorEq,
      Option.pure_def] at hread
  all_goals grind [tag]

/-- A message that is read has the tag that its value claims. -/
theorem claimedTag?_of_parse {v : Value} {m : Message} (hread : parse v = .ok m) :
    claimedTag? v = some m.tag := by
  unfold parse at hread
  split at hread
  · cases hread
  · next tag htag =>
    split at hread
    · split at hread
      · next hof =>
        cases hread
        rw [htag, tag_of_ofMembers? hof]
      · cases hread
    · cases hread

/-- A message whose free members do not take the place of its tag is read as one of its kind. -/
theorem tag_of_parse_toValue {m read : Message} (hfree : "type" ∉ KeyMap.keys m.freeMembers)
    (hread : parse m.toValue = .ok read) : read.tag = m.tag := by
  rw [toValue, draft, parse_canonical_draft_eq (tag_mem_tags m) (type_notMem_draftMembers hfree)]
    at hread
  cases hof : ofMembers? m.tag (sortedMembers (("type", .string m.tag) :: m.draftMembers)) with
  | none => simp [hof] at hread
  | some other =>
    simp only [hof, Option.elim_some, Except.ok.injEq] at hread
    exact hread ▸ tag_of_ofMembers? hof

/-- What is known of the numbers of a value is known of those of the message that is read. -/
theorem regular_of_parse {v : Value} {m : Message} (h : v.Regular P) (hread : parse v = .ok m) :
    m.Regular P := by
  obtain ⟨tag, members, rfl, hof⟩ := ofMembers?_of_parse hread
  exact (regular_and_isClear_of_ofMembers? h hof).1

/-- No free member of a message that was read has a reserved name. -/
theorem isClear_of_parse {v : Value} {m : Message} (h : v.IsCanonical) (hread : parse v = .ok m) :
    m.IsClear := by
  obtain ⟨tag, members, rfl, hof⟩ := ofMembers?_of_parse hread
  exact (regular_and_isClear_of_ofMembers? h hof).2

/-! ## The law -/

/-- A message, whose maps are sorted, is read back from its value if and only if no free member of it
has a reserved name. Every message that is read from a value is such a message, so what was read
once is written and read again without change. -/
theorem parse_toValue_eq_ok_iff :
    (∀ m : Message, parse m.toValue = .ok m ↔ m.IsCanonical ∧ m.IsClear) ∧
      ∀ v : Value, v.IsCanonical → ∀ m, parse v = .ok m → m.IsClear ∧ parse m.toValue = .ok m := by
  refine ⟨fun m => ⟨fun hread => ?_, fun h => parse_toValue h.1 h.2⟩, fun v hv m hread => ?_⟩
  · have hvalue : m.toValue.IsCanonical := isCanonical_canonical m.draft
    exact ⟨regular_of_parse hvalue hread, isClear_of_parse hvalue hread⟩
  · have hclear : m.IsClear := isClear_of_parse hv hread
    exact ⟨hclear, parse_toValue (regular_of_parse hv hread) hclear⟩

/-- A call with one free argument, one that is lost as its argument is named like a declared member,
and a verdict that is read with a free member. -/
theorem parse_toValue_call_and_verdict :
    parse (rpcRequest { id := "1", function := "f", args := [("x", .nat 2)] }).toValue =
        .ok (rpcRequest { id := "1", function := "f", args := [("x", .nat 2)] }) ∧
      parse (rpcRequest { id := "1", function := "f", args := [("rpcId", .null)] }).toValue ≠
        .ok (rpcRequest { id := "1", function := "f", args := [("rpcId", .null)] }) ∧
      parse (authVerdict { client := "c", status := 200, extra := [("role", .null)] }).toValue =
        .ok (authVerdict { client := "c", status := 200, extra := [("role", .null)] }) := by
  have hsorted (key : String) (v : Value) (hv : v.IsCanonical) :
      (Value.object [(key, v)]).IsCanonical :=
    every_object.mpr ⟨List.pairwise_singleton _ _, by simpa using hv⟩
  let verdict : Value := .object [("clientId", .string "c"), ("role", .null),
    ("status", .nat 200), ("type", .string "ws_auth_response")]
  have hverdict : verdict.IsCanonical := by
    refine every_object.mpr ⟨?_, by simp [Value.nat]⟩
    show List.Pairwise (· < ·) ["clientId", "role", "status", "type"]
    decide
  refine ⟨(parse_toValue_eq_ok_iff.1 _).mpr ⟨hsorted "x" _ (by simp [Value.nat]), ?_⟩, fun h => ?_,
    (parse_toValue_eq_ok_iff.2 verdict hverdict _ (by rfl)).2⟩
  · simp [IsClear, freeMembers, reservedNames]
  · have hclear := ((parse_toValue_eq_ok_iff.1 _).mp h).2
    exact hclear "rpcId" (by simp [freeMembers]) (by simp [reservedNames])

end LiveDoc.Message
