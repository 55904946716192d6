import LiveDoc.Message.Frame
import LiveDoc.Proofs.Json.ReadBack
import LiveDoc.Proofs.Json.Readable
import LiveDoc.Proofs.Message.RoundTrip
import LiveDoc.Supervisor.Child

/-!
# LiveDoc — messages survive as text

An envelope holds the text of a value as a string, so it nests no deeper than one container itself,
and whether it is understood depends on the value inside alone: on its numbers and on how deep it
nests. The same holds for a message on a line of its own.

* `Envelope.decode_encode_eq`, `Envelope.decode_encode` — what is read from an envelope.
* `Message.IsWritable` — messages that are read from their lines and frames alike.
* `RpcResponse.parse_toValue` — a reply whose result can be written is read back.
* `parseLine_line` — which messages are read back from their lines.
* `ofMembers?_of_parseLine` — what is read from the line of any message.
* `ChannelFrame.read?_line_eq`, `ChannelFrame.read?_line` — what a backend reads from a line of its
  supervisor.
-/

namespace LiveDoc

open Json Json.Value

theorem Json.Number.readsBack_nat {n : Nat} (h : n < UInt64.size) : (Number.int n).ReadsBack := by
  refine Number.readsBack_int ⟨by omega, ?_⟩
  have hsize : UInt64.size = 18446744073709551616 := rfl
  omega

@[simp] theorem Json.Value.reread_nat (limit : Nat) {n : Nat} (h : n < UInt64.size) :
    (Value.nat n).reread limit = .nat n := by
  have hnumbers : (Value.nat n).AllNumbers Number.ReadsBack :=
    every_number.mpr (Number.readsBack_nat h)
  rw [reread_eq_canonical hnumbers (by simp [depth, Value.nat]), canonical_nat]

/-- An envelope gives what is read from the text of the value in it. -/
theorem Envelope.decode_encode_eq (v : Value) :
    Envelope.decode (Envelope.encode v) =
      (parse? v.text).elim (.error (.invalidPayload unreadable)) .ok := by
  let envelope : Fields := [("payload", .string v.text), ("v", .nat protocolVersion)]
  have hsorted : KeyMap.Sorted envelope := by
    show List.Pairwise (· < ·) ["payload", "v"]
    decide
  have hregular : (Value.object envelope).Regular Number.ReadsBack := by
    refine every_object.mpr ⟨hsorted, ?_⟩
    simpa [envelope, Value.nat] using Number.readsBack_nat (n := protocolVersion) (by decide)
  have hdepth : (Value.object envelope).depth ≤ maxDepth := by
    simp [envelope, depth, membersDepth, Value.nat, maxDepth]
  have houter : parse? (Envelope.encode v) = some (.object envelope) := by
    rw [Envelope.encode, parse?_text hregular.allNumbers, if_pos hdepth,
      canonical_eq_self hregular]
  have hversion : KeyMap.get? envelope "v" = some (.nat protocolVersion) := rfl
  have hpayload : KeyMap.get? envelope "payload" = some (.string v.text) := rfl
  rw [Envelope.decode, houter]
  simp only [hversion, hpayload]
  cases parse? v.text <;> simp [nat?, Value.nat]

/-- An envelope gives back the canonical form of its value, or refuses it for its depth alone. -/
theorem Envelope.decode_encode {v : Value} (h : v.AllNumbers Number.ReadsBack) :
    Envelope.decode (Envelope.encode v) =
      if v.depth ≤ maxDepth then .ok v.canonical else .error (.invalidPayload unreadable) := by
  rw [decode_encode_eq, parse?_text h]
  split <;> rfl

/-- What is read from a line, if its numbers read back and it nests no deeper than a value may. -/
theorem parseLine_line_eq {m : Message} (hnumbers : m.draft.AllNumbers Number.ReadsBack)
    (hdepth : m.draft.depth ≤ maxDepth) : parseLine m.line = Message.parse m.toValue := by
  rw [parseLine, Message.line, parse?_text hnumbers, if_pos hdepth]
  rfl

/-- The members of the message can be written inside an object and read from it. -/
def Message.IsWritable (m : Message) : Prop :=
  ∀ member ∈ m.draftMembers, member.2.Regular Number.ReadsBack ∧ member.2.depth < maxDepth

namespace Message.IsWritable

variable {m : Message} (h : m.IsWritable)
include h

theorem allNumbers_draft : m.draft.AllNumbers Number.ReadsBack := by
  refine every_object.mpr ⟨trivial, fun member hmem => ?_⟩
  rcases List.mem_cons.mp hmem with rfl | hmem
  · exact every_string _
  · exact (h member hmem).1.allNumbers

theorem depth_draft : m.draft.depth ≤ maxDepth := by
  rw [draft, depth, maxDepth, Nat.succ_le_succ_iff, membersDepth_le_iff]
  intro member hmem
  rcases List.mem_cons.mp hmem with rfl | hmem
  · exact Nat.zero_le _
  · exact Nat.le_of_lt_succ (h member hmem).2

/-- A writable message is read from its line as from its value. -/
theorem parseLine_line : parseLine m.line = parse m.toValue :=
  parseLine_line_eq h.allNumbers_draft h.depth_draft

theorem regular_toValue : m.toValue.Regular Number.ReadsBack :=
  (isCanonical_canonical m.draft).regular h.allNumbers_draft.canonical

theorem decode_envelope : Envelope.decode m.encode = .ok m.toValue := by
  have hdepth : m.toValue.depth ≤ maxDepth := (depth_canonical_le m.draft).trans h.depth_draft
  rw [encode, Envelope.decode_encode h.regular_toValue.allNumbers, if_pos hdepth,
    canonical_eq_self h.regular_toValue]

theorem decode_encode : decode m.encode = parse m.toValue := by
  rw [decode, h.decode_envelope]
  rfl

end Message.IsWritable

namespace RpcResponse

variable {reply : RpcResponse}

/-- The result, if there is one, can be written inside a message and read from it. -/
def HasWritableResult (reply : RpcResponse) : Prop :=
  ∀ v, reply.result = some v → v.Regular Number.ReadsBack ∧ v.depth < maxDepth

theorem isWritable (h : reply.HasWritableResult) : (Message.rpcResponse reply).IsWritable := by
  intro member hmem
  simp only [Message.draftMembers, Message.optionalMember, List.mem_cons, List.mem_append,
    List.mem_map, Option.mem_toList, Option.map_eq_some_iff] at hmem
  -- All members are texts, or null, but for the result.
  rcases hmem with rfl | rfl | (⟨v, hv, rfl⟩ | ⟨_, ⟨text, -, rfl⟩, rfl⟩) | ⟨_, ⟨text, -, rfl⟩, rfl⟩
  · exact ⟨every_string _, by simp [depth, maxDepth]⟩
  · cases reply.client
    · exact ⟨every_null, by simp [ofText?, depth, maxDepth]⟩
    · exact ⟨every_string _, by simp [ofText?, depth, maxDepth]⟩
  · exact h v hv
  · exact ⟨every_string _, by simp [depth, maxDepth]⟩
  · exact ⟨every_string _, by simp [depth, maxDepth]⟩

theorem parse_toValue (h : reply.HasWritableResult) :
    Message.parse (Message.rpcResponse reply).toValue = .ok (.rpcResponse reply) :=
  Message.parse_toValue_rpcResponse fun v hv => (h v hv).1.isCanonical

end RpcResponse

namespace RpcRequest

variable {request : RpcRequest}

/-- The arguments can be written inside a message and read from it. -/
structure HasWritableArgs (request : RpcRequest) : Prop where
  sorted : KeyMap.Sorted request.args
  member : ∀ arg ∈ request.args, arg.2.Regular Number.ReadsBack ∧ arg.2.depth < maxDepth

theorem isWritable (h : request.HasWritableArgs) : (Message.rpcRequest request).IsWritable := by
  intro member hmem
  simp only [Message.draftMembers, List.mem_cons] at hmem
  rcases hmem with rfl | rfl | hmem
  · exact ⟨every_string _, by simp [depth, maxDepth]⟩
  · exact ⟨every_string _, by simp [depth, maxDepth]⟩
  · exact h.member member hmem

theorem isCanonical (h : request.HasWritableArgs) : (Message.rpcRequest request).IsCanonical :=
  every_object.mpr ⟨h.sorted, fun arg hmem => (h.member arg hmem).1.isCanonical⟩

end RpcRequest

/-- A value that is read back from its line is read back as the message it was written for. -/
theorem parseLine_line {m : Message} (hcanonical : m.IsCanonical) (hclear : m.IsClear)
    (hnumbers : m.draft.AllNumbers Number.ReadsBack) (hdepth : m.draft.depth ≤ maxDepth) :
    parseLine m.line = .ok m := by
  rw [parseLine_line_eq hnumbers hdepth]
  exact Message.parse_toValue hcanonical hclear

/-- The first line of a child reads as the one that says that it is ready. -/
theorem parseLine_ready : parseLine Message.ready.line = .ok .ready := by
  have hwritable : Message.ready.IsWritable := nofun
  rw [hwritable.parseLine_line]
  rfl

/-- What is read from a line, whether or not it is what was written. If no free member is named like
the tag, the message has the same tag, and its fields are what was listed last by their names. -/
theorem ofMembers?_of_parseLine {m read : Message} (htype : "type" ∉ KeyMap.keys m.draftMembers)
    (h : parseLine m.line = .ok read) :
    ∃ members, Message.ofMembers? m.tag members = some read ∧ ∀ key ≠ "type",
      KeyMap.get? members key =
        (KeyMap.get? m.draftMembers.reverse key).map (Value.reread (maxDepth - 1)) := by
  rw [parseLine, Message.line] at h
  split at h
  · next v hread =>
    obtain ⟨members, rfl, hget⟩ := parse?_object_text hread
    obtain ⟨tag, members', hmembers, hof⟩ := Message.ofMembers?_of_parse h
    cases hmembers
    have habsent : KeyMap.get? m.draftMembers.reverse "type" = none :=
      KeyMap.get?_reverse_eq_none_iff.mpr htype
    have htag : KeyMap.get? members "type" = some (.string m.tag) := by
      rw [hget, List.reverse_cons, KeyMap.get?_append, habsent]
      simp [KeyMap.get?]
    have hclaimed := Message.claimedTag?_of_parse h
    have heq : m.tag = read.tag := by
      simpa [Message.claimedTag?, member?, fields?, htag, text?] using hclaimed
    rw [← Message.tag_of_ofMembers? hof, ← heq] at hof
    refine ⟨members, hof, fun key hkey => ?_⟩
    rw [hget, List.reverse_cons, KeyMap.get?_append]
    simp [KeyMap.get?, Ne.symm hkey]
  · cases h

/-- A message is read from a line by way of a value. -/
theorem exists_value_of_parseLine {line : String} {m : Message} (h : parseLine line = .ok m) :
    ∃ v : Value, v.Regular Number.Fits ∧ Message.parse v = .ok m := by
  unfold parseLine at h
  split at h
  · next v hv => exact ⟨v, parse?_regular hv, h⟩
  · cases h

/-- Whatever is read from a line is regular, and its numbers fit. -/
theorem regular_of_parseLine {line : String} {m : Message} (h : parseLine line = .ok m) :
    m.Regular Number.Fits := by
  obtain ⟨v, hv, hread⟩ := exists_value_of_parseLine h
  exact Message.regular_of_parse hv hread

/-- Whatever is read from a line is canonical, however the line ordered its members. -/
theorem isCanonical_of_parseLine {line : String} {m : Message} (h : parseLine line = .ok m) :
    m.IsCanonical := by
  obtain ⟨v, hv, hread⟩ := exists_value_of_parseLine h
  exact Message.regular_of_parse hv.isCanonical hread

/-! ## Lines from the supervisor -/

theorem Json.Node.keyed?_memberNodes (members : Fields) :
    Node.keyed? (memberNodes members) =
      some (members.map fun entry => (entry.1, entry.2.toNode)) := by
  induction members with
  | nil => rfl
  | cons entry rest ih => simp [memberNodes, Node.keyed?, Node.text?_ofChar, ih]

theorem Json.Node.fields?_toNode (names : List String) (members : Fields) :
    (Value.object members).toNode.fields? names =
      names.mapM (field? (members.map fun entry => (entry.1, entry.2.toNode))) := by
  rw [toNode, fields?, keyed?_memberNodes]
  rfl

/-- What is known of a message is read back from its record. -/
theorem MessageMeta.ofNode?_toNode {limit : Nat} (hlimit : limit ≠ 0) (m : MessageMeta) :
    ofNode? limit m.draft.toNode = some (some m) := by
  have hword (n : UInt64) : (Value.nat n.toNat).toNode.value? (limit - 1) = some (.nat n.toNat) := by
    have hnumbers : (Value.nat n.toNat).AllNumbers Number.ReadsBack :=
      every_number.mpr (Number.readsBack_nat n.toNat_lt)
    rw [denotes_toNode hnumbers, if_pos (by simp [depth, Value.nat]), canonical_nat]
  have htext (text : String) :
      (Value.string text).toNode.value? (limit - 1) = some (.string text) := by
    rw [toNode, Node.value?, Node.text?_ofChar]
    rfl
  have hfields : m.draft.toNode.fields? fieldNames =
      some [some (Value.string m.client).toNode, some (Value.string m.remote).toNode,
        some (Value.nat m.connectedAt.toNat).toNode, some (Value.nat m.receivedAt.toNat).toNode,
        some (Value.nat m.rawLength.toNat).toNode] := by
    rw [draft, Node.fields?_toNode]
    simp [fieldNames, Node.field?]
  rw [ofNode?, hfields]
  · simp [hlimit, readFields?, htext, hword, ofFields?]
  · rw [draft, toNode]
    simp

/-- What a backend reads from a line: where the message comes from is as the supervisor knows it,
whatever the message holds. -/
theorem ChannelFrame.read?_line_eq (f : ChannelFrame) :
    read? f.line = (f.message.toNode.value? (maxDepth - 1)).map fun v => { f with message := v } := by
  have hfields : f.draft.toNode.fields? ["message", "meta"] =
      some [some f.message.toNode, some ((f.origin.map MessageMeta.draft).getD .null).toNode] := by
    rw [draft, Node.fields?_toNode]
    simp [Node.field?]
  have horigin : MessageMeta.ofNode? (maxDepth - 1)
      ((f.origin.map MessageMeta.draft).getD .null).toNode = some f.origin := by
    cases f.origin with
    | none => simp [toNode, MessageMeta.ofNode?]
    | some m => exact m.ofNode?_toNode (by decide)
  rw [read?, line, node?_text]
  simp only [hfields, horigin, Option.bind_eq_bind, Option.bind_some, Option.pure_def]
  cases f.message.toNode.value? (maxDepth - 1) <;> rfl

/-- A line is read as the frame that it was written for, if the message nests one container less
than a value may. -/
theorem ChannelFrame.read?_line {f : ChannelFrame} (h : f.message.Regular Number.ReadsBack) :
    read? f.line = if f.message.depth < maxDepth then some f else none := by
  rw [read?_line_eq, denotes_toNode h.allNumbers, canonical_eq_self h]
  by_cases hdepth : f.message.depth < maxDepth
  · rw [if_pos hdepth, if_pos (Nat.le_sub_one_of_lt hdepth), Option.map_some]
  · rw [if_neg hdepth, if_neg (by rw [maxDepth] at *; omega), Option.map_none]

end LiveDoc
