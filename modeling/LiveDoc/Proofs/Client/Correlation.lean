import LiveDoc.Proofs.Backend.Replies
import LiveDoc.Proofs.Client.Steps

/-!
# LiveDoc — a call and its reply

The arguments of a call travel beside its id, its function and its tag, in one object. An argument
by one of these three names takes the place of what the client put there: the call is then asked
under another id or of another function, or is no call any more. The client still waits under the id
that it chose, so the reply, which repeats the id that the backend read, ends this call only if the
two are the same.

* `RpcRequest.IsReadAs` — which call is read from the frame of a call.
* `RpcRequest.isReadAs_self_iff` — a call is read as it is if no argument has one of these names.
* `RpcRequest.ComesBackAs` — what becomes of the reply to it.
* `Client.call_correlates` — the two together, for every call with arguments that can be written.
* `Client.exists_call_under_other_id` — an argument by the name of the id, and a call that waits on.
-/

namespace LiveDoc

open Json Json.Value

namespace RpcRequest

variable {request read : RpcRequest}

/-! ## On the way to the backend -/

/-- Which call is read from the frame of a call: the arguments by the names of its tag, its id and
its function stand in their places. -/
structure IsReadAs (request read : RpcRequest) : Prop where
  tag : ((KeyMap.get? request.args "type").getD (.string "rpc_request")).text? =
    some "rpc_request"
  id : ((KeyMap.get? request.args "rpcId").getD (.string request.id)).text? = some read.id
  function : ((KeyMap.get? request.args "fnName").getD (.string request.function)).text? =
    some read.function
  args : read.args = Record.others ["type", "rpcId", "fnName"] request.args

theorem toValue_eq (request : RpcRequest) :
    (Message.rpcRequest request).toValue = .object (sortedMembers
      (("type", .string "rpc_request") :: (Message.rpcRequest request).draftMembers)) := by
  rw [Message.toValue, Message.draft, canonical_object]
  rfl

/-- An argument by the name of the tag is taken for the tag. -/
theorem claimedTag?_toValue (h : request.HasWritableArgs) :
    Message.claimedTag? (Message.rpcRequest request).toValue =
      ((KeyMap.get? request.args "type").getD (.string "rpc_request")).text? := by
  let declared : Fields := [("type", .string "rpc_request"), ("rpcId", .string request.id),
    ("fnName", .string request.function)]
  have htype : KeyMap.get? (sortedMembers (declared ++ request.args)) "type" =
      some ((KeyMap.get? request.args "type").getD (.string "rpc_request")) := by
    rw [Message.get?_sortedMembers_append (isCanonical h)]
    simp [declared, KeyMap.get?]
  rw [toValue_eq]
  show (KeyMap.get? (sortedMembers (declared ++ request.args)) "type").bind text? = _
  rw [htype, Option.bind_some]

theorem parse_eq_ok_iff (h : request.HasWritableArgs) :
    Message.parse (Message.rpcRequest request).toValue = .ok (.rpcRequest read) ↔
      request.IsReadAs read := by
  have hclaimed := claimedTag?_toValue h
  by_cases htag : Message.claimedTag? (Message.rpcRequest request).toValue = some "rpc_request"
  · have hparse : Message.parse (Message.rpcRequest request).toValue =
        (Message.ofMembers? "rpc_request" (sortedMembers (("type", .string "rpc_request") ::
          (Message.rpcRequest request).draftMembers))).elim
            (.error (.invalidPayload unreadable)) .ok := by
      rw [toValue_eq] at htag ⊢
      exact Message.parse_object_eq (by decide) htag
    rw [hparse, Message.ofMembers?_rpcRequest (isCanonical h)]
    constructor
    · intro hread
      cases hid : ((KeyMap.get? request.args "rpcId").getD (.string request.id)).text? with
      | none => simp [hid] at hread
      | some id =>
        cases hfunction : ((KeyMap.get? request.args "fnName").getD
            (.string request.function)).text? with
        | none => simp [hid, hfunction] at hread
        | some function =>
          simp only [hid, hfunction, Option.map_some, Option.bind_some, Option.elim_some,
            Except.ok.injEq, Message.rpcRequest.injEq] at hread
          subst hread
          exact ⟨hclaimed ▸ htag, hid, hfunction, rfl⟩
    · rintro ⟨-, hid, hfunction, hargs⟩
      obtain ⟨id, function, args⟩ := read
      simp only at hid hfunction hargs
      rw [hid, hfunction, hargs]
      rfl
  · refine ⟨fun hread => absurd (Message.claimedTag?_of_parse hread) htag, fun hread => ?_⟩
    exact absurd (hclaimed.trans hread.tag) htag

/-- A call is read as it is if and only if no argument has the name of its tag, its id or its
function. -/
theorem isReadAs_self_iff (h : request.HasWritableArgs) :
    request.IsReadAs request ↔ (Message.rpcRequest request).IsClear := by
  rw [← parse_eq_ok_iff h]
  exact ⟨fun hread => Message.isClear_of_parse (isCanonical_canonical _) hread,
    Message.parse_toValue_rpcRequest (isCanonical h)⟩

/-! ## And back -/

/-- What a backend is asked that reads the call. -/
def asked (request : RpcRequest) (origin : MessageMeta) : RpcCall where
  id := request.id
  function := request.function
  args := request.args
  origin := some origin

/-- What becomes of a call that is read as another one, or as itself. -/
structure ComesBackAs (request read : RpcRequest) : Prop where
  -- The backend answers what was read, unless the line to it nests one container too deep.
  answered : ∀ (b : Backend) (origin : MessageMeta) (payload : Value),
    Envelope.decode (Message.rpcRequest request).encode = .ok payload →
      b.answerLine (ChannelFrame.line { message := payload, origin := some origin }) =
        if payload.depth < maxDepth then
          (b.call (read.asked origin)).1.map .apply ++
            (b.call (read.asked origin)).2.toList.map .rpcResponse
        else []
  -- A reply repeats the id that was read, and is for the client that the call came from.
  addressed : ∀ (b : Backend) (origin : MessageMeta) (reply : RpcResponse),
    (b.call (read.asked origin)).2 = some reply →
      reply.id = read.id ∧ reply.client = some origin.client
  -- Only a call whose handler crashes as it is called has none.
  dropped : ∀ (b : Backend) (origin : MessageMeta),
    (b.call (read.asked origin)).2 = none ↔ b.Drops (read.asked origin)
  -- The reply survives its frame, if its result can be written.
  carried : ∀ (b : Backend) (origin : MessageMeta) (reply : RpcResponse),
    (b.call (read.asked origin)).2 = some reply → reply.HasWritableResult →
      RpcResponse.ofFrame? (Message.rpcResponse reply).encode = some reply
  -- A frame with a reply under this id ends the call that a client has under it, and no other.
  ended : ∀ (c : Client) (text : String) (reply : RpcResponse), c.isOnline →
    RpcResponse.ofFrame? text = some reply → reply.id = read.id →
      (c.step (.frame text)).1 =
          (if KeyMap.hasKey c.pending read.id then
            [{ id := read.id, outcome := Client.outcomeOf reply }]
          else []) ∧
        (c.step (.frame text)).2.pending = KeyMap.erase c.pending read.id

/-- A backend answers the call that it reads. -/
theorem IsReadAs.answerLine (h : request.IsReadAs read) (hargs : request.HasWritableArgs)
    (b : Backend) (origin : MessageMeta) :
    b.answerLine (ChannelFrame.line
        { message := (Message.rpcRequest request).toValue, origin := some origin }) =
      if (Message.rpcRequest request).toValue.depth < maxDepth then
        (b.call (read.asked origin)).1.map .apply ++
          (b.call (read.asked origin)).2.toList.map .rpcResponse
      else [] := by
  have hparse : Message.parse (Message.rpcRequest request).toValue = .ok (.rpcRequest read) :=
    (parse_eq_ok_iff hargs).mpr h
  rw [Backend.answerLine_line, ChannelFrame.read?_line (isWritable hargs).regular_toValue]
  by_cases hdepth : (Message.rpcRequest request).toValue.depth < maxDepth
  · simp only [if_pos hdepth, Option.elim_some, Backend.replies, Backend.handle, hparse]
    cases hreply : (b.call (read.asked origin)).2 <;>
      simp [asked] at hreply ⊢ <;> simp [hreply]
  · simp only [if_neg hdepth, Option.elim_none]

end RpcRequest

/-- A frame with a response ends the call with its id, if that is pending, and no other call. -/
theorem Client.step_frame_of_response {c : Client} {text : String} {response : RpcResponse}
    (honline : c.isOnline) (h : RpcResponse.ofFrame? text = some response) :
    (c.step (.frame text)).1 =
        (if KeyMap.hasKey c.pending response.id then
          [{ id := response.id, outcome := outcomeOf response }]
        else []) ∧
      (c.step (.frame text)).2.pending = KeyMap.erase c.pending response.id := by
  rw [step, if_pos honline, receive_of_some h, resolve]
  by_cases hkey : KeyMap.hasKey c.pending response.id
  · simp [hkey]
  · have habsent : KeyMap.get? c.pending response.id = none := by
      simpa [KeyMap.hasKey] using hkey
    simp [hkey, KeyMap.erase_eq_self habsent]

theorem RpcRequest.IsReadAs.comesBackAs {request read : RpcRequest} (h : request.IsReadAs read)
    (hargs : request.HasWritableArgs) : request.ComesBackAs read where
  answered b origin payload hpayload := by
    rw [(isWritable hargs).decode_envelope] at hpayload
    cases hpayload
    exact h.answerLine hargs b origin
  addressed b origin reply := Backend.of_call_eq_some
  dropped b origin := b.call_eq_none_iff _
  carried b origin reply _ := RpcResponse.ofFrame?_encode
  ended c text reply honline hread hid := hid ▸ Client.step_frame_of_response honline hread

/-! ## The law -/

/-- A call that is sent is pending under its id, and its frame is read as it is if and only if no
argument has the name of its tag, its id or its function. In general an argument by such a name
takes the place of what the client put there. The backend answers the call that was read, and the
reply ends the call that is pending under the id that was read: this call, if it was read as it
is. -/
theorem Client.call_correlates {c c' : Client} {request : RpcRequest} {frame : String}
    (hargs : request.HasWritableArgs) (hcall : c.call request = some (frame, c')) :
    KeyMap.get? c'.pending request.id = some request.function ∧
      (Message.decode frame = .ok (.rpcRequest request) ↔ (Message.rpcRequest request).IsClear) ∧
      ∀ read, (Message.decode frame = .ok (.rpcRequest read) ↔ request.IsReadAs read) ∧
        (request.IsReadAs read → request.ComesBackAs read) := by
  unfold call at hcall
  split at hcall
  · obtain ⟨rfl, rfl⟩ := Prod.mk.inj (Option.some.inj hcall)
    have hread : ∀ read, Message.decode (Message.rpcRequest request).encode =
        .ok (.rpcRequest read) ↔ request.IsReadAs read := fun read => by
      rw [(RpcRequest.isWritable hargs).decode_encode, RpcRequest.parse_eq_ok_iff hargs]
    exact ⟨KeyMap.get?_set_self _ _ _, (hread request).trans (RpcRequest.isReadAs_self_iff hargs),
      fun read => ⟨hread read, fun h => h.comesBackAs hargs⟩⟩
  · cases hcall

/-- A call with an argument of its own name is read as it is, and its reply ends it. -/
theorem Client.call_correlates_free_argument :
    let request : RpcRequest := { id := "7", function := "f", args := [("x", .nat 2)] }
    let reply : RpcResponse := .success "7" (some "a") (.nat 1)
    ∃ frame c', request.HasWritableArgs ∧
      ({ state := .connected } : Client).call request = some (frame, c') ∧
      Message.decode frame = .ok (.rpcRequest request) ∧
      (c'.step (.frame (Message.rpcResponse reply).encode)).1 =
        [{ id := "7", outcome := .ok (.nat 1) }] := by
  intro request reply
  have hnat (n : Nat) (hn : n < UInt64.size) :
      (Value.nat n).Regular Number.ReadsBack ∧ (Value.nat n).depth < maxDepth :=
    ⟨every_number.mpr (Number.readsBack_nat hn), by simp [depth, Value.nat, maxDepth]⟩
  have hargs : request.HasWritableArgs :=
    ⟨List.pairwise_singleton _ _, by simpa [request] using hnat 2 (by decide)⟩
  have hclear : (Message.rpcRequest request).IsClear := by
    simp [Message.IsClear, Message.freeMembers, Message.reservedNames, request]
  have hresult : reply.HasWritableResult := by
    intro v hv
    cases hv
    exact hnat 1 (by decide)
  let c' : Client := { state := .connected, pending := [("7", "f")], stats := { calls := 1 } }
  have hcall : ({ state := .connected } : Client).call request =
      some ((Message.rpcRequest request).encode, c') := rfl
  obtain ⟨-, hread, hback⟩ := call_correlates hargs hcall
  have hself := (hback request).1.mp (hread.mpr hclear)
  have hframe := RpcResponse.ofFrame?_encode hresult
  have hended := ((hback request).2 hself).ended c' _ reply rfl hframe rfl
  exact ⟨_, c', hargs, hcall, hread.mpr hclear, hended.1⟩

/-- A call with an argument by the name of its id is read as one under another id. Every backend
answers under that id, and the client waits on when the reply has come. A call with an argument by
the name of its tag is read as another message. -/
theorem Client.exists_call_under_other_id :
    let request : RpcRequest := { id := "7", function := "f", args := [("rpcId", .string "x")] }
    let greeting : RpcRequest := { id := "8", function := "f", args := [("type", .string "ready")] }
    let read : RpcRequest := { id := "x", function := "f", args := [] }
    (request.HasWritableArgs ∧ greeting.HasWritableArgs) ∧
      Message.decode (Message.rpcRequest greeting).encode = .ok .ready ∧
      ∃ frame c', ({ state := .connected } : Client).call request = some (frame, c') ∧
        Message.decode frame = .ok (.rpcRequest read) ∧
        ∀ (b : Backend) (origin : MessageMeta) (reply : RpcResponse) (text : String),
          (b.call (read.asked origin)).2 = some reply → RpcResponse.ofFrame? text = some reply →
            (c'.step (.frame text)).1 = [] ∧
              KeyMap.get? (c'.step (.frame text)).2.pending "7" = some "f" := by
  intro request greeting read
  have hargs (id name text : String) :
      ({ id, function := "f", args := [(name, .string text)] } : RpcRequest).HasWritableArgs :=
    ⟨List.pairwise_singleton _ _, by simp [depth, maxDepth]⟩
  have hread : request.IsReadAs read := ⟨rfl, rfl, rfl, rfl⟩
  have hback := hread.comesBackAs (hargs "7" "rpcId" "x")
  let waiting : Client := { state := .connected, pending := [("7", "f")], stats := { calls := 1 } }
  refine ⟨⟨hargs "7" _ _, hargs "8" _ _⟩, ?_, (Message.rpcRequest request).encode, waiting, rfl, ?_,
    fun b origin reply text hreply htext => ?_⟩
  · rw [(RpcRequest.isWritable (hargs "8" "type" "ready")).decode_encode]
    rfl
  · rw [(RpcRequest.isWritable (hargs "7" "rpcId" "x")).decode_encode,
      RpcRequest.parse_eq_ok_iff (hargs "7" "rpcId" "x")]
    exact hread
  · obtain ⟨hended, hpending⟩ :=
      hback.ended waiting text reply rfl htext (hback.addressed b origin reply hreply).1
    exact ⟨hended, by rw [hpending]; rfl⟩

end LiveDoc
