import LiveDoc.Proofs.Fanout.Delivery
import LiveDoc.Proofs.Message.Frames
import LiveDoc.Proofs.Supervisor.Lines

/-!
# LiveDoc — replies go to the caller

A client chooses all that a call holds, and its members become the arguments of a function. Only two
of them are looked at on the way back: the id, which the reply repeats, and the function, which may
be in its error. Where the reply goes is said by the origin, which the supervisor adds to the line
and no member of the call can touch. The reply is written and read without loss, and becomes one
frame for one client.

* `ChannelFrame.of_read?` — what a backend knows of a call.
* `Backend.of_call_eq_some`, `Backend.call_eq_none_iff` — what a reply is made of, whatever the
  handler does, and which calls have none.
* `Pump.queue_handle_unicast` — a frame for one client meets no queue but that of this client.
* `Backend.reply_goes_to_caller` — the way of a call and back.
-/

namespace LiveDoc

open Json Json.Value

/-! ## A call on its way to the backend -/

/-- The id of a call and the function that it asks for, if it has both. -/
def calledIn? (payload : Value) : Option (String × String) := do
  let id ← (payload.member? "rpcId").bind text?
  let function ← (payload.member? "fnName").bind text?
  return (id, function)

/-- Only calls are written to the child on behalf of a client, as they are and with their origin. -/
theorem Supervisor.of_write {s : Supervisor} {payload : Value} {origin : MessageMeta}
    {generation : Nat} {frame : ChannelFrame}
    (h : .write generation frame ∈ (s.handleServer (.incoming payload origin)).1) :
    Message.claimedTag? payload = some "rpc_request" ∧
      frame = { message := payload, origin := some origin } := by
  unfold handleServer at h
  split at h
  · rw [Relay.frame?] at h
    split at h
    · next hframe =>
      split at hframe
      · next htag =>
        cases hframe
        unfold forward at h
        split at h
        · cases List.mem_singleton.mp h
          exact ⟨htag, rfl⟩
        · cases h
      · cases hframe
    · cases h
  · obtain ⟨relay, -, hrelay⟩ := List.mem_map.mp h
    cases hrelay

/-- A backend knows the origin of a call from the supervisor, and the texts in it from the call. -/
theorem ChannelFrame.of_read? {payload : Value} {origin : MessageMeta} {read : ChannelFrame}
    (hpayload : payload.IsCanonical) (htag : Message.claimedTag? payload = some "rpc_request")
    (h : read? (line { message := payload, origin := some origin }) = some read) :
    read.origin = some origin ∧ ∃ members, read.message = .object members ∧
      ∀ key, (KeyMap.get? members key).bind text? = (payload.member? key).bind text? := by
  rw [read?_line_eq] at h
  obtain ⟨v, hv, rfl⟩ := Option.map_eq_some_iff.mp h
  cases payload with
  | object source =>
    obtain ⟨members, rfl, hget⟩ := exists_object_of_value? hv
    refine ⟨rfl, members, rfl, fun key => ?_⟩
    rw [hget, KeyMap.Sorted.get?_reverse (every_object.mp hpayload).1, Option.bind_map]
    exact Option.bind_congr fun v _ => text?_reread _ v
  | _ => simp [Message.claimedTag?, member?, fields?] at htag

/-- The message in a forwarded call is a call if it has an id and a function, and no message
otherwise. -/
theorem ChannelFrame.parse_of_read? {payload : Value} {origin : MessageMeta} {read : ChannelFrame}
    (hpayload : payload.IsCanonical) (htag : Message.claimedTag? payload = some "rpc_request")
    (h : read? (line { message := payload, origin := some origin }) = some read) :
    ∃ args, Message.parse read.message =
      (calledIn? payload).elim (.error (.invalidPayload unreadable)) fun called =>
        .ok (.rpcRequest { id := called.1, function := called.2, args }) := by
  obtain ⟨-, members, hmessage, htext⟩ := of_read? hpayload htag h
  have htype : (KeyMap.get? members "type").bind text? = some "rpc_request" :=
    (htext "type").trans htag
  refine ⟨Record.others ["type", "rpcId", "fnName"] members, ?_⟩
  rw [hmessage, Message.parse_object_eq (by decide) htype]
  simp only [Message.ofMembers?, Record.text?, htext, calledIn?]
  cases (payload.member? "rpcId").bind text? with
  | none => rfl
  | some id => cases (payload.member? "fnName").bind text? <;> rfl

/-! ## The reply -/

/-- The handler of the call crashes as it is called. -/
def Backend.Drops (b : Backend) (call : RpcCall) : Prop :=
  ∃ handler, KeyMap.get? b.functions call.function = some handler ∧
    (handler call).outcome = .uncaught

/-- Only a call whose handler crashes as it is called has no reply. -/
theorem Backend.call_eq_none_iff (b : Backend) (call : RpcCall) :
    (b.call call).2 = none ↔ b.Drops call := by
  unfold Backend.call Drops
  cases KeyMap.get? b.functions call.function with
  | none => simp
  | some handler => cases houtcome : (handler call).outcome <;> simp [rpcReply, houtcome]

/-- A reply repeats the id of the call and names the client that the call came from. -/
theorem Backend.of_call_eq_some {b : Backend} {call : RpcCall} {reply : RpcResponse}
    (h : (b.call call).2 = some reply) :
    reply.id = call.id ∧ reply.client = call.origin.map (·.client) := by
  unfold Backend.call at h
  split at h
  · next handler hhandler =>
    cases houtcome : (handler call).outcome with
    | uncaught => simp [rpcReply, houtcome] at h
    | _ =>
      simp only [rpcReply, houtcome, Option.some.injEq] at h
      subst h
      exact ⟨rfl, rfl⟩
  · cases h
    exact ⟨rfl, rfl⟩

/-! ## The reply on its way to the caller -/

namespace Pump

variable {φ : Type} {p : Pump φ} {a : Attachment} {n : Nat}

theorem queue_serve_of_ne (h : a.queue ≠ n) : (p.serve a).queue n = p.queue n := by
  unfold serve
  split
  · exact p.queue_deliver_of_ne h _
  · rfl

theorem queue_evict_of_ne (h : a.queue ≠ n) : (p.evict a).queue n = p.queue n := by
  show (p.updateQueue a.queue Queue.evict).queue n = p.queue n
  rw [queue_updateQueue, if_neg fun hmet => h hmet.1]

/-- The end of a command meets those alone whose delivery failed. -/
theorem queue_finish_of_ne {r : Round φ} (hround : p.round = some r)
    (hrefresh : r.isRefresh = false) (hfailed : ∀ a ∈ r.failed, a.queue ≠ n) :
    p.finish.queue n = p.queue n := by
  have hevict : ∀ (failed : List Attachment) (p : Pump φ), (∀ a ∈ failed, a.queue ≠ n) →
      (failed.foldl evict p).queue n = p.queue n := by
    intro failed
    induction failed with
    | nil => exact fun _ _ => rfl
    | cons a rest ih =>
      intro p h
      rw [List.foldl_cons, ih _ fun b hb => h b (List.mem_cons_of_mem _ hb),
        queue_evict_of_ne (h a List.mem_cons_self)]
  simp only [finish, hround, hrefresh, Bool.false_eq_true, if_false]
  exact hevict r.failed _ hfailed

/-- A frame for one client meets no queue but that of this client. -/
theorem queue_handle_unicast (hidle : p.round = none) {client : String} (frame : φ)
    (hn : ∀ a, KeyMap.get? p.table client = some a → a.queue ≠ n) :
    (p.handle (.unicast client frame)).queue n = p.queue n := by
  rw [handle, start]
  split
  · simp [discard, complete, hidle]
  · simp only
    cases hget : KeyMap.get? p.table client with
    | none => simp [complete, hidle, queue]
    | some a =>
      let r : Round φ := { frame, targets := [a] }
      let sending : Pump φ :=
        { p with stats := { p.stats with unicasts := p.stats.unicasts + 1 }, round := some r }
      have ha : a.queue ≠ n := hn a hget
      obtain ⟨delivery, hround⟩ := round_serve (p := sending) (r := r) rfl a
      -- At most this client is evicted.
      have hfailed : ∀ b ∈ (r.settle a delivery).failed, b.queue ≠ n := by
        intro b hb
        have hb : b = a := by cases delivery <;> simp_all [Round.settle, r]
        rwa [hb]
      calc (sending.serve a).finish.queue n
          = (sending.serve a).queue n := queue_finish_of_ne hround rfl hfailed
        _ = p.queue n := queue_serve_of_ne ha

end Pump

/-- A reply is for one client and for nobody else. -/
structure RpcResponse.GoesTo (reply : RpcResponse) (client : String) : Prop where
  client_eq : reply.client = some client
  -- When a supervisor hears its line, one frame for the client is submitted, and nothing else is done.
  submitted : ∀ (c : Child) (s : Supervisor) (server : Server),
    c.phase = .established → c.isGone = false →
      server.handed (s.hear c (Message.rpcResponse reply).line) =
        server.post (.unicast client (.message (.rpcResponse reply)))
  -- The frame is read as the reply.
  decoded : Message.decode (SocketFrame.message (.rpcResponse reply)).encode =
    .ok (.rpcResponse reply)
  -- The pump puts it in no queue but that of the client.
  alone : ∀ (p : Pump SocketFrame) (n : Nat), p.round = none →
    (∀ a, KeyMap.get? p.table client = some a → a.queue ≠ n) →
      (p.handle (.unicast client (.message (.rpcResponse reply)))).queue n = p.queue n

theorem RpcResponse.goesTo {reply : RpcResponse} (h : reply.HasWritableResult) {client : String}
    (hclient : reply.client = some client) : reply.GoesTo client where
  client_eq := hclient
  submitted c s server hphase hgone := by
    rw [server.handed_of_ok hphase hgone ((isWritable h).parseLine_line.trans (parse_toValue h))]
    simp [Relay.ofMessage, hclient, Server.perform, Server.send]
  decoded := (isWritable h).decode_encode.trans (parse_toValue h)
  alone _ _ hidle := Pump.queue_handle_unicast hidle _

/-! ## The law -/

/-- Of a call that the supervisor forwards and the backend reads, one with an id and a function is
answered, unless its handler crashes as it is called: behind the batches of the handler goes one
reply, which repeats the id of the call and names the client that the server knows it from, whatever
else the call holds and whatever the handler does. If its result can be written, it goes to this
client alone. Any other call is not answered. -/
theorem Backend.reply_goes_to_caller {b : Backend} {payload : Value} {origin : MessageMeta}
    {s : Supervisor} {generation : Nat} {frame read : ChannelFrame}
    (hpayload : payload.IsCanonical)
    (hforward : .write generation frame ∈ (s.handleServer (.incoming payload origin)).1)
    (hread : ChannelFrame.read? frame.line = some read) :
    (calledIn? payload = none → b.answerLine frame.line = []) ∧
      ∀ id function, calledIn? payload = some (id, function) →
        ∃ args batches reply?,
          let call : RpcCall := { id, function, args, origin := some origin }
          b.call call = (batches, reply?) ∧
          b.answerLine frame.line = batches.map .apply ++ reply?.toList.map .rpcResponse ∧
          (reply? = none ↔ b.Drops call) ∧
          ∀ reply, reply? = some reply → reply.id = id ∧ reply.client = some origin.client ∧
            (reply.HasWritableResult → reply.GoesTo origin.client) := by
  obtain ⟨htag, rfl⟩ := Supervisor.of_write hforward
  obtain ⟨args, hparse⟩ := ChannelFrame.parse_of_read? hpayload htag hread
  have horigin := (ChannelFrame.of_read? hpayload htag hread).1
  refine ⟨fun hcalled => ?_, fun id function hcalled => ?_⟩
  · rw [hcalled] at hparse
    simp [answerLine_line, hread, replies, handle, hparse]
  · rw [hcalled] at hparse
    let call : RpcCall := { id, function, args, origin := some origin }
    refine ⟨args, (b.call call).1, (b.call call).2, rfl, ?_, b.call_eq_none_iff call, ?_⟩
    · simp only [answerLine_line, hread, Option.elim_some, replies, handle, hparse, horigin]
      cases (b.call call).2 <;> rfl
    · intro reply hreply
      obtain ⟨hid, hclient⟩ := of_call_eq_some hreply
      exact ⟨hid, hclient, fun hresult => RpcResponse.goesTo hresult hclient⟩

/-- A call that was read can be forwarded, if it nests no deeper than a line may. -/
theorem ChannelFrame.read?_line_eq_self {payload : Value} {origin : MessageMeta}
    (hpayload : payload.Regular Number.ReadsBack) (hdepth : payload.depth < maxDepth) :
    read? (line { message := payload, origin := some origin }) =
      some { message := payload, origin := some origin } := by
  rw [read?_line hpayload, if_pos hdepth]

/-- A call that names another client: its reply goes to the one that it came from. -/
theorem Backend.reply_goes_to_caller_alone :
    let origin : MessageMeta :=
      { client := "a", remote := "::1", connectedAt := 1, receivedAt := 2, rawLength := 3 }
    let payload : Value := .object [("clientId", .string "b"), ("fnName", .string "f"),
      ("rpcId", .string "7"), ("type", .string "rpc_request")]
    let b : Backend := { functions := [("f", fun _ => { outcome := .returned (.nat 1) })] }
    let s : Supervisor := { state := .running, child := some 1, generation := 1 }
    let frame : ChannelFrame := { message := payload, origin := some origin }
    (payload.IsCanonical ∧
        .write 1 frame ∈ (s.handleServer (.incoming payload origin)).1 ∧
        ChannelFrame.read? frame.line = some frame ∧ calledIn? payload = some ("7", "f")) ∧
      let reply : RpcResponse := .success "7" (some "a") (.nat 1)
      b.answerLine frame.line = [.rpcResponse reply] ∧ reply.GoesTo "a" := by
  intro origin payload b s frame
  have hpayload : payload.Regular Number.ReadsBack := by
    refine every_object.mpr ⟨?_, by simp⟩
    show List.Pairwise (· < ·) ["clientId", "fnName", "rpcId", "type"]
    decide
  have hforward : .write 1 frame ∈ (s.handleServer (.incoming payload origin)).1 :=
    List.mem_singleton.mpr rfl
  have hread : ChannelFrame.read? frame.line = some frame :=
    ChannelFrame.read?_line_eq_self hpayload (by simp [payload, depth, membersDepth, maxDepth])
  have hresult : (RpcResponse.success "7" (some "a") (.nat 1)).HasWritableResult := by
    intro v hv
    cases hv
    exact ⟨every_number.mpr (Number.readsBack_nat (by decide)), by simp [depth, Value.nat, maxDepth]⟩
  obtain ⟨args, batches, reply?, hcall, hanswer, -, hgoes⟩ :=
    (b.reply_goes_to_caller hpayload.isCanonical hforward hread).2 "7" "f" rfl
  have hreply : ([], some (RpcResponse.success "7" (some "a") (.nat 1))) = (batches, reply?) := hcall
  cases hreply
  exact ⟨⟨hpayload.isCanonical, hforward, hread, rfl⟩, hanswer, (hgoes _ rfl).2.2 hresult⟩

/-- A call that is forwarded and read has no reply, since its handler crashes as it is called. -/
theorem Backend.exists_call_unanswered :
    let origin : MessageMeta :=
      { client := "a", remote := "::1", connectedAt := 1, receivedAt := 2, rawLength := 3 }
    let payload : Value :=
      .object [("fnName", .string "f"), ("rpcId", .string "7"), ("type", .string "rpc_request")]
    let b : Backend := { functions := [("f", fun _ => { outcome := .uncaught })] }
    let s : Supervisor := { state := .running, child := some 1, generation := 1 }
    let frame : ChannelFrame := { message := payload, origin := some origin }
    .write 1 frame ∈ (s.handleServer (.incoming payload origin)).1 ∧
      ChannelFrame.read? frame.line = some frame ∧ calledIn? payload = some ("7", "f") ∧
      b.answerLine frame.line = [] := by
  intro origin payload b s frame
  have hpayload : payload.Regular Number.ReadsBack := by
    refine every_object.mpr ⟨?_, by simp⟩
    show List.Pairwise (· < ·) ["fnName", "rpcId", "type"]
    decide
  have hread : ChannelFrame.read? frame.line = some frame :=
    ChannelFrame.read?_line_eq_self hpayload (by simp [payload, depth, membersDepth, maxDepth])
  refine ⟨List.mem_singleton.mpr rfl, hread, rfl, ?_⟩
  rw [answerLine_line, hread]
  rfl

end LiveDoc
