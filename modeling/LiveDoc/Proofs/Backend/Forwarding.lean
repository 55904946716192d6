import LiveDoc.Proofs.Backend.FailClosed
import LiveDoc.Proofs.Message.Envelopes
import LiveDoc.Proofs.Server.Handover
import LiveDoc.Proofs.Supervisor.Requests
import LiveDoc.Server.Request

/-!
# LiveDoc — requests on their way to the backend

What a client sends and what an HTTP request carries was read from text, and so nests at most as
deep as a value may. On the way to the backend it is put into a line, which adds a container around
it, and around a body one more. The backend reads the line under the same limit as the value was
read under. So a call that just came in under the limit makes a line that is not read, and the
backend passes over it; nothing else can happen to a request on a line.

* `ServerEvent.IsRaised` — the events that a server raises.
* `Supervisor.forwards_and_reads` — what becomes of a request at the backend.
* `Supervisor.exists_call_unread` — a call that a client may make, and no backend reads.
-/

namespace LiveDoc

open Json Json.Value

/-! ## What a server raises -/

/-- A server tells of a message with the value that it read from a frame, and makes its other
requests from what came over HTTP. -/
inductive ServerEvent.IsRaised : ServerEvent → Prop where
  | incoming {text : String} {payload : Value} (read : Envelope.decode text = .ok payload)
      (origin : MessageMeta) : IsRaised (.incoming payload origin)
  | upgrade (r : HttpRequest) (client : String) : IsRaised (.authRequest (r.toAuthRequest client))
  | http (r : HttpRequest) (id path : String) : IsRaised (.apiRequest (r.toApiRequest id path))

/-- What a request carries that nests and holds numbers. -/
def ServerEvent.carried : ServerEvent → Value
  | .incoming payload _ => payload
  | .apiRequest r => r.body
  | _ => .null

/-- How many containers the message of a request nests: a call comes as it is, and the other
requests are objects with maps of texts in them. -/
def ServerEvent.nesting : ServerEvent → Nat
  | .incoming payload _ => payload.depth
  | .apiRequest r => max 1 r.body.depth + 1
  | _ => 2

theorem regular_parseBody (bytes : List UInt8) : (parseBody bytes).Regular Number.Fits := by
  unfold parseBody
  split
  · exact every_null
  · split
    · next v hv =>
      obtain ⟨text, -, hparse⟩ := Option.bind_eq_some_iff.mp hv
      exact parse?_regular hparse
    · exact every_string _

theorem ServerEvent.IsRaised.regular_carried {event : ServerEvent} (h : event.IsRaised) :
    event.carried.Regular Number.Fits := by
  cases h with
  | incoming read => exact Envelope.regular_of_decode read
  | upgrade => exact every_null
  | http r => exact regular_parseBody r.body

/-! ## What the backend reads -/

theorem Backend.answerLine_of_regular (b : Backend) {f : ChannelFrame}
    (h : f.message.Regular Number.ReadsBack) :
    b.answerLine f.line = if f.message.depth < maxDepth then b.replies f else [] := by
  rw [answerLine_line, ChannelFrame.read?_line h]
  split <;> rfl

/-! ## The messages of HTTP requests -/

namespace ApiRequest

variable {request : ApiRequest}

theorem regular_toValue (hquery : KeyMap.Sorted request.query)
    (hheaders : KeyMap.Sorted request.headers) (hbody : request.body.Regular Number.ReadsBack) :
    (Message.apiRequest request).toValue.Regular Number.ReadsBack ∧
      (Message.apiRequest request).toValue.depth = max 1 request.body.depth + 1 := by
  have hmap {map : KeyMap String} (h : KeyMap.Sorted map) :
      (Record.ofTextMap map).AllNumbers Number.ReadsBack := (Record.regular_ofTextMap h).allNumbers
  have hcanonical : (Message.apiRequest request).IsCanonical :=
    ⟨hquery, hheaders, hbody.isCanonical⟩
  refine ⟨Message.regular_toValue ?_, (Message.depth_toValue hcanonical).trans ?_⟩
  · simpa [Message.draft, Message.draftMembers] using ⟨hmap hquery, hmap hheaders, hbody.allNumbers⟩
  · simp [Message.draft, Message.draftMembers, depth, membersDepth, depth_ofTextMap]

end ApiRequest

/-! ## What becomes of a request -/

/-- The line that a request becomes carries it as it was raised. -/
theorem ServerEvent.BecomesLine.message {event : ServerEvent} {frame : ChannelFrame}
    (h : event.BecomesLine frame) (hraised : event.IsRaised)
    (hfloats : event.carried.AllNumbers Number.FloatReadsBack) :
    frame.message.Regular Number.ReadsBack ∧ frame.message.depth = event.nesting := by
  have hcarried : event.carried.Regular Number.ReadsBack :=
    hraised.regular_carried.readsBack hfloats
  cases h with
  | call payload origin => exact ⟨hcarried, rfl⟩
  | upgrade r =>
    cases hraised with
    | upgrade http client => exact AuthRequest.regular_toValue (KeyMap.sorted_ofEntries _)
  | http r =>
    cases hraised with
    | http http id path =>
      exact ApiRequest.regular_toValue (KeyMap.sorted_ofEntries _) (KeyMap.sorted_ofEntries _)
        hcarried

/-- What becomes of a request that a server raised while a backend runs. Its line carries the request
whole, and is read as what it carries if that nests at most 126 containers; the backend then answers
the request, and else passes over the line. -/
theorem Supervisor.forwards_and_reads {s : Supervisor} {event : ServerEvent} {generation : Nat}
    (hraised : event.IsRaised) (hrequest : event.isRequest = true)
    (hfloats : event.carried.AllNumbers Number.FloatReadsBack) (hrunning : s.state = .running)
    (hchild : s.child = some generation) :
    ∃ frame, event.BecomesLine frame ∧ s.handleServer event = ([.write generation frame], s) ∧
      ChannelFrame.read? frame.line = (if event.nesting ≤ 126 then some frame else none) ∧
      (∀ b : Backend, b.answerLine frame.line = if event.nesting ≤ 126 then b.replies frame else []) ∧
      (∀ r, event = .authRequest r → Message.parse frame.message = .ok (.authRequest r)) ∧
      ∀ r, event = .apiRequest r → Message.parse frame.message = .ok (.apiRequest r) := by
  obtain ⟨frame, hframe, hturn⟩ := handleServer_of_running hrequest hrunning hchild
  obtain ⟨hregular, hdepth⟩ := hframe.message hraised hfloats
  have hlimit : frame.message.depth < maxDepth ↔ event.nesting ≤ 126 := by
    rw [hdepth, maxDepth]
    omega
  refine ⟨frame, hframe, hturn, ?_, fun b => ?_, fun r hr => ?_, fun r hr => ?_⟩
  · simp only [ChannelFrame.read?_line hregular, hlimit]
  · simp only [b.answerLine_of_regular hregular, hlimit]
  · subst hr
    cases hframe
    cases hraised
    exact Message.parse_toValue_authRequest (KeyMap.sorted_ofEntries _)
  · subst hr
    cases hframe
    cases hraised with
    | http http id path =>
      exact Message.parse_toValue_apiRequest ⟨KeyMap.sorted_ofEntries _, KeyMap.sorted_ofEntries _,
        (regular_parseBody http.body).isCanonical⟩

/-! ## Deep calls -/

/-- A call of a function with one argument, a chain of containers. -/
def deepCall (n : Nat) : Value :=
  .object [("a", chain n), ("fnName", .string "f"), ("rpcId", .string "1"),
    ("type", .string "rpc_request")]

theorem isCanonical_deepCall (n : Nat) : (deepCall n).IsCanonical := by
  refine every_object.mpr ⟨?_, by simpa using regular_chain _ n⟩
  show List.Pairwise (· < ·) ["a", "fnName", "rpcId", "type"]
  decide

theorem depth_deepCall (n : Nat) : (deepCall n).depth = n + 1 := by
  simp [deepCall, depth, membersDepth, depth_chain]

theorem allNumbers_deepCall (P : Number → Prop) (n : Nat) : (deepCall n).AllNumbers P := by
  simpa [deepCall] using allNumbers_chain P n

/-- A client may make the call if it nests no deeper than a value may. -/
theorem decode_deepCall {n : Nat} (hn : n + 1 ≤ maxDepth) :
    Envelope.decode (Envelope.encode (deepCall n)) = .ok (deepCall n) := by
  rw [Envelope.decode_encode (allNumbers_deepCall _ n), depth_deepCall, if_pos hn,
    canonical_eq_self (isCanonical_deepCall n)]

/-- A call of 126 containers is read by the backend as it was made. -/
theorem Supervisor.forwards_and_reads_deep_call :
    let s : Supervisor := { state := .running, child := some 1, generation := 1 }
    let origin : MessageMeta :=
      { client := "c", remote := "::1", connectedAt := 1, receivedAt := 2, rawLength := 3 }
    let frame : ChannelFrame := { message := deepCall 125, origin := some origin }
    s.handleServer (.incoming (deepCall 125) origin) = ([.write 1 frame], s) ∧
      ChannelFrame.read? frame.line = some frame ∧
      ∀ b : Backend, b.answerLine frame.line = b.replies frame := by
  intro s origin frame
  have hraised : (ServerEvent.incoming (deepCall 125) origin).IsRaised :=
    .incoming (decode_deepCall (by decide)) origin
  have hfloats : (ServerEvent.incoming (deepCall 125) origin).carried.AllNumbers
      Number.FloatReadsBack := allNumbers_deepCall _ 125
  have hnesting : (ServerEvent.incoming (deepCall 125) origin).nesting ≤ 126 :=
    (depth_deepCall 125).le
  obtain ⟨line, hline, hturn, hread, hanswer, -⟩ :=
    Supervisor.forwards_and_reads (s := s) hraised rfl hfloats rfl rfl
  obtain rfl : line = frame := by
    cases hline
    rfl
  rw [if_pos hnesting] at hread
  refine ⟨hturn, hread, fun b => ?_⟩
  rw [hanswer b, if_pos hnesting]

/-- A client may make a call of 127 containers, and no backend reads the line that it becomes. -/
theorem Supervisor.exists_call_unread :
    ∃ (text : String) (payload : Value) (origin : MessageMeta) (s : Supervisor)
      (frame : ChannelFrame),
      Envelope.decode text = .ok payload ∧ payload.AllNumbers Number.ReadsBack ∧
        Message.claimedTag? payload = some "rpc_request" ∧ s.state = .running ∧
        s.handleServer (.incoming payload origin) = ([.write 1 frame], s) ∧
        frame.message = payload ∧ ChannelFrame.read? frame.line = none ∧
        ∀ b : Backend, b.answerLine frame.line = [] := by
  let s : Supervisor := { state := .running, child := some 1, generation := 1 }
  let origin : MessageMeta :=
    { client := "c", remote := "::1", connectedAt := 1, receivedAt := 2, rawLength := 3 }
  let frame : ChannelFrame := { message := deepCall 126, origin := some origin }
  have hregular : frame.message.Regular Number.ReadsBack :=
    ((isCanonical_deepCall 126).and (allNumbers_deepCall Number.ReadsBack 126)).mono
      (fun _ hs => hs.1) fun _ hn => hn.2
  have hdeep : ¬ frame.message.depth < maxDepth := by
    show ¬ (deepCall 126).depth < maxDepth
    rw [depth_deepCall]
    decide
  refine ⟨_, deepCall 126, origin, s, frame, decode_deepCall (by decide),
    allNumbers_deepCall _ 126, rfl, rfl, rfl, rfl, ?_, fun b => ?_⟩
  · rw [ChannelFrame.read?_line hregular, if_neg hdeep]
  · rw [b.answerLine_of_regular hregular, if_neg hdeep]

end LiveDoc
