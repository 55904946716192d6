import LiveDoc.Proofs.Backend.Replies
import LiveDoc.Proofs.Backend.Verdict

/-!
# LiveDoc — one reply for each request

Whoever asks a backend something waits for a reply by its id, and a reply under another id is lost on
the way. So handlers have no say in it: they may return, fail or crash while they run, be missing, or
answer in the name of another request, and still each request has one reply, of its own kind and
under its own id, and what is no request has none. Only a handler that crashes as it is called keeps
its request from being answered.

The reply to a call says how the call ended, by a result or by an error. An error names the function,
since the caller may have called several.

* `Message.Answers` — the replies to a request.
* `Backend.Fails` — the calls that end without a result.
* `Backend.Leaves` — the requests that are not answered.
* `Backend.tells_of_call` — what the reply to a call says.
* `Backend.handle_answers` — which frames have a reply, and which one.
-/

namespace LiveDoc

open Json

/-! ## Requests and replies -/

/-- Messages that ask for a reply. -/
def Message.IsRequest (m : Message) : Prop :=
  m.tag ∈ ["rpc_request", "ws_auth_request", "api_request"]

instance (m : Message) : Decidable m.IsRequest := inferInstanceAs (Decidable (_ ∈ _))

/-- A message is a reply to another one: it is of the kind that answers it, and repeats its id. -/
inductive Message.Answers : Message → Message → Prop where
  | call {request : RpcRequest} {reply : RpcResponse} (id : reply.id = request.id) :
      Answers (.rpcResponse reply) (.rpcRequest request)
  | auth {request : AuthRequest} {verdict : AuthVerdict} (client : verdict.client = request.client) :
      Answers (.authVerdict verdict) (.authRequest request)
  | api {request : ApiRequest} {reply : ApiResponse} (id : reply.id = request.id) :
      Answers (.apiResponse reply) (.apiRequest request)

/-- The call that a request makes, if it comes from there. -/
def RpcRequest.call (r : RpcRequest) (origin : Option MessageMeta) : RpcCall :=
  { id := r.id, function := r.function, args := r.args, origin }

/-! ## How a call ends -/

namespace Backend

/-- A call ends without a result, and its caller is told: no one registered the function, or its
handler fails or crashes. -/
inductive Fails (b : Backend) (call : RpcCall) : Prop where
  | unknown (missing : KeyMap.get? b.functions call.function = none)
  | failed {handler : RpcCall → RpcEffect} {error : String}
      (found : KeyMap.get? b.functions call.function = some handler)
      (ends : (handler call).outcome = .failed error)
  | crashed {handler : RpcCall → RpcEffect} {reason : Option String}
      (found : KeyMap.get? b.functions call.function = some handler)
      (ends : (handler call).outcome = .crashed reason)

/-- A call ends with a result. -/
def Returns (b : Backend) (call : RpcCall) (result : Value) : Prop :=
  ∃ handler, KeyMap.get? b.functions call.function = some handler ∧
    (handler call).outcome = .returned result

theorem Returns.not_fails {b : Backend} {call : RpcCall} {result : Value}
    (h : b.Returns call result) : ¬ b.Fails call := by
  obtain ⟨handler, hfound, hends⟩ := h
  rintro (hmissing | ⟨hfound', hends'⟩ | ⟨hfound', hends'⟩)
  · rw [hfound] at hmissing
    cases hmissing
  all_goals
    rw [hfound] at hfound'
    cases hfound'
    rw [hends] at hends'
    cases hends'

end Backend

/-- A reply says how a call ended: by a result, or by an error that names the function. -/
structure RpcResponse.Tells (reply : RpcResponse) (b : Backend) (call : RpcCall) : Prop where
  client : reply.client = call.origin.map (·.client)
  single : reply.result.isSome ↔ reply.error = none
  returned : ∀ result, reply.result = some result ↔ b.Returns call result
  failed : reply.error.isSome ↔ b.Fails call
  named : ∀ error, reply.error = some error →
    ∃ before after, error = before ++ call.function ++ after

namespace RpcResponse

variable {b : Backend} {call : RpcCall} {reply : RpcResponse}

theorem tells_of_returns {result : Value} (h : b.Returns call result)
    (hclient : reply.client = call.origin.map (·.client)) (hresult : reply.result = some result)
    (herror : reply.error = none) : reply.Tells b call where
  client := hclient
  single := by simp [hresult, herror]
  returned other := by
    rw [hresult]
    refine ⟨fun heq => Option.some.inj heq ▸ h, fun hother => ?_⟩
    obtain ⟨handler, hfound, hends⟩ := h
    obtain ⟨handler', hfound', hends'⟩ := hother
    rw [hfound] at hfound'
    cases hfound'
    rw [hends] at hends'
    cases hends'
    rfl
  failed := by simp [herror, h.not_fails]
  named := by simp [herror]

/-- A reply with an error that names the function tells what the call came to. -/
theorem tells_of_fails (h : b.Fails call) (before after : String)
    (hclient : reply.client = call.origin.map (·.client)) (hresult : reply.result = none)
    (herror : reply.error = some (before ++ call.function ++ after)) : reply.Tells b call where
  client := hclient
  single := by simp [hresult, herror]
  returned result := by
    rw [hresult]
    exact ⟨nofun, fun hreturns => absurd h hreturns.not_fails⟩
  failed := by simp [herror, h]
  named error hsome := by
    rw [herror] at hsome
    exact ⟨before, after, (Option.some.inj hsome).symm⟩

end RpcResponse

namespace Backend

/-- The reply to a call says how the call ended. -/
theorem tells_of_call {b : Backend} {call : RpcCall} {reply : RpcResponse}
    (h : (b.call call).2 = some reply) : reply.Tells b call := by
  have hclient := (of_call_eq_some h).2
  cases hfound : KeyMap.get? b.functions call.function with
  | none =>
    obtain rfl : .notFound call.id (call.origin.map (·.client)) call.function = reply := by
      simpa [Backend.call, hfound] using h
    exact RpcResponse.tells_of_fails (.unknown hfound) "Cannot find RPC function \"" "\"." hclient
      rfl rfl
  | some handler =>
    have hreply : rpcReply call (handler call).outcome = some reply := by
      simpa [Backend.call, hfound] using h
    cases hends : (handler call).outcome with
    | returned result =>
      rw [hends] at hreply
      obtain rfl := Option.some.inj hreply
      exact RpcResponse.tells_of_returns ⟨handler, hfound, hends⟩ hclient rfl rfl
    | failed error =>
      rw [hends] at hreply
      obtain rfl := Option.some.inj hreply
      refine RpcResponse.tells_of_fails (.failed hfound hends) "Error in RPC function \""
        ("\": " ++ error) hclient rfl ?_
      simp only [RpcResponse.failure, String.append_assoc]
      rfl
    | crashed reason =>
      rw [hends] at hreply
      obtain rfl := Option.some.inj hreply
      refine RpcResponse.tells_of_fails (.crashed hfound hends) "RPC function \""
        ("\" panicked: " ++ crashText reason) hclient rfl ?_
      simp only [RpcResponse.failure, String.append_assoc]
      rfl
    | uncaught =>
      rw [hends] at hreply
      cases hreply

theorem id_of_respond {b : Backend} {request : ApiRequest} {reply : ApiResponse}
    (h : b.respond request = some reply) : reply.id = request.id := by
  unfold respond at h
  split at h
  · obtain rfl := Option.some.inj h
    rfl
  · split at h
    · obtain rfl := Option.some.inj h
      rfl
    · obtain rfl := Option.some.inj h
      rfl
    · obtain rfl := Option.some.inj h
      rfl
    · cases h

/-! ## Requests without a reply -/

/-- The backend leaves the message without a reply because the handler that it is for crashes as it is
called. -/
inductive Leaves (b : Backend) (origin : Option MessageMeta) : Message → Prop where
  | call {request : RpcRequest} (drops : b.Drops (request.call origin)) :
      Leaves b origin (.rpcRequest request)
  | auth {request : AuthRequest} {handler : AuthRequest → Outcome Fields}
      (installed : b.authHandler = some handler) (ends : handler request = .uncaught) :
      Leaves b origin (.authRequest request)
  | api {request : ApiRequest} {handler : ApiRequest → Outcome ApiResponse}
      (installed : b.apiHandler = some handler) (ends : handler request = .uncaught) :
      Leaves b origin (.apiRequest request)

variable {b : Backend} {origin : Option MessageMeta}

/-- A call is left without a reply exactly if its handler does not come to one. -/
theorem leaves_call_iff {request : RpcRequest} :
    b.Leaves origin (.rpcRequest request) ↔ (b.call (request.call origin)).2 = none := by
  rw [call_eq_none_iff]
  refine ⟨fun h => ?_, .call⟩
  cases h with
  | call drops => exact drops

theorem leaves_auth_iff {request : AuthRequest} :
    b.Leaves origin (.authRequest request) ↔ b.authorize request = none := by
  constructor
  · rintro (_ | ⟨hinstalled, hends⟩)
    simp [authorize, hinstalled, hends]
  · intro h
    cases hinstalled : b.authHandler with
    | none => simp [authorize, hinstalled] at h
    | some handler =>
      cases hends : handler request with
      | uncaught => exact .auth hinstalled hends
      | _ => simp [authorize, hinstalled, hends] at h

theorem leaves_api_iff {request : ApiRequest} :
    b.Leaves origin (.apiRequest request) ↔ b.respond request = none := by
  constructor
  · rintro (_ | _ | ⟨hinstalled, hends⟩)
    simp [respond, hinstalled, hends]
  · intro h
    cases hinstalled : b.apiHandler with
    | none => simp [respond, hinstalled] at h
    | some handler =>
      cases hends : handler request with
      | uncaught => exact .api hinstalled hends
      | _ => simp [respond, hinstalled, hends] at h

/-! ## The law -/

/-- A frame has a reply exactly if it is a request whose handler does not crash as it is called. The
reply answers this request, whatever the handlers do; and if it is a call, the reply says how the call
ended. -/
theorem handle_answers (b : Backend) (frame : ChannelFrame) :
    ((b.handle frame).2.isSome ↔
        ∃ request, Message.parse frame.message = .ok request ∧ request.IsRequest ∧
          ¬ b.Leaves frame.origin request) ∧
      ∀ request reply, Message.parse frame.message = .ok request →
        (b.handle frame).2 = some reply → reply.Answers request ∧
          ∀ r, request = .rpcRequest r → ∃ response, reply = .rpcResponse response ∧
            response.Tells b (r.call frame.origin) := by
  unfold Backend.handle
  cases hparse : Message.parse frame.message with
  | error e => exact ⟨by simp, by simp⟩
  | ok request =>
    cases request with
    | rpcRequest r =>
      refine ⟨?_, fun request reply hrequest hreply => ?_⟩
      · simp [Message.IsRequest, Message.tag, leaves_call_iff, Option.isSome_iff_ne_none,
          RpcRequest.call]
      · cases hrequest
        obtain ⟨response, hresponse, rfl⟩ := Option.map_eq_some_iff.mp hreply
        refine ⟨.call (of_call_eq_some hresponse).1, fun r' hr' => ?_⟩
        cases hr'
        exact ⟨response, rfl, tells_of_call hresponse⟩
    | authRequest r =>
      refine ⟨?_, fun request reply hrequest hreply => ?_⟩
      · simp [Message.IsRequest, Message.tag, leaves_auth_iff, Option.isSome_iff_ne_none]
      · cases hrequest
        obtain ⟨verdict, hverdict, rfl⟩ := Option.map_eq_some_iff.mp hreply
        exact ⟨.auth (client_of_authorize hverdict), by simp⟩
    | apiRequest r =>
      refine ⟨?_, fun request reply hrequest hreply => ?_⟩
      · simp [Message.IsRequest, Message.tag, leaves_api_iff, Option.isSome_iff_ne_none]
      · cases hrequest
        obtain ⟨response, hresponse, rfl⟩ := Option.map_eq_some_iff.mp hreply
        exact ⟨.api (id_of_respond hresponse), by simp⟩
    | _ => exact ⟨by simp [Message.IsRequest, Message.tag], by simp⟩

/-- A handler that answers in the name of another request, and a function that crashes. -/
theorem handle_answers_under_own_id :
    let b : Backend :=
      { functions := [("f", fun _ => { outcome := .crashed none })]
        apiHandler := some fun _ => .returned { id := "other", status := 201 } }
    let asked : ChannelFrame :=
      { message := .object [("method", .string "GET"), ("path", .string "/"),
          ("reqId", .string "q"), ("type", .string "api_request")] }
    let called : ChannelFrame :=
      { message := .object [("fnName", .string "f"), ("rpcId", .string "r"),
          ("type", .string "rpc_request")] }
    let request : ApiRequest := { id := "q", method := "GET", path := "/" }
    let call : RpcRequest := { id := "r", function := "f", args := [] }
    let reply : ApiResponse := { id := "q", status := 201 }
    (b.handle asked).2 = some (.apiResponse reply) ∧
      Message.Answers (.apiResponse reply) (.apiRequest request) ∧
      ∃ response, (b.handle called).2 = some (.rpcResponse response) ∧
        Message.Answers (.rpcResponse response) (.rpcRequest call) ∧
        response.Tells b (call.call none) ∧ response.error.isSome := by
  intro b asked called request call reply
  have hasked : Message.parse asked.message = .ok (.apiRequest request) := rfl
  have hcalled : Message.parse called.message = .ok (.rpcRequest call) := rfl
  have hreply : (b.handle asked).2 = some (.apiResponse reply) := by
    rw [handle, hasked]
    rfl
  have hcrash : (b.handle called).2 = ((b.call (call.call none)).2.map .rpcResponse) := by
    rw [handle, hcalled]
    rfl
  have hanswers := (b.handle_answers asked).2 _ _ hasked hreply
  obtain ⟨hid, htells⟩ := (b.handle_answers called).2 _ _ hcalled hcrash
  obtain ⟨response, hresponse, htells⟩ := htells call rfl
  cases hresponse
  exact ⟨hreply, hanswers.1, _, hcrash, hid, htells, rfl⟩

/-- Requests of all three kinds have no reply if their handlers crash as they are called. -/
theorem exists_request_unanswered :
    let b : Backend :=
      { functions := [("f", fun _ => { outcome := .uncaught })]
        authHandler := some fun _ => .uncaught
        apiHandler := some fun _ => .uncaught }
    let called : ChannelFrame :=
      { message := .object [("fnName", .string "f"), ("rpcId", .string "r"),
          ("type", .string "rpc_request")] }
    let upgrading : ChannelFrame :=
      { message := .object [("clientId", .string "a"), ("headers", .object []),
          ("method", .string "GET"), ("remoteIp", .string "::1"),
          ("type", .string "ws_auth_request"), ("url", .string "/")] }
    let asked : ChannelFrame :=
      { message := .object [("method", .string "GET"), ("path", .string "/"),
          ("reqId", .string "q"), ("type", .string "api_request")] }
    ∀ frame ∈ [called, upgrading, asked],
      (∃ request, Message.parse frame.message = .ok request ∧ request.IsRequest) ∧
        b.handle frame = ([], none) := by
  intro b called upgrading asked frame hframe
  simp only [List.mem_cons, List.not_mem_nil, or_false] at hframe
  rcases hframe with rfl | rfl | rfl
  · exact ⟨⟨.rpcRequest { id := "r", function := "f", args := [] }, rfl, by decide⟩, rfl⟩
  · exact ⟨⟨.authRequest { client := "a", remote := "::1", method := "GET", url := "/" }, rfl,
      by decide⟩, rfl⟩
  · exact ⟨⟨.apiRequest { id := "q", method := "GET", path := "/" }, rfl, by decide⟩, rfl⟩

end Backend

end LiveDoc
