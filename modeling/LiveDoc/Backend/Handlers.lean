import LiveDoc.Message.Frame

/-!
# LiveDoc — the backend's handlers

A `Backend` is what a backend process registers: functions that clients may call, one handler that
decides on clients, and one that answers HTTP requests. `Backend.handle` answers a frame of the
supervisor: a request has one reply, which repeats the id of the request whatever the handler does,
and any other frame has none.

A handler is called, and then it runs. It may fail or crash while it runs, which its caller is told.
If it crashes as it is called, nothing catches that: the frame has no reply then, and the backend
goes on with the next one. The handler of a call may also change the document; its batches go out
before the reply does.
-/

namespace LiveDoc

open Json

inductive Outcome (α : Type) where
  | returned (value : α)
  | failed (error : String)
  -- The handler crashed while it ran, and said why or did not.
  | crashed (reason : Option String)
  -- The handler crashed as it was called.
  | uncaught
  deriving Inhabited

def crashText (reason : Option String) : String := reason.getD "unknown panic"

structure RpcCall where
  id : String
  function : String
  args : Fields
  origin : Option MessageMeta
  deriving Inhabited

/-- What the handler of a call does: the batches it sends, and how it ends. -/
structure RpcEffect where
  batches : List (List Edit) := []
  outcome : Outcome Value
  deriving Inhabited

structure Backend where
  functions : KeyMap (RpcCall → RpcEffect) := []
  authHandler : Option (AuthRequest → Outcome Fields) := none
  apiHandler : Option (ApiRequest → Outcome ApiResponse) := none

namespace Backend

/-- Registers a function, in place of one with the same name. -/
def register (b : Backend) (name : String) (handler : RpcCall → RpcEffect) : Backend :=
  { b with functions := KeyMap.set b.functions name handler }

/-! ## Calls -/

def rpcReply (call : RpcCall) (outcome : Outcome Value) : Option RpcResponse :=
  let client := call.origin.map (·.client)
  match outcome with
  | .returned result => some (.success call.id client result)
  | .failed error =>
    some (.failure call.id client s!"Error in RPC function \"{call.function}\": {error}"
      call.function)
  | .crashed reason =>
    some (.failure call.id client
      s!"RPC function \"{call.function}\" panicked: {crashText reason}" call.function)
  | .uncaught => none

/-- Answers a call; also the batches that its handler sends before. -/
def call (b : Backend) (call : RpcCall) : List (List Edit) × Option RpcResponse :=
  match KeyMap.get? b.functions call.function with
  | some handler =>
    let effect := handler call
    (effect.batches, rpcReply call effect.outcome)
  | none => ([], some (.notFound call.id (call.origin.map (·.client)) call.function))

/-! ## Verdicts -/

/-- Takes over a member that an auth handler returned. The status has to be a number, and counts as
500 unless it is an integer of 16 bits. Members that would name another client or message are
dropped, and all that the verdict does not declare is kept as it is. -/
def verdictMember (v : AuthVerdict) (name : String) (value : Value) : AuthVerdict :=
  match name, value with
  | "status", .number n => { v with status := (Record.word16? (some (.number n))).getD 500 }
  | "error", .string text => { v with error := some text }
  | "clientId", _ | "type", _ => v
  | _, _ => { v with extra := KeyMap.set v.extra name value }

/-- The verdict on a client from the members that an auth handler returned. -/
def verdictOf (client : String) (members : Fields) : AuthVerdict :=
  members.foldl (fun v m => verdictMember v m.1 m.2) (.allow client)

/-- Decides on a client. Without a handler every client is let in. -/
def authorize (b : Backend) (request : AuthRequest) : Option AuthVerdict :=
  match b.authHandler with
  | none => some (.allow request.client)
  | some handler =>
    match handler request with
    | .returned members => some (verdictOf request.client members)
    | .failed error => some (.deny request.client 500 error)
    | .crashed reason => some (.deny request.client 500 (crashText reason))
    | .uncaught => none

/-! ## HTTP -/

def respond (b : Backend) (request : ApiRequest) : Option ApiResponse :=
  match b.apiHandler with
  | none => some (.failure request.id 500 "No API handler registered")
  | some handler =>
    match handler request with
    | .returned response => some { response with id := request.id }
    | .failed error => some (.failure request.id 500 error)
    | .crashed reason => some (.failure request.id 500 (crashText reason))
    | .uncaught => none

/-! ## Frames -/

/-- Answers a frame: the batches sent before the reply, and the reply if the frame is a request whose
handler comes to one. -/
def handle (b : Backend) (frame : ChannelFrame) : List (List Edit) × Option Message :=
  match Message.parse frame.message with
  | .ok (.rpcRequest r) =>
    let (batches, response) :=
      b.call { id := r.id, function := r.function, args := r.args, origin := frame.origin }
    (batches, response.map .rpcResponse)
  | .ok (.authRequest r) => ([], (b.authorize r).map .authVerdict)
  | .ok (.apiRequest r) => ([], (b.respond r).map .apiResponse)
  | _ => ([], none)

/-- The messages that a frame makes the backend send, in their order. -/
def replies (b : Backend) (frame : ChannelFrame) : List Message :=
  let (batches, reply) := b.handle frame
  batches.map .apply ++ reply.toList

end Backend

end LiveDoc
