import LiveDoc.Message.Frame
import LiveDoc.Server.Basic

/-!
# LiveDoc — what the supervisor relays

A message from the backend goes on to the model, to one client, to the gate, to a held HTTP request,
or to the log. A verdict on a client opens the gate for that client only if its status is one of
success. Where no backend runs, the supervisor gives the server's requests answers of its own.
-/

namespace LiveDoc

open Json

/-- What is handed on to the rest of the system. -/
inductive Relay where
  | mutate (edits : List Edit)
  | send (client : String) (message : Message)
  | authorize (client : String)
  | reject (client : String) (rejection : Rejection)
  | respond (response : ApiResponse)
  | log (line : String)
  deriving DecidableEq, Inhabited

namespace Relay

def ofVerdict (v : AuthVerdict) : Relay :=
  if v.isAllowed then .authorize v.client
  else .reject v.client { status := v.status, error := v.error.getD "Unauthorized" }

/-- Where a message from the backend goes. A response goes to the client that it names, if it names
one, and what only a backend may be sent goes nowhere. -/
def ofMessage : Message → List Relay
  | .apply edits => [.mutate edits]
  | .rpcResponse r => (r.client.map fun client => .send client (.rpcResponse r)).toList
  | .authVerdict v => [.ofVerdict v]
  | .apiResponse r => [.respond r]
  | .log lines => lines.map .log
  | _ => []

/-! ## Without a backend -/

/-- What callers are told where no backend runs. -/
def notRunning : String := "Backend is not running"

/-- The answer to a call that no backend can take. -/
def refuseCall (payload : Value) (origin : MessageMeta) : Relay :=
  let id := ((payload.member? "rpcId").bind Value.text?).getD ""
  let function := (payload.member? "fnName").bind Value.text?
  .send origin.client (.rpcResponse (.failure id (some origin.client) notRunning function))

/-- The answer to a request of the server that no backend can take. A message that is no call gets
none. -/
def refuse : ServerEvent → Option Relay
  | .incoming payload origin =>
    if Message.claimedTag? payload = some "rpc_request" then some (refuseCall payload origin)
    else none
  | .authRequest r => some (.reject r.client { status := 503, error := notRunning })
  | .apiRequest r => some (.respond (.failure r.id 503 notRunning))
  | _ => none

/-- The line for the backend that a request of the server becomes. A message that is no call becomes
none. -/
def frame? : ServerEvent → Option ChannelFrame
  | .incoming payload origin =>
    if Message.claimedTag? payload = some "rpc_request" then
      some { message := payload, origin := some origin }
    else none
  | .authRequest r => some { message := (Message.authRequest r).toValue }
  | .apiRequest r => some { message := (Message.apiRequest r).toValue }
  | _ => none

end Relay

/-- The effect of a relay on the server. An invalid batch changes nothing. -/
def Server.perform (s : Server) : Relay → Server
  | .mutate edits => (s.mutate edits).toOption.getD s
  | .send client message => s.send client (.message message)
  | .authorize client => s.authorize client
  | .reject client rejection => s.reject client rejection
  | .respond response => (s.respond response).2
  | .log _ => s

end LiveDoc
