import LiveDoc.Edit.Basic

/-!
# LiveDoc — messages

The messages that clients, the server and the backend exchange. Clients and the server speak in
WebSocket frames, the supervisor and the backend in lines.
-/

namespace LiveDoc

open Json

structure RpcRequest where
  -- Chosen by the caller; the answer repeats it.
  id : String
  function : String
  args : Fields
  deriving DecidableEq, Inhabited

/-- The answer to a call: a result, which may be null, or an error. -/
structure RpcResponse where
  id : String
  -- The client to hand the answer to.
  client : Option String := none
  result : Option Value := none
  error : Option String := none
  -- The function that failed.
  function : Option String := none
  deriving DecidableEq, Inhabited

/-- An HTTP request under the API's part of the path space. -/
structure ApiRequest where
  id : String
  method : String
  path : String
  query : KeyMap String := []
  headers : KeyMap String := []
  body : Value := .null
  deriving DecidableEq, Inhabited

structure ApiResponse where
  id : String
  status : UInt16
  headers : KeyMap String := []
  body : Value := .null
  deriving DecidableEq, Inhabited

structure AuthRequest where
  client : String
  remote : String
  method : String
  url : String
  headers : KeyMap String := []
  deriving DecidableEq, Inhabited

structure AuthVerdict where
  client : String
  status : UInt16
  error : Option String := none
  -- Members beyond the declared ones.
  extra : Fields := []
  deriving DecidableEq, Inhabited

inductive Message where
  -- The first line of a backend.
  | ready
  | apply (edits : List Edit)
  | rpcRequest (request : RpcRequest)
  | rpcResponse (response : RpcResponse)
  | apiRequest (request : ApiRequest)
  | apiResponse (response : ApiResponse)
  | authRequest (request : AuthRequest)
  | authVerdict (verdict : AuthVerdict)
  | log (lines : List String)
  deriving DecidableEq, Inhabited

def Message.tag : Message → String
  | .ready => "ready"
  | .apply _ => "apply"
  | .rpcRequest _ => "rpc_request"
  | .rpcResponse _ => "rpc_response"
  | .apiRequest _ => "api_request"
  | .apiResponse _ => "api_response"
  | .authRequest _ => "ws_auth_request"
  | .authVerdict _ => "ws_auth_response"
  | .log _ => "log"

def Message.tags : List String :=
  ["ready", "apply", "rpc_request", "rpc_response", "api_request", "api_response",
    "ws_auth_request", "ws_auth_response", "log"]

def RpcResponse.success (id : String) (client : Option String) (result : Value) : RpcResponse :=
  { id, client, result := some result }

def RpcResponse.failure (id : String) (client : Option String) (error : String)
    (function : Option String) : RpcResponse :=
  { id, client, error := some error, function }

/-- A call of a function that nobody registered. -/
def RpcResponse.notFound (id : String) (client : Option String) (function : String) :
    RpcResponse :=
  .failure id client s!"Cannot find RPC function \"{function}\"." none

/-- An answer whose body is an object with an error text. -/
def ApiResponse.failure (id : String) (status : UInt16) (error : String) : ApiResponse :=
  { id, status, body := .object [("error", .string error)] }

def AuthVerdict.allow (client : String) : AuthVerdict := { client, status := 200 }

/-- A verdict that turns the client away. -/
def AuthVerdict.deny (client : String) (status : UInt16) (error : String) : AuthVerdict :=
  { client, status, error := some error }

/-- Exactly the statuses of success let the client in. -/
def AuthVerdict.isAllowed (v : AuthVerdict) : Bool := 200 ≤ v.status ∧ v.status < 300

end LiveDoc
