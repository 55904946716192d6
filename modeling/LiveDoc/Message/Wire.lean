import LiveDoc.Edit.Wire
import LiveDoc.Json.Parser
import LiveDoc.Json.Printer
import LiveDoc.Message.Basic

/-!
# LiveDoc — messages as JSON

A message is an object with its tag as `type`. Its layout is laid down once, as the list of its
members in declared order (`Message.draft`); calls and verdicts list their free members behind the
declared ones. A line is the text of that list, in which a free member may repeat a declared name.
The value of the message sorts the list and lets the last of equal names win, which is also how a
reader of the line understands it.

`Message.parse` reads a value. Members that a message does not declare are ignored, except where it
keeps free members.
-/

namespace LiveDoc

open Json

inductive WireError where
  | invalidJson (detail : String)
  | notAnObject
  -- The version found, as JSON text.
  | versionMismatch (found : String)
  | invalidPayload (detail : String)
  | unknownType (tag : String)
  deriving DecidableEq, Inhabited

def protocolVersion : Nat := 1

def WireError.message : WireError → String
  | .invalidJson detail => s!"Invalid JSON: {detail}"
  | .notAnObject => "Envelope is not a JSON object"
  | .versionMismatch found =>
    s!"Protocol version mismatch: expected {protocolVersion}, got {found}"
  | .invalidPayload detail => s!"Invalid payload: {detail}"
  | .unknownType tag => s!"Unknown message type: {tag}"

namespace Message

/-! ## Writing -/

/-- A member that is left out when there is none. -/
def optionalMember (name : String) (value : Option Value) : List (String × Value) :=
  value.toList.map fun v => (name, v)

/-- The members of a message behind its tag, in declared order. -/
def draftMembers : Message → List (String × Value)
  | .ready => []
  | .apply edits => [("ops", .array (edits.map Edit.draft))]
  | .rpcRequest r => ("rpcId", .string r.id) :: ("fnName", .string r.function) :: r.args
  | .rpcResponse r =>
    ("rpcId", .string r.id) :: ("clientId", .ofText? r.client) ::
      (optionalMember "result" r.result ++ optionalMember "error" (r.error.map .string) ++
        optionalMember "fnName" (r.function.map .string))
  | .apiRequest r =>
    [("reqId", .string r.id), ("method", .string r.method), ("path", .string r.path),
      ("query", Record.ofTextMap r.query), ("headers", Record.ofTextMap r.headers),
      ("body", r.body)]
  | .apiResponse r =>
    [("reqId", .string r.id), ("statusCode", .nat r.status.toNat),
      ("headers", Record.ofTextMap r.headers), ("body", r.body)]
  | .authRequest r =>
    [("clientId", .string r.client), ("remoteIp", .string r.remote), ("method", .string r.method),
      ("url", .string r.url), ("headers", Record.ofTextMap r.headers)]
  | .authVerdict v =>
    ("clientId", .string v.client) :: ("status", .nat v.status.toNat) ::
      (optionalMember "error" (v.error.map .string) ++ v.extra)
  | .log lines => [("payload", .array (lines.map .string))]

/-- A message as an object, its tag first and the other members in declared order. -/
def draft (m : Message) : Value := .object (("type", .string m.tag) :: m.draftMembers)

/-- The text of a message on a line of its own. -/
def line (m : Message) : String := m.draft.text

def toValue (m : Message) : Value := m.draft.canonical

/-! ## Reading -/

def edits? : List Value → Option (List Edit)
  | [] => some []
  | v :: rest => do return (← Edit.read? v) :: (← edits? rest)

/-- The message with the tag that the members of an object describe. -/
def ofMembers? (tag : String) (members : Fields) : Option Message :=
  let field := KeyMap.get? members
  match tag with
  | "ready" => some .ready
  | "apply" => do return .apply (← edits? (← (← field "ops").items?))
  | "rpc_request" => do
    return .rpcRequest {
      id := ← Record.text? (field "rpcId")
      function := ← Record.text? (field "fnName")
      args := Record.others ["type", "rpcId", "fnName"] members }
  | "rpc_response" => do
    return .rpcResponse {
      id := ← Record.text? (field "rpcId")
      client := ← Record.optionalText? (field "clientId")
      result := field "result"
      error := ← Record.optionalText? (field "error")
      function := ← Record.optionalText? (field "fnName") }
  | "api_request" => do
    return .apiRequest {
      id := ← Record.text? (field "reqId")
      method := ← Record.text? (field "method")
      path := ← Record.text? (field "path")
      query := ← Record.textMap? (field "query")
      headers := ← Record.textMap? (field "headers")
      body := Record.value (field "body") }
  | "api_response" => do
    return .apiResponse {
      id := ← Record.text? (field "reqId")
      status := ← Record.word16? (field "statusCode")
      headers := ← Record.textMap? (field "headers")
      body := Record.value (field "body") }
  | "ws_auth_request" => do
    return .authRequest {
      client := ← Record.text? (field "clientId")
      remote := ← Record.text? (field "remoteIp")
      method := ← Record.text? (field "method")
      url := ← Record.text? (field "url")
      headers := ← Record.textMap? (field "headers") }
  | "ws_auth_response" => do
    return .authVerdict {
      client := ← Record.text? (field "clientId")
      status := ← Record.word16? (field "status")
      error := ← Record.optionalText? (field "error")
      extra := Record.others ["type", "clientId", "status", "error"] members }
  | "log" => do return .log (← Record.textList? (← field "payload"))
  | _ => none

def claimedTag? (v : Value) : Option String := (v.member? "type").bind Value.text?

def parse (v : Value) : Except WireError Message :=
  match claimedTag? v with
  | none => .error (.invalidPayload "missing string \"type\" field")
  | some tag =>
    if tags.contains tag then
      match ofMembers? tag (v.fields?.getD []) with
      | some m => .ok m
      | none => .error (.invalidPayload unreadable)
    else .error (.unknownType tag)

end Message

/-! ## Envelopes -/

namespace Envelope

/-- A value in its envelope: the version, and the value's text as a string. -/
def encode (v : Value) : String :=
  (Value.object [("payload", .string v.text), ("v", .nat protocolVersion)]).text

/-- The value in an envelope; null if it holds none. -/
def decode (text : String) : Except WireError Value :=
  match parse? text with
  | none => .error (.invalidJson unreadable)
  | some (.object members) =>
    let version := (KeyMap.get? members "v").getD .null
    if version.nat? ≠ some protocolVersion then .error (.versionMismatch version.text)
    else
      match KeyMap.get? members "payload" with
      | none | some .null => .ok .null
      | some (.string inner) =>
        match parse? inner with
        | some v => .ok v
        | none => .error (.invalidPayload unreadable)
      | some _ => .error (.invalidPayload "payload must be a JSON-encoded string")
  | some _ => .error .notAnObject

end Envelope

def Message.encode (m : Message) : String := Envelope.encode m.toValue

def Message.decode (text : String) : Except WireError Message := do
  Message.parse (← Envelope.decode text)

end LiveDoc
