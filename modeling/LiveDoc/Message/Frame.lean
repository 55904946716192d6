import LiveDoc.Message.Wire

/-!
# LiveDoc — lines from the supervisor to the backend

A line carries any value as its message, and what is known of the client it came from. It is read as
a record straight from the text, so that the text of members nobody declared is never looked into:
it may nest without limit and hold what could not be read as a value.
-/

namespace LiveDoc

open Json

/-- What the server knows of a message from a client. -/
structure MessageMeta where
  client : String
  remote : String
  connectedAt : UInt64
  receivedAt : UInt64
  -- The length of the frame it came in.
  rawLength : UInt64
  deriving DecidableEq, Inhabited

/-- A line from the supervisor to the backend. -/
structure ChannelFrame where
  message : Value
  origin : Option MessageMeta := none
  deriving DecidableEq, Inhabited

namespace MessageMeta

/-- The names of the fields, in declared order. -/
def fieldNames : List String := ["clientId", "remoteIp", "connectedAt", "receivedAt", "rawLength"]

/-- The record as an object, its members in declared order. -/
def draft (m : MessageMeta) : Value :=
  .object [("clientId", .string m.client), ("remoteIp", .string m.remote),
    ("connectedAt", .nat m.connectedAt.toNat), ("receivedAt", .nat m.receivedAt.toNat),
    ("rawLength", .nat m.rawLength.toNat)]

def ofFields? : List (Option Value) → Option MessageMeta
  | [client, remote, connectedAt, receivedAt, rawLength] => do
    return {
      client := ← Record.text? client
      remote := ← Record.text? remote
      connectedAt := ← Record.word64? connectedAt
      receivedAt := ← Record.word64? receivedAt
      rawLength := ← Record.word64? rawLength }
  | _ => none

def ofValue? (v : Value) : Option MessageMeta := do ofFields? (← Record.fields? fieldNames v)

end MessageMeta

/-! ## Records in text -/

namespace Json.Node

/-- The members of a record as written, with their keys as text. -/
def keyed? : List (List Glyph × Node) → Option (List (String × Node))
  | [] => some []
  | (key, node) :: rest => do return (← text? key, node) :: (← keyed? rest)

/-- The declared field of a record as written. It must not be repeated. -/
def field? (members : List (String × Node)) (name : String) : Option (Option Node) :=
  match members.filter (·.1 = name) with
  | [] => some none
  | [(_, node)] => some (some node)
  | _ => none

/-- The declared fields of a record as written, from an object or an array. -/
def fields? (names : List String) : Node → Option (List (Option Node))
  | .object members => do (names.mapM (field? (← keyed? members)))
  | .array items =>
    if items.length ≤ names.length then
      some (items.map some ++ List.replicate (names.length - items.length) none)
    else none
  | _ => none

end Json.Node

def readFields? (limit : Nat) (fields : List (Option Node)) : Option (List (Option Value)) :=
  fields.mapM fun
    | none => some none
    | some node => (node.value? limit).map some

namespace MessageMeta

/-- Reads the record as written, or a null for none. -/
def ofNode? (limit : Nat) : Node → Option (Option MessageMeta)
  | .null => some none
  | node => do
    if limit = 0 then none
    else
      let fields ← readFields? (limit - 1) (← node.fields? fieldNames)
      return some (← ofFields? fields)

end MessageMeta

namespace ChannelFrame

/-- The frame as an object, its members in declared order. -/
def draft (f : ChannelFrame) : Value :=
  .object [("message", f.message),
    ("meta", (f.origin.map MessageMeta.draft).getD .null)]

/-- The text of a frame on a line of its own. -/
def line (f : ChannelFrame) : String := f.draft.text

def ofValue? (v : Value) : Option ChannelFrame := do
  match ← Record.fields? ["message", "meta"] v with
  | [some message, none] | [some message, some .null] => return { message }
  | [some message, some origin] =>
    return { message, origin := some (← MessageMeta.ofValue? origin) }
  | _ => none

def read? (line : String) : Option ChannelFrame := do
  let node ← node? line
  match ← node.fields? ["message", "meta"] with
  | [some message, origin] =>
    let message ← message.value? (maxDepth - 1)
    match origin with
    | none => return { message }
    | some origin => return { message, origin := ← MessageMeta.ofNode? (maxDepth - 1) origin }
  | _ => none

end ChannelFrame

end LiveDoc
