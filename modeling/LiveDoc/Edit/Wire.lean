import LiveDoc.Edit.Apply
import LiveDoc.Json.Record

/-!
# LiveDoc — edits on the wire

An edit is written as an object whose `type` is the edit's tag, with its fields in declared order.
`Edit.parse` reads an edit that stands alone and names an unknown tag; `Edit.read?` reads an edit
inside a message, where an edit may also be an array of the tag and the fields, and the tag may be
the edit's number.

* `Edit.draft` — the members of an edit, in declared order.
* `applyJsonBatch` — reads a JSON array as a batch and applies it.
-/

namespace LiveDoc

open Json

namespace Edit

/-- The fields that an edit has besides its tag, in declared order. -/
def fieldNames (tag : String) : List String :=
  match tag with
  | "$set" | "$merge" | "$shallowAssign" => ["keyPath", "value"]
  | "$circularAppend" => ["keyPath", "value", "maxSize"]
  | "$deleteKeys" => ["keyPath", "keyList"]
  | _ => []

/-- The edit as an object, its members in declared order. -/
def draft (edit : Edit) : Value :=
  let tagged (fields : List (String × Value)) := Value.object (("type", .string edit.tag) :: fields)
  match edit with
  | .clear => tagged []
  | .set path value | .merge path value | .assign path value =>
    tagged [("keyPath", .ofText? path), ("value", value)]
  | .append path value limit =>
    tagged [("keyPath", .string path), ("value", value), ("maxSize", .nat limit.toNat)]
  | .delete path keys =>
    tagged [("keyPath", .ofText? path), ("keyList", .array (keys.map .string))]

def toValue (edit : Edit) : Value := edit.draft.canonical

/-- The list of keys of a deletion; empty if absent. -/
def keyList? : Option Value → Option (List String)
  | none => some []
  | some v => Record.textList? v

/-- The edit with the tag whose fields, in declared order, are the given ones. -/
def ofFields? (tag : String) (fields : List (Option Value)) : Option Edit :=
  match tag, fields with
  | "$clearAll", _ => some .clear
  | "$set", [path, value] => do return .set (← Record.optionalText? path) (Record.value value)
  | "$merge", [path, value] => do return .merge (← Record.optionalText? path) (Record.value value)
  | "$shallowAssign", [path, value] => do
    return .assign (← Record.optionalText? path) (Record.value value)
  | "$circularAppend", [path, value, limit] => do
    return .append (← Record.text? path) (Record.value value) (← Record.word64? limit)
  | "$deleteKeys", [path, keys] => do
    return .delete (← Record.optionalText? path) (← keyList? keys)
  | _, _ => none

/-- The edit with the tag whose fields are those of an object or of an array. -/
def ofRecord? (tag : String) (record : Value) : Option Edit := do
  ofFields? tag (← Record.fields? (fieldNames tag) record)

/-- The tag that a value names, by text or by number. -/
def namedTag? : Value → Option String
  | .string tag => if tags.contains tag then some tag else none
  | v => v.nat?.bind (tags[·]?)

def read? : Value → Option Edit
  | .object members => do
    ofRecord? (← namedTag? (← KeyMap.get? members "type")) (.object members)
  | .array (tag :: fields) => do ofRecord? (← namedTag? tag) (.array fields)
  | _ => none

def parse (v : Value) : Except EditError Edit :=
  match (v.member? "type").bind Value.text? with
  | none => .error (.malformed "missing string \"type\" tag")
  | some tag =>
    if tags.contains tag then
      match read? v with
      | some edit => .ok edit
      | none => .error (.malformed unreadable)
    else .error (.unsupportedType tag)

/-- Reads the edits of a batch; the error of the first that does not read carries its index. -/
def parseFrom (index : Nat) : List Value → Except EditError (List Edit)
  | [] => .ok []
  | v :: rest =>
    match parse v with
    | .error e => .error (.inBatch index e)
    | .ok edit => (edit :: ·) <$> parseFrom (index + 1) rest

end Edit

/-- Reads a JSON array as a batch and applies it. Every edit is read before any is checked. -/
def applyJsonBatch (document : Document) (batch : Value) : Except EditError Document :=
  match batch with
  | .array items => do applyBatch document (← Edit.parseFrom 0 items)
  | _ => .error (.malformed "operation list must be an array")

end LiveDoc
