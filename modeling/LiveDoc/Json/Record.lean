import LiveDoc.Json.Value

/-!
# LiveDoc — records in JSON

A record has named fields in a declared order. It is read from an object, whose other members are
ignored, or from an array with the fields in declared order; an array may end early but not go on.
`Record.fields?` gives each declared field or nothing, and the readers of single fields say what an
absent or null field means.
-/

namespace LiveDoc.Json

/-- What stands in an error text for why JSON could not be read. -/
def unreadable : String := "<serde>"

namespace Record

/-- The declared fields of a record, each present or not. -/
def fields? (names : List String) : Value → Option (List (Option Value))
  | .object members => some (names.map (KeyMap.get? members))
  | .array items =>
    if items.length ≤ names.length then
      some (items.map some ++ List.replicate (names.length - items.length) none)
    else none
  | _ => none

def text? (field : Option Value) : Option String := field.bind Value.text?

def optionalText? : Option Value → Option (Option String)
  | none | some .null => some none
  | some (.string text) => some (some text)
  | some _ => none

/-- An integer of 64 bits without sign, which has to be there. -/
def word64? (field : Option Value) : Option UInt64 :=
  (field.bind Value.nat?).bind fun n => if n < UInt64.size then some (UInt64.ofNat n) else none

/-- An integer of 16 bits without sign, which has to be there. -/
def word16? (field : Option Value) : Option UInt16 :=
  (field.bind Value.nat?).bind fun n => if n < UInt16.size then some (UInt16.ofNat n) else none

def value (field : Option Value) : Value := field.getD .null

def texts? : List Value → Option (List String)
  | [] => some []
  | .string text :: rest => (text :: ·) <$> texts? rest
  | _ :: _ => none

def textList? (v : Value) : Option (List String) := v.items?.bind texts?

/-- The texts of the members of an object. -/
def textMembers? : Fields → Option (KeyMap String)
  | [] => some []
  | (key, .string text) :: rest => ((key, text) :: ·) <$> textMembers? rest
  | _ :: _ => none

/-- An object whose members are all texts; empty if absent. -/
def textMap? : Option Value → Option (KeyMap String)
  | none => some []
  | some v => v.fields?.bind textMembers?

/-- The members of an object that have none of the names. -/
def others (names : List String) (members : Fields) : Fields :=
  members.filter fun member => !names.contains member.1

def ofTextMap (map : KeyMap String) : Value :=
  .object (map.map fun entry => (entry.1, .string entry.2))

end Record

end LiveDoc.Json
