import LiveDoc.Decimal.Integer
import LiveDoc.Json.Value
import LiveDoc.Text.Pieces

/-!
# LiveDoc — key paths

A key path is a text of segments between dots. Walking it through a value, a segment selects the
member of an object, or the item of an array if it reads as an index.

* `Document.get?` — what a path finds in a document.
* `Value.rewrite?` — the value with the slot at a path rewritten, intermediates made as needed.
* `Value.amend` — the value with what a path finds rewritten, nothing ever made.
-/

namespace LiveDoc

open Json

/-- A document is the members of a JSON object. -/
abbrev Document := Fields

def segments (path : String) : List String := (Text.pieces '.' path.toList).map String.ofList

def isValidPath (path : String) : Bool := (segments path).all (· ≠ "")

/-- The array index that a segment reads as: an integer of 64 bits without sign, in which a leading
plus and leading zeros are allowed. -/
def index? (segment : String) : Option Nat :=
  match (Decimal.IntegerRange.unsigned 64).read segment with
  | .ok i => some i.toNat
  | .error _ => none

namespace Json.Value

def child? (v : Value) (segment : String) : Option Value :=
  match v with
  | .object members => KeyMap.get? members segment
  | .array items => (index? segment).bind (items[·]?)
  | _ => none

/-- What the segments find, walking from this value. -/
def find? (v : Value) : List String → Option Value
  | [] => some v
  | segment :: rest => (v.child? segment).bind (find? · rest)

/-- The members of an object; any other value counts as the empty object. -/
def members (v : Value) : Fields := v.fields?.getD []

/-- The items of an array, cut off or with nulls appended so that there are as many as asked for. -/
def resize (items : List Value) (size : Nat) : List Value :=
  items.take size ++ List.replicate (size - items.length) .null

/-- The items of an array, with nulls appended until the index exists. The number of items that this
takes is counted in 64 bits: for the largest index it comes out as none at all. -/
def padTo (items : List Value) (index : Nat) : List Value :=
  if index < items.length then items else resize items ((index + 1) % UInt64.size)

/-- Rewrites the slot that the segments lead to. Missing members are made and start as null, arrays
are padded with nulls, and any other value on the way is replaced by an object. Nothing if an array
on the way meets a segment that is no index. An array that does not have the index even after it was
padded stays as it is then, and nothing is rewritten behind it. -/
def rewrite? (f : Value → Value) : (path : List String) → Value → Option Value
  | [], v => some (f v)
  | segment :: rest, .array items => do
    let index ← index? segment
    let padded := padTo items index
    match padded[index]? with
    | some old =>
      let slot ← rewrite? f rest old
      return .array (padded.set index slot)
    | none => return .array padded
  | segment :: rest, v => do
    let slot ← rewrite? f rest ((KeyMap.get? v.members segment).getD .null)
    return .object (KeyMap.set v.members segment slot)

/-- Rewrites what the segments find. A path that finds nothing changes nothing. -/
def amend (f : Value → Value) : (path : List String) → Value → Value
  | [], v => f v
  | segment :: rest, .object members =>
    match KeyMap.get? members segment with
    | some slot => .object (KeyMap.set members segment (amend f rest slot))
    | none => .object members
  | segment :: rest, .array items =>
    match index? segment with
    | some index =>
      match items[index]? with
      | some slot => .array (items.set index (amend f rest slot))
      | none => .array items
    | none => .array items
  | _ :: _, v => v

end Json.Value

def Document.get? (document : Document) (path : String) : Option Value :=
  (Value.object document).find? (segments path)

end LiveDoc
