import LiveDoc.Json.Value

/-!
# LiveDoc — merging objects

`mergeFields` lays one object over another. Where both have an object under a key the two are merged
in turn; everywhere else the value laid over wins. Arrays are replaced as a whole.
-/

namespace LiveDoc.Json

mutual

/-- Lays the second object's members over the first. -/
def mergeFields (target : Fields) : (source : List (String × Value)) → Fields
  | [] => target
  | (key, incoming) :: rest =>
    mergeFields (KeyMap.set target key (mergeSlot (KeyMap.get? target key) incoming)) rest

/-- The value of a key after a value was laid over the one it had, if any. -/
def mergeSlot (existing : Option Value) : (incoming : Value) → Value
  | .object source =>
    match existing with
    | some (.object target) => .object (mergeFields target source)
    | _ => .object source
  | incoming => incoming

end

end LiveDoc.Json
