import LiveDoc.Document.Path

/-!
# LiveDoc — edits

An `Edit` is one change of a document, and a batch is a list of edits. Batches are the only way a
document changes, on the side that owns it and on every replica alike.

`Edit.validate` checks what does not depend on the document, and decides alone whether an edit is
refused: an edit that passes is applied to every document, though it may leave it as it is.
-/

namespace LiveDoc

open Json

/-- One change of a document. A path that is absent or empty addresses the whole document, for those
edits that may do so. -/
inductive Edit where
  -- Drop every key of the document.
  | clear
  -- Put the value at the path.
  | set (path : Option String) (value : Value)
  -- Merge the object deeply into the object at the path.
  | merge (path : Option String) (value : Value)
  -- Put the members of the object into the object at the path.
  | assign (path : Option String) (value : Value)
  -- Append to the array at the path and keep its last items only, up to the limit.
  | append (path : String) (value : Value) (limit : UInt64)
  -- Drop keys of the object at the path.
  | delete (path : Option String) (keys : List String)
  deriving DecidableEq, Inhabited

/-- The tags of the edits on the wire, in the order in which they are numbered. -/
def Edit.tags : List String :=
  ["$clearAll", "$set", "$merge", "$shallowAssign", "$circularAppend", "$deleteKeys"]

def Edit.tag : Edit → String
  | .clear => "$clearAll"
  | .set .. => "$set"
  | .merge .. => "$merge"
  | .assign .. => "$shallowAssign"
  | .append .. => "$circularAppend"
  | .delete .. => "$deleteKeys"

inductive EditError where
  | unsupportedType (tag : String)
  | malformed (detail : String)
  | missingPath (tag : String)
  | invalidPath (path : String)
  | notAnObject (tag found : String)
  | inBatch (index : Nat) (cause : EditError)
  deriving DecidableEq, Inhabited

def EditError.message : EditError → String
  | .unsupportedType tag => s!"Unsupported operation type: {tag}"
  | .malformed detail => s!"Malformed operation: {detail}"
  | .missingPath tag => s!"Operation {tag} requires a non-empty keyPath"
  | .invalidPath path => s!"Invalid keyPath '{path}'"
  | .notAnObject tag found => s!"Operation {tag} requires an object value, got {found}"
  | .inBatch index cause => s!"Operation #{index} failed: {cause.message}"

def checkPath (tag : String) (path : Option String) : Except EditError Unit :=
  match path with
  | none | some "" => .error (.missingPath tag)
  | some path => if isValidPath path then .ok () else .error (.invalidPath path)

def checkOptionalPath (path : Option String) : Except EditError Unit :=
  match path with
  | none | some "" => .ok ()
  | some path => if isValidPath path then .ok () else .error (.invalidPath path)

/-- Checks everything that does not depend on the document. -/
def Edit.validate (edit : Edit) : Except EditError Unit :=
  match edit with
  | .clear => .ok ()
  | .set path _ => checkPath edit.tag path
  | .merge path value | .assign path value =>
    if value.isObject then checkOptionalPath path
    else .error (.notAnObject edit.tag value.kind)
  | .append path _ _ => checkPath edit.tag (some path)
  | .delete path _ => checkOptionalPath path

end LiveDoc
