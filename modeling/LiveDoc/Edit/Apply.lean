import LiveDoc.Document.Merge
import LiveDoc.Edit.Basic

/-!
# LiveDoc — applying edits

A batch is checked as a whole before its first edit touches the document, so a refused batch changes
nothing. An edit whose path leads into an array by a segment that is no index leaves the document as
it is.

* `Edit.apply` — the document after one edit.
* `applyBatch` — the document after a batch, or the first error.
* `refreshBatch` — the batch that turns any document into the given one.
-/

namespace LiveDoc

open Json

/-- The last items of a list, up to the limit. -/
def keepLast (limit : Nat) (items : List Value) : List Value := items.drop (items.length - limit)

/-- The items that an appended value stands for: those of an array, or the value itself. -/
def appended : Value → List Value
  | .array items => items
  | value => [value]

/-- A path that is absent or empty counts as none. -/
def nonEmpty? (path : Option String) : Option String := path.filter (· ≠ "")

/-- Rewrites the slot at a key path, unless the path leads into an array by a segment that is no
index. -/
def Document.rewrite (document : Document) (path : String) (f : Value → Value) : Document :=
  match (Value.object document).rewrite? f (segments path) with
  | some v => v.members
  | none => document

/-- Rewrites the object at a path, made where there is none; without a path the document itself. -/
def Document.rewriteObject (document : Document) (path : Option String) (f : Fields → Fields) :
    Document :=
  match nonEmpty? path with
  | none => f document
  | some path => document.rewrite path fun slot => .object (f slot.members)

/-- Rewrites the object that a path finds, if any; without a path the document itself. -/
def Document.amendObject (document : Document) (path : Option String) (f : Fields → Fields) :
    Document :=
  match nonEmpty? path with
  | none => f document
  | some path =>
    ((Value.object document).amend
      (fun | .object fields => .object (f fields) | slot => slot) (segments path)).members

/-- The document after an edit that passes `Edit.validate`. -/
def Edit.apply (document : Document) : Edit → Document
  | .clear => []
  | .set path value => document.rewrite (path.getD "") fun _ => value
  | .merge path (.object source) => document.rewriteObject path (mergeFields · source)
  | .merge _ _ => document
  | .assign path (.object source) => document.rewriteObject path (KeyMap.setAll · source)
  | .assign _ _ => document
  | .append path value limit =>
    document.rewrite path fun slot =>
      .array (keepLast limit.toNat (slot.items?.getD [] ++ appended value))
  | .delete path keys => document.amendObject path fun fields => keys.foldl KeyMap.erase fields

/-- The first error among the edits, numbered from the given index. -/
def validateFrom (index : Nat) : List Edit → Except EditError Unit
  | [] => .ok ()
  | edit :: rest =>
    match edit.validate with
    | .ok () => validateFrom (index + 1) rest
    | .error e => .error (.inBatch index e)

/-- The document after a batch. The first edit that is refused refuses the whole batch. -/
def applyBatch (document : Document) (edits : List Edit) : Except EditError Document :=
  match validateFrom 0 edits with
  | .ok () => .ok (edits.foldl Edit.apply document)
  | .error e => .error e

/-- The batch that turns any document into the given one. -/
def refreshBatch (document : Document) : List Edit := [.clear, .assign none (.object document)]

end LiveDoc
