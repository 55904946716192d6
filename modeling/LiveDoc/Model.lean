import LiveDoc.Edit.Apply
import LiveDoc.Json.Printer

/-!
# LiveDoc — the live model

A `Model` owns a document and counts the batches that changed it. `Model.mutate` applies a batch and
returns the notices it causes: one for every listener, in the order in which they registered. A
batch that is refused or empty changes nothing and causes none.
-/

namespace LiveDoc

open Json

/-- A document and what is known of its changes. Listeners are known by their labels. -/
structure Model (ι : Type) where
  document : Document := []
  listeners : List ι := []
  mutationCount : Nat := 0
  -- Some batch succeeded since the flag was last taken.
  dirty : Bool := false

/-- A listener is called with the edits of a batch. -/
structure Notice (ι : Type) where
  listener : ι
  edits : List Edit

/-- What is known of a model at one point. -/
structure ModelMetrics where
  -- The length of the document's text, in characters.
  serializedSize : Nat
  topLevelKeys : Nat
  mutationCount : Nat
  dirty : Bool

namespace Model

variable {ι : Type}

def ofDocument (document : Document) : Model ι := { document }

/-- Registers a listener behind those that are there. -/
def addListener (m : Model ι) (listener : ι) : Model ι :=
  { m with listeners := m.listeners ++ [listener] }

/-- Applies a batch and tells every listener. -/
def mutate (m : Model ι) (edits : List Edit) : Except EditError (Model ι × List (Notice ι)) :=
  if edits.isEmpty then .ok (m, [])
  else do
    let document ← applyBatch m.document edits
    return ({ m with document, mutationCount := m.mutationCount + 1, dirty := true },
      m.listeners.map fun listener => { listener, edits })

def metrics (m : Model ι) : ModelMetrics where
  serializedSize := (Value.object m.document).chars.length
  topLevelKeys := m.document.length
  mutationCount := m.mutationCount
  dirty := m.dirty

/-- The flag, and the model with the flag cleared. -/
def takeDirty (m : Model ι) : Bool × Model ι := (m.dirty, { m with dirty := false })

def summary (m : Model ι) : String :=
  s!"LiveModel \x7b top_level_keys: {m.document.length}, listeners: {m.listeners.length}, " ++
  s!"mutation_count: {m.mutationCount}, dirty: {m.dirty} \x7d"

end Model

end LiveDoc
