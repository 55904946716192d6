import LiveDoc.Fanout.Pump

/-!
# LiveDoc — rehearsing the pump

A script plays those who give commands to a pump, and the readers of its queues. The actions of one
step follow each other at once, and the pump works when the last is done; only a detachment and a
shutdown are waited for, so that the pump has worked before the action that follows.

Each client has one reader. Who attaches again drops the reader that it had.

* `PumpBench.play` — a step of the script.
-/

namespace LiveDoc.Rehearsal

variable {φ : Type}

inductive PumpAction (φ : Type) where
  -- A client comes with a queue of some capacity, of which the reader may be gone already.
  | attach (info : ClientInfo) (capacity : Nat) (refresh : φ) (isGone : Bool)
  | detach (client : String)
  | broadcast (frame : φ)
  | unicast (client : String) (frame : φ)
  | shutdown
  -- A reader goes away.
  | hangUp (client : String)
  -- A reader takes what comes next.
  | read (client : String)
  -- Whether a client is in the table.
  | find (client : String)
  deriving Inhabited

/-- What is seen of a step. Of several actions of a kind the last is seen. -/
structure PumpObservation (φ : Type) where
  -- Whether the client was found that was looked for.
  isFound : Option Bool := none
  -- What a reader took, if there is one.
  reading : Option (Option (Reading φ)) := none
  deriving Inhabited

/-- A pump, and the number of the queue that each client reads. -/
structure PumpBench (φ : Type) where
  pump : Pump φ := {}
  readers : KeyMap Nat := []
  deriving Inhabited

namespace PumpBench

/-- A command is put behind those that wait. -/
def submit (b : PumpBench φ) (command : PumpCommand φ) : PumpBench φ :=
  { b with pump := b.pump.submit command }

def settle (b : PumpBench φ) : PumpBench φ := { b with pump := b.pump.drain }

def hangUp (b : PumpBench φ) (client : String) : PumpBench φ :=
  match KeyMap.get? b.readers client with
  | some queue =>
    { b with pump := b.pump.hangUp queue, readers := KeyMap.erase b.readers client }
  | none => b

/-- A client comes with a new queue and a reader for it. -/
def attach (b : PumpBench φ) (info : ClientInfo) (capacity : Nat) (refresh : φ) : PumpBench φ :=
  let b := b.hangUp info.id
  let (queue, pump) := b.pump.openQueue capacity
  { b with pump, readers := KeyMap.set b.readers info.id queue }.submit (.attach info queue refresh)

/-- The reader of a client takes what comes next; nothing if there is no reader. -/
def read (b : PumpBench φ) (client : String) : Option (Reading φ) × PumpBench φ :=
  match KeyMap.get? b.readers client with
  | some queue =>
    let (reading, pump) := b.pump.read queue
    (some reading, { b with pump })
  | none => (none, b)

/-- What an action does, and what is seen after it. -/
def act (seen : PumpObservation φ) (b : PumpBench φ) :
    PumpAction φ → PumpObservation φ × PumpBench φ
  | .attach info capacity refresh isGone =>
    let b := b.attach info capacity refresh
    (seen, if isGone then b.hangUp info.id else b)
  | .detach client => (seen, (b.submit (.detach client)).settle)
  | .broadcast frame => (seen, b.submit (.broadcast frame))
  | .unicast client frame => (seen, b.submit (.unicast client frame))
  | .shutdown => (seen, (b.submit .shutdown).settle)
  | .hangUp client => (seen, b.hangUp client)
  | .read client =>
    let (reading, b) := b.read client
    ({ seen with reading := some reading }, b)
  | .find client => ({ seen with isFound := some (b.pump.hasClient client) }, b)

def play (b : PumpBench φ) (actions : List (PumpAction φ)) : PumpObservation φ × PumpBench φ :=
  let (seen, b) := actions.foldl (fun (seen, b) action => b.act seen action) ({}, b)
  (seen, b.settle)

end PumpBench

end LiveDoc.Rehearsal
