import LiveDoc.Fanout.Queue
import LiveDoc.KeyMap

/-!
# LiveDoc — the pump

Every frame for every client passes through the pump, which handles one command after the other: a
frame for one client never overtakes a frame for all that was submitted before it. A client whose
queue is full is evicted, so that no client reads a frame behind one that it missed.

Each client that connects gets a queue of its own, known by its number. The table says which queue
belongs to the client with an id; attaching an id again puts the new queue in place of the old one.
Frames may be of any type.

A command may send a frame on its way to several clients at once. Each delivery is decided by itself,
while readers go on reading, and when all are decided the clients whose delivery failed leave.

* `Pump.submit` — puts a command behind those that wait.
* `Pump.start`, `Pump.serve`, `Pump.finish` — the handling of one command, step by step.
* `Pump.handle` — the effect of one command.
* `Pump.step`, `Pump.drain` — handle the next command, or all that wait.
-/

namespace LiveDoc

structure ClientInfo where
  id : String
  remote : String := ""
  -- In milliseconds of the epoch.
  connectedAt : Nat := 0
  deriving DecidableEq, Repr, Inhabited

inductive PumpCommand (φ : Type) where
  -- Take a client into the table; its first frame is the refresh.
  | attach (info : ClientInfo) (queue : Nat) (refresh : φ)
  | detach (client : String)
  | broadcast (frame : φ)
  | unicast (client : String) (frame : φ)
  | shutdown
  deriving Inhabited

structure PumpStats where
  broadcasts : Nat := 0
  unicasts : Nat := 0
  sent : Nat := 0
  dropped : Nat := 0
  evicted : Nat := 0
  deriving DecidableEq, Repr, Inhabited

def PumpStats.count (s : PumpStats) : Delivery → PumpStats
  | .sent => { s with sent := s.sent + 1 }
  | .closed | .lagging => { s with dropped := s.dropped + 1 }

/-- A client in the table: who it is, and the number of its queue. -/
structure Attachment where
  info : ClientInfo
  queue : Nat
  deriving DecidableEq, Repr, Inhabited

structure Round (φ : Type) where
  frame : φ
  -- The clients whose delivery is not decided.
  targets : List Attachment
  -- The clients that are to leave the table when all deliveries are decided.
  failed : List Attachment := []
  -- The frame is a refresh, and its target has to get it or leaves the table.
  isRefresh : Bool := false
  deriving Inhabited

/-- Decides the delivery to a target. A client without a reader stays in the table, except if it was
to get its refresh; a client that lags goes in any case. -/
def Round.settle {φ : Type} (r : Round φ) (a : Attachment) (delivery : Delivery) : Round φ :=
  let isFailed := delivery = .lagging || (r.isRefresh && delivery = .closed)
  { r with
    targets := r.targets.erase a
    failed := if isFailed then r.failed ++ [a] else r.failed }

/-- The pump, the commands that wait for it, and the queues of all clients that ever came. -/
structure Pump (φ : Type) where
  commands : List (PumpCommand φ) := []
  table : KeyMap Attachment := []
  queues : List (Queue φ) := []
  stats : PumpStats := {}
  running : Bool := true
  -- The frame that is on its way, if a command is being handled.
  round : Option (Round φ) := none
  deriving Inhabited

namespace Pump

variable {φ : Type}

/-! ## Queues -/

/-- Makes a queue for a new client; also its number. -/
def openQueue (p : Pump φ) (capacity : Nat) : Nat × Pump φ :=
  (p.queues.length, { p with queues := p.queues ++ [.ofCapacity capacity] })

def updateQueue (p : Pump φ) (n : Nat) (f : Queue φ → Queue φ) : Pump φ :=
  { p with queues := p.queues.modify n f }

/-- The reader of a queue takes what comes next. -/
def read (p : Pump φ) (n : Nat) : Reading φ × Pump φ :=
  match p.queues[n]? with
  | some q => (q.read.1, p.updateQueue n fun q => q.read.2)
  | none => (.ended, p)

def hangUp (p : Pump φ) (n : Nat) : Pump φ := p.updateQueue n Queue.hangUp

/-! ## Deliveries -/

def deliver (p : Pump φ) (n : Nat) (frame : φ) : Delivery × Pump φ :=
  match p.queues[n]? with
  | some q =>
    let (delivery, q) := q.deliver frame
    (delivery, { p with queues := p.queues.set n q, stats := p.stats.count delivery })
  | none => (.closed, { p with stats := p.stats.count .closed })

/-- Takes a client out of the table and tells its reader to close. -/
def evict (p : Pump φ) (a : Attachment) : Pump φ :=
  { p.updateQueue a.queue Queue.evict with
    table := KeyMap.erase p.table a.info.id
    stats := { p.stats with evicted := p.stats.evicted + 1 } }

/-- Takes a client out of the table; what waits for it can still be read. -/
def detach (p : Pump φ) (client : String) : Pump φ :=
  match KeyMap.get? p.table client with
  | some a => { p.updateQueue a.queue Queue.release with table := KeyMap.erase p.table client }
  | none => p

/-! ## Commands -/

/-- The writer of a queue that never came into the table goes away. -/
def discard (p : Pump φ) : PumpCommand φ → Pump φ
  | .attach _ queue _ => p.updateQueue queue Queue.release
  | _ => p

def targets (p : Pump φ) : List Attachment := p.table.map Prod.snd

/-- Begins to handle a command, up to the deliveries that it asks for. A pump that was shut down does
nothing any more. -/
def start (p : Pump φ) (command : PumpCommand φ) : Pump φ :=
  if !p.running then p.discard command
  else
    match command with
    | .attach info queue refresh =>
      let p := p.detach info.id
      { p with
        table := KeyMap.set p.table info.id { info, queue }
        round := some { frame := refresh, targets := [{ info, queue }], isRefresh := true } }
    | .detach client => p.detach client
    | .broadcast frame =>
      { p with
        stats := { p.stats with broadcasts := p.stats.broadcasts + 1 }
        round := some { frame, targets := p.targets } }
    | .unicast client frame =>
      let p := { p with stats := { p.stats with unicasts := p.stats.unicasts + 1 } }
      match KeyMap.get? p.table client with
      | some a => { p with round := some { frame, targets := [a] } }
      | none => { p with stats := p.stats.count .closed }
    | .shutdown =>
      let p := p.targets.foldl (fun p a => p.updateQueue a.queue Queue.shutDown) p
      { p with table := [], running := false }

/-- The delivery to a target is decided: the frame is in its queue, or the queue has no reader, or
the pump has waited long enough for room. -/
def serve (p : Pump φ) (a : Attachment) : Pump φ :=
  match p.round with
  | some r =>
    let (delivery, p) := p.deliver a.queue r.frame
    { p with round := some (r.settle a delivery) }
  | none => p

/-- Ends the handling of a command: those leave the table whose delivery failed. -/
def finish (p : Pump φ) : Pump φ :=
  match p.round with
  | some r =>
    let p := { p with round := none }
    if r.isRefresh then r.failed.foldl (fun p a => p.detach a.info.id) p
    else r.failed.foldl evict p
  | none => p

/-- Decides the deliveries that are on their way, in the order of the targets. -/
def complete (p : Pump φ) : Pump φ :=
  match p.round with
  | some r => (r.targets.foldl serve p).finish
  | none => p

/-- The effect of one command, if no one reads while the pump handles it. -/
def handle (p : Pump φ) (command : PumpCommand φ) : Pump φ := (p.start command).complete

/-- Puts a command behind those that wait. A pump that was shut down takes none. -/
def submit (p : Pump φ) (command : PumpCommand φ) : Pump φ :=
  if p.running then { p with commands := p.commands ++ [command] } else p.discard command

/-- Handles the next command, if one waits. -/
def step (p : Pump φ) : Pump φ :=
  match p.commands with
  | [] => p
  | command :: rest => { p with commands := rest }.handle command

/-- Handles all commands that wait, until the pump is idle. -/
def drain (p : Pump φ) : Pump φ := Nat.repeat step p.commands.length p

def hasClient (p : Pump φ) (client : String) : Bool := KeyMap.hasKey p.table client

/-- The clients in the table, by their ids. -/
def clients (p : Pump φ) : List ClientInfo := p.targets.map (·.info)

end Pump

end LiveDoc
