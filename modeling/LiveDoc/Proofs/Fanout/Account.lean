import LiveDoc.Proofs.Fanout.Queues

/-!
# LiveDoc — what is on record about a pump

A pump is used by many at once: commands are submitted, deliveries are decided in any order, readers
read and go away, also while a frame is on its way. `Pump.Happens` lists what may happen next, and
puts on record which commands were handled, who was evicted, and what was read. The record alone says
what each reader was to get (`Account`); it knows nothing of tables and queues.

* `Pump.Happens` — one thing that happens.
* `Pump.Runs` — a run from a fresh pump, with its record.
* `PumpRecord.account` — the account of one queue.
-/

namespace LiveDoc

variable {φ : Type}

inductive PumpEntry (φ : Type) where
  | handled (command : PumpCommand φ)
  | evicted (queue : Nat)
  | read (queue : Nat) (reading : Reading φ)

/-- What happened to a pump, oldest first. -/
abbrev PumpRecord (φ : Type) := List (PumpEntry φ)

/-! ## The account of a queue -/

/-- What the record says about one queue. -/
structure Account (φ : Type) where
  -- The id that the queue is attached under.
  client : Option String := none
  -- The frames that were to be delivered while the queue was attached.
  due : List φ := []
  -- The frames that were read.
  got : List φ := []
  -- The queue was evicted, or attached at the shutdown.
  isCutOff : Bool := false
  -- Nothing was read since the queue was cut off.
  mustClose : Bool := false

namespace Account

def owe (acc : Account φ) (frame : φ) : Account φ := { acc with due := acc.due ++ [frame] }

def leave (acc : Account φ) : Account φ := { acc with client := none }

def cut (acc : Account φ) : Account φ :=
  { acc with client := none, isCutOff := true, mustClose := true }

def read (acc : Account φ) : Reading φ → Account φ
  | .item (.frame frame) => { acc with got := acc.got ++ [frame], mustClose := false }
  | _ => { acc with mustClose := false }

def handle (n : Nat) (acc : Account φ) : PumpCommand φ → Account φ
  | .attach info queue refresh =>
    if queue = n then { acc with client := some info.id, due := [refresh] }
    else if acc.client = some info.id then acc.leave
    else acc
  | .detach client => if acc.client = some client then acc.leave else acc
  | .broadcast frame => if acc.client.isSome then acc.owe frame else acc
  | .unicast client frame => if acc.client = some client then acc.owe frame else acc
  | .shutdown => if acc.client.isSome then acc.cut else acc

/-- What an entry says about the queue with a number. -/
def note (n : Nat) (acc : Account φ) : PumpEntry φ → Account φ
  | .handled command => acc.handle n command
  | .evicted queue => if queue = n then acc.cut else acc
  | .read queue reading => if queue = n then acc.read reading else acc

end Account

/-- The account of the queue with a number. -/
def PumpRecord.account (record : PumpRecord φ) (n : Nat) : Account φ :=
  record.foldl (Account.note n) {}

theorem PumpRecord.account_append (record entries : PumpRecord φ) (n : Nat) :
    PumpRecord.account (record ++ entries) n =
      entries.foldl (Account.note n) (PumpRecord.account record n) :=
  List.foldl_append

/-! ## Runs -/

namespace Pump

/-- Who is evicted when the deliveries of a round are decided. -/
def evictions (r : Round φ) : PumpRecord φ :=
  if r.isRefresh then [] else r.failed.map fun a => .evicted a.queue

/-- One thing that happens to a pump, and what goes on record. Every client that attaches brings a
queue of its own. -/
inductive Happens : Pump φ → PumpRecord φ → Pump φ → Prop where
  | attach (p : Pump φ) (info : ClientInfo) (capacity : Nat) (refresh : φ) :
      Happens p [] ((p.openQueue capacity).2.submit (.attach info p.queues.length refresh))
  | detach (p : Pump φ) (client : String) : Happens p [] (p.submit (.detach client))
  | broadcast (p : Pump φ) (frame : φ) : Happens p [] (p.submit (.broadcast frame))
  | unicast (p : Pump φ) (client : String) (frame : φ) :
      Happens p [] (p.submit (.unicast client frame))
  | shutdown (p : Pump φ) : Happens p [] (p.submit .shutdown)
  -- The pump begins with the next command; what is left after a shutdown is not handled.
  | start {p : Pump φ} {command : PumpCommand φ} {rest : List (PumpCommand φ)}
      (idle : p.round = none) (next : p.commands = command :: rest) :
      Happens p (if p.running then [.handled command] else [])
        ({ p with commands := rest }.start command)
  -- A delivery is decided.
  | serve {p : Pump φ} {r : Round φ} {a : Attachment} (underway : p.round = some r)
      (target : a ∈ r.targets) : Happens p [] (p.serve a)
  -- All deliveries of a command are decided.
  | finish {p : Pump φ} {r : Round φ} (underway : p.round = some r) (decided : r.targets = []) :
      Happens p (evictions r) p.finish
  -- A reader takes what comes next.
  | read {p : Pump φ} {n : Nat} (exists_ : n < p.queues.length)
      (reader : (p.queue n).hasReader) : Happens p [.read n (p.read n).1] (p.read n).2
  -- A reader goes away.
  | hangUp (p : Pump φ) (n : Nat) : Happens p [] (p.hangUp n)

/-- The runs of a fresh pump, and their records. -/
inductive Runs : Pump φ → PumpRecord φ → Prop where
  | fresh : Runs {} []
  | step {p p' : Pump φ} {record entries : PumpRecord φ} (run : Runs p record)
      (happens : Happens p entries p') : Runs p' (record ++ entries)

end Pump

end LiveDoc
