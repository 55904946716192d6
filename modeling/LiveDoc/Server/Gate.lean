import LiveDoc.Api.Reply

/-!
# LiveDoc — the gate

Where clients need leave to come in, their upgrades are held at the gate until somebody decides on
them. Five parties meet there: the backend's verdicts, the timer of an upgrade, the upgrade's own
task, its peer, and the server that closes. They share one table, and whoever takes an upgrade from
it is the only one who may decide on it. But a decision is handed over in two steps: the upgrade is
taken first, and then the decision is sent to its task, which comes upon it later. In between the
timer may run out, and the peer may hang up.

* `Gate.take`, `Gate.send`, `Gate.receive` — a decision is made, sent, and comes in.
* `Gate.expire`, `Gate.look` — a timer runs out; if it finds the upgrade taken, the task looks once
  whether the decision is there.
* `Gate.step`, `Gate.run` — the effect of inputs, for any interleaving.
* `Gate.settle`, `Gate.close` — decisions that are handed over with nothing in between.
-/

namespace LiveDoc

open Json

/-- Why a client is turned away, as an HTTP status and a text. -/
structure Rejection where
  status : UInt16
  error : String
  deriving DecidableEq, Repr, Inhabited

namespace Rejection

def shuttingDown : Rejection := { status := 503, error := "Server shutting down" }

def timedOut : Rejection := { status := 503, error := "Authorization timed out" }

/-- The reply to the upgrade. A status that HTTP cannot carry becomes 503. -/
def toReply (r : Rejection) : HttpReply where
  status := if isHttpStatus r.status then r.status.toNat else 503
  headers := [("content-type", "application/json")]
  body := (Value.object [("error", .string r.error)]).text

end Rejection

inductive UpgradeEnd where
  | allowed
  | rejected (rejection : Rejection)
  | timedOut
  | shutDown
  -- The peer hung up.
  | abandoned
  -- A decision was made, but the deadline came before it was sent.
  | overtaken
  deriving DecidableEq, Repr, Inhabited

/-- What the peer of an upgrade is told if it is turned away. -/
def UpgradeEnd.rejection? : UpgradeEnd → Option Rejection
  | .rejected r => some r
  | .timedOut | .overtaken => some .timedOut
  | .shutDown => some .shuttingDown
  | .allowed | .abandoned => none

/-- A decision on its way to the upgrade that was taken for it. -/
structure Handover where
  decision : UpgradeEnd
  isSent : Bool := false
  -- The timer of the upgrade ran out meanwhile.
  isLate : Bool := false
  deriving DecidableEq, Repr, Inhabited

/-- The upgrades that are held, those that were taken and wait for the decision, and those that
ended, in the order in which they did. -/
structure Gate where
  held : List String := []
  handovers : KeyMap Handover := []
  ended : List (String × UpgradeEnd) := []
  -- How many upgrades reached their deadline while they were held.
  timeouts : Nat := 0
  -- How many rejections met a held upgrade. Nothing but the metrics reads this number, so that a
  -- rejection counts as soon as it has taken the upgrade.
  rejections : Nat := 0
  deriving DecidableEq, Repr, Inhabited

namespace Gate

def isHeld (g : Gate) (client : String) : Bool := g.held.contains client

/-- The decision that is on its way to the upgrade of a client. -/
def handover? (g : Gate) (client : String) : Option Handover := KeyMap.get? g.handovers client

/-- How the last upgrade of a client ended, if it has. -/
def endOf? (g : Gate) (client : String) : Option UpgradeEnd :=
  if g.isHeld client then none else ((g.ended.filter (·.1 = client)).getLast?).map Prod.snd

def isAllowed (g : Gate) (client : String) : Bool := g.endOf? client = some .allowed

def hold (g : Gate) (client : String) : Gate := { g with held := g.held ++ [client] }

/-! ## Handing over a decision -/

/-- A decision is made on an upgrade, if it is held; nobody else can take it any more. -/
def take (g : Gate) (client : String) (decision : UpgradeEnd) : Gate :=
  if g.isHeld client then
    { g with
      held := g.held.filter (· ≠ client)
      handovers := KeyMap.set g.handovers client { decision } }
  else g

/-- The end of an upgrade that was taken. -/
def finish (g : Gate) (client : String) (how : UpgradeEnd) : Gate :=
  { g with handovers := KeyMap.erase g.handovers client, ended := g.ended ++ [(client, how)] }

def change (g : Gate) (client : String) (handover : Handover) : Gate :=
  { g with handovers := KeyMap.set g.handovers client handover }

/-- Who has taken an upgrade sends the decision. If the upgrade has ended, it gets nowhere. -/
def send (g : Gate) (client : String) : Gate :=
  match g.handover? client with
  | some h => g.change client { h with isSent := true }
  | none => g

/-- An upgrade that waits comes upon the decision. -/
def receive (g : Gate) (client : String) : Gate :=
  match g.handover? client with
  | some h => if h.isSent && !h.isLate then g.finish client h.decision else g
  | none => g

def allow (g : Gate) (client : String) : Gate := g.take client .allowed

def reject (g : Gate) (client : String) (rejection : Rejection) : Gate :=
  let met := if g.isHeld client then 1 else 0
  { g.take client (.rejected rejection) with rejections := g.rejections + met }

/-- Takes all upgrades that are held, to turn them away. -/
def drain (g : Gate) : Gate := g.held.foldl (fun g client => g.take client .shutDown) g

/-! ## Timers and peers -/

/-- The end of an upgrade that is held. -/
def drop (g : Gate) (client : String) (how : UpgradeEnd) : Gate :=
  { g with held := g.held.filter (· ≠ client), ended := g.ended ++ [(client, how)] }

/-- The timer of an upgrade runs out. If the upgrade was taken, its task has still to look for the
decision. -/
def expire (g : Gate) (client : String) : Gate :=
  if g.isHeld client then { g.drop client .timedOut with timeouts := g.timeouts + 1 }
  else
    match g.handover? client with
    | some h => g.change client { h with isLate := true }
    | none => g

/-- The task of an upgrade whose timer ran out looks once whether the decision is there. -/
def look (g : Gate) (client : String) : Gate :=
  match g.handover? client with
  | some h =>
    if h.isLate then g.finish client (if h.isSent then h.decision else .overtaken) else g
  | none => g

/-- The peer hangs up. Once the timer has run out it is too late for that: the task does not wait
any more. -/
def abandon (g : Gate) (client : String) : Gate :=
  if g.isHeld client then g.drop client .abandoned
  else
    match g.handover? client with
    | some h => if h.isLate then g else g.finish client .abandoned
    | none => g

end Gate

inductive GateInput where
  | arrive (client : String)
  -- Decisions, each of which takes the upgrades it is for.
  | allow (client : String)
  | reject (client : String) (rejection : Rejection)
  | close
  -- A decision is sent, and comes in.
  | send (client : String)
  | receive (client : String)
  -- A timer runs out, and the task of the upgrade looks for a decision.
  | deadline (client : String)
  | look (client : String)
  | hangUp (client : String)
  deriving DecidableEq, Repr, Inhabited

def Gate.step (g : Gate) : GateInput → Gate
  | .arrive client => g.hold client
  | .allow client => g.allow client
  | .reject client rejection => g.reject client rejection
  | .close => g.drain
  | .send client => g.send client
  | .receive client => g.receive client
  | .deadline client => g.expire client
  | .look client => g.look client
  | .hangUp client => g.abandon client

namespace Gate

def run (g : Gate) (inputs : List GateInput) : Gate := inputs.foldl step g

/-! ## Decisions that nothing comes between -/

/-- A decision on an upgrade is made, and handed over before anything else happens. -/
def settle (g : Gate) (client : String) (decision : GateInput) : Gate :=
  if g.isHeld client then g.run [decision, .send client, .receive client] else g

/-- Every upgrade that is held is turned away, before anything else happens. -/
def close (g : Gate) : Gate :=
  g.run (.close :: g.held.flatMap fun client => [.send client, .receive client])

end Gate

end LiveDoc
