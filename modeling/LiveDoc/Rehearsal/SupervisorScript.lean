import LiveDoc.Rehearsal.ServerScript
import LiveDoc.Rehearsal.Stage

/-!
# LiveDoc — scripts for a supervisor

The steps of a script that plays the owner of a supervisor, its child and the server's peers, and
what is seen of each step. A step may expect something of the stage, and may collect the answers of
calls; it waits for both, and otherwise only where it deals with a peer.
-/

namespace LiveDoc.Rehearsal

open Json

inductive SupervisorAction where
  -- Commands are given to the supervisor, all before it handles the first.
  | submit (commands : List SupervisorCommand)
  -- The child connects, and writes its first line or hangs up.
  | openChannel (first : Option String)
  -- The child writes a line, which may end an upgrade or a request.
  | writeLine (line : String) (ends : Option String)
  | exit (code : Nat)
  -- The script changes one of its files.
  | touch
  | look
  -- A client sends a text frame; the step shows what it reads.
  | say (client text : String)
  | server (step : ServerStep)
  deriving Inhabited

structure SupervisorStep where
  action : SupervisorAction
  expects : Stage.Expectation := {}
  -- So many batches are to change the model.
  mutations : Option Nat := none
  -- The calls whose answers are collected.
  collects : List String := []
  deriving Inhabited

inductive SupervisorAnswer where
  | done
  -- There is no child whose channel could be opened.
  | notOpened
  -- Nobody took the line.
  | unread
  | ended (entry : Entry)
  | responded (exchanged : Exchanged)
  | watching (isWatching : Bool)
  -- The client has no socket.
  | absent
  | heard (items : List (Outbound SocketFrame))
  | server (answer : ServerAnswer)
  deriving Inhabited

structure SupervisorReport where
  answer : SupervisorAnswer
  -- What the step expected came to pass.
  synced : Bool
  events : List SupervisorEvent
  outcomes : KeyMap (Except SupervisorError Unit)
  frames : KeyMap (List (Outbound SocketFrame))
  -- The lines that the child received.
  lines : List String
  logs : List String
  deriving Inhabited

namespace Stage

/-- How a held upgrade or request that a line was to end stands. -/
def ending (s : Stage) (label : String) : SupervisorAnswer × Stage :=
  match s.front.conclude label with
  | (.unknown, front) =>
    match front.response label with
    | (.unknown, front) => (.done, { s with front })
    | (exchanged, front) => (.responded exchanged, { s with front })
  | (entry, front) => (.ended entry, { s with front })

/-- Whether a step of the server's deals with a peer, and so waits. -/
def dealsWithPeer : ServerStep → Bool
  | .connect _ _ | .http _ _ | .disconnect _ | .close => true
  | _ => false

def enact (s : Stage) : SupervisorAction → SupervisorAnswer × Stage
  | .submit commands => (.done, s.submit commands)
  | .openChannel first =>
    let (isOpen, s) := s.openChannel first
    (if isOpen then .done else .notOpened, s)
  | .writeLine line ends =>
    let (isRead, s) := s.writeLine line
    if isRead then (ends.map s.ending).getD (.done, s) else (.unread, s)
  | .exit code => (.done, s.endChild code)
  | .touch => (.done, s.touch)
  | .look => (.watching s.isWatching, s)
  | .say client text =>
    if KeyMap.hasKey s.front.sockets client then
      let s := { s with front := s.front.send client text }.pause
      let (items, front) := s.front.readSocket client
      (.heard items, { s with front })
    else (.absent, s)
  | .server step =>
    let (answer, front) := s.front.perform step
    let s := { s with front }
    (.server answer, if dealsWithPeer step then s.pause else s)

/-- Waits for what a step expects, if it expects anything. -/
def sync (s : Stage) (e : Expectation) : Bool × Stage :=
  if e = {} then (true, s) else s.expect e

def play (s : Stage) (step : SupervisorStep) : SupervisorReport × Stage :=
  let changes := s.front.server.model.mutationCount
  let (answer, s) := s.enact step.action
  let (synced, s) := s.sync { step.expects with mutations := step.mutations.map (changes + ·) }
  let (outcomes, s) := if step.collects.isEmpty then ([], s) else s.collect step.collects
  let (frames, front) := s.front.readAllSockets
  let (lines, s) := { s with front }.takeLines
  let (events, mailbox) := s.events.takeAll
  ({ answer, synced, events, outcomes, frames, lines, logs := s.logs },
    { s with events := mailbox, logs := [] })

end Stage

end LiveDoc.Rehearsal
