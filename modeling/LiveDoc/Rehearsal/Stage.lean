import LiveDoc.Rehearsal.Front
import LiveDoc.Rehearsal.Process
import LiveDoc.Supervisor.Basic

/-!
# LiveDoc — rehearsing a supervisor

A `Stage` is a supervisor with its server, its children and a clock. Whatever can happen at once
does so first: the pump works, the server's events and all other inputs come to the supervisor. Only
then does the clock go on, to the next alarm.

* `Stage.act?` — the next thing that can happen at once.
* `Stage.waitUntil` — lets things happen until a condition holds.
-/

namespace LiveDoc.Rehearsal

open Json

inductive Alarm where
  | boot (generation : Nat)
  | deadline (generation : Nat)
  | drained (generation : Nat)
  | respawn (epoch : Nat)
  | sourceChanged
  deriving DecidableEq, Repr, Inhabited

/-- A supervisor and all that it deals with. -/
structure Stage where
  host : Host
  settings : Settings.Supervisor := {}
  program : Program := .scripted
  front : Front
  supervisor : Supervisor := {}
  -- What waits for the supervisor, apart from the server's events.
  inbox : List SupervisorInput := []
  clock : Nat := 0
  alarms : List (Nat × Alarm) := []
  processes : List Process := []
  events : Mailbox SupervisorEvent := .ofCapacity 256
  -- What the callers were answered.
  outcomes : KeyMap (Except SupervisorError Unit) := []
  -- The log lines of children.
  logs : List String := []
  isWatching : Bool := false
  deriving Inhabited

namespace Stage

/-! ## Opening -/

/-- Why a path cannot be watched, if it cannot. -/
def watchFault? (host : Host) (path : String) : Option SupervisorError :=
  match host.find path with
  | .ok _ => none
  | .error .notFound => some (.watch path "No path was found.")
  | .error fault => some (.watch path fault.message)

/-- A stage, if the source tree can be watched. -/
def open? (host : Host) (settings : Settings.Supervisor) (program : Program) (server : Server) :
    Except SupervisorError Stage := do
  let watched := if settings.production then none else settings.sourceRoot
  if let some error := watched.bind (watchFault? host) then throw error
  return {
    host, settings, program
    front := { network := host.network, server }
    events := .ofCapacity settings.eventCapacity
    isWatching := watched.isSome }

/-! ## Children -/

def after (s : Stage) (ms : Nat) (alarm : Alarm) : Stage :=
  { s with alarms := s.alarms ++ [(s.clock + ms, alarm)] }

def process? (s : Stage) (generation : Nat) : Option Process :=
  s.processes.find? (·.generation = generation)

def lastProcess? (s : Stage) : Option Process := s.processes.getLast?

/-- Puts a process back that was changed. -/
def update (s : Stage) (p : Process) : Stage :=
  { s with processes := s.processes.map fun q => if q.generation = p.generation then p else q }

/-- Something happens to a child, and the supervisor is told. -/
def feed (s : Stage) (generation : Nat) (input : ChildInput) : Stage :=
  match s.process? generation with
  | some p =>
    let (events, child) := p.child.step input
    let s := s.update { p with child }
    { s with inbox := s.inbox ++ events.map (.child generation) }
  | none => s

def feedLines (s : Stage) (generation : Nat) (lines : List String) : Stage :=
  lines.foldl (fun s line => s.feed generation (.line line)) s

/-- A process ends, and its connection with it. -/
def exit (s : Stage) (generation : Nat) (code : Option Nat) : Stage :=
  match s.process? generation with
  | some p =>
    if p.hasExited then s
    else
      let s := (s.update { p with hasExited := true }).feed generation (.exit code)
      if p.isOpen then s.feed generation .hangUp else s.after drainMs (.drained generation)
  | none => s

/-- A process connects to the supervisor. -/
def connect (s : Stage) (generation : Nat) (lines : List String) : Stage :=
  match s.process? generation with
  | some p => (s.update { p with isOpen := true }).feedLines generation lines
  | none => s

def boot (s : Stage) (p : Process) : Stage :=
  if p.hasExited then s
  else
    match s.program.boot s.host.network with
    | .followsScript => s.update { p with isPresent := true }
    | .connects lines => s.connect p.generation lines
    | .exits code => s.exit p.generation (some code)
    | .idles => s

/-- A process is sent a line, unless its channel has ended. -/
def deliver (s : Stage) (p : Process) (frame : ChannelFrame) : Stage :=
  if !p.child.takesLines then s
  else
    match s.program with
    | .demo _ =>
      match p.demo.react frame with
      | .sends messages demo =>
        (s.update { p with demo }).feedLines p.generation (messages.map Message.line)
      | .exits code => s.exit p.generation (some code)
    | _ => s.update { p with received := p.received ++ [frame.line] }

/-! ## The supervisor -/

def spawned (s : Stage) (generation : Nat) : Stage :=
  let child : Child := { readyTimeoutMs := s.settings.readyTimeoutMs }
  let process : Process := { generation, child }
  let s := { s with processes := s.processes ++ [process] }
  (s.after s.program.bootMs (.boot generation)).after child.readyTimeoutMs (.deadline generation)

def settle (s : Stage) (caller : String) (outcome : Except SupervisorError Unit) : Stage :=
  { s with outcomes := KeyMap.set s.outcomes caller outcome }

/-- Something is handed on to the rest of the system. -/
def relay (s : Stage) (r : Relay) : Stage :=
  let s := { s with front := { s.front with server := s.front.server.perform r } }
  match r with
  | .log line => { s with logs := s.logs ++ [line] }
  | _ => s

def perform (s : Stage) : SupervisorEffect → Stage
  | .spawned generation => s.spawned generation
  | .kill generation => s.exit generation none
  | .write generation frame => ((s.process? generation).map (s.deliver · frame)).getD s
  | .answer caller outcome => s.settle caller outcome
  | .acknowledge caller => s.settle caller (.ok ())
  | .respawnLater epoch => s.after s.settings.respawnDelayMs (.respawn epoch)
  | .notify event => { s with events := s.events.offer event }
  | .relay r => s.relay r

def handle (s : Stage) (input : SupervisorInput) : Stage :=
  let failure := s.program.spawnFailure? s.settings.command
  let (effects, supervisor) := s.supervisor.step failure input
  effects.foldl perform { s with supervisor }

def submit (s : Stage) (commands : List SupervisorCommand) : Stage :=
  { s with inbox := s.inbox ++ commands.map .command }

/-! ## Time -/

def ring (s : Stage) : Alarm → Stage
  | .boot generation => ((s.process? generation).map s.boot).getD s
  | .deadline generation => s.feed generation .deadline
  | .drained generation => s.feed generation .drained
  | .respawn epoch => s.submit [.respawn epoch]
  | .sourceChanged => s.submit [.sourceChanged]

/-- The next thing that can happen at once. -/
def act? (s : Stage) : Option Stage :=
  if !s.front.server.pump.commands.isEmpty then some { s with front := s.front.settle }
  else
    match s.front.takeEvent with
    | (some event, front) => some ({ s with front }.handle (.server event))
    | (none, _) =>
      match s.inbox with
      | input :: rest => some ({ s with inbox := rest }.handle input)
      | [] => none

/-- The alarm that goes off first: the earliest, and of those the oldest. -/
def nextAlarm? (s : Stage) : Option (Nat × Alarm) :=
  s.alarms.foldl
    (fun first alarm =>
      match first with
      | some f => if alarm.1 < f.1 then some alarm else some f
      | none => some alarm)
    none

/-- Lets things happen until a condition holds or the clock would pass the limit. Whether the
condition holds. -/
def waitFor (holds : Stage → Bool) (limit : Nat) : (fuel : Nat) → Stage → Bool × Stage
  | 0, s => (holds s, s)
  | fuel + 1, s =>
    if holds s then (true, s)
    else
      match s.act? with
      | some s => waitFor holds limit fuel s
      | none =>
        match s.nextAlarm? with
        | some alarm =>
          if alarm.1 ≤ limit then
            waitFor holds limit fuel
              ({ s with clock := max s.clock alarm.1, alarms := s.alarms.erase alarm }.ring alarm.2)
          else (false, { s with clock := limit })
        | none => (false, { s with clock := limit })

/-- More things than happen while a script waits. -/
def eventBound : Nat := 100000

/-- Waits for a condition as long as scripts do. -/
def waitUntil (holds : Stage → Bool) (s : Stage) : Bool × Stage :=
  s.waitFor holds (s.clock + patienceMs) eventBound

/-- Lets happen all that can happen at once. -/
def pause (s : Stage) : Stage := (s.waitFor (fun _ => false) s.clock eventBound).2

/-! ## What scripts do -/

structure Expectation where
  state : Option BackendState := none
  -- The last child has reached the script.
  spawned : Bool := false
  -- So many batches have changed the model.
  mutations : Option Nat := none
  deriving DecidableEq, Repr, Inhabited

def meets (s : Stage) (e : Expectation) : Bool :=
  e.state.all (· = s.supervisor.state) &&
    (!e.spawned || s.lastProcess?.any fun p => p.isPresent && !p.hasExited) &&
    e.mutations.all (· ≤ s.front.server.model.mutationCount)

/-- Waits until the stage is as expected. Whether it came to that. -/
def expect (s : Stage) (e : Expectation) : Bool × Stage := s.waitUntil (·.meets e)

/-- Waits until the callers are answered; their answers. -/
def collect (s : Stage) (callers : List String) : KeyMap (Except SupervisorError Unit) × Stage :=
  let (_, s) := s.waitUntil fun s => callers.all (KeyMap.hasKey s.outcomes)
  (s.outcomes.filter fun (caller, _) => callers.contains caller, s)

/-- The last child connects to the supervisor and writes its first line, or hangs up without one.
Whether there is such a child. -/
def openChannel (s : Stage) (first : Option String) : Bool × Stage :=
  match s.lastProcess? with
  | some p =>
    if p.isPresent && !p.isOpen && !p.hasExited then
      let s := s.connect p.generation first.toList
      (true, if first.isSome then s else s.feed p.generation .hangUp)
    else (false, s)
  | none => (false, s)

/-- The last child writes a line. Whether there is such a child; the script waits in vain if not. -/
def writeLine (s : Stage) (line : String) : Bool × Stage :=
  match s.lastProcess? with
  | some p =>
    if p.isOpen && !p.hasExited then (true, (s.feed p.generation (.line line)).pause)
    else s.waitUntil fun _ => false
  | none => s.waitUntil fun _ => false

def endChild (s : Stage) (code : Nat) : Stage :=
  match s.lastProcess? with
  | some p => if p.isPresent then s.exit p.generation (some code) else s
  | none => s

/-- The script changes one of its files, which matters if they are watched. -/
def touch (s : Stage) : Stage :=
  if s.isWatching && s.settings.sourceRoot = some s.host.scriptRoot then
    s.after s.settings.watchDebounceMs .sourceChanged
  else s

/-- The lines that the last child received and the script has not seen. -/
def takeLines (s : Stage) : List String × Stage :=
  match s.lastProcess? with
  | some p => (p.received, s.update { p with received := [] })
  | none => ([], s)

end Stage

end LiveDoc.Rehearsal
