import LiveDoc.Supervisor.Child
import LiveDoc.Supervisor.Error
import LiveDoc.Supervisor.Relay
import LiveDoc.Supervisor.State

/-!
# LiveDoc — the supervisor

The supervisor keeps one backend process alive. Commands of its callers, events of the current child
and events of the server come one at a time, and the supervisor alone decides on the state; what is
to be done in the world is listed as effects, in order. Every child has a generation, and what is
reported of a generation that is not the current one is passed over.

Whoever starts the backend waits until it is ready, and whoever stops it until it is gone. Starts
and changes that come while it shuts down are joined into one new start. A backend that crashes is
started again after a while, unless a stop or a cycle came first, which the epoch tells.

* `Supervisor.step` — the effect of one input.
* `Supervisor.run` — the effect of inputs in turn.
-/

namespace LiveDoc

/-- What callers and timers ask of the supervisor. Callers are known by their labels. -/
inductive SupervisorCommand where
  | start (caller : String)
  | stop (caller : String)
  | restart (caller : String)
  | send (frame : ChannelFrame)
  | sourceChanged
  -- The delay after a crash is over.
  | respawn (epoch : Nat)
  deriving DecidableEq, Inhabited

inductive SupervisorInput where
  | command (command : SupervisorCommand)
  | child (generation : Nat) (event : ChildEvent)
  | server (event : ServerEvent)
  deriving DecidableEq, Inhabited

inductive SupervisorEvent where
  | stateChanged (before after : BackendState)
  -- A response of the backend, after it was relayed.
  | rpcResponse (response : RpcResponse)
  | crashed (code : Option Nat) (duringStart : Bool)
  deriving DecidableEq, Inhabited

inductive SupervisorEffect where
  -- A child was spawned.
  | spawned (generation : Nat)
  | kill (generation : Nat)
  -- The child is sent a line.
  | write (generation : Nat) (frame : ChannelFrame)
  -- A caller that started the backend is answered.
  | answer (caller : String) (outcome : Except SupervisorError Unit)
  -- A caller that stopped the backend is answered.
  | acknowledge (caller : String)
  | respawnLater (epoch : Nat)
  | notify (event : SupervisorEvent)
  | relay (relay : Relay)
  deriving Inhabited

structure Supervisor where
  state : BackendState := .notStarted
  -- The generation of the child that exists.
  child : Option Nat := none
  -- The generation of the last child, spawned or not.
  generation : Nat := 0
  -- Callers that wait until the backend is ready.
  starters : List String := []
  -- Callers that wait until the backend is gone.
  stoppers : List String := []
  -- A new child is spawned as soon as the old one is gone.
  restarts : Bool := false
  -- A stop came last; crashes and changes start nothing.
  isStopped : Bool := false
  -- Tells the respawn that is due from those that were overtaken.
  epoch : Nat := 0
  deriving DecidableEq, Repr, Inhabited

namespace Supervisor

/-- A supervisor after an input, and the effects of the input. -/
abbrev Turn := List SupervisorEffect × Supervisor

def andThen (t : Turn) (f : Supervisor → Turn) : Turn :=
  let (more, s) := f t.2
  (t.1 ++ more, s)

/-! ## Changes of state -/

/-- Changes the state, and tells the owner. -/
def moveTo (s : Supervisor) (next : BackendState) : Turn :=
  if s.state = next then ([], s)
  else ([.notify (.stateChanged s.state next)], { s with state := next })

/-- Answers all who wait until the backend is ready. -/
def answerStarters (s : Supervisor) (outcome : Except SupervisorError Unit) : Turn :=
  (s.starters.map (.answer · outcome), { s with starters := [] })

/-- Answers all who wait until the backend is gone. -/
def acknowledgeStoppers (s : Supervisor) : Turn :=
  (s.stoppers.map .acknowledge, { s with stoppers := [] })

/-- Spawns a child of a new generation, which may fail. -/
def spawn (failure : Option SupervisorError) (s : Supervisor) : Turn :=
  andThen ({ s with generation := s.generation + 1 }.moveTo .starting) fun s =>
    match failure with
    | none => ([.spawned s.generation], { s with child := some s.generation })
    | some error => andThen (s.moveTo .dead) (answerStarters · (.error error))

def killChild (s : Supervisor) : Turn :=
  andThen (s.child.toList.map .kill, s) (moveTo · .shuttingDown)

def cycle (failure : Option SupervisorError) (s : Supervisor) : Turn :=
  let s := { s with epoch := s.epoch + 1 }
  match s.state with
  | .starting | .running => { s with restarts := true }.killChild
  | .shuttingDown => ([], { s with restarts := true })
  | .notStarted | .dead => s.spawn failure

/-- The current child is sent a line, if it runs. -/
def forward (s : Supervisor) (frame : ChannelFrame) : Turn :=
  match s.child, s.state with
  | some generation, .running => ([.write generation frame], s)
  | _, _ => ([], s)

/-! ## Commands -/

def start (failure : Option SupervisorError) (caller : String) (s : Supervisor) : Turn :=
  let s := { s with isStopped := false }
  let waiting := { s with starters := s.starters ++ [caller] }
  match s.state with
  | .running => ([.answer caller (.ok ())], s)
  | .starting => ([], waiting)
  | .shuttingDown => ([], { waiting with restarts := true })
  | .notStarted | .dead => waiting.spawn failure

/-- A caller wants the backend to be gone. -/
def stop (caller : String) (s : Supervisor) : Turn :=
  let s := { s with isStopped := true, restarts := false, epoch := s.epoch + 1 }
  let waiting := { s with stoppers := s.stoppers ++ [caller] }
  match s.state with
  | .starting | .running => waiting.killChild
  | .shuttingDown => ([], waiting)
  | .notStarted | .dead => ([.acknowledge caller], s)

/-- The effect of a command. A spawn in its course fails with the given error, if there is one. -/
def handleCommand (failure : Option SupervisorError) (s : Supervisor) : SupervisorCommand → Turn
  | .start caller => s.start failure caller
  | .stop caller => s.stop caller
  | .restart caller =>
    { s with isStopped := false, starters := s.starters ++ [caller] }.cycle failure
  | .send frame => s.forward frame
  | .sourceChanged => if s.isStopped then ([], s) else s.cycle failure
  | .respawn epoch =>
    if epoch = s.epoch ∧ s.state = .dead ∧ ¬s.isStopped then s.spawn failure else ([], s)

/-! ## Events of the child -/

/-- A crash is followed by a new start after a while. -/
def scheduleRespawn (s : Supervisor) : Turn :=
  ([.respawnLater (s.epoch + 1)], { s with epoch := s.epoch + 1 })

/-- What follows the exit of a child, by the state it was in. -/
def afterExit (failure : Option SupervisorError) (code : Option Nat) (before : BackendState)
    (s : Supervisor) : Turn :=
  match before with
  | .starting =>
    andThen ([.notify (.crashed code true)], { s with restarts := false })
      (answerStarters · (.error (.earlyExit code)))
  | .running =>
    andThen ([.notify (.crashed code false)], s) fun s =>
      if s.isStopped then ([], s) else s.scheduleRespawn
  | _ =>
    andThen s.acknowledgeStoppers fun s =>
      if s.restarts then { s with restarts := false }.spawn failure
      else if s.isStopped then s.answerStarters (.error .stopped)
      else ([], s)

def handleExit (failure : Option SupervisorError) (code : Option Nat) (s : Supervisor) : Turn :=
  andThen ({ s with child := none }.moveTo .dead) (afterExit failure code s.state)

/-- A message of the backend is relayed, whatever the state. -/
def dispatch (s : Supervisor) (message : Message) : Turn :=
  let told :=
    match message with
    | .rpcResponse r => [.notify (.rpcResponse r)]
    | _ => []
  ((Relay.ofMessage message).map .relay ++ told, s)

/-- The effect of an event of the current child. -/
def handleChild (failure : Option SupervisorError) (s : Supervisor) : ChildEvent → Turn
  | .ready =>
    if s.state = .starting then andThen (s.moveTo .running) (answerStarters · (.ok ()))
    else ([], s)
  | .handshakeFailed reason => andThen (s.answerStarters (.error (.handshake reason))) killChild
  | .message message => s.dispatch message
  | .malformed _ _ => ([], s)
  | .exited code => s.handleExit failure code

/-! ## Events of the server -/

/-- A request of the server goes to the backend, or is answered in its place. -/
def handleServer (s : Supervisor) (event : ServerEvent) : Turn :=
  if s.state = .running then
    match Relay.frame? event with
    | some frame => s.forward frame
    | none => ([], s)
  else ((Relay.refuse event).toList.map .relay, s)

/-! ## Steps -/

/-- The effect of one input. A spawn in its course fails with the given error, if there is one. -/
def step (failure : Option SupervisorError) (s : Supervisor) : SupervisorInput → Turn
  | .command command => s.handleCommand failure command
  | .child generation event =>
    if generation = s.generation then s.handleChild failure event else ([], s)
  | .server event => s.handleServer event

/-- The effect of inputs in turn, where each tells how a spawn in its course ends. -/
def run (s : Supervisor) : List (SupervisorInput × Option SupervisorError) → Turn
  | [] => ([], s)
  | (input, failure) :: rest => andThen (s.step failure input) (run · rest)

end Supervisor

end LiveDoc
