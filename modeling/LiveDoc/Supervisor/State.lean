/-!
# LiveDoc — the life of a backend

A backend is started, becomes ready, shuts down or dies, and may be started again. The states in
which a child process exists are those between a start and the exit.
-/

namespace LiveDoc

inductive BackendState where
  | notStarted
  | starting
  | running
  | shuttingDown
  | dead
  deriving DecidableEq, Repr, Inhabited

namespace BackendState

def all : List BackendState := [.notStarted, .starting, .running, .shuttingDown, .dead]

/-- Whether a state may follow another one directly. -/
def canBecome : BackendState → BackendState → Bool
  | .notStarted, .starting => true
  | .starting, .running => true
  | .starting, .shuttingDown => true
  | .starting, .dead => true
  | .running, .shuttingDown => true
  | .running, .dead => true
  | .shuttingDown, .dead => true
  | .dead, .starting => true
  | _, _ => false

def hasProcess : BackendState → Bool
  | .starting | .running | .shuttingDown => true
  | .notStarted | .dead => false

def name : BackendState → String
  | .notStarted => "not_started"
  | .starting => "starting"
  | .running => "running"
  | .shuttingDown => "shutting_down"
  | .dead => "dead"

def ofName? (name : String) : Option BackendState := all.find? (·.name = name)

end BackendState

end LiveDoc
