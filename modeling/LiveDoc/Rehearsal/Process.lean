import LiveDoc.Backend.Demo
import LiveDoc.Rehearsal.Host
import LiveDoc.Settings.Basic
import LiveDoc.Supervisor.Child
import LiveDoc.Supervisor.Error

/-!
# LiveDoc — child processes that are played

A child process takes a while to boot and then does what its program does: it follows the script, is
the example backend, or ends. A program that has to reach the script or its supervisor, and cannot,
ends as well.
-/

namespace LiveDoc.Rehearsal

inductive Program where
  -- Reaches the script, and does what that says.
  | scripted
  | demo (mode : DemoMode)
  -- Some program of the host, which ends at once.
  | command (code : Nat)
  -- Cannot be spawned, for a reason that the host gives.
  | unspawnable (reason : String)
  deriving DecidableEq, Repr, Inhabited

/-- What a program does when it has booted. -/
inductive Boot where
  | followsScript
  -- Connects to the supervisor, and writes these lines.
  | connects (lines : List String)
  | exits (code : Nat)
  | idles
  deriving Inhabited

namespace Program

/-- What a process is given: its command and arguments, and the directory and the variables of its
environment. -/
def given (settings : Settings.Supervisor) : List String :=
  settings.command :: settings.args ++ settings.runtimeRoot.toList ++
    settings.env.flatMap fun (name, value) => [name, value]

/-- A program that is to be spawned with some settings; no NUL can be passed on to a process. -/
def spawnedWith (settings : Settings.Supervisor) (p : Program) : Program :=
  if (given settings).any (·.contains '\x00') then
    .unspawnable "nul byte found in provided data"
  else p

/-- The program of the host that the settings name. It is looked for where the environment of the
process says, or else where the host does. -/
def ofCommand (host : Host) (settings : Settings.Supervisor) : Program :=
  let directories := (settings.env.reverse.lookup "PATH").map (·.splitOn ":")
  match host.program (directories.getD host.searchPath) settings.command with
  | .ok code => .command code
  | .error fault => .unspawnable fault.message

/-- How long a program boots, in milliseconds. -/
def bootMs : Program → Nat
  | .scripted => 40
  | .demo _ | .command _ | .unspawnable _ => 5

/-- What a program does when it has booted. -/
def boot (network : Network) : Program → Boot
  | .scripted => if network = .connected then .followsScript else .exits 0
  | .demo .exitsEarly => .exits 2
  | .demo .stalls => .idles
  | .demo mode =>
    if network = .severed then .exits 1
    else if mode = .failsHandshake then .connects [Demo.wrongGreeting.line]
    else .connects (Demo.greeting 0).lines
  | .command code => .exits code
  | .unspawnable _ => .idles

/-- The error with which spawning a program fails, if it does. -/
def spawnFailure? (command : String) : Program → Option SupervisorError
  | .unspawnable reason => some (.spawn command reason)
  | _ => none

end Program

/-- A child process, and the supervisor's end of its channel. -/
structure Process where
  generation : Nat
  child : Child
  -- The script reached the process.
  isPresent : Bool := false
  -- The process is connected to the supervisor.
  isOpen : Bool := false
  hasExited : Bool := false
  -- The lines that the script has not seen.
  received : List String := []
  demo : Demo := {}
  deriving Inhabited

end LiveDoc.Rehearsal
