/-!
# LiveDoc — why a backend does not run

The causes for which the supervisor fails its callers, and their wording.
-/

namespace LiveDoc

/-- Why a start failed, or why there is no supervisor at all. -/
inductive SupervisorError where
  -- The process could not be made.
  | spawn (command reason : String)
  -- There is no channel for the process to connect to.
  | channel (reason : String)
  -- The process did not say that it is ready.
  | handshake (reason : String)
  -- The process ended before it was ready; its exit code, unless it was killed.
  | earlyExit (code : Option Nat)
  -- A stop ended the wait.
  | stopped
  -- The supervisor is gone.
  | gone
  -- The source tree cannot be watched.
  | watch (path reason : String)
  deriving DecidableEq, Repr, Inhabited

def exitCodeText : Option Nat → String
  | some code => s!"Some({code})"
  | none => "None"

def SupervisorError.message : SupervisorError → String
  | .spawn command reason => s!"Failed to spawn backend '{command}': {reason}"
  | .channel reason => s!"Backend channel error: {reason}"
  | .handshake reason => s!"Backend handshake failed: {reason}"
  | .earlyExit code => s!"Backend exited before it was ready (exit code {exitCodeText code})"
  | .stopped => "Backend was stopped"
  | .gone => "Supervisor is no longer running"
  | .watch path reason => s!"failed to watch path '{path}': {reason}"

end LiveDoc
