import LiveDoc.Backend.Channel

/-!
# LiveDoc — an example backend

A small backend to try the system with. It lets in clients with a token, echoes HTTP requests, and
has functions that echo, add, fail, count, and take their time. One of its functions ends the
process, so what a frame does to it is a reaction of the process (`Demo.react`), not of its handlers
alone.
-/

namespace LiveDoc

open Json

/-- The example backend, by how often it was made to count. -/
structure Demo where
  count : Nat := 0
  deriving DecidableEq, Repr, Inhabited

/-- What the example backend is told to do instead of serving. -/
inductive DemoMode where
  | serves
  -- Ends before it connects.
  | exitsEarly
  -- Connects and says something else than that it is ready.
  | failsHandshake
  -- Never connects.
  | stalls
  deriving DecidableEq, Repr, Inhabited

/-- The mode that the variables of the environment ask for. -/
def DemoMode.ofEnvironment (environment : KeyMap String) : DemoMode :=
  let isOn (name : String) : Bool := KeyMap.get? environment name = some "1"
  if isOn "DEMO_BACKEND_EXIT_EARLY" then .exitsEarly
  else if isOn "DEMO_BACKEND_FAIL_HANDSHAKE" then .failsHandshake
  else if isOn "DEMO_BACKEND_STALL" then .stalls
  else .serves

inductive DemoReaction where
  | sends (messages : List Message) (after : Demo)
  | exits (code : Nat)
  deriving Inhabited

namespace Demo

def toFloat? : Value → Option Float
  | .number (.int i) => some (Float.ofInt i)
  | .number (.float bits) => some (Float.ofBits bits)
  | _ => none

/-- A float as a value; null if it is not finite. -/
def ofFloat (x : Float) : Value := if x.isFinite then .number (.float x.toBits) else .null

def number (call : RpcCall) (name : String) : Except String Float :=
  match (KeyMap.get? call.args name).bind toFloat? with
  | some x => .ok x
  | none => .error s!"missing number \"{name}\""

def add (call : RpcCall) : Outcome Value :=
  match number call "a", number call "b" with
  | .ok a, .ok b => .returned (ofFloat (a + b))
  | .error e, _ | _, .error e => .failed e

/-- How many milliseconds a call of `slow` takes, which is also its result. -/
def slowness (call : RpcCall) : Nat := ((KeyMap.get? call.args "ms").bind Value.nat?).getD 1000

/-- Counts, and puts the count into the document. -/
def bump (d : Demo) : RpcEffect where
  batches := [[.set (some "counter") (.nat (d.count + 1))]]
  outcome := .returned (.nat (d.count + 1))

def verdict (request : AuthRequest) : Outcome Fields :=
  if KeyMap.get? request.headers "x-demo-token" = some "letmein" then
    .returned [("user", .string "demo")]
  else
    .returned [("error", .string "Missing or invalid demo token"), ("status", .nat 401)]

def described (request : ApiRequest) : ApiResponse where
  id := request.id
  status := 200
  body := .object (KeyMap.ofEntries
    [("method", .string request.method), ("path", .string request.path),
      ("query", Record.ofTextMap request.query), ("body", request.body)])

def backend (d : Demo) : Backend :=
  let give (outcome : RpcCall → Outcome Value) (call : RpcCall) : RpcEffect :=
    { outcome := outcome call }
  { functions := KeyMap.ofEntries
      [("add", give add), ("bump", fun _ => d.bump),
        ("echo", give fun call => .returned (.object call.args)),
        ("fail", give fun _ => .failed "requested failure"),
        ("slow", give fun call => .returned (.nat (slowness call)))]
    authHandler := some verdict
    apiHandler := some fun request => .returned (described request) }

/-- What the backend writes before it serves: that it is up, as the process with a number. -/
def greeting (process : Nat) : Outbox :=
  { queued := [.apply [.merge (some "backend")
      (.object [("pid", .nat process), ("status", .string "up")])]] }

/-- What the backend writes when it is told to fail its handshake. -/
def wrongGreeting : Message := .log ["not ready"]

def called? (frame : ChannelFrame) : Option String :=
  match Message.parse frame.message with
  | .ok (.rpcRequest r) => some r.function
  | _ => none

def react (d : Demo) (frame : ChannelFrame) : DemoReaction :=
  match called? frame with
  | some "crash" => .exits 3
  | some "bump" => .sends (d.backend.replies frame) { count := d.count + 1 }
  | _ => .sends (d.backend.replies frame) d

end Demo

end LiveDoc
