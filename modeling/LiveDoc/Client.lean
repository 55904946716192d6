import LiveDoc.Edit.Apply
import LiveDoc.Mailbox
import LiveDoc.Message.Wire
import LiveDoc.Text.Duration

/-!
# LiveDoc — the client

A client keeps a replica of the document, which starts empty and changes by `apply` messages alone,
and a table of the calls that it sent and that have not ended. It connects, and connects again after
each session that ends; the replica outlives the sessions and the calls do not.

Every input is one atomic step (`Client.step`). A call ends at most once: with the response that
carries its id, at its deadline, or with the session it was sent in.

Whoever makes a call waits beside the session that reads the responses, so the two may overlap. A
response first takes the entry of its call and then hands the outcome over, and a deadline may come
between. The call then ends by its deadline, the outcome is dropped, and all is as if the deadline
had come first and the response had met no call. So each of the two is one step, the deadline first.

A call goes into the table before its frame is sent, and when a session ends nothing can be sent any
more before the pending calls fail. A call that is made meanwhile is either in the table by then and
fails with the others, or it cannot be sent and takes its own entry out. Either way no entry stays,
and the call ends as one does that is made after the session.

* `Client.receive` — a frame from the server.
* `Client.call` — sends a call, if a session is open.
* `Client.expire` — a call reaches its deadline.
* `Client.opened`, `Client.closed` — a session begins and ends.
-/

namespace LiveDoc

open Json

/-- What the connection of a client is at. -/
inductive ConnectionState where
  | connecting
  | connected
  -- Waits before it connects again.
  | backingOff
  | stopped
  deriving DecidableEq, Repr, Inhabited

inductive CallError where
  | timeout (function : String) (afterMs : Nat)
  | remote (error : String)
  | notConnected
  deriving DecidableEq, Repr, Inhabited

def CallError.message : CallError → String
  | .timeout function afterMs =>
    s!"RPC \"{function}\" timed out after {Text.duration afterMs}"
  | .remote error => error
  | .notConnected => "Not connected"

structure CallEnd where
  id : String
  outcome : Except CallError Value
  deriving Inhabited

inductive ClientEvent where
  | connected
  | disconnected
  -- A batch of so many edits changed the replica.
  | updated (edits : Nat)
  -- A value whose type is none of the messages'.
  | received (value : Value)
  deriving DecidableEq, Inhabited

structure ClientStats where
  frames : Nat := 0
  edits : Nat := 0
  reconnects : Nat := 0
  calls : Nat := 0
  deriving DecidableEq, Repr, Inhabited

structure Client where
  replica : Document := []
  state : ConnectionState := .connecting
  -- An attempt to connect was made before.
  attempted : Bool := false
  -- The functions called, by the ids of the calls that were sent and have not ended.
  pending : KeyMap String := []
  stats : ClientStats := {}
  events : Mailbox ClientEvent := .ofCapacity 256
  rpcTimeoutMs : Nat := 30000
  deriving Inhabited

namespace Client

def isOnline (c : Client) : Bool := c.state = .connected

def emit (c : Client) (event : ClientEvent) : Client := { c with events := c.events.offer event }

/-! ## Calls -/

/-- Sends a call; the frame that carries it, if a session is open. -/
def call (c : Client) (request : RpcRequest) : Option (String × Client) :=
  if c.isOnline then
    some ((Message.rpcRequest request).encode,
      { c with
        pending := KeyMap.set c.pending request.id request.function
        stats := { c.stats with calls := c.stats.calls + 1 } })
  else none

/-- The outcome that a response gives to a call. -/
def outcomeOf (response : RpcResponse) : Except CallError Value :=
  match response.error with
  | some error => .error (.remote error)
  | none => .ok (response.result.getD .null)

/-- A response ends the call with its id, if that is pending. -/
def resolve (c : Client) (response : RpcResponse) : List CallEnd × Client :=
  if KeyMap.hasKey c.pending response.id then
    ([{ id := response.id, outcome := outcomeOf response }],
      { c with pending := KeyMap.erase c.pending response.id })
  else ([], c)

def expire (c : Client) (id : String) : List CallEnd × Client :=
  match KeyMap.get? c.pending id with
  | some function =>
    ([{ id, outcome := .error (.timeout function c.rpcTimeoutMs) }],
      { c with pending := KeyMap.erase c.pending id })
  | none => ([], c)

/-- All pending calls fail, since their session ended. -/
def failPending (c : Client) : List CallEnd × Client :=
  (c.pending.map fun call => { id := call.1, outcome := .error .notConnected },
    { c with pending := [] })

/-! ## Frames -/

/-- A batch of edits changes the replica, unless one of them is invalid. -/
def update (c : Client) (edits : List Edit) : Client :=
  match applyBatch c.replica edits with
  | .ok replica =>
    { c with replica, stats := { c.stats with edits := c.stats.edits + edits.length } }.emit
      (.updated edits.length)
  | .error _ => c

/-- What a value in an envelope does. A value that is no message and claims no unknown type is
dropped, and so is a message that is none of the client's business. -/
def accept (c : Client) (value : Value) : List CallEnd × Client :=
  match Message.parse value with
  | .ok (.apply edits) => ([], c.update edits)
  | .ok (.rpcResponse response) => c.resolve response
  | .error (.unknownType _) => ([], c.emit (.received value))
  | _ => ([], c)

def receive (c : Client) (text : String) : List CallEnd × Client :=
  let c := { c with stats := { c.stats with frames := c.stats.frames + 1 } }
  match Envelope.decode text with
  | .ok value => c.accept value
  | .error _ => ([], c)

/-! ## Sessions -/

def attempt (c : Client) : Client :=
  let again := if c.attempted then 1 else 0
  { c with
    state := .connecting
    attempted := true
    stats := { c.stats with reconnects := c.stats.reconnects + again } }

def unreachable (c : Client) : Client := { c with state := .backingOff }

/-- The attempt to connect succeeded: a session begins. -/
def opened (c : Client) : Client := { c with state := .connected }.emit .connected

/-- The session ends, and all calls with it. -/
def closed (c : Client) : List CallEnd × Client :=
  let (ended, c) := { c with state := .backingOff }.failPending
  (ended, c.emit .disconnected)

/-- The owner closes the client for good. -/
def stop (c : Client) : List CallEnd × Client :=
  let (ended, c) := if c.isOnline then c.closed else c.failPending
  (ended, { c with state := .stopped })

end Client

/-! ## Steps -/

inductive ClientInput where
  | attempt
  | unreachable
  | opened
  | closed
  | frame (text : String)
  | call (request : RpcRequest)
  | deadline (id : String)
  | stop
  deriving Inhabited

/-- The effect of one input; also the calls that it ends. A call that cannot be sent ends at once, a
session begins only after an attempt, and nothing begins after the stop. -/
def Client.step (c : Client) : ClientInput → List CallEnd × Client
  | .attempt => ([], if c.isOnline || c.state = .stopped then c else c.attempt)
  | .unreachable => ([], if c.state = .connecting then c.unreachable else c)
  | .opened => ([], if c.state = .connecting then c.opened else c)
  | .closed => if c.isOnline then c.closed else ([], c)
  | .frame text => if c.isOnline then c.receive text else ([], c)
  | .call request =>
    match c.call request with
    | some (_, c) => ([], c)
    | none => ([{ id := request.id, outcome := .error .notConnected }], c)
  | .deadline id => c.expire id
  | .stop => c.stop

/-- The effect of inputs in turn; also the calls that they end, in order. -/
def Client.run (c : Client) : List ClientInput → List CallEnd × Client
  | [] => ([], c)
  | input :: rest =>
    let (ended, c) := c.step input
    let (more, c) := c.run rest
    (ended ++ more, c)

end LiveDoc
