import LiveDoc.Api.Bridge
import LiveDoc.Fanout.Pump
import LiveDoc.Mailbox
import LiveDoc.Message.Frame
import LiveDoc.Model
import LiveDoc.Server.Gate
import LiveDoc.Settings.Basic

/-!
# LiveDoc — the server

The server owns the model and hands it on to its clients. A client that comes in is sent the whole
document, and from then on every batch that changes it: the refresh is taken and queued in one step,
so that no batch falls between the two. What clients and HTTP peers say is told to the server's
owner as events.

Every operation is one atomic step on the server; the pump works off its commands in steps of its
own. The operations on upgrades are those in which a decision is handed over at once; what else may
come in between is at the gate (`Gate.step`).

* `Server.mutate` — changes the model, and queues the change for all clients.
* `Server.upgrade`, `Server.enter`, `Server.receive`, `Server.leave` — the life of a client.
* `Server.request`, `Server.respond` — HTTP requests and their answers.
-/

namespace LiveDoc

open Json

inductive SocketFrame where
  | message (message : Message)
  -- Any value in an envelope.
  | value (value : Value)
  -- Text as it is.
  | text (text : String)
  deriving DecidableEq, Inhabited

def SocketFrame.encode : SocketFrame → String
  | .message m => m.encode
  | .value v => Envelope.encode v
  | .text t => t

inductive ServerEvent where
  | clientNew (info : ClientInfo)
  | clientEnd (client : String)
  | incoming (payload : Value) (origin : MessageMeta)
  | malformed (client text : String) (error : WireError)
  | authRequest (request : AuthRequest)
  | apiRequest (request : ApiRequest)
  deriving DecidableEq, Inhabited

inductive ServerError where
  | bind (address reason : String)
  | invalidMessage
  deriving DecidableEq, Repr

def ServerError.message : ServerError → String
  | .bind address reason => s!"Failed to bind {address}: {reason}"
  | .invalidMessage =>
    "Invalid outbound message: broadcast messages must be objects with a string \"type\""

/-- The server. Its model has one listener, which queues every batch for all clients. -/
structure Server where
  settings : Settings.Server := {}
  model : Model Unit := {}
  pump : Pump SocketFrame := {}
  api : ApiBridge := {}
  gate : Gate := {}
  -- How many frames from clients were no envelopes.
  malformed : Nat := 0
  events : Mailbox ServerEvent := .ofCapacity 1024
  isClosed : Bool := false
  deriving Inhabited

/-- What is known of a server at one point. -/
structure ServerMetrics where
  connections : Nat
  pendingAuth : Nat
  pendingApi : Nat
  authTimeouts : Nat
  authRejections : Nat
  malformed : Nat
  pump : PumpStats
  deriving DecidableEq, Repr

inductive Upgrade where
  | refused (rejection : Rejection)
  | held
  | admitted
  deriving DecidableEq, Repr

namespace Server

/-- A server for a model, which it listens to. -/
def ofModel (settings : Settings.Server) (model : Model Unit) : Server :=
  { settings, model := model.addListener (), events := .ofCapacity settings.eventCapacity }

/-- The document that the server hands on. -/
def document (s : Server) : Document := s.model.document

def emit (s : Server) (event : ServerEvent) : Server := { s with events := s.events.offer event }

def post (s : Server) (command : PumpCommand SocketFrame) : Server :=
  { s with pump := s.pump.submit command }

/-! ## The model and its frames -/

def delta (edits : List Edit) : SocketFrame := .message (.apply edits)

/-- The frame that turns any replica into the document. -/
def refresh (s : Server) : SocketFrame := delta (refreshBatch s.document)

/-- Changes the model, and queues the change for all clients. -/
def mutate (s : Server) (edits : List Edit) : Except EditError Server := do
  let (model, notices) ← s.model.mutate edits
  return notices.foldl (fun s notice => s.post (.broadcast (delta notice.edits)))
    { s with model }

/-- Queues a value for all clients. It has to be an object with a textual type. -/
def broadcast (s : Server) (value : Value) : Except ServerError Server :=
  if (Message.claimedTag? value).isSome then .ok (s.post (.broadcast (.value value)))
  else .error .invalidMessage

def send (s : Server) (client : String) (frame : SocketFrame) : Server :=
  s.post (.unicast client frame)

/-! ## Clients -/

/-- An upgrade waits for a decision, and the owner is told. -/
def hold (s : Server) (request : AuthRequest) : Server :=
  { s with gate := s.gate.hold request.client }.emit (.authRequest request)

def upgrade (s : Server) (request : AuthRequest) : Upgrade × Server :=
  if s.isClosed then (.refused .shuttingDown, s)
  else if s.settings.auth then (.held, s.hold request)
  else (.admitted, s)

def authorize (s : Server) (client : String) : Server :=
  { s with gate := s.gate.settle client (.allow client) }

def reject (s : Server) (client : String) (rejection : Rejection) : Server :=
  { s with gate := s.gate.settle client (.reject client rejection) }

def expireUpgrade (s : Server) (client : String) : Server :=
  { s with gate := s.gate.expire client }

def abandonUpgrade (s : Server) (client : String) : Server :=
  { s with gate := s.gate.abandon client }

/-- Whether a client may come in: all may, or those that were let in at the gate. -/
def admits (s : Server) (client : String) : Bool := !s.settings.auth || s.gate.isAllowed client

/-- The socket of an admitted client opens: it gets a queue, whose number is given, and the document
is queued for it. -/
def enter (s : Server) (info : ClientInfo) : Option (Nat × Server) :=
  if s.admits info.id then
    let (queue, pump) := s.pump.openQueue s.settings.clientQueue
    some (queue, { s with pump }.post (.attach info queue s.refresh))
  else none

/-- The pump has taken a client into its table. -/
def welcome (s : Server) (info : ClientInfo) : Server := s.emit (.clientNew info)

def receive (s : Server) (info : ClientInfo) (text : String) (receivedAt : UInt64) : Server :=
  match Envelope.decode text with
  | .ok payload =>
    s.emit (.incoming payload {
      client := info.id
      remote := info.remote
      connectedAt := UInt64.ofNat info.connectedAt
      receivedAt
      rawLength := UInt64.ofNat text.utf8ByteSize })
  | .error error =>
    { s with malformed := s.malformed + 1 }.emit (.malformed info.id text error)

def leave (s : Server) (client : String) : Server :=
  (s.post (.detach client)).emit (.clientEnd client)

/-! ## HTTP requests -/

/-- A request for the backend is held and told to the owner. -/
def request (s : Server) (r : ApiRequest) : Server :=
  { s with api := s.api.register r.id }.emit (.apiRequest r)

/-- The backend answers a held request. Whether the answer gets through. -/
def respond (s : Server) (response : ApiResponse) : Bool × Server :=
  let (through, api) := s.api.resolve response
  (through, { s with api })

/-- A held request gets its answer, or reaches its deadline. -/
def answer (s : Server) (id : String) : ApiResponse × Server :=
  let (response, api) := s.api.expire id
  (response, { s with api })

/-! ## The whole server -/

/-- Closes the server: whoever is held is turned away, and every client is told to close. -/
def close (s : Server) : Server :=
  if s.isClosed then s
  else
    { s with
      isClosed := true
      gate := s.gate.close
      api := s.api.failAll 503 Rejection.shuttingDown.error }.post .shutdown

def metrics (s : Server) : ServerMetrics where
  connections := s.pump.table.length
  pendingAuth := s.gate.held.length
  pendingApi := s.api.pendingCount
  authTimeouts := s.gate.timeouts
  authRejections := s.gate.rejections
  malformed := s.malformed
  pump := s.pump.stats

end Server

end LiveDoc
