import LiveDoc.Rehearsal.Host
import LiveDoc.Server.Basic
import LiveDoc.Server.Request

/-!
# LiveDoc — rehearsing a server

A `Front` is a server together with its peers, who are played: the sockets of clients, the upgrades
that wait at the gate, and the HTTP requests that wait for an answer. Peers and requests are known
by their labels, which also serve as their ids.

The pump works whenever a step waits for something, and so a step settles the front only where
somebody is there to see its effects.
-/

namespace LiveDoc.Rehearsal

open Json

structure Socket where
  info : ClientInfo
  -- The number of the queue that is read.
  queue : Nat
  deriving Inhabited

structure Front where
  network : Network
  server : Server
  sockets : KeyMap Socket := []
  -- Who waits at the gate.
  upgrades : KeyMap ClientInfo := []
  -- The requests whose peers wait.
  requests : List String := []
  deriving Inhabited

inductive Entry where
  | unreachable
  | turnedAway (reply : HttpReply)
  | waiting (request : AuthRequest)
  | joined (info : ClientInfo) (refresh : Option (Outbound SocketFrame))
  -- Nobody with that label waits.
  | unknown
  deriving Inhabited

inductive Exchanged where
  | unreachable
  | waiting (request : ApiRequest)
  | answered (reply : HttpReply)
  -- No request with that label waits.
  | unknown
  deriving Inhabited

structure Released where
  upgrades : KeyMap Entry := []
  responses : KeyMap Exchanged := []
  deriving Inhabited

def notFound : HttpReply := { status := 404, headers := [], body := "" }

namespace Front

/-- A server for a document, and nobody who has come yet. -/
def open? (host : Host) (settings : Settings.Server) (document : Document) :
    Except ServerError Front :=
  match host.network.listenFault? settings.bindAddress with
  | some fault => .error (.bind settings.bindAddress fault.message)
  | none => .ok { network := host.network, server := .ofModel settings (.ofDocument document) }

/-! ## Settling -/

def settle (f : Front) : Front :=
  { f with server := { f.server with pump := f.server.pump.drain } }

/-- Settles the front if somebody has a socket. -/
def settleSeen (f : Front) : Front := if f.sockets.isEmpty then f else f.settle

def isReachable (f : Front) : Bool := f.network = .connected && !f.server.isClosed

/-- What a socket reads before it has to wait. -/
def readAll (queue : Nat) :
    (fuel : Nat) → Pump SocketFrame → List (Outbound SocketFrame) × Pump SocketFrame
  | 0, p => ([], p)
  | fuel + 1, p =>
    match p.read queue with
    | (.item item, p) =>
      let (items, p) := readAll queue fuel p
      (item :: items, p)
    | (_, p) => ([], p)

def readSocket (f : Front) (client : String) : List (Outbound SocketFrame) × Front :=
  match KeyMap.get? f.sockets client with
  | some socket =>
    let waiting := (f.server.pump.queues[socket.queue]?.map (·.waiting.length)).getD 0
    let (items, pump) := readAll socket.queue (waiting + 1) f.server.pump
    (items, { f with server := { f.server with pump } })
  | none => ([], f)

/-- Reads the sockets of the clients; who read what. -/
def readSockets (f : Front) : List String → KeyMap (List (Outbound SocketFrame)) × Front
  | [] => ([], f)
  | client :: rest =>
    let (items, f) := f.readSocket client
    let (more, f) := f.readSockets rest
    (if items.isEmpty then more else (client, items) :: more, f)

def takeEvent (f : Front) : Option ServerEvent × Front :=
  match f.server.events.take? with
  | some (event, events) => (some event, { f with server := { f.server with events } })
  | none => (none, f)

/-! ## Coming in -/

/-- The socket of an admitted client opens, and reads the document. -/
def openSocket (f : Front) (info : ClientInfo) : Entry × Front :=
  match f.server.enter info with
  | some (queue, server) =>
    let f := { f with server, sockets := KeyMap.set f.sockets info.id { info, queue } }.settle
    let (reading, pump) := f.server.pump.read queue
    let refresh :=
      match reading with
      | .item item => some item
      | _ => none
    (.joined info refresh, { f with server := { f.server with pump }.welcome info })
  | none => (.unknown, f)

def connect (f : Front) (client : String) (r : HttpRequest) : Entry × Front :=
  let f := f.settle
  if !f.isReachable then (.unreachable, f)
  else if !r.isForSocket f.server.settings then (.turnedAway notFound, f)
  else
    let info : ClientInfo := { id := client, remote := r.remote }
    let request := r.toAuthRequest client
    match f.server.upgrade request with
    | (.refused rejection, server) => (.turnedAway rejection.toReply, { f with server })
    | (.held, server) =>
      (.waiting request, { f with server, upgrades := KeyMap.set f.upgrades client info })
    | (.admitted, server) => { f with server }.openSocket info

/-- How a held upgrade ended; unknown if it has not. -/
def conclude (f : Front) (client : String) : Entry × Front :=
  match KeyMap.get? f.upgrades client with
  | none => (.unknown, f)
  | some info =>
    let g := { f with upgrades := KeyMap.erase f.upgrades client }
    match f.server.gate.endOf? client with
    | some .allowed => g.openSocket info
    | some how => ((how.rejection?.map fun r => .turnedAway r.toReply).getD .unknown, g)
    | none => (.unknown, f)

/-- The owner decides on a held upgrade, which ends. -/
def decide (f : Front) (client : String) (decision : Server → Server) : Entry × Front :=
  if KeyMap.hasKey f.upgrades client then
    { f with server := decision f.server }.settle.conclude client
  else (.unknown, f)

def abandon (f : Front) (client : String) : Front :=
  { f with
    server := f.server.abandonUpgrade client
    upgrades := KeyMap.erase f.upgrades client }

/-! ## Talking -/

def send (f : Front) (client text : String) : Front :=
  match KeyMap.get? f.sockets client with
  | some socket => { f with server := f.server.receive socket.info text 0 }.settle
  | none => f.settle

def disconnect (f : Front) (client : String) : Front :=
  if KeyMap.hasKey f.sockets client then
    { f with server := f.server.leave client, sockets := KeyMap.erase f.sockets client }.settle
  else f.settle

/-! ## HTTP -/

def http (f : Front) (id : String) (r : HttpRequest) : Exchanged × Front :=
  let f := f.settle
  if !f.isReachable then (.unreachable, f)
  else
    match r.apiPath? f.server.settings with
    | none => (.answered notFound, f)
    | some path =>
      let request := r.toApiRequest id path
      (.waiting request,
        { f with server := f.server.request request, requests := f.requests ++ [id] })

/-- The answer to a request, which it waits for until its deadline. -/
def response (f : Front) (id : String) : Exchanged × Front :=
  if f.requests.contains id then
    let (answer, server) := f.server.answer id
    (.answered answer.toReply, { f with server, requests := f.requests.filter (· ≠ id) })
  else (.unknown, f)

/-- The owner answers a request. Whether the answer gets through, and what the peer gets. -/
def resolve (f : Front) (response : ApiResponse) : Bool × Exchanged × Front :=
  let (through, server) := f.server.respond response
  let f := { f with server }
  if through then (through, f.response response.id) else (through, .unknown, f)

/-! ## Closing -/

def concludeAll (f : Front) : List String → KeyMap Entry × Front
  | [] => ([], f)
  | client :: rest =>
    let (entry, f) := f.conclude client
    let (entries, f) := f.concludeAll rest
    ((client, entry) :: entries, f)

def responseAll (f : Front) : List String → KeyMap Exchanged × Front
  | [] => ([], f)
  | id :: rest =>
    let (reply, f) := f.response id
    let (replies, f) := f.responseAll rest
    ((id, reply) :: replies, f)

def close (f : Front) : Released × Front :=
  let f := { f with server := f.server.close }.settle
  let (upgrades, f) := f.concludeAll (KeyMap.keys f.upgrades)
  let (responses, f) := f.responseAll f.requests
  ({ upgrades, responses }, f)

end Front

end LiveDoc.Rehearsal
