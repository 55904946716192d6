import LiveDoc.Rehearsal.Front

/-!
# LiveDoc — scripts for a server

The steps of a script that plays the peers of a server and its owner, and what is seen of each step:
how it ended, the event that the owner takes, and what the sockets read.
-/

namespace LiveDoc.Rehearsal

open Json

inductive ServerStep where
  | look
  | connect (client : String) (request : HttpRequest)
  | authorize (client : String)
  | reject (client : String) (rejection : Rejection)
  -- Waits until a held upgrade ends.
  | awaitUpgrade (client : String)
  | abandon (client : String)
  -- A client sends a text frame.
  | send (client text : String)
  -- A client sends a binary frame.
  | sendBinary (client : String)
  | disconnect (client : String)
  | mutate (edits : List Edit)
  | broadcast (value : Value)
  | unicast (client : String) (frame : SocketFrame)
  | http (id : String) (request : HttpRequest)
  | resolve (response : ApiResponse)
  -- Waits until a held request is answered.
  | awaitResponse (id : String)
  | metrics
  | close
  deriving Inhabited

inductive ServerAnswer where
  | done
  | accepted
  | invalidBatch (error : EditError)
  | refused (error : ServerError)
  | entry (entry : Entry)
  | exchanged (exchanged : Exchanged)
  | resolved (through : Bool) (exchanged : Exchanged)
  | metrics (metrics : ServerMetrics)
  | released (released : Released)
  deriving Inhabited

structure ServerReport where
  answer : ServerAnswer
  -- The event that the owner waits for, and whether it came.
  event : Option (Option ServerEvent) := none
  -- What the sockets read.
  frames : KeyMap (List (Outbound SocketFrame)) := []
  deriving Inhabited

namespace Front

/-- The server was changed, and the step ended well. -/
def accept (f : Front) (server : Server) : ServerAnswer × Front :=
  (.accepted, { f with server }.settleSeen)

def perform (f : Front) : ServerStep → ServerAnswer × Front
  | .look => (.done, f)
  | .connect client request => (f.connect client request).map .entry id
  | .authorize client => (f.decide client (·.authorize client)).map .entry id
  | .reject client rejection => (f.decide client (·.reject client rejection)).map .entry id
  | .awaitUpgrade client => (f.decide client (·.expireUpgrade client)).map .entry id
  | .abandon client => (.done, f.abandon client)
  | .send client text => (.done, f.send client text)
  | .sendBinary _ => (.done, f.settle)
  | .disconnect client => (.done, f.disconnect client)
  | .mutate edits =>
    match f.server.mutate edits with
    | .ok server => f.accept server
    | .error e => (.invalidBatch e, f)
  | .broadcast value =>
    match f.server.broadcast value with
    | .ok server => f.accept server
    | .error e => (.refused e, f)
  | .unicast client frame => f.accept (f.server.send client frame)
  | .http id request => (f.http id request).map .exchanged fun f => f
  | .resolve response =>
    let (through, exchanged, f) := f.resolve response
    (.resolved through exchanged, f)
  | .awaitResponse id => (f.response id).map .exchanged fun f => f
  | .metrics => (.metrics f.server.metrics, f)
  | .close => f.close.map .released id

/-- Whether the owner waits for an event after a step that ended in some way. -/
def awaitsEvent : ServerStep → ServerAnswer → Bool
  | .connect _ _, .entry (.joined _ _) => true
  | .send _ _, _ | .disconnect _, _ => true
  | _, _ => false

def readAllSockets (f : Front) : KeyMap (List (Outbound SocketFrame)) × Front :=
  f.readSockets (KeyMap.keys f.sockets)

/-- Plays a step. A request for a decision or an answer is seen with the step itself, and is no
event. -/
def play (f : Front) (step : ServerStep) : ServerReport × Front :=
  let (answer, f) := f.perform step
  let (event, f) := f.takeEvent
  let (frames, f) := f.readAllSockets
  ({ answer, event := if awaitsEvent step answer then some event else none, frames }, f)

end Front

end LiveDoc.Rehearsal
