import LiveDoc.Client
import LiveDoc.Rehearsal.Network

/-!
# LiveDoc — rehearsing a client

A script plays the server of a client, and its owner. The client is to be online first, unless
nothing listens where it connects to: then its first attempt has failed, and it waits for longer
than any script.
-/

namespace LiveDoc.Rehearsal

open Json

inductive ClientStep where
  | look
  -- The server sends a text frame.
  | send (text : String)
  -- The server sends what is no text frame.
  | sendOther
  -- The owner calls a function.
  | call (request : RpcRequest)
  -- The owner waits until a call ends.
  | await (id : String)
  -- The server closes the session, and takes the next one.
  | drop
  -- The owner closes the client.
  | close
  deriving Inhabited

structure ClientReport where
  -- The calls that ended.
  finished : List CallEnd
  -- What the owner was told and takes.
  events : List ClientEvent
  -- The message that reached the server.
  request : Option Value := none
  -- The client after the step.
  client : Client
  deriving Inhabited

/-- The first session of a client; nothing if it never begins. -/
def firstSession? (network : Network) (c : Client) : Option Client :=
  match network with
  | .connected => some (c.run [.attempt, .opened]).2
  | .severed => none

/-- A client whose first attempt to connect has failed. -/
def offline (c : Client) : Client := (c.run [.attempt, .unreachable]).2

/-- What a step does to the client. A session that is not open cannot be closed. -/
def ClientStep.inputs (c : Client) : ClientStep → List ClientInput
  | .look | .sendOther => []
  | .send text => [.frame text]
  | .call request => [.call request]
  | .await id => [.deadline id]
  | .drop => if c.isOnline then [.closed, .attempt, .opened] else []
  | .close => [.stop]

/-- The message that a step makes reach the server. -/
def ClientStep.request? (c : Client) : ClientStep → Option Value
  | .call request => (c.call request).map fun _ => (Message.rpcRequest request).toValue
  | _ => none

/-- Plays a step, after which the owner takes the events unless it keeps them waiting. -/
def ClientStep.play (step : ClientStep) (keepsEvents : Bool) (c : Client) :
    ClientReport × Client :=
  let request := step.request? c
  let (finished, c) := c.run (step.inputs c)
  let (events, mailbox) := if keepsEvents then ([], c.events) else c.events.takeAll
  let c := { c with events := mailbox }
  ({ finished, events, request, client := c }, c)

end LiveDoc.Rehearsal
