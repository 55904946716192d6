import LiveDoc.Api.Bridge

/-!
# LiveDoc — rehearsing held HTTP requests

A script plays the peers whose requests a bridge holds, and the backend that answers them. It knows
a request by a label, and may give one label to several requests in turn: the label then stands for
the last of them, and the peer of the one before is gone.

* `BridgeBench.play` — a step of the script.
-/

namespace LiveDoc.Rehearsal

/-- A step of the script. In the place of ids it has labels. -/
inductive BridgeStep where
  | register (label : String)
  -- The backend answers a request.
  | resolve (response : ApiResponse)
  -- A peer hangs up.
  | abandon (label : String)
  | failAll (status : UInt16) (error : String)
  -- A peer waits for its answer, while the backend may respond after some milliseconds.
  | wait (label : String) (later : Option (Nat × ApiResponse))
  deriving Inhabited

inductive BridgeAnswer where
  | registered
  | resolved (isThrough : Bool)
  | abandoned (wasHeld : Bool)
  | failed
  -- The answer, and whether the response got through that came meanwhile.
  | answered (answer : ApiResponse) (isThrough : Option Bool)
  -- No peer waits under that label.
  | noReceiver
  deriving Inhabited

/-- A bridge, and the ids of the requests that the labels stand for. -/
structure BridgeBench where
  -- How long a peer waits for its answer, in milliseconds.
  timeoutMs : Nat
  bridge : ApiBridge := {}
  ids : KeyMap String := []
  -- How many requests have been registered.
  registered : Nat := 0
  deriving Inhabited

namespace BridgeBench

/-- The id that a label stands for; a label that was never given away is no request's id. -/
def idOf (b : BridgeBench) (label : String) : String := (KeyMap.get? b.ids label).getD ""

/-- A response to the request that is meant by its label. -/
def addressed (b : BridgeBench) (response : ApiResponse) : ApiResponse :=
  { response with id := b.idOf response.id }

/-- Registers a request under an id that no other request has. -/
def register (b : BridgeBench) (label : String) : BridgeBench :=
  let id := toString b.registered
  { b with
    bridge := (b.bridge.abandon (b.idOf label)).2.register id
    ids := KeyMap.set b.ids label id
    registered := b.registered + 1 }

def play (b : BridgeBench) : BridgeStep → BridgeAnswer × BridgeBench
  | .register label => (.registered, b.register label)
  | .resolve response =>
    let (isThrough, bridge) := b.bridge.resolve (b.addressed response)
    (.resolved isThrough, { b with bridge })
  | .abandon label =>
    let (wasHeld, bridge) := b.bridge.abandon (b.idOf label)
    (.abandoned wasHeld, { b with bridge })
  | .failAll status error => (.failed, { b with bridge := b.bridge.failAll status error })
  | .wait label later =>
    if b.bridge.isHeld (b.idOf label) then
      let later := later.map fun (ms, response) => (ms, b.addressed response)
      let (answer, isThrough, bridge) := b.bridge.wait b.timeoutMs (b.idOf label) later
      (.answered { answer with id := label } isThrough, { b with bridge })
    else (.noReceiver, b)

end BridgeBench

end LiveDoc.Rehearsal
