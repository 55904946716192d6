import LiveDoc.Message.Basic

/-!
# LiveDoc — held HTTP requests

An `ApiBridge` holds HTTP requests until the backend answers them. A request that was registered is
pending until it is settled: by the backend's response, by a failure of all requests, or by its
deadline. The receiver of the answer may be dropped at any time, when the peer hangs up; that does
not settle the request.

Every operation is one atomic step on the bridge.
-/

namespace LiveDoc

structure Exchange where
  -- Nobody has settled the request.
  pending : Bool := true
  -- The receiver of the answer exists.
  held : Bool := true
  -- The answer that waits for its receiver.
  answer : Option ApiResponse := none
  deriving DecidableEq, Inhabited

/-- A pending request is settled by a response; the response gets through if somebody still holds
the request. -/
def Exchange.settle (e : Exchange) (response : ApiResponse) : Exchange :=
  { e with pending := false, answer := if e.held then some response else none }

/-- The requests that were registered, by their ids. -/
structure ApiBridge where
  exchanges : KeyMap Exchange := []
  deriving DecidableEq, Inhabited

namespace ApiBridge

def exchange? (b : ApiBridge) (id : String) : Option Exchange := KeyMap.get? b.exchanges id

/-- Whether the request is registered and not settled. -/
def isPending (b : ApiBridge) (id : String) : Bool := (b.exchange? id).any (·.pending)

def pendingCount (b : ApiBridge) : Nat := (b.exchanges.filter (·.2.pending)).length

def register (b : ApiBridge) (id : String) : ApiBridge :=
  { b with exchanges := KeyMap.set b.exchanges id {} }

/-- The backend answers. Whether the answer gets through: not if its id is unknown or settled. -/
def resolve (b : ApiBridge) (response : ApiResponse) : Bool × ApiBridge :=
  match b.exchange? response.id with
  | some e =>
    if e.pending then
      (e.held, { b with exchanges := KeyMap.set b.exchanges response.id (e.settle response) })
    else (false, b)
  | none => (false, b)

/-- Settles every pending request by the same failure. -/
def failAll (b : ApiBridge) (status : UInt16) (error : String) : ApiBridge :=
  { b with
    exchanges := b.exchanges.map fun (id, e) =>
      (id, if e.pending then e.settle (.failure id status error) else e) }

/-- Drops the receiver of an answer. Whether there was one. -/
def abandon (b : ApiBridge) (id : String) : Bool × ApiBridge :=
  match b.exchange? id with
  | some e =>
    (e.held,
      { b with exchanges := KeyMap.set b.exchanges id { e with held := false, answer := none } })
  | none => (false, b)

/-- The receiver takes its answer, if it is there, and is used up. -/
def take (b : ApiBridge) (id : String) : Option (ApiResponse × ApiBridge) := do
  let e ← b.exchange? id
  if e.held then
    let answer ← e.answer
    return (answer, (b.abandon id).2)
  else none

/-- The answer of a request whose deadline passed. -/
def timedOut (id : String) : ApiResponse := .failure id 504 "Backend did not respond in time"

/-- The receiver reaches its deadline: it takes the answer that is there, or settles the request. -/
def expire (b : ApiBridge) (id : String) : ApiResponse × ApiBridge :=
  match b.take id with
  | some taken => taken
  | none =>
    let exchanges :=
      match b.exchange? id with
      | some _ => KeyMap.set b.exchanges id { pending := false, held := false }
      | none => b.exchanges
    (timedOut id, { b with exchanges })

/-- Whether the receiver of an answer exists. -/
def isHeld (b : ApiBridge) (id : String) : Bool := (b.exchange? id).any (·.held)

/-! ## Waiting -/

/-- Whether a response that comes after some time is there before the deadline. Where both fall on
one instant the response comes first; but a deadline that has no time to run is over at once. -/
def isInTime (timeoutMs ms : Nat) : Bool := 0 < timeoutMs && ms ≤ timeoutMs

/-- Waits for the answer of a held request until its deadline, which lies the timeout ahead, while
the backend may respond after some time. Whether that response got through, if there was one. -/
def wait (b : ApiBridge) (timeoutMs : Nat) (id : String) (later : Option (Nat × ApiResponse)) :
    ApiResponse × Option Bool × ApiBridge :=
  let respond (b : ApiBridge) : Option Bool × ApiBridge :=
    match later with
    | some (_, response) =>
      let (through, b) := b.resolve response
      (some through, b)
    | none => (none, b)
  match b.take id with
  | some (answer, b) => (answer, respond b)
  | none =>
    if later.any fun (ms, _) => isInTime timeoutMs ms then
      let (through, b) := respond b
      let (answer, b) := b.expire id
      (answer, through, b)
    else
      let (answer, b) := b.expire id
      (answer, respond b)

end ApiBridge

end LiveDoc
