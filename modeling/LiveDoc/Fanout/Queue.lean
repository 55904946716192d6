/-!
# LiveDoc — the queue of one client

Frames for a client wait in a bounded queue between the pump, which writes, and the client's socket,
which reads. The pump may give up on a client: the queue then tells its reader to close before it
reads on. Either end may go away: a queue without a reader takes nothing, and one without a writer
ends when it is empty.

* `Queue.deliver` — the pump puts a frame in, unless the queue is full or has no reader.
* `Queue.read` — the reader takes what comes next.
-/

namespace LiveDoc

variable {φ : Type}

/-- What a reader takes out of a queue: a frame, or the order to close. -/
inductive Outbound (φ : Type) where
  | frame (frame : φ)
  | close
  deriving DecidableEq, Inhabited

inductive Delivery where
  | sent
  -- The queue has no reader.
  | closed
  -- The queue stayed full for as long as the pump waits.
  | lagging
  deriving DecidableEq, Repr, Inhabited

inductive Reading (φ : Type) where
  | item (item : Outbound φ)
  -- Nothing is there yet.
  | pending
  -- Nothing will come any more.
  | ended
  deriving DecidableEq, Inhabited

structure Queue (φ : Type) where
  capacity : Nat
  waiting : List (Outbound φ) := []
  -- The reader is to close before it reads on.
  closing : Bool := false
  hasReader : Bool := true
  hasWriter : Bool := true
  deriving Inhabited

namespace Queue

/-- An empty queue, which has room for one item at least. -/
def ofCapacity (capacity : Nat) : Queue φ := { capacity := max capacity 1 }

/-- Whether there is room for another item. -/
def hasRoom (q : Queue φ) : Bool := q.waiting.length < q.capacity

/-- Puts a frame in. A queue that is still full when the pump has waited for room lags. -/
def deliver (q : Queue φ) (frame : φ) : Delivery × Queue φ :=
  if !q.hasReader then (.closed, q)
  else if q.hasRoom then (.sent, { q with waiting := q.waiting ++ [.frame frame] })
  else (.lagging, q)

/-- The next thing for the reader: the order to close comes before what waits. -/
def read (q : Queue φ) : Reading φ × Queue φ :=
  if q.closing then (.item .close, { q with closing := false })
  else
    match q.waiting with
    | item :: rest => (.item item, { q with waiting := rest })
    | [] => (if q.hasWriter then .pending else .ended, q)

/-- The reader goes away, and with it all that waits. -/
def hangUp (q : Queue φ) : Queue φ := { q with hasReader := false, waiting := [] }

def release (q : Queue φ) : Queue φ := { q with hasWriter := false }

def evict (q : Queue φ) : Queue φ := { q with closing := true, hasWriter := false }

/-- The pump stops: the reader is told to close, and told so again behind what waits if there is
room. -/
def shutDown (q : Queue φ) : Queue φ :=
  let waiting := if q.hasReader && q.hasRoom then q.waiting ++ [.close] else q.waiting
  { q with waiting, closing := true, hasWriter := false }

def frames (q : Queue φ) : List φ :=
  q.waiting.filterMap fun
    | .frame f => some f
    | .close => none

end Queue

end LiveDoc
