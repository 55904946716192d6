import LiveDoc.Message.Wire
import LiveDoc.Text.Blank
import LiveDoc.Text.Duration

/-!
# LiveDoc — the supervisor's end of the channel

A child that was spawned is awaited: it has to connect and to say that it is ready on its first
line, before its deadline. From then on each line is a message or is malformed, by its own text
alone, and blank lines count for nothing. When the process has ended, what is left in the channel is
read before the exit is reported.

`Child.step` is the effect of one input, and the events that it reports. Over the life of a child
they are first `ready` or a failed handshake, if either, then what the lines say, and last the exit.
-/

namespace LiveDoc

open Json

inductive ChildEvent where
  | ready
  | handshakeFailed (reason : String)
  | message (message : Message)
  | malformed (line : String) (error : WireError)
  -- The process ended; its exit code, unless it was killed.
  | exited (code : Option Nat)
  deriving DecidableEq, Inhabited

inductive ChildInput where
  | line (text : String)
  -- The child closes the channel.
  | hangUp
  -- The channel breaks.
  | broken (reason : String)
  -- The time to say that it is ready is over.
  | deadline
  -- The process ends.
  | exit (code : Option Nat)
  -- The time to read what is left in the channel is over.
  | drained
  deriving DecidableEq, Inhabited

inductive ChannelPhase where
  -- The child has not said that it is ready.
  | awaited
  | established
  | finished
  deriving DecidableEq, Repr, Inhabited

structure Child where
  phase : ChannelPhase := .awaited
  -- How long the child may take until it is ready.
  readyTimeoutMs : Nat := 30000
  -- The exit code of a process that has ended while its channel is still read.
  exit : Option (Option Nat) := none
  -- The exit was reported; nothing comes any more.
  isGone : Bool := false
  deriving DecidableEq, Repr, Inhabited

/-- How long the channel of a process that has ended is read, in milliseconds. -/
def drainMs : Nat := 200

def parseLine (line : String) : Except WireError Message :=
  match parse? line with
  | some value => Message.parse value
  | none => .error (.invalidJson unreadable)

namespace Child

/-- Whether a line for the child is queued. Once the channel has ended such lines are lost, also
while the process lives on. -/
def takesLines (c : Child) : Bool := c.phase ≠ .finished

/-- What a line says on an established channel. -/
def report (line : String) : Option ChildEvent :=
  if line.toList.all Text.isBlank then none
  else
    match parseLine line with
    | .ok message => some (.message message)
    | .error error => some (.malformed line error)

/-- The channel is read no more. If the process has ended its exit is due. -/
def finish (c : Child) : List ChildEvent × Child :=
  match c.exit with
  | some code => ([.exited code], { c with phase := .finished, isGone := true })
  | none => ([], { c with phase := .finished })

def fail (c : Child) (reason : String) : List ChildEvent × Child :=
  let (events, c) := c.finish
  (.handshakeFailed reason :: events, c)

/-- The channel ends, for a reason that counts while the child is awaited. -/
def hangUp (c : Child) (reason : String) : List ChildEvent × Child :=
  match c.phase with
  | .awaited => c.fail reason
  | .established => c.finish
  | .finished => ([], c)

def line (c : Child) (text : String) : List ChildEvent × Child :=
  match c.phase with
  | .awaited =>
    match parseLine text with
    | .ok .ready => ([.ready], { c with phase := .established })
    | _ => c.fail s!"expected ready, got {text}"
  | .established => ((report text).toList, c)
  | .finished => ([], c)

def terminate (c : Child) (code : Option Nat) : List ChildEvent × Child :=
  if c.exit.isSome then ([], c)
  else
    let c := { c with exit := some code }
    if c.phase = .finished then c.finish else ([], c)

/-- The effect of one input, and what it reports. -/
def step (c : Child) (input : ChildInput) : List ChildEvent × Child :=
  if c.isGone then ([], c)
  else
    match input with
    | .line text => c.line text
    | .hangUp => c.hangUp "channel closed before ready"
    | .broken reason => c.hangUp reason
    | .deadline =>
      if c.phase = .awaited then
        c.fail s!"no ready message within {Text.duration c.readyTimeoutMs}"
      else ([], c)
    | .exit code => c.terminate code
    | .drained => if c.exit.isSome then c.finish else ([], c)

/-- The effect of inputs in turn, and all that they report. -/
def run (c : Child) : List ChildInput → List ChildEvent × Child
  | [] => ([], c)
  | input :: rest =>
    let (events, c) := c.step input
    let (more, c) := c.run rest
    (events ++ more, c)

end Child

end LiveDoc
