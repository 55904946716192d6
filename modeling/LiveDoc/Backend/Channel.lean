import LiveDoc.Backend.Handlers
import LiveDoc.Text.Blank

/-!
# LiveDoc — the backend's end of the channel

A backend connects to its supervisor, says that it is ready, and then sends one message a line. What
was queued before the connection existed follows behind the first line. It reads one frame a line
and answers each in turn; blank and unreadable lines are passed over.

* `Outbox.written` — the text that a backend writes.
* `Backend.answerLine` — what a line from the supervisor makes it write.
-/

namespace LiveDoc

/-- Nothing but white space stands on the line. -/
def isBlankLine (line : String) : Bool := line.toList.all Text.isBlank

/-! ## Writing -/

/-- What a backend has queued for its supervisor. -/
structure Outbox where
  queued : List Message := []
  deriving Inhabited

namespace Outbox

def push (o : Outbox) (m : Message) : Outbox := { o with queued := o.queued ++ [m] }

/-- The lines written over a connection: the greeting, then all that was queued. -/
def lines (o : Outbox) : List String := Message.ready.line :: o.queued.map Message.line

def written (o : Outbox) : String := String.join (o.lines.map (· ++ "\n"))

end Outbox

namespace Backend

/-- The messages that a line from the supervisor makes the backend send. -/
def answerLine (b : Backend) (line : String) : List Message :=
  if isBlankLine line then []
  else
    match ChannelFrame.read? line with
    | some frame => b.replies frame
    | none => []

end Backend

inductive BackendError where
  -- Nobody told it where its supervisor listens.
  | noChannel
  -- The channel broke.
  | io (reason : String)
  deriving DecidableEq, Repr

def BackendError.message : BackendError → String
  | .noChannel => "MODELCAST_CHANNEL is not set; this process must be started by the supervisor"
  | .io reason => s!"Channel I/O error: {reason}"

end LiveDoc
