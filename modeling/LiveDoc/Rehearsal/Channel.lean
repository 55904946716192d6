import LiveDoc.Backend.Channel
import LiveDoc.Rehearsal.Network

/-!
# LiveDoc — rehearsing a backend

A script plays the supervisor of a backend process: it takes the first lines that the backend
writes, and then sends lines of its own, one after the other. A backend that does not reach its
supervisor writes nothing.
-/

namespace LiveDoc.Rehearsal

structure ChannelRun where
  -- What the backend writes by itself.
  first : List String
  -- What it writes in response to each line.
  replies : List (List String)
  deriving Inhabited

/-- Plays lines to a backend that has queued some batches before it connects; nothing if it does not
connect. -/
def rehearseChannel (network : Network) (b : Backend) (before : List (List Edit))
    (lines : List String) : Option ChannelRun :=
  match network with
  | .severed => none
  | .connected =>
    let outbox : Outbox := { queued := before.map .apply }
    some {
      first := outbox.lines
      replies := lines.map fun line => (b.answerLine line).map Message.line }

end LiveDoc.Rehearsal
