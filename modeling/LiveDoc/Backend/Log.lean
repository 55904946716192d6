import LiveDoc.Message.Basic

/-!
# LiveDoc — log records of the backend

A backend may send its log records over the channel. A logger passes the records up to its level.
-/

namespace LiveDoc

/-- How grave a log record is, gravest first. -/
inductive LogLevel where
  | error
  | warn
  | info
  | debug
  | trace
  deriving DecidableEq, Repr, Inhabited

namespace LogLevel

def all : List LogLevel := [.error, .warn, .info, .debug, .trace]

def name : LogLevel → String
  | .error => "ERROR"
  | .warn => "WARN"
  | .info => "INFO"
  | .debug => "DEBUG"
  | .trace => "TRACE"

def ofName? (name : String) : Option LogLevel := all.find? (·.name = name)

def rank : LogLevel → Nat
  | .error => 0
  | .warn => 1
  | .info => 2
  | .debug => 3
  | .trace => 4

end LogLevel

structure LogRecord where
  level : LogLevel
  target : String
  text : String
  deriving Repr, Inhabited

/-- The message that passes a record on; none if the logger, whose level may be off, drops it. -/
def LogRecord.message? (r : LogRecord) (maxLevel : Option LogLevel) : Option Message :=
  if maxLevel.any fun m => r.level.rank ≤ m.rank then
    some (.log [s!"[{r.level.name} {r.target}] {r.text}"])
  else none

end LiveDoc
