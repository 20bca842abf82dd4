import TradeReentry.Text.Basic
import TradeReentry.Time.Instant

/-!
Log entries as output data, and the line that each becomes.
-/

namespace TradeReentry.Log

inductive Level where
  | info
  | warn
  | error
deriving DecidableEq, Repr

def Level.name : Level → Text
  | .info => "INFO"
  | .warn => "WARN"
  | .error => "ERROR"

/-- A message of a level. -/
structure Entry where
  level : Level
  message : Text
deriving DecidableEq, Repr

/-- The line of an entry written at an instant. -/
def Entry.line (now : Instant) (entry : Entry) : Text :=
  now.logStamp ++ " [" ++ entry.level.name ++ "] " ++ entry.message ++ "\n"

end TradeReentry.Log
