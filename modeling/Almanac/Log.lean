/-!
# Log lines
-/

namespace Almanac

inductive LogLevel where
  | info
  | warning
  | failure
  deriving DecidableEq, Repr

def LogLevel.label : LogLevel → String
  | .info => "INFO"
  | .warning => "WARN"
  | .failure => "ERROR"

/-- A line of the log, with the status of a response if it is about one. -/
structure LogLine where
  level : LogLevel
  text : String
  status : Option Nat := none
  deriving DecidableEq, Repr

def LogLine.message (l : LogLine) : String :=
  l.level.label ++ " " ++ l.text

end Almanac
