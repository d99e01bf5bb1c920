/-!
# Log records

What the library reports while it works: a level, a message, and named fields.
-/

namespace HazardFlow

/-- How serious a log record is. -/
inductive LogLevel where
  | debug
  | warn
  | error
  deriving DecidableEq, Repr

/-- The name of a level. -/
def LogLevel.name : LogLevel → String
  | .debug => "DEBUG"
  | .warn => "WARN"
  | .error => "ERROR"

/-- The value of a field. -/
inductive LogValue where
  | number (n : Nat)
  | text (t : String)
  deriving DecidableEq, Repr

/-- One report. -/
structure LogRecord where
  level : LogLevel
  message : String
  fields : List (String × LogValue) := []
  deriving DecidableEq, Repr

end HazardFlow
