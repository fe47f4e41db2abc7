/-!
# Events of the log

What the library reports about its own work. An event has a severity, the part
of the library it comes from, a sentence, and named details. Functions that
list the events of a call stand beside the functions that do the work, so the
work itself carries no log.
-/

namespace WarcStream.Log

/-- How grave an event is. -/
inductive Severity where
  | error
  | warn
  | info
  | debug
  | trace
  deriving DecidableEq, Repr

/-- A detail of an event. -/
inductive Detail where
  /-- A count or a length. -/
  | number (n : Nat)
  /-- A text. -/
  | text (s : String)
  deriving DecidableEq, Repr

/-- An event. -/
structure Event where
  severity : Severity
  /-- The part of the library it comes from. -/
  target : String
  message : String
  details : List (String × Detail) := []
  deriving DecidableEq, Repr

end WarcStream.Log
