import WarcStream.Command.Options
import WarcStream.Transport.Source
/-!
# What a command does

A command reads an input that has been opened, or could not be, and ends with
what it wrote, what it reported, and its failure, if it failed.
-/

namespace WarcStream.Command

open Transport

/-- What a command did. -/
structure Outcome where
  output : Bytes
  events : List Log.Event
  failure : Option Failure := none
  deriving Repr

/-- The exit code of a command. -/
def Outcome.code (o : Outcome) : Nat :=
  match o.failure with
  | some failure => failure.code
  | none => successCode

theorem Outcome.code_of_none {o : Outcome} (h : o.failure = none) : o.code = successCode := by
  rw [code, h]

theorem Outcome.code_of_some {o : Outcome} {failure : Failure} (h : o.failure = some failure) :
    o.code = failure.code := by
  rw [code, h]

/-- A command that failed to open its input. -/
def Outcome.unopened (input : Input) (f : Fault) : Outcome :=
  { output := [], events := []
    failure := some (.ofFault ("open " ++ input.display ++ " failed") f) }

end WarcStream.Command
