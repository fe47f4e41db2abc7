import WarcStream.Message.Error
import WarcStream.Record.Sequence
/-!
# Exit codes

A command that fails says what it was doing and why, and its exit code tells
the reasons apart.
-/

namespace WarcStream.Command

open Transport

/-- The exit codes. -/
def successCode : Nat := 0
/-- A file is missing, or the reader of the output has gone. -/
def failureCode : Nat := 1
/-- A file may not be read. -/
def permissionCode : Nat := 50
/-- The data is wrong. -/
def dataCode : Nat := 60
/-- The command line is wrong. -/
def usageCode : Nat := 64
/-- Anything else. -/
def internalCode : Nat := 125

/-- Why a command failed. -/
structure Failure where
  code : Nat
  message : String
  deriving DecidableEq, Repr

namespace Failure

/-- What went wrong in the middle of what. -/
def within (code : Nat) (context reason : String) : Failure := ⟨code, context ++ ": " ++ reason⟩

/-- The exit code of a fault. -/
def codeOfFault (f : Fault) : Nat :=
  match f.kind with
  | .permissionDenied => permissionCode
  | .notFound | .brokenPipe => failureCode
  | _ => internalCode

/-- A fault of the transport. -/
def ofFault (context : String) (f : Fault) : Failure := within (codeOfFault f) context f.message

/-- An error of a frame. -/
def ofFrame (context : String) (e : FrameError) : Failure :=
  match e with
  | .transport f => ofFault context f
  | .tooLarge _ _ | .ambiguous _ _ => within dataCode context e.message
  | .closed => within failureCode context e.message

/-- An error of a message. -/
def ofMessage (context : String) (e : MessageError) : Failure :=
  match e with
  | .frame e => ofFrame context e
  | .decode _ | .unrepresentable _ _ => within dataCode context e.message
  | .unencodable _ => within internalCode context e.message

/-- A message out of order. -/
def ofSequence (context : String) (e : SequenceError) : Failure :=
  within dataCode context e.message

end Failure

end WarcStream.Command
