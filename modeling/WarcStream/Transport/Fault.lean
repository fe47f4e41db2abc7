/-!
# Faults of a transport

What can go wrong when octets are read from a source or written to a sink. A
fault has a kind, which decides how it is handled, and a wording.
-/

namespace WarcStream.Transport

/-- The kind of a fault. -/
inductive FaultKind where
  /-- A signal came in between; the call is made again. -/
  | interrupted
  /-- The sink is full for now; the call is made again. -/
  | wouldBlock
  | brokenPipe
  | connectionReset
  | permissionDenied
  | notFound
  | unexpectedEnd
  | invalidData
  | timedOut
  | isDirectory
  | notDirectory
  | invalidName
  | other
  deriving DecidableEq, Repr

/-- The wording of a kind, where nothing more is known. -/
def FaultKind.message : FaultKind → String
  | .interrupted => "operation interrupted"
  | .wouldBlock => "operation would block"
  | .brokenPipe => "broken pipe"
  | .connectionReset => "connection reset"
  | .permissionDenied => "permission denied"
  | .notFound => "entity not found"
  | .unexpectedEnd => "unexpected end of file"
  | .invalidData => "invalid data"
  | .timedOut => "timed out"
  | .isDirectory => "is a directory"
  | .notDirectory => "not a directory"
  | .invalidName => "invalid filename"
  | .other => "other error"

/-- A fault: a kind alone, a failure reported by the operating system, or input that should have
been text. -/
inductive Fault where
  | plain (kind : FaultKind)
  | accessDenied
  | noSuchFile
  | notADirectory
  | isADirectory
  | nameTooLong
  | notText
  deriving DecidableEq, Repr

namespace Fault

/-- The kind of a fault. -/
def kind : Fault → FaultKind
  | .plain kind => kind
  | .accessDenied => .permissionDenied
  | .noSuchFile => .notFound
  | .notADirectory => .notDirectory
  | .isADirectory => .isDirectory
  | .nameTooLong => .invalidName
  | .notText => .invalidData

/-- The wording of a fault. -/
def message : Fault → String
  | .plain kind => kind.message
  | .accessDenied => "Permission denied (os error 13)"
  | .noSuchFile => "No such file or directory (os error 2)"
  | .notADirectory => "Not a directory (os error 20)"
  | .isADirectory => "Is a directory (os error 21)"
  | .nameTooLong => "File name too long (os error 36)"
  | .notText => "stream did not contain valid UTF-8"

/-- A read is made again after this fault. -/
def isInterruption (f : Fault) : Bool := f.kind = .interrupted

/-- A write or a flush is made again after this fault. -/
def isRetried (f : Fault) : Bool := f.kind = .interrupted || f.kind = .wouldBlock

end Fault

end WarcStream.Transport
