import WarcStream.Command.Program
/-!
# The command line

Reads the arguments, the variables and the input, runs the program and writes
what it leaves behind.
-/

namespace WarcStream.Command

open Transport

/-- The variables that set options. -/
def variableNames : List String :=
  ["WARCSEQ_LOG_FORMAT", "WARCSEQ_LOG_LEVEL", "WARCSEQ_PROTOCOL", "WARCSEQ_STREAM_FORMAT"]

/-- The variables that are set. -/
def readVariables : IO (List (String × String)) :=
  variableNames.filterMapM fun name => return (← IO.getEnv name).map fun value => (name, value)

/-- The fault that a failed call stands for. -/
def faultOf : IO.Error → Fault
  | .noFileOrDirectory .. => .noSuchFile
  | .permissionDenied .. => .accessDenied
  | .inappropriateType .. => .notADirectory
  | .interrupted .. => .plain .interrupted
  | _ => .plain .other

/-- Everything that is left on a stream. -/
partial def readAll (stream : IO.FS.Stream) (before : ByteArray) : IO ByteArray := do
  let octets ← stream.read 65536
  if octets.isEmpty then return before else readAll stream (before ++ octets)

/-- Opens an input and reads it. -/
def readInput : Input → IO (Except Fault Source)
  | .stdin => do
    let octets ← readAll (← IO.getStdin) .empty
    return .ok (.ofBytes octets.toList)
  | .file path => do
    try
      let octets ← IO.FS.readBinFile path
      return .ok (.ofBytes octets.toList)
    catch error => return .error (faultOf error)

/-- Runs the program. -/
def runProgram (arguments : List String) : IO UInt32 := do
  let environment ← readVariables
  let opened ← match Invocation.ofArguments arguments environment with
    | .ok invocation =>
      match invocation.action.input? with
      | some input => readInput input
      | none => pure (.ok (.ofBytes []))
    | .error _ => pure (.ok (.ofBytes []))
  let exit := program arguments environment fun _ => opened
  let output ← IO.getStdout
  output.write ⟨exit.output.toArray⟩
  output.flush
  (← IO.getStderr).write ⟨exit.errorOutput.toArray⟩
  return UInt32.ofNat exit.code

end WarcStream.Command

/-- The entry point. -/
def main (arguments : List String) : IO UInt32 := WarcStream.Command.runProgram arguments
