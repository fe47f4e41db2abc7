import WarcStream.Command.Arguments
import WarcStream.Command.Check
import WarcStream.Command.Dump
import WarcStream.Command.Frame
/-!
# The program

A command line is understood, its input opened and its command run. What the
command reported and its failure make the error output.
-/

namespace WarcStream.Command

open Transport

/-- What is printed about the program. -/
def versionText (extended : Bool) : String :=
  if extended then
    let tags (v : ProtocolVersion) : String := ",".intercalate (v.tags.map Tag.name)
    String.join (([("name", "warcseq"), ("version", "0.1.0"),
      ("protocol_latest", ProtocolVersion.latest.display),
      ("protocol_v1", tags .v1), ("protocol_v2", tags .v2),
      ("block_end_fields", ",".intercalate ProtocolVersion.latest.checksumNames),
      ("message_tags", toString Tag.all.length),
      ("features", "async=true, cli=true")]).map fun (name, text) => name ++ ": " ++ text ++ "\n")
  else programVersion ++ "\n"

/-- What is reported before a command starts. -/
def startEvent (shared : Shared) : Log.Event :=
  { severity := .debug, target := "warcseq", message := "starting"
    details := [("protocol", .text shared.protocol.display),
      ("stream_format", .text shared.stream.name), ("format", .text (outputName shared.output))] }

/-- Runs a command on its input. -/
def Invocation.run (i : Invocation) (opened : Except Fault Source) : Outcome :=
  let outcome := match i.action with
    | .dump input count => dump i.shared input count opened
    | .check input requireEnd => check i.shared input requireEnd opened
    | .frame input => frame i.shared input opened
    | .version extended => { output := Text.bytes (versionText extended), events := [] }
  { outcome with events := startEvent i.shared :: outcome.events }

/-- The line of a failure. -/
def failureLine : Option Failure → Bytes
  | some failure => Text.bytes ("error: " ++ failure.message ++ "\n")
  | none => []

/-- What a command writes to the error output. -/
def Invocation.errorOutput (i : Invocation) (o : Outcome) : Bytes :=
  Log.render i.shared.logLayout i.shared.verbosity o.events ++ failureLine o.failure

/-- What the program leaves behind. -/
structure Exit where
  code : Nat
  output : Bytes
  errorOutput : Bytes
  deriving Repr

/-- Runs the program on a command line, in an environment with a way to open inputs. -/
def program (arguments : List String) (environment : List (String × String))
    (openInput : Input → Except Fault Source) : Exit :=
  match Invocation.ofArguments arguments environment with
  | .error .usage => ⟨usageCode, [], Text.bytes usageText⟩
  | .error (.information text) => ⟨successCode, Text.bytes text, []⟩
  | .ok invocation =>
    let outcome := invocation.run (openInput (invocation.action.input?.getD .stdin))
    ⟨outcome.code, outcome.output, invocation.errorOutput outcome⟩

end WarcStream.Command
