import WarcStream.Command.Failure
import WarcStream.Log.Line
import WarcStream.Message.Format
import WarcStream.Report.Printer
import WarcStream.Text.Integer
/-!
# Options of the commands

What a command line asks for: a command with its own options, and the options
that every command shares.
-/

namespace WarcStream.Command

/-- Where a command reads from. -/
inductive Input where
  | stdin
  | file (path : String)
  deriving DecidableEq, Repr

namespace Input

/-- The input that a text names: a path, or a dash. -/
def ofText (s : String) : Input := if s = "-" then .stdin else .file s

/-- An input as it is shown. -/
def display : Input → String
  | .stdin => "<stdin>"
  | .file path => path

end Input

/-- A command with its own options. -/
inductive Action where
  /-- Prints messages, at most `count` of them. -/
  | dump (input : Input) (count : Option Nat)
  /-- Checks the order of messages. -/
  | check (input : Input) (requireEnd : Bool)
  /-- Writes messages given one a line. -/
  | frame (input : Input)
  | version (extended : Bool)
  deriving DecidableEq, Repr

/-- What a command reads. -/
def Action.input? : Action → Option Input
  | .dump input _ | .check input _ | .frame input => some input
  | .version _ => none

/-- The options that every command shares. -/
structure Shared where
  output : OutputFormat := .json
  logLayout : Log.Layout := .text
  verbosity : Log.Verbosity := some .warn
  protocol : ProtocolVersion := .latest
  stream : StreamFormat := .jsonSequence
  /-- The largest frame, if one was given. -/
  limit : Option Nat := none
  deriving DecidableEq, Repr

/-- The configuration of readers and writers of messages. -/
def Shared.config (s : Shared) : MessageConfig :=
  let config : MessageConfig := { format := s.stream, version := s.protocol }
  match s.limit with
  | some limit => { config with limit }
  | none => config

/-- A command line that was understood. -/
structure Invocation where
  shared : Shared
  action : Action
  deriving DecidableEq, Repr

/-! ## Values of options -/

/-- The output format with this name. -/
def outputOfName? : String → Option OutputFormat
  | "json" => some .json
  | "table" => some .table
  | "pretty" => some .pretty
  | _ => none

/-- The log layout with this name. -/
def layoutOfName? : String → Option Log.Layout
  | "text" => some .text
  | "json" => some .json
  | _ => none

/-- The verbosity with this name. -/
def verbosityOfName? : String → Option Log.Verbosity
  | "off" => some none
  | "error" => some (some .error)
  | "warn" => some (some .warn)
  | "info" => some (some .info)
  | "debug" => some (some .debug)
  | "trace" => some (some .trace)
  | _ => none

/-- An output format as the log names it. -/
def outputName : OutputFormat → String
  | .json => "Json"
  | .table => "Table"
  | .pretty => "Pretty"

end WarcStream.Command
