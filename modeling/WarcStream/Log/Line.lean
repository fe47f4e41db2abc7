import WarcStream.Json.Printer
import WarcStream.Log.Event
/-!
# Lines of the log

An event becomes a line of text or a JSON object. The verbosity decides which
events are shown: those of the library up to it, those of anything else up to
warnings at most. From debugging on a line names where its event comes from,
as events of different parts share the names of their details.
-/

namespace WarcStream.Log

/-- How grave an event must be to be shown; none shows nothing. -/
abbrev Verbosity := Option Severity

/-- The layout of the log. -/
inductive Layout where
  | text
  | json
  deriving DecidableEq, Repr

/-- The larger, the less grave. -/
def Severity.rank : Severity → Nat
  | .error => 1
  | .warn => 2
  | .info => 3
  | .debug => 4
  | .trace => 5

/-- The rank up to which events are shown. -/
def rankOf : Verbosity → Nat
  | none => 0
  | some severity => severity.rank

/-- A severity in capitals. -/
def Severity.name : Severity → String
  | .error => "ERROR"
  | .warn => "WARN"
  | .info => "INFO"
  | .debug => "DEBUG"
  | .trace => "TRACE"

/-- What the names of the library's parts start with. -/
def ownTarget : String := "warcseq"

/-- Lines name where their event comes from. -/
def showsTargets (v : Verbosity) : Bool := Severity.debug.rank ≤ rankOf v

/-- An event of this target and severity is shown. -/
def isShown (v : Verbosity) (target : String) (severity : Severity) : Bool :=
  let limit :=
    if ownTarget.toList.isPrefixOf target.toList then rankOf v
    else min (rankOf v) Severity.warn.rank
  severity.rank ≤ limit

/-- A detail as text. -/
def Detail.display : Detail → String
  | .number n => toString n
  | .text s => s

/-- A detail as a value. -/
def Detail.value : Detail → Value
  | .number n => .natural (UInt64.ofNat n)
  | .text s => .string s

/-- The severity right-aligned, the target, the sentence and the details. -/
def Event.textLine (v : Verbosity) (e : Event) : String :=
  let pad := String.ofList (List.replicate (5 - e.severity.name.length) ' ')
  pad ++ e.severity.name ++ " " ++ (if showsTargets v then e.target ++ ": " else "") ++ e.message ++
    String.join (e.details.map fun (name, detail) => " " ++ name ++ "=" ++ detail.display) ++ "\n"

/-- The event as an object. -/
def Event.document (v : Verbosity) (e : Event) : Value :=
  .object
    ([("level", .string e.severity.name),
      ("fields", .object (("message", .string e.message) ::
        e.details.map fun (name, detail) => (name, detail.value)))] ++
      (if showsTargets v then [("target", .string e.target)] else []))

/-- The line of an event. -/
def Event.line (layout : Layout) (v : Verbosity) (e : Event) : Bytes :=
  match layout with
  | .text => Text.bytes (e.textLine v)
  | .json => Json.print (e.document v) ++ [Bytes.lineFeed]

/-- The lines of the events that are shown. -/
def render (layout : Layout) (v : Verbosity) (events : List Event) : Bytes :=
  (events.filter fun e => isShown v e.target e.severity).flatMap (Event.line layout v)

end WarcStream.Log
