import WarcStream.Command.Outcome
import WarcStream.Message.Writer
/-!
# Writing a stream

Messages are given as JSON texts, one a line, and are written as a stream. The
first line that is no message, or whose message is refused, ends the stream;
blank lines are passed over and still counted.
-/

namespace WarcStream.Command

open Transport

/-- The octets of deliveries up to the end or to a fault. -/
def drain : List Delivery → Bytes × Option Fault
  | [] => ([], none)
  | .fault f :: rest => if f.isInterruption then drain rest else ([], some f)
  | .data octets :: rest =>
    if octets.isEmpty then ([], none)
    else
      let (more, stop) := drain rest
      (octets ++ more, stop)

/-- The lines of a text, without their line feeds. Nothing behind the last line feed is no line. -/
def linesOf : Bytes → List Bytes
  | [] => []
  | b :: rest =>
    if b = Bytes.lineFeed then [] :: linesOf rest
    else
      match linesOf rest with
      | line :: lines => (b :: line) :: lines
      | [] => [[b]]

/-- The lines that arrive whole before a fault. -/
def wholeLines (octets : Bytes) : List Bytes :=
  linesOf (octets.take (octets.length - (octets.reverse.takeWhile (· != Bytes.lineFeed)).length))

/-- Where a command that writes a stream stands. -/
structure Writing where
  writer : MessageWriter
  events : List Log.Event := []
  deriving Repr

namespace Writing

/-- Writes the message of one line. -/
def takeLine (w : Writing) (input : Input) (index : Nat) (line : Bytes) : Except Failure Writing :=
  match Text.ofBytes? line with
  | none => .error (.ofFault ("read " ++ input.display ++ " failed") .notText)
  | some text =>
    let segment := Text.bytes (Text.trim text)
    let context := "line " ++ toString index
    if segment.isEmpty then .ok w
    else
      match Message.ofSegment w.writer.config.version segment with
      | .error e => .error (.ofMessage context (.decode e))
      | .ok m =>
        match w.writer.write m with
        | (.error e, _) => .error (.ofMessage context e)
        | (.ok (), writer) =>
          .ok { writer, events := w.events ++ w.writer.writeEvents m }

/-- Writes the messages of lines, the first of which has this number. -/
def takeLines (w : Writing) (input : Input) (index : Nat) : List Bytes → Writing × Option Failure
  | [] => (w, none)
  | line :: rest =>
    match w.takeLine input index line with
    | .ok next => next.takeLines input (index + 1) rest
    | .error failure => (w, some failure)

end Writing

/-- Writes the messages of a source. -/
def frameSource (shared : Shared) (input : Input) (source : Source) : Outcome :=
  let (octets, stop) := drain source.script
  let start : Writing := { writer := { config := shared.config } }
  -- a fault takes the line that was under way with it
  let lines := if stop.isSome then wholeLines octets else linesOf octets
  match start.takeLines input 1 lines, stop with
  | (done, some failure), _ =>
    { output := done.writer.sink.taken, events := done.events, failure := some failure }
  | (done, none), some f =>
    { output := done.writer.sink.taken, events := done.events
      failure := some (.ofFault ("read " ++ input.display ++ " failed") f) }
  | (done, none), none =>
    match done.writer.flush with
    | (.error e, writer) =>
      { output := writer.sink.taken, events := done.events
        failure := some (.ofMessage "flush failed" e) }
    | (.ok (), writer) =>
      { output := writer.sink.taken
        events := done.events ++
          [{ severity := .debug, target := "warcseq::cmd::frame", message := "frame complete"
             details := [("messages", .number writer.written)] }] }

/-- Writes the messages of an input. -/
def frame (shared : Shared) (input : Input) (opened : Except Fault Source) : Outcome :=
  match opened with
  | .error f => .unopened input f
  | .ok source => frameSource shared input source

end WarcStream.Command
