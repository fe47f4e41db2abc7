import WarcStream.Command.Outcome
import WarcStream.Message.Reader
import WarcStream.Report.Check
/-!
# Checking a stream

Every message of a stream is decoded and its order is checked. The first
message that is wrong ends the check; a stream in order gives a report.
-/

namespace WarcStream.Command

open Transport

/-- Where a check stands. -/
structure Checking where
  validator : SequenceValidator := {}
  report : CheckReport
  deriving Repr

namespace Checking

/-- The message a check has come to, counted from one. -/
def position (c : Checking) : String := toString (c.validator.messages + 1)

/-- What is reported of a record in order. -/
def recordEvent (validator : SequenceValidator) (record : RecordSummary) : Log.Event :=
  { severity := .debug, target := "warcseq::cmd::check", message := "record ok"
    details := [("records", .number validator.records), ("version", .text record.version),
      ("block_len", .number record.blockLength)] }

/-- Checks one message. -/
def take (c : Checking) (m : Message) : Except Failure Checking × List Log.Event :=
  match c.validator.observe m with
  | (.error e, _) => (.error (.ofSequence ("out of order at message " ++ c.position) e), [])
  | (.ok none, validator) => (.ok { c with validator }, [])
  | (.ok (some record), validator) =>
    (.ok { validator, report := c.report.addRecord record },
      c.validator.observeEvents m ++ [recordEvent validator record])

/-- Checks the messages of a reader to its end. -/
def run (c : Checking) (r : MessageReader) : Except Failure Checking × List Log.Event :=
  match _h : r.next with
  | (.ok (some m), next) =>
    match c.take m with
    | (.ok later, events) =>
      let (result, rest) := later.run next
      (result, r.nextEvents ++ events ++ rest)
    | (.error failure, events) => (.error failure, r.nextEvents ++ events)
  | (.ok none, _) => (.ok c, r.nextEvents)
  | (.error e, _) =>
    (.error (.ofMessage ("decode failed at message " ++ c.position) e), r.nextEvents)
termination_by r.remaining
decreasing_by exact MessageReader.remaining_next_lt _h

/-- The report of a stream that ends where a check stands. -/
def finish (c : Checking) (requireEnd : Bool) : Except Failure CheckReport :=
  match c.validator.finish with
  | .error e => .error (.ofSequence "incomplete stream" e)
  | .ok () =>
    if requireEnd && !c.validator.isFinished then
      .error ⟨dataCode, "incomplete stream: missing EndOfFile"⟩
    else
      .ok { c.report with
        messages := c.validator.messages
        endOfFile := c.validator.isFinished }

end Checking

/-- Checks a stream. -/
def checkSource (shared : Shared) (requireEnd : Bool) (source : Source) : Outcome :=
  let start : Checking := { report := { protocol := shared.protocol.number } }
  let (result, events) := start.run (.ofConfig shared.config source)
  match result.bind fun c => c.finish requireEnd with
  | .ok report => { output := report.print shared.output, events }
  | .error failure => { output := [], events, failure := some failure }

/-- Checks an input. -/
def check (shared : Shared) (input : Input) (requireEnd : Bool) (opened : Except Fault Source) :
    Outcome :=
  match opened with
  | .error f => .unopened input f
  | .ok source => checkSource shared requireEnd source

end WarcStream.Command
