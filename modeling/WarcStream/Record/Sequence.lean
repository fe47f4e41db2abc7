import WarcStream.Log.Event
import WarcStream.Message.Basic
/-!
# The order of messages

A stream is a sequence of records and may end with the end of the file. A
record is any number of locations, of which the last counts, a header, any
number of pieces of its block, and the end of the block. A message out of
order is refused and changes nothing.
-/

namespace WarcStream

/-- What is known of a record. -/
structure RecordSummary where
  /-- Where the record came from, if that was said. -/
  metadata : Option Metadata
  version : String
  fieldCount : Nat
  chunkCount : Nat := 0
  /-- The octets of the block. -/
  blockLength : Nat := 0
  checksums : Checksums := {}
  deriving DecidableEq, Repr

/-- Where a stream is within its order. -/
inductive SequenceState where
  /-- Between records, with the location of the next one, if it was sent. -/
  | between (metadata : Option Metadata)
  /-- Inside the block of a record. -/
  | inside (record : RecordSummary)
  /-- Behind the end of the file. -/
  | finished
  deriving DecidableEq, Repr

/-- What can be out of order. -/
inductive SequenceError where
  /-- Not a message that can follow; `inside` says whether a record is open. -/
  | unexpected (inside : Bool) (found : Tag)
  /-- A message behind the end of the file. -/
  | afterEnd (found : Tag)
  /-- The stream stops inside a record with this many pieces of its block. -/
  | unterminated (chunks : Nat)
  deriving DecidableEq, Repr

/-- The wording of an error. -/
def SequenceError.message : SequenceError → String
  | .unexpected inside found =>
    "expected " ++ (if inside then "BlockChunk or BlockEnd" else "Header") ++ ", found " ++
      found.name
  | .afterEnd found => found.name ++ " after EndOfFile"
  | .unterminated chunks =>
    "stream ended inside a record (" ++ toString chunks ++ " chunks received)"

namespace SequenceState

/-- The stream may stop here. -/
def finish : SequenceState → Except SequenceError Unit
  | .inside record => .error (.unterminated record.chunkCount)
  | .between (some _) => .error (.unterminated 0)
  | .between none | .finished => .ok ()

end SequenceState

/-- A validator of a stream's order. -/
structure SequenceValidator where
  state : SequenceState := .between none
  /-- The messages accepted so far. -/
  messages : Nat := 0
  /-- The records closed so far. -/
  records : Nat := 0
  deriving DecidableEq, Repr

namespace SequenceValidator

/-- Judges a message by a state that the validator has given away: the state to put back, and the
answer. The end of a block counts its record. -/
def receive (v : SequenceValidator) (state : SequenceState) (m : Message) :
    SequenceState × Except SequenceError (Option RecordSummary) × SequenceValidator :=
  match state, m with
  | .finished, m => (.finished, .error (.afterEnd m.tag), v)
  | .between _, .metadata location => (.between (some location), .ok none, v)
  | .between metadata, .header h =>
    (.inside { metadata, version := h.version, fieldCount := h.fields.length }, .ok none, v)
  | .between none, .endOfFile => (.finished, .ok none, v)
  | .between metadata, m => (.between metadata, .error (.unexpected false m.tag), v)
  | .inside record, .blockChunk data =>
    (.inside { record with
      chunkCount := record.chunkCount + 1
      blockLength := record.blockLength + data.length }, .ok none, v)
  | .inside record, .blockEnd checksums =>
    (.between none, .ok (some { record with checksums }), { v with records := v.records + 1 })
  | .inside record, m => (.inside record, .error (.unexpected true m.tag), v)

/-- Takes the next message, and gives the record that it closes. The state is given away, which
leaves a validator that is finished, until the one to follow is put in its place; and an answer that
is no error counts its message. -/
def observe (v : SequenceValidator) (m : Message) :
    Except SequenceError (Option RecordSummary) × SequenceValidator :=
  let emptied := { v with state := .finished }
  let (state, answer, rest) := emptied.receive v.state m
  let placed := { rest with state }
  (answer, if answer.isOk then { placed with messages := placed.messages + 1 } else placed)

/-- The stream may stop here. -/
def finish (v : SequenceValidator) : Except SequenceError Unit := v.state.finish

/-- The end of the file has been observed. -/
def isFinished (v : SequenceValidator) : Bool := v.state = .finished

/-- What is reported while the next message is taken. -/
def observeEvents (v : SequenceValidator) (m : Message) : List Log.Event :=
  match v.observe m with
  | (.ok (some record), next) =>
    [{ severity := .debug, target := "warcseq_message::sequence", message := "record complete"
       details := [("records", .number next.records), ("chunks", .number record.chunkCount),
         ("block_len", .number record.blockLength)] }]
  | _ => []

end SequenceValidator

end WarcStream
