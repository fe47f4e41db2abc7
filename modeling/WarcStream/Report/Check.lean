import WarcStream.Json.Printer
import WarcStream.Record.Sequence
import WarcStream.Report.Printer
/-!
# The report of a check

What a check of a stream found, as a JSON object, a table or a line.
-/

namespace WarcStream

/-- What a check of a stream found. -/
structure CheckReport where
  /-- The number of the protocol version. -/
  protocol : Nat
  messages : Nat := 0
  records : Nat := 0
  /-- Pieces of blocks. -/
  chunks : Nat := 0
  blockLength : Nat := 0
  endOfFile : Bool := false
  deriving DecidableEq, Repr

namespace CheckReport

/-- Counts a record. -/
def addRecord (r : CheckReport) (record : RecordSummary) : CheckReport :=
  { r with
    records := r.records + 1
    chunks := r.chunks + record.chunkCount
    blockLength := r.blockLength + record.blockLength }

/-- The counts with their names. -/
def counts (r : CheckReport) : List (String × Nat) :=
  [("protocol", r.protocol), ("messages", r.messages), ("records", r.records),
    ("chunks", r.chunks), ("block_bytes", r.blockLength)]

/-- The name of the last entry. -/
def endName : String := "end_of_file"

/-- The wording of a truth value. -/
def truth (b : Bool) : String := if b then "true" else "false"

/-- The report as an object. -/
def document (r : CheckReport) : Value :=
  .object (r.counts.map (fun (name, n) => (name, .natural (UInt64.ofNat n))) ++
    [(endName, .bool r.endOfFile)])

/-- The report as texts with their names. -/
def texts (r : CheckReport) : List (String × String) :=
  r.counts.map (fun (name, n) => (name, toString n)) ++ [(endName, truth r.endOfFile)]

/-- The report as it is printed. -/
def print (r : CheckReport) : OutputFormat → Bytes
  | .json => Json.print r.document ++ [Bytes.lineFeed]
  | .table =>
    Text.bytes (Report.Table.render
      { header := ["FIELD", "VALUE"], rows := r.texts.map fun (name, text) => [name, text] })
  | .pretty =>
    Text.bytes ("ok: " ++ " ".intercalate (r.texts.map fun (name, text) => name ++ "=" ++ text) ++
      "\n")

end CheckReport

end WarcStream
