import WarcStream.Json.Printer
import WarcStream.Message.Document
import WarcStream.Report.Table
/-!
# Printing messages

Messages are printed as JSON texts, as lines for people, or in tables. Rows of
a table are collected and written in blocks, so that a long stream does not
hold all of them; what is pending at the end is written then.
-/

namespace WarcStream

/-- How output is laid out. -/
inductive OutputFormat where
  | json
  | table
  | pretty
  deriving DecidableEq, Repr

/-- The checksums that are there, each with its name. -/
def Checksums.parts (c : Checksums) : List String :=
  let part (name : String) (n : Option Nat) : List String :=
    n.toList.map fun n => name ++ "=" ++ toString n
  part "crc32" (c.crc32.map UInt32.toNat) ++ part "crc32c" (c.crc32c.map UInt32.toNat) ++
    part "xxh3" (c.xxh3.map UInt64.toNat)

/-- What a message says, for people. -/
def Message.describe : Message → String
  | .metadata m => "file=" ++ m.file ++ " position=" ++ toString m.position.toNat
  | .header h =>
    "version=" ++ h.version ++ " fields=" ++ toString h.fields.length ++
      (match h.field? "WARC-Type" with
        | some kind => " type=" ++ kind
        | none => "")
  | .blockChunk data => "bytes=" ++ toString data.length
  | .blockEnd c => if c.isEmpty then "no checksums" else " ".intercalate c.parts
  | .endOfFile => ""

namespace Report

/-- Rows of a table that are written together. -/
def blockRows : Nat := 64

/-- The table of some messages' rows. -/
def messageTable (rows : List (List String)) : Table :=
  { header := ["#", "TAG", "DETAILS"], rows }

/-- The row of a message. -/
def messageRow (index : Nat) (m : Message) : List String :=
  [toString index, m.tag.name, m.describe]

/-- The line of a message. -/
def prettyLine (index : Nat) (m : Message) : String :=
  "#" ++ toString index ++ " " ++ m.tag.name ++
    (if m.describe.isEmpty then "" else " " ++ m.describe) ++ "\n"

end Report

open Report

/-- A printer of messages. -/
structure MessagePrinter where
  format : OutputFormat
  /-- What has been written, newest first. -/
  written : List Bytes := []
  /-- Rows of the table that has not been written, newest first. -/
  rows : List (List String) := []
  /-- Counts these rows. -/
  pending : Nat := 0
  /-- The messages printed so far. -/
  printed : Nat := 0
  deriving Repr

namespace MessagePrinter

/-- Writes the rows that are pending. -/
def writeTable (p : MessagePrinter) : MessagePrinter :=
  if p.pending = 0 then p
  else
    { p with
      written := Text.bytes (messageTable p.rows.reverse).render :: p.written
      rows := []
      pending := 0 }

/-- Prints one message. -/
def print (p : MessagePrinter) (m : Message) : MessagePrinter :=
  let next := { p with printed := p.printed + 1 }
  match p.format with
  | .json => { next with written := (Json.print m.document ++ [Bytes.lineFeed]) :: p.written }
  | .pretty => { next with written := Text.bytes (prettyLine p.printed m) :: p.written }
  | .table =>
    let next :=
      { next with rows := messageRow p.printed m :: p.rows, pending := p.pending + 1 }
    if next.pending = blockRows then next.writeTable else next

/-- Everything that was written, and at last what was pending. -/
def finish (p : MessagePrinter) : Bytes := p.writeTable.written.reverse.flatten

/-- Prints messages one after the other. -/
def printAll (p : MessagePrinter) (ms : List Message) : MessagePrinter := ms.foldl print p

end MessagePrinter

end WarcStream
