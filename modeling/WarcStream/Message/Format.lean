import WarcStream.Frame.Framing
import WarcStream.Message.Version
/-!
# Stream formats

A stream of messages is a sequence of JSON texts, each behind a record
separator or each on its line, or a sequence of CBOR items, which need no
frame around them.
-/

namespace WarcStream

/-- The octets around each message of a stream. -/
inductive StreamFormat where
  /-- JSON texts, each behind a record separator. -/
  | jsonSequence
  /-- JSON texts, each on its line. -/
  | jsonLines
  /-- CBOR items. -/
  | cborSequence
  deriving DecidableEq, Repr, Inhabited

namespace StreamFormat

/-- Every format. -/
def all : List StreamFormat := [.jsonSequence, .jsonLines, .cborSequence]

/-- A format as it is shown. -/
def name : StreamFormat → String
  | .jsonSequence => "json-seq"
  | .jsonLines => "jsonl"
  | .cborSequence => "cbor-seq"

/-- The names a format goes by. -/
def names : StreamFormat → List String
  | .jsonSequence => ["json-seq", "jsonseq", "json"]
  | .jsonLines => ["jsonl", "json-lines", "ndjson"]
  | .cborSequence => ["cbor-seq", "cborseq", "cbor"]

/-- The framing of a format, unless its items delimit themselves. -/
def framing? : StreamFormat → Option Framing
  | .jsonSequence => some .recordSeparated
  | .jsonLines => some .lineDelimited
  | .cborSequence => none

/-- The format that a text names, in upper or lower case. -/
def ofText? (s : String) : Option StreamFormat :=
  let plain := String.ofList ((Text.trimChars s.toList).map Char.toLower)
  all.find? fun format => format.names.contains plain

/-- What is said of a text that names no format. -/
def unknownMessage (s : String) : String :=
  "unknown stream format " ++ Text.quoted s ++ " (expected json-seq, jsonl or cbor-seq)"

end StreamFormat

/-- What a reader and a writer of messages must agree on. -/
structure MessageConfig where
  format : StreamFormat := .jsonSequence
  version : ProtocolVersion := .v2
  /-- Largest segment or item, 16 MiB unless set. -/
  limit : Nat := 16 * 1024 * 1024
  /-- Octets asked from a source at a time, 8 KiB unless set. -/
  chunk : Nat := 8 * 1024
  deriving DecidableEq, Repr

/-- The configuration of the frames around the messages. -/
def MessageConfig.frames (c : MessageConfig) (framing : Framing) : FrameConfig :=
  { framing, limit := c.limit, chunk := c.chunk }

end WarcStream
