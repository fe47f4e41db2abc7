import WarcStream.Bytes
/-!
# Messages — the events of a stream of archive records

A record is sent as an optional location, a header, any number of pieces of
its block and an end with checksums. The end of the file is a message of its
own. A checksum that was not computed is absent, never zero.
-/

namespace WarcStream

/-- Where the next record came from. -/
structure Metadata where
  file : String
  position : UInt64
  deriving DecidableEq, Repr

/-- The start of a record: its version line and its fields in their order. -/
structure Header where
  version : String
  fields : List (String × String)
  deriving DecidableEq, Repr

/-- The checksums of a record's block, as far as they were computed. -/
structure Checksums where
  crc32 : Option UInt32 := none
  crc32c : Option UInt32 := none
  xxh3 : Option UInt64 := none
  deriving DecidableEq, Repr

/-- One message. -/
inductive Message where
  | metadata (m : Metadata)
  | header (h : Header)
  /-- A piece of a record's block. -/
  | blockChunk (data : Bytes)
  /-- The end of a record's block. -/
  | blockEnd (checksums : Checksums)
  | endOfFile
  deriving DecidableEq, Repr

/-- The name of a kind of message. -/
inductive Tag where
  | metadata
  | header
  | blockChunk
  | blockEnd
  | endOfFile
  deriving DecidableEq, Repr

namespace Tag

/-- Every tag. -/
def all : List Tag := [.metadata, .header, .blockChunk, .blockEnd, .endOfFile]

/-- The tag as it is written. -/
def name : Tag → String
  | .metadata => "Metadata"
  | .header => "Header"
  | .blockChunk => "BlockChunk"
  | .blockEnd => "BlockEnd"
  | .endOfFile => "EndOfFile"

/-- The tag with this name. -/
def ofName? (name : String) : Option Tag := all.find? fun tag => tag.name = name

/-- A tag is found by its name. -/
@[simp] theorem ofName?_name (tag : Tag) : ofName? tag.name = some tag := by
  cases tag <;> decide

/-- Only a tag's own name finds it. -/
theorem name_of_ofName? {name : String} {tag : Tag} (h : ofName? name = some tag) :
    tag.name = name := by
  simpa using List.find?_some h

end Tag

/-- The tag of a message. -/
def Message.tag : Message → Tag
  | .metadata _ => .metadata
  | .header _ => .header
  | .blockChunk _ => .blockChunk
  | .blockEnd _ => .blockEnd
  | .endOfFile => .endOfFile

/-- Two names that differ at most in the case of ASCII letters. -/
def sameName (a b : String) : Bool := a.toList.map Char.toLower == b.toList.map Char.toLower

/-- The first value of the field with this name. -/
def Header.field? (h : Header) (name : String) : Option String :=
  (h.fields.find? fun field => sameName field.1 name).map (·.2)

/-- No checksum was computed. -/
def Checksums.isEmpty (c : Checksums) : Bool :=
  c.crc32.isNone && c.crc32c.isNone && c.xxh3.isNone

/-- How a piece of a block is shown in diagnostics: by its length alone. -/
def blockChunkSummary (data : Bytes) : String :=
  "BlockChunk \x7b data: <" ++ toString data.length ++ " bytes> \x7d"

end WarcStream
