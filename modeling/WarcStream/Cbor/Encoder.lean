import WarcStream.Cbor.Header
import WarcStream.Text.Utf8
import WarcStream.Value
/-!
# Writing CBOR

A value is written with definite lengths and the shortest headers. A number
that is no integer keeps its sixty-four bits.
-/

namespace WarcStream.Cbor

/-- A text with its header. -/
def encodeText (s : String) : Bytes := head 3 (Text.bytes s).length ++ Text.bytes s

/-- A number. -/
def encodeNumber : Number → Bytes
  | .natural n => head 0 n.toNat
  | .negative below => head 1 below.val
  | .real x => 0xfb :: Bytes.ofNat 8 x.bits.toNat

mutual

/-- The item of a value. -/
def encode : Value → Bytes
  | .null => head 7 nullValue
  | .bool b => head 7 (if b then trueValue else falseValue)
  | .number n => encodeNumber n
  | .string s => encodeText s
  | .array items => head 4 items.length ++ encodeItems items
  | .object entries => head 5 entries.length ++ encodeEntries entries

/-- The items of an array, one behind the other. -/
def encodeItems : List Value → Bytes
  | [] => []
  | v :: rest => encode v ++ encodeItems rest

/-- The keys and values of a map in turn. -/
def encodeEntries : List (String × Value) → Bytes
  | [] => []
  | (k, v) :: rest => encodeText k ++ encode v ++ encodeEntries rest

end

end WarcStream.Cbor
