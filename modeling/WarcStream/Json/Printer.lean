import WarcStream.Bytes
import WarcStream.Text.Utf8
import WarcStream.Decimal.Shortest
import WarcStream.Value
/-!
# Compact JSON text

A value is written on one line without blanks. In a string the quote, the
backslash and the octets below 0x20 are escaped, the five common control
characters by a letter and the others by four hexadecimal digits; every other
octet of the text stands as it is.
-/

namespace WarcStream.Json

/-- An octet of a string's text as it stands between quotes. -/
def escapeOctet (b : UInt8) : Bytes :=
  if b = 0x22 then [0x5c, 0x22]
  else if b = 0x5c then [0x5c, 0x5c]
  else if b = 0x08 then [0x5c, 0x62]
  else if b = 0x09 then [0x5c, 0x74]
  else if b = 0x0a then [0x5c, 0x6e]
  else if b = 0x0c then [0x5c, 0x66]
  else if b = 0x0d then [0x5c, 0x72]
  else if b < 0x20 then
    [0x5c, 0x75, 0x30, 0x30, Bytes.hexDigit (b.toNat / 16), Bytes.hexDigit (b.toNat % 16)]
  else [b]

/-- The octets of a text between quotes. -/
def printOctets (bs : Bytes) : Bytes := 0x22 :: (bs.flatMap escapeOctet ++ [0x22])

/-- A text between quotes. -/
def printString (s : String) : Bytes := printOctets (Text.bytes s)

/-- A number. -/
def printNumber : Number → Bytes
  | .natural n => Bytes.decimal n.toNat
  | .negative below => 0x2d :: Bytes.decimal (below.val + 1)
  | .real x => Text.bytes (Decimal.Layout.balanced.render x)

mutual

/-- A value on one line. -/
def print : Value → Bytes
  | .null => [0x6e, 0x75, 0x6c, 0x6c]
  | .bool true => [0x74, 0x72, 0x75, 0x65]
  | .bool false => [0x66, 0x61, 0x6c, 0x73, 0x65]
  | .number n => printNumber n
  | .string s => printString s
  | .array [] => [0x5b, 0x5d]
  | .array (v :: rest) => 0x5b :: (print v ++ printItems rest)
  | .object [] => [0x7b, 0x7d]
  | .object ((k, v) :: rest) => 0x7b :: (printString k ++ 0x3a :: (print v ++ printEntries rest))

/-- The items after the first, each behind a comma, and the closing bracket. -/
def printItems : List Value → Bytes
  | [] => [0x5d]
  | v :: rest => 0x2c :: (print v ++ printItems rest)

/-- The entries after the first, each behind a comma, and the closing brace. -/
def printEntries : List (String × Value) → Bytes
  | [] => [0x7d]
  | (k, v) :: rest => 0x2c :: (printString k ++ 0x3a :: (print v ++ printEntries rest))

end

end WarcStream.Json
