import WarcStream.Text.GraphemeExtend
import WarcStream.Text.Unprintable
/-!
# Quoted text

Text taken from a peer is shown between double quotes, with every character
that could hide or forge something written as an escape: the quote and the
backslash, the usual control characters by a letter, and whatever is not
printable, leaves no mark of its own or joins the character before it by its
code point in braces.
-/

namespace WarcStream.Text

/-- A code point lies in one of the ranges. -/
def inRanges (ranges : List (Nat × Nat)) (n : Nat) : Bool :=
  ranges.any fun r => r.1 ≤ n && n ≤ r.2

/-- A combining mark or the like. -/
def extendsGrapheme (c : Char) : Bool := 0x300 ≤ c.toNat && inRanges graphemeExtendRanges c.toNat

/-- Fillers of Hangul syllables: letters by category, without any mark. -/
def isFiller (c : Char) : Bool :=
  c.toNat == 0x115f || c.toNat == 0x1160 || c.toNat == 0x3164 || c.toNat == 0xffa0

/-- A character that is shown as it stands. -/
def isPrintable (c : Char) : Bool :=
  if c.toNat < 0x20 then false
  else if c.toNat < 0x7f then true
  else !(inRanges unprintableRanges c.toNat || extendsGrapheme c || isFiller c)

/-- The hexadecimal digits of a number, lower case, without leading zeros. -/
def hexDigits (n : Nat) : List Char := Nat.toDigits 16 n

/-- A character between quotes. -/
def escapeChar (c : Char) : List Char :=
  if c == '"' then ['\\', '"']
  else if c == '\\' then ['\\', '\\']
  else if c == '\n' then ['\\', 'n']
  else if c == '\r' then ['\\', 'r']
  else if c == '\t' then ['\\', 't']
  else if c.toNat == 0 then ['\\', '0']
  else if isPrintable c then [c]
  else ['\\', 'u', '{'] ++ hexDigits c.toNat ++ ['}']

/-- The characters of a text between double quotes. -/
def quoteChars (cs : List Char) : List Char := '"' :: (cs.flatMap escapeChar ++ ['"'])

/-- A text between double quotes. -/
def quoted (s : String) : String := String.ofList (quoteChars s.toList)

end WarcStream.Text
