import WarcStream.Bytes
/-!
# Natural numbers in text

A natural number of 64 bits is written with decimal digits, leading zeros
allowed, and may have a plus sign.
-/

namespace WarcStream.Text

/-- The value of a decimal digit. -/
def digitValue (c : Char) : Nat := c.toNat - '0'.toNat

/-- The number that decimal digits stand for. -/
def digitsValue (cs : List Char) : Nat := cs.foldl (fun n c => n * 10 + digitValue c) 0

/-- The digits behind a plus sign, if there is one. -/
def unsigned : List Char → List Char
  | '+' :: digits => digits
  | digits => digits

/-- The natural number of 64 bits that a text stands for. -/
def natural? (s : String) : Option UInt64 :=
  let digits := unsigned s.toList
  if digits ≠ [] ∧ digits.all Char.isDigit ∧ digitsValue digits < 2 ^ 64 then
    some (UInt64.ofNat (digitsValue digits))
  else none

end WarcStream.Text
