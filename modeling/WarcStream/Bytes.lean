/-!
# Bytes — octet strings and the ASCII characters they hold

Streams, frames and payloads are lists of octets. This file names the octets
that carry meaning on the wire, the six ASCII blanks a segment may consist
of, hexadecimal digits, and integers written with the most significant octet
first.
-/

-- a power of natural numbers is the one of the core library, whatever else is imported
attribute [instance (high), default_instance 20000] instPowNat

namespace WarcStream

/-- A string of octets. -/
abbrev Bytes := List UInt8

namespace Bytes

/-- Line feed. Closes the payload of every frame. -/
def lineFeed : UInt8 := 0x0a

/-- Carriage return. -/
def carriageReturn : UInt8 := 0x0d

/-- The ASCII record separator. Opens every record-separated frame. -/
def recordSeparator : UInt8 := 0x1e

/-- Space, tab, line feed, form feed and carriage return. Vertical tab is not
among them. -/
def isBlank (b : UInt8) : Bool :=
  b == 0x20 || b == 0x09 || b == 0x0a || b == 0x0c || b == 0x0d

/-- An ASCII digit. -/
def isDigit (b : UInt8) : Bool := 0x30 ≤ b && b ≤ 0x39

/-- The value of an ASCII digit. -/
def digitValue (b : UInt8) : Nat := b.toNat - 0x30

/-- The lower-case hexadecimal digit of a number below 16. -/
def hexDigit (n : Nat) : UInt8 :=
  if n < 10 then UInt8.ofNat (0x30 + n) else UInt8.ofNat (0x57 + n)

/-- The value of a hexadecimal digit of either case. -/
def hexValue? (b : UInt8) : Option Nat :=
  if 0x30 ≤ b && b ≤ 0x39 then some (b.toNat - 0x30)
  else if 0x61 ≤ b && b ≤ 0x66 then some (b.toNat - 0x57)
  else if 0x41 ≤ b && b ≤ 0x46 then some (b.toNat - 0x37)
  else none

/-- Two lower-case hexadecimal digits. -/
def hexPair (b : UInt8) : List Char :=
  [Char.ofUInt8 (hexDigit (b.toNat / 16)), Char.ofUInt8 (hexDigit (b.toNat % 16))]

/-- Every octet as two lower-case hexadecimal digits. -/
def hex (bs : Bytes) : String := String.ofList (bs.flatMap hexPair)

/-- The number whose octets are `bs`, most significant first. -/
def bigEndian (bs : Bytes) : Nat := bs.foldl (fun n b => n * 256 + b.toNat) 0

/-- The `width` low octets of `n`, most significant first. -/
def ofNat : Nat → Nat → Bytes
  | 0, _ => []
  | width + 1, n => ofNat width (n / 256) ++ [UInt8.ofNat n]

@[simp] theorem length_ofNat (width n : Nat) : (ofNat width n).length = width := by
  induction width generalizing n with
  | zero => rfl
  | succ width ih => simp [ofNat, ih]

theorem bigEndian_append_singleton (bs : Bytes) (b : UInt8) :
    bigEndian (bs ++ [b]) = bigEndian bs * 256 + b.toNat := by
  simp [bigEndian]

/-- Reading back what was written keeps a number that fits. -/
theorem bigEndian_ofNat (width n : Nat) : bigEndian (ofNat width n) = n % 256 ^ width := by
  induction width generalizing n with
  | zero => simp [ofNat, bigEndian, Nat.mod_one]
  | succ width ih =>
    have octet : (UInt8.ofNat n).toNat = n % 256 := by simp
    rw [ofNat, bigEndian_append_singleton, ih, octet, Nat.pow_succ', Nat.mod_mul]
    omega

/-- The decimal digits of `n` as ASCII octets. -/
def decimal (n : Nat) : Bytes :=
  if n < 10 then [UInt8.ofNat (0x30 + n)] else decimal (n / 10) ++ [UInt8.ofNat (0x30 + n % 10)]

/-- The part before the first `d` and the part after it, if there is one. -/
def splitAt? (d : UInt8) : Bytes → Option (Bytes × Bytes)
  | [] => none
  | b :: rest =>
    if b == d then some ([], rest)
    else (splitAt? d rest).map fun (before, after) => (b :: before, after)

/-- Every octet is blank. -/
def allBlank (bs : Bytes) : Bool := bs.all isBlank

end Bytes

end WarcStream
