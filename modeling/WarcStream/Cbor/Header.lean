import WarcStream.Bytes
import WarcStream.Decimal.Shortest
/-!
# CBOR headers

Every data item opens with a header: an octet whose upper three bits are the
major type and whose lower five bits are an argument below 24, or the width of
the argument behind it, or the mark of an indefinite length. `head` writes the
shortest header for an argument, `Header.of?` understands any.
-/

namespace WarcStream.Cbor

open Decimal

/-- The width in octets of the argument behind a first octet; none where no width is defined. The
mark of an indefinite length has no argument. -/
def argumentWidth? (first : UInt8) : Option Nat :=
  let low := first.toNat % 32
  if low < 24 then some 0
  else if low < 28 then some (2 ^ (low - 24))
  else if low = 31 then some 0
  else none

/-- A header. -/
inductive Header where
  /-- The integer `n`. -/
  | positive (n : Nat)
  /-- The integer `-1 - n`. -/
  | negative (n : Nat)
  /-- A string of octets; none is an indefinite length. -/
  | octets (length : Option Nat)
  /-- A text, by its length in octets. -/
  | text (length : Option Nat)
  | array (count : Option Nat)
  | map (count : Option Nat)
  | tag (n : Nat)
  /-- A simple value. -/
  | simple (n : Nat)
  | real (x : Binary64)
  /-- The end of an item of indefinite length. -/
  | stop
  deriving DecidableEq, Repr

/-- The header whose first octet is `first` and whose argument is `argument`; none where an
indefinite length makes no sense. -/
def Header.of? (first : UInt8) (argument : Bytes) : Option Header :=
  let low := first.toNat % 32
  let definite : Option Nat :=
    if low = 31 then none else some (if low < 24 then low else Bytes.bigEndian argument)
  match first.toNat / 32 with
  | 0 => definite.map .positive
  | 1 => definite.map .negative
  | 2 => some (.octets definite)
  | 3 => some (.text definite)
  | 4 => some (.array definite)
  | 5 => some (.map definite)
  | 6 => definite.map .tag
  | _ =>
    match definite, argument.length with
    | none, _ => some .stop
    | some n, 2 => some (.real (.ofHalf n))
    | some n, 4 => some (.real (.ofSingle n))
    | some n, 8 => some (.real ⟨UInt64.ofNat n⟩)
    | some n, _ => some (.simple n)

/-- The shortest header of a major type with an argument. -/
def head (major : Nat) (n : Nat) : Bytes :=
  if n < 24 then [UInt8.ofNat (major * 32 + n)]
  else if n < 2 ^ 8 then UInt8.ofNat (major * 32 + 24) :: Bytes.ofNat 1 n
  else if n < 2 ^ 16 then UInt8.ofNat (major * 32 + 25) :: Bytes.ofNat 2 n
  else if n < 2 ^ 32 then UInt8.ofNat (major * 32 + 26) :: Bytes.ofNat 4 n
  else UInt8.ofNat (major * 32 + 27) :: Bytes.ofNat 8 n

/-- The octets that the shortest header of a string of this length takes. -/
def shortestLength : Option Nat → Nat
  | none => 1
  | some n => (head 3 n).length

/-- The simple values that have a meaning. -/
def falseValue : Nat := 20
def trueValue : Nat := 21
def nullValue : Nat := 22
def undefinedValue : Nat := 23

/-- How a header is named in an error. A negative integer is shown as it wraps around in
sixty-four bits. -/
def Header.describe : Header → String
  | .positive n => "integer `" ++ toString n ++ "`"
  | .negative n =>
    "integer `" ++ toString (-1 - (n : Int) + (if 2 ^ 63 ≤ n then 2 ^ 64 else 0)) ++ "`"
  | .octets _ => "bytes"
  | .text _ => "string"
  | .array _ => "sequence"
  | .map _ => "map"
  | .tag _ => "tag"
  | .simple n =>
    if n = falseValue then "boolean `false`"
    else if n = trueValue then "boolean `true`"
    else if n = nullValue then "null"
    else if n = undefinedValue then "undefined"
    else "simple"
  | .real x => "floating point `" ++ Layout.positional.render x ++ "`"
  | .stop => "break"

end WarcStream.Cbor
