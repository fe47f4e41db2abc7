import WarcStream.Bytes
import WarcStream.Decimal.Binary64
import WarcStream.Value
import WarcStream.Json.Error
/-!
# JSON numbers, octet by octet

A number is read by a machine whose state is what has been read of it: the
digits as one natural number while they fit 64 bits, the power of ten they
stand for, and the exponent. Digits past the 64 bits are dropped and only
their place is kept. An integer that fits stays one; everything else, negative
zero included, becomes a binary floating-point number by one multiplication or
by divisions with powers of ten, each rounded.
-/

namespace WarcStream.Json

open Decimal

/-- The largest natural number of 64 bits. -/
def maxNatural : Nat := 2 ^ 64 - 1

/-- The largest exponent that is told apart. -/
def maxExponent : Nat := 2 ^ 31 - 1

/-- What has been read of a number. -/
inductive Numeral where
  /-- A minus sign. -/
  | minus
  /-- A zero, which no digit may follow. -/
  | zero (negative : Bool)
  /-- Digits that fit. -/
  | integer (negative : Bool) (digits : Nat)
  /-- Digits that fit and `dropped` more. -/
  | longInteger (negative : Bool) (digits : Nat) (dropped : Nat)
  /-- A point, which a digit must follow. -/
  | point (negative : Bool) (digits : Nat) (power : Int)
  /-- Digits behind the point, all kept. -/
  | fraction (negative : Bool) (digits : Nat) (power : Int)
  /-- Digits behind the point, no longer kept. -/
  | longFraction (negative : Bool) (digits : Nat) (power : Int)
  /-- The letter of the exponent, which a sign or a digit must follow. -/
  | exponentMark (negative : Bool) (digits : Nat) (power : Int)
  /-- The sign of the exponent, which a digit must follow. -/
  | exponentSign (negative : Bool) (digits : Nat) (power : Int) (down : Bool)
  /-- Digits of the exponent. -/
  | exponent (negative : Bool) (digits : Nat) (power : Int) (down : Bool) (value : Nat)
  /-- Digits of an exponent so large that the number is zero. -/
  | vanished (negative : Bool)
  deriving DecidableEq, Repr

/-- What an octet does to a number. -/
inductive Numeral.Step where
  /-- The octet belongs to the number. -/
  | more (n : Numeral)
  /-- The number ended before the octet. -/
  | ended
  /-- The octet is wrong here. -/
  | failed (reason : Reason)

namespace Numeral

/-- The letter of an exponent, of either case. -/
def isExponentMark (b : UInt8) : Bool := b = 0x65 || b = 0x45

/-- The first digit behind a sign or at the start. -/
def first (negative : Bool) (b : UInt8) : Step :=
  if b = 0x30 then .more (.zero negative)
  else if Bytes.isDigit b then .more (.integer negative (Bytes.digitValue b))
  else .failed .invalidNumber

/-- A digit of the exponent. -/
def exponentDigit (negative : Bool) (digits : Nat) (power : Int) (down : Bool) (value : Nat)
    (b : UInt8) : Step :=
  let value := value * 10 + Bytes.digitValue b
  if maxExponent < value then
    if digits ≠ 0 ∧ ¬ down then .failed .numberOutOfRange else .more (.vanished negative)
  else .more (.exponent negative digits power down value)

/-- The next octet of a number. -/
def step (b : UInt8) : Numeral → Step
  | .minus => first true b
  | .zero negative =>
    if Bytes.isDigit b then .failed .invalidNumber
    else if b = 0x2e then .more (.point negative 0 0)
    else if isExponentMark b then .more (.exponentMark negative 0 0)
    else .ended
  | .integer negative digits =>
    if Bytes.isDigit b then
      let longer := digits * 10 + Bytes.digitValue b
      if maxNatural < longer then .more (.longInteger negative digits 1)
      else .more (.integer negative longer)
    else if b = 0x2e then .more (.point negative digits 0)
    else if isExponentMark b then .more (.exponentMark negative digits 0)
    else .ended
  | .longInteger negative digits dropped =>
    if Bytes.isDigit b then .more (.longInteger negative digits (dropped + 1))
    else if b = 0x2e then .more (.point negative digits dropped)
    else if isExponentMark b then .more (.exponentMark negative digits dropped)
    else .ended
  | .point negative digits power =>
    if Bytes.isDigit b then
      let longer := digits * 10 + Bytes.digitValue b
      if maxNatural < longer then .more (.longFraction negative digits power)
      else .more (.fraction negative longer (power - 1))
    else .failed .invalidNumber
  | .fraction negative digits power =>
    if Bytes.isDigit b then
      let longer := digits * 10 + Bytes.digitValue b
      if maxNatural < longer then .more (.longFraction negative digits power)
      else .more (.fraction negative longer (power - 1))
    else if isExponentMark b then .more (.exponentMark negative digits power)
    else .ended
  | .longFraction negative digits power =>
    if Bytes.isDigit b then .more (.longFraction negative digits power)
    else if isExponentMark b then .more (.exponentMark negative digits power)
    else .ended
  | .exponentMark negative digits power =>
    if b = 0x2b then .more (.exponentSign negative digits power false)
    else if b = 0x2d then .more (.exponentSign negative digits power true)
    else if Bytes.isDigit b then exponentDigit negative digits power false 0 b
    else .failed .invalidNumber
  | .exponentSign negative digits power down =>
    if Bytes.isDigit b then exponentDigit negative digits power down 0 b
    else .failed .invalidNumber
  | .exponent negative digits power down value =>
    if Bytes.isDigit b then exponentDigit negative digits power down value b else .ended
  | .vanished negative => if Bytes.isDigit b then .more (.vanished negative) else .ended

/-- Divides by `10 ^ power`, by a factor `10 ^ 308` at a time while the power is larger. -/
def divideByPowerOfTen (x : Binary64) (power : Nat) : Binary64 :=
  if power ≤ 308 then x.div (.powerOfTen power)
  else if x.isZero then x
  else divideByPowerOfTen (x.div (.powerOfTen 308)) (power - 308)
termination_by power
decreasing_by omega

/-- The binary number for `digits * 10 ^ power`, unless it is too large. -/
def scale (digits : Nat) : Int → Except Reason Binary64
  | .ofNat power =>
    let x := Binary64.ofNat digits
    if power ≤ 308 then
      let y := x.mul (.powerOfTen power)
      if y.isFinite then .ok y else .error .numberOutOfRange
    else if x.isZero then .ok x
    else .error .numberOutOfRange
  | .negSucc power => .ok (divideByPowerOfTen (.ofNat digits) (power + 1))

/-- A floating-point number with its sign. -/
def real (negative : Bool) (digits : Nat) (power : Int) : Except Reason Number := do
  let x ← scale digits power
  return .real (if negative then x.negate else x)

/-- An integer. Zero with a sign, and a negative integer beyond 64 bits, are floating-point. -/
def whole (negative : Bool) (digits : Nat) : Number :=
  if negative then
    if h : 0 < digits ∧ digits ≤ 2 ^ 63 then .negative ⟨digits - 1, by omega⟩
    else .real (Binary64.ofNat digits).negate
  else .natural (UInt64.ofNat digits)

/-- The number that has been read, if the text may end here. -/
def finish : Numeral → Except Reason Number
  | .minus | .point .. | .exponentMark .. | .exponentSign .. => .error .endInValue
  | .zero negative => .ok (whole negative 0)
  | .integer negative digits => .ok (whole negative digits)
  | .longInteger negative digits dropped => real negative digits dropped
  | .fraction negative digits power => real negative digits power
  | .longFraction negative digits power => real negative digits power
  | .exponent negative digits power down value =>
    real negative digits (if down then power - value else power + value)
  | .vanished negative => real negative 0 0

end Numeral

end WarcStream.Json
