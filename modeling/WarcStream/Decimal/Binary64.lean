import WarcStream.Bytes
/-!
# Binary floating point in exact arithmetic

A number of the IEEE 754 format binary64 is kept as its 64 bits. A finite one
has the value `±mantissa * 2 ^ exponent`, and every operation here computes its
exact result as a ratio of naturals and rounds once: to the nearest number of
the format, a tie to the one with the even mantissa, and past the largest to
infinity.
-/

namespace WarcStream.Decimal

/-- Half of a tie goes to the even neighbour. -/
def roundHalfEven (num den : Nat) : Nat :=
  let floor := num / den
  let rest := num % den * 2
  if rest < den then floor
  else if den < rest then floor + 1
  else floor + floor % 2

/-- Division without remainder needs no rounding. -/
theorem roundHalfEven_mul (n den : Nat) (h : 0 < den) : roundHalfEven (n * den) den = n := by
  simp [roundHalfEven, Nat.mul_div_cancel n h, h]

/-- Numerator and denominator of `num / den * 2 ^ e`. -/
def scaleByPowerOfTwo (num den : Nat) : Int → Nat × Nat
  | .ofNat e => (num * 2 ^ e, den)
  | .negSucc e => (num, den * 2 ^ (e + 1))

/-- The largest `e` with `2 ^ e ≤ num / den`, for positive `num` and `den`. -/
def binaryMagnitude (num den : Nat) : Int :=
  let e : Int := (num.log2 : Int) - (den.log2 : Int)
  let scaled := scaleByPowerOfTwo num den (-e)
  if scaled.2 ≤ scaled.1 then e else e - 1

/-- A number of the format binary64, by its bits. -/
structure Binary64 where
  /-- Sign, eleven bits of exponent, fifty-two bits of fraction. -/
  bits : UInt64
  deriving DecidableEq, Repr, Inhabited

namespace Binary64

/-- The sign bit. -/
def isNegative (x : Binary64) : Bool := 2 ^ 63 ≤ x.bits.toNat

/-- The bits without the sign. -/
def magnitude (x : Binary64) : Nat := x.bits.toNat % 2 ^ 63

/-- Magnitude of infinity; what lies above is not a number. -/
def infinityMagnitude : Nat := 0x7ff0000000000000

/-- Neither infinite nor a NaN. -/
def isFinite (x : Binary64) : Bool := x.magnitude < infinityMagnitude

/-- Infinite, of either sign. -/
def isInfinite (x : Binary64) : Bool := x.magnitude == infinityMagnitude

/-- Zero, of either sign. -/
def isZero (x : Binary64) : Bool := x.magnitude == 0

/-- The biased exponent field. -/
def exponentField (x : Binary64) : Nat := x.magnitude / 2 ^ 52

/-- The integer mantissa of a finite number. -/
def mantissa (x : Binary64) : Nat :=
  if x.exponentField = 0 then x.magnitude else 2 ^ 52 + x.magnitude % 2 ^ 52

/-- The power of two the mantissa is multiplied by. -/
def exponent (x : Binary64) : Int :=
  if x.exponentField = 0 then -1074 else (x.exponentField : Int) - 1075

/-- The absolute value of a finite number as a ratio. -/
def ratio (x : Binary64) : Nat × Nat := scaleByPowerOfTwo x.mantissa 1 x.exponent

/-- A number from its sign and its magnitude bits. -/
def ofMagnitude (negative : Bool) (magnitude : Nat) : Binary64 :=
  ⟨UInt64.ofNat (if negative then 2 ^ 63 + magnitude else magnitude)⟩

/-- The magnitude bits of `num / den` rounded to the format. The mantissa's carry runs over into
the exponent field, so one sum serves normal and subnormal results. -/
def roundMagnitude (num den : Nat) : Nat :=
  if num = 0 then 0
  else
    -- below the normal numbers the grid stops getting finer
    let power := max (binaryMagnitude num den - 52) (-1074)
    let scaled := scaleByPowerOfTwo num den (-power)
    min infinityMagnitude
      ((power + 1074).toNat * 2 ^ 52 + roundHalfEven scaled.1 scaled.2)

/-- `±num / den` rounded to the format. -/
def ofRatio (negative : Bool) (num den : Nat) : Binary64 :=
  ofMagnitude negative (roundMagnitude num den)

/-- A natural number rounded to the format. -/
def ofNat (n : Nat) : Binary64 := ofRatio false n 1

/-- The number of the format nearest to a power of ten. -/
def powerOfTen (n : Nat) : Binary64 := ofNat (10 ^ n)

/-- The number with the opposite sign. -/
def negate (x : Binary64) : Binary64 := ofMagnitude (!x.isNegative) x.magnitude

/-- The product of two finite numbers, rounded. -/
def mul (x y : Binary64) : Binary64 :=
  ofRatio (x.isNegative != y.isNegative) (x.ratio.1 * y.ratio.1) (x.ratio.2 * y.ratio.2)

/-- The quotient of two finite numbers, rounded, for a divisor other than zero. -/
def div (x y : Binary64) : Binary64 :=
  ofRatio (x.isNegative != y.isNegative) (x.ratio.1 * y.ratio.2) (x.ratio.2 * y.ratio.1)

/-- The number whose bits are those of a shorter binary format with the given field widths.
Every finite number of a shorter format is one of this format, so nothing is rounded. -/
def widen (exponentBits fractionBits : Nat) (raw : Nat) : Binary64 :=
  let negative := raw / 2 ^ (exponentBits + fractionBits) % 2 == 1
  let field := raw / 2 ^ fractionBits % 2 ^ exponentBits
  let fraction := raw % 2 ^ fractionBits
  let bias : Nat := 2 ^ (exponentBits - 1) - 1
  if field = 2 ^ exponentBits - 1 then
    ofMagnitude negative (infinityMagnitude + fraction * 2 ^ (52 - fractionBits))
  else
    let mantissa := if field = 0 then fraction else 2 ^ fractionBits + fraction
    let power : Int := (max field 1 : Nat) - (bias : Int) - (fractionBits : Int)
    let scaled := scaleByPowerOfTwo mantissa 1 power
    ofRatio negative scaled.1 scaled.2

/-- From the sixteen bits of half precision. -/
def ofHalf (raw : Nat) : Binary64 := widen 5 10 raw

/-- From the thirty-two bits of single precision. -/
def ofSingle (raw : Nat) : Binary64 := widen 8 23 raw

end Binary64

end WarcStream.Decimal
