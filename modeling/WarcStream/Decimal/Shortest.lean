import WarcStream.Decimal.Binary64
/-!
# Shortest decimals

The decimal of a finite binary number is the one with the fewest digits that
lies in the interval of values rounding to that number, and of those the one
nearest to it. For one digit, two digits and so on up to seventeen the two
neighbours of the value on that decimal grid are tested in exact arithmetic;
the first grid with a hit wins.
-/

namespace WarcStream.Decimal

/-- A decimal `digits * 10 ^ exponent`. -/
structure Scientific where
  digits : Nat
  exponent : Int
  deriving DecidableEq, Repr

/-- The values that round to a number: `low / den` to `high / den` around `value / den`, the ends
among them or not. -/
structure Interval where
  low : Nat
  value : Nat
  high : Nat
  den : Nat
  closed : Bool

namespace Interval

/-- `num / scale` lies in the interval. -/
def contains (i : Interval) (num scale : Nat) : Bool :=
  if i.closed then i.low * scale ≤ num * i.den && num * i.den ≤ i.high * scale
  else i.low * scale < num * i.den && num * i.den < i.high * scale

/-- The interval of a finite number other than zero. Below a power of two the numbers lie twice as
dense, so the lower half of the gap is a quarter there. -/
def ofBinary (x : Binary64) : Interval :=
  let m := x.mantissa
  let narrow := m == 2 ^ 52 && 1 < x.exponentField
  let part (quarters : Nat) : Nat := (scaleByPowerOfTwo quarters 1 (x.exponent - 2)).1
  let den := (scaleByPowerOfTwo 1 1 (x.exponent - 2)).2
  ⟨part (if narrow then 4 * m - 1 else 4 * m - 2), part (4 * m), part (4 * m + 2), den,
    m % 2 == 0⟩

end Interval

/-- The number of decimal digits of `n`, at least one. -/
def digitCount (n : Nat) : Nat := if n < 10 then 1 else digitCount (n / 10) + 1

/-- Numerator and denominator of `num / den * 10 ^ e`. -/
def scaleByPowerOfTen (num den : Nat) : Int → Nat × Nat
  | .ofNat e => (num * 10 ^ e, den)
  | .negSucc e => (num, den * 10 ^ (e + 1))

/-- The largest `e` with `10 ^ e ≤ num / den`, for positive `num` and `den`. -/
def decimalMagnitude (num den : Nat) : Int :=
  let e : Int := (digitCount num : Int) - (digitCount den : Int)
  let scaled := scaleByPowerOfTen num den (-e)
  if scaled.2 ≤ scaled.1 then e else e - 1

/-- The grid point for `count` digits that lies in the interval, the nearer of two, the even one
on a tie. -/
def Interval.onGrid? (i : Interval) (magnitude : Int) (count : Nat) : Option Scientific :=
  let exponent := magnitude - (count : Int) + 1
  let scaled := scaleByPowerOfTen i.value i.den (-exponent)
  let below := scaled.1 / scaled.2
  let hit (digits : Nat) : Bool :=
    let point := scaleByPowerOfTen digits 1 exponent
    i.contains point.1 point.2
  let rest := scaled.1 % scaled.2 * 2
  -- the value lies between the two points, so one of them is the nearest of all
  match hit below, hit (below + 1) with
  | true, true =>
    if rest < scaled.2 || (rest == scaled.2 && below % 2 == 0) then some ⟨below, exponent⟩
    else some ⟨below + 1, exponent⟩
  | true, false => some ⟨below, exponent⟩
  | false, true => some ⟨below + 1, exponent⟩
  | false, false => none

/-- The decimal without zeros at the end of its digits. -/
def Scientific.reduce (s : Scientific) : Scientific :=
  if 0 < s.digits ∧ s.digits % 10 = 0 then reduce ⟨s.digits / 10, s.exponent + 1⟩ else s
termination_by s.digits
decreasing_by exact Nat.div_lt_self (by omega) (by omega)

/-- The shortest decimal of a finite number's absolute value. -/
def shortest (x : Binary64) : Scientific :=
  if x.isZero then ⟨0, 0⟩
  else
    let i := Interval.ofBinary x
    let magnitude := decimalMagnitude i.value i.den
    match (List.range 17).findSome? fun n => i.onGrid? magnitude (n + 1) with
    | some s => s.reduce
    | none => ⟨0, 0⟩

/-- How a decimal is laid out: the powers of its first digit that are written positionally, all
others with an exponent. -/
structure Layout where
  /-- Smallest power written positionally. -/
  lowest : Int
  /-- Largest power written positionally, if there is one. -/
  highest : Option Int
  /-- Smaller powers are written positionally as well. -/
  unboundedBelow : Bool

namespace Layout

/-- Positional from the fifth place after the point to sixteen places before it. -/
def balanced : Layout := ⟨-5, some 15, false⟩

/-- Positional throughout. -/
def positional : Layout := ⟨0, none, true⟩

/-- A number whose first digit has this power is written positionally. -/
def isPositional (l : Layout) (power : Int) : Bool :=
  (l.unboundedBelow || l.lowest ≤ power) && (l.highest.all fun h => power ≤ h)

end Layout

/-- Digits with a point after the first `power + 1` of them, and at least one digit on either side
of it. -/
def positionalText (digits : List Char) (power : Int) : String :=
  if power < 0 then
    "0." ++ String.ofList (List.replicate ((-power).toNat - 1) '0' ++ digits)
  else
    let whole := power.toNat + 1
    let front := digits.take whole
    let back := digits.drop whole
    String.ofList (front ++ List.replicate (whole - front.length) '0') ++ "." ++
      (if back.isEmpty then "0" else String.ofList back)

/-- One digit before the point, the others after it, and the power with its sign. -/
def exponentText (digits : List Char) (power : Int) : String :=
  let mantissa := match digits with
    | [] => "0"
    | [d] => d.toString
    | d :: rest => d.toString ++ "." ++ String.ofList rest
  mantissa ++ "e" ++ (if power < 0 then "-" else "+") ++ toString power.natAbs

/-- The text of a number. A number that is not finite has a name. -/
def Layout.render (l : Layout) (x : Binary64) : String :=
  if x.isFinite then
    let s := shortest x
    let digits := (toString s.digits).toList
    let power := s.exponent + (digits.length : Int) - 1
    (if x.isNegative then "-" else "") ++
      (if l.isPositional power then positionalText digits power else exponentText digits power)
  else if x.isInfinite then (if x.isNegative then "-inf" else "inf")
  else "NaN"

end WarcStream.Decimal
