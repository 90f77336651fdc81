import Cose.Float.Precision

/-!
# Decimal text of double precision numbers

A finite number is written with the fewest decimal digits that read back as the same number. The
numbers that read back as it form an `Interval` that ends halfway to its neighbours, and
`Interval.shortest` looks for a multiple of a power of ten in there, from large powers to small
ones: the first power that has a multiple in the interval gives the fewest digits. All of it is
done in whole numbers, so nothing is rounded on the way.
-/

set_option autoImplicit false
set_option relaxedAutoImplicit false

namespace Cose.Float

/-- The number `digits * 10 ^ power`. -/
structure Decimal where
  digits : Nat
  power : Int
deriving DecidableEq, Repr

/-- A positive number and the ends of the interval of those that read back as it, as fractions
with a common denominator. -/
structure Interval where
  lower : Nat
  value : Nat
  upper : Nat
  denominator : Nat
  /-- Whether the ends belong to the interval. They do when the significand is even, because a
  tie is read as the even neighbour. -/
  closed : Bool
deriving DecidableEq, Repr

/-- The interval of a finite number that is not zero, without its sign. A power of two is half as
far from its lower neighbour as from its upper one. -/
def Fields.interval (format : Format) (fields : Fields) : Interval :=
  let ulpDepth := format.bias + format.fractionBits
  let scaled (significand depth below above : Nat) : Interval :=
    let unit := 2 ^ (fields.exponent - (ulpDepth + depth))
    { lower := (significand * 2 ^ depth - below) * unit
      value := significand * 2 ^ depth * unit
      upper := (significand * 2 ^ depth + above) * unit
      denominator := 2 ^ (ulpDepth + depth - fields.exponent)
      closed := significand % 2 == 0 }
  if fields.exponent = 0 then scaled (2 * fields.fraction) 0 1 1
  else if fields.fraction = 0 then scaled (fields.significand format) 2 1 2
  else scaled (fields.significand format) 1 1 1

/-- The multiple of `10 ^ power` in an interval that is nearest to its number, if there is one, as
the factor of the power. A tie goes up. -/
def Interval.multiple? (interval : Interval) (power : Int) : Option Nat :=
  let scale := 10 ^ (-power).toNat
  let step := interval.denominator * 10 ^ power.toNat
  let holds (factor : Nat) : Bool :=
    if interval.closed then
      interval.lower * scale ≤ factor * step && factor * step ≤ interval.upper * scale
    else
      interval.lower * scale < factor * step && factor * step < interval.upper * scale
  let below := interval.value * scale / step
  let above := below + 1
  if holds below && (!holds above || 2 * (interval.value * scale % step) < step) then some below
  else if holds above then some above
  else none

/-- No double precision number needs digits of a lower weight than ten to the minus this. -/
def deepestPower : Nat := 330

/-- The shortest decimal in an interval, among those whose power is below `bound - deepestPower`. -/
def Interval.shortest (interval : Interval) : (bound : Nat) → Decimal
  | 0 => ⟨interval.value * 10 ^ deepestPower / interval.denominator, -deepestPower⟩
  | bound + 1 =>
    let power : Int := bound - deepestPower
    match interval.multiple? power with
    | some factor => ⟨factor, power⟩
    | none => interval.shortest bound

/-- The shortest decimal that reads back as a finite number that is not zero. The largest double
precision number is below ten to the power 309. -/
def Double.shortest (number : Double) : Decimal :=
  (number.fields.interval Format.double).shortest (deepestPower + 309)

namespace Decimal

/-- How many digits of a decimal stand before its point. -/
def point (decimal : Decimal) : Int := (Nat.toDigits 10 decimal.digits).length + decimal.power

/-- A decimal with all its places written, and at least one of them after the point. -/
def positional (decimal : Decimal) : List Char :=
  let digits := Nat.toDigits 10 decimal.digits
  let before := decimal.point.toNat
  if decimal.point ≤ 0 then
    '0' :: '.' :: List.replicate (-decimal.point).toNat '0' ++ digits
  else if digits.length ≤ before then
    digits ++ List.replicate (before - digits.length) '0' ++ ['.', '0']
  else
    digits.take before ++ '.' :: digits.drop before

/-- A decimal with one digit before the point, and an exponent. -/
def scientific (decimal : Decimal) : List Char :=
  let exponent := 'e' :: (toString (decimal.point - 1)).toList
  match Nat.toDigits 10 decimal.digits with
  | first :: second :: rest => first :: '.' :: second :: rest ++ exponent
  | digits => digits ++ exponent

/-- The text of a positive decimal. Only very large and very small ones have an exponent. -/
def text (decimal : Decimal) : String :=
  String.ofList <|
    if -4 < decimal.point ∧ decimal.point ≤ 16 then decimal.positional else decimal.scientific

end Decimal

/-- The text of a number. It reads back as the same number, but for the sign and the payload of a
NaN. -/
def Double.text (number : Double) : String :=
  if number.isNaN then
    "NaN"
  else
    let sign := if number.fields.negative then "-" else ""
    if number.fields.exponent = Format.double.topExponent then sign ++ "inf"
    else if number.isZero then sign ++ "0.0"
    else sign ++ number.shortest.text

end Cose.Float
