import Cose.Float.Format

/-!
# Half, single and double precision numbers

Numbers of the three precisions are their bit patterns, so no operation here rounds and no
payload of a NaN is lost. `Double.reduce` and `Single.reduce` find the narrowest precision that
holds a number exactly, `Half.toDouble` and `Single.toDouble` widen, and `Double.wholeNumber?`
reads a number that is an integer in the range of the CBOR integers.
-/

set_option autoImplicit false
set_option relaxedAutoImplicit false

namespace Cose.Float

/-- A half precision number, by its bit pattern. -/
structure Half where
  bits : UInt16
deriving DecidableEq, Repr, Inhabited

/-- A single precision number, by its bit pattern. -/
structure Single where
  bits : UInt32
deriving DecidableEq, Repr, Inhabited

/-- A double precision number, by its bit pattern. -/
structure Double where
  bits : UInt64
deriving DecidableEq, Repr, Inhabited

/-- A number in the narrowest precision that holds it exactly. -/
inductive Reduced where
  | half (number : Half)
  | single (number : Single)
  | double (number : Double)
deriving DecidableEq, Repr

/-- An integer in the range of the CBOR integers. -/
inductive WholeNumber where
  /-- The number `n`. -/
  | unsigned (n : UInt64)
  /-- The number `-1 - n`. -/
  | negative (n : UInt64)
deriving DecidableEq, Repr

namespace Half

/-- The sign, exponent and fraction of a half precision number. -/
def fields (number : Half) : Fields := Format.half.unpack number.bits.toNat

/-- The half precision number with the given fields. -/
def ofFields (fields : Fields) : Half := ⟨UInt16.ofNat (Format.half.pack fields)⟩

/-- The quiet NaN without a payload that stands for every NaN where they are not told apart. -/
def quietNaN : Half := ⟨0x7e00⟩

end Half

namespace Single

/-- The sign, exponent and fraction of a single precision number. -/
def fields (number : Single) : Fields := Format.single.unpack number.bits.toNat

/-- The single precision number with the given fields. -/
def ofFields (fields : Fields) : Single := ⟨UInt32.ofNat (Format.single.pack fields)⟩

/-- Whether the pattern is a NaN. -/
def isNaN (number : Single) : Bool := number.fields.isNaN Format.single

end Single

namespace Double

/-- The sign, exponent and fraction of a double precision number. -/
def fields (number : Double) : Fields := Format.double.unpack number.bits.toNat

/-- The double precision number with the given fields. -/
def ofFields (fields : Fields) : Double := ⟨UInt64.ofNat (Format.double.pack fields)⟩

/-- Whether the pattern is a NaN. -/
def isNaN (number : Double) : Bool := number.fields.isNaN Format.double

/-- Whether the pattern is a zero of either sign. -/
def isZero (number : Double) : Bool := number.fields.exponent == 0 && number.fields.fraction == 0

/-- Equality as numbers: the two zeros are equal, and a NaN equals nothing, itself included. -/
def numericallyEqual (left right : Double) : Bool :=
  !left.isNaN && !right.isNaN && (left == right || (left.isZero && right.isZero))

end Double

/-- The double precision number that a half precision number denotes. -/
def Half.toDouble (number : Half) : Double :=
  .ofFields (number.fields.widen Format.half Format.double)

/-- The double precision number that a single precision number denotes. -/
def Single.toDouble (number : Single) : Double :=
  .ofFields (number.fields.widen Format.single Format.double)

/-- The narrowest of half and single precision that holds a single precision number exactly. -/
def Single.reduce (number : Single) : Reduced :=
  match number.fields.narrow? Format.single Format.half with
  | some fields => .half (.ofFields fields)
  | none => .single number

namespace Double

/-- The narrowest of the three precisions that holds a double precision number exactly. -/
def reduce (number : Double) : Reduced :=
  match number.fields.narrow? Format.double Format.half with
  | some fields => .half (.ofFields fields)
  | none =>
    match number.fields.narrow? Format.double Format.single with
    | some fields => .single (.ofFields fields)
    | none => .double number

/-- The absolute value of a normal number whose exponent is not negative, if it is an integer. -/
def wholeMagnitude? (fields : Fields) (exponent : Nat) : Option Nat :=
  let significand := fields.significand Format.double
  if Format.double.fractionBits ≤ exponent then
    some (significand * 2 ^ (exponent - Format.double.fractionBits))
  else
    let fractionBits := Format.double.fractionBits - exponent
    if significand % 2 ^ fractionBits = 0 then some (significand / 2 ^ fractionBits) else none

/-- The integer that a number is, if it is one and lies between `-2 ^ 64` and `2 ^ 64 - 1`. Both
zeros are the integer zero. -/
def wholeNumber? (number : Double) : Option WholeNumber :=
  let fields := number.fields
  if fields.exponent = 0 then
    if fields.fraction = 0 then some (.unsigned 0) else none
  else if fields.exponent = Format.double.topExponent then
    none
  else if fields.exponent < Format.double.bias then
    none
  else
    match wholeMagnitude? fields (fields.exponent - Format.double.bias) with
    | none => none
    | some magnitude =>
      if fields.negative then
        if magnitude ≤ 2 ^ 64 then some (.negative (UInt64.ofNat (magnitude - 1))) else none
      else
        if magnitude < 2 ^ 64 then some (.unsigned (UInt64.ofNat magnitude)) else none

end Double

end Cose.Float
