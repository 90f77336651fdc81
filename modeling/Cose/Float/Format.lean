import Cose.Bytes

/-!
# Binary interchange formats

A binary floating point format is given by the widths of its exponent and fraction. `Fields`
are the three parts of a bit pattern of any format; `Format.unpack` and `Format.pack` pass
between a pattern, held as a number, and its fields.

`Fields.widen` carries the fields of a narrow format to a wide one, and `Fields.narrow?` carries
them back when nothing is lost. Both act on fields alone, so signed zeros, subnormal numbers and
the payloads of NaNs are treated exactly. One definition serves every pair of formats.
-/

set_option autoImplicit false
set_option relaxedAutoImplicit false

namespace Cose.Float

/-- A binary floating point format: the widths of its exponent and of its fraction. -/
structure Format where
  exponentBits : Nat
  fractionBits : Nat
deriving DecidableEq, Repr

namespace Format

/-- Half precision, 16 bits. -/
def half : Format := ⟨5, 10⟩

/-- Single precision, 32 bits. -/
def single : Format := ⟨8, 23⟩

/-- Double precision, 64 bits. -/
def double : Format := ⟨11, 52⟩

/-- What a stored exponent exceeds the exponent it stands for by. -/
def bias (format : Format) : Nat := 2 ^ (format.exponentBits - 1) - 1

/-- The stored exponent of infinities and NaNs. -/
def topExponent (format : Format) : Nat := 2 ^ format.exponentBits - 1

/-- How far below one the last bit of a subnormal number lies: it has weight two to the minus
this number. -/
def subnormalScale (format : Format) : Nat := format.bias - 1 + format.fractionBits

end Format

/-- The parts of a bit pattern: sign, stored exponent and stored fraction. -/
structure Fields where
  negative : Bool
  exponent : Nat
  fraction : Nat
deriving DecidableEq, Repr

namespace Format

/-- The fields of a bit pattern. -/
def unpack (format : Format) (bits : Nat) : Fields where
  negative := bits / 2 ^ (format.exponentBits + format.fractionBits) % 2 == 1
  exponent := bits / 2 ^ format.fractionBits % 2 ^ format.exponentBits
  fraction := bits % 2 ^ format.fractionBits

/-- The bit pattern with the given fields. -/
def pack (format : Format) (fields : Fields) : Nat :=
  (if fields.negative then 2 ^ (format.exponentBits + format.fractionBits) else 0) +
    fields.exponent * 2 ^ format.fractionBits + fields.fraction

end Format

namespace Fields

/-- The fields of a NaN: the exponent of the infinities with a fraction that is not zero. -/
def isNaN (format : Format) (fields : Fields) : Bool :=
  fields.exponent == format.topExponent && fields.fraction != 0

/-- The fraction of a normal number with its implied leading one made explicit. -/
def significand (format : Format) (fields : Fields) : Nat :=
  2 ^ format.fractionBits + fields.fraction

/-- The exponent that the stored exponent of a normal number stands for. -/
def unbiased (format : Format) (fields : Fields) : Int :=
  (fields.exponent : Int) - format.bias

/-- Carry the fields of a narrow format to a wide one. A subnormal number is normalized around
its highest set bit, and the payload of a NaN keeps its left end. -/
def widen (narrow wide : Format) (fields : Fields) : Fields :=
  let shift := wide.fractionBits - narrow.fractionBits
  if fields.exponent = narrow.topExponent then
    ⟨fields.negative, wide.topExponent, fields.fraction * 2 ^ shift⟩
  else if fields.exponent = 0 then
    if fields.fraction = 0 then
      ⟨fields.negative, 0, 0⟩
    else
      let top := fields.fraction.log2
      ⟨fields.negative, top + wide.bias - narrow.subnormalScale,
        (fields.fraction - 2 ^ top) * 2 ^ (wide.fractionBits - top)⟩
  else
    ⟨fields.negative, fields.exponent + wide.bias - narrow.bias, fields.fraction * 2 ^ shift⟩

/-- Carry the fields of a wide format to a narrow one when every bit survives: the number keeps
its exact value, and a NaN its whole payload. A subnormal number of the wide format is below
everything the narrow one can hold. -/
def narrow? (wide narrow : Format) (fields : Fields) : Option Fields :=
  let shift := wide.fractionBits - narrow.fractionBits
  if fields.exponent = wide.topExponent then
    if fields.fraction % 2 ^ shift = 0 then
      some ⟨fields.negative, narrow.topExponent, fields.fraction / 2 ^ shift⟩
    else
      none
  else if fields.exponent = 0 then
    if fields.fraction = 0 then some ⟨fields.negative, 0, 0⟩ else none
  else
    let exponent := fields.unbiased wide
    if 1 - (narrow.bias : Int) ≤ exponent ∧ exponent ≤ narrow.bias then
      if fields.fraction % 2 ^ shift = 0 then
        some ⟨fields.negative, (exponent + narrow.bias).toNat, fields.fraction / 2 ^ shift⟩
      else
        none
    else if -(narrow.subnormalScale : Int) ≤ exponent ∧ exponent < 1 - (narrow.bias : Int) then
      let dropped := ((wide.fractionBits : Int) - narrow.subnormalScale - exponent).toNat
      if fields.significand wide % 2 ^ dropped = 0 then
        some ⟨fields.negative, 0, fields.significand wide / 2 ^ dropped⟩
      else
        none
    else
      none

end Fields

end Cose.Float
