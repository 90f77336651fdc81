import Cose.Cbor.Encoder.Basic
import Cose.Float.Precision
import Cose.Magnitude

/-!
# Integers, strings, simple values and floating point numbers

The operations of an encoding session that append one item without members. Floating point
numbers follow the rules of the session: they may be written as integers, in a narrower precision,
or, for a NaN, as the one canonical NaN.
-/

set_option autoImplicit false
set_option relaxedAutoImplicit false

namespace Cose.Cbor

/-- The simple value that stands for `false`. -/
def simpleFalse : UInt8 := 20

/-- The simple value that stands for `true`. -/
def simpleTrue : UInt8 := 21

/-- The simple value that stands for an absent value. -/
def simpleNull : UInt8 := 22

/-- The simple value that stands for an undefined value. -/
def simpleUndefined : UInt8 := 23

namespace Encoder

/-- Append the integer `n`. -/
def appendUnsigned (encoder : Encoder) (n : UInt64) : Encoder := encoder.appendHead .unsigned n 0

/-- Append the integer `-1 - n`. -/
def appendNegative (encoder : Encoder) (n : UInt64) : Encoder := encoder.appendHead .negative n 0

/-- Append a signed integer. -/
def appendInt (encoder : Encoder) (number : Int64) : Encoder :=
  match number.toInt with
  | .ofNat n => encoder.appendUnsigned (UInt64.ofNat n)
  | .negSucc n => encoder.appendNegative (UInt64.ofNat n)

/-- Append a byte string. -/
def appendBytes (encoder : Encoder) (content : Bytes) : Encoder :=
  (encoder.beginItem.write (encodeHead .bytes (UInt64.ofNat content.length) 0)).write content

/-- Append a text string. -/
def appendText (encoder : Encoder) (content : String) : Encoder :=
  (encoder.beginItem.write (encodeHead .text (UInt64.ofNat content.utf8ByteSize) 0)).write
    content.toUTF8.toList

/-- Append a simple value. The values from 24 to 31 are reserved. -/
def appendSimple (encoder : Encoder) (value : UInt8) : Encoder :=
  encoder.proceed fun encoder ↦
    if 24 ≤ value ∧ value < 32 then encoder.fail .unsupported
    else if encoder.rules.onlyBasicSimple ∧
        ¬(value = simpleFalse ∨ value = simpleTrue ∨ value = simpleNull) then
      encoder.fail .notAllowed
    else encoder.appendHead .simple value.toUInt64 0

/-- Append a truth value. -/
def appendBool (encoder : Encoder) (truth : Bool) : Encoder :=
  encoder.appendSimple (if truth then simpleTrue else simpleFalse)

/-- Append the null value. -/
def appendNull (encoder : Encoder) : Encoder := encoder.appendSimple simpleNull

/-- Append the undefined value. -/
def appendUndefined (encoder : Encoder) : Encoder := encoder.appendSimple simpleUndefined

/-- Append a floating point number in its own precision. -/
def appendReduced (encoder : Encoder) : Float.Reduced → Encoder
  | .half number => encoder.appendHead .simple number.bits.toUInt64 2
  | .single number => encoder.appendHead .simple number.bits.toUInt64 4
  | .double number => encoder.appendHead .simple number.bits 8

/-- Append an integer that came as a floating point number. -/
def appendWhole (encoder : Encoder) : Float.WholeNumber → Encoder
  | .unsigned n => encoder.appendUnsigned n
  | .negative n => encoder.appendNegative n

/-- Append a double precision number in full width. -/
def appendFullDouble (encoder : Encoder) (number : Float.Double) : Encoder :=
  encoder.appendReduced (.double number)

/-- Append a single precision number in full width. -/
def appendFullSingle (encoder : Encoder) (number : Float.Single) : Encoder :=
  encoder.appendReduced (.single number)

/-- Append a double precision number by the rules of the session. -/
def appendDouble (encoder : Encoder) (number : Float.Double) : Encoder :=
  let whole? := if encoder.rules.floatsToInts then number.wholeNumber? else none
  match whole? with
  | some whole => encoder.appendWhole whole
  | none =>
    if number.isNaN ∧ encoder.rules.canonicalNaN then
      encoder.appendReduced (.half Float.Half.quietNaN)
    else if encoder.rules.reduceFloats then encoder.appendReduced number.reduce
    else encoder.appendFullDouble number

/-- Append a single precision number by the rules of the session. -/
def appendSingle (encoder : Encoder) (number : Float.Single) : Encoder :=
  let whole? := if encoder.rules.floatsToInts then number.toDouble.wholeNumber? else none
  match whole? with
  | some whole => encoder.appendWhole whole
  | none =>
    if number.isNaN ∧ encoder.rules.canonicalNaN then
      encoder.appendReduced (.half Float.Half.quietNaN)
    else if encoder.rules.reduceFloats then encoder.appendReduced number.reduce
    else encoder.appendFullSingle number

/-- The tag of a big number that is not negative; its content is the magnitude. -/
def positiveBigTag : UInt64 := 2

/-- The tag of a negative big number; its content is the magnitude less one. -/
def negativeBigTag : UInt64 := 3

/-- Append an integer of any length, given by its sign and its magnitude. Where the rules prefer
it, an integer that fits in 64 bits is written as a plain integer. Negative zero is zero. -/
def appendBigNumber (encoder : Encoder) (negative : Bool) (magnitude : Bytes) : Encoder :=
  encoder.proceed fun encoder ↦
    let magnitude := Magnitude.strip magnitude
    if negative ∧ magnitude ≠ [] then
      let content := Magnitude.decrement magnitude
      if encoder.rules.preferredBigNumbers ∧ content.length ≤ 8 then
        encoder.appendNegative (UInt64.ofNat (ofBigEndian content))
      else
        (encoder.addTag negativeBigTag).appendBytes content
    else
      let plain? :=
        if encoder.rules.preferredBigNumbers then Magnitude.toUInt64? magnitude else none
      match plain? with
      | some n => encoder.appendUnsigned n
      | none => (encoder.addTag positiveBigTag).appendBytes magnitude

end Encoder

end Cose.Cbor
