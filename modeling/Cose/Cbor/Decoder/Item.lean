import Cose.Bytes
import Cose.Cbor.Error
import Cose.Float.Precision

/-!
# Decoded items

An item as a decoding cursor delivers it: its value, its tags, and where it stands in the nesting
of arrays and maps. An array or map is delivered by itself, and its members follow as items one
level deeper.
-/

set_option autoImplicit false
set_option relaxedAutoImplicit false

namespace Cose.Cbor

/-- The value of a decoded item. -/
inductive ItemValue where
  /-- The integer `n`. -/
  | unsigned (n : UInt64)
  /-- The integer `-1 - n`. -/
  | negative (n : UInt64)
  | bytes (content : Bytes)
  | text (content : String)
  /-- An array with the number of its members, `none` for an indefinite length. -/
  | array (count? : Option UInt64)
  /-- A map with the number of its pairs, `none` for an indefinite length. -/
  | map (count? : Option UInt64)
  | float (number : Float.Double)
  | bool (truth : Bool)
  | null
  | undefined
  /-- Any other simple value. -/
  | simple (value : UInt8)
deriving DecidableEq, Repr

/-- The short name of the type of a value, as error messages give it. -/
def ItemValue.typeName : ItemValue → String
  | unsigned _ => "uint"
  | negative _ => "nint"
  | bytes _ => "bstr"
  | text _ => "tstr"
  | array _ => "array"
  | map _ => "map"
  | float _ => "float"
  | bool _ => "bool"
  | null => "null"
  | undefined => "undefined"
  | simple _ => "simple"

/-- A decoded item. -/
structure Item where
  value : ItemValue
  /-- The nesting level of the item, zero at the top. -/
  level : Nat
  /-- The nesting level of the item that follows. -/
  nextLevel : Nat
  /-- The tag numbers on the item, outermost first. -/
  tags : List UInt64
deriving DecidableEq, Repr

namespace Item

/-- The integer that an item is, if it is one and fits in a signed word of 64 bits. -/
def toInt64 (item : Item) : Except DecodeError Int64 :=
  match item.value with
  | .unsigned n =>
    if n.toNat < 2 ^ 63 then .ok (Int64.ofInt n.toNat) else .error .integerOverflow
  | .negative n =>
    if n.toNat < 2 ^ 63 then .ok (Int64.ofInt (Int.negSucc n.toNat)) else .error .integerOverflow
  | _ => .error .unexpectedType

/-- Whether an item is an array or map, whose members follow. -/
def isContainer (item : Item) : Bool :=
  match item.value with
  | .array _ => true
  | .map _ => true
  | _ => false

end Item

end Cose.Cbor
