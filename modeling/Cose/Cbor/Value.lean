import Cose.Bytes
import Cose.Float.Precision

/-!
# Generic values

The value model that any item of the encoding without undefined and unassigned simple values
falls into: integers from `-2 ^ 64` to `2 ^ 64 - 1`, byte and text strings, floating point
numbers, the three basic simple values, tagged values, arrays and maps.
-/

set_option autoImplicit false
set_option relaxedAutoImplicit false

namespace Cose.Cbor

/-- A generic value. A map keeps its entries in order, and nothing keeps labels apart. -/
inductive Value where
  /-- The integer `n`. -/
  | unsigned (n : UInt64)
  /-- The integer `-1 - n`. -/
  | negative (n : UInt64)
  | bytes (content : Bytes)
  | text (content : String)
  | float (number : Float.Double)
  | bool (truth : Bool)
  | null
  | tag (number : UInt64) (content : Value)
  | array (members : List Value)
  | map (entries : List (Value × Value))
deriving Inhabited

end Cose.Cbor
