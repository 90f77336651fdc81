import Cose.Float.Decimal
import Cose.Header.Parameter
import Cose.Text.Quote

/-!
# Descriptions of header parameters

A text for each header parameter that shows its fields, for logs and reports. What a program of
the caller would write is not shown.
-/

set_option autoImplicit false
set_option relaxedAutoImplicit false

namespace Cose

/-- The bytes as a list of numbers. -/
def Bytes.description (bytes : Bytes) : String :=
  "[" ++ ", ".intercalate (bytes.map fun byte ↦ toString byte.toNat) ++ "]"

/-- A name with what it carries. -/
private def carrying (name content : String) : String := name ++ "(" ++ content ++ ")"

/-- The description of a small value. -/
def SmallValue.description : SmallValue → String
  | float number => carrying "Float" number.text
  | bool truth => carrying "Bool" (toString truth)
  | null => "Null"
  | undefined => "Undefined"

/-- The description of a value. -/
def ParameterValue.description : ParameterValue → String
  | int number => carrying "Int" (toString number.toInt)
  | text content => carrying "Text" (Text.quote content)
  | bytes content => carrying "Bytes" (Bytes.description content)
  | small value => carrying "Small" value.description
  | encoded item => carrying "Encoded" (Bytes.description item)
  | written _ => "Callback"

/-- The description of a parameter. -/
def Parameter.description (parameter : Parameter) : String :=
  "Parameter \x7b label: " ++ toString parameter.label.toInt ++
    ", protected: " ++ toString parameter.isProtected ++
    ", critical: " ++ toString parameter.isCritical ++
    ", value: " ++ parameter.value.description ++ " \x7d"

end Cose
