import Cose.Cbor.Encoder.Container
import Cose.Cbor.Value

/-!
# Generic values in an encoding session

A generic value is appended by the operations for its parts: a container is opened, its members
are appended in order, and it is closed.
-/

set_option autoImplicit false
set_option relaxedAutoImplicit false

namespace Cose.Cbor.Encoder

mutual

/-- Append a generic value. -/
def appendValue (encoder : Encoder) : Value → Encoder
  | .unsigned n => encoder.appendUnsigned n
  | .negative n => encoder.appendNegative n
  | .bytes content => encoder.appendBytes content
  | .text content => encoder.appendText content
  | .float number => encoder.appendDouble number
  | .bool truth => encoder.appendBool truth
  | .null => encoder.appendNull
  | .tag number content => (encoder.addTag number).appendValue content
  | .array members => (encoder.openArray.appendMembers members).closeArray
  | .map entries => (encoder.openMap.appendEntries entries).closeMap

/-- Append the members of an array in order. -/
def appendMembers (encoder : Encoder) : List Value → Encoder
  | [] => encoder
  | member :: rest => (encoder.appendValue member).appendMembers rest

/-- Append the entries of a map in order, each label before its value. -/
def appendEntries (encoder : Encoder) : List (Value × Value) → Encoder
  | [] => encoder
  | (label, value) :: rest => ((encoder.appendValue label).appendValue value).appendEntries rest

end

end Cose.Cbor.Encoder
