import Cose.Error

/-!
# Items of an expected shape

The parts of a message have fixed types. Each check below accepts an item of one type, and names
the type it found otherwise.
-/

set_option autoImplicit false
set_option relaxedAutoImplicit false

namespace Cose

open Cbor

/-- Check that an item has no tags. -/
def expectUntagged (item : Item) (want : String) : Except Error Unit :=
  if item.tags = [] then .ok () else .error (.unexpectedItem "tag" want)

/-- The content of a byte string without tags. -/
def expectBytes (item : Item) : Except Error Bytes := do
  expectUntagged item "bstr"
  match item.value with
  | .bytes content => return content
  | other => throw (.unexpectedItem other.typeName "bstr")

/-- The content of a byte string without tags, or `none` for null. -/
def expectBytesOrNull (item : Item) : Except Error (Option Bytes) := do
  expectUntagged item "bstr / nil"
  match item.value with
  | .bytes content => return some content
  | .null => return none
  | other => throw (.unexpectedItem other.typeName "bstr / nil")

/-- Check that an item is an array of definite length with a given number of members. -/
def expectArray (item : Item) (length : UInt64) : Except Error Unit :=
  match item.value with
  | .array (some count) =>
    if count = length then .ok () else .error (.unexpectedItem "array" "array of fixed length")
  | .array none => .error (.unexpectedItem "array" "array of fixed length")
  | other => .error (.unexpectedItem other.typeName "array")

end Cose
