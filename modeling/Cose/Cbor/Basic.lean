import Cose.Bytes

/-!
# Major types and limits of the encoding

The eight major types of CBOR items, by the number in the top three bits of the first byte of an
item, and the limits that encoders and decoders of this library keep.
-/

set_option autoImplicit false
set_option relaxedAutoImplicit false

namespace Cose.Cbor

/-- The most arrays, maps and byte strings that may be open at once. -/
def maxNesting : Nat := 15

/-- The most items in one array, and the most pairs in one map. -/
def maxItems : Nat := 65534

/-- The longest output of one session, in bytes. -/
def maxEncodedLength : Nat := 2 ^ 32 - 2

/-- The most tag numbers on one decoded item. -/
def maxTags : Nat := 4

/-- The byte that ends an item of indefinite length. -/
def breakByte : UInt8 := 0xff

/-- The additional information that announces an indefinite length. -/
def indefiniteInfo : Nat := 31

/-- The major types of items. -/
inductive Major where
  | unsigned
  | negative
  | bytes
  | text
  | array
  | map
  | tag
  | simple
deriving DecidableEq, Repr, Inhabited

namespace Major

/-- The number of a major type, held in the top three bits of the first byte of an item. -/
def code : Major → Nat
  | unsigned => 0
  | negative => 1
  | bytes => 2
  | text => 3
  | array => 4
  | map => 5
  | tag => 6
  | simple => 7

/-- The major type with a number below eight. -/
def ofCode : Nat → Major
  | 0 => unsigned
  | 1 => negative
  | 2 => bytes
  | 3 => text
  | 4 => array
  | 5 => map
  | 6 => tag
  | _ => simple

/-- The major type in the top three bits of the first byte of an item. -/
def ofInitialByte (initial : UInt8) : Major := ofCode (initial.toNat / 32)

/-- The identifier of a major type. -/
def name : Major → String
  | unsigned => "UnsignedInt"
  | negative => "NegativeInt"
  | bytes => "ByteString"
  | text => "TextString"
  | array => "Array"
  | map => "Map"
  | tag => "Tag"
  | simple => "Simple"

@[simp]
theorem ofCode_code (major : Major) : ofCode major.code = major := by cases major <;> rfl

theorem code_lt (major : Major) : major.code < 8 := by cases major <;> decide

end Major

end Cose.Cbor
