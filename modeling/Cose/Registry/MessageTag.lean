/-!
# Registered message tags

The tags that tell the kinds of messages apart.
-/

set_option autoImplicit false
set_option relaxedAutoImplicit false

namespace Cose

/-- The tags of the kinds of messages. -/
inductive MessageTag where
  | encrypt0
  | mac0
  | sign1
  | encrypt
  | mac
  | sign
deriving DecidableEq, Repr

namespace MessageTag

/-- Every registered value, in the order of its code. -/
def all : List MessageTag :=
  [encrypt0, mac0, sign1, encrypt, mac, sign]

/-- The registered code of a value. -/
def code : MessageTag → Int64
  | encrypt0 => 16
  | mac0 => 17
  | sign1 => 18
  | encrypt => 96
  | mac => 97
  | sign => 98

/-- The identifier of a registered value. -/
def name : MessageTag → String
  | encrypt0 => "CoseEncrypt0"
  | mac0 => "CoseMac0"
  | sign1 => "CoseSign1"
  | encrypt => "CoseEncrypt"
  | mac => "CoseMac"
  | sign => "CoseSign"

/-- The value registered under a code. -/
def ofCode? (code : Int64) : Option MessageTag := all.find? fun value ↦ value.code == code

/-- No two values are registered under one code. -/
@[simp]
theorem ofCode?_code (value : MessageTag) : ofCode? value.code = some value := by
  cases value <;> decide

/-- The tag number of a kind of message. -/
def number (tag : MessageTag) : UInt64 := tag.code.toUInt64

end MessageTag

end Cose
