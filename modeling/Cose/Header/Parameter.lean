import Cose.Error
import Cose.Registry.Algorithm
import Cose.Registry.HeaderLabel

/-!
# Header parameters

A header parameter has an integer label and a value, stands in the protected or the unprotected
bucket, and may be critical: then a recipient has to understand it. The value is of one of the
native types, an item that is already encoded, or a program that writes the whole entry.
-/

set_option autoImplicit false
set_option relaxedAutoImplicit false

namespace Cose

open Cbor

/-- Values of header parameters that are simple values or floating point numbers. -/
inductive SmallValue where
  | float (number : Float.Double)
  | bool (truth : Bool)
  | null
  | undefined
deriving DecidableEq, Repr

/-- Equality of small values. Floating point numbers are compared as numbers. -/
def SmallValue.equal : SmallValue → SmallValue → Bool
  | float left, float right => left.numericallyEqual right
  | bool left, bool right => left == right
  | null, null => true
  | undefined, undefined => true
  | _, _ => false

/-- A program that writes the entry of a parameter, label and value, into the open header map. It
is given the label of the parameter and whether it is protected and critical. -/
abbrev ParameterWriter := (label : Int64) → (isProtected isCritical : Bool) → Session Unit

/-- The value of a header parameter. -/
inductive ParameterValue where
  | int (number : Int64)
  | text (content : String)
  | bytes (content : Bytes)
  | small (value : SmallValue)
  /-- An item that is already encoded. -/
  | encoded (item : Bytes)
  /-- A value that a program of the caller writes. -/
  | written (writer : ParameterWriter)

/-- Equality of values. A value that is written by a program equals none. -/
def ParameterValue.equal : ParameterValue → ParameterValue → Bool
  | int left, int right => left == right
  | text left, text right => left == right
  | bytes left, bytes right => left == right
  | small left, small right => left.equal right
  | encoded left, encoded right => left == right
  | _, _ => false

/-- A header parameter. -/
structure Parameter where
  label : Int64
  /-- Whether the parameter stands in the protected bucket. -/
  isProtected : Bool
  /-- Whether a recipient has to understand the parameter. -/
  isCritical : Bool
  value : ParameterValue

namespace Parameter

/-- A parameter that is neither protected nor critical. -/
def new (label : Int64) (value : ParameterValue) : Parameter := ⟨label, false, false, value⟩

instance : Inhabited Parameter := ⟨new HeaderLabel.reserved.code (.int 0)⟩

/-- Move a parameter to the protected bucket. -/
def protect (parameter : Parameter) : Parameter := { parameter with isProtected := true }

/-- Move a parameter to the unprotected bucket. -/
def unprotect (parameter : Parameter) : Parameter := { parameter with isProtected := false }

/-- Make a parameter one that a recipient has to understand. -/
def markCritical (parameter : Parameter) : Parameter := { parameter with isCritical := true }

/-- The protected algorithm identifier. -/
def alg (algorithm : Algorithm) : Parameter :=
  (new HeaderLabel.alg.code (.int algorithm.code)).protect

/-- The unprotected key identifier. -/
def kid (identifier : Bytes) : Parameter := new HeaderLabel.kid.code (.bytes identifier)

/-- The unprotected full initialization vector. -/
def iv (vector : Bytes) : Parameter := new HeaderLabel.iv.code (.bytes vector)

/-- The unprotected partial initialization vector. -/
def partialIv (vector : Bytes) : Parameter := new HeaderLabel.partialIv.code (.bytes vector)

/-- The protected content type, by its registered number. -/
def contentFormat (format : UInt16) : Parameter :=
  (new HeaderLabel.contentType.code (.int (Int64.ofNat format.toNat))).protect

/-- The protected content type, by its media type. -/
def mediaType (name : String) : Parameter :=
  (new HeaderLabel.contentType.code (.text name)).protect

/-- Equality of parameters, by their values' equality. -/
def equal (left right : Parameter) : Bool :=
  left.label == right.label && left.isProtected == right.isProtected &&
    left.isCritical == right.isCritical && left.value.equal right.value

end Parameter

/-- The first parameter with a label. -/
def findParameter? (parameters : List Parameter) (label : Int64) : Option Parameter :=
  parameters.find? fun parameter ↦ parameter.label == label

/-- The algorithm identifier, which is taken only from the protected bucket. -/
def algorithmId? (parameters : List Parameter) : Option Int64 :=
  match findParameter? parameters HeaderLabel.alg.code with
  | some ⟨_, true, _, .int identifier⟩ => some identifier
  | _ => none

/-- The key identifier, from either bucket. -/
def keyId? (parameters : List Parameter) : Option Bytes :=
  match findParameter? parameters HeaderLabel.kid.code with
  | some ⟨_, _, _, .bytes identifier⟩ => some identifier
  | _ => none

end Cose
