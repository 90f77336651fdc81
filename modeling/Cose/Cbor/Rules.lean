/-!
# Serialization rules

The choices that a session makes where the encoding leaves some: how floating point numbers and
big numbers are written, whether maps are sorted, and what is forbidden. `Rules.preferred`,
`Rules.noPreferred`, `Rules.coreDeterministic` and `Rules.dcbor` are the named sets of choices.
-/

set_option autoImplicit false
set_option relaxedAutoImplicit false

namespace Cose.Cbor

/-- The serialization rules of an encoding session. -/
structure Rules where
  /-- Sort the entries of a map by encoded label when it is closed, and reject equal labels. -/
  sortMaps : Bool
  /-- Write floating point numbers in the narrowest precision that holds them exactly. -/
  reduceFloats : Bool
  /-- Write floating point numbers that are integers as integers. -/
  floatsToInts : Bool
  /-- Write every NaN as the half precision quiet NaN. -/
  canonicalNaN : Bool
  /-- Write big numbers that fit in 64 bits as plain integers. -/
  preferredBigNumbers : Bool
  /-- Permit arrays and maps of indefinite length. -/
  allowIndefinite : Bool
  /-- Permit only `false`, `true` and `null` among the simple values. -/
  onlyBasicSimple : Bool
deriving DecidableEq, Repr

namespace Rules

/-- Preferred serialization. -/
def preferred : Rules where
  sortMaps := false
  reduceFloats := true
  floatsToInts := false
  canonicalNaN := false
  preferredBigNumbers := true
  allowIndefinite := true
  onlyBasicSimple := false

/-- No size reduction beyond the shortest heads. -/
def noPreferred : Rules := { preferred with reduceFloats := false, preferredBigNumbers := false }

/-- Core deterministic encoding. -/
def coreDeterministic : Rules := { preferred with sortMaps := true, allowIndefinite := false }

/-- Core deterministic encoding with numeric reduction: numerically equal numbers are written
alike. -/
def dcbor : Rules :=
  { coreDeterministic with floatsToInts := true, canonicalNaN := true, onlyBasicSimple := true }

instance : Inhabited Rules := ⟨preferred⟩

/-- The set of choices with a name. -/
def named? : String → Option Rules
  | "preferred" => some preferred
  | "no_preferred" => some noPreferred
  | "cde" => some coreDeterministic
  | "dcbor" => some dcbor
  | "default" => some default
  | _ => none

end Rules

end Cose.Cbor
