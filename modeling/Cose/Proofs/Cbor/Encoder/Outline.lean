import Mathlib.Tactic.Common
import Cose.Cbor.Encoder.Tree
import Cose.Proofs.Cbor.Argument
import Cose.Proofs.Cbor.MapOrder

/-!
# Outlines of encodings

An `Outline` is an item to be written: a scalar, a tag with its item, or a container with its
members. `Outline.encoded` is its plain recursive serialization, in which every head is the
shortest and tells the real number of members, pairs or bytes. `Outline.operations` is the
traversal that writes it through an encoding session: a container is opened, its members are
written in order, and it is closed. `Outline.Admissible` says that the limits and the rules of a
session are kept.
-/

set_option autoImplicit false
set_option relaxedAutoImplicit false

namespace Cose.Cbor

/-- The shortest head of a major type with a number. -/
def shortestHead (major : Major) (number : UInt64) : Bytes := (Argument.shortest number).head major

/-! ### Scalars -/

/-- An item without members. -/
inductive Scalar where
  | int (number : Int64)
  | unsigned (number : UInt64)
  | negative (number : UInt64)
  | bytes (content : Bytes)
  | text (content : String)
  | simple (value : UInt8)
  | double (number : Float.Double)
  | single (number : Float.Single)
  | fullDouble (number : Float.Double)
  | fullSingle (number : Float.Single)
deriving DecidableEq, Repr

/-- The bytes of a floating point number in its own precision. -/
def reducedBytes : Float.Reduced → Bytes
  | .half number => (Argument.ofWord16 number.bits).head .simple
  | .single number => (Argument.ofWord32 number.bits).head .simple
  | .double number => (Argument.ofWord64 number.bits).head .simple

/-- The bytes of an integer that came as a floating point number. -/
def wholeBytes : Float.WholeNumber → Bytes
  | .unsigned number => shortestHead .unsigned number
  | .negative number => shortestHead .negative number

/-- The bytes of a floating point number by some rules, given what it is as an integer, whether it
is a NaN, and its narrowest and its full precision. -/
def floatBytes (rules : Rules) (whole? : Option Float.WholeNumber) (isNaN : Bool)
    (narrowest full : Float.Reduced) : Bytes :=
  match if rules.floatsToInts then whole? else none with
  | some whole => wholeBytes whole
  | none =>
    if isNaN && rules.canonicalNaN then reducedBytes (.half Float.Half.quietNaN)
    else if rules.reduceFloats then reducedBytes narrowest
    else reducedBytes full

namespace Scalar

/-- Append a scalar to a session. -/
def append (encoder : Encoder) : Scalar → Encoder
  | int number => encoder.appendInt number
  | unsigned number => encoder.appendUnsigned number
  | negative number => encoder.appendNegative number
  | bytes content => encoder.appendBytes content
  | text content => encoder.appendText content
  | simple value => encoder.appendSimple value
  | double number => encoder.appendDouble number
  | single number => encoder.appendSingle number
  | fullDouble number => encoder.appendFullDouble number
  | fullSingle number => encoder.appendFullSingle number

/-- The bytes of a scalar. -/
def encoded (rules : Rules) : Scalar → Bytes
  | int number =>
    match number.toInt with
    | .ofNat n => shortestHead .unsigned (UInt64.ofNat n)
    | .negSucc n => shortestHead .negative (UInt64.ofNat n)
  | unsigned number => shortestHead .unsigned number
  | negative number => shortestHead .negative number
  | bytes content => shortestHead .bytes (UInt64.ofNat content.length) ++ content
  | text content => shortestHead .text (UInt64.ofNat content.utf8ByteSize) ++ content.toUTF8.toList
  | simple value => shortestHead .simple value.toUInt64
  | double number =>
    floatBytes rules number.wholeNumber? number.isNaN number.reduce (.double number)
  | single number =>
    floatBytes rules number.toDouble.wholeNumber? number.isNaN number.reduce (.single number)
  | fullDouble number => reducedBytes (.double number)
  | fullSingle number => reducedBytes (.single number)

/-- The parts in which a scalar is written: strings in two, everything else at once. -/
def parts (rules : Rules) : Scalar → List Bytes
  | bytes content => [shortestHead .bytes (UInt64.ofNat content.length), content]
  | text content =>
    [shortestHead .text (UInt64.ofNat content.utf8ByteSize), content.toUTF8.toList]
  | value => [value.encoded rules]

/-- Whether the rules permit a scalar. Simple values from 24 to 31 are reserved. -/
def Allowed (rules : Rules) : Scalar → Prop
  | simple value =>
    ¬(24 ≤ value ∧ value < 32) ∧ (rules.onlyBasicSimple = true →
      value = simpleFalse ∨ value = simpleTrue ∨ value = simpleNull)
  | _ => True

instance (rules : Rules) (scalar : Scalar) : Decidable (scalar.Allowed rules) := by
  unfold Allowed
  split <;> infer_instance

end Scalar

/-! ### Containers -/

/-- The items that are opened and closed around others. -/
inductive Container where
  | array
  | map
  | indefiniteArray
  | indefiniteMap
  /-- A byte string whose content is a nested encoding. -/
  | wrap
deriving DecidableEq, Repr

/-- The entries of a map, given by its labels and values in turn. -/
def pairs : List Bytes → List Entry
  | [] => []
  | [_] => []
  | label :: value :: rest => ⟨label, value⟩ :: pairs rest

namespace Container

/-- The kind of open item that a container is while its members are written. -/
def nest : Container → Nest
  | array => .array
  | map => .map
  | indefiniteArray => .indefiniteArray
  | indefiniteMap => .indefiniteMap
  | wrap => .wrap

/-- Whether the members are labels and values in turn. -/
def isMap : Container → Bool
  | map => true
  | indefiniteMap => true
  | _ => false

/-- The most members that a container may have. -/
def limit? : Container → Option Nat
  | array => some maxItems
  | indefiniteArray => some maxItems
  | map => some (2 * maxItems)
  | indefiniteMap => some (2 * maxItems)
  | wrap => none

/-- Whether a container may hold members with the given bytes: not too many, whole pairs in a map,
and no two equal labels where maps are put in order. -/
structure Takes (rules : Rules) (container : Container) (members : List Bytes) : Prop where
  length_le : ∀ limit ∈ container.limit?, members.length ≤ limit
  pairs_whole : container.isMap = true → members.length % 2 = 0
  labels_distinct : container = .map → rules.sortMaps = true → Entry.Distinct (pairs members)

/-- Whether the rules permit a container. -/
def Allowed (rules : Rules) (container : Container) : Prop :=
  Encoder.isIndefinite container.nest = true → rules.allowIndefinite = true

/-- The entries of a map in the order in which they are written. -/
def arrange (rules : Rules) (entries : List Entry) : List Entry :=
  if rules.sortMaps then Entry.sorted entries else entries

/-- The bytes of a container with members of the given bytes. -/
def enclose (rules : Rules) (container : Container) (members : List Bytes) : Bytes :=
  match container with
  | array => shortestHead .array (UInt64.ofNat members.length) ++ members.flatten
  | map =>
    shortestHead .map (UInt64.ofNat (members.length / 2)) ++
      encodedEntries (arrange rules (pairs members))
  | indefiniteArray => indefiniteHead .array :: members.flatten ++ [breakByte]
  | indefiniteMap => indefiniteHead .map :: members.flatten ++ [breakByte]
  | wrap => shortestHead .bytes (UInt64.ofNat members.flatten.length) ++ members.flatten

theorem perm_arrange (rules : Rules) (entries : List Entry) :
    (arrange rules entries).Perm entries := by
  unfold arrange
  split
  · exact Entry.perm_sorted entries
  · exact .refl entries

/-- Whole pairs are all the members. -/
theorem encodedEntries_pairs {members : List Bytes} (hwhole : members.length % 2 = 0) :
    encodedEntries (pairs members) = members.flatten := by
  fun_induction pairs members with
  | case1 => rfl
  | case2 label => simp at hwhole
  | case3 label value rest ih =>
    have hrest : rest.length % 2 = 0 := by
      simp only [List.length_cons] at hwhole
      omega
    have hentries : encodedEntries (⟨label, value⟩ :: pairs rest) =
        label ++ value ++ encodedEntries (pairs rest) := rfl
    rw [hentries, ih hrest]
    simp

/-- The order of the entries does not matter for the length. -/
theorem length_arrange (rules : Rules) {members : List Bytes} (hwhole : members.length % 2 = 0) :
    (encodedEntries (arrange rules (pairs members))).length = members.flatten.length := by
  rw [← encodedEntries_pairs hwhole]
  exact ((perm_arrange rules (pairs members)).flatMap_right Entry.encoded).length_eq

/-- The bytes of the members and the first byte of an indefinite length are a part of the bytes of
a container. -/
theorem length_le_enclose {rules : Rules} {kind : Container} {members : List Bytes}
    (htakes : kind.Takes rules members) :
    (Encoder.openingBytes kind.nest).length + members.flatten.length ≤
      (kind.enclose rules members).length := by
  cases kind with
  | map =>
    have hlength := length_arrange rules (htakes.pairs_whole rfl)
    simp only [enclose, nest, Encoder.openingBytes, List.length_append, List.length_nil, hlength]
    omega
  | _ =>
    simp only [enclose, nest, Encoder.openingBytes, List.length_append, List.length_cons,
      List.length_nil]
    omega

end Container

/-! ### Outlines and their serialization -/

/-- An item to be written. The members of a map are its labels and values in turn. -/
inductive Outline where
  | scalar (value : Scalar)
  | tag (number : UInt64) (content : Outline)
  | container (kind : Container) (members : List Outline)

/-- An operation that writes a part of an outline. -/
inductive Operation where
  | scalar (value : Scalar)
  | tag (number : UInt64)
  | opening (kind : Container)
  | closing (kind : Container)
deriving DecidableEq, Repr

namespace Operation

/-- Perform an operation on a session. -/
def apply (encoder : Encoder) : Operation → Encoder
  | scalar value => value.append encoder
  | tag number => encoder.addTag number
  | opening .array => encoder.openArray
  | opening .map => encoder.openMap
  | opening .indefiniteArray => encoder.openArrayIndefinite
  | opening .indefiniteMap => encoder.openMapIndefinite
  | opening .wrap => encoder.openWrap
  | closing .array => encoder.closeArray
  | closing .map => encoder.closeMap
  | closing .indefiniteArray => encoder.closeArrayIndefinite
  | closing .indefiniteMap => encoder.closeMapIndefinite
  | closing .wrap => (encoder.closeWrap false).2

end Operation

/-- Perform operations on a session one after the other. -/
def Encoder.perform (encoder : Encoder) (operations : List Operation) : Encoder :=
  operations.foldl Operation.apply encoder

namespace Outline

mutual

/-- The bytes of an outline. -/
def encoded (rules : Rules) : Outline → Bytes
  | scalar value => value.encoded rules
  | tag number content => shortestHead .tag number ++ content.encoded rules
  | container kind members => kind.enclose rules (encodedEach rules members)

/-- The bytes of each of several outlines. -/
def encodedEach (rules : Rules) : List Outline → List Bytes
  | [] => []
  | outline :: rest => outline.encoded rules :: encodedEach rules rest

end

mutual

/-- The operations that write an outline, in order. -/
def operations : Outline → List Operation
  | scalar value => [.scalar value]
  | tag number content => .tag number :: content.operations
  | container kind members => .opening kind :: (operationsAll members ++ [.closing kind])

/-- The operations that write several outlines, in order. -/
def operationsAll : List Outline → List Operation
  | [] => []
  | outline :: rest => outline.operations ++ operationsAll rest

end

mutual

/-- Whether an outline keeps the rules of a session and the limits of the library where a number
of containers is open around it. -/
def Admissible (rules : Rules) : (depth : Nat) → Outline → Prop
  | _, scalar value => value.Allowed rules
  | depth, tag _ content => content.Admissible rules depth
  | depth, container kind members =>
    depth < maxNesting ∧ kind.Allowed rules ∧ kind.Takes rules (encodedEach rules members) ∧
      AllAdmissible rules (depth + 1) members

/-- Whether all outlines of a list are admissible at a depth. -/
def AllAdmissible (rules : Rules) : (depth : Nat) → List Outline → Prop
  | _, [] => True
  | depth, outline :: rest => outline.Admissible rules depth ∧ AllAdmissible rules depth rest

end

/-- The bytes of several outlines one after the other. -/
def encodedAll (rules : Rules) (outlines : List Outline) : Bytes :=
  (encodedEach rules outlines).flatten

theorem encodedEach_eq_map (rules : Rules) (outlines : List Outline) :
    encodedEach rules outlines = outlines.map (encoded rules) := by
  induction outlines with
  | nil => rfl
  | cons outline rest ih => simp [encodedEach, ih]

theorem operationsAll_eq_flatMap (outlines : List Outline) :
    operationsAll outlines = outlines.flatMap operations := by
  induction outlines with
  | nil => rfl
  | cons outline rest ih => simp [operationsAll, ih]

@[simp]
theorem encodedAll_append (rules : Rules) (first second : List Outline) :
    encodedAll rules (first ++ second) = encodedAll rules first ++ encodedAll rules second := by
  simp [encodedAll, encodedEach_eq_map]

@[simp]
theorem encodedAll_singleton (rules : Rules) (outline : Outline) :
    encodedAll rules [outline] = outline.encoded rules := by
  simp [encodedAll, encodedEach]

@[simp]
theorem operationsAll_append (first second : List Outline) :
    operationsAll (first ++ second) = operationsAll first ++ operationsAll second := by
  simp [operationsAll_eq_flatMap]

theorem allAdmissible_iff {rules : Rules} {depth : Nat} {outlines : List Outline} :
    AllAdmissible rules depth outlines ↔ ∀ outline ∈ outlines, outline.Admissible rules depth := by
  induction outlines with
  | nil => simp [AllAdmissible]
  | cons outline rest ih => simp [AllAdmissible, ih]

theorem allAdmissible_append {rules : Rules} {depth : Nat} {first second : List Outline} :
    AllAdmissible rules depth (first ++ second) ↔
      AllAdmissible rules depth first ∧ AllAdmissible rules depth second := by
  simp only [allAdmissible_iff, List.forall_mem_append]

end Outline

end Cose.Cbor
