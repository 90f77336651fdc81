import Cose.Expect
import Cose.Header.Encode

/-!
# Reading headers

The two buckets are read into one list of parameters, the protected ones first. A parameter is
read by the reader registered for its label, if there is one, and otherwise as a value of native
type; a value of another type is passed over, and so is a parameter with a text label. Every label
that is listed as critical must have been stored in the end.
-/

set_option autoImplicit false
set_option relaxedAutoImplicit false

namespace Cose

open Cbor

/-- A reader for the values of some parameter, given its label. It has to read one whole value. -/
abbrev ParameterReader := (label : Int64) → Reading Error ParameterValue

/-- The reader that keeps the encoded value. -/
def ParameterReader.raw : ParameterReader := fun _ ↦ do
  let (_, item) ← Reading.nextRaw
  return .encoded item

/-- Headers that were read. -/
structure DecodedHeaders where
  /-- The content of the protected byte string. -/
  protectedBytes : Bytes
  /-- The parameters of both buckets, the protected ones first. -/
  parameters : List Parameter

namespace DecodedHeaders

/-- The first parameter with a label. -/
def find? (headers : DecodedHeaders) (label : Int64) : Option Parameter :=
  findParameter? headers.parameters label

/-- The algorithm identifier, which is taken only from the protected bucket. -/
def algorithmId? (headers : DecodedHeaders) : Option Int64 :=
  Cose.algorithmId? headers.parameters

/-- The key identifier, from either bucket. -/
def keyId? (headers : DecodedHeaders) : Option Bytes := Cose.keyId? headers.parameters

end DecodedHeaders

/-- The list of critical labels as it was read. -/
structure CriticalLabels where
  labels : List Int64
  /-- Whether a text label is listed, which no parameter can match. -/
  hasText : Bool
deriving DecidableEq, Repr

/-- What has been read of the headers. -/
structure HeaderState where
  /-- The parameters that were stored. -/
  parameters : List Parameter
  /-- The list of critical labels, once it was met. -/
  critical? : Option CriticalLabels

/-- The parameter value that an item of native type stands for, if it is of one. -/
def nativeValue? (item : Item) : Option ParameterValue :=
  if item.tags = [] then
    match item.value with
    | .unsigned _ => item.toInt64.toOption.map .int
    | .negative _ => item.toInt64.toOption.map .int
    | .text content => some (.text content)
    | .bytes content => some (.bytes content)
    | .float number => some (.small (.float number))
    | .bool truth => some (.small (.bool truth))
    | .null => some (.small .null)
    | .undefined => some (.small .undefined)
    | .array _ => none
    | .map _ => none
    | .simple _ => none
  else none

/-- The integer of an item, with its failure among those of messages. -/
def readLabel (item : Item) : Reading Error Int64 :=
  .ofExcept (item.toInt64.mapError Error.decode)

/-- Read one entry of the list of critical labels. -/
def readCriticalLabel (critical : CriticalLabels) (item : Item) :
    Reading Error CriticalLabels := do
  match item.value with
  | .unsigned _ | .negative _ =>
    let label ← readLabel item
    if critical.labels.contains label then .fail .badCritParameter
    else if critical.labels.length = maxCriticalParameters then .fail .tooManyCriticalParameters
    else return { critical with labels := critical.labels ++ [label] }
  | .text _ => return { critical with hasText := true }
  | _ => .fail .badCritParameter

/-- Read the list of critical labels: an array that is not empty. -/
def readCritical : Reading Error CriticalLabels := do
  let array ← Reading.next
  match array.value, array.tags with
  | .array _, [] =>
    let critical ← Reading.foldBelow array.level ⟨[], false⟩ readCriticalLabel
    if critical.labels.isEmpty && !critical.hasText then .fail .badCritParameter
    else return critical
  | _, _ => .fail .badCritParameter

/-- Read the value of the parameter with a label, if it is one that is stored. -/
def readValue? (readers : List (Int64 × ParameterReader)) (label : Int64) :
    Reading Error (Option ParameterValue) := do
  match readers.lookup label with
  | some reader => return some (← reader label)
  | none =>
    let item ← Reading.next
    match nativeValue? item with
    | some value => return some value
    | none =>
      Reading.skip item
      return none

/-- Store a parameter. No label may be stored twice, and there may be no room left. -/
def HeaderState.store (state : HeaderState) (capacity : Nat) (parameter : Parameter) :
    Except Error HeaderState :=
  if (findParameter? state.parameters parameter.label).isSome then .error .duplicateParameter
  else if state.parameters.length < capacity then
    .ok { state with parameters := state.parameters ++ [parameter] }
  else .error .tooManyParameters

/-- Read one entry of a bucket, whose label was read already. -/
def readEntry (readers : List (Int64 × ParameterReader)) (capacity : Nat) (isProtected : Bool)
    (state : HeaderState) (item : Item) : Reading Error HeaderState := do
  match item.value with
  | .unsigned _ | .negative _ =>
    let label ← readLabel item
    if label = HeaderLabel.crit.code then
      if isProtected = false then .fail .badCritParameter
      else if state.critical?.isSome then .fail .duplicateParameter
      else return { state with critical? := some (← readCritical) }
    else
      match ← readValue? readers label with
      | some value => .ofExcept (state.store capacity ⟨label, isProtected, false, value⟩)
      | none => return state
  | .text _ =>
    let value ← Reading.next
    Reading.skip value
    return state
  | other => .fail (.unexpectedItem other.typeName "int / tstr")

/-- Read the map of one bucket. -/
def readBucket (readers : List (Int64 × ParameterReader)) (capacity : Nat) (isProtected : Bool)
    (state : HeaderState) : Reading Error HeaderState := do
  let map ← Reading.next
  Reading.ofExcept (expectUntagged map "map")
  match map.value with
  | .map _ => Reading.foldBelow map.level state (readEntry readers capacity isProtected)
  | other => .fail (.unexpectedItem other.typeName "map")

/-- Mark the first parameter with a label as critical, if there is one. -/
def markCritical? (label : Int64) : List Parameter → Option (List Parameter)
  | [] => none
  | parameter :: rest =>
    if parameter.label = label then some (parameter.markCritical :: rest)
    else (markCritical? label rest).map (parameter :: ·)

/-- Mark all critical labels. Each of them must have been stored, which a text label never is. -/
def CriticalLabels.mark (critical : CriticalLabels) (parameters : List Parameter) :
    Except Error (List Parameter) :=
  if critical.hasText then .error .unknownCriticalParameter
  else
    match critical.labels.foldlM (fun parameters label ↦ markCritical? label parameters)
        parameters with
    | some marked => .ok marked
    | none => .error .unknownCriticalParameter

/-- Read the protected byte string and the unprotected map into at most `capacity` parameters. An
empty byte string stands for an empty map. -/
def readHeaders (readers : List (Int64 × ParameterReader)) (capacity : Nat) :
    Reading Error DecodedHeaders := do
  let item ← Reading.next
  let protectedBytes ← Reading.ofExcept (expectBytes item)
  let state ←
    if protectedBytes.isEmpty then pure ⟨[], none⟩
    else
      Reading.within protectedBytes do
        let state ← readBucket readers capacity true ⟨[], none⟩
        Reading.finish
        return state
  let state ← readBucket readers capacity false state
  let parameters ←
    match state.critical? with
    | none => pure state.parameters
    | some critical => Reading.ofExcept (critical.mark state.parameters)
  return ⟨protectedBytes, parameters⟩

end Cose
