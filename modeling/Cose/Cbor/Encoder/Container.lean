import Cose.Cbor.Encoder.Scalar
import Cose.Cbor.MapOrder

/-!
# Arrays, maps and byte strings that are opened and closed

Containers of definite length get their head when they are closed. Maps are put in order then, if
the rules of the session ask for it. A byte string can be opened to hold a nested encoding, or as
a region of given capacity that the caller fills.

Decimal fractions and bigfloats are tagged arrays of an exponent and a mantissa.
-/

set_option autoImplicit false
set_option relaxedAutoImplicit false

namespace Cose.Cbor.Encoder

/-- The first byte of a container of indefinite length, nothing for the other kinds. -/
def openingBytes : Nest → Bytes
  | .indefiniteArray => [UInt8.ofNat (Major.array.code * 32 + indefiniteInfo)]
  | .indefiniteMap => [UInt8.ofNat (Major.map.code * 32 + indefiniteInfo)]
  | _ => []

/-- Whether a container of this kind has an indefinite length. -/
def isIndefinite : Nest → Bool
  | .indefiniteArray => true
  | .indefiniteMap => true
  | _ => false

/-- Open an item, which counts as one item of the innermost open one. -/
def openNest (encoder : Encoder) (kind : Nest) : Encoder :=
  encoder.beginItem.proceed fun encoder ↦
    if encoder.depth ≥ maxNesting then encoder.fail .nestingTooDeep
    else if isIndefinite kind ∧ encoder.rules.allowIndefinite = false then
      encoder.fail .notAllowed
    else
      let encoder := encoder.write (openingBytes kind)
      { encoder with frames := ⟨kind, encoder.length, 0⟩ :: encoder.frames }

/-- Close the innermost open item, which must be of the given kind and not end in a tag. -/
def pop (encoder : Encoder) (kind : Nest) : Option Frame × Encoder :=
  match encoder.error with
  | some _ => (none, encoder)
  | none =>
    if encoder.tagPending then (none, encoder.fail .unsupported)
    else
      match encoder.frames with
      | [] => (none, encoder.fail .tooManyCloses)
      | frame :: outer =>
        if frame.kind = kind then (some frame, { encoder with frames := outer })
        else (none, encoder.fail .closeMismatch)

/-- Open an array. -/
def openArray (encoder : Encoder) : Encoder := encoder.openNest .array

/-- Close an array, inserting its head before its members. -/
def closeArray (encoder : Encoder) : Encoder :=
  match encoder.pop .array with
  | (none, encoder) => encoder
  | (some frame, encoder) =>
    encoder.insert frame.start (encodeHead .array (UInt64.ofNat frame.count) 0)

/-- Open a map. -/
def openMap (encoder : Encoder) : Encoder := encoder.openNest .map

/-- Put the entries of the map whose body starts at a position in order. -/
def sortMap (encoder : Encoder) (start : Nat) : Encoder :=
  if encoder.output.isSizeOnly then encoder
  else
    let (sorted, failure?) := sortEntries (encoder.output.contentsFrom start)
    let encoder := { encoder with output := encoder.output.replaceFrom start sorted }
    match failure? with
    | none => encoder
    | some cause => encoder.fail cause

/-- Close a map, which must hold whole pairs. The rules of the session may put its entries in
bytewise order of their encoded labels first. -/
def closeMap (encoder : Encoder) : Encoder :=
  match encoder.pop .map with
  | (none, encoder) => encoder
  | (some frame, encoder) =>
    if frame.count % 2 = 0 then
      let encoder := if encoder.rules.sortMaps then encoder.sortMap frame.start else encoder
      encoder.insert frame.start (encodeHead .map (UInt64.ofNat (frame.count / 2)) 0)
    else encoder.fail .incompleteMapPair

/-- Open an array of indefinite length. -/
def openArrayIndefinite (encoder : Encoder) : Encoder := encoder.openNest .indefiniteArray

/-- Close an array of indefinite length. -/
def closeArrayIndefinite (encoder : Encoder) : Encoder :=
  match encoder.pop .indefiniteArray with
  | (none, encoder) => encoder
  | (some _, encoder) => encoder.write [breakByte]

/-- Open a map of indefinite length. -/
def openMapIndefinite (encoder : Encoder) : Encoder := encoder.openNest .indefiniteMap

/-- Close a map of indefinite length, which must hold whole pairs. -/
def closeMapIndefinite (encoder : Encoder) : Encoder :=
  match encoder.pop .indefiniteMap with
  | (none, encoder) => encoder
  | (some frame, encoder) =>
    if frame.count % 2 = 0 then encoder.write [breakByte] else encoder.fail .incompleteMapPair

/-- A range of positions of the output, the last one excluded. -/
structure Span where
  start : Nat
  stop : Nat
deriving DecidableEq, Repr

/-- Open a byte string whose content is a nested encoding. -/
def openWrap (encoder : Encoder) : Encoder := encoder.openNest .wrap

/-- Close a byte string that holds a nested encoding, and tell where the wrapped bytes stand, with
or without their head. -/
def closeWrap (encoder : Encoder) (includeHead : Bool) : Option Span × Encoder :=
  match encoder.pop .wrap with
  | (none, encoder) => (none, encoder)
  | (some frame, encoder) =>
    let head := encodeHead .bytes (UInt64.ofNat (encoder.length - frame.start)) 0
    let encoder := encoder.insert frame.start head
    match encoder.error with
    | some _ => (none, encoder)
    | none =>
      let start := if includeHead then frame.start else frame.start + head.length
      (some ⟨start, encoder.length⟩, encoder)

/-- Close a byte string that holds a nested encoding, and return the wrapped bytes. -/
def closeWrapBytes (encoder : Encoder) (includeHead : Bool) : Option Bytes × Encoder :=
  match encoder.closeWrap includeHead with
  | (none, encoder) => (none, encoder)
  | (some span, encoder) => (encoder.view? span.start span.stop, encoder)

/-- Open a byte string as a region of a given capacity that the caller fills; `content` is what is
written at its start. The size of the region is returned, if there is one to write into. -/
def openRegion (encoder : Encoder) (capacity : Nat) (content : Bytes) : Option Nat × Encoder :=
  let encoder := encoder.openNest .region
  match encoder.error with
  | some _ => (none, encoder)
  | none =>
    let frames :=
      match encoder.frames with
      | [] => []
      | frame :: outer => { frame with count := capacity } :: outer
    let encoder := { encoder with frames := frames }
    match encoder.output.refusal? capacity with
    | some cause => (none, encoder.fail cause)
    | none =>
      if encoder.output.isSizeOnly then (none, encoder)
      else (some capacity, { encoder with output := encoder.output.reserve capacity content })

/-- Close a region, of which the first `used` bytes are the content of the byte string. -/
def closeRegion (encoder : Encoder) (used : Nat) : Encoder :=
  match encoder.pop .region with
  | (none, encoder) => encoder
  | (some frame, encoder) =>
    if used > frame.count then encoder.fail .bufferTooSmall
    else
      let encoder := { encoder with output := encoder.output.endAt (frame.start + used) }
      encoder.insert frame.start (encodeHead .bytes (UInt64.ofNat used) 0)

/-- The mantissa of a decimal fraction or bigfloat. -/
inductive Mantissa where
  | int (number : Int64)
  | big (negative : Bool) (magnitude : Bytes)
deriving DecidableEq, Repr

/-- Append a mantissa as an integer. -/
def appendMantissa (encoder : Encoder) : Mantissa → Encoder
  | .int number => encoder.appendInt number
  | .big negative magnitude => encoder.appendBigNumber negative magnitude

/-- The tag of a decimal fraction. -/
def decimalFractionTag : UInt64 := 4

/-- The tag of a bigfloat. -/
def bigfloatTag : UInt64 := 5

/-- Append a tagged pair of exponent and mantissa. -/
def appendScaled (encoder : Encoder) (tag : UInt64) (mantissa : Mantissa) (exponent : Int64) :
    Encoder :=
  (((encoder.addTag tag).openArray.appendInt exponent).appendMantissa mantissa).closeArray

/-- Append the number `mantissa * 10 ^ exponent`. -/
def appendDecimalFraction (encoder : Encoder) (mantissa : Mantissa) (exponent : Int64) : Encoder :=
  encoder.appendScaled decimalFractionTag mantissa exponent

/-- Append the number `mantissa * 2 ^ exponent`. -/
def appendBigfloat (encoder : Encoder) (mantissa : Mantissa) (exponent : Int64) : Encoder :=
  encoder.appendScaled bigfloatTag mantissa exponent

end Cose.Cbor.Encoder
