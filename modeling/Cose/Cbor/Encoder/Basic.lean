import Cose.Cbor.Head
import Cose.Cbor.Output
import Cose.Cbor.Rules

/-!
# Encoding sessions

An encoder appends items to an output in wire order and keeps a stack of the arrays, maps and byte
strings that are open. Heads of containers are inserted when the container is closed, once the
number of members is known.

The first failure of a session is kept in it, and from then on every operation leaves the session
as it is: each operation below is built from `Encoder.proceed`, which does nothing in a session
that failed. So a caller looks once, at `Encoder.finish` or `Encoder.finishSize`.
-/

set_option autoImplicit false
set_option relaxedAutoImplicit false

namespace Cose.Cbor

/-- The kinds of items that can be open. -/
inductive Nest where
  | array
  | map
  | indefiniteArray
  | indefiniteMap
  /-- A byte string whose content is a nested encoding. -/
  | wrap
  /-- A byte string whose content the caller writes. -/
  | region
deriving DecidableEq, Repr

/-- The most items that an open item takes, `none` if it takes no items at all. -/
def Nest.limit? : Nest → Option Nat
  | array => some maxItems
  | indefiniteArray => some maxItems
  | map => some (2 * maxItems)
  | indefiniteMap => some (2 * maxItems)
  | wrap => some (2 ^ 64 - 1)
  | region => none

/-- An item that is open. -/
structure Frame where
  kind : Nest
  /-- The position of the first byte of its content. -/
  start : Nat
  /-- The number of items in it so far, and for a region the capacity reserved. -/
  count : Nat
deriving DecidableEq, Repr

/-- An encoding session. -/
structure Encoder where
  output : Output
  /-- The items that are open, innermost first. -/
  frames : List Frame
  /-- The first failure of the session. -/
  error : Option EncodeError
  rules : Rules
  /-- Whether a tag was written whose item is still to come. -/
  tagPending : Bool
deriving Repr

namespace Encoder

/-- A session over a given output. -/
def ofOutput (output : Output) (rules : Rules) : Encoder where
  output := output
  frames := []
  error := none
  rules := rules
  tagPending := false

/-- A session that writes into a zero-filled region of fixed capacity. -/
def fixed (capacity : Nat) (rules : Rules) : Encoder :=
  ofOutput (.fixed #[] (List.replicate capacity 0)) rules

/-- A session whose output grows as needed. -/
def growable (rules : Rules) : Encoder := ofOutput (.growable #[] []) rules

/-- A session that only computes the length of the encoding. Entries of maps are not sorted, as
that does not change their length; so equal labels go unnoticed. -/
def sizeOnly (rules : Rules) : Encoder := ofOutput (.sizeOnly 0) rules

/-- The number of bytes produced so far. -/
def length (encoder : Encoder) : Nat := encoder.output.length

/-- Whether nothing has been produced yet. -/
def isEmpty (encoder : Encoder) : Bool := encoder.length == 0

/-- The number of items that are open. -/
def depth (encoder : Encoder) : Nat := encoder.frames.length

/-- The bytes produced between two positions; `none` if they are not both inside what has been
written, in order. -/
def view? (encoder : Encoder) (start stop : Nat) : Option Bytes :=
  if stop > encoder.length ∨ start > stop then none
  else
    match encoder.output with
    | .sizeOnly _ => none
    | .fixed written _ => some (written.extract start stop).toList
    | .growable written _ => some (written.extract start stop).toList

/-- Record a failure, unless there was one before. -/
def fail (encoder : Encoder) (cause : EncodeError) : Encoder :=
  match encoder.error with
  | some _ => encoder
  | none => { encoder with error := some cause }

/-- Change a session that has not failed. -/
@[inline]
def proceed (encoder : Encoder) (change : Encoder → Encoder) : Encoder :=
  match encoder.error with
  | some _ => encoder
  | none => change encoder

/-- Write bytes at the end of the output. -/
def write (encoder : Encoder) (data : Bytes) : Encoder :=
  encoder.proceed fun encoder ↦
    match encoder.output.refusal? data.length with
    | some cause => encoder.fail cause
    | none => { encoder with output := encoder.output.push data }

/-- Insert bytes at a position of the output. -/
def insert (encoder : Encoder) (position : Nat) (data : Bytes) : Encoder :=
  encoder.proceed fun encoder ↦
    match encoder.output.refusal? data.length with
    | some cause => encoder.fail cause
    | none => { encoder with output := encoder.output.insert position data }

/-- Count one more item in the innermost open item, which may be full or take none. -/
def beginItem (encoder : Encoder) : Encoder :=
  encoder.proceed fun encoder ↦
    let encoder := { encoder with tagPending := false }
    match encoder.frames with
    | [] => encoder
    | frame :: outer =>
      match frame.kind.limit? with
      | none => encoder.fail .notAllowed
      | some limit =>
        if frame.count ≥ limit then encoder.fail .arrayTooLong
        else { encoder with frames := { frame with count := frame.count + 1 } :: outer }

/-- Append the head of an item, which counts as one item. Content that the head announces has to
follow through `appendRaw`. -/
def appendHead (encoder : Encoder) (major : Major) (argument : UInt64) (minWidth : Nat) :
    Encoder :=
  encoder.beginItem.write (encodeHead major argument minWidth)

/-- Append bytes as they are, without counting them as an item. -/
def appendRaw (encoder : Encoder) (data : Bytes) : Encoder := encoder.write data

/-- Append one complete item that is already encoded. -/
def appendEncoded (encoder : Encoder) (item : Bytes) : Encoder := encoder.beginItem.write item

/-- Append a tag number. It belongs to the item that is appended next and is not counted. -/
def addTag (encoder : Encoder) (tag : UInt64) : Encoder :=
  encoder.proceed fun encoder ↦
    match encoder.frames.head? with
    | some ⟨.region, _, _⟩ => encoder.fail .notAllowed
    | _ => { encoder.write (encodeHead .tag tag 0) with tagPending := true }

/-- Why a session cannot be finished, if it cannot: its first failure, open items, or a tag
without its item. -/
def incompleteness? (encoder : Encoder) : Option EncodeError :=
  match encoder.error with
  | some cause => some cause
  | none =>
    if encoder.depth > 0 then some .stillOpen
    else if encoder.tagPending then some .unsupported
    else none

/-- Complete the session: the bytes produced, or the first failure. -/
def finish (encoder : Encoder) : Except EncodeError Bytes :=
  match encoder.incompleteness? with
  | some cause => .error cause
  | none =>
    match encoder.output with
    | .sizeOnly _ => .error .noOutputBuffer
    | .fixed _ _ => .ok encoder.output.contents
    | .growable _ _ => .ok encoder.output.storage

/-- Complete the session: the number of bytes produced, or the first failure. -/
def finishSize (encoder : Encoder) : Except EncodeError Nat :=
  match encoder.incompleteness? with
  | some cause => .error cause
  | none => .ok encoder.length

end Encoder

end Cose.Cbor
