import Cose.Cbor.Decoder.Item
import Cose.Cbor.Head
import Cose.Cbor.Pending

/-!
# Decoding cursors

A decoder stands before the bytes that are not read yet, and keeps what each open array and map
still expects. `Decoder.next` delivers one item and moves the cursor behind its head and string
content. A container that is complete is left silently, and the break of an indefinite one is
consumed with that, both only when the next item is asked for.

An operation that fails leaves the cursor where the failure was found, and later operations go on
from there: so every operation returns the cursor with an error too.
-/

set_option autoImplicit false
set_option relaxedAutoImplicit false

namespace Cose.Cbor

/-- An array or map whose members are being read. -/
structure Level where
  pending : Pending
  isMap : Bool
  /-- The number of members read so far. -/
  seen : Nat
deriving DecidableEq, Repr

/-- A cursor over an encoding. -/
structure Decoder where
  /-- The bytes that are not read yet. -/
  rest : Bytes
  /-- The number of bytes that were read. -/
  position : Nat
  /-- The open arrays and maps, innermost first. -/
  levels : List Level
deriving DecidableEq, Repr

/-- An operation of a cursor, which changes it and may fail. -/
abbrev Cursor (α : Type) := EStateM DecodeError Decoder α

namespace Decoder

/-- A cursor at the start of an encoding. -/
def ofBytes (input : Bytes) : Decoder := ⟨input, 0, []⟩

/-- The number of open arrays and maps. -/
def depth (decoder : Decoder) : Nat := decoder.levels.length

/-- Move over a number of bytes. -/
def advance (decoder : Decoder) (count : Nat) : Decoder :=
  { decoder with rest := decoder.rest.drop count, position := decoder.position + count }

/-- The number of levels that stay open when those that are complete, or at their break, are
left. -/
def openLevels : List Level → Bytes → Nat
  | [], _ => 0
  | level :: outer, rest =>
    match level.pending, rest with
    | .items 0, rest => openLevels outer rest
    | .items (_ + 1), _ => outer.length + 1
    | .untilBreak, [] => outer.length + 1
    | .untilBreak, first :: after =>
      if first = breakByte then openLevels outer after else outer.length + 1

/-- The nesting level that the next item will have. -/
def nextLevel (decoder : Decoder) : Nat := openLevels decoder.levels decoder.rest

/-- Leave containers that are complete, or at their break, down to a least depth. A map of
indefinite length must have its break behind a whole pair. -/
def leave (minDepth : Nat) (rest : Bytes) (position : Nat) :
    List Level → EStateM.Result DecodeError Decoder Unit
  | [] => .ok () ⟨rest, position, []⟩
  | level :: outer =>
    if outer.length + 1 ≤ minDepth then .ok () ⟨rest, position, level :: outer⟩
    else
      match level.pending, rest with
      | .items 0, rest => leave minDepth rest position outer
      | .items (_ + 1), rest => .ok () ⟨rest, position, level :: outer⟩
      | .untilBreak, [] => .ok () ⟨[], position, level :: outer⟩
      | .untilBreak, first :: after =>
        if first = breakByte then
          if level.isMap ∧ level.seen % 2 = 1 then
            .error .notWellFormed ⟨first :: after, position, level :: outer⟩
          else leave minDepth after (position + 1) outer
        else .ok () ⟨first :: after, position, level :: outer⟩

/-- Leave finished containers down to a least depth. -/
def ascendTo (minDepth : Nat) : Cursor Unit := fun decoder ↦
  leave minDepth decoder.rest decoder.position decoder.levels

/-- Read a number of bytes. -/
def take (count : Nat) : Cursor Bytes := fun decoder ↦
  if reaches count decoder.rest then .ok (decoder.rest.take count) (decoder.advance count)
  else .error .hitEnd decoder

/-- Enter an array or map with a number of members or pairs, or of indefinite length. -/
def enter (count? : Option UInt64) (isMap : Bool) : Cursor Unit := fun decoder ↦
  if decoder.depth ≥ maxNesting then .error .nestingTooDeep decoder
  else
    match count? with
    | none => .ok () { decoder with levels := ⟨.untilBreak, isMap, 0⟩ :: decoder.levels }
    | some count =>
      if count.toNat > maxItems then .error .arrayTooLong decoder
      else
        let members := if isMap then 2 * count.toNat else count.toNat
        .ok () { decoder with levels := ⟨.items members, isMap, 0⟩ :: decoder.levels }

/-- Read one head. -/
def head : Cursor Head := fun decoder ↦
  match Head.read decoder.rest with
  | .error cause => .error cause decoder
  | .ok head => .ok head (decoder.advance head.length)

/-- Read the tags before an item, no more than allowed, and the head of the item. -/
def taggedHead : (allowed : Nat) → Cursor (List UInt64 × Head)
  | 0 => do
    let head ← head
    if head.major = .tag then throw .tooManyTags
    return ([], head)
  | allowed + 1 => do
    let head ← head
    if head.major = .tag then
      let (tags, last) ← taggedHead allowed
      return (head.argument :: tags, last)
    return ([], head)

/-- Count one more member of the innermost container. -/
def countMember (decoder : Decoder) : Decoder :=
  match decoder.levels with
  | [] => decoder
  | level :: outer =>
    let level := { level with pending := level.pending.pred, seen := level.seen + 1 }
    { decoder with levels := level :: outer }

/-- The text that a byte string encodes, if it is valid UTF-8. -/
def text? (content : Bytes) : Option String := String.fromUTF8? ⟨content.toArray⟩

/-- The value of a simple item or floating point number. A simple value below 32 has only its
one-byte form, and the break stands for no value. -/
def simpleValue (head : Head) : Except DecodeError ItemValue :=
  if head.info < 20 then .ok (.simple (UInt8.ofNat head.info))
  else if head.info = 20 then .ok (.bool false)
  else if head.info = 21 then .ok (.bool true)
  else if head.info = 22 then .ok .null
  else if head.info = 23 then .ok .undefined
  else if head.info = 24 then
    if head.argument < 32 then .error .notWellFormed
    else .ok (.simple head.argument.toUInt8)
  else if head.info = 25 then .ok (.float (Float.Half.toDouble ⟨head.argument.toUInt16⟩))
  else if head.info = 26 then .ok (.float (Float.Single.toDouble ⟨head.argument.toUInt32⟩))
  else if head.info = 27 then .ok (.float ⟨head.argument⟩)
  else .error .notWellFormed

/-- Read what belongs to a head: the content of a string, and the level that a container opens. -/
def value (head : Head) : Cursor ItemValue :=
  let count? := if head.isIndefinite then none else some head.argument
  match head.major with
  | .unsigned => return .unsigned head.argument
  | .negative => return .negative head.argument
  | .bytes => do
    if head.isIndefinite then throw .indefiniteString
    return .bytes (← take head.argument.toNat)
  | .text => do
    if head.isIndefinite then throw .indefiniteString
    match text? (← take head.argument.toNat) with
    | none => throw .invalidUtf8
    | some content => return .text content
  | .array => do
    enter count? false
    return .array count?
  | .map => do
    enter count? true
    return .map count?
  | .tag => throw .notWellFormed
  | .simple =>
    match simpleValue head with
    | .error cause => throw cause
    | .ok value => return value

/-- Read the next item. -/
def next : Cursor Item := do
  ascendTo 0
  let start ← get
  if start.depth = 0 ∧ start.rest = [] then throw .noMoreItems
  let (tags, head) ← taggedHead maxTags
  modify countMember
  let value ← value head
  let reached ← get
  return ⟨value, start.depth, reached.nextLevel, tags⟩

/-- Check that the input was read to its end and no container is open. -/
def finish : Cursor Unit := do
  ascendTo 0
  let reached ← get
  if reached.depth > 0 then throw .unconsumed
  if reached.rest ≠ [] then throw .extraBytes

end Decoder

end Cose.Cbor
