import Cose.Header.Decode
import Cose.Registry.MessageTag
import Cose.TagPolicy

/-!
# Messages

All messages are arrays that start with the two header buckets. The headers are written in a
session of their own first, because the cryptography needs the protected ones before the message
can be completed; a failure there leaves the session of the caller alone.
-/

set_option autoImplicit false
set_option relaxedAutoImplicit false

namespace Cose

open Cbor

/-- A message to be written. -/
structure Message where
  parameters : List Parameter
  externalAad : Bytes
  /-- The payload, or the plaintext of a message that is encrypted. -/
  payload : Bytes
  /-- Whether the payload or ciphertext is left out of the message and conveyed otherwise. -/
  isDetached : Bool
  /-- Whether the message carries its tag. -/
  isTagged : Bool

/-- Encoded header buckets. -/
structure HeaderItems where
  /-- The content of the protected byte string. -/
  protectedBytes : Bytes
  /-- The protected byte string as an item. -/
  protectedItem : Bytes
  /-- The unprotected map as an item. -/
  unprotectedItem : Bytes
deriving DecidableEq, Repr

/-- Encode the header buckets in a fresh session with the given rules. -/
def encodeHeaderItems (rules : Rules) (parameters : List Parameter) : Except Error HeaderItems :=
  match encodeHeaders parameters (.growable rules) with
  | .error cause _ => .error cause
  | .ok span encoder =>
    match encoder.finish with
    | .error cause => .error (.encode cause)
    | .ok items =>
      .ok ⟨(items.take span.stop).drop span.start, items.take span.stop, items.drop span.stop⟩

/-- Append a message array: its tag, both header buckets and what follows them. -/
def appendMessage (tag? : Option MessageTag) (headers : HeaderItems)
    (appendRest : Encoder → Encoder) : Session Unit := do
  modify fun encoder ↦
    let tagged :=
      match tag? with
      | some tag => encoder.addTag tag.number
      | none => encoder
    let opened := (tagged.openArray.appendEncoded headers.protectedItem).appendEncoded
      headers.unprotectedItem
    (appendRest opened).closeArray
  Session.check

/-- The tag of a message, if the message carries one. -/
def Message.tag? (message : Message) (tag : MessageTag) : Option MessageTag :=
  if message.isTagged then some tag else none

/-- Append a byte string of a message, or null if it is conveyed otherwise. -/
def Message.appendContent (message : Message) (content : Bytes) (encoder : Encoder) : Encoder :=
  if message.isDetached then encoder.appendNull else encoder.appendBytes content

/-- Check the outer array of a message: its tags, and the number of its members. -/
def readMessageArray (policy : TagPolicy) (tag : MessageTag) (length : UInt64) :
    Reading Error Unit := do
  let array ← Reading.next
  Reading.ofExcept (policy.check tag.number array)
  Reading.ofExcept (expectArray array length)

end Cose
