import Cose.Cbor.Encoder.Container
import Cose.Structure.Basic

/-!
# The structure that is authenticated

An authentication tag covers an array of a context text, the protected headers, additional data
and the payload.
-/

set_option autoImplicit false
set_option relaxedAutoImplicit false

namespace Cose

open Cbor

/-- The contexts of authentication tags. -/
inductive MacContext where
  /-- A message with recipients. -/
  | mac
  /-- A message without recipients. -/
  | mac0
deriving DecidableEq, Repr

/-- The text of a context. -/
def MacContext.text : MacContext → String
  | mac => "MAC"
  | mac0 => "MAC0"

/-- The array head and the encoded context text that open the structure. -/
def MacContext.opening : MacContext → Bytes
  | mac => 0x84 :: 0x63 :: "MAC".toUTF8.toList
  | mac0 => 0x84 :: 0x64 :: "MAC0".toUTF8.toList

/-- What an authentication tag is computed over. -/
structure MacInputs where
  context : MacContext
  protectedBytes : Bytes
  externalAad : Bytes
  payload : Bytes
deriving DecidableEq, Repr

namespace MacInputs

/-- The parts of the structure in order. -/
def chunks (inputs : MacInputs) : List Bytes :=
  inputs.context.opening :: bytesChunks inputs.protectedBytes ++
    bytesChunks inputs.externalAad ++ bytesChunks inputs.payload

/-- Append the structure to a session. -/
def append (inputs : MacInputs) (encoder : Encoder) : Encoder :=
  let opened := encoder.openArray.appendText inputs.context.text
  (((opened.appendBytes inputs.protectedBytes).appendBytes inputs.externalAad).appendBytes
    inputs.payload).closeArray

/-- The encoded structure. -/
def build (inputs : MacInputs) : Except Error Bytes := Cose.build inputs.append

/-- The encoded structure, written into a region of fixed capacity. -/
def buildWithin (inputs : MacInputs) (capacity : Nat) : Except Error Bytes :=
  Cose.buildWithin capacity inputs.append

end MacInputs

end Cose
