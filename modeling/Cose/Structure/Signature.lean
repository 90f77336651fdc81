import Cose.Cbor.Encoder.Container
import Cose.Structure.Basic

/-!
# The structure that is signed

A signature covers an array of a context text, the protected headers of the message, those of the
signer if there are several signers, additional data and the payload. `SignInputs.build` makes it
whole, and `SignInputs.chunks` are its parts for a hash that is fed piece by piece.
-/

set_option autoImplicit false
set_option relaxedAutoImplicit false

namespace Cose

open Cbor

/-- The contexts of signatures. -/
inductive SignatureContext where
  /-- One signer among several. -/
  | signature
  /-- The only signer. -/
  | signature1
deriving DecidableEq, Repr

/-- The text of a context. -/
def SignatureContext.text : SignatureContext → String
  | signature => "Signature"
  | signature1 => "Signature1"

/-- The array head and the encoded context text that open the structure. -/
def SignatureContext.opening : SignatureContext → Bytes
  | signature => 0x85 :: 0x69 :: "Signature".toUTF8.toList
  | signature1 => 0x84 :: 0x6a :: "Signature1".toUTF8.toList

/-- What a signature is computed over. -/
structure SignInputs where
  /-- The protected headers of the message. -/
  bodyProtected : Bytes
  /-- The protected headers of the signer, if it is one of several. -/
  signProtected? : Option Bytes
  externalAad : Bytes
  payload : Bytes
deriving DecidableEq, Repr

namespace SignInputs

/-- The context of a signature. -/
def context (inputs : SignInputs) : SignatureContext :=
  match inputs.signProtected? with
  | some _ => .signature
  | none => .signature1

/-- The parts of the structure in order. -/
def chunks (inputs : SignInputs) : List Bytes :=
  let signer :=
    match inputs.signProtected? with
    | some signProtected => bytesChunks signProtected
    | none => []
  inputs.context.opening :: bytesChunks inputs.bodyProtected ++ signer ++
    bytesChunks inputs.externalAad ++ bytesChunks inputs.payload

/-- Append the structure to a session. -/
def append (inputs : SignInputs) (encoder : Encoder) : Encoder :=
  let opened := (encoder.openArray.appendText inputs.context.text).appendBytes inputs.bodyProtected
  let signed :=
    match inputs.signProtected? with
    | some signProtected => opened.appendBytes signProtected
    | none => opened
  ((signed.appendBytes inputs.externalAad).appendBytes inputs.payload).closeArray

/-- The encoded structure. -/
def build (inputs : SignInputs) : Except Error Bytes := Cose.build inputs.append

/-- The encoded structure, written into a region of fixed capacity. -/
def buildWithin (inputs : SignInputs) (capacity : Nat) : Except Error Bytes :=
  Cose.buildWithin capacity inputs.append

end SignInputs

end Cose
