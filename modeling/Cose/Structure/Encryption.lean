import Cose.Cbor.Encoder.Container
import Cose.Structure.Basic

/-!
# The additional data of an encryption

An authenticated encryption takes as additional data an array of a context text, the protected
headers and the additional data of the application.
-/

set_option autoImplicit false
set_option relaxedAutoImplicit false

namespace Cose

open Cbor

/-- The contexts of encryptions. -/
inductive EncryptionContext where
  /-- A message with recipients. -/
  | encrypt
  /-- A message without recipients. -/
  | encrypt0
  /-- A recipient of an encrypted message. -/
  | encRecipient
  /-- A recipient of an authenticated message. -/
  | macRecipient
  /-- A recipient of a recipient. -/
  | recRecipient
deriving DecidableEq, Repr

/-- The text of a context. -/
def EncryptionContext.text : EncryptionContext → String
  | encrypt => "Encrypt"
  | encrypt0 => "Encrypt0"
  | encRecipient => "Enc_Recipient"
  | macRecipient => "Mac_Recipient"
  | recRecipient => "Rec_Recipient"

/-- What the additional data of an encryption is made of. -/
structure EncryptionAad where
  context : EncryptionContext
  protectedBytes : Bytes
  externalAad : Bytes
deriving DecidableEq, Repr

namespace EncryptionAad

/-- Append the structure to a session. -/
def append (aad : EncryptionAad) (encoder : Encoder) : Encoder :=
  (((encoder.openArray.appendText aad.context.text).appendBytes aad.protectedBytes).appendBytes
    aad.externalAad).closeArray

/-- The encoded structure. -/
def build (aad : EncryptionAad) : Except Error Bytes := Cose.build aad.append

/-- The encoded structure, written into a region of fixed capacity. -/
def buildWithin (aad : EncryptionAad) (capacity : Nat) : Except Error Bytes :=
  Cose.buildWithin capacity aad.append

end EncryptionAad

end Cose
