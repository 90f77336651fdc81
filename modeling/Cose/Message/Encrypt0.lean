import Cose.Message.Basic
import Cose.Structure.Encryption

/-!
# Encrypted messages

The array of an encrypted message holds the headers and the ciphertext or null. The encryption
itself is the caller's, in any monad; it is given the additional data already encoded.
-/

set_option autoImplicit false
set_option relaxedAutoImplicit false

namespace Cose

open Cbor

/-- Write an encrypted message into a session, which stays open. The cipher is called once, and
only if the headers could be written. A ciphertext that is conveyed otherwise is returned. -/
def encodeEncrypt0 {m : Type → Type} [Monad m] (message : Message)
    (encrypt : (plaintext aad : Bytes) → m (Except Error Bytes)) (encoder : Encoder) :
    m (EStateM.Result Error Encoder (Option Bytes)) :=
  match encodeHeaderItems encoder.rules message.parameters with
  | .error cause => pure (.error cause encoder)
  | .ok headers =>
    let aad : EncryptionAad := ⟨.encrypt0, headers.protectedBytes, message.externalAad⟩
    match aad.build with
    | .error cause => pure (.error cause encoder)
    | .ok aad => do
      match ← encrypt message.payload aad with
      | .error cause => pure (.error cause encoder)
      | .ok ciphertext =>
        match appendMessage (message.tag? .encrypt0) headers (message.appendContent ciphertext)
            encoder with
        | .error cause encoder => pure (.error cause encoder)
        | .ok _ encoder =>
          pure (.ok (if message.isDetached then some ciphertext else none) encoder)

/-- An encrypted message that was read. -/
structure DecodedEncrypt0 where
  headers : DecodedHeaders
  /-- The ciphertext, `none` if it is conveyed otherwise. -/
  ciphertext? : Option Bytes

/-- Decrypt a message. A ciphertext that was conveyed otherwise is used only if the message holds
none. -/
def DecodedEncrypt0.decrypt {m : Type → Type} [Monad m] (message : DecodedEncrypt0)
    (externalAad : Bytes) (detached? : Option Bytes)
    (cipher : (ciphertext aad : Bytes) → m (Except Error Bytes)) : m (Except Error Bytes) :=
  match message.ciphertext? <|> detached? with
  | none => pure (.error .noPayload)
  | some ciphertext =>
    let aad : EncryptionAad := ⟨.encrypt0, message.headers.protectedBytes, externalAad⟩
    match aad.build with
    | .error cause => pure (.error cause)
    | .ok aad => cipher ciphertext aad

/-- Read an encrypted message to the end of the encoding. -/
def readEncrypt0 (policy : TagPolicy) (readers : List (Int64 × ParameterReader))
    (capacity : Nat) : Reading Error DecodedEncrypt0 := do
  readMessageArray policy .encrypt0 3
  let headers ← readHeaders readers capacity
  let ciphertext? ← Reading.ofExcept (expectBytesOrNull (← Reading.next))
  Reading.finish
  return ⟨headers, ciphertext?⟩

/-- The encrypted message that an encoding holds. -/
def decodeEncrypt0 (input : Bytes) (policy : TagPolicy)
    (readers : List (Int64 × ParameterReader)) (capacity : Nat) : Except Error DecodedEncrypt0 :=
  Reading.decode (readEncrypt0 policy readers capacity) input

end Cose
