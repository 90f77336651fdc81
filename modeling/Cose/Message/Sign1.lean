import Cose.Message.Basic
import Cose.Structure.Signature

/-!
# Messages with one signature

The array of a signed message holds the headers, the payload or null, and the signature. The
signature itself is computed and checked by the caller, in any monad.
-/

set_option autoImplicit false
set_option relaxedAutoImplicit false

namespace Cose

open Cbor

/-- Write a signed message into a session, which stays open. The signer is called once, and only
if the headers could be written. -/
def encodeSign1 {m : Type → Type} [Monad m] (message : Message)
    (sign : SignInputs → m (Except Error Bytes)) (encoder : Encoder) :
    m (EStateM.Result Error Encoder Unit) :=
  match encodeHeaderItems encoder.rules message.parameters with
  | .error cause => pure (.error cause encoder)
  | .ok headers => do
    let inputs : SignInputs := ⟨headers.protectedBytes, none, message.externalAad, message.payload⟩
    match ← sign inputs with
    | .error cause => pure (.error cause encoder)
    | .ok signature =>
      let appendRest := fun encoder ↦
        (message.appendContent message.payload encoder).appendBytes signature
      pure (appendMessage (message.tag? .sign1) headers appendRest encoder)

/-- A signed message that was read. -/
structure DecodedSign1 where
  headers : DecodedHeaders
  /-- The payload, `none` if it is conveyed otherwise. -/
  payload? : Option Bytes
  signature : Bytes

/-- Check the signature of a message. A payload that was conveyed otherwise is used only if the
message holds none. -/
def DecodedSign1.verify {m : Type → Type} [Monad m] (message : DecodedSign1) (externalAad : Bytes)
    (detached? : Option Bytes) (check : (signature : Bytes) → SignInputs → m (Except Error Unit)) :
    m (Except Error Unit) :=
  match message.payload? <|> detached? with
  | none => pure (.error .noPayload)
  | some payload =>
    check message.signature ⟨message.headers.protectedBytes, none, externalAad, payload⟩

/-- Read a signed message to the end of the encoding. -/
def readSign1 (policy : TagPolicy) (readers : List (Int64 × ParameterReader)) (capacity : Nat) :
    Reading Error DecodedSign1 := do
  readMessageArray policy .sign1 4
  let headers ← readHeaders readers capacity
  let payload? ← Reading.ofExcept (expectBytesOrNull (← Reading.next))
  let signature ← Reading.ofExcept (expectBytes (← Reading.next))
  Reading.finish
  return ⟨headers, payload?, signature⟩

/-- The signed message that an encoding holds. -/
def decodeSign1 (input : Bytes) (policy : TagPolicy) (readers : List (Int64 × ParameterReader))
    (capacity : Nat) : Except Error DecodedSign1 :=
  Reading.decode (readSign1 policy readers capacity) input

end Cose
