import Cose.Message.Basic
import Cose.Structure.Mac

/-!
# Messages with an authentication tag

The array of an authenticated message holds the headers, the payload or null, and the tag. The
tag itself is computed and checked by the caller, in any monad.
-/

set_option autoImplicit false
set_option relaxedAutoImplicit false

namespace Cose

open Cbor

/-- Write an authenticated message into a session, which stays open. The authenticator is called
once, and only if the headers could be written. -/
def encodeMac0 {m : Type → Type} [Monad m] (message : Message)
    (authenticate : MacInputs → m (Except Error Bytes)) (encoder : Encoder) :
    m (EStateM.Result Error Encoder Unit) :=
  match encodeHeaderItems encoder.rules message.parameters with
  | .error cause => pure (.error cause encoder)
  | .ok headers => do
    let inputs : MacInputs :=
      ⟨.mac0, headers.protectedBytes, message.externalAad, message.payload⟩
    match ← authenticate inputs with
    | .error cause => pure (.error cause encoder)
    | .ok tag =>
      let appendRest := fun encoder ↦
        (message.appendContent message.payload encoder).appendBytes tag
      pure (appendMessage (message.tag? .mac0) headers appendRest encoder)

/-- An authenticated message that was read. -/
structure DecodedMac0 where
  headers : DecodedHeaders
  /-- The payload, `none` if it is conveyed otherwise. -/
  payload? : Option Bytes
  tag : Bytes

/-- Check the tag of a message. A payload that was conveyed otherwise is used only if the message
holds none. -/
def DecodedMac0.verify {m : Type → Type} [Monad m] (message : DecodedMac0) (externalAad : Bytes)
    (detached? : Option Bytes) (check : (tag : Bytes) → MacInputs → m (Except Error Unit)) :
    m (Except Error Unit) :=
  match message.payload? <|> detached? with
  | none => pure (.error .noPayload)
  | some payload =>
    check message.tag ⟨.mac0, message.headers.protectedBytes, externalAad, payload⟩

/-- Read an authenticated message to the end of the encoding. -/
def readMac0 (policy : TagPolicy) (readers : List (Int64 × ParameterReader)) (capacity : Nat) :
    Reading Error DecodedMac0 := do
  readMessageArray policy .mac0 4
  let headers ← readHeaders readers capacity
  let payload? ← Reading.ofExcept (expectBytesOrNull (← Reading.next))
  let tag ← Reading.ofExcept (expectBytes (← Reading.next))
  Reading.finish
  return ⟨headers, payload?, tag⟩

/-- The authenticated message that an encoding holds. -/
def decodeMac0 (input : Bytes) (policy : TagPolicy) (readers : List (Int64 × ParameterReader))
    (capacity : Nat) : Except Error DecodedMac0 :=
  Reading.decode (readMac0 policy readers capacity) input

end Cose
