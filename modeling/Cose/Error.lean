import Cose.Cbor.Decoder.Reading
import Cose.Cbor.Encoder.Basic

/-!
# Failures of message operations

The causes for which making or reading a message fails, with those of the encoding underneath, and
the identifier and the text of each. What reads a message through a cursor is a `Reading Error`,
and what writes one through an encoding session is a `Session`.
-/

set_option autoImplicit false
set_option relaxedAutoImplicit false

namespace Cose

open Cbor

/-- Why an operation on headers, structures or messages failed. -/
inductive Error where
  /-- The encoding failed. -/
  | encode (cause : EncodeError)
  /-- The decoding failed. -/
  | decode (cause : DecodeError)
  /-- A critical header parameter is in the unprotected bucket. -/
  | criticalInUnprotected
  /-- A header parameter label appears more than once. -/
  | duplicateParameter
  /-- A critical header parameter was not understood. -/
  | unknownCriticalParameter
  /-- There is no room for a further header parameter. -/
  | tooManyParameters
  /-- The list of critical labels is empty, unprotected or malformed. -/
  | badCritParameter
  /-- There are more critical parameters than their list may hold. -/
  | tooManyCriticalParameters
  /-- An item of one type stands where another was expected. -/
  | unexpectedItem (got want : String)
  /-- A value is not registered. -/
  | unregisteredValue
  /-- An algorithm does not support the operation. -/
  | unsupportedAlgorithm
  /-- A key cannot be used with the algorithm. -/
  | wrongKeyType
  /-- The check of a signature, authentication tag or ciphertext failed. -/
  | verificationFailed
  /-- The cryptographic layer found signs of corruption. -/
  | tamperingDetected
  /-- The cryptographic layer failed in another way. -/
  | cryptoFailure
  /-- The cryptographic layer ran out of memory. -/
  | insufficientMemory
  /-- A message carries another tag than required. -/
  | unexpectedTag (got : UInt64)
  /-- A message lacks the required tag. -/
  | missingTag (want : UInt64)
  /-- A detached payload is needed and was not supplied. -/
  | noPayload
deriving DecidableEq, Repr

/-- The identifier of a failure. -/
def Error.name : Error → String
  | encode cause => "Encode(" ++ cause.name ++ ")"
  | decode cause => "Decode(" ++ cause.name ++ ")"
  | criticalInUnprotected => "CriticalInUnprotected"
  | duplicateParameter => "DuplicateParameter"
  | unknownCriticalParameter => "UnknownCriticalParameter"
  | tooManyParameters => "TooManyParameters"
  | badCritParameter => "BadCritParameter"
  | tooManyCriticalParameters => "TooManyCriticalParameters"
  | unexpectedItem _ _ => "UnexpectedItem"
  | unregisteredValue => "UnregisteredIanaValue"
  | unsupportedAlgorithm => "UnsupportedAlgorithm"
  | wrongKeyType => "WrongKeyType"
  | verificationFailed => "VerificationFailed"
  | tamperingDetected => "TamperingDetected"
  | cryptoFailure => "CryptoFailure"
  | insufficientMemory => "InsufficientMemory"
  | unexpectedTag _ => "UnexpectedTag"
  | missingTag _ => "MissingTag"
  | noPayload => "NoPayload"

/-- The causes that carry nothing further. -/
def Error.plain : List Error :=
  [.criticalInUnprotected, .duplicateParameter, .unknownCriticalParameter, .tooManyParameters,
   .badCritParameter, .tooManyCriticalParameters, .unregisteredValue, .unsupportedAlgorithm,
   .wrongKeyType, .verificationFailed, .tamperingDetected, .cryptoFailure, .insufficientMemory,
   .noPayload]

/-- The cause with an identifier, if that is one of the causes that carry nothing further. -/
def Error.ofName? (name : String) : Option Error := plain.find? fun cause ↦ cause.name == name

/-- The text of a failure. -/
def Error.message : Error → String
  | encode cause => "encode CBOR failure: " ++ cause.message
  | decode cause => "decode CBOR failure: " ++ cause.message
  | criticalInUnprotected => "critical parameter in unprotected header"
  | duplicateParameter => "duplicate header parameter"
  | unknownCriticalParameter => "critical header parameter not understood"
  | tooManyParameters => "too many header parameters"
  | badCritParameter => "malformed crit header parameter"
  | tooManyCriticalParameters => "too many critical parameters"
  | unexpectedItem got want => "got " ++ got ++ ", expected " ++ want
  | unregisteredValue => "expected recognized IANA value"
  | unsupportedAlgorithm => "unsupported algorithm"
  | wrongKeyType => "wrong key type for algorithm"
  | verificationFailed => "verification failed"
  | tamperingDetected => "tampering detected"
  | cryptoFailure => "crypto failure"
  | insufficientMemory => "insufficient memory"
  | unexpectedTag got => "unexpected tag " ++ toString got.toNat
  | missingTag want => "missing tag " ++ toString want.toNat
  | noPayload => "no payload"

instance : CursorError Error := ⟨Error.decode⟩

/-- A program that works on an encoding session and may fail. The session is kept when it does. -/
abbrev Session (α : Type) := EStateM Error Encoder α

/-- Fail with the failure of the encoding session, if it has one. -/
def Session.check : Session Unit := do
  match (← get).error with
  | none => return
  | some cause => throw (.encode cause)

end Cose
