/-!
# Registered header labels

The labels of header parameters common to all messages, and of the parameters of particular
algorithms.
-/

set_option autoImplicit false
set_option relaxedAutoImplicit false

namespace Cose

/-- The labels of common header parameters. -/
inductive HeaderLabel where
  | reserved
  /-- The algorithm of the message. -/
  | alg
  /-- The labels that a recipient must understand. -/
  | crit
  /-- The content type of the payload. -/
  | contentType
  /-- The identifier of the key. -/
  | kid
  /-- The full initialization vector. -/
  | iv
  /-- A part of the initialization vector. -/
  | partialIv
  /-- A counter signature. -/
  | counterSignature
  /-- An abbreviated counter signature. -/
  | counterSignature0
  /-- The context of the key identifier. -/
  | kidContext
deriving DecidableEq, Repr

namespace HeaderLabel

/-- Every registered value, in the order of its code. -/
def all : List HeaderLabel :=
  [reserved, alg, crit, contentType, kid, iv, partialIv, counterSignature, counterSignature0,
   kidContext]

/-- The registered code of a value. -/
def code : HeaderLabel → Int64
  | reserved => 0
  | alg => 1
  | crit => 2
  | contentType => 3
  | kid => 4
  | iv => 5
  | partialIv => 6
  | counterSignature => 7
  | counterSignature0 => 9
  | kidContext => 10

/-- The identifier of a registered value. -/
def name : HeaderLabel → String
  | reserved => "Reserved"
  | alg => "Alg"
  | crit => "Crit"
  | contentType => "ContentType"
  | kid => "Kid"
  | iv => "Iv"
  | partialIv => "PartialIv"
  | counterSignature => "CounterSignature"
  | counterSignature0 => "CounterSignature0"
  | kidContext => "KidContext"

/-- The value registered under a code. -/
def ofCode? (code : Int64) : Option HeaderLabel := all.find? fun value ↦ value.code == code

/-- No two values are registered under one code. -/
@[simp]
theorem ofCode?_code (value : HeaderLabel) : ofCode? value.code = some value := by
  cases value <;> decide

/-- Whether a code is in the range for private use. -/
def isPrivate (code : Int64) : Bool := code < -65536

end HeaderLabel

/-- The labels of header parameters of particular algorithms. -/
inductive AlgorithmLabel where
  | partyVOther
  | partyVNonce
  | partyVIdentity
  | partyUOther
  | partyUNonce
  | partyUIdentity
  /-- The random salt of a key derivation. -/
  | salt
  | hpkeSenderInfo
  | staticKeyId
  | staticKey
  /-- The ephemeral public key of the sender. -/
  | ephemeralKey
deriving DecidableEq, Repr

namespace AlgorithmLabel

/-- Every registered value, in the order of its code. -/
def all : List AlgorithmLabel :=
  [partyVOther, partyVNonce, partyVIdentity, partyUOther, partyUNonce, partyUIdentity, salt,
   hpkeSenderInfo, staticKeyId, staticKey, ephemeralKey]

/-- The registered code of a value. -/
def code : AlgorithmLabel → Int64
  | partyVOther => -26
  | partyVNonce => -25
  | partyVIdentity => -24
  | partyUOther => -23
  | partyUNonce => -22
  | partyUIdentity => -21
  | salt => -20
  | hpkeSenderInfo => -4
  | staticKeyId => -3
  | staticKey => -2
  | ephemeralKey => -1

/-- The identifier of a registered value. -/
def name : AlgorithmLabel → String
  | partyVOther => "PartyVOther"
  | partyVNonce => "PartyVNonce"
  | partyVIdentity => "PartyVIdentity"
  | partyUOther => "PartyUOther"
  | partyUNonce => "PartyUNonce"
  | partyUIdentity => "PartyUIdentity"
  | salt => "Salt"
  | hpkeSenderInfo => "HpkeSenderInfo"
  | staticKeyId => "StaticKeyId"
  | staticKey => "StaticKey"
  | ephemeralKey => "EphemeralKey"

/-- The value registered under a code. -/
def ofCode? (code : Int64) : Option AlgorithmLabel := all.find? fun value ↦ value.code == code

/-- No two values are registered under one code. -/
@[simp]
theorem ofCode?_code (value : AlgorithmLabel) : ofCode? value.code = some value := by
  cases value <;> decide

end AlgorithmLabel

end Cose
