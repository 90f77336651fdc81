import Cose.Cbor.Encoder.Container
import Cose.Registry.Algorithm
import Cose.Structure.Basic

/-!
# The context of a key derivation

A key derivation takes as context an array of the algorithm that the key is for, what is known of
the two parties, public information with the length of the key, and private information.
-/

set_option autoImplicit false
set_option relaxedAutoImplicit false

namespace Cose

open Cbor

/-- A value used once. -/
inductive Nonce where
  | bytes (content : Bytes)
  | int (number : Int64)
deriving DecidableEq, Repr

/-- Append a byte string, or null in its absence. -/
def appendBytesOrNull (encoder : Encoder) : Option Bytes → Encoder
  | some content => encoder.appendBytes content
  | none => encoder.appendNull

/-- A party of a key derivation. -/
structure PartyInfo where
  identity? : Option Bytes
  nonce? : Option Nonce
  other? : Option Bytes
deriving DecidableEq, Repr, Inhabited

/-- Append what is known of a party. -/
def PartyInfo.append (party : PartyInfo) (encoder : Encoder) : Encoder :=
  let identified := appendBytesOrNull encoder.openArray party.identity?
  let fresh :=
    match party.nonce? with
    | none => identified.appendNull
    | some (.bytes content) => identified.appendBytes content
    | some (.int number) => identified.appendInt number
  (appendBytesOrNull fresh party.other?).closeArray

/-- The public information of a key derivation. -/
structure SuppPubInfo where
  /-- The length of the derived key, in bits. -/
  keyDataLength : UInt64
  /-- The protected headers of the layer that the key is for. -/
  protectedBytes : Bytes
  other? : Option Bytes
deriving DecidableEq, Repr, Inhabited

namespace SuppPubInfo

/-- The public information for a key of an algorithm, whose key length must be known. -/
def forAlgorithm (algorithm : Algorithm) (protectedBytes : Bytes) : Except Error SuppPubInfo :=
  match algorithm.keyBits? with
  | some keyDataLength => .ok ⟨keyDataLength, protectedBytes, none⟩
  | none => .error .unsupportedAlgorithm

/-- Append public information. -/
def append (info : SuppPubInfo) (encoder : Encoder) : Encoder :=
  let opened := (encoder.openArray.appendUnsigned info.keyDataLength).appendBytes
    info.protectedBytes
  match info.other? with
  | some other => (opened.appendBytes other).closeArray
  | none => opened.closeArray

end SuppPubInfo

/-- The context of a key derivation. -/
structure KdfContext where
  /-- The algorithm that the key is for. -/
  algorithmId : Int64
  partyU : PartyInfo
  partyV : PartyInfo
  suppPub : SuppPubInfo
  suppPriv? : Option Bytes
deriving DecidableEq, Repr, Inhabited

namespace KdfContext

/-- Append the structure to a session. -/
def append (context : KdfContext) (encoder : Encoder) : Encoder :=
  let opened := encoder.openArray.appendInt context.algorithmId
  let parties := context.partyV.append (context.partyU.append opened)
  let informed := context.suppPub.append parties
  match context.suppPriv? with
  | some suppPriv => (informed.appendBytes suppPriv).closeArray
  | none => informed.closeArray

/-- The encoded structure. -/
def build (context : KdfContext) : Except Error Bytes := Cose.build context.append

/-- The encoded structure, written into a region of fixed capacity. -/
def buildWithin (context : KdfContext) (capacity : Nat) : Except Error Bytes :=
  Cose.buildWithin capacity context.append

/-- The length of the encoded structure. -/
def size (context : KdfContext) : Except Error Nat := Cose.buildSize context.append

end KdfContext

end Cose
