import Mathlib.Tactic.Common
import Cose.Proofs.Cbor.Canonical
import Cose.Proofs.Session.Capacity
import Cose.Proofs.Session.Measuring
import Cose.Structure.Encryption
import Cose.Structure.KeyDerivation
import Cose.Structure.Mac
import Cose.Structure.Signature

/-!
# The structures as encodings of values

Each structure is appended as one generic value (`CryptoInput.append_eq`), so it is built with
success if and only if its encoding is short enough, and then it is that encoding
(`CryptoInput.build_eq_ok_iff`). The parts that are fed to a hash are the same bytes
(`SignInputs.flatten_chunks`, `MacInputs.flatten_chunks`), and a region holds them if it is no
shorter (`CryptoInput.buildWithin_of_build`): `CryptoInput.build_feed_buildWithin_size`.
-/

set_option autoImplicit false
set_option relaxedAutoImplicit false

namespace Cose

open Cbor

/-! ### Structures as values -/

/-- An integer as a generic value. -/
def Cbor.Value.ofInt (number : Int64) : Value :=
  match number.toInt with
  | .ofNat n => .unsigned (UInt64.ofNat n)
  | .negSucc n => .negative (UInt64.ofNat n)

/-- A byte string as a generic value, or null in its absence. -/
def Cbor.Value.ofBytes? : Option Bytes → Value
  | some content => .bytes content
  | none => .null

/-- The generic value that is signed. -/
def SignInputs.value (inputs : SignInputs) : Value :=
  .array (.text inputs.context.text :: .bytes inputs.bodyProtected ::
    (inputs.signProtected?.toList.map .bytes ++ [.bytes inputs.externalAad, .bytes inputs.payload]))

/-- The generic value that is authenticated. -/
def MacInputs.value (inputs : MacInputs) : Value :=
  .array [.text inputs.context.text, .bytes inputs.protectedBytes, .bytes inputs.externalAad,
    .bytes inputs.payload]

/-- The generic value that is the additional data of an encryption. -/
def EncryptionAad.value (aad : EncryptionAad) : Value :=
  .array [.text aad.context.text, .bytes aad.protectedBytes, .bytes aad.externalAad]

/-- A nonce as a generic value, or null in its absence. -/
def Nonce.value? : Option Nonce → Value
  | some (.bytes content) => .bytes content
  | some (.int number) => .ofInt number
  | none => .null

/-- What is known of a party as a generic value. -/
def PartyInfo.value (party : PartyInfo) : Value :=
  .array [.ofBytes? party.identity?, Nonce.value? party.nonce?, .ofBytes? party.other?]

/-- Public information as a generic value. -/
def SuppPubInfo.value (info : SuppPubInfo) : Value :=
  .array (.unsigned info.keyDataLength :: .bytes info.protectedBytes ::
    info.other?.toList.map .bytes)

/-- The generic value that is the context of a key derivation. -/
def KdfContext.value (context : KdfContext) : Value :=
  .array (.ofInt context.algorithmId :: context.partyU.value :: context.partyV.value ::
    context.suppPub.value :: context.suppPriv?.toList.map .bytes)

/-- What cryptography works on: a structure of any of the four kinds. -/
inductive CryptoInput where
  | signature (inputs : SignInputs)
  | mac (inputs : MacInputs)
  | encryption (aad : EncryptionAad)
  | keyDerivation (context : KdfContext)
deriving DecidableEq

namespace CryptoInput

/-- Append a structure to a session. -/
def append : CryptoInput → Encoder → Encoder
  | signature inputs => inputs.append
  | mac inputs => inputs.append
  | encryption aad => aad.append
  | keyDerivation context => context.append

/-- The encoded structure. -/
def build : CryptoInput → Except Error Bytes
  | signature inputs => inputs.build
  | mac inputs => inputs.build
  | encryption aad => aad.build
  | keyDerivation context => context.build

/-- The encoded structure, written into a region of fixed capacity. -/
def buildWithin : CryptoInput → (capacity : Nat) → Except Error Bytes
  | signature inputs => inputs.buildWithin
  | mac inputs => inputs.buildWithin
  | encryption aad => aad.buildWithin
  | keyDerivation context => context.buildWithin

/-- A structure as a generic value. -/
def value : CryptoInput → Value
  | signature inputs => inputs.value
  | mac inputs => inputs.value
  | encryption aad => aad.value
  | keyDerivation context => context.value

end CryptoInput

/-! ### Structures are appended as values -/

section Append

variable (encoder : Encoder)

theorem appendInt_eq (number : Int64) :
    encoder.appendInt number = encoder.appendValue (.ofInt number) := by
  unfold Encoder.appendInt Value.ofInt
  cases number.toInt <;> rfl

theorem appendBytesOrNull_eq (content? : Option Bytes) :
    appendBytesOrNull encoder content? = encoder.appendValue (.ofBytes? content?) := by
  cases content? <;> rfl

theorem SignInputs.append_eq (inputs : SignInputs) :
    inputs.append encoder = encoder.appendValue inputs.value := by
  obtain ⟨_, signProtected?, _, _⟩ := inputs
  cases signProtected? <;> rfl

theorem PartyInfo.append_eq (party : PartyInfo) :
    party.append encoder = encoder.appendValue party.value := by
  obtain ⟨identity?, nonce?, other?⟩ := party
  unfold append
  simp only [appendBytesOrNull_eq]
  rcases nonce? with _ | ⟨content | number⟩
  · rfl
  · rfl
  · simp only [appendInt_eq]
    rfl

theorem SuppPubInfo.append_eq (info : SuppPubInfo) :
    info.append encoder = encoder.appendValue info.value := by
  obtain ⟨_, _, other?⟩ := info
  cases other? <;> rfl

theorem KdfContext.append_eq (context : KdfContext) :
    context.append encoder = encoder.appendValue context.value := by
  obtain ⟨algorithmId, partyU, partyV, suppPub, suppPriv?⟩ := context
  unfold append
  simp only [appendInt_eq, PartyInfo.append_eq, SuppPubInfo.append_eq]
  cases suppPriv? <;> rfl

/-- A structure is appended as one value. -/
theorem CryptoInput.append_eq (input : CryptoInput) :
    input.append encoder = encoder.appendValue input.value := by
  cases input with
  | signature inputs => exact inputs.append_eq encoder
  | mac inputs => rfl
  | encryption aad => rfl
  | keyDerivation context => exact context.append_eq encoder

end Append

/-! ### Structures are within the limits -/

namespace Cbor.Value

theorem bounded_ofInt (number : Int64) (depth tags : Nat) :
    (ofInt number).Bounded depth tags := by
  unfold ofInt
  cases number.toInt <;> trivial

theorem bounded_ofBytes? (content? : Option Bytes) (depth tags : Nat) :
    (ofBytes? content?).Bounded depth tags := by
  cases content? <;> trivial

end Cbor.Value

section Bounded

open Value

theorem Nonce.bounded_value? (nonce? : Option Nonce) (depth tags : Nat) :
    (value? nonce?).Bounded depth tags := by
  rcases nonce? with _ | ⟨content | number⟩
  · trivial
  · trivial
  · exact bounded_ofInt number depth tags

theorem PartyInfo.bounded_value (party : PartyInfo) : party.value.Bounded 1 0 := by
  simp [value, Bounded, AllBounded, maxNesting, maxItems, bounded_ofBytes?, Nonce.bounded_value?]

theorem SuppPubInfo.bounded_value (info : SuppPubInfo) : info.value.Bounded 1 0 := by
  obtain ⟨_, _, other?⟩ := info
  cases other? <;> simp [value, Bounded, AllBounded, maxNesting, maxItems]

/-- A structure has few members and little nesting. -/
theorem CryptoInput.bounded_value (input : CryptoInput) : input.value.Bounded 0 0 := by
  cases input with
  | signature inputs =>
    obtain ⟨_, signProtected?, _, _⟩ := inputs
    cases signProtected? <;>
      simp [value, SignInputs.value, Bounded, AllBounded, maxNesting, maxItems]
  | mac inputs => simp [value, MacInputs.value, Bounded, AllBounded, maxNesting, maxItems]
  | encryption aad => simp [value, EncryptionAad.value, Bounded, AllBounded, maxNesting, maxItems]
  | keyDerivation context =>
    obtain ⟨_, partyU, partyV, suppPub, suppPriv?⟩ := context
    cases suppPriv? <;>
      simp [value, KdfContext.value, Bounded, AllBounded, maxNesting, maxItems, bounded_ofInt,
        PartyInfo.bounded_value, SuppPubInfo.bounded_value]

end Bounded

/-! ### Building -/

theorem mapError_eq_ok_iff {ε δ α : Type} {result : Except ε α} {function : ε → δ} {value : α} :
    result.mapError function = .ok value ↔ result = .ok value := by
  cases result <;> simp [Except.mapError]

namespace CryptoInput

variable (input : CryptoInput)

/-- The encoding of a structure. -/
def encoded : Bytes := input.value.outline.encoded .preferred

theorem build_eq : input.build = Cose.build input.append := by
  cases input <;> rfl

theorem buildWithin_eq (capacity : Nat) :
    input.buildWithin capacity = Cose.buildWithin capacity input.append := by
  cases input <;> rfl

/-- A structure is built if its encoding is short enough, and then it is that encoding. -/
theorem build_eq_ok_iff {bytes : Bytes} :
    input.build = .ok bytes ↔ input.encoded = bytes ∧ bytes.length ≤ maxEncodedLength := by
  have hadmissible : input.value.outline.Admissible .preferred 0 :=
    Value.admissible_outline (Rules.lossless_of_mem (.inl rfl)) input.value input.bounded_value
  rw [build_eq, Cose.build, mapError_eq_ok_iff, append_eq, Encoder.finish_appendValue_eq_ok]
  exact and_congr_left' ⟨fun hwritten ↦ hwritten.encoded_eq, fun hencoded ↦ ⟨hadmissible, hencoded⟩⟩

end CryptoInput

/-! ### Structures in parts -/

/-- What a sink that only collects is fed are the parts in a row. -/
theorem feed_append (chunks : List Bytes) (sink : Bytes) :
    feed chunks (· ++ ·) sink = sink ++ chunks.flatten := by
  induction chunks generalizing sink with
  | nil => simp [feed]
  | cons chunk rest ih =>
    change feed rest (· ++ ·) (sink ++ chunk) = _
    rw [ih, List.flatten_cons, List.append_assoc]

theorem flatten_bytesChunks (content : Bytes) :
    (bytesChunks content).flatten = (Value.bytes content).outline.encoded .preferred := by
  simp [bytesChunks, Value.outline, Outline.encoded, Scalar.encoded, Argument.encodeHead_zero,
    shortestHead]

/-- The bytes of an array of values. -/
theorem encoded_array (rules : Rules) (members : List Value) :
    (Value.array members).outline.encoded rules =
      shortestHead .array (UInt64.ofNat members.length) ++
        (members.map fun member ↦ member.outline.encoded rules).flatten := by
  have houtlines : Value.outlines members = members.map Value.outline := by
    induction members with
    | nil => rfl
    | cons member rest ih => rw [Value.outlines, ih, List.map_cons]
  rw [Value.outline, Outline.encoded, Container.enclose, Outline.encodedEach_eq_map, houtlines,
    List.length_map, List.length_map, List.map_map]
  rfl

theorem MacContext.opening_eq (context : MacContext) :
    context.opening = shortestHead .array 4 ++
      (Value.text context.text).outline.encoded .preferred := by
  cases context <;> decide +kernel

theorem SignatureContext.opening_eq (context : SignatureContext) :
    context.opening = shortestHead .array (if context = .signature then 5 else 4) ++
      (Value.text context.text).outline.encoded .preferred := by
  cases context <;> decide +kernel

/-- The parts of what is signed are its encoding. -/
theorem SignInputs.flatten_chunks (inputs : SignInputs) :
    inputs.chunks.flatten = (CryptoInput.signature inputs).encoded := by
  obtain ⟨_, signProtected?, _, _⟩ := inputs
  cases signProtected? <;>
    simp [chunks, CryptoInput.encoded, CryptoInput.value, value, encoded_array, context,
      SignatureContext.opening_eq, flatten_bytesChunks]

/-- The parts of what is authenticated are its encoding. -/
theorem MacInputs.flatten_chunks (inputs : MacInputs) :
    inputs.chunks.flatten = (CryptoInput.mac inputs).encoded := by
  simp [chunks, CryptoInput.encoded, CryptoInput.value, value, encoded_array,
    MacContext.opening_eq, flatten_bytesChunks]

/-! ### Structures in a region and in size -/

/-- A session that is finished with its bytes is finished with its length. -/
theorem Cbor.Encoder.finishSize_of_finish {encoder : Encoder} {bytes : Bytes}
    (hfinish : encoder.finish = .ok bytes) : encoder.finishSize = .ok encoder.length := by
  unfold finish at hfinish
  unfold finishSize
  split at hfinish
  · cases hfinish
  · rfl

namespace CryptoInput

variable (input : CryptoInput)

theorem traceable_append (outlook : Outlook) :
    (modify input.append : Session PUnit).Traceable outlook := by
  have happended : input.append = fun encoder ↦
      encoder.perform input.value.outline.operations := by
    funext encoder
    rw [append_eq, Encoder.appendValue_eq_perform]
  rw [happended]
  exact .perform _

variable {input} {bytes : Bytes} (hbuild : input.build = .ok bytes)
include hbuild

theorem finish_append : (input.append (.growable .preferred)).finish = .ok bytes := by
  rwa [build_eq, Cose.build, mapError_eq_ok_iff] at hbuild

/-- A region holds a structure if it is no shorter. -/
theorem buildWithin_of_build (capacity : Nat) :
    input.buildWithin capacity =
      if bytes.length ≤ capacity then .ok bytes else .error (.encode .bufferTooSmall) := by
  have hfinish : (input.append (.fixed capacity .preferred)).finish = _ :=
    (input.traceable_append .bounded).finish_fixed .preferred (finish_append hbuild)
      (List.replicate capacity 0)
  rw [buildWithin_eq, Cose.buildWithin, hfinish, List.length_replicate]
  split <;> rfl

/-- The size of a structure is the length of its encoding. -/
theorem buildSize_of_build : buildSize input.append = .ok bytes.length := by
  obtain ⟨mapClosings, htraced⟩ := input.traceable_append .measuring
  obtain ⟨hmatches, _⟩ := htraced.measuring_outcome .preferred (htraced.not_missorts _ rfl)
  have hlength : bytes.length = (input.append (.growable .preferred)).length :=
    (input.traceable_append .bounded).length_of_finish .preferred (finish_append hbuild)
  have hsize : (input.append (.sizeOnly .preferred)).finishSize = _ := hmatches.finishSize_eq.trans
    (Encoder.finishSize_of_finish (finish_append hbuild))
  rw [buildSize, hsize, hlength]
  rfl

end CryptoInput

/-! ### Streamed, built whole and measured -/

/-- What is fed to a hash is what is built whole, if that is short enough for an encoding, and a
structure of any kind is built, as its encoding, exactly if that is short enough. A region takes
any structure if and only if it is no shorter than the structure built whole, and then holds the
same bytes; the size of a key derivation context is the length of the context built whole. -/
theorem CryptoInput.build_feed_buildWithin_size :
    (∀ (inputs : SignInputs) (bytes : Bytes), inputs.build = .ok bytes ↔
      feed inputs.chunks (· ++ ·) [] = bytes ∧ bytes.length ≤ maxEncodedLength) ∧
    (∀ (inputs : MacInputs) (bytes : Bytes), inputs.build = .ok bytes ↔
      feed inputs.chunks (· ++ ·) [] = bytes ∧ bytes.length ≤ maxEncodedLength) ∧
    (∀ (input : CryptoInput) (bytes : Bytes), input.build = .ok bytes ↔
      input.encoded = bytes ∧ bytes.length ≤ maxEncodedLength) ∧
    (∀ (input : CryptoInput) (bytes : Bytes), input.build = .ok bytes →
      ∀ capacity, input.buildWithin capacity =
        if bytes.length ≤ capacity then .ok bytes else .error (.encode .bufferTooSmall)) ∧
    ∀ (context : KdfContext) (bytes : Bytes), context.build = .ok bytes →
      context.size = .ok bytes.length := by
  refine ⟨fun inputs bytes ↦ ?_, fun inputs bytes ↦ ?_, fun input bytes ↦ input.build_eq_ok_iff,
    fun input bytes hbuild ↦ buildWithin_of_build hbuild, fun context bytes hbuild ↦ ?_⟩
  · rw [feed_append, List.nil_append, inputs.flatten_chunks]
    exact (signature inputs).build_eq_ok_iff
  · rw [feed_append, List.nil_append, inputs.flatten_chunks]
    exact (mac inputs).build_eq_ok_iff
  · have hcontext : (keyDerivation context).build = .ok bytes := hbuild
    exact buildSize_of_build hcontext

/-- The inputs of one signer among several, with nothing of its own to sign. -/
def bareSignInputs : SignInputs where
  bodyProtected := [0xa1, 0x01, 0x26]
  signProtected? := some []
  externalAad := []
  payload := [0x2a]

/-- The context of a key derivation about which little is known. -/
def bareKdfContext : KdfContext where
  algorithmId := -29
  partyU := ⟨none, some (.int 7), none⟩
  partyV := ⟨some [0x42], none, none⟩
  suppPub := ⟨128, [], none⟩
  suppPriv? := none

/-- Both structures are built, the one that is signed is fed to a hash as it is built, and the
context takes a region of its size but no shorter one. -/
theorem CryptoInput.build_feed_buildWithin_size_bare :
    bareSignInputs.build = .ok (feed bareSignInputs.chunks (· ++ ·) []) ∧
      bareKdfContext.size = .ok 16 ∧
      (CryptoInput.keyDerivation bareKdfContext).buildWithin 15 =
        .error (.encode .bufferTooSmall) ∧
      bareKdfContext.build = (CryptoInput.keyDerivation bareKdfContext).buildWithin 16 := by
  obtain ⟨hsigned, _, _, hwithin, hsize⟩ := build_feed_buildWithin_size
  have hbuild : bareKdfContext.build = .ok [0x84, 0x38, 0x1c, 0x83, 0xf6, 0x07, 0xf6, 0x83, 0x41,
      0x42, 0xf6, 0xf6, 0x82, 0x18, 0x80, 0x40] := by decide +kernel
  refine ⟨(hsigned bareSignInputs _).2 ⟨rfl, by decide +kernel⟩, ?_, ?_, ?_⟩
  · exact hsize bareKdfContext _ hbuild
  · exact hwithin (.keyDerivation bareKdfContext) _ hbuild 15
  · exact hbuild.trans (hwithin (.keyDerivation bareKdfContext) _ hbuild 16).symm

end Cose
