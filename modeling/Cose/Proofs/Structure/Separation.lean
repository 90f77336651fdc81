import Mathlib.Tactic.Common
import Cose.Proofs.Cbor.Uniqueness
import Cose.Proofs.Header.Writing
import Cose.Proofs.Structure.Building

/-!
# Structures are told apart by their encodings

Bytes start with the encoding of at most one value (`Cbor.Value.encoded_append_inj`), so it remains
to tell structures by their values. The first member of a structure tells its domain, which is its
kind together with its context text (`CryptoInput.domain_eq_of_value_eq`), and within a domain the
other members tell what the structure is made of (`CryptoInput.value_injective`).
-/

set_option autoImplicit false
set_option relaxedAutoImplicit false

namespace Cose

open Cbor

/-! ### Values are told by their encodings -/

namespace Cbor.Value

/-- Bytes start with the encoding of at most one value. -/
theorem encoded_append_inj {rules : Rules} (hrules : rules.Lossless) {first second : Value}
    (hfirst : first.Bounded 0 0) (hsecond : second.Bounded 0 0)
    (hfirstLength : (first.outline.encoded rules).length < 2 ^ 64)
    (hsecondLength : (second.outline.encoded rules).length < 2 ^ 64) {left right : Bytes}
    (hsame : first.outline.encoded rules ++ left = second.outline.encoded rules ++ right) :
    first = second ∧ left = right := by
  obtain ⟨_, _, _, _, hnode, hencoded, hvalue⟩ :=
    spelledBy_outline hrules first hfirst (Nat.zero_le _) hfirstLength
  obtain ⟨_, _, _, _, hother, hotherEncoded, hotherValue⟩ :=
    spelledBy_outline hrules second hsecond (Nat.zero_le _) hsecondLength
  rw [← hencoded, ← hotherEncoded] at hsame
  obtain ⟨hnodes, hrest⟩ := Node.encoded_append_inj hnode.regular hother.regular hsame
  rw [hnodes, hotherValue] at hvalue
  exact ⟨(Option.some.inj hvalue).symm, hrest⟩

theorem ofInt_injective : Function.Injective ofInt := by
  intro first second hvalue
  have hencoded (number : Int64) :
      (Scalar.int number).encoded .preferred = (ofInt number).outline.encoded .preferred := by
    rw [Scalar.encoded, ofInt]
    cases number.toInt <;> rfl
  have hsame : (Scalar.int first).encoded .preferred = (Scalar.int second).encoded .preferred := by
    rw [hencoded, hencoded, hvalue]
  exact encoded_int_injective .preferred hsame

theorem ofBytes?_injective : Function.Injective ofBytes? := by
  intro first second hvalue
  cases first <;> cases second <;> simp_all [ofBytes?]

theorem ofInt_ne_ofBytes? (number : Int64) (content? : Option Bytes) :
    ofInt number ≠ ofBytes? content? := by
  unfold ofInt
  cases number.toInt <;> cases content? <;> simp [ofBytes?]

end Cbor.Value

/-! ### Domains -/

/-- What keeps structures apart whatever they are made of: their kinds and their contexts. -/
inductive Domain where
  | signature (context : SignatureContext)
  | mac (context : MacContext)
  | encryption (context : EncryptionContext)
  | keyDerivation
deriving DecidableEq

/-- The context text that opens the structures of a domain, if one does. -/
def Domain.text? : Domain → Option String
  | signature context => some context.text
  | mac context => some context.text
  | encryption context => some context.text
  | keyDerivation => none

/-- No two domains share a context text. -/
theorem Domain.text?_injective : Function.Injective Domain.text? := by
  intro first second htext
  rcases first with ⟨_ | _⟩ | ⟨_ | _⟩ | ⟨_ | _ | _ | _ | _⟩ | _ <;>
    rcases second with ⟨_ | _⟩ | ⟨_ | _⟩ | ⟨_ | _ | _ | _ | _⟩ | _ <;>
      first | rfl | exact absurd htext (by decide)

/-- The domain of a structure. -/
def CryptoInput.domain : CryptoInput → Domain
  | signature inputs => .signature inputs.context
  | mac inputs => .mac inputs.context
  | encryption aad => .encryption aad.context
  | keyDerivation _ => .keyDerivation

/-- The text that opens an array, if one does. -/
def Cbor.Value.openingText? : Value → Option String
  | .array (.text content :: _) => some content
  | _ => none

namespace CryptoInput

/-- A structure opens with the context text of its domain. -/
theorem openingText?_value (input : CryptoInput) :
    input.value.openingText? = input.domain.text? := by
  cases input with
  | signature inputs => rfl
  | mac inputs => rfl
  | encryption aad => rfl
  | keyDerivation context =>
    rw [value, KdfContext.value, Value.ofInt]
    cases context.algorithmId.toInt <;> rfl

/-- Structures of one value are of one domain. -/
theorem domain_eq_of_value_eq {first second : CryptoInput} (hvalue : first.value = second.value) :
    first.domain = second.domain := by
  have htext : first.domain.text? = second.domain.text? := by
    rw [← openingText?_value, ← openingText?_value, hvalue]
  exact Domain.text?_injective htext

end CryptoInput

/-! ### Members -/

section Members

open Value

/-- A trailing byte string is told from its absence and by its content. -/
theorem trailing_injective :
    Function.Injective fun content? : Option Bytes ↦ content?.toList.map Value.bytes := by
  intro first second hsame
  cases first <;> cases second <;> simp_all

theorem SignInputs.value_injective : Function.Injective SignInputs.value := by
  rintro ⟨_, signer, _, _⟩ ⟨_, other, _, _⟩ hvalue
  cases signer <;> cases other <;> simp_all [value]

theorem MacInputs.value_injective {first second : MacInputs}
    (hcontext : first.context = second.context) (hvalue : first.value = second.value) :
    first = second := by
  cases first
  cases second
  simp_all [value]

theorem EncryptionAad.value_injective {first second : EncryptionAad}
    (hcontext : first.context = second.context) (hvalue : first.value = second.value) :
    first = second := by
  cases first
  cases second
  simp_all [value]

theorem Nonce.value?_injective : Function.Injective Nonce.value? := by
  intro first second hvalue
  rcases first with _ | ⟨content | number⟩ <;> rcases second with _ | ⟨other | counterpart⟩
  case some.int.some.int => rw [ofInt_injective hvalue]
  case some.int.none => exact absurd hvalue (ofInt_ne_ofBytes? number none)
  case some.int.some.bytes => exact absurd hvalue (ofInt_ne_ofBytes? number (some other))
  case none.some.int => exact absurd hvalue.symm (ofInt_ne_ofBytes? counterpart none)
  case some.bytes.some.int =>
    exact absurd hvalue.symm (ofInt_ne_ofBytes? counterpart (some content))
  all_goals simp_all [value?]

theorem PartyInfo.value_injective : Function.Injective PartyInfo.value := by
  rintro ⟨_, _, _⟩ ⟨_, _, _⟩ hvalue
  simp only [value, Value.array.injEq, List.cons.injEq] at hvalue
  obtain ⟨hidentity, hnonce, hother, _⟩ := hvalue
  rw [ofBytes?_injective hidentity, Nonce.value?_injective hnonce, ofBytes?_injective hother]

theorem SuppPubInfo.value_injective : Function.Injective SuppPubInfo.value := by
  rintro ⟨_, _, _⟩ ⟨_, _, _⟩ hvalue
  simp only [value, Value.array.injEq, List.cons.injEq, Value.unsigned.injEq,
    Value.bytes.injEq] at hvalue
  obtain ⟨rfl, rfl, hother⟩ := hvalue
  rw [trailing_injective hother]

theorem KdfContext.value_injective : Function.Injective KdfContext.value := by
  rintro ⟨_, _, _, _, _⟩ ⟨_, _, _, _, _⟩ hvalue
  simp only [value, Value.array.injEq, List.cons.injEq] at hvalue
  obtain ⟨halgorithm, hpartyU, hpartyV, hsuppPub, hsuppPriv⟩ := hvalue
  rw [ofInt_injective halgorithm, PartyInfo.value_injective hpartyU,
    PartyInfo.value_injective hpartyV, SuppPubInfo.value_injective hsuppPub,
    trailing_injective hsuppPriv]

/-- A structure is told by its value. -/
theorem CryptoInput.value_injective : Function.Injective CryptoInput.value := by
  intro first second hvalue
  have hdomain := domain_eq_of_value_eq hvalue
  cases first <;> cases second <;> simp only [domain, reduceCtorEq, Domain.mac.injEq,
    Domain.encryption.injEq] at hdomain
  case signature.signature => rw [SignInputs.value_injective hvalue]
  case mac.mac => rw [MacInputs.value_injective hdomain hvalue]
  case encryption.encryption => rw [EncryptionAad.value_injective hdomain hvalue]
  case keyDerivation.keyDerivation => rw [KdfContext.value_injective hvalue]

end Members

/-! ### Encodings -/

/-- One encoded structure starts with another only if both are the same bytes, and they are the same
bytes only if the structures are of one kind, in one context and made of the same. -/
theorem CryptoInput.build_isPrefix_iff {first second : CryptoInput} {bytes other : Bytes}
    (hfirst : first.build = .ok bytes) (hsecond : second.build = .ok other) :
    (bytes <+: other ↔ bytes = other) ∧ (bytes = other ↔ first = second) := by
  have hlength {input : CryptoInput} {bytes : Bytes} (hbuild : input.build = .ok bytes) :
      input.encoded.length < 2 ^ 64 := by
    obtain ⟨rfl, hlength⟩ := input.build_eq_ok_iff.1 hbuild
    exact Nat.lt_of_le_of_lt hlength (by decide)
  have hinputs (hstarts : bytes <+: other) : first = second := by
    obtain ⟨rest, hrest⟩ := hstarts
    have hsame : first.encoded ++ rest = second.encoded ++ [] := by
      rw [(first.build_eq_ok_iff.1 hfirst).1, (second.build_eq_ok_iff.1 hsecond).1, hrest,
        List.append_nil]
    obtain ⟨hvalue, _⟩ := Value.encoded_append_inj (Rules.lossless_of_mem (.inl rfl))
      first.bounded_value second.bounded_value (hlength hfirst) (hlength hsecond) hsame
    exact value_injective hvalue
  have hbytes (hsame : first = second) : bytes = other := by
    rw [hsame, hsecond] at hfirst
    exact (Except.ok.inj hfirst).symm
  exact ⟨⟨fun hstarts ↦ hbytes (hinputs hstarts), fun hsame ↦ hsame ▸ List.prefix_refl bytes⟩,
    ⟨fun hsame ↦ hinputs (hsame ▸ List.prefix_refl bytes), hbytes⟩⟩

/-- A signer without headers of its own does not sign what the only signer of a message signs, nor
anything that starts with it. -/
theorem CryptoInput.build_isPrefix_iff_bare :
    ∃ bytes other, (signature { bareSignInputs with signProtected? := none }).build = .ok bytes ∧
      (signature bareSignInputs).build = .ok other ∧ ¬ bytes <+: other := by
  let alone : CryptoInput := .signature { bareSignInputs with signProtected? := none }
  have halone : alone.build = .ok alone.encoded :=
    alone.build_eq_ok_iff.2 ⟨rfl, by decide +kernel⟩
  have hamong : (signature bareSignInputs).build = .ok (signature bareSignInputs).encoded :=
    (signature bareSignInputs).build_eq_ok_iff.2 ⟨rfl, by decide +kernel⟩
  obtain ⟨hstarts, hsame⟩ := build_isPrefix_iff halone hamong
  refine ⟨_, _, halone, hamong, ?_⟩
  rw [hstarts, hsame]
  decide

end Cose
