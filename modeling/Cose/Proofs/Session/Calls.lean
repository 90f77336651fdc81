import Mathlib.Tactic.Common
import Cose.Message.Encrypt0
import Cose.Message.Mac0
import Cose.Message.Sign1
import Cose.Proofs.Cbor.RoundTrip
import Cose.Proofs.Header.Buckets
import Cose.Proofs.Message.Agreement

/-!
# Calls on an encoding session

A `Call` is anything that a user of an encoding session can do to it, from a single scalar to a
whole message, and its `Answer` is what the user is told. A run is a list of calls, one after the
other. Programs that write header parameters are users of the session as well:
`Session.MadeOfCalls` says that such a program does nothing to the session but by calls.
-/

set_option autoImplicit false
set_option relaxedAutoImplicit false

namespace Cose

open Cbor

/-! ### Calls and runs -/

/-- What a call tells its user. -/
inductive Answer where
  /-- The call tells nothing. -/
  | done
  | span (span? : Option Encoder.Span)
  | bytes (content? : Option Bytes)
  /-- The capacity of a region to write into. -/
  | region (capacity? : Option Nat)
  | headers (result : Except Error Encoder.Span)
  | message (result : Except Error Unit)
  /-- A ciphertext that is conveyed otherwise, if there is one. -/
  | ciphertext (result : Except Error (Option Bytes))

/-- Whether an answer gives nothing to its user: nothing was told, or no result, or a failure. -/
def Answer.IsRefusal : Answer → Prop
  | done => True
  | span span? => span? = none
  | bytes content? => content? = none
  | region capacity? => capacity? = none
  | headers result => ∃ cause, result = .error cause
  | message result => ∃ cause, result = .error cause
  | ciphertext result => ∃ cause, result = .error cause

/-- What a user can do to an encoding session. -/
inductive Call where
  /-- Append a scalar or a tag, or open or close a container. -/
  | operation (step : Operation)
  | bool (truth : Bool)
  | null
  | undefined
  | head (major : Major) (argument : UInt64) (minWidth : Nat)
  | raw (data : Bytes)
  | encoded (item : Bytes)
  | bigNumber (negative : Bool) (magnitude : Bytes)
  | decimalFraction (mantissa : Encoder.Mantissa) (exponent : Int64)
  | bigfloat (mantissa : Encoder.Mantissa) (exponent : Int64)
  | value (content : Value)
  | closeWrap (includeHead : Bool)
  | closeWrapBytes (includeHead : Bool)
  /-- Open a region and write content at its start. -/
  | openRegion (capacity : Nat) (content : Bytes)
  | closeRegion (used : Nat)
  | headers (parameters : List Parameter)
  | sign1 (message : Message) (sign : SignInputs → Except Error Bytes)
  | mac0 (message : Message) (authenticate : MacInputs → Except Error Bytes)
  | encrypt0 (message : Message) (encrypt : (plaintext aad : Bytes) → Except Error Bytes)

/-- The result of a program and the session that it leaves. -/
def Session.outcome {α : Type} : EStateM.Result Error Encoder α → Except Error α × Encoder
  | .ok value encoder => (.ok value, encoder)
  | .error cause encoder => (.error cause, encoder)

namespace Call

/-- Make a call: the answer, and the session after it. -/
def run (encoder : Encoder) : Call → Answer × Encoder
  | operation step => (.done, step.apply encoder)
  | bool truth => (.done, encoder.appendBool truth)
  | null => (.done, encoder.appendNull)
  | undefined => (.done, encoder.appendUndefined)
  | head major argument minWidth => (.done, encoder.appendHead major argument minWidth)
  | raw data => (.done, encoder.appendRaw data)
  | encoded item => (.done, encoder.appendEncoded item)
  | bigNumber negative magnitude => (.done, encoder.appendBigNumber negative magnitude)
  | decimalFraction mantissa exponent => (.done, encoder.appendDecimalFraction mantissa exponent)
  | bigfloat mantissa exponent => (.done, encoder.appendBigfloat mantissa exponent)
  | value content => (.done, encoder.appendValue content)
  | closeWrap includeHead => (encoder.closeWrap includeHead).map .span id
  | closeWrapBytes includeHead => (encoder.closeWrapBytes includeHead).map .bytes id
  | openRegion capacity content => (encoder.openRegion capacity content).map .region id
  | closeRegion used => (.done, encoder.closeRegion used)
  | headers parameters => (Session.outcome (encodeHeaders parameters encoder)).map .headers id
  | sign1 message sign =>
    (Session.outcome (encodeSign1 (m := Id) message sign encoder)).map .message id
  | mac0 message authenticate =>
    (Session.outcome (encodeMac0 (m := Id) message authenticate encoder)).map .message id
  | encrypt0 message encrypt =>
    (Session.outcome (encodeEncrypt0 (m := Id) message encrypt encoder)).map .ciphertext id

/-- Make calls one after the other: the answers, and the session after the last. -/
def runAll (encoder : Encoder) : List Call → List Answer × Encoder
  | [] => ([], encoder)
  | call :: rest =>
    let (answer, encoder) := call.run encoder
    (runAll encoder rest).map (answer :: ·) id

/-- A call as a program that returns its answer. -/
def program (call : Call) : Session Answer := modifyGet fun encoder ↦ call.run encoder

end Call

/-! ### Programs made of calls -/

/-- The program that writes a parameter, if one does. -/
def Parameter.writer? (parameter : Parameter) : Option ParameterWriter :=
  match parameter.value with
  | .written writer => some writer
  | _ => none

/-- The programs that a call runs on the session. The header parameters of a message are written in
a session of their own. -/
def Call.writers : Call → List ParameterWriter
  | headers parameters => parameters.filterMap Parameter.writer?
  | _ => []

/-- Programs that change a session by calls only. They may look at the session, go on by what they
see and what they are answered, and fail. -/
inductive Session.MadeOfCalls : {α : Type} → Session α → Prop
  | pure {α : Type} (value : α) : MadeOfCalls (pure value)
  | throw {α : Type} (cause : Error) : MadeOfCalls (throw cause : Session α)
  | look {α : Type} (view : Encoder → α) : MadeOfCalls (view <$> get)
  | call (call : Call) (hwriters : ∀ writer ∈ call.writers, ∀ label isProtected isCritical,
      MadeOfCalls (writer label isProtected isCritical)) : MadeOfCalls call.program
  | bind {α β : Type} {first : Session α} {next : α → Session β} (hfirst : MadeOfCalls first)
      (hnext : ∀ value, MadeOfCalls (next value)) : MadeOfCalls (first >>= next)

/-- Whether the programs that a call runs on the session are made of calls. -/
def Call.Proper (call : Call) : Prop :=
  ∀ writer ∈ call.writers, ∀ label isProtected isCritical,
    (writer label isProtected isCritical).MadeOfCalls

/-! ### Messages in parts

By the rules of the session a message is refused before the session is touched, or appended to it as
a whole. -/

theorem encodeStamped_cases {ι : Type} (tag : MessageTag) (message : Message) (inputs : Bytes → ι)
    (stamp : ι → Except Error Bytes) (rules : Rules) :
    (∃ cause, ∀ encoder, encoder.rules = rules →
      encodeStamped (m := Id) tag message inputs stamp encoder = .error cause encoder) ∨
      ∃ headers result, ∀ encoder, encoder.rules = rules →
        encodeStamped (m := Id) tag message inputs stamp encoder =
          appendMessage (message.tag? tag) headers (fun encoder ↦
            (message.appendContent message.payload encoder).appendBytes result) encoder := by
  unfold encodeStamped
  cases hitems : encodeHeaderItems rules message.parameters with
  | error cause =>
    refine .inl ⟨cause, ?_⟩
    rintro encoder rfl
    rw [hitems]
    rfl
  | ok headers =>
    cases hstamp : stamp (inputs headers.protectedBytes) with
    | error cause =>
      refine .inl ⟨cause, ?_⟩
      rintro encoder rfl
      simp only [hitems, hstamp]
      rfl
    | ok result =>
      refine .inr ⟨headers, result, ?_⟩
      rintro encoder rfl
      simp only [hitems, hstamp]
      rfl

theorem encodeEncrypt0_cases (message : Message)
    (encrypt : (plaintext aad : Bytes) → Except Error Bytes) (rules : Rules) :
    (∃ cause, ∀ encoder, encoder.rules = rules →
      encodeEncrypt0 (m := Id) message encrypt encoder = .error cause encoder) ∨
      ∃ headers ciphertext, ∀ encoder, encoder.rules = rules →
        encodeEncrypt0 (m := Id) message encrypt encoder =
          (do
            appendMessage (message.tag? .encrypt0) headers (message.appendContent ciphertext)
            return if message.isDetached then some ciphertext else none : Session _) encoder := by
  unfold encodeEncrypt0
  cases hitems : encodeHeaderItems rules message.parameters with
  | error cause =>
    refine .inl ⟨cause, ?_⟩
    rintro encoder rfl
    rw [hitems]
    rfl
  | ok headers =>
    cases haad : EncryptionAad.build ⟨.encrypt0, headers.protectedBytes, message.externalAad⟩ with
    | error cause =>
      refine .inl ⟨cause, ?_⟩
      rintro encoder rfl
      simp only [hitems, haad]
      rfl
    | ok aad =>
      cases hcipher : encrypt message.payload aad with
      | error cause =>
        refine .inl ⟨cause, ?_⟩
        rintro encoder rfl
        simp only [hitems, haad, hcipher]
        rfl
      | ok ciphertext =>
        refine .inr ⟨headers, ciphertext, ?_⟩
        rintro encoder rfl
        simp only [hitems, haad, hcipher]
        dsimp only [bind, EStateM.bind, pure, EStateM.pure]
        cases appendMessage (message.tag? .encrypt0) headers (message.appendContent ciphertext)
          encoder <;> rfl

end Cose
