import Mathlib.Tactic.Common
import Cose.Proofs.Cbor.Encoder.Parts
import Cose.Proofs.Message.Agreement

/-!
# Messages as items of a session

A message that is written into a session, whatever is open in it and whatever was written before,
is one item there: the session is left as if the message had been written on its own and the bytes
appended as an encoded item (`appendMessage_eq_ok`). And where no message comes about, because the
headers cannot be written or the callback fails, the session is left as it was.
`WritesWhole` says both of a way to write messages, and `writesWhole_messages` proves it of all
three, for callbacks that may have a state of their own.
-/

set_option autoImplicit false
set_option relaxedAutoImplicit false

namespace Cose

open Cbor Encoder

/-! ### Items one after the other -/

/-- Whether an operation on sessions with given rules appends items, as if they were encoded. -/
def AppendsItems (rules : Rules) (append : Encoder → Encoder) (items : List Bytes) : Prop :=
  ∀ encoder : Encoder, encoder.rules = rules →
    Agrees (append encoder) (items.foldl appendEncoded encoder)

theorem rules_foldl_appendEncoded (items : List Bytes) (encoder : Encoder) :
    (items.foldl appendEncoded encoder).rules = encoder.rules := by
  induction items generalizing encoder with
  | nil => rfl
  | cons item rest ih =>
    exact (ih (encoder.appendEncoded item)).trans (encoder.advances_appendEncoded item).rules_eq

theorem appendsItems_content (rules : Rules) (message : Message) (content : Bytes) :
    AppendsItems rules (message.appendContent content)
      [(message.contentScalar content).encoded rules] := by
  rintro encoder rfl
  have hallowed : (message.contentScalar content).Allowed encoder.rules := by
    unfold Message.contentScalar
    split
    · exact ⟨by decide, fun _ ↦ .inr (.inr rfl)⟩
    · trivial
  rw [message.appendContent_eq]
  exact agrees_append hallowed

theorem AppendsItems.bytes {rules : Rules} {append : Encoder → Encoder} {items : List Bytes}
    (happends : AppendsItems rules append items) (content : Bytes) :
    AppendsItems rules (fun encoder ↦ (append encoder).appendBytes content)
      (items ++ [(Scalar.bytes content).encoded rules]) := by
  rintro encoder rfl
  have hlast := @agrees_append (items.foldl appendEncoded encoder) (.bytes content) trivial
  rw [rules_foldl_appendEncoded] at hlast
  rw [List.foldl_append]
  refine Agrees.trans (@Agrees.congr _ _ (happends encoder rfl) (·.appendBytes content) ?_) hlast
  exact fun reached hlive ↦ (reached.advances_append (.bytes content)).live hlive

/-! ### Messages in parts -/

/-- Tag the item that is appended next, if it is to be tagged. -/
def tagWith (tag? : Option MessageTag) (encoder : Encoder) : Encoder :=
  match tag? with
  | some tag => encoder.addTag tag.number
  | none => encoder

/-- Append a message array part by part. -/
def assemble (tag? : Option MessageTag) (headers : HeaderItems) (appendRest : Encoder → Encoder)
    (encoder : Encoder) : Encoder :=
  (appendRest (((tagWith tag? encoder).openArray.appendEncoded
    headers.protectedItem).appendEncoded headers.unprotectedItem)).closeArray

theorem appendMessage_eq_check (tag? : Option MessageTag) (headers : HeaderItems)
    (appendRest : Encoder → Encoder) (encoder : Encoder) :
    appendMessage tag? headers appendRest encoder =
      Session.check (assemble tag? headers appendRest encoder) :=
  rfl

section Message

variable {tag? : Option MessageTag} {headers : HeaderItems} {appendRest : Encoder → Encoder}
  {items : List Bytes} {encoder : Encoder}

theorem advances_tagWith : encoder.Advances (tagWith tag? encoder) := by
  cases tag? with
  | some tag => exact encoder.advances_addTag tag.number
  | none => exact .refl encoder

theorem depth_tagWith : (tagWith tag? encoder).depth = encoder.depth := by
  cases tag? with
  | some tag => exact congrArg List.length (encoder.frames_addTag tag.number)
  | none => rfl

theorem agrees_tagWith (item : Bytes) :
    Agrees ((tagWith tag? encoder).appendEncoded item)
      (encoder.appendEncoded (tagHead tag? ++ item)) := by
  cases tag? with
  | some tag =>
    rw [tagHead, Option.elim_some, shortestHead, ← Argument.encodeHead_zero]
    exact agrees_addTag tag.number item
  | none => exact .refl _

/-- What follows the headers of a message leads to the same as the headers and the items did. -/
theorem agrees_assemble_foldl (hrest : AppendsItems encoder.rules appendRest items) :
    Agrees (assemble tag? headers appendRest encoder)
      ((headers.protectedItem :: headers.unprotectedItem :: items).foldl appendEncoded
        (tagWith tag? encoder).openArray).closeArray := by
  refine (hrest _ ?_).congr fun _ ↦ error_of_closeArray
  exact (((advances_tagWith.trans (advances_openNest _ .array)).trans
    (advances_appendEncoded _ _)).trans (advances_appendEncoded _ _)).rules_eq

/-- A message array is one item, if it may be opened. -/
theorem agrees_assemble (hrest : AppendsItems encoder.rules appendRest items)
    (hfew : items.length + 2 ≤ maxItems) (hdepth : encoder.depth < maxNesting) :
    Agrees (assemble tag? headers appendRest encoder)
      (encoder.appendEncoded (messageBytes encoder.rules tag? headers items)) := by
  have harray := @agrees_array (tagWith tag? encoder)
    (headers.protectedItem :: headers.unprotectedItem :: items) hfew
    (depth_tagWith.trans_lt hdepth)
  rw [Argument.encodeHead_zero] at harray
  exact ((agrees_assemble_foldl hrest).trans harray).trans (agrees_tagWith _)

/-- Where a message array was appended, it could be opened. -/
theorem depth_lt_of_assemble (hrest : AppendsItems encoder.rules appendRest items)
    (hlive : (assemble tag? headers appendRest encoder).error = none) :
    encoder.depth < maxNesting := by
  rw [agrees_assemble_foldl hrest (.inl hlive)] at hlive
  have hopened := error_of_foldl_appendEncoded (error_of_closeArray hlive)
  obtain ⟨hwritten, hopens⟩ := openNest_of_live hopened
  obtain ⟨hbefore, hroom⟩ := beginItem_of_live (write_of_live hwritten).1
  have hdepth := hopens.depth_lt
  rw [beginItem_of_hasRoom hbefore hroom, depth, length_counted] at hdepth
  exact depth_tagWith.symm.trans_lt hdepth

/-- A message that is appended to a session can be written on its own, and is the item in the
session that its bytes are. -/
theorem appendMessage_eq_ok (hrest : AppendsItems encoder.rules appendRest items)
    (hfew : items.length + 2 ≤ maxItems) {result : Unit} {after : Encoder}
    (hrun : appendMessage tag? headers appendRest encoder = .ok result after) :
    ∃ alone bytes, appendMessage tag? headers appendRest (growable encoder.rules) =
        .ok result alone ∧ alone.finish = .ok bytes ∧ after = encoder.appendEncoded bytes := by
  let bytes := messageBytes encoder.rules tag? headers items
  rw [appendMessage_eq_check] at hrun
  obtain ⟨rfl, hunfailed⟩ := check_eq_ok hrun
  have hlive : (assemble tag? headers appendRest encoder).error = none := not_not.1 hunfailed
  have hagrees := agrees_assemble hrest hfew (depth_lt_of_assemble hrest hlive) (.inl hlive)
  have htakes : encoder.Takes bytes := takes_of_live (hagrees ▸ hlive)
  have hfits : bytes.length ≤ maxEncodedLength := by
    have hlength := ((Output.refusal?_eq_none_iff _ _).1 htakes.fits).le_limit
    omega
  have halone : (growable encoder.rules).appendEncoded bytes =
      live encoder.rules bytes [] false :=
    @write_live encoder.rules [] [] false bytes (by rwa [List.length_nil, Nat.zero_add])
  have hsame := @agrees_assemble tag? headers appendRest items (growable encoder.rules) hrest hfew
    (show 0 < maxNesting by decide) (.inr (congrArg Encoder.error halone))
  refine ⟨live encoder.rules bytes [] false, bytes, ?_, finish_live bytes, hagrees⟩
  rw [appendMessage_eq_check, hsame.trans halone]
  rfl

end Message

/-! ### Whole messages -/

/-- How a way to write messages leaves a session, given what its callback is called with once the
headers are encoded. Without headers, or without anything to call it with, the callback is not
called. Then, and where it fails, the failure is returned and the session left as it was. And what
is written into a session can be written on its own with the same result, by the same call in a
fresh session, and is the item in the session that the bytes of it are. -/
structure WritesWhole {σ ι α : Type} (parameters : List Parameter)
    (inputs : HeaderItems → Except Error ι) (callback : ι → StateM σ (Except Error Bytes))
    (write : Encoder → StateM σ (EStateM.Result Error Encoder α)) : Prop where
  without_headers : ∀ encoder cause, encodeHeaderItems encoder.rules parameters = .error cause →
    write encoder = pure (.error cause encoder)
  without_inputs : ∀ encoder headers cause,
    encodeHeaderItems encoder.rules parameters = .ok headers → inputs headers = .error cause →
      write encoder = pure (.error cause encoder)
  callback_fails : ∀ encoder headers input cause state next,
    encodeHeaderItems encoder.rules parameters = .ok headers → inputs headers = .ok input →
      (callback input).run state = (.error cause, next) →
        (write encoder).run state = (.error cause encoder, next)
  composes : ∀ encoder value after state next, (write encoder).run state = (.ok value after, next) →
    ∃ alone bytes, (write (growable encoder.rules)).run state = (.ok value alone, next) ∧
      alone.finish = .ok bytes ∧ after = encoder.appendEncoded bytes

section Callbacks

variable {σ : Type}

/-- What follows goes on with the result and the state. -/
theorem run_bind_of_run {α β : Type} {first : StateM σ α} {next : α → StateM σ β} {value : α}
    {state reached : σ} (hrun : first.run state = (value, reached)) :
    (first >>= next).run state = (next value).run reached := by
  rw [StateT.run_bind, hrun]
  rfl

/-- Write in stages: the headers are encoded, the callback is called with what is made of them, and
what comes of the callback is delivered. -/
def writeStaged {ι α : Type} (parameters : List Parameter) (inputs : HeaderItems → Except Error ι)
    (callback : ι → StateM σ (Except Error Bytes))
    (deliver : HeaderItems → Bytes → Encoder → EStateM.Result Error Encoder α)
    (encoder : Encoder) : StateM σ (EStateM.Result Error Encoder α) :=
  match encodeHeaderItems encoder.rules parameters with
  | .error cause => pure (.error cause encoder)
  | .ok headers =>
    match inputs headers with
    | .error cause => pure (.error cause encoder)
    | .ok input => do
      match ← callback input with
      | .error cause => pure (.error cause encoder)
      | .ok result => pure (deliver headers result encoder)

/-- What is written in stages is written whole, if what is delivered at the end is. -/
theorem writesWhole_staged {ι α : Type} (parameters : List Parameter)
    (inputs : HeaderItems → Except Error ι) (callback : ι → StateM σ (Except Error Bytes))
    {deliver : HeaderItems → Bytes → Encoder → EStateM.Result Error Encoder α}
    (hdeliver : ∀ {headers result encoder value after},
      deliver headers result encoder = .ok value after →
        ∃ alone bytes, deliver headers result (growable encoder.rules) = .ok value alone ∧
          alone.finish = .ok bytes ∧ after = encoder.appendEncoded bytes) :
    WritesWhole parameters inputs callback (writeStaged parameters inputs callback deliver) where
  without_headers := by
    intro encoder cause hheaders
    rw [writeStaged, hheaders]
  without_inputs := by
    intro encoder headers cause hheaders hinputs
    rw [writeStaged, hheaders]
    dsimp only
    rw [hinputs]
  callback_fails := by
    intro encoder headers input cause state next hheaders hinputs hcallback
    rw [writeStaged, hheaders]
    dsimp only
    rw [hinputs]
    exact run_bind_of_run hcallback
  composes := by
    intro encoder value after state next hrun
    unfold writeStaged at hrun ⊢
    rw [show (growable encoder.rules).rules = encoder.rules from rfl]
    cases hheaders : encodeHeaderItems encoder.rules parameters with
    | error cause =>
      rw [hheaders] at hrun
      cases hrun
    | ok headers =>
      rw [hheaders] at hrun
      dsimp only at hrun ⊢
      cases hinputs : inputs headers with
      | error cause =>
        rw [hinputs] at hrun
        cases hrun
      | ok input =>
        rw [hinputs] at hrun
        dsimp only at hrun ⊢
        rcases hcallback : (callback input).run state with ⟨cause | result, called⟩
        · rw [run_bind_of_run hcallback] at hrun
          cases hrun
        · rw [run_bind_of_run hcallback] at hrun ⊢
          obtain ⟨hdelivered, rfl⟩ := Prod.mk.inj hrun
          obtain ⟨alone, bytes, halone, hfinish, hafter⟩ := hdeliver hdelivered
          exact ⟨alone, bytes, congrArg (Prod.mk · called) halone, hfinish, hafter⟩

theorem writesWhole_stamped {ι : Type} (tag : MessageTag) (message : Message) (inputs : Bytes → ι)
    (stamp : ι → StateM σ (Except Error Bytes)) :
    WritesWhole message.parameters (fun headers ↦ .ok (inputs headers.protectedBytes)) stamp
      (encodeStamped tag message inputs stamp) :=
  writesWhole_staged message.parameters _ stamp fun {_ result encoder _ _} happended ↦
    appendMessage_eq_ok ((appendsItems_content encoder.rules message message.payload).bytes result)
      (show 4 ≤ maxItems by decide) happended

/-- An encrypted message with its ciphertext, which is returned if the message does not hold it. -/
def appendEncrypted (message : Message) (headers : HeaderItems) (ciphertext : Bytes)
    (encoder : Encoder) : EStateM.Result Error Encoder (Option Bytes) :=
  match appendMessage (message.tag? .encrypt0) headers (message.appendContent ciphertext)
      encoder with
  | .error cause failed => .error cause failed
  | .ok _ after => .ok (if message.isDetached then some ciphertext else none) after

theorem encodeEncrypt0_eq_writeStaged (message : Message)
    (encrypt : Bytes × Bytes → StateM σ (Except Error Bytes)) :
    encodeEncrypt0 message (fun plaintext aad ↦ encrypt (plaintext, aad)) =
      writeStaged message.parameters
        (fun headers ↦ (message.payload, ·) <$>
          EncryptionAad.build ⟨.encrypt0, headers.protectedBytes, message.externalAad⟩)
        encrypt (appendEncrypted message) := by
  funext encoder
  unfold encodeEncrypt0 writeStaged
  cases encodeHeaderItems encoder.rules message.parameters with
  | error cause => rfl
  | ok headers =>
    dsimp only
    cases EncryptionAad.build ⟨.encrypt0, headers.protectedBytes, message.externalAad⟩ with
    | error cause => rfl
    | ok aad =>
      refine bind_congr fun called ↦ ?_
      cases called with
      | error cause => rfl
      | ok ciphertext =>
        dsimp only [appendEncrypted]
        cases appendMessage (message.tag? .encrypt0) headers (message.appendContent ciphertext)
          encoder <;> rfl

theorem writesWhole_encrypted (message : Message)
    (encrypt : Bytes × Bytes → StateM σ (Except Error Bytes)) :
    WritesWhole message.parameters
      (fun headers ↦ (message.payload, ·) <$>
        EncryptionAad.build ⟨.encrypt0, headers.protectedBytes, message.externalAad⟩) encrypt
      (encodeEncrypt0 message fun plaintext aad ↦ encrypt (plaintext, aad)) := by
  rw [encodeEncrypt0_eq_writeStaged]
  refine writesWhole_staged _ _ _ fun {headers ciphertext encoder value after} hdelivered ↦ ?_
  unfold appendEncrypted at hdelivered ⊢
  cases happended : appendMessage (message.tag? .encrypt0) headers
      (message.appendContent ciphertext) encoder with
  | error cause failed =>
    rw [happended] at hdelivered
    cases hdelivered
  | ok result last =>
    rw [happended] at hdelivered
    cases hdelivered
    obtain ⟨alone, bytes, halone, hfinish, hafter⟩ :=
      appendMessage_eq_ok (appendsItems_content encoder.rules message ciphertext)
        (show 3 ≤ maxItems by decide) happended
    refine ⟨alone, bytes, ?_, hfinish, hafter⟩
    rw [halone]

/-- Messages of all three kinds are written whole or not at all, whatever the callback is. -/
theorem writesWhole_messages (message : Message) (sign : SignInputs → StateM σ (Except Error Bytes))
    (authenticate : MacInputs → StateM σ (Except Error Bytes))
    (encrypt : Bytes × Bytes → StateM σ (Except Error Bytes)) :
    WritesWhole message.parameters
        (fun headers ↦ .ok ⟨headers.protectedBytes, none, message.externalAad, message.payload⟩)
        sign (encodeSign1 message sign) ∧
      WritesWhole message.parameters
        (fun headers ↦ .ok ⟨.mac0, headers.protectedBytes, message.externalAad, message.payload⟩)
        authenticate (encodeMac0 message authenticate) ∧
      WritesWhole message.parameters
        (fun headers ↦ (message.payload, ·) <$>
          EncryptionAad.build ⟨.encrypt0, headers.protectedBytes, message.externalAad⟩)
        encrypt (encodeEncrypt0 message fun plaintext aad ↦ encrypt (plaintext, aad)) :=
  ⟨writesWhole_stamped .sign1 message (⟨·, none, message.externalAad, message.payload⟩) sign,
    writesWhole_stamped .mac0 message (⟨.mac0, ·, message.externalAad, message.payload⟩)
      authenticate,
    writesWhole_encrypted message encrypt⟩

end Callbacks

/-- A signer that counts its calls and signs one payload only. -/
def countingSigner (inputs : SignInputs) : StateM Nat (Except Error Bytes) := do
  modify (· + 1)
  return if inputs.payload = [0x2a] then .ok [0x55] else .error .noPayload

/-- A tagged message that is signed into an array of a session of fixed capacity is the second item
of the array. With another payload the signer is called, and nothing changes. -/
theorem writesWhole_keyedMessage :
    let encoder := (Encoder.fixed 64 .preferred).openArray.appendNull
    (∃ after alone bytes,
      (encodeSign1 keyedMessage countingSigner encoder).run 0 = (.ok () after, 1) ∧
        (encodeSign1 keyedMessage countingSigner (growable .preferred)).run 0 = (.ok () alone, 1) ∧
        alone.finish = .ok bytes ∧ after = encoder.appendEncoded bytes ∧
        after.frames = [⟨.array, 0, 2⟩]) ∧
    (encodeSign1 { keyedMessage with payload := [] } countingSigner encoder).run 0 =
      (.error .noPayload encoder, 1) := by
  intro encoder
  have hwrites (message : Message) := (@writesWhole_messages Nat message countingSigner
    (fun _ ↦ pure (.ok [])) (fun _ ↦ pure (.ok []))).1
  have hcounted : (match (encodeSign1 keyedMessage countingSigner encoder).run 0 with
      | (.ok _ after, called) => decide (called = 1 ∧ after.frames = [⟨.array, 0, 2⟩])
      | (.error _ _, _) => false) = true := by decide +kernel
  have hrun : ∃ after,
      (encodeSign1 keyedMessage countingSigner encoder).run 0 = (.ok () after, 1) ∧
        after.frames = [⟨.array, 0, 2⟩] := by
    rcases hsigned : (encodeSign1 keyedMessage countingSigner encoder).run 0 with
      ⟨⟨_, after⟩ | _, called⟩
    · rw [hsigned] at hcounted
      obtain ⟨rfl, hframes⟩ := of_decide_eq_true hcounted
      exact ⟨after, rfl, hframes⟩
    · rw [hsigned] at hcounted
      cases hcounted
  refine ⟨?_, ?_⟩
  · obtain ⟨after, hafter, hframes⟩ := hrun
    obtain ⟨alone, bytes, halone, hfinish, hwhole⟩ :=
      (hwrites keyedMessage).composes encoder () after 0 1 hafter
    exact ⟨after, alone, bytes, hafter, halone, hfinish, hwhole, hframes⟩
  · obtain ⟨headers, hheaders⟩ : ∃ headers,
        encodeHeaderItems .preferred keyedMessage.parameters = .ok headers :=
      ⟨_, by with_unfolding_all rfl⟩
    exact (hwrites { keyedMessage with payload := [] }).callback_fails encoder headers _ _ 0 1
      hheaders rfl rfl

end Cose
