import Mathlib.Tactic.Common
import Cose.Message.Encrypt0
import Cose.Message.Mac0
import Cose.Message.Sign1
import Cose.Proofs.Message.Delivery

/-!
# Sender and receiver of a message agree

What the cryptography of a sender is given, that of the receiver is given again: the same protected
bytes, the same additional data and the same payload. `Sign1Agrees`, `Mac0Agrees` and
`Encrypt0Agrees` say so for the three kinds of messages, of callbacks that keep what they were
called with (`recording`), and `sender_receiver_agreement` proves it.

Signed and authenticated messages differ only in what their stamp is computed from, so they are
written and read by one pair of functions, `encodeStamped` and `readStamped`.
-/

set_option autoImplicit false
set_option relaxedAutoImplicit false

namespace Cose

open Cbor Node Decoder

/-! ### Callbacks that are watched -/

/-- A callback that keeps what it was called with, and answers by a function of that. -/
def recording {α β : Type} (answer : α → Except Error β) (argument : α) :
    StateM (List α) (Except Error β) := do
  modify (· ++ [argument])
  return answer argument

theorem run_recording_bind {α β γ : Type} (answer : α → Except Error β) (argument : α)
    (following : Except Error β → StateM (List α) γ) (calls : List α) :
    (recording answer argument >>= following).run calls =
      (following (answer argument)).run (calls ++ [argument]) :=
  rfl

/-! ### Messages with a stamp -/

section Messages

variable {rules : Rules} {message : Message}

/-- Write a message whose content is followed by a stamp, which is a signature or an authentication
tag and is computed from what `inputs` makes of the protected bytes. -/
def encodeStamped {m : Type → Type} [Monad m] {ι : Type} (tag : MessageTag) (message : Message)
    (inputs : Bytes → ι) (stamp : ι → m (Except Error Bytes)) (encoder : Encoder) :
    m (EStateM.Result Error Encoder Unit) :=
  match encodeHeaderItems encoder.rules message.parameters with
  | .error cause => pure (.error cause encoder)
  | .ok headers => do
    match ← stamp (inputs headers.protectedBytes) with
    | .error cause => pure (.error cause encoder)
    | .ok result =>
      let appendRest := fun encoder ↦
        (message.appendContent message.payload encoder).appendBytes result
      pure (appendMessage (message.tag? tag) headers appendRest encoder)

theorem encodeSign1_eq_encodeStamped {m : Type → Type} [Monad m] (message : Message)
    (sign : SignInputs → m (Except Error Bytes)) (encoder : Encoder) :
    encodeSign1 message sign encoder =
      encodeStamped .sign1 message (⟨·, none, message.externalAad, message.payload⟩) sign encoder :=
  rfl

theorem encodeMac0_eq_encodeStamped {m : Type → Type} [Monad m] (message : Message)
    (authenticate : MacInputs → m (Except Error Bytes)) (encoder : Encoder) :
    encodeMac0 message authenticate encoder =
      encodeStamped .mac0 message (⟨.mac0, ·, message.externalAad, message.payload⟩) authenticate
        encoder :=
  rfl

/-- Read a message whose content is followed by a stamp. -/
def readStamped {α : Type} (policy : TagPolicy) (tag : MessageTag)
    (readers : List (Int64 × ParameterReader)) (capacity : Nat)
    (assemble : DecodedHeaders → Option Bytes → Bytes → α) : Reading Error α := do
  readMessageArray policy tag 4
  let headers ← readHeaders readers capacity
  let payload? ← Reading.ofExcept (expectBytesOrNull (← Reading.next))
  let stamp ← Reading.ofExcept (expectBytes (← Reading.next))
  Reading.finish
  return assemble headers payload? stamp

theorem readSign1_eq_readStamped (policy : TagPolicy) (readers : List (Int64 × ParameterReader))
    (capacity : Nat) :
    readSign1 policy readers capacity = readStamped policy .sign1 readers capacity .mk :=
  rfl

theorem readMac0_eq_readStamped (policy : TagPolicy) (readers : List (Int64 × ParameterReader))
    (capacity : Nat) :
    readMac0 policy readers capacity = readStamped policy .mac0 readers capacity .mk :=
  rfl

/-- Where a message was written, its stamp was computed once, from the protected bytes. -/
theorem encodeStamped_eq_ok {ι : Type} {tag : MessageTag} {inputs : Bytes → ι}
    {stamp : ι → Except Error Bytes} {session : Encoder} {calls : List ι}
    (hrun : (encodeStamped tag message inputs (recording stamp) (.growable rules)).run [] =
      (.ok () session, calls)) :
    ∃ headers result, encodeHeaderItems rules message.parameters = .ok headers ∧
      calls = [inputs headers.protectedBytes] ∧
      stamp (inputs headers.protectedBytes) = .ok result ∧
      appendMessage (message.tag? tag) headers (fun encoder ↦
        (message.appendContent message.payload encoder).appendBytes result) (.growable rules) =
          .ok () session := by
  have hrules : (Encoder.growable rules).rules = rules := rfl
  unfold encodeStamped at hrun
  rw [hrules] at hrun
  cases hheaders : encodeHeaderItems rules message.parameters with
  | error cause =>
    rw [hheaders] at hrun
    cases hrun
  | ok headers =>
    rw [hheaders] at hrun
    dsimp only at hrun
    rw [run_recording_bind] at hrun
    cases hstamp : stamp (inputs headers.protectedBytes) with
    | error cause =>
      rw [hstamp] at hrun
      cases hrun
    | ok result =>
      rw [hstamp] at hrun
      obtain ⟨happend, hcalls⟩ := Prod.mk.inj hrun
      exact ⟨headers, result, rfl, hcalls.symm, hstamp, happend⟩

/-- A message with a stamp is received with the protected bytes, the content and the stamp that
the sender gave it. -/
theorem exists_stamped (hrules : rules.KeepsNumbers) (hconveyable : Conveyable message.parameters)
    {headers : HeaderItems} (hheaders : encodeHeaderItems rules message.parameters = .ok headers)
    {tag : MessageTag} {stamp : Bytes} {session : Encoder}
    (happend : appendMessage (message.tag? tag) headers (fun encoder ↦
      (message.appendContent message.payload encoder).appendBytes stamp) (.growable rules) =
        .ok () session) :
    ∃ bytes, session.finish = .ok bytes ∧
      ∀ (policy : TagPolicy) (capacity : Nat), policy.Takes message.isTagged →
        message.parameters.length ≤ capacity →
        ∃ received : DecodedHeaders, received.protectedBytes = headers.protectedBytes ∧
          ∀ {α : Type} (assemble : DecodedHeaders → Option Bytes → Bytes → α),
            Reading.decode (readStamped policy tag [] capacity assemble) bytes =
              .ok (assemble received (message.conveyed message.payload) stamp) := by
  have happends := (appends_content rules message message.payload).comp
    (Encoder.appends_scalar rules (.bytes stamp))
  obtain ⟨hfinish, hfits⟩ := finish_of_appendMessage happends happend
  have hcontentFits := Nat.le_trans (length_item_le (.head _)) hfits
  have hstampFits := Nat.le_trans (length_item_le (.tail _ (.head _))) hfits
  obtain ⟨contentAtom, hcontent, hexpected⟩ := exists_contentLeaf rules message hcontentFits
  obtain ⟨stampAtom, hstamp, hencoded⟩ := exists_bytesLeaf rules hstampFits
  refine ⟨_, hfinish, fun policy capacity hpolicy hcapacity ↦ ?_⟩
  let nodes := [leaf contentAtom, leaf stampAtom]
  have hnodes : AllWellFormed 1 nodes := ⟨wellFormed_leaf 1 _, wellFormed_leaf 1 _, trivial⟩
  have hfour : 4 ≤ maxItems := by decide
  have hfew : nodes.length + 2 ≤ maxItems := hfour
  obtain ⟨opened, received, behind, harray, hreceived, hprotected, hfaces⟩ :=
    exists_delivery hrules hconveyable hheaders hfew hnodes hpolicy hcapacity
  obtain ⟨contentItem, middle, hnextContent, hcontentValue, hcontentTags, hmiddle⟩ :=
    hfaces.next_leaf
  obtain ⟨stampItem, after, hnextStamp, hstampValue, hstampTags, hafter⟩ := hmiddle.next_leaf
  have hcontentRead := hexpected contentItem hcontentValue hcontentTags
  have hstampRead := expectBytes_eq_ok (hstampValue.trans hstamp) hstampTags
  obtain ⟨last, hlast⟩ := finish_of_reaches hafter.reaches
  refine ⟨received, hprotected, fun assemble ↦ ?_⟩
  rw [List.map_cons, List.map_cons, hcontent, hencoded] at harray
  suffices hrun : (readStamped policy tag [] capacity assemble).run (ofBytes _) = .ok _ last from
    Reading.decode_eq_ok hrun
  refine Reading.run_bind harray (Reading.run_bind hreceived ?_)
  refine Reading.run_bind (Reading.run_next hnextContent) ?_
  refine Reading.run_bind (Reading.run_ofExcept hcontentRead middle) ?_
  refine Reading.run_bind (Reading.run_next hnextStamp) ?_
  refine Reading.run_bind (Reading.run_ofExcept hstampRead after) ?_
  exact Reading.run_bind (Reading.run_finish hlast) rfl

/-! ### Encrypted messages -/

/-- Where an encrypted message was written, the cipher was called once, with the additional data
that the protected bytes make. -/
theorem encodeEncrypt0_eq_ok {encrypt : Bytes × Bytes → Except Error Bytes} {session : Encoder}
    {returned : Option Bytes} {calls : List (Bytes × Bytes)}
    (hrun : (encodeEncrypt0 message (fun plaintext aad ↦ recording encrypt (plaintext, aad))
      (.growable rules)).run [] = (.ok returned session, calls)) :
    ∃ headers aad ciphertext, encodeHeaderItems rules message.parameters = .ok headers ∧
      EncryptionAad.build ⟨.encrypt0, headers.protectedBytes, message.externalAad⟩ = .ok aad ∧
      calls = [(message.payload, aad)] ∧ encrypt (message.payload, aad) = .ok ciphertext ∧
      returned = (if message.isDetached then some ciphertext else none) ∧
      appendMessage (message.tag? .encrypt0) headers (message.appendContent ciphertext)
        (.growable rules) = .ok () session := by
  have hrules : (Encoder.growable rules).rules = rules := rfl
  unfold encodeEncrypt0 at hrun
  rw [hrules] at hrun
  cases hheaders : encodeHeaderItems rules message.parameters with
  | error cause =>
    rw [hheaders] at hrun
    cases hrun
  | ok headers =>
    rw [hheaders] at hrun
    dsimp only at hrun
    cases haad : EncryptionAad.build
        ⟨.encrypt0, headers.protectedBytes, message.externalAad⟩ with
    | error cause =>
      rw [haad] at hrun
      cases hrun
    | ok aad =>
      rw [haad] at hrun
      dsimp only at hrun
      rw [run_recording_bind] at hrun
      cases hencrypt : encrypt (message.payload, aad) with
      | error cause =>
        rw [hencrypt] at hrun
        cases hrun
      | ok ciphertext =>
        rw [hencrypt] at hrun
        dsimp only at hrun
        cases happend : appendMessage (message.tag? .encrypt0) headers
            (message.appendContent ciphertext) (.growable rules) with
        | error cause failed =>
          rw [happend] at hrun
          cases hrun
        | ok result last =>
          rw [happend] at hrun
          cases hrun
          exact ⟨headers, aad, ciphertext, rfl, haad, rfl, hencrypt, rfl, happend⟩

/-- An encrypted message is received with the protected bytes and the ciphertext of the sender. -/
theorem exists_encrypted (hrules : rules.KeepsNumbers)
    (hconveyable : Conveyable message.parameters) {headers : HeaderItems}
    (hheaders : encodeHeaderItems rules message.parameters = .ok headers) {ciphertext : Bytes}
    {session : Encoder}
    (happend : appendMessage (message.tag? .encrypt0) headers (message.appendContent ciphertext)
      (.growable rules) = .ok () session) :
    ∃ bytes, session.finish = .ok bytes ∧
      ∀ (policy : TagPolicy) (capacity : Nat), policy.Takes message.isTagged →
        message.parameters.length ≤ capacity →
        ∃ received : DecodedHeaders, received.protectedBytes = headers.protectedBytes ∧
          decodeEncrypt0 bytes policy [] capacity =
            .ok ⟨received, message.conveyed ciphertext⟩ := by
  obtain ⟨hfinish, hfits⟩ :=
    finish_of_appendMessage (appends_content rules message ciphertext) happend
  have hcontentFits := Nat.le_trans (length_item_le (.head _)) hfits
  obtain ⟨atom, hcontent, hexpected⟩ := exists_contentLeaf rules message hcontentFits
  refine ⟨_, hfinish, fun policy capacity hpolicy hcapacity ↦ ?_⟩
  let nodes := [leaf atom]
  have hnodes : AllWellFormed 1 nodes := ⟨wellFormed_leaf 1 _, trivial⟩
  have hthree : 3 ≤ maxItems := by decide
  have hfew : nodes.length + 2 ≤ maxItems := hthree
  obtain ⟨opened, received, behind, harray, hreceived, hprotected, hfaces⟩ :=
    exists_delivery hrules hconveyable hheaders hfew hnodes hpolicy hcapacity
  obtain ⟨item, after, hnext, hvalue, htags, hafter⟩ := hfaces.next_leaf
  obtain ⟨last, hlast⟩ := finish_of_reaches hafter.reaches
  refine ⟨received, hprotected, ?_⟩
  rw [List.map_cons, hcontent] at harray
  suffices hrun : (readEncrypt0 policy [] capacity).run (ofBytes _) = .ok _ last from
    Reading.decode_eq_ok hrun
  refine Reading.run_bind harray (Reading.run_bind hreceived ?_)
  refine Reading.run_bind (Reading.run_next hnext) ?_
  refine Reading.run_bind (Reading.run_ofExcept (hexpected item hvalue htags) after) ?_
  exact Reading.run_bind (Reading.run_finish hlast) rfl

end Messages

/-! ### Agreement -/

/-- Whenever a signed message could be written, its signer was called once, and every recipient
that takes its tag or its lack of one, and has room for its parameters, reads it and calls the
check once, with the signature and with exactly what the signer was given. -/
def Sign1Agrees (rules : Rules) (message : Message) : Prop :=
  ∀ (sign : SignInputs → Except Error Bytes) (session : Encoder) (signed : List SignInputs),
    (encodeSign1 message (recording sign) (.growable rules)).run [] = (.ok () session, signed) →
    ∃ (inputs : SignInputs) (signature bytes : Bytes), signed = [inputs] ∧
      inputs.externalAad = message.externalAad ∧ inputs.payload = message.payload ∧
      sign inputs = .ok signature ∧ session.finish = .ok bytes ∧
      ∀ (policy : TagPolicy) (capacity : Nat), policy.Takes message.isTagged →
        message.parameters.length ≤ capacity →
        ∃ received, decodeSign1 bytes policy [] capacity = .ok received ∧
          received.signature = signature ∧
          received.payload? = message.conveyed message.payload ∧
          ∀ (check : Bytes × SignInputs → Except Error Unit) (detached? : Option Bytes),
            (message.isDetached = true → detached? = some message.payload) →
            (received.verify message.externalAad detached?
              fun signature inputs ↦ recording check (signature, inputs)).run [] =
                (check (signature, inputs), [(signature, inputs)])

/-- The same of a message with an authentication tag. -/
def Mac0Agrees (rules : Rules) (message : Message) : Prop :=
  ∀ (authenticate : MacInputs → Except Error Bytes) (session : Encoder)
    (authenticated : List MacInputs),
    (encodeMac0 message (recording authenticate) (.growable rules)).run [] =
      (.ok () session, authenticated) →
    ∃ (inputs : MacInputs) (tag bytes : Bytes), authenticated = [inputs] ∧
      inputs.externalAad = message.externalAad ∧ inputs.payload = message.payload ∧
      authenticate inputs = .ok tag ∧ session.finish = .ok bytes ∧
      ∀ (policy : TagPolicy) (capacity : Nat), policy.Takes message.isTagged →
        message.parameters.length ≤ capacity →
        ∃ received, decodeMac0 bytes policy [] capacity = .ok received ∧
          received.tag = tag ∧ received.payload? = message.conveyed message.payload ∧
          ∀ (check : Bytes × MacInputs → Except Error Unit) (detached? : Option Bytes),
            (message.isDetached = true → detached? = some message.payload) →
            (received.verify message.externalAad detached?
              fun tag inputs ↦ recording check (tag, inputs)).run [] =
                (check (tag, inputs), [(tag, inputs)])

/-- Whenever an encrypted message could be written, its cipher was called once, a ciphertext that is
conveyed otherwise was handed back, and every recipient deciphers with the ciphertext and with
exactly the additional data that the sender enciphered with. -/
def Encrypt0Agrees (rules : Rules) (message : Message) : Prop :=
  ∀ (encrypt : Bytes × Bytes → Except Error Bytes) (session : Encoder) (returned : Option Bytes)
    (encrypted : List (Bytes × Bytes)),
    (encodeEncrypt0 message (fun plaintext aad ↦ recording encrypt (plaintext, aad))
      (.growable rules)).run [] = (.ok returned session, encrypted) →
    ∃ aad ciphertext bytes : Bytes, encrypted = [(message.payload, aad)] ∧
      encrypt (message.payload, aad) = .ok ciphertext ∧
      returned = (if message.isDetached then some ciphertext else none) ∧
      session.finish = .ok bytes ∧
      ∀ (policy : TagPolicy) (capacity : Nat), policy.Takes message.isTagged →
        message.parameters.length ≤ capacity →
        ∃ received, decodeEncrypt0 bytes policy [] capacity = .ok received ∧
          received.ciphertext? = message.conveyed ciphertext ∧
          ∀ (decrypt : Bytes × Bytes → Except Error Bytes) (detached? : Option Bytes),
            (message.isDetached = true → detached? = some ciphertext) →
            (received.decrypt message.externalAad detached?
              fun ciphertext aad ↦ recording decrypt (ciphertext, aad)).run [] =
                (decrypt (ciphertext, aad), [(ciphertext, aad)])

section Agreement

variable {rules : Rules} {message : Message}

theorem sign1Agrees (hrules : rules.KeepsNumbers) (hconveyable : Conveyable message.parameters) :
    Sign1Agrees rules message := by
  intro sign session signed hrun
  rw [encodeSign1_eq_encodeStamped] at hrun
  obtain ⟨headers, signature, hheaders, rfl, hsign, happend⟩ := encodeStamped_eq_ok hrun
  obtain ⟨bytes, hfinish, hreceived⟩ := exists_stamped hrules hconveyable hheaders happend
  refine ⟨_, signature, bytes, rfl, rfl, rfl, hsign, hfinish,
    fun policy capacity hpolicy hroom ↦ ?_⟩
  obtain ⟨received, hprotected, hdecode⟩ := hreceived policy capacity hpolicy hroom
  refine ⟨⟨received, message.conveyed message.payload, signature⟩, ?_, rfl, rfl,
    fun check detached? hdetached ↦ ?_⟩
  · rw [decodeSign1, readSign1_eq_readStamped]
    exact hdecode DecodedSign1.mk
  · rw [DecodedSign1.verify, conveyed_orElse hdetached, hprotected]
    rfl

theorem mac0Agrees (hrules : rules.KeepsNumbers) (hconveyable : Conveyable message.parameters) :
    Mac0Agrees rules message := by
  intro authenticate session authenticated hrun
  rw [encodeMac0_eq_encodeStamped] at hrun
  obtain ⟨headers, tag, hheaders, rfl, hauthenticate, happend⟩ := encodeStamped_eq_ok hrun
  obtain ⟨bytes, hfinish, hreceived⟩ := exists_stamped hrules hconveyable hheaders happend
  refine ⟨_, tag, bytes, rfl, rfl, rfl, hauthenticate, hfinish,
    fun policy capacity hpolicy hroom ↦ ?_⟩
  obtain ⟨received, hprotected, hdecode⟩ := hreceived policy capacity hpolicy hroom
  refine ⟨⟨received, message.conveyed message.payload, tag⟩, ?_, rfl, rfl,
    fun check detached? hdetached ↦ ?_⟩
  · rw [decodeMac0, readMac0_eq_readStamped]
    exact hdecode DecodedMac0.mk
  · rw [DecodedMac0.verify, conveyed_orElse hdetached, hprotected]
    rfl

theorem encrypt0Agrees (hrules : rules.KeepsNumbers)
    (hconveyable : Conveyable message.parameters) : Encrypt0Agrees rules message := by
  intro encrypt session returned encrypted hrun
  obtain ⟨headers, aad, ciphertext, hheaders, haad, rfl, hencrypt, hreturned, happend⟩ :=
    encodeEncrypt0_eq_ok hrun
  obtain ⟨bytes, hfinish, hreceived⟩ := exists_encrypted hrules hconveyable hheaders happend
  refine ⟨aad, ciphertext, bytes, rfl, hencrypt, hreturned, hfinish,
    fun policy capacity hpolicy hroom ↦ ?_⟩
  obtain ⟨received, hprotected, hdecode⟩ := hreceived policy capacity hpolicy hroom
  refine ⟨_, hdecode, rfl, fun decrypt detached? hdetached ↦ ?_⟩
  rw [DecodedEncrypt0.decrypt, conveyed_orElse hdetached, hprotected]
  dsimp only
  rw [haad]
  rfl

end Agreement

/-- Sender and receiver feed the cryptography the same bytes, for all kinds of messages whose
parameters can be conveyed, whether or not they are tagged or detached. -/
theorem sender_receiver_agreement {rules : Rules}
    (hrules : rules = .preferred ∨ rules = .noPreferred ∨ rules = .coreDeterministic)
    (message : Message) (hconveyable : Conveyable message.parameters) :
    Sign1Agrees rules message ∧ Mac0Agrees rules message ∧ Encrypt0Agrees rules message := by
  have hkeeps : rules.KeepsNumbers := by
    obtain rfl | rfl | rfl := hrules <;> exact ⟨rfl, rfl⟩
  exact ⟨sign1Agrees hkeeps hconveyable, mac0Agrees hkeeps hconveyable,
    encrypt0Agrees hkeeps hconveyable⟩

/-- A tagged message with a critical algorithm identifier and an unprotected key identifier. -/
def keyedMessage : Message where
  parameters :=
    [⟨HeaderLabel.alg.code, true, true, .int (-7)⟩,
      ⟨HeaderLabel.kid.code, false, false, .bytes [0x31, 0x31]⟩]
  externalAad := []
  payload := [0x2a]
  isDetached := false
  isTagged := true

theorem conveyable_keyedMessage : Conveyable keyedMessage.parameters where
  labels_nodup := by decide
  label_ne_crit := by simp [keyedMessage]; decide
  critical_protected := by simp [keyedMessage]
  critical_few := by decide
  native := by simp [keyedMessage, ParameterValue.IsNative]

/-- The message is one that can be written in all three ways, and its sender and its recipients
agree. -/
theorem sender_receiver_agreement_keyedMessage :
    ((∃ session signed, (encodeSign1 keyedMessage (recording fun _ ↦ .ok [0x55])
        (.growable .preferred)).run [] = (.ok () session, signed)) ∧
      (∃ session authenticated, (encodeMac0 keyedMessage (recording fun _ ↦ .ok [0x55])
        (.growable .preferred)).run [] = (.ok () session, authenticated)) ∧
      ∃ session encrypted, (encodeEncrypt0 keyedMessage
        (fun plaintext aad ↦ recording (fun _ ↦ .ok [0x55]) (plaintext, aad))
        (.growable .preferred)).run [] = (.ok none session, encrypted)) ∧
    Sign1Agrees .preferred keyedMessage ∧ Mac0Agrees .preferred keyedMessage ∧
      Encrypt0Agrees .preferred keyedMessage :=
  ⟨⟨⟨_, _, rfl⟩, ⟨_, _, rfl⟩, ⟨_, _, by with_unfolding_all rfl⟩⟩,
    sender_receiver_agreement (.inl rfl) keyedMessage conveyable_keyedMessage⟩

end Cose
