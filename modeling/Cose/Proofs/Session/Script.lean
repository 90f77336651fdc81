import Mathlib.Tactic.Common
import Cose.Proofs.Session.Region

/-!
# Calls as scripts

A call that runs no program of its user takes the same steps in all sessions with the same rules,
whatever was written before. `Call.script` lists these steps, and the session after some calls is
the one after their scripts (`Call.snd_runAll`).
-/

set_option autoImplicit false
set_option relaxedAutoImplicit false

namespace Cose

open Cbor

/-! ### Steps in a row -/

namespace Step

/-- Take steps one after the other. -/
def applyAll (encoder : Encoder) (steps : List Step) : Encoder := steps.foldl apply encoder

theorem applyAll_append (encoder : Encoder) (first second : List Step) :
    applyAll encoder (first ++ second) = applyAll (applyAll encoder first) second :=
  List.foldl_append

theorem apply_of_failed {encoder : Encoder} (hfailed : encoder.Failed) (step : Step) :
    step.apply encoder = encoder :=
  Outlook.keeps_of_failed hfailed step (fun _ ↦ trivial) encoder rfl

theorem applyAll_of_failed {encoder : Encoder} (hfailed : encoder.Failed) (steps : List Step) :
    applyAll encoder steps = encoder := by
  induction steps with
  | nil => rfl
  | cons step rest ih => rwa [applyAll, List.foldl_cons, step.apply_of_failed hfailed]

theorem rules_applyAll (encoder : Encoder) (steps : List Step) :
    (applyAll encoder steps).rules = encoder.rules := by
  induction steps generalizing encoder with
  | nil => rfl
  | cons step rest ih => exact (ih (step.apply encoder)).trans (step.rules_apply encoder)

theorem applyAll_operations (encoder : Encoder) (operations : List Operation) :
    applyAll encoder (operations.map operation) = encoder.perform operations := List.foldl_map

end Step

/-! ### Programs that take steps -/

namespace Session

variable {α β : Type}

/-- Whether a program leaves every session as certain steps do. -/
def Leaves (program : Session α) (steps : List Step) : Prop :=
  ∀ encoder, (outcome (program encoder)).2 = Step.applyAll encoder steps

/-- Whether a program leaves every session as certain steps do, and fails only if they do. -/
structure Takes (program : Session α) (steps : List Step) : Prop where
  leaves : program.Leaves steps
  failed_of_error : ∀ encoder cause, (outcome (program encoder)).1 = .error cause →
    (Step.applyAll encoder steps).Failed

theorem takes_pure (value : α) : (pure value : Session α).Takes [] := by
  refine ⟨fun encoder ↦ rfl, fun encoder cause herror ↦ ?_⟩
  change Except.ok value = Except.error cause at herror
  cases herror

theorem takes_modify {change : Encoder → Encoder} {steps : List Step}
    (hchange : ∀ encoder, change encoder = Step.applyAll encoder steps) :
    (modify change : Session PUnit).Takes steps := by
  refine ⟨hchange, fun encoder cause herror ↦ ?_⟩
  change Except.ok PUnit.unit = Except.error cause at herror
  cases herror

theorem takes_closeWrap (includeHead : Bool) :
    (modifyGet (·.closeWrap includeHead) : Session _).Takes [.operation (.closing .wrap)] := by
  refine ⟨fun encoder ↦ ?_, fun encoder cause herror ↦ ?_⟩
  · change (encoder.closeWrap includeHead).2 = (encoder.closeWrap false).2
    rw [encoder.snd_closeWrap, encoder.snd_closeWrap]
  · change Except.ok (encoder.closeWrap includeHead).1 = Except.error cause at herror
    cases herror

theorem takes_check : Session.check.Takes [] := by
  refine ⟨fun encoder ↦ ?_, fun encoder cause herror ↦ ?_⟩
  · obtain ⟨_, _, error, _, _⟩ := encoder
    cases error <;> rfl
  · obtain ⟨_, _, error, _, _⟩ := encoder
    cases error with
    | none => cases herror
    | some found => exact Option.some_ne_none found

section Bind

variable {first : Session α} {next : α → Session β} {steps nextSteps : List Step}

/-- Where the first program fails, the steps of the next change nothing more. -/
theorem Takes.leaves_bind (hfirst : first.Takes steps)
    (hnext : ∀ value, (next value).Leaves nextSteps) :
    (first >>= next).Leaves (steps ++ nextSteps) := by
  intro encoder
  have hmiddle := hfirst.leaves encoder
  have hfails := hfirst.failed_of_error encoder
  rw [← hmiddle] at hfails
  rw [outcome_bind, Step.applyAll_append, ← hmiddle]
  rcases hrun : outcome (first encoder) with ⟨cause | value, middle⟩
  · rw [hrun] at hfails
    exact (Step.applyAll_of_failed (hfails cause rfl) nextSteps).symm
  · exact hnext value middle

theorem Takes.bind (hfirst : first.Takes steps) (hnext : ∀ value, (next value).Takes nextSteps) :
    (first >>= next).Takes (steps ++ nextSteps) := by
  refine ⟨hfirst.leaves_bind fun value ↦ (hnext value).leaves, fun encoder cause herror ↦ ?_⟩
  have hmiddle := hfirst.leaves encoder
  have hfails := hfirst.failed_of_error encoder
  rw [Step.applyAll_append, ← hmiddle]
  rw [← hmiddle] at hfails
  rw [outcome_bind] at herror
  rcases hrun : outcome (first encoder) with ⟨found | value, middle⟩
  · rw [hrun] at hfails
    rw [Step.applyAll_of_failed (hfails found rfl)]
    exact hfails found rfl
  · rw [hrun] at herror
    exact (hnext value).failed_of_error middle cause herror

end Bind

end Session

/-! ### The steps of headers -/

/-- The step that appends a value that no program writes. -/
def ParameterValue.step : ParameterValue → Step
  | encoded item => .encoded item
  | value => .operation (.scalar value.scalar)

theorem appendNative_eq_step {value : ParameterValue} (happended : value.IsAppended)
    (encoder : Encoder) : appendNative encoder value = value.step.apply encoder := by
  cases value with
  | written writer => exact happended.elim
  | small value => cases value <;> rfl
  | _ => rfl

/-- The steps that write the entry of a parameter. -/
def Parameter.steps (parameter : Parameter) : List Step :=
  [.operation (.scalar (.int parameter.label)), parameter.value.step]

/-- Whether headers are refused before anything is written. -/
def refusesHeaders (parameters : List Parameter) : Bool :=
  let critical := parameters.filter (·.isCritical)
  critical.any (!·.isProtected) || decide (critical.length > maxCriticalParameters) ||
    !critical.isEmpty && parameters.any (·.label == HeaderLabel.crit.code)

/-- The steps that write both buckets of headers. -/
def headerSteps (parameters : List Parameter) : List Step :=
  [.operation (.opening .wrap), .operation (.opening .map)] ++
    (parameters.filter (·.isProtected)).flatMap Parameter.steps ++
    (entryOperations (criticalEntries parameters)).map .operation ++
    [.operation (.closing .map), .operation (.closing .wrap), .operation (.opening .map)] ++
    (parameters.filter (!·.isProtected)).flatMap Parameter.steps ++
    [.operation (.closing .map)]

namespace Session

theorem takes_encodeParameter {parameter : Parameter} (happended : parameter.value.IsAppended) :
    (encodeParameter parameter).Takes parameter.steps := by
  have hentry : (modify (appendParameter · parameter) : Session PUnit).Takes parameter.steps :=
    takes_modify fun encoder ↦ appendNative_eq_step happended _
  have hchecked := hentry.bind fun _ ↦ takes_check
  rw [List.append_nil] at hchecked
  rwa [funext (encodeParameter_eq_check happended)]

theorem takes_forM_encodeParameter {parameters : List Parameter}
    (happended : ∀ parameter ∈ parameters, parameter.value.IsAppended) :
    (parameters.forM encodeParameter).Takes (parameters.flatMap Parameter.steps) := by
  induction parameters with
  | nil => exact takes_pure ()
  | cons parameter rest ih =>
    obtain ⟨hfirst, hrest⟩ := List.forall_mem_cons.1 happended
    exact (takes_encodeParameter hfirst).bind fun _ ↦ ih hrest

theorem leaves_encodeBuckets {parameters : List Parameter}
    (happended : ∀ parameter ∈ parameters, parameter.value.IsAppended) :
    (encodeBuckets parameters).Leaves (headerSteps parameters) := by
  have hentries (keep : Parameter → Bool) := takes_forM_encodeParameter fun parameter hmem ↦
    happended parameter (List.mem_of_mem_filter (p := keep) hmem)
  have hopened : (modify fun encoder ↦ encoder.openWrap.openMap : Session PUnit).Takes
      [.operation (.opening .wrap), .operation (.opening .map)] := takes_modify fun _ ↦ rfl
  have hclosed : (modify fun encoder ↦ (appendCriticalLabels encoder
      (parameters.filter (·.isCritical))).closeMap : Session PUnit).Takes
        ((entryOperations (criticalEntries parameters)).map .operation ++
          [.operation (.closing .map)]) := by
    refine takes_modify fun encoder ↦ ?_
    rw [appendCriticalLabels_eq, Step.applyAll_append, Step.applyAll_operations]
    rfl
  have hreopened : (modify Encoder.openMap : Session PUnit).Takes
      [.operation (.opening .map)] := takes_modify fun _ ↦ rfl
  have hreclosed : (modify Encoder.closeMap : Session PUnit).Takes
      [.operation (.closing .map)] := takes_modify fun _ ↦ rfl
  have hsteps : headerSteps parameters =
      [.operation (.opening .wrap), .operation (.opening .map)] ++
        ((parameters.filter (·.isProtected)).flatMap Parameter.steps ++
          (((entryOperations (criticalEntries parameters)).map .operation ++
            [.operation (.closing .map)]) ++
            ([.operation (.closing .wrap)] ++ ([.operation (.opening .map)] ++
              ((parameters.filter (!·.isProtected)).flatMap Parameter.steps ++
                [.operation (.closing .map)]))))) := by
    simp [headerSteps]
  rw [hsteps]
  unfold encodeBuckets
  refine hopened.leaves_bind fun _ ↦ (hentries (·.isProtected)).leaves_bind fun _ ↦ ?_
  refine hclosed.leaves_bind fun _ ↦ (takes_closeWrap false).leaves_bind fun span? ↦ ?_
  refine hreopened.leaves_bind fun _ ↦ (hentries (!·.isProtected)).leaves_bind fun _ ↦ ?_
  refine hreclosed.leaves_bind fun _ ↦ takes_check.leaves_bind fun _ encoder ↦ ?_
  cases span? <;> rfl

/-- Headers are refused before anything is written, or both buckets are written. -/
theorem leaves_encodeHeaders {parameters : List Parameter}
    (happended : ∀ parameter ∈ parameters, parameter.value.IsAppended) :
    (encodeHeaders parameters).Leaves
      (if refusesHeaders parameters then [] else headerSteps parameters) := by
  have hrefusal (hrefused : refusesHeaders parameters = true) (cause : Error)
      (next : PUnit → Session Encoder.Span) :
      ((throw cause : Session PUnit) >>= next).Leaves
        (if refusesHeaders parameters then [] else headerSteps parameters) := by
    rw [if_pos hrefused]
    exact fun _ ↦ rfl
  unfold encodeHeaders
  dsimp only
  split
  next hunprotected =>
    exact hrefusal (by simp only [refusesHeaders, hunprotected, Bool.true_or]) _ _
  next hprotected =>
    split
    next hmany =>
      exact hrefusal (by simp only [refusesHeaders, hmany, decide_true, Bool.or_true,
        Bool.true_or]) _ _
    next hfew =>
      split
      next hlisted => exact hrefusal (by simp only [refusesHeaders, hlisted, Bool.or_true]) _ _
      next hfree =>
        have hwritten : refusesHeaders parameters = false := by
          simp only [refusesHeaders, Bool.eq_false_of_not_eq_true hprotected,
            decide_eq_false hfew, Bool.eq_false_of_not_eq_true hfree, Bool.or_false]
        rw [hwritten]
        exact leaves_encodeBuckets happended

end Session

/-! ### The steps of messages -/

/-- The step that appends a byte string of a message, or null in place of it. -/
def Message.contentStep (message : Message) (content : Bytes) : Step :=
  .operation (.scalar (message.contentScalar content))

/-- The steps that append the array of a message, given those for what follows the headers. -/
def messageSteps (tag? : Option MessageTag) (headers : HeaderItems) (rest : List Step) :
    List Step :=
  tag?.toList.map (fun tag ↦ .operation (.tag tag.number)) ++
    [.operation (.opening .array), .encoded headers.protectedItem,
      .encoded headers.unprotectedItem] ++ rest ++ [.operation (.closing .array)]

/-- The steps that append a message with a stamp. -/
def stampedSteps {ι : Type} (rules : Rules) (tag : MessageTag) (message : Message)
    (inputs : Bytes → ι) (stamp : ι → Except Error Bytes) : List Step :=
  match encodeHeaderItems rules message.parameters with
  | .error _ => []
  | .ok headers =>
    match stamp (inputs headers.protectedBytes) with
    | .error _ => []
    | .ok result =>
      messageSteps (message.tag? tag) headers
        [message.contentStep message.payload, .operation (.scalar (.bytes result))]

/-- The steps that append an encrypted message. -/
def encryptedSteps (rules : Rules) (message : Message)
    (encrypt : (plaintext aad : Bytes) → Except Error Bytes) : List Step :=
  match encodeHeaderItems rules message.parameters with
  | .error _ => []
  | .ok headers =>
    match EncryptionAad.build ⟨.encrypt0, headers.protectedBytes, message.externalAad⟩ with
    | .error _ => []
    | .ok aad =>
      match encrypt message.payload aad with
      | .error _ => []
      | .ok ciphertext =>
        messageSteps (message.tag? .encrypt0) headers [message.contentStep ciphertext]

namespace Session

theorem takes_appendMessage (tag? : Option MessageTag) (headers : HeaderItems)
    {appendRest : Encoder → Encoder} {rest : List Step}
    (hrest : ∀ encoder, appendRest encoder = Step.applyAll encoder rest) :
    (appendMessage tag? headers appendRest).Takes (messageSteps tag? headers rest) := by
  rw [← List.append_nil (messageSteps tag? headers rest)]
  refine .bind (takes_modify fun encoder ↦ ?_) fun _ ↦ takes_check
  rw [messageSteps, Step.applyAll_append, Step.applyAll_append, ← hrest]
  cases tag? <;> rfl

theorem snd_encodeStamped {ι : Type} (tag : MessageTag) (message : Message) (inputs : Bytes → ι)
    (stamp : ι → Except Error Bytes) (encoder : Encoder) :
    (outcome (encodeStamped (m := Id) tag message inputs stamp encoder)).2 =
      Step.applyAll encoder (stampedSteps encoder.rules tag message inputs stamp) := by
  unfold encodeStamped stampedSteps
  cases encodeHeaderItems encoder.rules message.parameters with
  | error cause => rfl
  | ok headers =>
    dsimp only
    cases stamp (inputs headers.protectedBytes) with
    | error cause => rfl
    | ok result =>
      refine (takes_appendMessage (message.tag? tag) headers fun encoder ↦ ?_).leaves encoder
      rw [Message.appendContent_eq]
      rfl

theorem snd_encodeEncrypt0 (message : Message)
    (encrypt : (plaintext aad : Bytes) → Except Error Bytes) (encoder : Encoder) :
    (outcome (encodeEncrypt0 (m := Id) message encrypt encoder)).2 =
      Step.applyAll encoder (encryptedSteps encoder.rules message encrypt) := by
  unfold encodeEncrypt0 encryptedSteps
  cases encodeHeaderItems encoder.rules message.parameters with
  | error cause => rfl
  | ok headers =>
    dsimp only
    cases EncryptionAad.build ⟨.encrypt0, headers.protectedBytes, message.externalAad⟩ with
    | error cause => rfl
    | ok aad =>
      dsimp only
      cases encrypt message.payload aad with
      | error cause => rfl
      | ok ciphertext =>
        have htakes := @takes_appendMessage (message.tag? .encrypt0) headers
          (message.appendContent ciphertext) [message.contentStep ciphertext]
          (message.appendContent_eq ciphertext)
        dsimp only [bind, pure]
        rw [← htakes.leaves encoder]
        cases appendMessage (message.tag? .encrypt0) headers (message.appendContent ciphertext)
          encoder <;> rfl

end Session

/-! ### The steps of calls -/

namespace Call

/-- The steps of a decimal fraction or bigfloat. -/
def scaledOperations (rules : Rules) (tag : UInt64) (mantissa : Encoder.Mantissa)
    (exponent : Int64) : List Operation :=
  [.tag tag, .opening .array, .scalar (.int exponent)] ++
    (match mantissa with
      | .int number => [.scalar (.int number)]
      | .big negative magnitude => bigNumberOperations rules negative magnitude) ++
    [.closing .array]

/-- The steps that a call takes under given rules, a program of the user apart. -/
def script (rules : Rules) : Call → List Step
  | operation step => [.operation step]
  | bool truth => [.operation (.scalar (.simple (if truth then simpleTrue else simpleFalse)))]
  | null => [.operation (.scalar (.simple simpleNull))]
  | undefined => [.operation (.scalar (.simple simpleUndefined))]
  | head major argument minWidth => [.encoded (encodeHead major argument minWidth)]
  | raw data => [.raw data]
  | encoded item => [.encoded item]
  | bigNumber negative magnitude => (bigNumberOperations rules negative magnitude).map .operation
  | decimalFraction mantissa exponent =>
    (scaledOperations rules Encoder.decimalFractionTag mantissa exponent).map .operation
  | bigfloat mantissa exponent =>
    (scaledOperations rules Encoder.bigfloatTag mantissa exponent).map .operation
  | value content => content.outline.operations.map .operation
  | closeWrap _ => [.operation (.closing .wrap)]
  | closeWrapBytes _ => [.operation (.closing .wrap)]
  | openRegion capacity content => [.openRegion capacity content]
  | closeRegion used => [.closeRegion used]
  | headers parameters => if refusesHeaders parameters then [] else headerSteps parameters
  | sign1 message sign =>
    stampedSteps rules .sign1 message (⟨·, none, message.externalAad, message.payload⟩) sign
  | mac0 message authenticate =>
    stampedSteps rules .mac0 message (⟨.mac0, ·, message.externalAad, message.payload⟩)
      authenticate
  | encrypt0 message encrypt => encryptedSteps rules message encrypt

/-- The steps of several calls. -/
def scriptAll (rules : Rules) (calls : List Call) : List Step := calls.flatMap (script rules)

theorem appendScaled_eq_perform (encoder : Encoder) (tag : UInt64) (mantissa : Encoder.Mantissa)
    (exponent : Int64) :
    encoder.appendScaled tag mantissa exponent =
      encoder.perform (scaledOperations encoder.rules tag mantissa exponent) := by
  have hrules : ((encoder.addTag tag).openArray.appendInt exponent).rules = encoder.rules :=
    Step.rules_applyAll encoder [.operation (.tag tag), .operation (.opening .array),
      .operation (.scalar (.int exponent))]
  unfold scaledOperations
  rw [Encoder.perform_append, Encoder.perform_append]
  cases mantissa with
  | int number => rfl
  | big negative magnitude =>
    rw [Encoder.appendScaled, Encoder.appendMantissa, Encoder.appendBigNumber_eq, hrules]
    rfl

/-- A call that runs no program of its user takes the steps of its script. -/
theorem snd_run {call : Call} (hwriters : call.writers = []) (encoder : Encoder) :
    (call.run encoder).2 = Step.applyAll encoder (call.script encoder.rules) := by
  cases call with
  | bigNumber negative magnitude =>
    rw [script, Step.applyAll_operations]
    exact encoder.appendBigNumber_eq negative magnitude
  | decimalFraction mantissa exponent =>
    rw [script, Step.applyAll_operations]
    exact appendScaled_eq_perform encoder _ mantissa exponent
  | bigfloat mantissa exponent =>
    rw [script, Step.applyAll_operations]
    exact appendScaled_eq_perform encoder _ mantissa exponent
  | value content =>
    rw [script, Step.applyAll_operations]
    exact encoder.appendValue_eq_perform content
  | closeWrap includeHead => exact (Session.takes_closeWrap includeHead).leaves encoder
  | closeWrapBytes includeHead =>
    change (encoder.closeWrapBytes includeHead).2 = _
    rw [Encoder.snd_closeWrapBytes]
    exact (Session.takes_closeWrap includeHead).leaves encoder
  | headers parameters =>
    refine Session.leaves_encodeHeaders (fun parameter hmem ↦ ?_) encoder
    obtain ⟨label, isProtected, isCritical, value⟩ := parameter
    cases value with
    | written writer =>
      have hwriter : writer ∈ (headers parameters).writers :=
        List.mem_filterMap.2 ⟨_, hmem, rfl⟩
      rw [hwriters] at hwriter
      cases hwriter
    | _ => trivial
  | sign1 message sign =>
    let inputs : Bytes → SignInputs := (⟨·, none, message.externalAad, message.payload⟩)
    exact Session.snd_encodeStamped .sign1 message inputs sign encoder
  | mac0 message authenticate =>
    let inputs : Bytes → MacInputs := (⟨.mac0, ·, message.externalAad, message.payload⟩)
    exact Session.snd_encodeStamped .mac0 message inputs authenticate encoder
  | encrypt0 message encrypt => exact Session.snd_encodeEncrypt0 message encrypt encoder
  | _ => rfl

/-- What calls leave is what their scripts leave, one after the other. -/
theorem snd_runAll {calls : List Call} (hwriters : ∀ call ∈ calls, call.writers = [])
    (encoder : Encoder) :
    (runAll encoder calls).2 = Step.applyAll encoder (scriptAll encoder.rules calls) := by
  induction calls generalizing encoder with
  | nil => rfl
  | cons call rest ih =>
    obtain ⟨hcall, hrest⟩ := List.forall_mem_cons.1 hwriters
    have hrules := Step.rules_applyAll encoder (call.script encoder.rules)
    rw [scriptAll, List.flatMap_cons, Step.applyAll_append]
    change (runAll (call.run encoder).2 rest).2 = _
    rw [snd_run hcall, ih hrest, hrules]
    rfl

end Call

end Cose
