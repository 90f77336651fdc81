import Mathlib.Tactic.Common
import Cose.Proofs.Cbor.Encoder.Progress
import Cose.Proofs.Session.Calls

/-!
# Programs in steps

Whatever a user does to an encoding session comes down to steps of a few kinds. `Session.Traced`
says that a program takes such steps only and goes on by what it sees of the session, and keeps
account of the sessions at which the program closes a map. A user may see less of a session than
all of it: an `Outlook` says how much, and whether the user works with regions.

Any calls are a program in steps if the programs are that they run on the session
(`Call.traceable_transcript`). So what is proved of a step and of what is seen holds of all calls.
-/

set_option autoImplicit false
set_option relaxedAutoImplicit false

namespace Cose

open Cbor

/-! ### Regions -/

namespace Cbor.Encoder

/-- Note the capacity of the innermost open item, a region. -/
def setCapacity (encoder : Encoder) (capacity : Nat) : Encoder :=
  { encoder with
    frames :=
      match encoder.frames with
      | [] => []
      | frame :: outer => { frame with count := capacity } :: outer }

/-- Hold a number of bytes beyond the end of the output, with given content at their start. -/
def reserve (encoder : Encoder) (capacity : Nat) (content : Bytes) : Encoder :=
  encoder.grow capacity (·.reserve capacity content)

/-- The capacity of a region that was opened just now: there is one to write into unless the session
failed or holds no bytes. -/
def heldCapacity? (encoder : Encoder) (capacity : Nat) : Option Nat :=
  if encoder.error.isNone && !encoder.output.isSizeOnly then some capacity else none

/-- To open a region is to open an item and to hold bytes for it. -/
theorem openRegion_eq (encoder : Encoder) (capacity : Nat) (content : Bytes) :
    encoder.openRegion capacity content =
      let opened := ((encoder.openNest .region).proceed (·.setCapacity capacity)).reserve capacity
        content
      (opened.heldCapacity? capacity, opened) := by
  unfold openRegion
  generalize encoder.openNest .region = opened
  obtain ⟨output, frames, error, rules, tagPending⟩ := opened
  cases error with
  | some cause => rfl
  | none =>
    rcases Option.eq_none_or_eq_some (output.refusal? capacity) with hfits | ⟨cause, hfull⟩
    · cases output <;> cases frames <;>
        simp [hfits, proceed, reserve, grow, setCapacity, heldCapacity?, Output.isSizeOnly,
          Output.reserve]
    · cases frames <;> simp [hfull, proceed, reserve, grow, setCapacity, heldCapacity?, fail]

/-- What is answered about a region shows in the session afterwards. -/
theorem fst_openRegion (encoder : Encoder) (capacity : Nat) (content : Bytes) :
    (encoder.openRegion capacity content).1 =
      (encoder.openRegion capacity content).2.heldCapacity? capacity := by
  rw [openRegion_eq]

end Cbor.Encoder

/-! ### Steps -/

/-- The changes of a session that all others are made of. -/
inductive Step where
  /-- Append a scalar or a tag, or open or close a container. -/
  | operation (operation : Operation)
  | raw (data : Bytes)
  | encoded (item : Bytes)
  /-- Open a region and write content at its start. -/
  | openRegion (capacity : Nat) (content : Bytes)
  | closeRegion (used : Nat)

namespace Step

/-- Take a step. -/
def apply (encoder : Encoder) : Step → Encoder
  | operation step => step.apply encoder
  | raw data => encoder.appendRaw data
  | encoded item => encoder.appendEncoded item
  | openRegion capacity content => (encoder.openRegion capacity content).2
  | closeRegion used => encoder.closeRegion used

/-- Whether a step opens or closes a region. -/
def IsRegional : Step → Prop
  | openRegion _ _ => True
  | closeRegion _ => True
  | _ => False

/-- The sessions at which a step closes a map: the one before the step, if that closes a map. -/
def mapClosings (encoder : Encoder) : Step → List Encoder
  | operation (.closing .map) => [encoder]
  | _ => []

theorem eq_of_mem_mapClosings {step : Step} {encoder closing : Encoder}
    (hmem : closing ∈ step.mapClosings encoder) : closing = encoder := by
  unfold mapClosings at hmem
  split at hmem
  · exact List.mem_singleton.1 hmem
  · cases hmem

end Step

/-! ### What a user sees -/

/-- How a user works with sessions: whether with regions, what the user sees of a session, and what
the user hears of an answer. Failures and the rules of a session show, and the bytes and regions
that an answer is about are heard of as far as they are seen. -/
structure Outlook where
  usesRegions : Prop
  sight : Encoder → Encoder
  hear : Answer → Answer
  error_sight : ∀ encoder, (sight encoder).error = encoder.error
  rules_sight : ∀ encoder, (sight encoder).rules = encoder.rules
  hear_bytes : ∀ encoder start stop,
    hear (.bytes ((sight encoder).view? start stop)) = hear (.bytes (encoder.view? start stop))
  hear_region : ∀ encoder capacity, hear (.region ((sight encoder).heldCapacity? capacity)) =
    hear (.region (encoder.heldCapacity? capacity))

/-- The outlook of a user who works with regions and sees and hears everything. -/
def Outlook.full : Outlook where
  usesRegions := True
  sight := id
  hear := id
  error_sight _ := rfl
  rules_sight _ := rfl
  hear_bytes _ _ _ := rfl
  hear_region _ _ := rfl

/-- Whether a step is open to the users of an outlook. -/
def Outlook.Allows (outlook : Outlook) (step : Step) : Prop :=
  step.IsRegional → outlook.usesRegions

/-! ### Programs in steps -/

namespace Session

/-- The result of a program, failure or success. -/
def attempt {α : Type} (program : Session α) : Session (Except Error α) :=
  modifyGet fun encoder ↦ outcome (program encoder)

theorem outcome_bind {α β : Type} (first : Session α) (next : α → Session β) (encoder : Encoder) :
    outcome ((first >>= next) encoder) =
      match outcome (first encoder) with
      | (.ok value, middle) => outcome (next value middle)
      | (.error cause, middle) => (.error cause, middle) := by
  change outcome (EStateM.bind first next encoder) = _
  unfold EStateM.bind
  cases first encoder <;> rfl

/-- Programs that change a session by steps only. They may look at what is seen of the session, go
on by it, fail, and go on after a failure. The sessions at which such a program closes a map, in
order, are told from the session that it is run on. -/
inductive Traced (outlook : Outlook) :
    {α : Type} → Session α → (mapClosings : Encoder → List Encoder) → Prop
  | pure {α : Type} (value : α) : Traced outlook (pure value) fun _ ↦ []
  | throw {α : Type} (cause : Error) : Traced outlook (throw cause : Session α) fun _ ↦ []
  | look {α : Type} (view : Encoder → α) :
    Traced outlook ((fun encoder ↦ view (outlook.sight encoder)) <$> get) fun _ ↦ []
  | step (step : Step) (hallowed : outlook.Allows step) :
    Traced outlook (modify step.apply) step.mapClosings
  | closeWrap (includeHead : Bool) :
    Traced outlook (modifyGet fun encoder ↦ encoder.closeWrap includeHead) fun _ ↦ []
  | attempt {α : Type} {program : Session α} {mapClosings : Encoder → List Encoder}
    (htraced : Traced outlook program mapClosings) : Traced outlook program.attempt mapClosings
  | bind {α β : Type} {first : Session α} {next : α → Session β}
    {mapClosings : Encoder → List Encoder} {nextClosings : α → Encoder → List Encoder}
    (hfirst : Traced outlook first mapClosings)
    (hnext : ∀ value, Traced outlook (next value) (nextClosings value)) :
    Traced outlook (first >>= next) fun encoder ↦ mapClosings encoder ++
      match outcome (first encoder) with
      | (.ok value, middle) => nextClosings value middle
      | (.error _, _) => []

/-- Whether a program takes steps only. -/
def Traceable {α : Type} (outlook : Outlook) (program : Session α) : Prop :=
  ∃ mapClosings, Traced outlook program mapClosings

namespace Traceable

variable {α β : Type} {outlook : Outlook}

theorem pure (value : α) : Traceable outlook (pure value) := ⟨_, .pure value⟩

theorem throw (cause : Error) : Traceable outlook (throw cause : Session α) := ⟨_, .throw cause⟩

/-- A program may look at what of a session is the same in what is seen of it. -/
theorem look (view : Encoder → α) (hseen : ∀ encoder, view (outlook.sight encoder) = view encoder) :
    Traceable outlook (view <$> get) := by
  have hview : (fun encoder ↦ view (outlook.sight encoder)) = view := funext hseen
  have htraced : Traced outlook _ _ := .look view
  rw [hview] at htraced
  exact ⟨_, htraced⟩

theorem attempt {program : Session α} (htraceable : Traceable outlook program) :
    Traceable outlook program.attempt := by
  obtain ⟨_, htraced⟩ := htraceable
  exact ⟨_, htraced.attempt⟩

theorem bind {first : Session α} {next : α → Session β} (hfirst : Traceable outlook first)
    (hnext : ∀ value, Traceable outlook (next value)) : Traceable outlook (first >>= next) := by
  obtain ⟨_, hfirst⟩ := hfirst
  choose _ hnext using hnext
  exact ⟨_, hfirst.bind hnext⟩

theorem map {program : Session α} (htraceable : Traceable outlook program) (function : α → β) :
    Traceable outlook (function <$> program) := by
  rw [map_eq_pure_bind]
  exact htraceable.bind fun value ↦ .pure (function value)

theorem step (step : Step) (hallowed : outlook.Allows step) :
    Traceable outlook (modify step.apply) := ⟨_, .step step hallowed⟩

theorem operation (operation : Operation) :
    Traceable outlook (modify fun encoder ↦ operation.apply encoder) :=
  step (.operation operation) False.elim

theorem encoded (item : Bytes) : Traceable outlook (modify (·.appendEncoded item)) :=
  step (.encoded item) False.elim

theorem closeWrap (includeHead : Bool) :
    Traceable outlook (modifyGet (·.closeWrap includeHead) : Session (Option Encoder.Span)) :=
  ⟨_, .closeWrap includeHead⟩

/-- One change after another. -/
theorem modify_comp {first second : Encoder → Encoder}
    (hfirst : Traceable outlook (modify first : Session PUnit))
    (hsecond : Traceable outlook (modify second : Session PUnit)) :
    Traceable outlook (modify fun encoder ↦ second (first encoder) : Session PUnit) :=
  hfirst.bind fun _ ↦ hsecond

theorem modify_id : Traceable outlook (modify fun encoder ↦ encoder : Session PUnit) :=
  pure PUnit.unit

theorem perform (operations : List Operation) :
    Traceable outlook (modify fun encoder ↦ encoder.perform operations : Session PUnit) := by
  induction operations with
  | nil => exact modify_id
  | cons first rest ih => exact modify_comp (operation first) ih

/-- A program that goes on by the rules of the session takes steps only if it does for all rules. -/
theorem of_rules {program : Session α} (hrules : ∀ rules, ∃ next : Session α,
    Traceable outlook next ∧ ∀ encoder, encoder.rules = rules → program encoder = next encoder) :
    Traceable outlook program := by
  choose next hnext hprogram using hrules
  have hsplit : program = (Encoder.rules <$> get) >>= next := by
    funext encoder
    exact hprogram encoder.rules encoder rfl
  rw [hsplit]
  exact (look Encoder.rules outlook.rules_sight).bind hnext

theorem check : Traceable outlook Session.check := by
  have hsplit : Session.check = (Encoder.error <$> get) >>= fun error? ↦
      error?.elim (Pure.pure ()) fun cause ↦ MonadExcept.throw (.encode cause) := by
    funext encoder
    obtain ⟨_, _, error, _, _⟩ := encoder
    cases error <;> rfl
  rw [hsplit]
  refine (look Encoder.error outlook.error_sight).bind fun error? ↦ ?_
  cases error? with
  | none => exact pure ()
  | some cause => exact throw _

theorem forM {parameters : List Parameter} {action : Parameter → Session Unit}
    (haction : ∀ parameter ∈ parameters, Traceable outlook (action parameter)) :
    Traceable outlook (parameters.forM action) := by
  induction parameters with
  | nil => exact pure ()
  | cons parameter rest ih =>
    obtain ⟨hfirst, hrest⟩ := List.forall_mem_cons.1 haction
    exact hfirst.bind fun _ ↦ ih hrest

end Traceable

end Session

/-! #### Big numbers and fractions -/

/-- The operations that write an integer of any length. -/
def bigNumberOperations (rules : Rules) (negative : Bool) (magnitude : Bytes) : List Operation :=
  let magnitude := Magnitude.strip magnitude
  if negative ∧ magnitude ≠ [] then
    let content := Magnitude.decrement magnitude
    if rules.preferredBigNumbers ∧ content.length ≤ 8 then
      [.scalar (.negative (UInt64.ofNat (ofBigEndian content)))]
    else [.tag Encoder.negativeBigTag, .scalar (.bytes content)]
  else
    match if rules.preferredBigNumbers then Magnitude.toUInt64? magnitude else none with
    | some n => [.scalar (.unsigned n)]
    | none => [.tag Encoder.positiveBigTag, .scalar (.bytes magnitude)]

theorem Cbor.Encoder.appendBigNumber_eq (encoder : Encoder) (negative : Bool) (magnitude : Bytes) :
    encoder.appendBigNumber negative magnitude =
      encoder.perform (bigNumberOperations encoder.rules negative magnitude) := by
  by_cases hfailed : encoder.Failed
  · rw [perform_of_failed hfailed, appendBigNumber, proceed_of_failed hfailed]
  · have hlive : encoder.error = none := not_not.1 hfailed
    simp only [appendBigNumber, proceed, hlive, bigNumberOperations]
    split
    · split <;> rfl
    · cases if encoder.rules.preferredBigNumbers then
        Magnitude.toUInt64? (Magnitude.strip magnitude) else none <;> rfl

namespace Session.Traceable

variable {outlook : Outlook}

theorem bigNumber (negative : Bool) (magnitude : Bytes) :
    Traceable outlook (modify (·.appendBigNumber negative magnitude)) := by
  refine of_rules fun rules ↦ ⟨_, perform (bigNumberOperations rules negative magnitude), ?_⟩
  rintro encoder rfl
  exact congrArg (EStateM.Result.ok PUnit.unit) (encoder.appendBigNumber_eq negative magnitude)

theorem mantissa (mantissa : Encoder.Mantissa) :
    Traceable outlook (modify (·.appendMantissa mantissa)) := by
  cases mantissa with
  | int number => exact operation (.scalar (.int number))
  | big negative magnitude => exact bigNumber negative magnitude

theorem scaled (tag : UInt64) (mantissa : Encoder.Mantissa) (exponent : Int64) :
    Traceable outlook (modify (·.appendScaled tag mantissa exponent)) := by
  have hopened : Traceable outlook _ := perform [.tag tag, .opening .array, .scalar (.int exponent)]
  exact modify_comp (modify_comp hopened (.mantissa mantissa)) (operation (.closing .array))

/-! #### Headers -/

theorem native {value : ParameterValue} (happended : value.IsAppended) :
    Traceable outlook (modify fun encoder ↦ appendNative encoder value) := by
  rcases happended.native_or_encoded with hnative | ⟨item, rfl⟩
  · rw [funext (ParameterValue.appendNative_eq hnative)]
    exact operation (.scalar value.scalar)
  · exact encoded item

section Headers

variable {parameters : List Parameter}
  (hwriters : ∀ writer ∈ parameters.filterMap Parameter.writer?, ∀ label isProtected isCritical,
    Traceable outlook (writer label isProtected isCritical))
include hwriters

theorem parameter {parameter : Parameter} (hmem : parameter ∈ parameters) :
    Traceable outlook (encodeParameter parameter) := by
  by_cases happended : parameter.value.IsAppended
  · rw [funext (encodeParameter_eq_check happended)]
    have hlabelled : Traceable outlook _ := operation (.scalar (.int parameter.label))
    exact (modify_comp hlabelled (native happended)).bind fun _ ↦ check
  · obtain ⟨label, isProtected, isCritical, value⟩ := parameter
    cases value with
    | written writer =>
      have hwriter : writer ∈ parameters.filterMap Parameter.writer? :=
        List.mem_filterMap.2 ⟨_, hmem, rfl⟩
      exact (hwriters writer hwriter label isProtected isCritical).bind fun _ ↦ check
    | _ => exact absurd trivial happended

theorem buckets : Traceable outlook (encodeBuckets parameters) := by
  have hentries (keep : Parameter → Bool) :
      Traceable outlook ((parameters.filter keep).forM encodeParameter) :=
    forM fun _ hmem ↦ parameter hwriters (List.mem_of_mem_filter hmem)
  have hopened : Traceable outlook _ := perform [.opening .wrap, .opening .map]
  have hclosed : Traceable outlook (modify fun encoder ↦
      (appendCriticalLabels encoder (parameters.filter (·.isCritical))).closeMap) := by
    rw [funext fun encoder ↦ congrArg Encoder.closeMap (appendCriticalLabels_eq parameters encoder)]
    exact modify_comp (perform _) (operation (.closing .map))
  unfold encodeBuckets
  refine hopened.bind fun _ ↦ (hentries _).bind fun _ ↦ hclosed.bind fun _ ↦ ?_
  refine (closeWrap false).bind fun span? ↦ (operation (.opening .map)).bind fun _ ↦ ?_
  refine (hentries _).bind fun _ ↦ (operation (.closing .map)).bind fun _ ↦ check.bind fun _ ↦ ?_
  cases span? with
  | none => exact throw _
  | some span => exact pure span

theorem headers : Traceable outlook (encodeHeaders parameters) := by
  rcases encodeHeaders_cases parameters with ⟨cause, hrejected⟩ | hwritten
  · have hthrow : encodeHeaders parameters = MonadExcept.throw cause := funext hrejected
    rw [hthrow]
    exact throw cause
  · rw [hwritten]
    exact buckets hwriters

end Headers

/-! #### Messages -/

theorem content (message : Message) (content : Bytes) :
    Traceable outlook (modify (message.appendContent content)) := by
  unfold Message.appendContent
  split
  · exact operation (.scalar (.simple simpleNull))
  · exact operation (.scalar (.bytes content))

theorem message (tag? : Option MessageTag) (headers : HeaderItems) {appendRest : Encoder → Encoder}
    (hrest : Traceable outlook (modify appendRest)) :
    Traceable outlook (appendMessage tag? headers appendRest) := by
  have hopened : Traceable outlook (modify fun encoder ↦
      (encoder.openArray.appendEncoded headers.protectedItem).appendEncoded
        headers.unprotectedItem) :=
    modify_comp (modify_comp (operation (.opening .array)) (encoded headers.protectedItem))
      (encoded headers.unprotectedItem)
  have hwhole : Traceable outlook (modify fun encoder ↦
      (appendRest ((encoder.openArray.appendEncoded headers.protectedItem).appendEncoded
        headers.unprotectedItem)).closeArray) :=
    modify_comp (modify_comp hopened hrest) (operation (.closing .array))
  refine Traceable.bind ?_ fun _ ↦ check
  cases tag? with
  | some tag =>
    have htagged : Traceable outlook _ := operation (.tag tag.number)
    exact htagged.modify_comp hwhole
  | none => exact hwhole

theorem stamped {ι : Type} (tag : MessageTag) (message : Message) (inputs : Bytes → ι)
    (stamp : ι → Except Error Bytes) :
    Traceable outlook (encodeStamped (m := Id) tag message inputs stamp : Session Unit) := by
  refine of_rules fun rules ↦ ?_
  rcases encodeStamped_cases tag message inputs stamp rules with
    ⟨cause, hrefused⟩ | ⟨headers, result, hwritten⟩
  · exact ⟨MonadExcept.throw cause, throw cause, hrefused⟩
  · refine ⟨_, Traceable.message (message.tag? tag) headers ?_, hwritten⟩
    exact modify_comp (content message message.payload) (operation (.scalar (.bytes result)))

theorem encrypted (message : Message) (encrypt : (plaintext aad : Bytes) → Except Error Bytes) :
    Traceable outlook (encodeEncrypt0 (m := Id) message encrypt : Session (Option Bytes)) := by
  refine of_rules fun rules ↦ ?_
  rcases encodeEncrypt0_cases message encrypt rules with
    ⟨cause, hrefused⟩ | ⟨headers, ciphertext, hwritten⟩
  · exact ⟨MonadExcept.throw cause, throw cause, hrefused⟩
  · refine ⟨_, ?_, hwritten⟩
    exact (Traceable.message _ headers (content message ciphertext)).bind fun _ ↦ pure _

end Session.Traceable

/-! ### Calls in steps -/

namespace Call

/-- Whether a call opens or closes a region. -/
def IsRegional : Call → Prop
  | openRegion _ _ => True
  | closeRegion _ => True
  | _ => False

/-- A call as a program that returns what its user hears of the answer. -/
def heard (outlook : Outlook) (call : Call) : Session Answer :=
  modifyGet fun encoder ↦ (call.run encoder).map outlook.hear id

/-- Calls, one after the other, as a program that returns what their user hears. -/
def transcript (outlook : Outlook) (calls : List Call) : Session (List Answer) :=
  modifyGet fun encoder ↦ (runAll encoder calls).map (List.map outlook.hear) id

end Call

/-- Whether a call is open to the users of an outlook: it leaves regions alone if they do, and takes
steps only where it runs a program. -/
@[mk_iff]
structure Outlook.Permits (outlook : Outlook) (call : Call) : Prop where
  regions : call.IsRegional → outlook.usesRegions
  writers : ∀ writer ∈ call.writers, ∀ label isProtected isCritical,
    (writer label isProtected isCritical).Traceable outlook

namespace Call

open Session

variable {outlook : Outlook} {call : Call}

theorem traceable_heard (hpermitted : outlook.Permits call) :
    Traceable outlook (call.heard outlook) := by
  have hdone {change : Encoder → Encoder} (hchange : Traceable outlook (modify change)) :
      Traceable outlook (modifyGet fun encoder ↦ (outlook.hear .done, change encoder)) :=
    hchange.map fun _ ↦ outlook.hear .done
  cases call with
  | operation step => exact hdone (.operation step)
  | bool truth =>
    exact hdone (.operation (.scalar (.simple (if truth then simpleTrue else simpleFalse))))
  | null => exact hdone (.operation (.scalar (.simple simpleNull)))
  | undefined => exact hdone (.operation (.scalar (.simple simpleUndefined)))
  | head major argument minWidth => exact hdone (.encoded (encodeHead major argument minWidth))
  | raw data => exact hdone (.step (.raw data) False.elim)
  | encoded item => exact hdone (.encoded item)
  | bigNumber negative magnitude => exact hdone (.bigNumber negative magnitude)
  | decimalFraction mantissa exponent => exact hdone (.scaled _ mantissa exponent)
  | bigfloat mantissa exponent => exact hdone (.scaled _ mantissa exponent)
  | value content =>
    have happended := funext fun encoder : Encoder ↦ encoder.appendValue_eq_perform content
    exact hdone (happended ▸ .perform _)
  | closeWrap includeHead => exact (Traceable.closeWrap includeHead).map (outlook.hear ∘ .span)
  | closeWrapBytes includeHead =>
    -- The bytes are those that are seen of the session after the byte string is closed.
    have hsplit : (closeWrapBytes includeHead).heard outlook =
        (modifyGet (·.closeWrap includeHead) : Session _) >>= fun span? ↦
          match span? with
          | none => Pure.pure (outlook.hear (.bytes none))
          | some span =>
            (fun encoder ↦ outlook.hear (.bytes (encoder.view? span.start span.stop))) <$> get := by
      funext encoder
      change EStateM.Result.ok (outlook.hear (.bytes (encoder.closeWrapBytes includeHead).1))
          (encoder.closeWrapBytes includeHead).2 =
        EStateM.bind (fun encoder ↦ .ok (encoder.closeWrap includeHead).1
          (encoder.closeWrap includeHead).2) _ encoder
      simp only [Encoder.closeWrapBytes, EStateM.bind]
      cases encoder.closeWrap includeHead with
      | mk span? after => cases span? <;> rfl
    rw [hsplit]
    refine (Traceable.closeWrap includeHead).bind fun span? ↦ ?_
    cases span? with
    | none => exact .pure _
    | some span => exact .look _ fun encoder ↦ outlook.hear_bytes encoder span.start span.stop
  | openRegion capacity content =>
    have hsplit : (openRegion capacity content).heard outlook =
        (modify (Step.openRegion capacity content).apply : Session _) >>= fun _ ↦
          (fun encoder ↦ outlook.hear (.region (encoder.heldCapacity? capacity))) <$> get := by
      funext encoder
      change EStateM.Result.ok (outlook.hear (.region (encoder.openRegion capacity content).1))
        (encoder.openRegion capacity content).2 = _
      rw [Encoder.fst_openRegion]
      rfl
    rw [hsplit]
    refine (Traceable.step (.openRegion capacity content) hpermitted.regions).bind fun _ ↦ ?_
    exact .look _ fun encoder ↦ outlook.hear_region encoder capacity
  | closeRegion used => exact hdone (.step (.closeRegion used) hpermitted.regions)
  | headers parameters =>
    exact (Traceable.headers hpermitted.writers).attempt.map (outlook.hear ∘ .headers)
  | sign1 message sign =>
    have hstamped : Traceable outlook _ := .stamped .sign1 message
      (⟨·, none, message.externalAad, message.payload⟩) sign
    exact hstamped.attempt.map (outlook.hear ∘ .message)
  | mac0 message authenticate =>
    have hstamped : Traceable outlook _ := .stamped .mac0 message
      (⟨.mac0, ·, message.externalAad, message.payload⟩) authenticate
    exact hstamped.attempt.map (outlook.hear ∘ .message)
  | encrypt0 message encrypt =>
    exact (Traceable.encrypted message encrypt).attempt.map (outlook.hear ∘ .ciphertext)

/-- Calls, one after the other, are a program in steps. -/
theorem traceable_transcript {calls : List Call}
    (hpermitted : ∀ call ∈ calls, outlook.Permits call) :
    Traceable outlook (transcript outlook calls) := by
  induction calls with
  | nil => exact .pure []
  | cons call rest ih =>
    obtain ⟨hcall, hrest⟩ := List.forall_mem_cons.1 hpermitted
    have hsplit : transcript outlook (call :: rest) = call.heard outlook >>= fun answer ↦
        (answer :: ·) <$> transcript outlook rest := rfl
    rw [hsplit]
    exact (traceable_heard hcall).bind fun answer ↦ (ih hrest).map (answer :: ·)

end Call

/-- Programs made of calls are programs in steps, for users who see and hear everything. -/
theorem Session.MadeOfCalls.traceable {α : Type} {program : Session α}
    (hmade : program.MadeOfCalls) : program.Traceable .full := by
  induction hmade with
  | pure value => exact .pure value
  | throw cause => exact .throw cause
  | look view => exact .look view fun _ ↦ rfl
  | call call hwriters ih => exact Call.traceable_heard ⟨fun _ ↦ trivial, ih⟩
  | bind hfirst hnext ihfirst ihnext => exact ihfirst.bind ihnext

theorem Call.Proper.permits_full {call : Call} (hproper : call.Proper) :
    Outlook.full.Permits call where
  regions _ := trivial
  writers writer hmem label isProtected isCritical :=
    (hproper writer hmem label isProtected isCritical).traceable

/-! ### Properties that programs keep -/

/-- Whether the steps that are open to the users of an outlook keep a property of sessions. -/
def Outlook.Keeps (outlook : Outlook) (property : Encoder → Prop) : Prop :=
  ∀ step, outlook.Allows step → ∀ encoder, property encoder → property (step.apply encoder)

section Keeps

variable {outlook : Outlook} {property : Encoder → Prop} (hkeeps : outlook.Keeps property)
include hkeeps

/-- What the steps keep, every program in steps keeps, whatever its result is. -/
theorem Session.Traced.keeps {α : Type} {program : Session α}
    {mapClosings : Encoder → List Encoder} (htraced : Traced outlook program mapClosings)
    {encoder : Encoder} (hbefore : property encoder) :
    property (outcome (program encoder)).2 := by
  induction htraced generalizing encoder with
  | pure value => exact hbefore
  | throw cause => exact hbefore
  | look view => exact hbefore
  | step step hallowed => exact hkeeps step hallowed encoder hbefore
  | closeWrap includeHead =>
    change property (encoder.closeWrap includeHead).2
    rw [encoder.snd_closeWrap, ← encoder.snd_closeWrap false]
    exact hkeeps (.operation (.closing .wrap)) False.elim encoder hbefore
  | attempt htraced ih => exact ih hbefore
  | @bind _ _ first next _ _ hfirst hnext ihfirst ihnext =>
    have hmiddle := ihfirst hbefore
    rw [outcome_bind]
    cases hrun : outcome (first encoder) with
    | mk result middle =>
      rw [hrun] at hmiddle
      cases result with
      | ok value => exact ihnext value hmiddle
      | error cause => exact hmiddle

theorem Call.run_keeps {call : Call} (hpermitted : outlook.Permits call) {encoder : Encoder}
    (hbefore : property encoder) : property (call.run encoder).2 := by
  obtain ⟨_, htraced⟩ := traceable_heard hpermitted
  exact htraced.keeps hkeeps hbefore

end Keeps

/-! ### Rules and lengths -/

namespace Step

/-- Every step but those of regions advances a session. -/
theorem advances {step : Step} (hplain : ¬step.IsRegional) (encoder : Encoder) :
    encoder.Advances (step.apply encoder) := by
  cases step with
  | operation operation => exact encoder.advances_apply operation
  | raw data => exact encoder.advances_write data
  | encoded item => exact encoder.advances_appendEncoded item
  | openRegion capacity content => exact absurd trivial hplain
  | closeRegion used => exact absurd trivial hplain

/-- No step changes the rules of a session. -/
theorem rules_apply (step : Step) (encoder : Encoder) :
    (step.apply encoder).rules = encoder.rules := by
  cases step with
  | openRegion capacity content =>
    change (encoder.openRegion capacity content).2.rules = encoder.rules
    rw [Encoder.openRegion_eq]
    have hnoted (opened : Encoder) : opened.Advances (opened.proceed (·.setCapacity capacity)) :=
      opened.advances_proceed ⟨Nat.le_refl _, id, rfl⟩
    have hreserved (opened : Encoder) : opened.Advances (opened.reserve capacity content) :=
      opened.advances_grow capacity fun output ↦ by cases output <;> exact Nat.le_refl _
    exact (((encoder.advances_openNest .region).trans (hnoted _)).trans (hreserved _)).rules_eq
  | closeRegion used =>
    change (encoder.closeRegion used).rules = encoder.rules
    rw [Encoder.closeRegion_eq]
    refine Encoder.rules_closeBy encoder .region fun popped frame ↦ ?_
    unfold Encoder.completeRegion
    split
    · exact (popped.advances_fail _).rules_eq
    · exact (Encoder.advances_insert _ _ _).rules_eq
  | _ => exact (advances id encoder).rules_eq

end Step

namespace Session

variable {outlook : Outlook}

/-- Every program without regions advances a session. -/
theorem Traced.advances (hplain : ¬outlook.usesRegions) {α : Type}
    {program : Session α} {mapClosings : Encoder → List Encoder}
    (htraced : Traced outlook program mapClosings) (encoder : Encoder) :
    encoder.Advances (outcome (program encoder)).2 := by
  have hkeeps : outlook.Keeps (encoder.Advances ·) := fun step hallowed reached hadvances ↦
    hadvances.trans (Step.advances (hplain ∘ hallowed) reached)
  exact htraced.keeps hkeeps (.refl encoder)

/-- What follows on a program without regions advances the session further. -/
theorem advances_bind {α β : Type} {first : Session α} {next : α → Session β}
    (hnext : ∀ value encoder, Encoder.Advances encoder (outcome (next value encoder)).2)
    (encoder : Encoder) :
    (outcome (first encoder)).2.Advances (outcome ((first >>= next) encoder)).2 := by
  rw [outcome_bind]
  cases outcome (first encoder) with
  | mk result middle =>
    cases result with
    | ok value => exact hnext value middle
    | error cause => exact .refl middle

/-- No program in steps changes the rules of a session. -/
theorem Traced.rules_eq {α : Type} {program : Session α} {mapClosings : Encoder → List Encoder}
    (htraced : Traced outlook program mapClosings) (encoder : Encoder) :
    (outcome (program encoder)).2.rules = encoder.rules := by
  have hkeeps : outlook.Keeps (·.rules = encoder.rules) := fun step _ reached hrules ↦
    (step.rules_apply reached).trans hrules
  exact htraced.keeps hkeeps rfl

/-- The sessions at which maps are closed have the rules of the first. -/
theorem Traced.rules_of_mem {α : Type} {program : Session α}
    {mapClosings : Encoder → List Encoder} (htraced : Traced outlook program mapClosings)
    {encoder closing : Encoder} (hmem : closing ∈ mapClosings encoder) :
    closing.rules = encoder.rules := by
  induction htraced generalizing encoder with
  | step step hallowed => rw [Step.eq_of_mem_mapClosings hmem]
  | attempt htraced ih => exact ih hmem
  | @bind _ _ first next _ _ hfirst hnext ihfirst ihnext =>
    have hmiddle := hfirst.rules_eq encoder
    rcases List.mem_append.1 hmem with hbefore | hafter
    · exact ihfirst hbefore
    · cases hrun : outcome (first encoder) with
      | mk result middle =>
        rw [hrun] at hmiddle hafter
        cases result with
        | ok value => exact (ihnext value hafter).trans hmiddle
        | error cause => cases hafter
  | _ => cases hmem

end Session

end Cose
