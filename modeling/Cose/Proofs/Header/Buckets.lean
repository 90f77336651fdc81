import Mathlib.Tactic.Common
import Cose.Message.Basic
import Cose.Proofs.Cbor.Encoder.Refinement

/-!
# Header buckets as outlines

The entries of a header bucket are parameters and, in the protected bucket, the list of critical
labels. `bucket` is the map that holds some entries, and `encodeHeaderItems_eq_ok` says what is
written for parameters of native types: the protected map inside a byte string and the unprotected
map behind it, split exactly where the one ends and the other begins.
-/

set_option autoImplicit false
set_option relaxedAutoImplicit false

namespace Cose

open Cbor

/-! ### Parameters of native types -/

namespace ParameterValue

/-- Whether a value is of one of the native types. -/
def IsNative : ParameterValue → Prop
  | encoded _ => False
  | written _ => False
  | _ => True

/-- Whether a value is appended as it is, and not written by a program. -/
def IsAppended : ParameterValue → Prop
  | written _ => False
  | _ => True

theorem IsNative.isAppended {value : ParameterValue} (hnative : value.IsNative) :
    value.IsAppended := by
  cases value with
  | written writer => exact hnative
  | _ => trivial

theorem IsAppended.native_or_encoded {value : ParameterValue} (happended : value.IsAppended) :
    value.IsNative ∨ ∃ item, value = .encoded item := by
  cases value with
  | encoded item => exact .inr ⟨item, rfl⟩
  | written writer => exact happended.elim
  | _ => exact .inl trivial

/-- The scalar that a value of native type is written as. The other values are no scalars, and null
stands for them. -/
def scalar : ParameterValue → Scalar
  | int number => .int number
  | text content => .text content
  | bytes content => .bytes content
  | small (.float number) => .double number
  | small (.bool truth) => .simple (if truth then simpleTrue else simpleFalse)
  | small .null => .simple simpleNull
  | small .undefined => .simple simpleUndefined
  | encoded _ => .simple simpleNull
  | written _ => .simple simpleNull

theorem appendNative_eq {value : ParameterValue} (hnative : value.IsNative) (encoder : Encoder) :
    appendNative encoder value = value.scalar.append encoder := by
  cases value with
  | small value => cases value <;> rfl
  | encoded item => exact hnative.elim
  | written writer => exact hnative.elim
  | _ => rfl

end ParameterValue

/-- Parameters that are told apart by their labels: these are distinct and other than that of the
list of critical labels, and few parameters are critical, all of them protected. -/
structure WellLabelled (parameters : List Parameter) : Prop where
  labels_nodup : (parameters.map (·.label)).Nodup
  label_ne_crit : ∀ parameter ∈ parameters, parameter.label ≠ HeaderLabel.crit.code
  critical_protected : ∀ parameter ∈ parameters, parameter.isCritical = true →
    parameter.isProtected = true
  critical_few : (parameters.filter (·.isCritical)).length ≤ maxCriticalParameters

/-- Parameters that any recipient can take: they are told apart by their labels, and their values
are of native types. -/
structure Conveyable (parameters : List Parameter) : Prop extends WellLabelled parameters where
  native : ∀ parameter ∈ parameters, parameter.value.IsNative

/-! ### Entries and buckets -/

/-- An entry of a header bucket. -/
inductive HeaderEntry where
  | parameter (native : Parameter)
  /-- The list of critical labels. -/
  | critical (labels : List Int64)

namespace HeaderEntry

/-- The label of an entry. -/
def label : HeaderEntry → Int64
  | parameter native => native.label
  | critical _ => HeaderLabel.crit.code

/-- The value of an entry as an outline. -/
def value : HeaderEntry → Outline
  | parameter native => .scalar native.value.scalar
  | critical labels => .container .array (labels.map fun label ↦ .scalar (.int label))

/-- The label and the value of an entry as outlines. -/
def outlines (entry : HeaderEntry) : List Outline := [.scalar (.int entry.label), entry.value]

end HeaderEntry

/-- The map that holds some entries. -/
def bucket (entries : List HeaderEntry) : Outline :=
  .container .map (entries.flatMap HeaderEntry.outlines)

/-- The list of critical labels as an entry, if there are any. -/
def criticalEntries (parameters : List Parameter) : List HeaderEntry :=
  match parameters.filter (·.isCritical) with
  | [] => []
  | first :: rest => [.critical ((first :: rest).map (·.label))]

/-- The entries of the protected bucket. -/
def protectedEntries (parameters : List Parameter) : List HeaderEntry :=
  (parameters.filter (·.isProtected)).map .parameter ++ criticalEntries parameters

/-- The entries of the unprotected bucket. -/
def unprotectedEntries (parameters : List Parameter) : List HeaderEntry :=
  (parameters.filter (!·.isProtected)).map .parameter

/-- The labels of the critical parameters. -/
def criticalLabels (parameters : List Parameter) : List Int64 :=
  (parameters.filter (·.isCritical)).map (·.label)

theorem criticalEntries_cases (parameters : List Parameter) :
    criticalLabels parameters = [] ∧ criticalEntries parameters = [] ∨
      criticalLabels parameters ≠ [] ∧
        criticalEntries parameters = [.critical (criticalLabels parameters)] := by
  unfold criticalEntries criticalLabels
  cases parameters.filter (·.isCritical) with
  | nil => exact .inl ⟨rfl, rfl⟩
  | cons first rest => exact .inr ⟨nofun, rfl⟩

/-- An entry of the protected bucket is a protected parameter or the list of critical labels. -/
theorem mem_protectedEntries {parameters : List Parameter} {entry : HeaderEntry}
    (hmem : entry ∈ protectedEntries parameters) :
    (∃ stored ∈ parameters, stored.isProtected = true ∧ entry = .parameter stored) ∨
      criticalLabels parameters ≠ [] ∧ entry = .critical (criticalLabels parameters) := by
  rcases List.mem_append.1 hmem with hparameter | hcritical
  · obtain ⟨stored, hstored, rfl⟩ := List.mem_map.1 hparameter
    obtain ⟨hstored, hprotected⟩ := List.mem_filter.1 hstored
    exact .inl ⟨stored, hstored, hprotected, rfl⟩
  · rcases criticalEntries_cases parameters with ⟨_, hnone⟩ | ⟨hnonempty, hsome⟩
    · rw [hnone] at hcritical
      cases hcritical
    · rw [hsome] at hcritical
      exact .inr ⟨hnonempty, List.mem_singleton.1 hcritical⟩

theorem mem_unprotectedEntries {parameters : List Parameter} {entry : HeaderEntry}
    (hmem : entry ∈ unprotectedEntries parameters) :
    ∃ native ∈ parameters, native.isProtected = false ∧ entry = .parameter native := by
  obtain ⟨native, hnative, rfl⟩ := List.mem_map.1 hmem
  obtain ⟨hnative, hunprotected⟩ := List.mem_filter.1 hnative
  exact ⟨native, hnative, by simpa using hunprotected, rfl⟩

/-- What holds of every parameter and of the list of critical labels holds in the protected
bucket. -/
theorem forall_protectedEntries {property : HeaderEntry → Prop} {parameters : List Parameter}
    (hparameters : ∀ stored ∈ parameters, property (.parameter stored))
    (hcritical : property (.critical (criticalLabels parameters))) :
    ∀ entry ∈ protectedEntries parameters, property entry := by
  intro entry hmem
  rcases mem_protectedEntries hmem with ⟨stored, hstored, _, rfl⟩ | ⟨_, rfl⟩
  · exact hparameters stored hstored
  · exact hcritical

theorem forall_unprotectedEntries {property : HeaderEntry → Prop} {parameters : List Parameter}
    (hparameters : ∀ stored ∈ parameters, property (.parameter stored)) :
    ∀ entry ∈ unprotectedEntries parameters, property entry := by
  intro entry hmem
  obtain ⟨stored, hstored, _, rfl⟩ := mem_unprotectedEntries hmem
  exact hparameters stored hstored

theorem length_criticalLabels_le {parameters : List Parameter}
    (hlabelled : WellLabelled parameters) :
    (criticalLabels parameters).length ≤ maxCriticalParameters := by
  rw [criticalLabels, List.length_map]
  exact hlabelled.critical_few

theorem labels_nodup_protectedEntries {parameters : List Parameter}
    (hlabelled : WellLabelled parameters) :
    ((protectedEntries parameters).map (·.label)).Nodup := by
  have hprotected : ((parameters.filter (·.isProtected)).map (·.label)).Nodup :=
    hlabelled.labels_nodup.sublist (List.filter_sublist.map _)
  have hlabels : ((parameters.filter (·.isProtected)).map HeaderEntry.parameter).map (·.label) =
      (parameters.filter (·.isProtected)).map (·.label) := List.map_map
  rw [protectedEntries, List.map_append, hlabels]
  rcases criticalEntries_cases parameters with ⟨_, hnone⟩ | ⟨_, hsome⟩
  · rw [hnone, List.map_nil, List.append_nil]
    exact hprotected
  · rw [hsome]
    refine hprotected.append (List.nodup_singleton _) ?_
    intro label hlabel hcrit
    obtain ⟨stored, hstored, rfl⟩ := List.mem_map.1 hlabel
    exact hlabelled.label_ne_crit stored (List.mem_of_mem_filter hstored)
      (List.mem_singleton.1 hcrit)

theorem labels_nodup_unprotectedEntries {parameters : List Parameter}
    (hlabelled : WellLabelled parameters) :
    ((unprotectedEntries parameters).map (·.label)).Nodup := by
  rw [unprotectedEntries, List.map_map]
  exact hlabelled.labels_nodup.sublist (List.filter_sublist.map _)

/-! ### Writing entries -/

/-- The operations that write some entries. -/
def entryOperations (entries : List HeaderEntry) : List Operation :=
  Outline.operationsAll (entries.flatMap HeaderEntry.outlines)

theorem entryOperations_append (first second : List HeaderEntry) :
    entryOperations (first ++ second) = entryOperations first ++ entryOperations second := by
  rw [entryOperations, List.flatMap_append, Outline.operationsAll_append]
  rfl

theorem appendNative_of_failed {encoder : Encoder} (hfailed : encoder.Failed)
    {value : ParameterValue} (happended : value.IsAppended) :
    appendNative encoder value = encoder := by
  rcases happended.native_or_encoded with hnative | ⟨item, rfl⟩
  · rw [ParameterValue.appendNative_eq hnative]
    exact Encoder.append_of_failed hfailed _
  · exact Encoder.appendEncoded_of_failed hfailed item

/-- A session passes the check if it has not failed, and stays as it is. -/
theorem check_eq_ok {encoder after : Encoder} {result : Unit}
    (hrun : Session.check encoder = .ok result after) :
    after = encoder ∧ ¬encoder.Failed := by
  obtain ⟨_, _, error, _, _⟩ := encoder
  cases error with
  | none =>
    cases hrun
    exact ⟨rfl, fun hfailed ↦ hfailed rfl⟩
  | some cause => cases hrun

theorem check_of_live {encoder : Encoder} (hlive : ¬encoder.Failed) :
    Session.check encoder = .ok () encoder := by
  obtain ⟨_, _, error, _, _⟩ := encoder
  cases error with
  | none => rfl
  | some cause => exact absurd (Option.some_ne_none cause) hlive

/-- Append the entry of a parameter whose value is not written by a program. -/
def appendParameter (encoder : Encoder) (parameter : Parameter) : Encoder :=
  appendNative (encoder.appendInt parameter.label) parameter.value

theorem encodeParameter_eq_check {parameter : Parameter} (happended : parameter.value.IsAppended)
    (encoder : Encoder) :
    encodeParameter parameter encoder = Session.check (appendParameter encoder parameter) := by
  obtain ⟨label, isProtected, isCritical, value⟩ := parameter
  cases value with
  | written writer => exact happended.elim
  | _ => rfl

/-- A parameter is written by the operations of its entry, or fails. -/
theorem encodeParameter_eq_ok {parameter : Parameter} (hnative : parameter.value.IsNative)
    {encoder after : Encoder} {result : Unit}
    (hrun : encodeParameter parameter encoder = .ok result after) :
    after = encoder.perform (entryOperations [.parameter parameter]) := by
  rw [encodeParameter_eq_check hnative.isAppended, appendParameter,
    ParameterValue.appendNative_eq hnative] at hrun
  rw [(check_eq_ok hrun).1]
  rfl

theorem forM_encodeParameter_eq_ok {parameters : List Parameter}
    (hnative : ∀ parameter ∈ parameters, parameter.value.IsNative) {encoder after : Encoder}
    {result : Unit} (hrun : parameters.forM encodeParameter encoder = .ok result after) :
    after = encoder.perform (entryOperations (parameters.map .parameter)) := by
  induction parameters generalizing encoder with
  | nil =>
    cases hrun
    rfl
  | cons parameter rest ih =>
    obtain ⟨hfirst, hrest⟩ := List.forall_mem_cons.1 hnative
    change (encodeParameter parameter >>= fun _ ↦ rest.forM encodeParameter) encoder = _ at hrun
    rw [bind_eq_ok_iff] at hrun
    obtain ⟨_, middle, hparameter, hrun⟩ := hrun
    rw [List.map_cons, ← List.singleton_append, entryOperations_append, Encoder.perform_append,
      ← encodeParameter_eq_ok hfirst hparameter]
    exact ih hrest hrun

theorem perform_labels (labels : List Int64) (encoder : Encoder) :
    encoder.perform (Outline.operationsAll (labels.map fun label ↦ .scalar (.int label))) =
      labels.foldl Encoder.appendInt encoder := by
  induction labels generalizing encoder with
  | nil => rfl
  | cons label rest ih =>
    rw [List.map_cons, Outline.operationsAll, Encoder.perform_append, ih]
    rfl

/-- The list of critical labels is written by the operations of its entry, if there is one. -/
theorem appendCriticalLabels_eq (parameters : List Parameter) (encoder : Encoder) :
    appendCriticalLabels encoder (parameters.filter (·.isCritical)) =
      encoder.perform (entryOperations (criticalEntries parameters)) := by
  unfold criticalEntries
  cases parameters.filter (·.isCritical) with
  | nil => rfl
  | cons first rest =>
    let labels := (first :: rest).map (·.label)
    have hfold (start : Encoder) : (first :: rest).foldl (fun encoder parameter ↦
        encoder.appendInt parameter.label) start = labels.foldl Encoder.appendInt start := by
      rw [List.foldl_map]
    have hentry : entryOperations [.critical labels] =
        [.scalar (.int HeaderLabel.crit.code), .opening .array] ++
          Outline.operationsAll (labels.map fun label ↦ .scalar (.int label)) ++
            [.closing .array] := by
      simp [entryOperations, HeaderEntry.outlines, HeaderEntry.label, HeaderEntry.value,
        Outline.operationsAll, Outline.operations]
    rw [hentry, Encoder.perform_append, Encoder.perform_append, perform_labels]
    change ((first :: rest).foldl (fun encoder parameter ↦ encoder.appendInt parameter.label)
      (encoder.appendInt HeaderLabel.crit.code).openArray).closeArray = _
    rw [hfold]
    rfl

/-! ### Writing both buckets -/

/-- The protected bucket inside its byte string. -/
def protectedItem (parameters : List Parameter) : Outline :=
  .container .wrap [bucket (protectedEntries parameters)]

theorem encoded_protectedItem (rules : Rules) (parameters : List Parameter) :
    (protectedItem parameters).encoded rules =
      shortestHead .bytes
          (UInt64.ofNat ((bucket (protectedEntries parameters)).encoded rules).length) ++
        (bucket (protectedEntries parameters)).encoded rules := by
  rw [protectedItem, Outline.encoded, Container.enclose]
  simp [Outline.encodedEach]

theorem operations_bucket (entries : List HeaderEntry) :
    (bucket entries).operations =
      [.opening .map] ++ entryOperations entries ++ [.closing .map] := by
  rw [bucket, Outline.operations]
  rfl

/-- Write both buckets of parameters that need no check. -/
def encodeBuckets (parameters : List Parameter) : Session Encoder.Span := do
  modify fun encoder ↦ encoder.openWrap.openMap
  (parameters.filter (·.isProtected)).forM encodeParameter
  modify fun encoder ↦ (appendCriticalLabels encoder (parameters.filter (·.isCritical))).closeMap
  let span? ← modifyGet fun encoder ↦ encoder.closeWrap false
  modify Encoder.openMap
  (parameters.filter (!·.isProtected)).forM encodeParameter
  modify Encoder.closeMap
  Session.check
  match span? with
  | some span => return span
  | none => throw (.encode .closeMismatch)

theorem encodeHeaders_eq_encodeBuckets {parameters : List Parameter}
    (hlabelled : WellLabelled parameters) :
    encodeHeaders parameters = encodeBuckets parameters := by
  have hprotected : (parameters.filter (·.isCritical)).any (!·.isProtected) = false := by
    simpa [List.any_eq_false] using hlabelled.critical_protected
  have hfew : ¬(parameters.filter (·.isCritical)).length > maxCriticalParameters :=
    Nat.not_lt.2 hlabelled.critical_few
  have hcrit : (!(parameters.filter (·.isCritical)).isEmpty &&
      parameters.any (·.label == HeaderLabel.crit.code)) = false := by
    have hnone : parameters.any (·.label == HeaderLabel.crit.code) = false := by
      simpa [List.any_eq_false] using hlabelled.label_ne_crit
    rw [hnone, Bool.and_false]
  unfold encodeHeaders
  simp only [hprotected, hfew, hcrit, Bool.false_eq_true, if_false]
  rfl

/-- Parameters are rejected before anything is written, or both buckets are written. -/
theorem encodeHeaders_cases (parameters : List Parameter) :
    (∃ cause, ∀ encoder, encodeHeaders parameters encoder = .error cause encoder) ∨
      encodeHeaders parameters = encodeBuckets parameters := by
  unfold encodeHeaders
  dsimp only
  split
  · exact .inl ⟨_, fun _ ↦ rfl⟩
  split
  · exact .inl ⟨_, fun _ ↦ rfl⟩
  split
  · exact .inl ⟨_, fun _ ↦ rfl⟩
  · exact .inr rfl

/-- Writing both buckets is following their traversals, with a look at where the byte string of the
first stands. -/
theorem encodeHeaders_steps {parameters : List Parameter} (hconveyable : Conveyable parameters)
    {encoder after : Encoder} {span : Encoder.Span}
    (hrun : encodeHeaders parameters encoder = .ok span after) :
    ∃ wrapped, (encoder.perform
        (.opening .wrap :: (bucket (protectedEntries parameters)).operations)).closeWrap false =
          (some span, wrapped) ∧
      after = wrapped.perform (bucket (unprotectedEntries parameters)).operations ∧
      ¬after.Failed := by
  have hnative (keep : Parameter → Bool) :
      ∀ parameter ∈ parameters.filter keep, parameter.value.IsNative := fun parameter hmem ↦
    hconveyable.native parameter (List.mem_of_mem_filter hmem)
  rw [encodeHeaders_eq_encodeBuckets hconveyable.toWellLabelled, encodeBuckets] at hrun
  obtain ⟨_, _, hopened, hrun⟩ := bind_eq_ok_iff.1 hrun
  cases hopened
  obtain ⟨_, filled, hfilled, hrun⟩ := bind_eq_ok_iff.1 hrun
  obtain ⟨_, _, hclosed, hrun⟩ := bind_eq_ok_iff.1 hrun
  cases hclosed
  obtain ⟨span?, wrapped, hwrapped, hrun⟩ := bind_eq_ok_iff.1 hrun
  obtain ⟨_, _, hreopened, hrun⟩ := bind_eq_ok_iff.1 hrun
  cases hreopened
  obtain ⟨_, refilled, hrefilled, hrun⟩ := bind_eq_ok_iff.1 hrun
  obtain ⟨_, _, hreclosed, hrun⟩ := bind_eq_ok_iff.1 hrun
  cases hreclosed
  obtain ⟨_, checked, hchecked, hrun⟩ := bind_eq_ok_iff.1 hrun
  obtain ⟨rfl, hlive⟩ := check_eq_ok hchecked
  have hfirst : (appendCriticalLabels filled (parameters.filter (·.isCritical))).closeMap =
      encoder.perform (.opening .wrap :: (bucket (protectedEntries parameters)).operations) := by
    rw [forM_encodeParameter_eq_ok (hnative _) hfilled, appendCriticalLabels_eq, operations_bucket,
      protectedEntries, entryOperations_append, ← List.cons_append, ← List.cons_append,
      Encoder.perform_append, ← List.append_assoc, Encoder.perform_append]
    rfl
  have hsecond : refilled.closeMap =
      wrapped.perform (bucket (unprotectedEntries parameters)).operations := by
    rw [forM_encodeParameter_eq_ok (hnative _) hrefilled, operations_bucket,
      Encoder.perform_append, Encoder.perform_append]
    rfl
  rw [← hfirst]
  let closed := (appendCriticalLabels filled (parameters.filter (·.isCritical))).closeMap
  have hclose : EStateM.Result.ok (closed.closeWrap false).1 (closed.closeWrap false).2 =
      (.ok span? wrapped : EStateM.Result Error Encoder _) := hwrapped
  obtain ⟨hspan, hafter⟩ := EStateM.Result.ok.inj hclose
  cases span? with
  | none => cases hrun
  | some found =>
    cases hrun
    exact ⟨wrapped, Prod.ext hspan hafter, hsecond, hlive⟩

/-- Where both buckets could be written, the session holds them, and the content of the byte string
stands where it is told. -/
theorem encodeHeaders_eq_ok {rules : Rules} {parameters : List Parameter}
    (hconveyable : Conveyable parameters) {span : Encoder.Span} {after : Encoder}
    (hrun : encodeHeaders parameters (.growable rules) = .ok span after) :
    let content := (bucket (protectedEntries parameters)).encoded rules
    let draft : Draft := ⟨.ground [protectedItem parameters,
      bucket (unprotectedEntries parameters)], []⟩
    after = draft.session rules ∧ draft.Sound rules ∧
      span = ⟨(shortestHead .bytes (UInt64.ofNat content.length)).length,
        ((protectedItem parameters).encoded rules).length⟩ := by
  intro content draft
  obtain ⟨wrapped, hwrapped, hafter, hlive⟩ := encodeHeaders_steps hconveyable hrun
  let inner := bucket (protectedEntries parameters)
  let before := (Encoder.growable rules).perform (.opening .wrap :: inner.operations)
  have hwhole : after = (Draft.start.session rules).perform (Outline.operationsAll
      [protectedItem parameters, bucket (unprotectedEntries parameters)]) := by
    have hclosing : wrapped = (Operation.closing .wrap).apply before :=
      (congrArg Prod.snd hwrapped).symm
    rw [hafter, hclosing]
    simp only [Outline.operationsAll, protectedItem, Outline.operations, List.append_nil]
    rw [← List.cons_append, Encoder.perform_append, Encoder.perform_append]
    rfl
  have hsound := Draft.sound_start rules
  rw [hwhole] at hlive
  obtain ⟨hsession, hdraft⟩ := Draft.session_of_traversal hsound hlive
  refine ⟨hwhole.trans hsession, hdraft, ?_⟩
  have hbefore : ¬before.Failed := by
    intro hfailed
    have hstuck := Encoder.apply_of_failed hfailed (.closing .wrap)
    change (before.closeWrap false).2 = before at hstuck
    rw [hwrapped] at hstuck
    change wrapped = before at hstuck
    rw [← hwhole, hafter, hstuck, Encoder.perform_of_failed hfailed] at hlive
    exact hlive hfailed
  obtain ⟨last, hrun⟩ := Draft.exists_run hsound hbefore
  have hopen : before = (Draft.mk (.opened (.ground []) [] .wrap [inner]) []).session rules := by
    have hperform := Draft.perform_of_run hrun hsound
    rcases hrun with _ | ⟨hstep, _, hrest⟩
    cases hstep
    rw [Draft.eq_add_of_run inner hrest] at hperform
    exact hperform
  have hbase : (Layers.ground []).contents rules ++ tagHeads [] = [] := rfl
  rw [show (Encoder.growable rules).perform _ = before from rfl, hopen, Draft.session_opened,
    hbase] at hwrapped
  rw [closeWrap_around_eq_some hwrapped]
  simp [content, inner, Outline.encodedEach, protectedItem, Outline.encoded]

/-- What is written for the headers of a message: the content of the protected byte string is the
protected bucket, and the two items are the byte string and the unprotected bucket. -/
theorem encodeHeaderItems_eq_ok {rules : Rules} {parameters : List Parameter}
    (hconveyable : Conveyable parameters) {headers : HeaderItems}
    (hrun : encodeHeaderItems rules parameters = .ok headers) :
    headers.protectedBytes = (bucket (protectedEntries parameters)).encoded rules ∧
      headers.protectedItem = (protectedItem parameters).encoded rules ∧
      headers.unprotectedItem = (bucket (unprotectedEntries parameters)).encoded rules ∧
      (Draft.mk (.ground [protectedItem parameters, bucket (unprotectedEntries parameters)])
        []).Sound rules := by
  rw [encodeHeaderItems] at hrun
  split at hrun
  · cases hrun
  next span encoder hheaders =>
    obtain ⟨rfl, hsound, rfl⟩ := encodeHeaders_eq_ok hconveyable hheaders
    split at hrun
    · cases hrun
    next items hfinish =>
      obtain ⟨found, hground, rfl⟩ := (Draft.finish_session _ _).1 hfinish
      cases hground
      cases hrun
      let content := (bucket (protectedEntries parameters)).encoded rules
      have hitems : Outline.encodedAll rules
          [protectedItem parameters, bucket (unprotectedEntries parameters)] =
            (protectedItem parameters).encoded rules ++
              (bucket (unprotectedEntries parameters)).encoded rules := by
        simp [Outline.encodedAll, Outline.encodedEach]
      have hitem : (protectedItem parameters).encoded rules =
          shortestHead .bytes (UInt64.ofNat content.length) ++ content :=
        encoded_protectedItem rules parameters
      refine ⟨?_, ?_, ?_, hsound⟩
      · dsimp only
        rw [hitems, List.take_left, hitem, List.drop_left]
      · dsimp only
        rw [hitems, List.take_left]
      · dsimp only
        rw [hitems, List.drop_left]

end Cose
