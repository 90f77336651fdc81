import Mathlib.Tactic.Common
import Cose.Proofs.Cbor.Encoder.Outline

/-!
# Growing sessions, operation by operation

A growing session that has not failed is determined by the bytes written, the open items and
whether a tag is pending: `Encoder.live`. Each operation of the encoder is described on these, once
for the case that it is permitted and once for the case that it fails. A failed session stays as
it is (`Encoder.perform_of_failed`).
-/

set_option autoImplicit false
set_option relaxedAutoImplicit false

namespace Cose.Cbor

namespace Encoder

/-! ### Failed sessions -/

/-- Whether a session has failed. -/
def Failed (encoder : Encoder) : Prop := encoder.error ≠ none

theorem proceed_of_failed {encoder : Encoder} (hfailed : encoder.Failed)
    (change : Encoder → Encoder) : encoder.proceed change = encoder := by
  unfold proceed
  split
  · rfl
  next hnone => exact absurd hnone hfailed

theorem failed_fail (encoder : Encoder) (cause : EncodeError) : (encoder.fail cause).Failed := by
  unfold fail Failed
  split
  next found hsome => simp [hsome]
  · simp

theorem fail_of_failed {encoder : Encoder} (hfailed : encoder.Failed) (cause : EncodeError) :
    encoder.fail cause = encoder := by
  obtain ⟨found, hsome⟩ := Option.ne_none_iff_exists'.1 hfailed
  simp only [fail, hsome]

/-- Where a change leaves failed sessions alone, it does not matter that it is made only in others.
-/
theorem proceed_eq {encoder : Encoder} {change : Encoder → Encoder}
    (hfailed : encoder.Failed → change encoder = encoder) :
    encoder.proceed change = change encoder := by
  by_cases hlive : encoder.error = none
  · simp only [proceed, hlive]
  · rw [proceed_of_failed hlive, hfailed hlive]

theorem write_of_failed {encoder : Encoder} (hfailed : encoder.Failed) (data : Bytes) :
    encoder.write data = encoder := proceed_of_failed hfailed _

theorem insert_of_failed {encoder : Encoder} (hfailed : encoder.Failed) (position : Nat)
    (data : Bytes) : encoder.insert position data = encoder := proceed_of_failed hfailed _

theorem beginItem_of_failed {encoder : Encoder} (hfailed : encoder.Failed) :
    encoder.beginItem = encoder := proceed_of_failed hfailed _

theorem appendHead_of_failed {encoder : Encoder} (hfailed : encoder.Failed) (major : Major)
    (argument : UInt64) (minWidth : Nat) :
    encoder.appendHead major argument minWidth = encoder := by
  rw [appendHead, beginItem_of_failed hfailed, write_of_failed hfailed]

theorem openNest_of_failed {encoder : Encoder} (hfailed : encoder.Failed) (kind : Nest) :
    encoder.openNest kind = encoder := by
  rw [openNest, beginItem_of_failed hfailed, proceed_of_failed hfailed]

theorem pop_of_failed {encoder : Encoder} (hfailed : encoder.Failed) (kind : Nest) :
    encoder.pop kind = (none, encoder) := by
  unfold pop
  split
  · rfl
  next hnone => exact absurd hnone hfailed

theorem appendReduced_of_failed {encoder : Encoder} (hfailed : encoder.Failed)
    (number : Float.Reduced) : encoder.appendReduced number = encoder := by
  cases number <;> exact appendHead_of_failed hfailed _ _ _

theorem appendWhole_of_failed {encoder : Encoder} (hfailed : encoder.Failed)
    (number : Float.WholeNumber) : encoder.appendWhole number = encoder := by
  cases number <;> exact appendHead_of_failed hfailed _ _ _

/-- No scalar changes a failed session. -/
theorem append_of_failed {encoder : Encoder} (hfailed : encoder.Failed) (value : Scalar) :
    value.append encoder = encoder := by
  cases value with
  | int number =>
    simp only [Scalar.append, appendInt]
    split <;> exact appendHead_of_failed hfailed _ _ _
  | unsigned number => exact appendHead_of_failed hfailed _ _ _
  | negative number => exact appendHead_of_failed hfailed _ _ _
  | bytes content =>
    simp only [Scalar.append, appendBytes, beginItem_of_failed hfailed, write_of_failed hfailed]
  | text content =>
    simp only [Scalar.append, appendText, beginItem_of_failed hfailed, write_of_failed hfailed]
  | simple value => rw [Scalar.append, appendSimple, proceed_of_failed hfailed]
  | double number =>
    simp only [Scalar.append, appendDouble, appendFullDouble, appendWhole_of_failed hfailed,
      appendReduced_of_failed hfailed, ite_self]
    split <;> rfl
  | single number =>
    simp only [Scalar.append, appendSingle, appendFullSingle, appendWhole_of_failed hfailed,
      appendReduced_of_failed hfailed, ite_self]
    split <;> rfl
  | fullDouble number =>
    rw [Scalar.append, appendFullDouble, appendReduced_of_failed hfailed]
  | fullSingle number =>
    rw [Scalar.append, appendFullSingle, appendReduced_of_failed hfailed]

/-- No operation changes a failed session. -/
theorem apply_of_failed {encoder : Encoder} (hfailed : encoder.Failed) (operation : Operation) :
    operation.apply encoder = encoder := by
  cases operation with
  | scalar value => exact append_of_failed hfailed value
  | tag number => rw [Operation.apply, addTag, proceed_of_failed hfailed]
  | opening kind => cases kind <;> exact openNest_of_failed hfailed _
  | closing kind =>
    cases kind <;>
      simp only [Operation.apply, closeArray, closeMap, closeArrayIndefinite, closeMapIndefinite,
        closeWrap, pop_of_failed hfailed]

theorem perform_of_failed {encoder : Encoder} (hfailed : encoder.Failed)
    (operations : List Operation) : encoder.perform operations = encoder := by
  induction operations with
  | nil => rfl
  | cons operation rest ih => rw [perform, List.foldl_cons, apply_of_failed hfailed]; exact ih

theorem appendEncoded_of_failed {encoder : Encoder} (hfailed : encoder.Failed) (item : Bytes) :
    encoder.appendEncoded item = encoder := by
  rw [appendEncoded, beginItem_of_failed hfailed, write_of_failed hfailed]

theorem closeWrap_of_failed {encoder : Encoder} (hfailed : encoder.Failed) (includeHead : Bool) :
    encoder.closeWrap includeHead = (none, encoder) := by
  rw [closeWrap, pop_of_failed hfailed]

theorem closeWrapBytes_of_failed {encoder : Encoder} (hfailed : encoder.Failed)
    (includeHead : Bool) : encoder.closeWrapBytes includeHead = (none, encoder) := by
  rw [closeWrapBytes, closeWrap_of_failed hfailed]

theorem openRegion_of_failed {encoder : Encoder} (hfailed : encoder.Failed) (capacity : Nat)
    (content : Bytes) : encoder.openRegion capacity content = (none, encoder) := by
  unfold openRegion
  rw [openNest_of_failed hfailed]
  obtain ⟨cause, herror⟩ := Option.ne_none_iff_exists'.1 hfailed
  simp only [herror]

theorem closeRegion_of_failed {encoder : Encoder} (hfailed : encoder.Failed) (used : Nat) :
    encoder.closeRegion used = encoder := by
  rw [closeRegion, pop_of_failed hfailed]

/-- A failed session is finished with its failure. -/
theorem finish_of_error {encoder : Encoder} {cause : EncodeError}
    (herror : encoder.error = some cause) :
    encoder.finish = .error cause ∧ encoder.finishSize = .error cause := by
  have hincomplete : encoder.incompleteness? = some cause := by rw [incompleteness?, herror]
  constructor
  · rw [finish, hincomplete]
  · rw [finishSize, hincomplete]

/-- A session that finishes has not failed. -/
theorem not_failed_of_finish {encoder : Encoder} {bytes : Bytes}
    (hfinish : encoder.finish = .ok bytes) : ¬encoder.Failed := by
  intro hfailed
  obtain ⟨cause, hcause⟩ := Option.ne_none_iff_exists'.1 hfailed
  have hrefused := (finish_of_error hcause).1
  rw [hfinish] at hrefused
  cases hrefused

/-! ### Sessions that have not failed -/

/-- A growing session that has not failed. -/
def live (rules : Rules) (contents : Bytes) (frames : List Frame) (tagPending : Bool) :
    Encoder where
  output := .growable contents.toArray []
  frames := frames
  error := none
  rules := rules
  tagPending := tagPending

section Live

variable {rules : Rules} {contents : Bytes} {frames : List Frame} {tagPending : Bool}

theorem length_live : (live rules contents frames tagPending).length = contents.length := by
  simp [live, length, Output.length]

theorem refusal?_live (rules : Rules) (contents : Bytes) (frames : List Frame) (tagPending : Bool)
    (count : Nat) :
    (live rules contents frames tagPending).output.refusal? count =
      if contents.length + count > maxEncodedLength then some .bufferTooLarge else none := by
  simp [live, Output.refusal?, Output.length]

theorem proceed_live (change : Encoder → Encoder) :
    (live rules contents frames tagPending).proceed change =
      change (live rules contents frames tagPending) := rfl

theorem write_live {data : Bytes} (hfits : contents.length + data.length ≤ maxEncodedLength) :
    (live rules contents frames tagPending).write data =
      live rules (contents ++ data) frames tagPending := by
  have hrefusal := refusal?_live rules contents frames tagPending data.length
  rw [if_neg (Nat.not_lt.2 hfits)] at hrefusal
  simp only [write, proceed_live, hrefusal]
  simp [live, Output.push]

/-- Bytes that do not fit are refused for the length of the encoding. -/
theorem error_write_live {data : Bytes}
    (hfull : maxEncodedLength < contents.length + data.length) :
    ((live rules contents frames tagPending).write data).error = some .bufferTooLarge := by
  have hrefusal := refusal?_live rules contents frames tagPending data.length
  rw [if_pos hfull] at hrefusal
  simp only [write, proceed_live, hrefusal]
  rfl

theorem failed_write_live {data : Bytes}
    (hfull : maxEncodedLength < contents.length + data.length) :
    ((live rules contents frames tagPending).write data).Failed := by
  rw [Failed, error_write_live hfull]
  exact Option.some_ne_none _

theorem failed_write_of_fails {encoder : Encoder} (hfailed : encoder.Failed) (data : Bytes) :
    (encoder.write data).Failed := by
  rwa [write_of_failed hfailed]

/-- Two writes in a row are permitted if the bytes of both fit. -/
theorem write_write_live {head content : Bytes}
    (hfits : (contents ++ (head ++ content)).length ≤ maxEncodedLength) :
    ((live rules contents frames tagPending).write head).write content =
      live rules (contents ++ (head ++ content)) frames tagPending := by
  simp only [List.length_append] at hfits
  rw [write_live (by omega), write_live (by rw [List.length_append]; omega), List.append_assoc]

theorem failed_write_write_live {head content : Bytes}
    (hfull : maxEncodedLength < (contents ++ (head ++ content)).length) :
    (((live rules contents frames tagPending).write head).write content).Failed := by
  simp only [List.length_append] at hfull
  by_cases hhead : contents.length + head.length ≤ maxEncodedLength
  · rw [write_live hhead]
    exact failed_write_live (by rw [List.length_append]; omega)
  · exact failed_write_of_fails (failed_write_live (Nat.not_le.1 hhead)) content

theorem insert_live {front back data : Bytes}
    (hfits : (front ++ data ++ back).length ≤ maxEncodedLength) :
    (live rules (front ++ back) frames tagPending).insert front.length data =
      live rules (front ++ data ++ back) frames tagPending := by
  simp only [List.length_append] at hfits
  have hrefusal := refusal?_live rules (front ++ back) frames tagPending data.length
  rw [if_neg (by rw [List.length_append]; omega)] at hrefusal
  have hinserted : Output.insertBytes (front ++ back).toArray front.length data =
      (front ++ data ++ back).toArray := by
    rw [← Array.toList_inj, Output.toList_insertBytes]
    simp
  simp only [insert, proceed_live, hrefusal]
  simp [live, Output.insert, hinserted]

theorem failed_insert_live {front back data : Bytes}
    (hfull : maxEncodedLength < (front ++ data ++ back).length) :
    ((live rules (front ++ back) frames tagPending).insert front.length data).Failed := by
  simp only [List.length_append] at hfull
  have hrefusal := refusal?_live rules (front ++ back) frames tagPending data.length
  rw [if_pos (by rw [List.length_append]; omega)] at hrefusal
  simp only [insert, proceed_live, hrefusal]
  exact failed_fail _ _

/-! ### Items and tags -/

/-- Whether the innermost open item takes one more. -/
def HasRoom (frames : List Frame) : Prop :=
  ∀ frame ∈ frames.head?, ∃ limit, frame.kind.limit? = some limit ∧ frame.count < limit

/-- The open items once the innermost counts one more. -/
def counted : List Frame → List Frame
  | [] => []
  | frame :: outer => { frame with count := frame.count + 1 } :: outer

theorem beginItem_live (hroom : HasRoom frames) :
    (live rules contents frames tagPending).beginItem =
      live rules contents (counted frames) false := by
  cases frames with
  | nil => rfl
  | cons frame outer =>
    obtain ⟨limit, hlimit, hcount⟩ := hroom frame rfl
    simp [beginItem, proceed, live, hlimit, Nat.not_le.2 hcount, counted]

theorem failed_beginItem_live (hfull : ¬HasRoom frames) :
    (live rules contents frames tagPending).beginItem.Failed := by
  cases frames with
  | nil => exact absurd (fun _ hmem ↦ by simp at hmem) hfull
  | cons frame outer =>
    simp only [beginItem, proceed, live]
    cases hlimit : frame.kind.limit? with
    | none => exact failed_fail _ _
    | some limit =>
      have hcount : frame.count ≥ limit := by
        refine Nat.not_lt.1 fun hlt ↦ hfull ?_
        rintro _ ⟨⟩
        exact ⟨limit, hlimit, hlt⟩
      simp only [hcount, if_true]
      exact failed_fail _ _

/-- Tags belong to no region of the caller's. -/
def TakesTags (frames : List Frame) : Prop := ∀ frame ∈ frames.head?, frame.kind ≠ .region

theorem addTag_live (hframes : TakesTags frames) (number : UInt64) :
    (live rules contents frames tagPending).addTag number =
      { (live rules contents frames tagPending).write (shortestHead .tag number) with
        tagPending := true } := by
  rw [shortestHead, ← Argument.encodeHead_zero]
  cases frames with
  | nil => rfl
  | cons frame outer =>
    obtain ⟨kind, start, count⟩ := frame
    have hkind : kind ≠ .region := hframes _ rfl
    cases kind <;> first | rfl | exact absurd rfl hkind

/-! ### Opening and closing -/

theorem length_counted (frames : List Frame) : (counted frames).length = frames.length := by
  cases frames <;> rfl

/-- The conditions under which an item of a kind is opened. -/
structure Opens (rules : Rules) (contents : Bytes) (frames : List Frame) (kind : Nest) : Prop where
  hasRoom : HasRoom frames
  depth_lt : frames.length < maxNesting
  permitted : isIndefinite kind = true → rules.allowIndefinite = true
  fits : (contents ++ openingBytes kind).length ≤ maxEncodedLength

theorem openNest_eq_live {kind : Nest} (hroom : HasRoom frames)
    (hdepth : frames.length < maxNesting)
    (hpermitted : isIndefinite kind = true → rules.allowIndefinite = true) :
    (live rules contents frames tagPending).openNest kind =
      { (live rules contents (counted frames) false).write (openingBytes kind) with
        frames := ⟨kind, ((live rules contents (counted frames) false).write
          (openingBytes kind)).length, 0⟩ :: ((live rules contents (counted frames) false).write
          (openingBytes kind)).frames } := by
  have hnest : ¬(live rules contents (counted frames) false).depth ≥ maxNesting := by
    rw [depth, live, length_counted]
    exact Nat.not_le.2 hdepth
  have hkind : ¬(isIndefinite kind = true ∧
      (live rules contents (counted frames) false).rules.allowIndefinite = false) := by
    rintro ⟨hindefinite, hforbidden⟩
    exact Bool.false_ne_true (hforbidden.symm.trans (hpermitted hindefinite))
  rw [openNest, beginItem_live hroom]
  change (if (live rules contents (counted frames) false).depth ≥ maxNesting then _
    else if isIndefinite kind = true ∧
      (live rules contents (counted frames) false).rules.allowIndefinite = false then _
    else _) = _
  rw [if_neg hnest, if_neg hkind]

theorem openNest_live {kind : Nest} (hopens : Opens rules contents frames kind) :
    (live rules contents frames tagPending).openNest kind =
      live rules (contents ++ openingBytes kind)
        (⟨kind, (contents ++ openingBytes kind).length, 0⟩ :: counted frames) false := by
  have hfits := hopens.fits
  rw [List.length_append] at hfits
  rw [openNest_eq_live hopens.hasRoom hopens.depth_lt hopens.permitted, write_live hfits]
  simp [live, length, Output.length]

theorem failed_openNest_live {kind : Nest} (hcloses : ¬Opens rules contents frames kind) :
    ((live rules contents frames tagPending).openNest kind).Failed := by
  by_cases hroom : HasRoom frames
  · by_cases hdepth : frames.length < maxNesting
    · by_cases hpermitted : isIndefinite kind = true → rules.allowIndefinite = true
      · have hfull : maxEncodedLength < contents.length + (openingBytes kind).length := by
          refine Nat.not_le.1 fun hfits ↦ hcloses ⟨hroom, hdepth, hpermitted, ?_⟩
          rwa [List.length_append]
        have hfailed : ((live rules contents (counted frames) false).write
            (openingBytes kind)).Failed := failed_write_live hfull
        rw [openNest_eq_live hroom hdepth hpermitted]
        exact hfailed
      · rw [Classical.not_imp] at hpermitted
        obtain ⟨hindefinite, hforbidden⟩ := hpermitted
        rw [openNest, beginItem_live hroom]
        simp only [proceed, live, depth, length_counted, Nat.not_le.2 hdepth, if_false,
          hindefinite, Bool.eq_false_of_not_eq_true hforbidden, and_self, if_true]
        exact failed_fail _ _
    · rw [openNest, beginItem_live hroom]
      simp only [proceed, live, depth, length_counted, ge_iff_le, Nat.not_lt.1 hdepth, if_true]
      exact failed_fail _ _
  · have hfailed : (live rules contents frames tagPending).beginItem.Failed :=
      failed_beginItem_live hroom
    rwa [openNest, proceed_of_failed hfailed]

theorem pop_live {frame : Frame} {outer : List Frame} :
    (live rules contents (frame :: outer) false).pop frame.kind =
      (some frame, live rules contents outer false) := by
  simp [pop, live]

/-- Nothing is popped behind a tag, without an open item, or with another kind of open item. -/
theorem failed_pop_live {kind : Nest}
    (hinnermost : tagPending = true ∨ ∀ frame ∈ frames.head?, frame.kind ≠ kind) :
    ∃ failed, (live rules contents frames tagPending).pop kind = (none, failed) ∧
      failed.Failed := by
  cases tagPending with
  | true => exact ⟨_, rfl, failed_fail _ _⟩
  | false =>
    cases frames with
    | nil => exact ⟨_, rfl, failed_fail _ _⟩
    | cons frame outer =>
      rcases hinnermost with htag | hkind
      · exact absurd htag Bool.false_ne_true
      · refine ⟨(live rules contents (frame :: outer) false).fail .closeMismatch, ?_,
          failed_fail _ _⟩
        have hframe : frame.kind ≠ kind := hkind frame rfl
        simp [pop, live, hframe]

/-! ### Scalars -/

theorem appendUnsigned_eq (encoder : Encoder) (number : UInt64) :
    encoder.appendUnsigned number = encoder.beginItem.write (shortestHead .unsigned number) := by
  rw [appendUnsigned, appendHead, Argument.encodeHead_zero, shortestHead]

theorem appendNegative_eq (encoder : Encoder) (number : UInt64) :
    encoder.appendNegative number = encoder.beginItem.write (shortestHead .negative number) := by
  rw [appendNegative, appendHead, Argument.encodeHead_zero, shortestHead]

theorem appendReduced_eq (encoder : Encoder) (number : Float.Reduced) :
    encoder.appendReduced number = encoder.beginItem.write (reducedBytes number) := by
  cases number with
  | half number =>
    rw [appendReduced, appendHead, Argument.encodeHead_word16, reducedBytes]
  | single number =>
    rw [appendReduced, appendHead, Argument.encodeHead_word32, reducedBytes]
  | double number =>
    rw [appendReduced, appendHead, Argument.encodeHead_word64, reducedBytes]

theorem appendWhole_eq (encoder : Encoder) (number : Float.WholeNumber) :
    encoder.appendWhole number = encoder.beginItem.write (wholeBytes number) := by
  cases number with
  | unsigned number => exact appendUnsigned_eq encoder number
  | negative number => exact appendNegative_eq encoder number

/-- Numbers of either precision are appended by the same choices. -/
theorem appendFloat_eq (encoder : Encoder) (whole? : Option Float.WholeNumber) (isNaN : Bool)
    (narrowest full : Float.Reduced) :
    (match if encoder.rules.floatsToInts then whole? else none with
      | some whole => encoder.appendWhole whole
      | none =>
        if isNaN ∧ encoder.rules.canonicalNaN then
          encoder.appendReduced (.half Float.Half.quietNaN)
        else if encoder.rules.reduceFloats then encoder.appendReduced narrowest
        else encoder.appendReduced full) =
      encoder.beginItem.write (floatBytes encoder.rules whole? isNaN narrowest full) := by
  simp only [floatBytes, appendWhole_eq, appendReduced_eq]
  cases if encoder.rules.floatsToInts then whole? else none with
  | some whole => rfl
  | none =>
    by_cases hcanonical : isNaN = true ∧ encoder.rules.canonicalNaN = true
    · simp [hcanonical]
    · have hplain : ¬(isNaN && encoder.rules.canonicalNaN) = true := by simpa using hcanonical
      simp only [if_neg hcanonical, if_neg hplain]
      exact (apply_ite (fun data ↦ encoder.beginItem.write data) _ _ _).symm

theorem appendDouble_eq (encoder : Encoder) (number : Float.Double) :
    encoder.appendDouble number =
      encoder.beginItem.write ((Scalar.double number).encoded encoder.rules) :=
  appendFloat_eq encoder _ _ _ _

theorem appendSingle_eq (encoder : Encoder) (number : Float.Single) :
    encoder.appendSingle number =
      encoder.beginItem.write ((Scalar.single number).encoded encoder.rules) :=
  appendFloat_eq encoder _ _ _ _

theorem appendSimple_of_allowed {encoder : Encoder} {value : UInt8}
    (hallowed : (Scalar.simple value).Allowed encoder.rules) :
    encoder.appendSimple value = encoder.beginItem.write (shortestHead .simple value.toUInt64) := by
  obtain ⟨hassigned, hbasic⟩ := hallowed
  have hpermitted : ¬(encoder.rules.onlyBasicSimple = true ∧
      ¬(value = simpleFalse ∨ value = simpleTrue ∨ value = simpleNull)) :=
    fun hforbidden ↦ hforbidden.2 (hbasic hforbidden.1)
  rw [appendSimple, proceed_eq] <;> rw [if_neg hassigned, if_neg hpermitted]
  · rw [appendHead, Argument.encodeHead_zero, shortestHead]
  · exact fun hfailed ↦ appendHead_of_failed hfailed _ _ _

/-- A simple value that the rules forbid is refused for one cause in all sessions. -/
theorem exists_appendSimple_eq_fail {rules : Rules} {value : UInt8}
    (hforbidden : ¬(Scalar.simple value).Allowed rules) :
    ∃ cause, ∀ encoder : Encoder, encoder.rules = rules →
      encoder.appendSimple value = encoder.fail cause := by
  by_cases hassigned : 24 ≤ value ∧ value < 32
  · refine ⟨.unsupported, fun encoder _ ↦ ?_⟩
    rw [appendSimple, proceed_eq] <;> simp only [if_pos hassigned]
    exact fun hfailed ↦ fail_of_failed hfailed _
  · have hbasic : rules.onlyBasicSimple = true ∧
        ¬(value = simpleFalse ∨ value = simpleTrue ∨ value = simpleNull) :=
      Classical.not_imp.1 fun hpermitted ↦ hforbidden ⟨hassigned, hpermitted⟩
    refine ⟨.notAllowed, ?_⟩
    rintro encoder rfl
    rw [appendSimple, proceed_eq] <;> simp only [if_neg hassigned, if_pos hbasic]
    exact fun hfailed ↦ fail_of_failed hfailed _

/-- A permitted scalar is written part by part. -/
theorem append_eq_parts {encoder : Encoder} {value : Scalar}
    (hallowed : value.Allowed encoder.rules) :
    value.append encoder = (value.parts encoder.rules).foldl write encoder.beginItem := by
  cases value with
  | int number =>
    simp only [Scalar.append, appendInt, Scalar.parts, Scalar.encoded, List.foldl_cons,
      List.foldl_nil]
    cases number.toInt with
    | ofNat n => exact appendUnsigned_eq _ _
    | negSucc n => exact appendNegative_eq _ _
  | unsigned number => exact appendUnsigned_eq encoder number
  | negative number => exact appendNegative_eq encoder number
  | bytes content =>
    rw [Scalar.append, appendBytes, Argument.encodeHead_zero]
    rfl
  | text content =>
    rw [Scalar.append, appendText, Argument.encodeHead_zero]
    rfl
  | simple value => exact appendSimple_of_allowed hallowed
  | double number => exact appendDouble_eq encoder number
  | single number => exact appendSingle_eq encoder number
  | fullDouble number => exact appendReduced_eq encoder (.double number)
  | fullSingle number => exact appendReduced_eq encoder (.single number)

/-- A permitted scalar is written at once, or as a head and its content. -/
theorem append_eq_write {rules : Rules} {value : Scalar} (hallowed : value.Allowed rules) :
    (∀ encoder : Encoder, encoder.rules = rules →
      value.append encoder = encoder.beginItem.write (value.encoded rules)) ∨
      ∃ head content, value.encoded rules = head ++ content ∧
        ∀ encoder : Encoder, encoder.rules = rules →
          value.append encoder = (encoder.beginItem.write head).write content := by
  have hparts (encoder : Encoder) (hrules : encoder.rules = rules) :
      value.append encoder = (value.parts rules).foldl write encoder.beginItem :=
    hrules ▸ append_eq_parts (hrules ▸ hallowed)
  cases value with
  | bytes content => exact .inr ⟨_, content, rfl, hparts⟩
  | text content => exact .inr ⟨_, content.toUTF8.toList, rfl, hparts⟩
  | _ => exact .inl hparts

/-- A scalar that the rules forbid is refused for one cause in all sessions. -/
theorem exists_append_eq_fail {rules : Rules} {value : Scalar} (hforbidden : ¬value.Allowed rules) :
    ∃ cause, ∀ encoder : Encoder, encoder.rules = rules →
      value.append encoder = encoder.fail cause := by
  cases value with
  | simple value => exact exists_appendSimple_eq_fail hforbidden
  | _ => exact absurd trivial hforbidden

theorem append_live {value : Scalar} (hallowed : value.Allowed rules) (hroom : HasRoom frames)
    (hfits : (contents ++ value.encoded rules).length ≤ maxEncodedLength) :
    value.append (live rules contents frames tagPending) =
      live rules (contents ++ value.encoded rules) (counted frames) false := by
  obtain hwrite | ⟨head, content, hencoded, hwrite⟩ := append_eq_write hallowed
  · rw [hwrite _ rfl, beginItem_live hroom, write_live (by rwa [← List.length_append])]
  · rw [hencoded] at hfits ⊢
    rw [hwrite _ rfl, beginItem_live hroom, write_write_live hfits]

theorem failed_append_live {value : Scalar}
    (hrefused : ¬(value.Allowed rules ∧ HasRoom frames ∧
      (contents ++ value.encoded rules).length ≤ maxEncodedLength)) :
    (value.append (live rules contents frames tagPending)).Failed := by
  by_cases hallowed : value.Allowed rules
  · obtain hwrite | ⟨head, content, hencoded, hwrite⟩ := append_eq_write hallowed
    · rw [hwrite _ rfl]
      by_cases hroom : HasRoom frames
      · have hfull := Nat.not_le.1 fun hfits ↦ hrefused ⟨hallowed, hroom, hfits⟩
        rw [beginItem_live hroom]
        exact failed_write_live (by rwa [← List.length_append])
      · exact failed_write_of_fails (failed_beginItem_live hroom) _
    · rw [hwrite _ rfl]
      by_cases hroom : HasRoom frames
      · have hfull := Nat.not_le.1 fun hfits ↦ hrefused ⟨hallowed, hroom, hfits⟩
        rw [beginItem_live hroom]
        exact failed_write_write_live (by rwa [← hencoded])
      · exact failed_write_of_fails (failed_write_of_fails (failed_beginItem_live hroom) _) _
  · obtain ⟨cause, hfail⟩ := exists_append_eq_fail hallowed
    rw [hfail _ rfl]
    exact failed_fail _ _

/-! ### What a session holds -/

theorem finish_live (contents : Bytes) : (live rules contents [] false).finish = .ok contents := by
  simp [finish, incompleteness?, live, depth, Output.storage]

/-- A part of the bytes is viewed by the positions where it starts and ends. -/
theorem view?_live (front content back : Bytes) :
    (live rules (front ++ content ++ back) frames tagPending).view? front.length
      (front.length + content.length) = some content := by
  have hinside : ¬(front.length + content.length >
        (live rules (front ++ content ++ back) frames tagPending).length ∨
      front.length > front.length + content.length) := by
    rw [length_live, List.length_append, List.length_append]
    omega
  rw [view?, if_neg hinside]
  simp [live]

end Live

end Encoder

end Cose.Cbor
