import Mathlib.Tactic.Common
import Cose.Proofs.Session.Failure

/-!
# Regions that the caller fills

While a region is open, the session takes no items, no tags and no containers: all that appends an
item fails and leaves the region as it is. What appends bytes verbatim is not stopped, though, and
writes where the region stands. So the byte string has the content that the caller wrote as long as
no bytes are appended verbatim, and `Call.contents_closeRegion` says what it has otherwise: the
bytes that were appended, followed in an output of fixed capacity by the rest of what the caller
wrote, and in a growing one by zeros (`regionBytes`, `Call.region_overwritten`).
-/

set_option autoImplicit false
set_option relaxedAutoImplicit false

namespace Cose

open Cbor

/-! ### Outputs with bytes held beyond their end -/

/-- The bytes that are used of a region, given what its caller wrote at its start and what was
appended to the session verbatim while the region was open: what is appended overlays the region,
and a growing output gives up the rest of it, for which zeros stand later. -/
def regionBytes (output : Output) (content : Bytes) (appended : List Bytes) (used : Nat) : Bytes :=
  match output, appended with
  | _, [] => content.take used
  | .growable _ _, _ =>
    appended.flatten.take used ++ List.replicate (used - appended.flatten.length) 0
  | _, _ => (appended.flatten ++ content.drop appended.flatten.length).take used

namespace Cbor.Output

/-- Write several byte strings at the end, one after the other. -/
def pushAll (output : Output) (appended : List Bytes) : Output := appended.foldl push output

theorem pushAll_append (output : Output) (first second : List Bytes) :
    output.pushAll (first ++ second) = (output.pushAll first).pushAll second := List.foldl_append

theorem isSizeOnly_pushAll (output : Output) (appended : List Bytes) :
    (output.pushAll appended).isSizeOnly = output.isSizeOnly := by
  induction appended generalizing output with
  | nil => rfl
  | cons data others ih => exact (ih (output.push data)).trans (by cases output <;> rfl)

theorem length_contents {output : Output} (hbytes : output.isSizeOnly = false) :
    output.contents.length = output.length := by
  cases output with
  | sizeOnly _ => cases hbytes
  | fixed _ _ => exact Array.length_toList
  | growable _ _ => exact Array.length_toList

theorem storage_pushAll_fixed (written : Array UInt8) (beyond : Bytes) (appended : List Bytes) :
    ∃ last rest, (fixed written beyond).pushAll appended = fixed last rest ∧
      last.toList = written.toList ++ appended.flatten ∧
      rest = beyond.drop appended.flatten.length := by
  induction appended generalizing written beyond with
  | nil => exact ⟨written, beyond, rfl, by simp, rfl⟩
  | cons data others ih =>
    obtain ⟨last, rest, hlast, hwritten, rfl⟩ := ih (written ++ data) (beyond.drop data.length)
    exact ⟨last, _, hlast, by simp [hwritten], by simp [List.drop_drop]⟩

theorem storage_pushAll_growable (written : Array UInt8) (beyond data : Bytes)
    (appended : List Bytes) :
    ∃ last, (growable written beyond).pushAll (data :: appended) = growable last [] ∧
      last.toList = written.toList ++ (data :: appended).flatten := by
  induction appended generalizing written beyond data with
  | nil => exact ⟨written ++ data, rfl, by simp⟩
  | cons next others ih =>
    obtain ⟨last, hlast, hwritten⟩ := ih (written ++ data) [] next
    exact ⟨last, hlast, by simp [hwritten]⟩

/-- What is held behind a front part once the end is moved: what was written there, and what was
beyond the end. -/
theorem contents_endAt_fixed {written : Array UInt8} {front added : Bytes}
    (hwritten : written.toList = front ++ added) (beyond : Bytes) (used : Nat) :
    ((fixed written beyond).endAt (front.length + used)).contents =
      front ++ (added ++ beyond).take used := by
  have hsplit : ((fixed written beyond).endAt (front.length + used)).contents =
      (written.toList ++ beyond).take (front.length + used) := by
    simp [endAt, contents, List.take_append]
  rw [hsplit, hwritten, List.append_assoc, List.take_length_add_append]

/-- A growing output holds zeros for bytes that are missing. -/
theorem contents_endAt_growable {written : Array UInt8} {front added : Bytes}
    (hwritten : written.toList = front ++ added) (beyond : Bytes) (used : Nat) :
    ((growable written beyond).endAt (front.length + used)).contents =
      front ++ ((added ++ beyond).take used ++
        List.replicate (used - (added ++ beyond).length) 0) := by
  have hsize : written.size = front.length + added.length := by
    rw [← Array.length_toList, hwritten, List.length_append]
  have hmissing : front.length + used - written.size -
      min (front.length + used - written.size) beyond.length =
        used - (added ++ beyond).length := by
    rw [List.length_append]
    omega
  have hsplit : ((growable written beyond).endAt (front.length + used)).contents =
      (written.toList ++ beyond).take (front.length + used) ++
        List.replicate (used - (added ++ beyond).length) 0 := by
    rw [← hmissing]
    simp [endAt, contents, List.take_append]
  rw [hsplit, hwritten, List.append_assoc, List.take_length_add_append, List.append_assoc]

theorem regionBytes_fixed (written : Array UInt8) (beyond content : Bytes) (appended : List Bytes)
    (used : Nat) :
    regionBytes (fixed written beyond) content appended used =
      (appended.flatten ++ content.drop appended.flatten.length).take used := by
  cases appended <;> rfl

/-- What an output holds of a region once the end is moved behind the bytes used. -/
theorem contents_region {output : Output} (hbytes : output.isSizeOnly = false) {capacity used : Nat}
    {content : Bytes} (hcontent : content.length ≤ capacity) (hused : used ≤ content.length)
    (appended : List Bytes) :
    ((((output.push []).reserve capacity content).pushAll appended).endAt
      (output.length + used)).contents =
        output.contents ++ regionBytes output content appended used := by
  have hinitial : content.take capacity = content := List.take_of_length_le hcontent
  cases output with
  | sizeOnly count => cases hbytes
  | fixed written beyond =>
    have hreserved : ((fixed written beyond).push []).reserve capacity content =
        fixed written (content ++ beyond.drop content.length) := by
      simp [push, reserve, hinitial]
    obtain ⟨last, _, hlast, hwritten, rfl⟩ := storage_pushAll_fixed written
      (content ++ beyond.drop content.length) appended
    have hlength : used ≤ (appended.flatten ++ content.drop appended.flatten.length).length := by
      rw [List.length_append, List.length_drop]
      omega
    rw [hreserved, hlast, length, ← Array.length_toList, contents_endAt_fixed hwritten,
      regionBytes_fixed, List.drop_append, ← List.append_assoc,
      List.take_append_of_le_length hlength]
    rfl
  | growable written beyond =>
    obtain ⟨spare, hreserved⟩ : ∃ spare, ((growable written beyond).push []).reserve capacity
        content = growable written (content ++ spare) := by
      refine ⟨List.replicate (capacity - content.length) 0, ?_⟩
      simp [push, reserve, hinitial]
    rw [hreserved, length, ← Array.length_toList]
    cases appended with
    | nil =>
      have hlength : used ≤ (content ++ spare).length := by
        rw [List.length_append]
        omega
      change ((growable written _).endAt _).contents = _
      rw [contents_endAt_growable (List.append_nil _).symm, List.nil_append,
        Nat.sub_eq_zero_of_le hlength, List.replicate_zero, List.append_nil,
        List.take_append_of_le_length hused]
      rfl
    | cons data others =>
      obtain ⟨last, hlast, hwritten⟩ :=
        storage_pushAll_growable written (content ++ spare) data others
      rw [hlast, contents_endAt_growable hwritten, List.append_nil]
      rfl

end Cbor.Output

/-! ### Sessions with an open region -/

namespace Cbor.Encoder

/-- Whether a session has not failed and its innermost open item is a region. -/
structure InRegion (encoder : Encoder) : Prop where
  error_eq : encoder.error = none
  exists_frame : ∃ start capacity outer, encoder.frames = ⟨.region, start, capacity⟩ :: outer

section InRegion

variable {region : Encoder} (hregion : region.InRegion)
include hregion

theorem InRegion.proceed_eq (change : Encoder → Encoder) :
    region.proceed change = change region := by
  simp only [proceed, hregion.error_eq]

theorem InRegion.failed_beginItem : region.beginItem.Failed := by
  obtain ⟨_, _, _, hframes⟩ := hregion.exists_frame
  rw [beginItem, hregion.proceed_eq]
  simp only [hframes]
  exact failed_fail _ _

theorem InRegion.failed_appendHead (major : Major) (argument : UInt64) (minWidth : Nat) :
    (region.appendHead major argument minWidth).Failed :=
  failed_write_of_fails hregion.failed_beginItem _

theorem InRegion.failed_openNest (kind : Nest) : (region.openNest kind).Failed := by
  rw [openNest, proceed_of_failed hregion.failed_beginItem]
  exact hregion.failed_beginItem

theorem InRegion.failed_addTag (tag : UInt64) : (region.addTag tag).Failed := by
  obtain ⟨_, _, _, hframes⟩ := hregion.exists_frame
  rw [addTag, hregion.proceed_eq, hframes]
  exact failed_fail _ _

/-- Only regions are closed while a region is open. -/
theorem InRegion.pop_eq_fail {kind : Nest} (hkind : kind ≠ .region) :
    ∃ cause, region.pop kind = (none, region.fail cause) := by
  obtain ⟨_, _, _, hframes⟩ := hregion.exists_frame
  simp only [pop, hregion.error_eq, hframes, Ne.symm hkind, if_false]
  split <;> exact ⟨_, rfl⟩

theorem InRegion.failed_closeBy {kind : Nest} (hkind : kind ≠ .region)
    (complete : Encoder → Frame → Encoder) : (region.closeBy kind complete).Failed := by
  obtain ⟨cause, hpop⟩ := hregion.pop_eq_fail hkind
  rw [closeBy, hpop]
  exact failed_fail region cause

theorem InRegion.failed_append (value : Scalar) : (value.append region).Failed := by
  by_cases hallowed : value.Allowed region.rules
  · rcases append_eq_write hallowed with hwrite | ⟨head, content, _, hwrite⟩
    · rw [hwrite region rfl]
      exact failed_write_of_fails hregion.failed_beginItem _
    · rw [hwrite region rfl]
      exact failed_write_of_fails (failed_write_of_fails hregion.failed_beginItem head) content
  · obtain ⟨cause, hrefused⟩ := exists_append_eq_fail hallowed
    rw [hrefused region rfl]
    exact failed_fail _ _

/-- While a region is open, no operation succeeds. -/
theorem InRegion.failed_apply (operation : Operation) : (operation.apply region).Failed := by
  cases operation with
  | scalar value => exact hregion.failed_append value
  | tag number => exact hregion.failed_addTag number
  | opening kind => cases kind <;> exact hregion.failed_openNest _
  | closing kind =>
    cases kind with
    | array => exact hregion.failed_closeBy (by decide) completeArray
    | map => exact hregion.failed_closeBy (by decide) completeMap
    | indefiniteArray => exact hregion.failed_closeBy (by decide) completeIndefiniteArray
    | indefiniteMap => exact hregion.failed_closeBy (by decide) completeIndefiniteMap
    | wrap =>
      rw [Operation.apply, snd_closeWrap]
      exact hregion.failed_closeBy (by decide) completeWrap

/-- Several operations fail while a region is open, unless there is none of them. -/
theorem InRegion.perform_cases (operations : List Operation) :
    (region.perform operations).Failed ∨ region.perform operations = region := by
  cases operations with
  | nil => exact .inr rfl
  | cons operation rest =>
    refine .inl ?_
    change ((operation.apply region).perform rest).Failed
    rw [perform_of_failed (hregion.failed_apply operation)]
    exact hregion.failed_apply operation

/-- The tag of a decimal fraction or bigfloat is not taken, and the rest is not looked at. -/
theorem InRegion.failed_appendScaled (tag : UInt64) (mantissa : Mantissa) (exponent : Int64) :
    (region.appendScaled tag mantissa exponent).Failed := by
  have hfailed := hregion.failed_addTag tag
  have hopened : (region.addTag tag).openArray = region.addTag tag := openNest_of_failed hfailed _
  have hexponent : (region.addTag tag).appendInt exponent = region.addTag tag :=
    append_of_failed hfailed (.int exponent)
  have hmantissa : (region.addTag tag).appendMantissa mantissa = region.addTag tag := by
    cases mantissa with
    | int number => exact append_of_failed hfailed (.int number)
    | big negative magnitude =>
      rw [appendMantissa, appendBigNumber, proceed_of_failed hfailed]
  have hclosed : (region.addTag tag).closeArray = region.addTag tag :=
    apply_of_failed hfailed (.closing .array)
  rwa [appendScaled, hopened, hexponent, hmantissa, hclosed]

/-- Bytes that are appended verbatim are written, if they fit. -/
theorem InRegion.write_cases (data : Bytes) :
    (region.write data).Failed ∨
      region.write data = { region with output := region.output.push data } := by
  rw [write, hregion.proceed_eq]
  split
  · exact .inl (failed_fail _ _)
  · exact .inr rfl

end InRegion

theorem snd_closeWrapBytes (encoder : Encoder) (includeHead : Bool) :
    (encoder.closeWrapBytes includeHead).2 = (encoder.closeWrap includeHead).2 := by
  unfold closeWrapBytes
  cases encoder.closeWrap includeHead with
  | mk span? after => cases span? <;> rfl

/-! #### Opening and closing a region -/

/-- To count an item fails, or leaves a session with no tag pending. -/
theorem beginItem_cases (encoder : Encoder) :
    encoder.beginItem.Failed ∨
      ∃ frames, encoder.beginItem = ⟨encoder.output, frames, none, encoder.rules, false⟩ := by
  by_cases hfailed : encoder.Failed
  · rw [beginItem_of_failed hfailed]
    exact .inl hfailed
  obtain ⟨output, frames, error, rules, tagPending⟩ := encoder
  obtain rfl : error = none := not_not.1 hfailed
  cases frames with
  | nil => exact .inr ⟨[], rfl⟩
  | cons frame outer =>
    simp only [beginItem, proceed]
    split
    · exact .inl (failed_fail _ _)
    split
    · exact .inl (failed_fail _ _)
    · exact .inr ⟨_, rfl⟩

/-- Where a region cannot be opened, nothing is held for it. -/
theorem failed_openRegion {encoder : Encoder} (hfailed : (encoder.openNest .region).Failed)
    (capacity : Nat) (content : Bytes) : (encoder.openRegion capacity content).2.Failed := by
  rw [openRegion_eq]
  dsimp only
  rw [proceed_of_failed hfailed, reserve, grow, proceed_of_failed hfailed]
  exact hfailed

/-- To open a region fails, or gives a session with the region open. -/
theorem openRegion_cases (encoder : Encoder) (capacity : Nat) (content : Bytes) :
    (encoder.openRegion capacity content).2.Failed ∨
      ∃ outer, (encoder.openRegion capacity content).2 =
        ⟨(encoder.output.push []).reserve capacity content,
          ⟨.region, encoder.length, capacity⟩ :: outer, none, encoder.rules, false⟩ := by
  have hopened : (encoder.openNest .region).Failed ∨ ∃ outer, encoder.openNest .region =
      ⟨encoder.output.push [], ⟨.region, encoder.length, 0⟩ :: outer, none, encoder.rules,
        false⟩ := by
    rcases encoder.beginItem_cases with hfailed | ⟨frames, hbegun⟩
    · rw [openNest, proceed_of_failed hfailed]
      exact .inl hfailed
    have hplain : ¬(isIndefinite .region = true ∧ encoder.rules.allowIndefinite = false) :=
      fun hboth ↦ Bool.false_ne_true hboth.1
    simp only [openNest, hbegun, proceed, hplain, if_false]
    split
    · exact .inl (failed_fail _ _)
    cases hrefusal : encoder.output.refusal? 0 with
    | some cause => exact .inl (by simp [write, proceed, openingBytes, hrefusal, fail, Failed])
    | none => exact .inr ⟨frames, by simp [write, proceed, openingBytes, hrefusal, length]⟩
  rcases hopened with hfailed | ⟨outer, hopened⟩
  · exact .inl (failed_openRegion hfailed capacity content)
  · rw [openRegion_eq]
    dsimp only
    rw [hopened]
    simp only [proceed, setCapacity, reserve, grow]
    split
    · exact .inl (failed_fail _ _)
    · exact .inr ⟨outer, rfl⟩

/-- To close a region fails, or inserts its head in front of the bytes used. -/
theorem closeRegion_cases {output : Output} (hbytes : output.isSizeOnly = false) {start : Nat}
    {capacity used : Nat} (hused : used ≤ capacity) (outer : List Frame) (rules : Rules)
    {front content : Bytes} (hfront : front.length = start)
    (hcontents : (output.endAt (start + used)).contents = front ++ content) :
    let region : Encoder := ⟨output, ⟨.region, start, capacity⟩ :: outer, none, rules, false⟩
    let closed := region.closeRegion used
    closed.Failed ∨
      closed.output.contents = front ++ encodeHead .bytes (UInt64.ofNat used) 0 ++ content := by
  intro region closed
  have hkept : (output.endAt (start + used)).isSizeOnly = false := by
    cases output <;> first | rfl | cases hbytes
  have hclosed : closed = insert ⟨output.endAt (start + used), outer, none, rules, false⟩ start
      (encodeHead .bytes (UInt64.ofNat used) 0) := by
    simp [closed, region, closeRegion, pop, Nat.not_lt.2 hused]
  rw [hclosed, insert]
  simp only [proceed]
  split
  · exact .inl (failed_fail _ _)
  · refine .inr ?_
    rw [Output.contents_insert _ _ _ hkept, hcontents, List.take_left' hfront,
      List.drop_left' hfront]

end Cbor.Encoder

/-! ### Calls while a region is open -/

/-- The bytes that a call appends verbatim. -/
def Call.verbatim? : Call → Option Bytes
  | raw data => some data
  | _ => none

/-- Programs that start alike go on alike. -/
theorem Session.bind_congr_of_run {α β : Type} {program : Session α} {next : α → Session β}
    {first second : Encoder} (hsame : program first = program second) :
    (program >>= next) first = (program >>= next) second := by
  change EStateM.bind program next first = EStateM.bind program next second
  rw [EStateM.bind, EStateM.bind, hsame]

theorem Session.modify_bind_congr {α : Type} {change : Encoder → Encoder}
    {next : PUnit → Session α} {first second : Encoder} (hsame : change first = change second) :
    ((modify change : Session PUnit) >>= next) first =
      ((modify change : Session PUnit) >>= next) second :=
  bind_congr_of_run (congrArg (EStateM.Result.ok PUnit.unit) hsame)

namespace Call

open Encoder

/-- A call that does the same in a failed session fails. -/
theorem failed_run_of_first {call : Call} (hproper : call.Proper) {encoder first : Encoder}
    (hfirst : first.Failed) (hsame : call.run encoder = call.run first) :
    (call.run encoder).2.Failed := by
  rw [hsame, run_of_failed hfirst hproper]
  exact hfirst

section InRegion

variable {region : Encoder} (hregion : region.InRegion)
include hregion

/-- Both buckets of headers start with a byte string, which is not opened. -/
theorem failed_headers_inRegion {parameters : List Parameter}
    (hproper : (headers parameters).Proper)
    (hwritten : encodeHeaders parameters = encodeBuckets parameters) :
    ((headers parameters).run region).2.Failed := by
  have hfirst : region.openWrap.Failed := hregion.failed_openNest .wrap
  have hopened : region.openWrap.openMap = region.openWrap.openWrap.openMap :=
    congrArg openMap (openNest_of_failed hfirst .wrap).symm
  have hsame : encodeBuckets parameters region = encodeBuckets parameters region.openWrap := by
    unfold encodeBuckets
    exact Session.modify_bind_congr hopened
  refine failed_run_of_first hproper hfirst ?_
  rw [run, run, hwritten, hsame]

/-- A message starts with its tag or its array, neither of which is taken. -/
theorem exists_appendMessage_inRegion (tag? : Option MessageTag) (headers : HeaderItems)
    (appendRest : Encoder → Encoder) :
    ∃ first : Encoder, first.Failed ∧ first.rules = region.rules ∧
      appendMessage tag? headers appendRest region =
        appendMessage tag? headers appendRest first := by
  cases tag? with
  | some tag =>
    have hfailed : (region.addTag tag.number).Failed := hregion.failed_addTag tag.number
    have htagged : (region.addTag tag.number).addTag tag.number = region.addTag tag.number :=
      apply_of_failed hfailed (.tag tag.number)
    refine ⟨region.addTag tag.number, hfailed,
      (region.advances_apply (.tag tag.number)).rules_eq, Session.modify_bind_congr ?_⟩
    simp only [htagged]
  | none =>
    have hfailed : region.openArray.Failed := hregion.failed_openNest .array
    have hopened : region.openArray.openArray = region.openArray :=
      openNest_of_failed hfailed .array
    refine ⟨region.openArray, hfailed, (region.advances_openNest .array).rules_eq,
      Session.modify_bind_congr ?_⟩
    simp only [hopened]

/-- A message with a stamp is refused, or starts as in a failed session. -/
theorem stamped_inRegion_cases {ι : Type} (tag : MessageTag) (message : Message)
    (inputs : Bytes → ι) (stamp : ι → Except Error Bytes) :
    let write := encodeStamped (m := Id) tag message inputs stamp
    (∃ cause, write region = .error cause region) ∨
      ∃ first : Encoder, first.Failed ∧ write region = write first := by
  intro write
  rcases encodeStamped_cases tag message inputs stamp region.rules with
    ⟨cause, hrefused⟩ | ⟨headers, result, hwritten⟩
  · exact .inl ⟨cause, hrefused region rfl⟩
  · obtain ⟨first, hfailed, hrules, hsame⟩ := exists_appendMessage_inRegion hregion
      (message.tag? tag) headers fun encoder ↦
        (message.appendContent message.payload encoder).appendBytes result
    exact .inr ⟨first, hfailed, (hwritten region rfl).trans (hsame.trans
      (hwritten first hrules).symm)⟩

/-- The same of an encrypted message. -/
theorem encrypted_inRegion_cases (message : Message)
    (encrypt : (plaintext aad : Bytes) → Except Error Bytes) :
    let write := encodeEncrypt0 (m := Id) message encrypt
    (∃ cause, write region = .error cause region) ∨
      ∃ first : Encoder, first.Failed ∧ write region = write first := by
  intro write
  rcases encodeEncrypt0_cases message encrypt region.rules with
    ⟨cause, hrefused⟩ | ⟨headers, ciphertext, hwritten⟩
  · exact .inl ⟨cause, hrefused region rfl⟩
  · obtain ⟨first, hfailed, hrules, hsame⟩ := exists_appendMessage_inRegion hregion
      (message.tag? .encrypt0) headers (message.appendContent ciphertext)
    exact .inr ⟨first, hfailed, (hwritten region rfl).trans
      ((Session.bind_congr_of_run hsame).trans (hwritten first hrules).symm)⟩

/-- While a region is open, a call appends bytes verbatim, or it fails, or it is refused and changes
nothing. -/
theorem run_inRegion_cases {call : Call} (hproper : call.Proper)
    (hopen : ∀ used, call ≠ .closeRegion used) :
    (call.run region).2.Failed ∨
      (call.run region).2 =
        { region with output := region.output.pushAll call.verbatim?.toList } := by
  have hclosed : (region.closeBy .wrap completeWrap).Failed :=
    hregion.failed_closeBy (by decide) completeWrap
  have hmessage {α : Type} {answer : Except Error α → Answer}
      {write : Encoder → EStateM.Result Error Encoder α}
      (hrun : ∀ encoder, call.run encoder = (Session.outcome (write encoder)).map answer id)
      (hwrite : (∃ cause, write region = .error cause region) ∨
        ∃ first : Encoder, first.Failed ∧ write region = write first) :
      (call.run region).2.Failed ∨ (call.run region).2 = region := by
    rcases hwrite with ⟨cause, hrefused⟩ | ⟨first, hfailed, hsame⟩
    · rw [hrun, hrefused]
      exact .inr rfl
    · exact .inl (failed_run_of_first hproper hfailed (by rw [hrun, hrun, hsame]))
  cases call with
  | operation step => exact .inl (hregion.failed_apply step)
  | bool truth => exact .inl (hregion.failed_append (.simple _))
  | null => exact .inl (hregion.failed_append (.simple _))
  | undefined => exact .inl (hregion.failed_append (.simple _))
  | head major argument minWidth => exact .inl (hregion.failed_appendHead major argument minWidth)
  | raw data => exact hregion.write_cases data
  | encoded item => exact .inl (failed_write_of_fails hregion.failed_beginItem item)
  | bigNumber negative magnitude =>
    rw [run, appendBigNumber_eq]
    exact hregion.perform_cases _
  | decimalFraction mantissa exponent =>
    exact .inl (hregion.failed_appendScaled _ mantissa exponent)
  | bigfloat mantissa exponent => exact .inl (hregion.failed_appendScaled _ mantissa exponent)
  | value content =>
    rw [run, appendValue_eq_perform]
    exact hregion.perform_cases _
  | closeWrap includeHead =>
    refine .inl ?_
    change (region.closeWrap includeHead).2.Failed
    rwa [snd_closeWrap]
  | closeWrapBytes includeHead =>
    refine .inl ?_
    change (region.closeWrapBytes includeHead).2.Failed
    rwa [snd_closeWrapBytes, snd_closeWrap]
  | openRegion capacity content =>
    exact .inl (failed_openRegion (hregion.failed_openNest .region) capacity content)
  | closeRegion used => exact absurd rfl (hopen used)
  | headers parameters =>
    rcases encodeHeaders_cases parameters with ⟨cause, hrejected⟩ | hwritten
    · refine .inr ?_
      rw [run, hrejected]
      rfl
    · exact .inl (failed_headers_inRegion hregion hproper hwritten)
  | sign1 message sign =>
    let inputs : Bytes → SignInputs := (⟨·, none, message.externalAad, message.payload⟩)
    exact hmessage (fun _ ↦ rfl) (stamped_inRegion_cases hregion .sign1 message inputs sign)
  | mac0 message authenticate =>
    let inputs : Bytes → MacInputs := (⟨.mac0, ·, message.externalAad, message.payload⟩)
    exact hmessage (fun _ ↦ rfl) (stamped_inRegion_cases hregion .mac0 message inputs authenticate)
  | encrypt0 message encrypt =>
    exact hmessage (fun _ ↦ rfl) (encrypted_inRegion_cases hregion message encrypt)

/-- What the calls made while a region is open append verbatim is all that they write. -/
theorem runAll_inRegion_cases {calls : List Call} (hproper : ∀ call ∈ calls, call.Proper)
    (hopen : ∀ call ∈ calls, ∀ used, call ≠ .closeRegion used) :
    (runAll region calls).2.Failed ∨
      (runAll region calls).2 =
        { region with output := region.output.pushAll (calls.filterMap verbatim?) } := by
  induction calls generalizing region with
  | nil => exact .inr rfl
  | cons call rest ih =>
    obtain ⟨hfirst, hrest⟩ := List.forall_mem_cons.1 hproper
    obtain ⟨hcall, hothers⟩ := List.forall_mem_cons.1 hopen
    change (runAll (call.run region).2 rest).2.Failed ∨ (runAll (call.run region).2 rest).2 = _
    rcases run_inRegion_cases hregion hfirst hcall with hfailed | hsame
    · rw [runAll_of_failed hfailed hrest]
      exact .inl hfailed
    · rw [hsame]
      have hstill : InRegion
          { region with output := region.output.pushAll call.verbatim?.toList } :=
        ⟨hregion.error_eq, hregion.exists_frame⟩
      have hpushed : (call :: rest).filterMap verbatim? =
          call.verbatim?.toList ++ rest.filterMap verbatim? := by
        rw [List.filterMap_cons]
        cases call.verbatim? <;> rfl
      rw [hpushed, Output.pushAll_append]
      exact ih hstill hrest hothers

end InRegion

/-- What becomes of a region that is opened with content at its start and closed again, with calls
in between of which none closes a region. Either the session fails, or the byte string is appended
to what was written before, with the bytes used of the region as its content. Without bytes appended
verbatim these are those that the caller wrote there. -/
theorem contents_closeRegion {encoder : Encoder} (hbytes : encoder.output.isSizeOnly = false)
    {capacity used : Nat} {content : Bytes} (hcontent : content.length ≤ capacity)
    (hused : used ≤ content.length) {calls : List Call}
    (hproper : ∀ call ∈ calls, call.Proper)
    (hopen : ∀ call ∈ calls, ∀ used, call ≠ .closeRegion used) :
    let opened := ((openRegion capacity content).run encoder).2
    let closed := ((closeRegion used).run (runAll opened calls).2).2
    closed.Failed ∨
      closed.output.contents = encoder.output.contents ++
        encodeHead .bytes (UInt64.ofNat used) 0 ++
          regionBytes encoder.output content (calls.filterMap verbatim?) used := by
  intro opened closed
  have hstays {session : Encoder} (hfailed : session.Failed) :
      ((closeRegion used).run session).2.Failed := by
    change (session.closeRegion used).Failed
    rwa [closeRegion_of_failed hfailed]
  rcases encoder.openRegion_cases capacity content with hfailed | ⟨outer, hopened⟩
  · refine .inl (hstays ?_)
    change (runAll (encoder.openRegion capacity content).2 calls).2.Failed
    rwa [runAll_of_failed hfailed hproper]
  have hopenedEq : opened = ⟨(encoder.output.push []).reserve capacity content,
      ⟨.region, encoder.length, capacity⟩ :: outer, none, encoder.rules, false⟩ := hopened
  have hregion : opened.InRegion := hopenedEq ▸ ⟨rfl, _, _, _, rfl⟩
  rcases runAll_inRegion_cases hregion hproper hopen with hfailed | hreached
  · exact .inl (hstays hfailed)
  have hclosed : closed = Encoder.closeRegion (runAll opened calls).2 used := rfl
  have hstored : (((encoder.output.push []).reserve capacity content).pushAll
      (calls.filterMap verbatim?)).isSizeOnly = false := by
    rw [Output.isSizeOnly_pushAll, ← hbytes]
    cases encoder.output <;> rfl
  rw [hclosed, hreached, hopenedEq]
  exact closeRegion_cases hstored (Nat.le_trans hused hcontent) outer encoder.rules
    (Output.length_contents hbytes) (Output.contents_region hbytes hcontent hused _)

/-- Four bytes are written into a region behind an item, one is appended verbatim, and three of the
region are used, in a session of fixed capacity. -/
theorem contents_closeRegion_raw :
    let storage : Bytes := List.replicate 12 0xaa
    let encoder := ((null).run (.ofOutput (.fixed #[] storage) .preferred)).2
    let content : Bytes := [0x61, 0x62, 0x63, 0x64]
    let calls : List Call := [.raw [0xee]]
    let closed := ((closeRegion 3).run (runAll ((openRegion 4 content).run encoder).2 calls).2).2
    encoder.output.isSizeOnly = false ∧ content.length ≤ 4 ∧ 3 ≤ content.length ∧
      (∀ call ∈ calls, call.Proper) ∧ (∀ call ∈ calls, ∀ used, call ≠ .closeRegion used) ∧
      closed.output.contents = [0xf6, 0x43, 0xee, 0x62, 0x63] := by
  intro storage encoder content calls closed
  have hbytes : encoder.output.isSizeOnly = false := rfl
  have hcontent : content.length ≤ 4 := by decide
  have hused : 3 ≤ content.length := by decide
  have hproper : ∀ call ∈ calls, call.Proper := by simp [calls, Proper, writers]
  have hopen : ∀ call ∈ calls, ∀ used, call ≠ .closeRegion used := by simp [calls]
  have hsucceeds : ¬closed.Failed := not_not.2 (by decide +kernel : closed.error = none)
  have hcontents := contents_closeRegion hbytes hcontent hused hproper hopen
  exact ⟨hbytes, hcontent, hused, hproper, hopen, hcontents.resolve_left hsucceeds⟩

/-- Bytes that are appended verbatim while a region is open take the place of what the caller wrote
there, and in a growing session all the rest is lost. -/
theorem region_overwritten :
    let content : Bytes := [0x61, 0x62, 0x63, 0x64]
    let calls : List Call := [.openRegion 4 content, .raw [0xee], .closeRegion 4]
    let closed : Encoder := (runAll (.growable .preferred) calls).2
    closed.error = none ∧ closed.output.contents = [0x44, 0xee, 0, 0, 0] ∧
      closed.output.contents ≠ encodeHead .bytes 4 0 ++ content := by
  decide +kernel

end Call

end Cose
