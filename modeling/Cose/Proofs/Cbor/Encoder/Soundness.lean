import Mathlib.Tactic.Common
import Cose.Proofs.Cbor.Encoder.Progress
import Cose.Proofs.Cbor.MapOrder

/-!
# The shape of a session

`Encoder.Sound` is what holds of an encoding session at any time, whatever was done to it and
whether it failed: no more items are open than the limit on nesting allows, each of them starts
inside the one around it and inside what has been written, their counts are within their limits, and
the length of the encoding is within the limit on it. In a session that has not failed, a region
lies inside what the output can hold, and outside of regions a growing output holds nothing beyond
the bytes written.

The two last parts say nothing of a failed session: an operation that fails half-way may leave a
region that is larger than the output.
-/

set_option autoImplicit false
set_option relaxedAutoImplicit false

namespace Cose.Cbor

/-! ### Outputs -/

/-- Whether an encoding may have a length, in an output that may be of fixed capacity. -/
structure Admits (capacity? : Option Nat) (length : Nat) : Prop where
  le_limit : length ≤ maxEncodedLength
  le_capacity : ∀ capacity ∈ capacity?, length ≤ capacity

theorem Admits.mono {capacity? : Option Nat} {length shorter : Nat}
    (hadmits : Admits capacity? length) (hshorter : shorter ≤ length) :
    Admits capacity? shorter :=
  ⟨Nat.le_trans hshorter hadmits.le_limit, fun capacity hmem ↦
    Nat.le_trans hshorter (hadmits.le_capacity capacity hmem)⟩

namespace Output

/-- The number of bytes that an output of fixed capacity holds at most. -/
def capacity? : Output → Option Nat
  | sizeOnly _ => none
  | fixed written beyond => some (written.size + beyond.length)
  | growable _ _ => none

/-- Whether an output holds no bytes beyond those written, if it grows. -/
def IsFlush : Output → Prop
  | growable _ beyond => beyond = []
  | _ => True

theorem length_le_capacity (output : Output) :
    ∀ capacity ∈ output.capacity?, output.length ≤ capacity := by
  cases output with
  | fixed written beyond =>
    rintro _ ⟨⟩
    exact Nat.le_add_right _ _
  | _ => exact fun _ hcapacity ↦ by cases hcapacity

/-- More bytes are not refused where the length that they lead to is admissible. -/
theorem refusal?_eq_none_iff (output : Output) (count : Nat) :
    output.refusal? count = none ↔ Admits output.capacity? (output.length + count) := by
  unfold refusal?
  split
  next hlong => exact iff_of_false (by simp) fun hadmits ↦ absurd hadmits.le_limit (by omega)
  next hlength =>
    cases output with
    | fixed written beyond =>
      have hreaches := reaches_eq_true_iff count beyond
      dsimp only
      by_cases hfits : count ≤ beyond.length
      · rw [if_pos (hreaches.2 hfits)]
        refine iff_of_true rfl ⟨Nat.not_lt.1 hlength, ?_⟩
        rintro _ ⟨⟩
        exact Nat.add_le_add_left hfits _
      · rw [if_neg (hfits ∘ hreaches.1)]
        refine iff_of_false (by simp) fun hadmits ↦ hfits ?_
        exact Nat.le_of_add_le_add_left (hadmits.le_capacity _ rfl)
    | _ => exact iff_of_true rfl ⟨Nat.not_lt.1 hlength, fun _ hcapacity ↦ by cases hcapacity⟩

/-- What is left of the storage behind the end moves with it, as long as more bytes fit. -/
theorem capacity?_push {output : Output} {data : Bytes}
    (hadmits : Admits output.capacity? (output.length + data.length)) :
    (output.push data).capacity? = output.capacity? := by
  cases output with
  | fixed written beyond =>
    have hfits := hadmits.le_capacity _ rfl
    simp only [length] at hfits
    simp only [push, capacity?, ← Array.length_toList, Array.toList_appendList, List.length_append,
      List.length_drop, Option.some.injEq]
    omega
  | _ => rfl

theorem capacity?_insert {output : Output} {data : Bytes}
    (hadmits : Admits output.capacity? (output.length + data.length)) (position : Nat) :
    (output.insert position data).capacity? = output.capacity? := by
  cases output with
  | fixed written beyond =>
    have hfits := hadmits.le_capacity _ rfl
    have hlength := length_insert (fixed written beyond) position data
    simp only [length, insert] at hfits hlength
    simp only [insert, capacity?, hlength, List.length_drop, Option.some.injEq]
    omega
  | _ => rfl

theorem capacity?_replaceFrom {output : Output} {position : Nat} {data : Bytes}
    (hdata : data.length = (output.contentsFrom position).length) :
    (output.replaceFrom position data).capacity? = output.capacity? := by
  cases output with
  | fixed written beyond =>
    have hlength := length_replaceFrom (fixed written beyond) hdata
    simp only [length, replaceFrom] at hlength
    simp only [replaceFrom, capacity?, hlength]
  | _ => rfl

theorem isFlush_push (output : Output) (data : Bytes) : (output.push data).IsFlush := by
  cases output <;> trivial

theorem isFlush_insert (output : Output) (position : Nat) (data : Bytes) :
    (output.insert position data).IsFlush := by
  cases output <;> trivial

theorem IsFlush.replaceFrom {output : Output} (hflush : output.IsFlush) (position : Nat)
    (data : Bytes) : (output.replaceFrom position data).IsFlush := by
  cases output with
  | growable written beyond => exact hflush
  | _ => trivial

end Output

namespace Encoder

/-! ### Open items -/

/-- Whether items can be open at once, innermost first, when a number of bytes is written: they are
not too many, each starts no earlier than the one around it and lies in what is written, none counts
more items than it takes, and only the innermost may be a region. -/
structure Stacked (frames : List Frame) (length : Nat) : Prop where
  depth_le : frames.length ≤ maxNesting
  starts : frames.Pairwise fun inner outer ↦ outer.start ≤ inner.start
  start_le : ∀ frame ∈ frames, frame.start ≤ length
  count_le : ∀ frame ∈ frames, ∀ limit ∈ frame.kind.limit?, frame.count ≤ limit
  takesTags_tail : ∀ frame ∈ frames.tail, frame.kind ≠ .region

namespace Stacked

variable {frames outer : List Frame} {frame : Frame} {length longer : Nat}

theorem nil (length : Nat) : Stacked [] length :=
  ⟨Nat.zero_le _, .nil, fun _ hmem ↦ (by cases hmem), fun _ hmem ↦ (by cases hmem),
    fun _ hmem ↦ (by cases hmem)⟩

theorem mono (hstacked : Stacked frames length) (hlength : length ≤ longer) :
    Stacked frames longer :=
  { hstacked with start_le := fun frame hmem ↦ Nat.le_trans (hstacked.start_le frame hmem) hlength }

/-- Once the innermost item is closed, those around it are open. -/
theorem of_cons (hstacked : Stacked (frame :: outer) length) : Stacked outer length where
  depth_le := Nat.le_of_succ_le hstacked.depth_le
  starts := (List.pairwise_cons.1 hstacked.starts).2
  start_le inner hmem := hstacked.start_le inner (List.mem_cons_of_mem _ hmem)
  count_le inner hmem := hstacked.count_le inner (List.mem_cons_of_mem _ hmem)
  takesTags_tail inner hmem := hstacked.takesTags_tail inner (List.mem_of_mem_tail hmem)

/-- The items around another are no regions, so they take tags. -/
theorem takesTags_of_cons (hstacked : Stacked (frame :: outer) length) : TakesTags outer :=
  fun inner hmem ↦ hstacked.takesTags_tail inner (List.mem_of_mem_head? hmem)

/-- Every item around another starts no later than that. -/
theorem le_start (hstacked : Stacked (frame :: outer) length) :
    ∀ other ∈ frame :: outer, other.start ≤ frame.start :=
  List.forall_mem_cons.2 ⟨Nat.le_refl _, (List.pairwise_cons.1 hstacked.starts).1⟩

/-- Items stay open in what is written up to the start of the innermost. -/
theorem of_start_le (hstacked : Stacked (frame :: outer) length) {shorter : Nat}
    (hstart : frame.start ≤ shorter) : Stacked (frame :: outer) shorter :=
  { hstacked with
    start_le := fun other hmem ↦ Nat.le_trans (hstacked.le_start other hmem) hstart }

/-- An item opens at the end of what is written. -/
theorem cons (hstacked : Stacked frames length) (htakes : TakesTags frames)
    (hdepth : frames.length < maxNesting) (kind : Nest) :
    Stacked (⟨kind, length, 0⟩ :: frames) length where
  depth_le := hdepth
  starts := List.pairwise_cons.2 ⟨hstacked.start_le, hstacked.starts⟩
  start_le := List.forall_mem_cons.2 ⟨Nat.le_refl _, hstacked.start_le⟩
  count_le := List.forall_mem_cons.2 ⟨fun _ _ ↦ Nat.zero_le _, hstacked.count_le⟩
  takesTags_tail inner hmem := by
    cases frames with
    | nil => cases hmem
    | cons first rest =>
      rcases List.mem_cons.1 hmem with rfl | htail
      · exact htakes _ rfl
      · exact hstacked.takesTags_tail inner htail

/-- The count of the innermost item may change within its limit. -/
theorem withCount (hstacked : Stacked (frame :: outer) length) {count : Nat}
    (hcount : ∀ limit ∈ frame.kind.limit?, count ≤ limit) :
    Stacked ({ frame with count := count } :: outer) length where
  depth_le := hstacked.depth_le
  starts := List.pairwise_cons.2 (List.pairwise_cons.1 hstacked.starts)
  start_le := List.forall_mem_cons.2 (List.forall_mem_cons.1 hstacked.start_le)
  count_le := List.forall_mem_cons.2 ⟨hcount, (List.forall_mem_cons.1 hstacked.count_le).2⟩
  takesTags_tail := hstacked.takesTags_tail

end Stacked

/-! ### Sound sessions -/

/-- What holds at any time of a session over an output that may be of fixed capacity. -/
structure Sound (capacity? : Option Nat) (encoder : Encoder) : Prop where
  capacity?_eq : encoder.output.capacity? = capacity?
  length_le : encoder.length ≤ maxEncodedLength
  stacked : Stacked encoder.frames encoder.length
  /-- A region lies inside what the output can hold. -/
  admits_region : encoder.error = none → ∀ frame ∈ encoder.frames.head?, frame.kind = .region →
    Admits capacity? (frame.start + frame.count)
  /-- Outside of regions, a growing output ends with the bytes written. -/
  isFlush : encoder.error = none → TakesTags encoder.frames → encoder.output.IsFlush

variable {capacity? : Option Nat} {encoder : Encoder}

/-- Of a failed session less is to be shown. -/
theorem Sound.of_failed (hfailed : encoder.Failed)
    (hcapacity : encoder.output.capacity? = capacity?)
    (hlength : encoder.length ≤ maxEncodedLength)
    (hstacked : Stacked encoder.frames encoder.length) : Sound capacity? encoder :=
  ⟨hcapacity, hlength, hstacked, fun hlive ↦ absurd hlive hfailed, fun hlive ↦ absurd hlive hfailed⟩

/-- Where tags are taken, no region is open. -/
theorem Sound.of_takesTags (htakes : TakesTags encoder.frames)
    (hcapacity : encoder.output.capacity? = capacity?) (hlength : encoder.length ≤ maxEncodedLength)
    (hstacked : Stacked encoder.frames encoder.length) (hflush : encoder.output.IsFlush) :
    Sound capacity? encoder :=
  ⟨hcapacity, hlength, hstacked, fun _ frame hmem hkind ↦ absurd hkind (htakes frame hmem),
    fun _ _ ↦ hflush⟩

/-- A session that starts over an empty output is sound. -/
theorem sound_ofOutput {output : Output} (hempty : output.length = 0) (hflush : output.IsFlush)
    (rules : Rules) : Sound output.capacity? (ofOutput output rules) :=
  .of_takesTags (fun _ hmem ↦ by cases hmem) rfl (Nat.le_trans hempty.le (Nat.zero_le _)) (.nil _)
    hflush

theorem sound_fail (hcapacity : encoder.output.capacity? = capacity?)
    (hlength : encoder.length ≤ maxEncodedLength)
    (hstacked : Stacked encoder.frames encoder.length) (cause : EncodeError) :
    Sound capacity? (encoder.fail cause) := by
  refine .of_failed (failed_fail encoder cause) ?_ ?_ ?_ <;>
    · unfold fail
      split <;> assumption

/-- What is done only to sessions that have not failed leaves the others sound. -/
theorem sound_proceed (hsound : Sound capacity? encoder) {change : Encoder → Encoder}
    (hchange : encoder.error = none → Sound capacity? (change encoder)) :
    Sound capacity? (encoder.proceed change) := by
  unfold proceed
  split
  · exact hsound
  next hlive => exact hchange hlive

namespace Sound

variable (hsound : Sound capacity? encoder)
include hsound

/-- The length is one that the output admits. -/
theorem admits_length : Admits capacity? encoder.length :=
  ⟨hsound.length_le, hsound.capacity?_eq ▸ encoder.output.length_le_capacity⟩

theorem fail (cause : EncodeError) : Sound capacity? (encoder.fail cause) :=
  sound_fail hsound.capacity?_eq hsound.length_le hsound.stacked cause

/-- The output may grow by bytes that it has room for. -/
theorem grow {count : Nat} {change : Output → Output}
    (hlength : (change encoder.output).length = encoder.output.length + count)
    (hcapacity : Admits encoder.output.capacity? (encoder.output.length + count) →
      (change encoder.output).capacity? = encoder.output.capacity?)
    (hflush : (change encoder.output).IsFlush) : Sound capacity? (encoder.grow count change) := by
  refine sound_proceed hsound fun hlive ↦ ?_
  split
  · exact hsound.fail _
  next hfits =>
    have hadmits := (encoder.output.refusal?_eq_none_iff count).1 hfits
    exact {
      capacity?_eq := (hcapacity hadmits).trans hsound.capacity?_eq
      length_le := hlength.trans_le hadmits.le_limit
      stacked := hsound.stacked.mono ((Nat.le_add_right _ _).trans_eq hlength.symm)
      admits_region := fun _ ↦ hsound.admits_region hlive
      isFlush := fun _ _ ↦ hflush }

theorem write (data : Bytes) : Sound capacity? (encoder.write data) := by
  rw [write_eq_grow]
  exact hsound.grow (Output.length_push _ data) Output.capacity?_push (Output.isFlush_push _ data)

theorem insert (position : Nat) (data : Bytes) :
    Sound capacity? (encoder.insert position data) := by
  rw [insert_eq_grow]
  exact hsound.grow (Output.length_insert _ position data) (Output.capacity?_insert · position)
    (Output.isFlush_insert _ position data)

theorem beginItem : Sound capacity? encoder.beginItem := by
  refine sound_proceed hsound fun hlive ↦ ?_
  have hcleared : Sound capacity? { encoder with tagPending := false } :=
    ⟨hsound.capacity?_eq, hsound.length_le, hsound.stacked, hsound.admits_region, hsound.isFlush⟩
  dsimp only
  split
  · exact hcleared
  next frame outer hframes =>
    have hstacked := hsound.stacked
    have hflush := hsound.isFlush hlive
    rw [hframes] at hstacked hflush
    split
    · exact hcleared.fail _
    next limit hlimit =>
      split
      · exact hcleared.fail _
      next hroom =>
        have hkind : frame.kind ≠ .region := fun hregion ↦ by
          rw [hregion] at hlimit
          cases hlimit
        have htakes : TakesTags (frame :: outer) := by
          rintro _ ⟨⟩
          exact hkind
        refine .of_takesTags ?_ hsound.capacity?_eq hsound.length_le (hstacked.withCount ?_)
          (hflush htakes)
        · rintro _ ⟨⟩
          exact hkind
        · rintro _ hsame
          cases hlimit.symm.trans hsame
          exact Nat.lt_of_not_ge hroom

theorem appendEncoded (item : Bytes) : Sound capacity? (encoder.appendEncoded item) :=
  hsound.beginItem.write item

theorem append (value : Scalar) : Sound capacity? (value.append encoder) := by
  by_cases hallowed : value.Allowed encoder.rules
  · rcases append_eq_write hallowed with hwrite | ⟨head, content, _, hwrite⟩
    · rw [hwrite encoder rfl]
      exact hsound.appendEncoded _
    · rw [hwrite encoder rfl]
      exact (hsound.appendEncoded head).write content
  · obtain ⟨cause, hfail⟩ := exists_append_eq_fail hallowed
    rw [hfail encoder rfl]
    exact hsound.fail cause

theorem addTag (tag : UInt64) : Sound capacity? (encoder.addTag tag) := by
  refine sound_proceed hsound fun hlive ↦ ?_
  split
  · exact hsound.fail _
  · have hwritten := hsound.write (encodeHead .tag tag 0)
    exact ⟨hwritten.capacity?_eq, hwritten.length_le, hwritten.stacked, hwritten.admits_region,
      hwritten.isFlush⟩

end Sound

/-! ### Opening -/

/-- What was written tells nothing of the open items. -/
theorem frames_write (encoder : Encoder) (data : Bytes) :
    (encoder.write data).frames = encoder.frames := by
  unfold write proceed fail
  split
  · rfl
  · dsimp only
    split
    · split <;> rfl
    · rfl

/-- Where an item is counted, the innermost open item is no region. -/
theorem takesTags_beginItem {encoder : Encoder} (hlive : encoder.beginItem.error = none) :
    TakesTags encoder.beginItem.frames := by
  obtain ⟨output, frames, error, rules, tagPending⟩ := encoder
  cases error with
  | some cause => cases hlive
  | none =>
    cases frames with
    | nil => exact fun _ hmem ↦ by cases hmem
    | cons frame outer =>
      simp only [Encoder.beginItem, proceed] at hlive ⊢
      split at hlive
      · cases hlive
      next limit hlimit =>
        split at hlive
        · cases hlive
        next hroom =>
          rw [if_neg hroom]
          rintro _ ⟨⟩ hkind
          rw [show frame.kind = .region from hkind] at hlimit
          cases hlimit

/-- To open an item fails, or puts an item that starts at the end of what is then written inside
those that are open. -/
theorem openNest_cases (encoder : Encoder) (kind : Nest) :
    (encoder.openNest kind = encoder.beginItem ∧ encoder.beginItem.Failed) ∨
      (∃ cause, encoder.openNest kind = encoder.beginItem.fail cause) ∨
      encoder.beginItem.error = none ∧ encoder.beginItem.depth < maxNesting ∧
        encoder.openNest kind = { encoder.beginItem.write (openingBytes kind) with
          frames := ⟨kind, (encoder.beginItem.write (openingBytes kind)).length, 0⟩ ::
            (encoder.beginItem.write (openingBytes kind)).frames } := by
  unfold openNest
  by_cases hfailed : encoder.beginItem.Failed
  · exact .inl ⟨proceed_of_failed hfailed _, hfailed⟩
  have hlive : encoder.beginItem.error = none := not_not.1 hfailed
  refine .inr ?_
  simp only [proceed, hlive]
  split
  · exact .inl ⟨_, rfl⟩
  next hdepth =>
    split
    · exact .inl ⟨_, rfl⟩
    · exact .inr ⟨trivial, Nat.lt_of_not_ge hdepth, rfl⟩

theorem Sound.openNest (hsound : Sound capacity? encoder) (kind : Nest) :
    Sound capacity? (encoder.openNest kind) := by
  rcases encoder.openNest_cases kind with ⟨hopened, _⟩ | ⟨cause, hopened⟩ |
    ⟨hlive, hdepth, hopened⟩
  · rw [hopened]
    exact hsound.beginItem
  · rw [hopened]
    exact hsound.beginItem.fail cause
  · rw [hopened]
    have hwritten := hsound.beginItem.write (openingBytes kind)
    have hframes := encoder.beginItem.frames_write (openingBytes kind)
    have htakes : TakesTags (encoder.beginItem.write (openingBytes kind)).frames :=
      hframes ▸ takesTags_beginItem hlive
    refine ⟨hwritten.capacity?_eq, hwritten.length_le,
      hwritten.stacked.cons htakes (by rwa [hframes]) kind, ?_,
      fun hopen _ ↦ hwritten.isFlush hopen htakes⟩
    rintro - _ ⟨⟩ -
    exact hwritten.admits_length

/-! ### Closing -/

namespace Sound

variable (hsound : Sound capacity? encoder)
include hsound

/-- A session that closes an item is sound if it is when the item is completed. -/
theorem closeBy (kind : Nest) {complete : Encoder → Frame → Encoder}
    (hcomplete : ∀ frame outer, encoder.error = none → encoder.frames = frame :: outer →
      frame.kind = kind → Sound capacity? (complete { encoder with frames := outer } frame)) :
    Sound capacity? (encoder.closeBy kind complete) := by
  unfold Encoder.closeBy Encoder.pop
  split
  next popped heq =>
    split at heq
    · cases heq
      exact hsound
    · split at heq
      · cases heq
        exact hsound.fail _
      · split at heq
        · cases heq
          exact hsound.fail _
        · split at heq <;> cases heq
          exact hsound.fail _
  next frame popped heq =>
    split at heq
    · cases heq
    next hlive =>
      split at heq
      · cases heq
      · split at heq
        · cases heq
        next hframes =>
          split at heq
          next hkind =>
            cases heq
            exact hcomplete _ _ hlive hframes hkind
          · cases heq

/-- Once an item that is no region is closed, the session is sound with the items around it. -/
theorem closed {frame : Frame} {outer : List Frame} (hlive : encoder.error = none)
    (hframes : encoder.frames = frame :: outer) (hkind : frame.kind ≠ .region) :
    Sound capacity? { encoder with frames := outer } := by
  have hstacked := hsound.stacked
  have hflush := hsound.isFlush hlive
  rw [hframes] at hstacked hflush
  refine .of_takesTags hstacked.takesTags_of_cons hsound.capacity?_eq hsound.length_le
    hstacked.of_cons (hflush ?_)
  rintro _ ⟨⟩
  exact hkind

theorem closeNest {kind : Nest} (hkind : kind ≠ .region) {complete : Encoder → Frame → Encoder}
    (hcomplete : ∀ (popped : Encoder) frame, Sound capacity? popped →
      Sound capacity? (complete popped frame)) :
    Sound capacity? (encoder.closeBy kind complete) :=
  hsound.closeBy kind fun _ _ hlive hframes hsame ↦
    hcomplete _ _ (hsound.closed hlive hframes (hsame ▸ hkind))

theorem sortMap (start : Nat) : Sound capacity? (encoder.sortMap start) := by
  let sorted := (sortEntries (encoder.output.contentsFrom start)).1
  have hdata : sorted.length = (encoder.output.contentsFrom start).length := length_sortEntries _
  have hsorted : Sound capacity?
      { encoder with output := encoder.output.replaceFrom start sorted } :=
    have hlength := encoder.output.length_replaceFrom hdata
    { capacity?_eq := (Output.capacity?_replaceFrom hdata).trans hsound.capacity?_eq
      length_le := hlength.trans_le hsound.length_le
      stacked := hsound.stacked.mono hlength.ge
      admits_region := hsound.admits_region
      isFlush := fun hlive htakes ↦ (hsound.isFlush hlive htakes).replaceFrom start sorted }
  unfold Encoder.sortMap
  dsimp only
  split
  · exact hsound
  · split
    · exact hsorted
    · exact hsorted.fail _

theorem completeMap (frame : Frame) : Sound capacity? (encoder.completeMap frame) := by
  unfold Encoder.completeMap arrangeMap
  split
  · split
    · exact (hsound.sortMap _).insert _ _
    · exact hsound.insert _ _
  · exact hsound.fail _

theorem completeIndefiniteMap (frame : Frame) :
    Sound capacity? (encoder.completeIndefiniteMap frame) := by
  unfold Encoder.completeIndefiniteMap
  split
  · exact hsound.write _
  · exact hsound.fail _

/-- Every operation leaves a sound session sound. -/
theorem apply (operation : Operation) : Sound capacity? (operation.apply encoder) := by
  cases operation with
  | scalar value => exact hsound.append value
  | tag number => exact hsound.addTag number
  | opening kind => cases kind <;> exact hsound.openNest _
  | closing kind =>
    cases kind with
    | array =>
      rw [Operation.apply, closeArray_eq]
      exact hsound.closeNest (by decide) fun _ _ hpopped ↦ hpopped.insert _ _
    | map =>
      rw [Operation.apply, closeMap_eq]
      exact hsound.closeNest (by decide) fun _ frame hpopped ↦ hpopped.completeMap frame
    | indefiniteArray =>
      rw [Operation.apply, closeArrayIndefinite_eq]
      exact hsound.closeNest (by decide) fun _ _ hpopped ↦ hpopped.write _
    | indefiniteMap =>
      rw [Operation.apply, closeMapIndefinite_eq]
      exact hsound.closeNest (by decide) fun _ frame hpopped ↦ hpopped.completeIndefiniteMap frame
    | wrap =>
      rw [Operation.apply, snd_closeWrap]
      exact hsound.closeNest (by decide) fun _ _ hpopped ↦ hpopped.insert _ _

end Sound

end Encoder

end Cose.Cbor
