import Mathlib.Tactic.Common
import Cose.Proofs.Session.Relocation

/-!
# Three ways to write a byte string

A byte string is appended as a whole, or as a region that is closed behind its content, or as the
wrapping of what a session of its own would hold. In a growing session the three leave the same
(`Encoder.byteStrings_agree`). In the first two the content is known when the byte string is
opened or comes after; a head is put in front of it in the end (`Encoder.backfill`). The third
rests on what the calls inside do in a session of their own (`Step.applyAll_inside`).

The third has two limits that the session of its own does not have: a region inside may be open for
a while that is larger than the content in the end, and a byte string counts the items inside.
-/

set_option autoImplicit false
set_option relaxedAutoImplicit false

namespace Cose

open Cbor

namespace Cbor

theorem Output.endAt_reserve {content : Bytes} {capacity : Nat}
    (hcontent : content.length ≤ capacity) (written : Array UInt8) :
    ((growable written []).reserve capacity content).endAt (written.size + content.length) =
      growable (written.toList ++ content).toArray [] := by
  have hinitial : content.take capacity = content := List.take_of_length_le hcontent
  have hkept : written.extract 0 (written.size + content.length) = written :=
    Array.extract_eq_self_of_le (Nat.le_add_right _ _)
  have happended : written ++ content = (written.toList ++ content).toArray := by
    rw [← Array.toList_inj]
    simp
  simp [reserve, endAt, hinitial, hkept, happended]

namespace Encoder

variable {encoder : Encoder} {written : Array UInt8} {beyond content : Bytes}

/-- The bytes of a byte string: its head, and its content. -/
def byteString (content : Bytes) : Bytes :=
  encodeHead .bytes (UInt64.ofNat content.length) 0 ++ content

/-- To write into a growing session is to give up what is held beyond its end. -/
theorem write_growable (houtput : encoder.output = .growable written beyond)
    (hlive : encoder.error = none) {data : Bytes}
    (hfits : written.size + data.length ≤ maxEncodedLength) :
    encoder.write data =
      live encoder.rules (written.toList ++ data) encoder.frames encoder.tagPending := by
  obtain ⟨output, frames, error, rules, tagPending⟩ := encoder
  obtain rfl : output = .growable written beyond := houtput
  obtain rfl : error = none := hlive
  have hroom : (Output.growable written beyond).refusal? data.length = none :=
    ((Output.growable written beyond).refusal?_eq_none_iff _).2
      ⟨hfits, fun _ hcapacity ↦ by cases hcapacity⟩
  have hwritten : written ++ data = (written.toList ++ data).toArray := by
    rw [← Array.toList_inj]
    simp
  rw [write_of_fits rfl hroom, Output.push, hwritten]
  rfl

/-- What holds where a byte string is appended to a growing session, and the session after it. -/
theorem appendBytes_of_live (houtput : encoder.output = .growable written beyond)
    (hlive : (encoder.appendBytes content).error = none) :
    encoder.error = none ∧ HasRoom encoder.frames ∧
      (written.toList ++ byteString content).length ≤ maxEncodedLength ∧
      encoder.appendBytes content =
        live encoder.rules (written.toList ++ byteString content) (counted encoder.frames)
          false := by
  obtain ⟨hheaded, hcontent⟩ := write_of_live hlive
  obtain ⟨hbegun, hhead⟩ := write_of_live hheaded
  obtain ⟨hbefore, hroom⟩ := beginItem_of_live hbegun
  have hheadFits := ((Output.refusal?_eq_none_iff _ _).1 hhead).le_limit
  rw [beginItem_of_hasRoom hbefore hroom, houtput] at hheadFits
  have hwritten : encoder.beginItem.write (encodeHead .bytes (UInt64.ofNat content.length) 0) =
      live encoder.rules (written.toList ++ encodeHead .bytes (UInt64.ofNat content.length) 0)
        (counted encoder.frames) false := by
    rw [beginItem_of_hasRoom hbefore hroom]
    exact @write_growable { encoder with frames := counted encoder.frames, tagPending := false }
      _ _ houtput hbefore _ hheadFits
  rw [hwritten] at hcontent
  have hfits := ((Output.refusal?_eq_none_iff _ _).1 hcontent).le_limit
  rw [← length, length_live] at hfits
  refine ⟨hbefore, hroom, ?_, ?_⟩
  · rwa [byteString, ← List.append_assoc, List.length_append]
  · rw [byteString, ← List.append_assoc, ← write_live hfits, ← hwritten]
    rfl

/-- The head of a byte string may come after its content. -/
theorem backfill (hfits : (written.toList ++ byteString content).length ≤ maxEncodedLength)
    (rules : Rules) (frames : List Frame) :
    (live rules (written.toList ++ content) frames false).insert written.size
        (encodeHead .bytes (UInt64.ofNat content.length) 0) =
      live rules (written.toList ++ byteString content) frames false := by
  rw [byteString, ← List.append_assoc] at hfits ⊢
  exact insert_live hfits

/-- A byte string is opened behind what is written, and starts there. -/
theorem openNest_bytes {kind : Nest} (hkind : kind = .wrap ∨ kind = .region)
    (houtput : encoder.output = .growable written beyond) (hdepth : encoder.depth < maxNesting)
    (hlive : (encoder.appendBytes content).error = none) :
    encoder.openNest kind =
      live encoder.rules written.toList (⟨kind, written.size, 0⟩ :: counted encoder.frames)
        false := by
  obtain ⟨hbefore, hroom, hfits, _⟩ := appendBytes_of_live houtput hlive
  have hbegins := beginItem_of_hasRoom hbefore hroom
  have hopens : encoder.beginItem.CanOpen kind := by
    refine ⟨?_, fun hindefinite ↦ ?_⟩
    · rwa [hbegins, depth, length_counted]
    · rcases hkind with rfl | rfl <;> cases hindefinite
  have hempty : openingBytes kind = [] := by rcases hkind with rfl | rfl <;> rfl
  have hlength : written.size + ([] : Bytes).length ≤ maxEncodedLength := by
    rw [List.length_append, Array.length_toList] at hfits
    exact Nat.le_trans (Nat.le_add_right _ _) hfits
  have hwritten : encoder.beginItem.write (openingBytes kind) =
      live encoder.rules written.toList (counted encoder.frames) false := by
    rw [hbegins, hempty, ← List.append_nil written.toList]
    exact @write_growable { encoder with frames := counted encoder.frames, tagPending := false }
      _ _ houtput hbefore _ hlength
  rw [openNest_of_canOpen (hbegins ▸ hbefore) hopens, hwritten, length_live, Array.length_toList,
    hbegins]
  rfl

/-- A region that is closed behind its content is a byte string. -/
theorem closeRegion_openRegion (houtput : encoder.output = .growable written beyond)
    (hdepth : encoder.depth < maxNesting) (hlive : (encoder.appendBytes content).error = none)
    {capacity : Nat} (hcontent : content.length ≤ capacity)
    (hcapacity : encoder.length + capacity ≤ maxEncodedLength) :
    (encoder.openRegion capacity content).2.closeRegion content.length =
      encoder.appendBytes content := by
  obtain ⟨_, _, hfits, happended⟩ := appendBytes_of_live houtput hlive
  have hopened := openNest_bytes (.inr rfl) houtput hdepth hlive
  have hroom : (encoder.openNest .region).output.refusal? capacity = none := by
    rw [hopened, refusal?_live, Array.length_toList]
    rw [length, houtput, Output.length] at hcapacity
    exact if_neg (Nat.not_lt.2 hcapacity)
  have hregion := @openRegion_of_fits encoder capacity content (by rw [hopened]; rfl) hroom
  rw [hregion, hopened, happended, closeRegion_eq]
  refine (@closeBy_of_frames _ _ _ ⟨.region, written.size, capacity⟩ (counted encoder.frames)
    rfl rfl rfl rfl).trans ?_
  rw [completeRegion, if_neg (Nat.not_lt.2 hcontent), ← backfill hfits]
  let region (output : Output) : Encoder :=
    ⟨output, counted encoder.frames, none, encoder.rules, false⟩
  exact congrArg (fun output ↦ (region output).insert written.size
    (encodeHead .bytes (UInt64.ofNat content.length) 0)) (Output.endAt_reserve hcontent written)

/-! ### Wrapping -/

theorem live_inside (rules : Rules) (contents : Bytes) (place : Place) (items : Nat) :
    (live rules contents [] false).inside place items =
      live rules (place.front.toList ++ contents) (⟨.wrap, place.front.size, items⟩ :: place.outer)
        false := by
  have hbehind : place.front ++ contents.toArray = (place.front.toList ++ contents).toArray := by
    rw [← Array.toList_inj]
    simp
  simp [live, inside, Output.behind, hbehind]

/-- The last bytes are viewed from where they start to the end. -/
theorem view?_live_suffix (rules : Rules) (frames : List Frame) (front back : Bytes) :
    (live rules (front ++ back) frames false).view? front.length (front ++ back).length =
      some back := by
  have hview := @view?_live rules frames false front back []
  rwa [List.append_nil, ← List.length_append] at hview

/-- What is wrapped becomes a byte string, and the span that is told is that of its content, or of
all of it. -/
theorem closeWrap_live (hfits : (written.toList ++ byteString content).length ≤ maxEncodedLength)
    (rules : Rules) (items : Nat) (outer : List Frame) (includeHead : Bool) :
    ∃ span, (live rules (written.toList ++ content) (⟨.wrap, written.size, items⟩ :: outer)
        false).closeWrap includeHead =
          (some span, live rules (written.toList ++ byteString content) outer false) ∧
      (live rules (written.toList ++ byteString content) outer false).view? span.start span.stop =
        some (if includeHead then byteString content else content) := by
  have hpop : (live rules (written.toList ++ content) (⟨.wrap, written.size, items⟩ :: outer)
      false).pop .wrap =
        (some ⟨.wrap, written.size, items⟩, live rules (written.toList ++ content) outer false) :=
    pop_live
  have hcontent : (live rules (written.toList ++ content) outer false).length - written.size =
      content.length := by
    rw [length_live, List.length_append, Array.length_toList, Nat.add_sub_cancel_left]
  have hcompleted : (live rules (written.toList ++ content) outer false).completeWrap
      ⟨.wrap, written.size, items⟩ =
        live rules (written.toList ++ byteString content) outer false := by
    unfold completeWrap
    rw [hcontent]
    exact backfill hfits rules outer
  rw [closeWrap_of_pop hpop, hcompleted, hcontent]
  refine ⟨_, rfl, ?_⟩
  rw [length_live]
  cases includeHead with
  | true =>
    have hview := view?_live_suffix rules outer written.toList (byteString content)
    rwa [Array.length_toList] at hview
  | false =>
    have hview := view?_live_suffix rules outer
      (written.toList ++ encodeHead .bytes (UInt64.ofNat content.length) 0) content
    rwa [List.append_assoc, List.length_append, Array.length_toList] at hview

/-- A growing session that is finished holds the bytes that it is finished with, and no others. -/
theorem Sound.eq_live_of_finish (hsound : Sound none encoder)
    (hfinish : encoder.finish = .ok content) : encoder = live encoder.rules content [] false := by
  obtain ⟨output, frames, error, rules, tagPending⟩ := encoder
  have hcomplete : error = none ∧ frames = [] ∧ tagPending = false := by
    cases error with
    | some cause => cases hfinish
    | none =>
      cases frames with
      | cons frame outer => cases hfinish
      | nil =>
        cases tagPending with
        | true => cases hfinish
        | false => exact ⟨rfl, rfl, rfl⟩
  obtain ⟨rfl, rfl, rfl⟩ := hcomplete
  cases output with
  | sizeOnly count => cases hfinish
  | fixed written beyond => cases hsound.capacity?_eq
  | growable written beyond =>
    obtain rfl : beyond = [] := hsound.isFlush rfl fun _ hmem ↦ by cases hmem
    obtain rfl : written.toList ++ [] = content := Except.ok.inj hfinish
    simp [live]

theorem Reaches.applyAll {start : Encoder} (hreached : Reaches start encoder)
    (steps : List Step) : Reaches start (Step.applyAll encoder steps) := by
  induction steps generalizing encoder with
  | nil => exact hreached
  | cons step rest ih => exact ih (hreached.step step)

end Encoder

end Cbor

namespace Call

open Encoder

/-- Whether calls do to every session with given rules what certain steps do. -/
def Follow (rules : Rules) (calls : List Call) (steps : List Step) : Prop :=
  ∀ encoder : Encoder, encoder.rules = rules →
    (runAll encoder calls).2 = Step.applyAll encoder steps

/-- Calls that run no programs of their user follow their script. -/
theorem follow_scriptAll (rules : Rules) {calls : List Call}
    (hwriters : ∀ call ∈ calls, call.writers = []) :
    Follow rules calls (scriptAll rules calls) := by
  rintro encoder rfl
  exact snd_runAll hwriters encoder

/-- What is wrapped, and finished in a session of its own, becomes a byte string. -/
theorem closeWrap_runAll {encoder : Encoder} {written : Array UInt8} {beyond content : Bytes}
    (houtput : encoder.output = .growable written beyond) (hdepth : encoder.depth < maxNesting)
    (hlive : (encoder.appendBytes content).error = none) {calls : List Call} {steps : List Step}
    (hfollow : Follow encoder.rules calls steps)
    (hfinish : (runAll (growable encoder.rules) calls).2.finish = .ok content)
    (htrail : ∀ reached ∈ steps.scanl Step.apply (growable encoder.rules),
      reached.depth + encoder.depth < maxNesting ∧
        encoder.length + reached.extent ≤ maxEncodedLength)
    (hitems : Step.topCounts (growable encoder.rules) steps < 2 ^ 64) (includeHead : Bool) :
    ∃ span, (runAll encoder.openWrap calls).2.closeWrap includeHead =
        (some span, encoder.appendBytes content) ∧
      (encoder.appendBytes content).view? span.start span.stop =
        some (if includeHead then byteString content else content) := by
  obtain ⟨_, _, hfits, happended⟩ := appendBytes_of_live houtput hlive
  let place : Place := ⟨written, counted encoder.frames⟩
  have hopened : encoder.openWrap = (growable encoder.rules).inside place 0 := by
    have hinside := live_inside encoder.rules [] place 0
    rw [List.append_nil] at hinside
    exact (openNest_bytes (.inl rfl) houtput hdepth hlive).trans hinside.symm
  have hreached : Reaches (growable encoder.rules)
      (Step.applyAll (growable encoder.rules) steps) := Reaches.applyAll .refl steps
  rw [hfollow (growable encoder.rules) rfl] at hfinish
  have halone := (hreached.sound (.growable _)).eq_live_of_finish hfinish
  rw [Step.rules_applyAll] at halone
  have hholds : ∀ reached ∈ steps.scanl Step.apply (growable encoder.rules),
      place.Holds reached := by
    intro reached hmem
    obtain ⟨hnested, hlong⟩ := htrail reached hmem
    refine ⟨?_, ?_⟩
    · rwa [length, houtput] at hlong
    · rwa [show place.outer.length = encoder.depth from length_counted _]
  have hwrapped : (runAll encoder.openWrap calls).2 =
      (live encoder.rules content [] false).inside place
        (Step.topCounts (growable encoder.rules) steps) := by
    have hlast : (Step.applyAll (growable encoder.rules) steps).error = none := by
      rw [halone]
      rfl
    rw [hopened, hfollow ((growable encoder.rules).inside place 0) rfl,
      Step.applyAll_inside hlast hholds (by omega), halone, Nat.zero_add]
    rfl
  rw [hwrapped, live_inside, happended]
  exact closeWrap_live hfits _ _ _ includeHead

/-- Three ways to write a byte string leave a growing session the same, wherever one more item may
be opened and the byte string can be appended. It can be appended as a whole. It can be written
into a region that is large enough. And it can be wrapped by calls that lead to it in a session of
their own, without going too deep or too far there for the place where they stand, and without too
many items; then the span that is told is that of the content, or of the head and the content.

Calls that run no programs of their user follow a script, to which the conditions refer. -/
theorem byteStrings_agree {encoder : Encoder} {written : Array UInt8} {beyond content : Bytes}
    (houtput : encoder.output = .growable written beyond) (hdepth : encoder.depth < maxNesting)
    (hlive : (encoder.appendBytes content).error = none) :
    (∀ capacity, content.length ≤ capacity → encoder.length + capacity ≤ maxEncodedLength →
      (encoder.openRegion capacity content).2.closeRegion content.length =
        encoder.appendBytes content) ∧
    (∀ calls : List Call, (∀ call ∈ calls, call.writers = []) →
      Follow encoder.rules calls (scriptAll encoder.rules calls)) ∧
    ∀ calls steps, Follow encoder.rules calls steps →
      (runAll (growable encoder.rules) calls).2.finish = .ok content →
      (∀ reached ∈ steps.scanl Step.apply (growable encoder.rules),
        reached.depth + encoder.depth < maxNesting ∧
          encoder.length + reached.extent ≤ maxEncodedLength) →
      Step.topCounts (growable encoder.rules) steps < 2 ^ 64 →
      ∀ includeHead, ∃ span, (runAll encoder.openWrap calls).2.closeWrap includeHead =
          (some span, encoder.appendBytes content) ∧
        (encoder.appendBytes content).view? span.start span.stop =
          some (if includeHead then byteString content else content) :=
  ⟨fun _ hcontent hcapacity ↦ closeRegion_openRegion houtput hdepth hlive hcontent hcapacity,
    fun _ hwriters ↦ follow_scriptAll encoder.rules hwriters,
    fun _ _ hfollow hfinish htrail hitems includeHead ↦
      closeWrap_runAll houtput hdepth hlive hfollow hfinish htrail hitems includeHead⟩

/-- The first member of an array is a byte string of three bytes: appended, written into a region
of five, and wrapped around an array that holds a byte string written as a region. -/
theorem byteStrings_agree_array :
    let encoder := (growable .preferred).openArray
    let content : Bytes := [0x81, 0x41, 0x07]
    let calls : List Call :=
      [.operation (.opening .array), .openRegion 4 [7], .closeRegion 1,
        .operation (.closing .array)]
    (encoder.openRegion 5 content).2.closeRegion 3 = encoder.appendBytes content ∧
      ∃ span, (runAll encoder.openWrap calls).2.closeWrap true =
          (some span, encoder.appendBytes content) ∧
        (encoder.appendBytes content).view? span.start span.stop =
          some [0x43, 0x81, 0x41, 0x07] := by
  intro encoder content calls
  have hwriters : ∀ call ∈ calls, call.writers = [] := by simp [calls, writers]
  obtain ⟨hregion, hfollow, hwrap⟩ := @byteStrings_agree encoder #[] [] content rfl
    (by decide +kernel) (by decide +kernel)
  refine ⟨hregion 5 (by decide) (by decide +kernel), ?_⟩
  exact hwrap calls (scriptAll .preferred calls) (hfollow calls hwriters) (by decide +kernel)
    (by decide +kernel) (by decide +kernel) true

/-! ### Limits of wrapping -/

/-- Items without bytes leave an empty session as it is when no item is open. -/
theorem applyAll_empty (rules : Rules) (count : Nat) :
    Step.applyAll (growable rules) (List.replicate count (.encoded [])) = growable rules ∧
      ∀ reached ∈ (List.replicate count (Step.encoded [])).scanl Step.apply (growable rules),
        reached = growable rules := by
  induction count with
  | zero => exact ⟨rfl, by simp⟩
  | succ count ih =>
    obtain ⟨hlast, hpassed⟩ := ih
    rw [List.replicate_succ, List.scanl_cons]
    exact ⟨hlast, List.forall_mem_cons.2 ⟨rfl, hpassed⟩⟩

/-- A byte string that is open takes no more items than it can count. -/
theorem le_of_applyAll_empty {rules : Rules} {outer : List Frame} {items count : Nat}
    (hitems : items ≤ 2 ^ 64 - 1)
    (hlive : (Step.applyAll (live rules [] (⟨.wrap, 0, items⟩ :: outer) false)
      (List.replicate count (.encoded []))).error = none) : items + count ≤ 2 ^ 64 - 1 := by
  induction count generalizing items with
  | zero => exact hitems
  | succ count ih =>
    rw [List.replicate_succ] at hlive
    have hfirst : ((live rules [] (⟨.wrap, 0, items⟩ :: outer) false).appendEncoded []).error =
        none := by
      refine not_not.1 fun hfailed ↦ hfailed ?_
      rwa [← Step.applyAll_of_failed hfailed (List.replicate count (.encoded []))]
    have hroom : HasRoom (⟨.wrap, 0, items⟩ :: outer) :=
      (beginItem_of_live (write_of_live hfirst).1).2
    have hcount : items < 2 ^ 64 - 1 := by
      obtain ⟨limit, hlimit, hcount⟩ := hroom _ rfl
      rwa [← Option.some.inj hlimit] at hcount
    have happended : (live rules [] (⟨.wrap, 0, items⟩ :: outer) false).appendEncoded [] =
        live rules [] (⟨.wrap, 0, items + 1⟩ :: outer) false := by
      rw [appendEncoded, beginItem_live hroom]
      exact write_live (Nat.zero_le _)
    have hnext : (Step.applyAll (live rules [] (⟨.wrap, 0, items + 1⟩ :: outer) false)
        (List.replicate count (.encoded []))).error = none := by
      rw [← happended]
      exact hlive
    have hle := ih hcount hnext
    omega

/-- Calls that fail leave nothing to be wrapped. -/
theorem closeWrap_ne_of_failed {encoder after : Encoder} (hfailed : encoder.Failed)
    (hlive : after.error = none) (includeHead : Bool) :
    (encoder.closeWrap includeHead).2 ≠ after := by
  rw [closeWrap_of_failed hfailed]
  rintro rfl
  exact hfailed hlive

/-- A session of its own has room that a byte string inside another session has not: for a region as
large as an encoding may be, behind one byte, and for as many items as a byte string cannot count.
Either is finished without being deeper than one item. -/
theorem closeWrap_refused :
    let large : List Call := [.openRegion maxEncodedLength [], .closeRegion 0]
    let many : List Call := List.replicate (2 ^ 64) (.encoded [])
    let alone := growable .preferred
    let behind := alone.appendNull
    ((runAll alone large).2.finish = .ok [0x40] ∧ (behind.appendBytes [0x40]).error = none ∧
        (∀ reached ∈ (scriptAll .preferred large).scanl Step.apply alone, reached.depth ≤ 1) ∧
        ((runAll behind.openWrap large).2.closeWrap false).2 ≠ behind.appendBytes [0x40]) ∧
      (runAll alone many).2.finish = .ok [] ∧ (alone.appendBytes []).error = none ∧
        (∀ reached ∈ (scriptAll .preferred many).scanl Step.apply alone, reached.depth ≤ 1) ∧
        ((runAll alone.openWrap many).2.closeWrap false).2 ≠ alone.appendBytes [] := by
  intro large many alone behind
  have hlarge (encoder : Encoder) : (runAll encoder large).2 =
      (encoder.openRegion maxEncodedLength []).2.closeRegion 0 := rfl
  have hclosed : (alone.openRegion maxEncodedLength []).2.closeRegion 0 = alone.appendBytes [] :=
    @closeRegion_openRegion alone #[] [] [] rfl (by decide +kernel) (by decide +kernel) _
      (Nat.zero_le _) (by decide +kernel)
  have hopened : (alone.openRegion maxEncodedLength []).2.depth = 1 := by
    rw [openRegion_of_fits (by decide +kernel) (by decide +kernel)]
    decide +kernel
  have hrefused : ((behind.openWrap.openRegion maxEncodedLength []).2.closeRegion 0).Failed := by
    have hfailed : (behind.openWrap.openRegion maxEncodedLength []).2.Failed := by
      intro hlive
      have hroom := (openRegion_of_live hlive).2
      exact absurd hroom (by decide +kernel)
    rwa [closeRegion_of_failed hfailed]
  have hscript (rules : Rules) (count : Nat) :
      scriptAll rules (List.replicate count (.encoded [])) =
        List.replicate count (.encoded []) := by
    simp [scriptAll, script, List.flatMap_replicate]
  have hmany (encoder : Encoder) : (runAll encoder many).2 =
      Step.applyAll encoder (List.replicate (2 ^ 64) (.encoded [])) := by
    rw [snd_runAll (fun call hmem ↦ by rw [List.eq_of_mem_replicate hmem]; rfl), hscript]
  refine ⟨⟨?_, by decide +kernel, ?_, ?_⟩, ?_, by decide +kernel, ?_, ?_⟩
  · rw [hlarge, hclosed]
    decide +kernel
  · have hsteps : scriptAll .preferred large =
        [.openRegion maxEncodedLength [], .closeRegion 0] := rfl
    rw [hsteps, List.scanl_cons, List.scanl_cons, List.scanl_nil]
    simp only [Step.apply, hclosed, List.forall_mem_cons, hopened]
    refine ⟨by decide +kernel, ?_, by decide +kernel, fun _ hmem ↦ by cases hmem⟩
    exact Nat.le_refl _
  · rw [hlarge]
    exact closeWrap_ne_of_failed hrefused (by decide +kernel) false
  · rw [hmany, (applyAll_empty _ _).1]
    rfl
  · rw [hscript]
    intro reached hmem
    rw [(applyAll_empty _ _).2 reached hmem]
    exact Nat.zero_le _
  · refine closeWrap_ne_of_failed (fun hlive ↦ ?_) (by decide +kernel) false
    rw [hmany] at hlive
    have hle := le_of_applyAll_empty (Nat.zero_le _) hlive
    omega

end Call

end Cose
