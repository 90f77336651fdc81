import Mathlib.Tactic.Common
import Cose.Proofs.Cbor.Encoder.Session

/-!
# Operations on any output

The operations of a session come down to a few changes, whatever the output is: the output grows
if more bytes fit (`Encoder.grow`), an item is counted, an open item is closed and completed
(`Encoder.closeBy`). A session advances by them (`Encoder.Advances`): it keeps its failure, and the
bytes written never become fewer (`Encoder.advances_apply`).
-/

set_option autoImplicit false
set_option relaxedAutoImplicit false

namespace Cose.Cbor

namespace Encoder

/-! ### Operations in parts -/

/-- Let the output grow by a number of bytes if they fit. -/
def grow (encoder : Encoder) (count : Nat) (change : Output → Output) : Encoder :=
  encoder.proceed fun encoder ↦
    match encoder.output.refusal? count with
    | some cause => encoder.fail cause
    | none => { encoder with output := change encoder.output }

theorem write_eq_grow (encoder : Encoder) (data : Bytes) :
    encoder.write data = encoder.grow data.length (·.push data) := rfl

theorem insert_eq_grow (encoder : Encoder) (position : Nat) (data : Bytes) :
    encoder.insert position data = encoder.grow data.length (·.insert position data) := rfl

/-- Close the innermost open item, of a given kind, and complete it. -/
def closeBy (encoder : Encoder) (kind : Nest) (complete : Encoder → Frame → Encoder) : Encoder :=
  match encoder.pop kind with
  | (none, popped) => popped
  | (some frame, popped) => complete popped frame

/-- Complete an array by its head. -/
def completeArray (encoder : Encoder) (frame : Frame) : Encoder :=
  encoder.insert frame.start (encodeHead .array (UInt64.ofNat frame.count) 0)

/-- Put the entries of a map in order if the rules of the session ask for it. -/
def arrangeMap (encoder : Encoder) (start : Nat) : Encoder :=
  if encoder.rules.sortMaps then encoder.sortMap start else encoder

/-- Complete a map by its head. -/
def completeMap (encoder : Encoder) (frame : Frame) : Encoder :=
  if frame.count % 2 = 0 then
    (encoder.arrangeMap frame.start).insert frame.start
      (encodeHead .map (UInt64.ofNat (frame.count / 2)) 0)
  else encoder.fail .incompleteMapPair

/-- Complete an array of indefinite length. -/
def completeIndefiniteArray (encoder : Encoder) (_ : Frame) : Encoder := encoder.write [breakByte]

/-- Complete a map of indefinite length. -/
def completeIndefiniteMap (encoder : Encoder) (frame : Frame) : Encoder :=
  if frame.count % 2 = 0 then encoder.write [breakByte] else encoder.fail .incompleteMapPair

/-- Complete a byte string by its head. -/
def completeWrap (encoder : Encoder) (frame : Frame) : Encoder :=
  encoder.insert frame.start (encodeHead .bytes (UInt64.ofNat (encoder.length - frame.start)) 0)

/-- Complete a region by its head, the bytes used of it being known. -/
def completeRegion (used : Nat) (encoder : Encoder) (frame : Frame) : Encoder :=
  if used > frame.count then encoder.fail .bufferTooSmall
  else
    ({ encoder with output := encoder.output.endAt (frame.start + used) } : Encoder).insert
      frame.start (encodeHead .bytes (UInt64.ofNat used) 0)

theorem closeArray_eq (encoder : Encoder) :
    encoder.closeArray = encoder.closeBy .array completeArray := rfl

theorem closeMap_eq (encoder : Encoder) :
    encoder.closeMap = encoder.closeBy .map completeMap := rfl

theorem closeArrayIndefinite_eq (encoder : Encoder) :
    encoder.closeArrayIndefinite = encoder.closeBy .indefiniteArray completeIndefiniteArray := rfl

theorem closeMapIndefinite_eq (encoder : Encoder) :
    encoder.closeMapIndefinite = encoder.closeBy .indefiniteMap completeIndefiniteMap := rfl

theorem closeRegion_eq (encoder : Encoder) (used : Nat) :
    encoder.closeRegion used = encoder.closeBy .region (completeRegion used) := rfl

/-- Where the bytes of a byte string stand that was completed, if that did not fail. -/
def wrappedSpan? (completed : Encoder) (start : Nat) : Option Span :=
  match completed.error with
  | some _ => none
  | none => some ⟨start, completed.length⟩

theorem closeWrap_of_pop {encoder popped : Encoder} {frame : Frame}
    (hpop : encoder.pop .wrap = (some frame, popped)) (includeHead : Bool) :
    encoder.closeWrap includeHead =
      ((popped.completeWrap frame).wrappedSpan? (if includeHead then frame.start
        else frame.start +
          (encodeHead .bytes (UInt64.ofNat (popped.length - frame.start)) 0).length),
        popped.completeWrap frame) := by
  simp only [closeWrap, hpop, wrappedSpan?, completeWrap]
  generalize popped.insert frame.start _ = completed
  cases completed.error <;> rfl

/-- Where the wrapped bytes are told to stand does not matter to the session. -/
theorem snd_closeWrap (encoder : Encoder) (includeHead : Bool) :
    (encoder.closeWrap includeHead).2 = encoder.closeBy .wrap completeWrap := by
  unfold closeBy
  cases hpop : encoder.pop .wrap with
  | mk frame? popped =>
    cases frame? with
    | none => rw [closeWrap, hpop]
    | some frame => rw [closeWrap_of_pop hpop]

/-! ### Advancing -/

/-- Whether two sessions have the same output and the same rules. -/
structure SameOutput (before after : Encoder) : Prop where
  output_eq : after.output = before.output
  rules_eq : after.rules = before.rules

theorem sameOutput_fail (encoder : Encoder) (cause : EncodeError) :
    encoder.SameOutput (encoder.fail cause) := by
  unfold fail
  split <;> exact ⟨rfl, rfl⟩

theorem sameOutput_beginItem (encoder : Encoder) : encoder.SameOutput encoder.beginItem := by
  obtain ⟨output, frames, error, rules, tagPending⟩ := encoder
  cases error with
  | some cause => exact ⟨rfl, rfl⟩
  | none =>
    cases frames with
    | nil => exact ⟨rfl, rfl⟩
    | cons frame outer =>
      simp only [beginItem, proceed]
      split
      · exact ⟨rfl, rfl⟩
      · split <;> exact ⟨rfl, rfl⟩

/-- What is popped is the innermost open item of a session that has not failed. Otherwise the
session fails. -/
theorem pop_cases (encoder : Encoder) (kind : Nest) :
    encoder.error = none ∧ (∃ frame outer, encoder.frames = frame :: outer ∧
        encoder.pop kind = (some frame, { encoder with frames := outer })) ∨
      ∃ cause, encoder.pop kind = (none, encoder.fail cause) := by
  unfold pop
  split
  next cause hfailed => exact .inr ⟨cause, by simp only [fail, hfailed]⟩
  next hlive =>
    split
    · exact .inr ⟨_, rfl⟩
    · split
      next => exact .inr ⟨_, rfl⟩
      next frame outer hframes =>
        split
        · exact .inl ⟨hlive, frame, outer, hframes, rfl⟩
        · exact .inr ⟨_, rfl⟩

theorem sameOutput_pop (encoder : Encoder) (kind : Nest) :
    encoder.SameOutput (encoder.pop kind).2 := by
  rcases encoder.pop_cases kind with ⟨_, _, _, _, hpop⟩ | ⟨cause, hpop⟩
  · rw [hpop]
    exact ⟨rfl, rfl⟩
  · rw [hpop]
    exact encoder.sameOutput_fail cause

/-- An item is closed only in a session that has not failed. -/
theorem error_of_pop {encoder popped : Encoder} {kind : Nest} {frame : Frame}
    (hpop : encoder.pop kind = (some frame, popped)) : popped.error = none := by
  rcases encoder.pop_cases kind with ⟨hlive, _, _, _, hclosed⟩ | ⟨cause, hrefused⟩
  · rw [hclosed] at hpop
    cases hpop
    exact hlive
  · rw [hrefused] at hpop
    cases hpop

/-- Whether a session has come to another without losing anything: its rules and its failure are
kept, and no fewer bytes are written. -/
structure Advances (before after : Encoder) : Prop where
  length_le : before.length ≤ after.length
  error_eq : ∀ {cause}, before.error = some cause → after.error = some cause
  rules_eq : after.rules = before.rules

namespace Advances

variable {first second third : Encoder}

theorem refl (encoder : Encoder) : encoder.Advances encoder := ⟨Nat.le_refl _, id, rfl⟩

theorem trans (hfirst : first.Advances second) (hsecond : second.Advances third) :
    first.Advances third :=
  ⟨Nat.le_trans hfirst.length_le hsecond.length_le, hsecond.error_eq ∘ hfirst.error_eq,
    hsecond.rules_eq.trans hfirst.rules_eq⟩

theorem of_sameOutput (hsame : first.SameOutput second)
    (hfailed : first.Failed → second = first) : first.Advances second where
  length_le := (congrArg Output.length hsame.output_eq).ge
  error_eq hcause := by
    have hfirst : first.Failed := by
      rw [Failed, hcause]
      exact Option.some_ne_none _
    rw [hfailed hfirst, hcause]
  rules_eq := hsame.rules_eq

end Advances

section Advances

variable (encoder : Encoder)

theorem advances_fail (cause : EncodeError) : encoder.Advances (encoder.fail cause) :=
  .of_sameOutput (encoder.sameOutput_fail cause) fun hfailed ↦ fail_of_failed hfailed cause

theorem advances_beginItem : encoder.Advances encoder.beginItem :=
  .of_sameOutput encoder.sameOutput_beginItem beginItem_of_failed

theorem advances_pop (kind : Nest) : encoder.Advances (encoder.pop kind).2 := by
  refine .of_sameOutput (encoder.sameOutput_pop kind) fun hfailed ↦ ?_
  rw [pop_of_failed hfailed]

/-- What is done only to sessions that have not failed loses no failure. -/
theorem advances_proceed {change : Encoder → Encoder}
    (hchange : encoder.Advances (change encoder)) : encoder.Advances (encoder.proceed change) := by
  unfold proceed
  split
  · exact .refl encoder
  · exact hchange

theorem advances_grow (count : Nat) {change : Output → Output}
    (hlength : ∀ output, output.length ≤ (change output).length) :
    encoder.Advances (encoder.grow count change) := by
  refine encoder.advances_proceed ?_
  split
  · exact encoder.advances_fail _
  · exact ⟨hlength encoder.output, id, rfl⟩

theorem advances_write (data : Bytes) : encoder.Advances (encoder.write data) := by
  rw [write_eq_grow]
  exact encoder.advances_grow data.length fun output ↦ by simp

theorem advances_insert (position : Nat) (data : Bytes) :
    encoder.Advances (encoder.insert position data) := by
  rw [insert_eq_grow]
  exact encoder.advances_grow data.length fun output ↦ by simp

theorem advances_appendEncoded (item : Bytes) : encoder.Advances (encoder.appendEncoded item) :=
  encoder.advances_beginItem.trans (advances_write _ item)

theorem advances_append (value : Scalar) : encoder.Advances (value.append encoder) := by
  by_cases hallowed : value.Allowed encoder.rules
  · obtain hwrite | ⟨head, content, _, hwrite⟩ := append_eq_write hallowed
    · rw [hwrite encoder rfl]
      exact encoder.advances_appendEncoded _
    · rw [hwrite encoder rfl]
      exact (encoder.advances_appendEncoded head).trans (advances_write _ content)
  · obtain ⟨cause, hfail⟩ := exists_append_eq_fail hallowed
    rw [hfail encoder rfl]
    exact encoder.advances_fail cause

theorem advances_addTag (tag : UInt64) : encoder.Advances (encoder.addTag tag) := by
  refine encoder.advances_proceed ?_
  split
  · exact encoder.advances_fail _
  · have hwrite := encoder.advances_write (encodeHead .tag tag 0)
    exact ⟨hwrite.length_le, hwrite.error_eq, hwrite.rules_eq⟩

theorem advances_openNest (kind : Nest) : encoder.Advances (encoder.openNest kind) := by
  refine encoder.advances_beginItem.trans (advances_proceed _ ?_)
  dsimp only
  split
  · exact advances_fail _ _
  · split
    · exact advances_fail _ _
    · have hwrite := advances_write encoder.beginItem (openingBytes kind)
      exact ⟨hwrite.length_le, hwrite.error_eq, hwrite.rules_eq⟩

/-- A session that closes an item advances if it does when the item is completed. -/
theorem advances_closeBy (kind : Nest) {complete : Encoder → Frame → Encoder}
    (hcomplete : ∀ (popped : Encoder) frame, popped.Advances (complete popped frame)) :
    encoder.Advances (encoder.closeBy kind complete) := by
  have hpop := encoder.advances_pop kind
  unfold closeBy
  cases hpopped : encoder.pop kind with
  | mk frame? popped =>
    rw [hpopped] at hpop
    cases frame? with
    | none => exact hpop
    | some frame => exact hpop.trans (hcomplete popped frame)

theorem rules_closeBy (kind : Nest) {complete : Encoder → Frame → Encoder}
    (hcomplete : ∀ popped frame, (complete popped frame).rules = popped.rules) :
    (encoder.closeBy kind complete).rules = encoder.rules := by
  have hpop := (encoder.sameOutput_pop kind).rules_eq
  unfold closeBy
  cases hpopped : encoder.pop kind with
  | mk frame? popped =>
    rw [hpopped] at hpop
    cases frame? with
    | none => exact hpop
    | some frame => exact (hcomplete popped frame).trans hpop

/-- Where only their number is kept, there are no bytes to put in order. -/
theorem sortMap_of_isSizeOnly {encoder : Encoder} {start : Nat}
    (hsize : encoder.output.isSizeOnly = true) : encoder.sortMap start = encoder := by
  rw [sortMap, if_pos hsize]

/-- Entries are put in order in place, even where that fails. -/
theorem output_sortMap {start : Nat} (hbytes : encoder.output.isSizeOnly = false) :
    (encoder.sortMap start).output = encoder.output.replaceFrom start
      (sortEntries (encoder.output.contentsFrom start)).1 := by
  simp only [sortMap, hbytes, Bool.false_eq_true, if_false]
  split
  · rfl
  · exact (sameOutput_fail _ _).output_eq

/-- Entries that are put in order without a failure replace those of the map. -/
theorem sortMap_of_live {encoder : Encoder} {start : Nat}
    (hbytes : encoder.output.isSizeOnly = false) (hlive : ¬(encoder.sortMap start).Failed) :
    encoder.sortMap start = { encoder with
      output := encoder.output.replaceFrom start
        (sortEntries (encoder.output.contentsFrom start)).1 } := by
  simp only [sortMap, hbytes, Bool.false_eq_true, if_false] at hlive ⊢
  split at hlive
  · rfl
  · exact absurd (failed_fail _ _) hlive

theorem advances_sortMap (start : Nat) : encoder.Advances (encoder.sortMap start) := by
  let sorted := (sortEntries (encoder.output.contentsFrom start)).1
  have hlength : (encoder.output.replaceFrom start sorted).length = encoder.output.length :=
    encoder.output.length_replaceFrom (length_sortEntries _)
  unfold sortMap
  dsimp only
  split
  · exact .refl encoder
  · have hsorted : encoder.Advances
        { encoder with output := encoder.output.replaceFrom start sorted } :=
      ⟨hlength.ge, id, rfl⟩
    split
    · exact hsorted
    · exact hsorted.trans (advances_fail _ _)

theorem advances_completeMap (frame : Frame) : encoder.Advances (encoder.completeMap frame) := by
  unfold completeMap arrangeMap
  split
  · refine Advances.trans ?_ (advances_insert _ _ _)
    split
    · exact encoder.advances_sortMap _
    · exact .refl encoder
  · exact encoder.advances_fail _

theorem advances_completeIndefiniteMap (frame : Frame) :
    encoder.Advances (encoder.completeIndefiniteMap frame) := by
  unfold completeIndefiniteMap
  split
  · exact encoder.advances_write _
  · exact encoder.advances_fail _

/-- Every operation advances a session. -/
theorem advances_apply (operation : Operation) : encoder.Advances (operation.apply encoder) := by
  cases operation with
  | scalar value => exact encoder.advances_append value
  | tag number => exact encoder.advances_addTag number
  | opening kind => cases kind <;> exact encoder.advances_openNest _
  | closing kind =>
    cases kind with
    | array =>
      rw [Operation.apply, closeArray_eq]
      exact encoder.advances_closeBy .array fun popped frame ↦ popped.advances_insert _ _
    | map =>
      rw [Operation.apply, closeMap_eq]
      exact encoder.advances_closeBy .map fun popped frame ↦ popped.advances_completeMap frame
    | indefiniteArray =>
      rw [Operation.apply, closeArrayIndefinite_eq]
      exact encoder.advances_closeBy .indefiniteArray fun popped frame ↦ popped.advances_write _
    | indefiniteMap =>
      rw [Operation.apply, closeMapIndefinite_eq]
      exact encoder.advances_closeBy .indefiniteMap fun popped frame ↦
        popped.advances_completeIndefiniteMap frame
    | wrap =>
      rw [Operation.apply, snd_closeWrap]
      exact encoder.advances_closeBy .wrap fun popped frame ↦ popped.advances_insert _ _

end Advances

end Encoder

end Cose.Cbor
