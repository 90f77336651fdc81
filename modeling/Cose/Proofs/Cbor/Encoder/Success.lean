import Mathlib.Tactic.Common
import Cose.Proofs.Cbor.Encoder.Soundness

/-!
# Operations that succeed

What an operation does where it does not fail, over any output: an equation for the session after
it, and what must have held before. Where that holds in another session, the same equation holds
there.
-/

set_option autoImplicit false
set_option relaxedAutoImplicit false

namespace Cose.Cbor.Encoder

variable {encoder : Encoder}

theorem proceed_of_live (hlive : encoder.error = none) (change : Encoder → Encoder) :
    encoder.proceed change = change encoder := by
  simp only [proceed, hlive]

theorem error_of_proceed {change : Encoder → Encoder}
    (hlive : (encoder.proceed change).error = none) : encoder.error = none := by
  by_contra hfailed
  rw [proceed_of_failed hfailed] at hlive
  exact hfailed hlive

theorem fail_error_ne_none (encoder : Encoder) (cause : EncodeError) :
    (encoder.fail cause).error ≠ none := failed_fail encoder cause

/-- What advanced to a session that has not failed has not failed. -/
theorem Advances.live {first second : Encoder} (hadvances : first.Advances second)
    (hlive : second.error = none) : first.error = none := by
  rw [Option.eq_none_iff_forall_ne_some]
  intro cause hcause
  rw [hadvances.error_eq hcause] at hlive
  cases hlive

theorem advances_foldl_write (parts : List Bytes) (encoder : Encoder) :
    encoder.Advances (parts.foldl write encoder) := by
  induction parts generalizing encoder with
  | nil => exact .refl encoder
  | cons data rest ih => exact (encoder.advances_write data).trans (ih _)

/-! ### Bytes -/

section Bytes

variable {count position : Nat} {change : Output → Output} {data : Bytes}

theorem grow_of_fits (hlive : encoder.error = none) (hfits : encoder.output.refusal? count = none) :
    encoder.grow count change = { encoder with output := change encoder.output } := by
  rw [grow, proceed_of_live hlive]
  simp only [hfits]

theorem grow_of_live (hlive : (encoder.grow count change).error = none) :
    encoder.error = none ∧ encoder.output.refusal? count = none := by
  have hbefore := error_of_proceed hlive
  refine ⟨hbefore, ?_⟩
  rw [grow, proceed_of_live hbefore] at hlive
  cases hrefusal : encoder.output.refusal? count with
  | none => rfl
  | some cause =>
    simp only [hrefusal] at hlive
    exact absurd hlive (fail_error_ne_none _ _)

theorem write_of_fits (hlive : encoder.error = none)
    (hfits : encoder.output.refusal? data.length = none) :
    encoder.write data = { encoder with output := encoder.output.push data } := by
  rw [write_eq_grow, grow_of_fits hlive hfits]

theorem write_of_live (hlive : (encoder.write data).error = none) :
    encoder.error = none ∧ encoder.output.refusal? data.length = none := by
  rw [write_eq_grow] at hlive
  exact grow_of_live hlive

theorem insert_of_fits (hlive : encoder.error = none)
    (hfits : encoder.output.refusal? data.length = none) :
    encoder.insert position data =
      { encoder with output := encoder.output.insert position data } := by
  rw [insert_eq_grow, grow_of_fits hlive hfits]

theorem insert_of_live (hlive : (encoder.insert position data).error = none) :
    encoder.error = none ∧ encoder.output.refusal? data.length = none := by
  rw [insert_eq_grow] at hlive
  exact grow_of_live hlive

end Bytes

/-! ### Items -/

theorem beginItem_of_hasRoom (hlive : encoder.error = none) (hroom : HasRoom encoder.frames) :
    encoder.beginItem =
      { encoder with frames := counted encoder.frames, tagPending := false } := by
  rw [beginItem, proceed_of_live hlive]
  cases hframes : encoder.frames with
  | nil => simp [counted]
  | cons frame outer =>
    rw [hframes] at hroom
    obtain ⟨limit, hlimit, hcount⟩ := hroom frame rfl
    simp [hlimit, Nat.not_le.2 hcount, counted]

theorem beginItem_of_live (hlive : encoder.beginItem.error = none) :
    encoder.error = none ∧ HasRoom encoder.frames := by
  have hbefore := error_of_proceed hlive
  refine ⟨hbefore, ?_⟩
  rw [beginItem, proceed_of_live hbefore] at hlive
  cases hframes : encoder.frames with
  | nil => exact fun _ hmem ↦ by cases hmem
  | cons frame outer =>
    simp only [hframes] at hlive
    cases hlimit : frame.kind.limit? with
    | none =>
      simp only [hlimit] at hlive
      exact absurd hlive (fail_error_ne_none _ _)
    | some limit =>
      by_cases hfull : frame.count ≥ limit
      · simp only [hlimit, if_pos hfull] at hlive
        exact absurd hlive (fail_error_ne_none _ _)
      · rintro _ ⟨⟩
        exact ⟨limit, hlimit, Nat.lt_of_not_ge hfull⟩

/-! ### Opening and closing -/

/-- What must hold for an item to be opened once it is counted, apart from room for its bytes. -/
structure CanOpen (encoder : Encoder) (kind : Nest) : Prop where
  depth_lt : encoder.depth < maxNesting
  permitted : isIndefinite kind = true → encoder.rules.allowIndefinite = true

theorem openNest_of_canOpen {kind : Nest} (hlive : encoder.beginItem.error = none)
    (hopens : encoder.beginItem.CanOpen kind) :
    encoder.openNest kind = { encoder.beginItem.write (openingBytes kind) with
      frames := ⟨kind, (encoder.beginItem.write (openingBytes kind)).length, 0⟩ ::
        encoder.beginItem.frames } := by
  have hpermitted : ¬(isIndefinite kind = true ∧ encoder.beginItem.rules.allowIndefinite = false) :=
    fun hboth ↦ Bool.false_ne_true (hboth.2.symm.trans (hopens.permitted hboth.1))
  rw [openNest, proceed_of_live hlive, if_neg (Nat.not_le.2 hopens.depth_lt), if_neg hpermitted]
  dsimp only
  rw [frames_write]

theorem openNest_of_live {kind : Nest} (hlive : (encoder.openNest kind).error = none) :
    (encoder.beginItem.write (openingBytes kind)).error = none ∧
      encoder.beginItem.CanOpen kind := by
  have hbefore := error_of_proceed hlive
  rw [openNest, proceed_of_live hbefore] at hlive
  split at hlive
  · exact absurd hlive (fail_error_ne_none _ _)
  next hdepth =>
    split at hlive
    · exact absurd hlive (fail_error_ne_none _ _)
    next hpermitted =>
      refine ⟨hlive, Nat.lt_of_not_ge hdepth, fun hindefinite ↦ ?_⟩
      exact Bool.eq_true_of_not_eq_false fun hforbidden ↦ hpermitted ⟨hindefinite, hforbidden⟩

theorem closeBy_of_frames {kind : Nest} {complete : Encoder → Frame → Encoder} {frame : Frame}
    {outer : List Frame} (hlive : encoder.error = none) (htag : encoder.tagPending = false)
    (hframes : encoder.frames = frame :: outer) (hkind : frame.kind = kind) :
    encoder.closeBy kind complete = complete { encoder with frames := outer } frame := by
  simp [closeBy, pop, hlive, htag, hframes, hkind]

/-- What is closed is the innermost open item, of the right kind, and no tag is pending. -/
theorem closeBy_of_live {kind : Nest} {complete : Encoder → Frame → Encoder}
    (hlive : (encoder.closeBy kind complete).error = none) :
    encoder.error = none ∧ encoder.tagPending = false ∧
      ∃ frame outer, encoder.frames = frame :: outer ∧ frame.kind = kind := by
  unfold closeBy at hlive
  rcases hpop : encoder.pop kind with ⟨_ | frame, popped⟩
  · rw [hpop] at hlive
    rcases encoder.pop_cases kind with ⟨_, _, _, _, hclosed⟩ | ⟨cause, hrefused⟩
    · rw [hclosed] at hpop
      cases hpop
    · rw [hrefused] at hpop
      cases hpop
      exact absurd hlive (fail_error_ne_none _ _)
  · unfold pop at hpop
    split at hpop
    · cases hpop
    next hbefore =>
      split at hpop
      · cases hpop
      next htag =>
        split at hpop
        · cases hpop
        next first outer hframes =>
          split at hpop <;> cases hpop
          next hkind => exact ⟨hbefore, by simpa using htag, _, _, hframes, hkind⟩

/-! ### Tags -/

theorem addTag_of_takesTags (hlive : encoder.error = none) (htakes : TakesTags encoder.frames)
    (tag : UInt64) :
    encoder.addTag tag =
      { encoder.write (encodeHead .tag tag 0) with tagPending := true } := by
  rw [addTag, proceed_of_live hlive]
  split
  next hregion => exact absurd rfl (htakes _ hregion)
  · rfl

theorem addTag_of_live {tag : UInt64} (hlive : (encoder.addTag tag).error = none) :
    (encoder.write (encodeHead .tag tag 0)).error = none ∧ TakesTags encoder.frames := by
  have hbefore := error_of_proceed hlive
  rw [addTag, proceed_of_live hbefore] at hlive
  split at hlive
  · exact absurd hlive (fail_error_ne_none _ _)
  next hkind =>
    refine ⟨hlive, fun frame hmem hregion ↦ ?_⟩
    obtain ⟨kind, start, count⟩ := frame
    obtain rfl : kind = .region := hregion
    exact hkind start count hmem

end Cose.Cbor.Encoder
