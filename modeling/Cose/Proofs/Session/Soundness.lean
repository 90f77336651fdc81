import Mathlib.Tactic.Common
import Cose.Proofs.Cbor.Encoder.Soundness
import Cose.Proofs.Session.Steps

/-!
# Sessions are sound at any time

Every step keeps a session sound, those included that open and close regions and shorten or lengthen
the output by it. `Encoder.Reaches` says that a session comes from another in steps. Whatever calls
are made, they lead to a session that is reached so (`Encoder.Reaches.runAll`).
-/

set_option autoImplicit false
set_option relaxedAutoImplicit false

namespace Cose

open Cbor

namespace Cbor

namespace Output

theorem capacity?_reserve {output : Output} {capacity : Nat}
    (hadmits : Admits output.capacity? (output.length + capacity)) (content : Bytes) :
    (output.reserve capacity content).capacity? = output.capacity? := by
  cases output with
  | fixed written beyond =>
    have hfits : written.size + capacity ≤ written.size + beyond.length :=
      hadmits.le_capacity _ rfl
    simp only [reserve, capacity?, List.length_append, List.length_take, List.length_drop,
      Option.some.injEq]
    omega
  | _ => rfl

theorem length_reserve (output : Output) (capacity : Nat) (content : Bytes) :
    (output.reserve capacity content).length = output.length := by
  cases output <;> rfl

/-- The end moves to any length that the output admits. -/
theorem length_endAt {output : Output} {position : Nat}
    (hadmits : Admits output.capacity? position) : (output.endAt position).length = position := by
  cases output with
  | sizeOnly count => rfl
  | fixed written beyond =>
    have hfits : position ≤ written.size + beyond.length := hadmits.le_capacity _ rfl
    simp only [endAt, length, ← Array.length_toList, Array.toList_appendList, List.length_append,
      Array.toList_shrink, List.length_take]
    rw [Array.length_toList]
    omega
  | growable written beyond =>
    simp only [endAt, length, ← Array.length_toList, Array.toList_appendList, List.length_append,
      Array.toList_shrink, List.length_take, List.length_replicate]
    rw [Array.length_toList]
    omega

theorem capacity?_endAt {output : Output} {position : Nat}
    (hadmits : Admits output.capacity? position) :
    (output.endAt position).capacity? = output.capacity? := by
  cases output with
  | fixed written beyond =>
    have hlength := length_endAt hadmits
    have hfits : position ≤ written.size + beyond.length := hadmits.le_capacity _ rfl
    simp only [endAt, length] at hlength
    simp only [endAt, capacity?, hlength, List.length_append, Array.length_toList,
      Array.size_extract, List.length_drop, Option.some.injEq]
    omega
  | _ => rfl

theorem isFlush_endAt (output : Output) (position : Nat) : (output.endAt position).IsFlush := by
  cases output <;> trivial

end Output

namespace Encoder

variable {capacity? : Option Nat} {encoder : Encoder}

/-! ### Regions -/

/-- A region that was opened just now is open at the end of what is written. -/
theorem frames_openNest_region (hlive : (encoder.openNest .region).error = none) :
    ∃ outer, (encoder.openNest .region).frames =
      ⟨.region, (encoder.openNest .region).length, 0⟩ :: outer := by
  rcases encoder.openNest_cases .region with ⟨hopened, hfailed⟩ | ⟨cause, hopened⟩ | ⟨_, _, hopened⟩
  · rw [hopened] at hlive
    exact absurd hlive hfailed
  · rw [hopened] at hlive
    exact absurd hlive (failed_fail _ cause)
  · rw [hopened]
    exact ⟨_, rfl⟩

namespace Sound

variable (hsound : Sound capacity? encoder)
include hsound

/-- A region at the end of what is written takes a capacity if there is room for it. -/
theorem reserve {outer : List Frame} {count : Nat}
    (hframes : encoder.frames = ⟨.region, encoder.length, count⟩ :: outer) (capacity : Nat)
    (content : Bytes) :
    Sound capacity? ((encoder.setCapacity capacity).reserve capacity content) := by
  have hstacked : Stacked (encoder.setCapacity capacity).frames encoder.length := by
    have hbefore := hsound.stacked
    simp only [setCapacity, hframes] at hbefore ⊢
    exact hbefore.withCount fun _ hlimit ↦ by cases hlimit
  unfold Encoder.reserve Encoder.grow proceed
  split
  next cause hfailed =>
    have hsame : (encoder.setCapacity capacity).Failed := by
      rw [Failed, hfailed]
      exact Option.some_ne_none _
    exact .of_failed hsame hsound.capacity?_eq hsound.length_le hstacked
  next hlive =>
    dsimp only
    split
    · refine sound_fail ?_ ?_ hstacked _
      · exact hsound.capacity?_eq
      · exact hsound.length_le
    next hfits =>
      have hadmits := (encoder.output.refusal?_eq_none_iff capacity).1 hfits
      have hlength := encoder.output.length_reserve capacity content
      refine ⟨(Output.capacity?_reserve hadmits content).trans hsound.capacity?_eq,
        hlength.trans_le hsound.length_le, hstacked.mono hlength.ge, ?_, ?_⟩
      · simp only [setCapacity, hframes]
        rintro - _ ⟨⟩ -
        rwa [hsound.capacity?_eq] at hadmits
      · simp only [setCapacity, hframes]
        exact fun _ htakes ↦ absurd rfl (htakes _ rfl)

theorem openRegion (capacity : Nat) (content : Bytes) :
    Sound capacity? (encoder.openRegion capacity content).2 := by
  rw [openRegion_eq]
  have hopened := hsound.openNest .region
  by_cases hfailed : (encoder.openNest .region).Failed
  · dsimp only
    rw [proceed_of_failed hfailed, Encoder.reserve, Encoder.grow, proceed_of_failed hfailed]
    exact hopened
  · have hlive : (encoder.openNest .region).error = none := not_not.1 hfailed
    obtain ⟨outer, hframes⟩ := frames_openNest_region hlive
    have hproceed : (encoder.openNest .region).proceed (·.setCapacity capacity) =
        (encoder.openNest .region).setCapacity capacity := by simp only [proceed, hlive]
    dsimp only
    rw [hproceed]
    exact hopened.reserve hframes capacity content

/-- Once a region is closed and the end moved inside it, the session is sound with the items around
it, and as long as was said. -/
theorem ended {frame : Frame} {outer : List Frame} (hlive : encoder.error = none)
    (hframes : encoder.frames = frame :: outer) (hkind : frame.kind = .region) {used : Nat}
    (hused : used ≤ frame.count) :
    Admits capacity? (frame.start + used) ∧
      (encoder.output.endAt (frame.start + used)).length = frame.start + used ∧
      Sound capacity? { encoder with
        output := encoder.output.endAt (frame.start + used), frames := outer } := by
  have hstacked := hsound.stacked
  have hregion := hsound.admits_region hlive
  rw [hframes] at hstacked hregion
  have hadmits := (hregion frame rfl hkind).mono (Nat.add_le_add_left hused frame.start)
  have hstorage : Admits encoder.output.capacity? (frame.start + used) :=
    hsound.capacity?_eq ▸ hadmits
  have hlength := Output.length_endAt hstorage
  refine ⟨hadmits, hlength, .of_takesTags hstacked.takesTags_of_cons
    ((Output.capacity?_endAt hstorage).trans hsound.capacity?_eq)
    (hlength.trans_le hadmits.le_limit) ?_ (Output.isFlush_endAt _ _)⟩
  exact (hstacked.of_start_le ((Nat.le_add_right _ _).trans_eq hlength.symm)).of_cons

/-- The end moves to inside the region, and the head is inserted before it. -/
theorem closeRegion (used : Nat) : Sound capacity? (encoder.closeRegion used) := by
  rw [closeRegion_eq]
  refine hsound.closeBy .region fun frame outer hlive hframes hkind ↦ ?_
  unfold completeRegion
  split
  · have hstacked := hsound.stacked
    rw [hframes] at hstacked
    refine sound_fail ?_ ?_ hstacked.of_cons _
    · exact hsound.capacity?_eq
    · exact hsound.length_le
  next hused => exact (hsound.ended hlive hframes hkind (Nat.le_of_not_gt hused)).2.2.insert _ _

/-- Every step leaves a sound session sound. -/
theorem step (step : Step) : Sound capacity? (step.apply encoder) := by
  cases step with
  | operation operation => exact hsound.apply operation
  | raw data => exact hsound.write data
  | encoded item => exact hsound.appendEncoded item
  | openRegion capacity content => exact hsound.openRegion capacity content
  | closeRegion used => exact hsound.closeRegion used

end Sound

/-! ### Sessions that are reached -/

/-- Whether a session comes from another in steps. -/
inductive Reaches (start : Encoder) : Encoder → Prop
  | refl : Reaches start start
  | step {encoder : Encoder} (hreached : Reaches start encoder) (step : Step) :
    Reaches start (step.apply encoder)

/-- Whatever calls are made, they lead to a session that is reached in steps. -/
theorem Reaches.runAll {start : Encoder} (hreached : Reaches start encoder) {calls : List Call}
    (hproper : ∀ call ∈ calls, call.Proper) : Reaches start (Call.runAll encoder calls).2 := by
  induction calls generalizing encoder with
  | nil => exact hreached
  | cons call rest ih =>
    obtain ⟨hcall, hrest⟩ := List.forall_mem_cons.1 hproper
    have hkeeps : Outlook.full.Keeps (Reaches start) := fun step _ _ hbefore ↦ hbefore.step step
    exact ih (Call.run_keeps hkeeps hcall.permits_full hreached) hrest

/-- Whether a session starts over an output: one that only counts, one of fixed capacity or a
growing one. -/
inductive Starts : (capacity? : Option Nat) → Encoder → Prop
  | sizeOnly (rules : Rules) : Starts none (sizeOnly rules)
  | fixed (storage : Bytes) (rules : Rules) :
    Starts (some storage.length) (ofOutput (.fixed #[] storage) rules)
  | growable (rules : Rules) : Starts none (growable rules)

theorem Starts.sound {start : Encoder} (hstarts : Starts capacity? start) :
    Sound capacity? start := by
  cases hstarts with
  | sizeOnly rules => exact @sound_ofOutput (.sizeOnly 0) rfl trivial rules
  | fixed storage rules =>
    have hsound := @sound_ofOutput (.fixed #[] storage) rfl trivial rules
    rwa [Output.capacity?, Array.size_empty, Nat.zero_add] at hsound
  | growable rules => exact @sound_ofOutput (.growable #[] []) rfl rfl rules

/-- Every session that is reached is sound. -/
theorem Reaches.sound {start : Encoder} (hstarts : Starts capacity? start)
    (hreached : Reaches start encoder) : Sound capacity? encoder := by
  induction hreached with
  | refl => exact hstarts.sound
  | step _ step ih => exact ih.step step

end Encoder

end Cbor

end Cose
