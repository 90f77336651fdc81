import Mathlib.Tactic.Common
import Cose.Cbor.Decoder.Tree

/-!
# What holds of a cursor at any time

`Decoder.Sound` is what holds of a cursor over an input at any time, whatever was read with it and
whether it failed: the cursor stands in the input, no more levels are open than the limit on nesting
allows, and none of them takes more members than a container may have. An operation that fails stops
in the middle of an item, with a member counted already or only some of the finished containers
left, so the invariant is shown of the cursor that is reached, with a result or with a failure.

Operations are composed of others, and so is what they keep (`Keeps`). Whatever the two operations
`Decoder.next` and `Decoder.ascendTo` keep is kept by each reading that is built from them
(`Keeps.skip`, `Keeps.nextRaw`, `Keeps.nextValue`).
-/

set_option autoImplicit false
set_option relaxedAutoImplicit false

namespace Cose.Cbor

/-! ### Operations that keep a property -/

/-- Whether an operation keeps a property of cursors, also where it fails. -/
def Keeps {ε α : Type} (invariant : Decoder → Prop) (operation : EStateM ε Decoder α) : Prop :=
  ∀ decoder : Decoder, invariant decoder → invariant (reached (operation decoder))

namespace Keeps

variable {ε α β : Type} {invariant : Decoder → Prop}

theorem pure (result : α) : Keeps invariant (Pure.pure result : EStateM ε Decoder α) := fun _ ↦ id

theorem throw (cause : ε) : Keeps invariant (throwThe ε cause : EStateM ε Decoder α) := fun _ ↦ id

theorem get : Keeps invariant (MonadState.get : EStateM ε Decoder Decoder) := fun _ ↦ id

theorem bind {operation : EStateM ε Decoder α} {following : α → EStateM ε Decoder β}
    (hoperation : Keeps invariant operation)
    (hfollowing : ∀ result, Keeps invariant (following result)) :
    Keeps invariant (operation >>= following) := by
  intro decoder hbefore
  have hfirst := hoperation decoder hbefore
  change invariant (reached (EStateM.bind operation following decoder))
  unfold EStateM.bind
  split
  next result middle hrun =>
    rw [hrun] at hfirst
    exact hfollowing result middle hfirst
  next cause middle hrun =>
    rw [hrun] at hfirst
    exact hfirst

theorem adaptExcept {ε' : Type} {operation : EStateM ε Decoder α}
    (hoperation : Keeps invariant operation) (rename : ε → ε') :
    Keeps invariant (EStateM.adaptExcept rename operation) := by
  intro decoder hbefore
  have hafter := hoperation decoder hbefore
  unfold EStateM.adaptExcept
  split <;>
  · rename_i hrun
    rw [hrun] at hafter
    exact hafter

section Readings

variable [CursorError ε]

/-- A loop keeps what asking for an item and each of its visits keep. -/
theorem foldBelow (hnext : Keeps invariant Decoder.next) {visit : β → Item → Reading ε β}
    (hvisit : ∀ state item, Keeps invariant (visit state item).run) (level : Nat) (initial : β) :
    Keeps invariant (Reading.foldBelow level initial visit).run := by
  intro decoder hbefore
  change invariant (reached (Reading.runBelow level visit initial decoder))
  fun_induction Reading.runBelow level visit initial decoder with
  | case1 state decoder _ cause after hrun =>
    have hafter := hnext decoder hbefore
    rwa [hrun] at hafter
  | case2 state decoder _ item middle hrun cause after hrunVisit =>
    have hmiddle := hnext decoder hbefore
    rw [hrun] at hmiddle
    have hafter := hvisit state item middle hmiddle
    rwa [hrunVisit] at hafter
  | case3 state decoder _ item middle hrun visited after hrunVisit ih =>
    have hmiddle := hnext decoder hbefore
    rw [hrun] at hmiddle
    have hafter := hvisit state item middle hmiddle
    rw [hrunVisit] at hafter
    exact ih hafter
  | case4 => exact hbefore

variable (hnext : Keeps invariant Decoder.next)
  (hascend : ∀ minDepth, Keeps invariant (Decoder.ascendTo minDepth))

include hnext in
theorem next : Keeps invariant (Reading.next : Reading ε Item).run := hnext.adaptExcept _

include hascend in
theorem ascendTo (minDepth : Nat) :
    Keeps invariant (Reading.ascendTo minDepth : Reading ε Unit).run :=
  (hascend minDepth).adaptExcept _

include hnext hascend in
theorem skip (item : Item) : Keeps invariant (Reading.skip item : Reading ε Unit).run :=
  .bind (.foldBelow hnext (fun _ _ ↦ .pure _) _ _) fun _ ↦ .ascendTo hascend _

include hnext hascend in
theorem nextRaw : Keeps invariant (Reading.nextRaw : Reading ε (Item × Bytes)).run :=
  .bind (.ascendTo hascend 0) fun _ ↦ .bind .get fun _ ↦ .bind (.next hnext) fun item ↦
    .bind (.skip hnext hascend item) fun _ ↦ .bind .get fun _ ↦ .pure _

include hnext in
/-- By induction on the nesting that is left. -/
theorem valueOf (nesting : Nat) (item : Item) :
    Keeps invariant (Reading.valueOf nesting item : Reading ε Value).run := by
  induction nesting generalizing item with
  | zero =>
    obtain ⟨value, level, nextLevel, tags⟩ := item
    unfold Reading.valueOf
    cases value with
    | array | map | undefined | simple => exact .bind (.throw _) fun _ ↦ .pure _
    | _ => exact .bind (.pure _) fun _ ↦ .pure _
  | succ nesting ih =>
    obtain ⟨value, level, nextLevel, tags⟩ := item
    unfold Reading.valueOf
    cases value with
    | array count? =>
      refine .bind (.foldBelow hnext (fun members member ↦ ?_) _ _) fun _ ↦
        .bind (.pure _) fun _ ↦ .pure _
      exact .bind (ih member) fun _ ↦ .pure _
    | map count? =>
      refine .bind (.foldBelow hnext (fun entries label ↦ ?_) _ _) fun _ ↦
        .bind (.pure _) fun _ ↦ .pure _
      exact .bind (ih label) fun _ ↦ .bind (.next hnext) fun value ↦ .bind (ih value) fun _ ↦
        .pure _
    | undefined | simple => exact .bind (.throw _) fun _ ↦ .pure _
    | _ => exact .bind (.pure _) fun _ ↦ .pure _

include hnext in
theorem nextValue : Keeps invariant (Reading.nextValue : Reading ε Value).run :=
  .bind (.next hnext) fun item ↦ .valueOf hnext maxNesting item

end Readings

end Keeps

namespace Decoder

/-! ### Levels within their limits -/

/-- Whether no more levels are open than may be, none of them with more members to come than a
container may have: a map has two for each pair. -/
structure Nested (decoder : Decoder) : Prop where
  depth_le : decoder.depth ≤ maxNesting
  pending_le : ∀ level ∈ decoder.levels, ∀ count, level.pending = .items count →
    count ≤ 2 * maxItems

/-- Levels may be left. -/
theorem Nested.of_suffix {before after : Decoder} (hnested : before.Nested)
    (hlevels : after.levels <:+ before.levels) : after.Nested where
  depth_le := Nat.le_trans hlevels.length_le hnested.depth_le
  pending_le level hmem := hnested.pending_le level (hlevels.subset hmem)

theorem nested_ofBytes (input : Bytes) : (ofBytes input).Nested :=
  ⟨Nat.zero_le _, fun _ hmem ↦ by cases hmem⟩

/-- What is left behind, also in front of a break that comes too early, are some outer levels. -/
theorem suffix_leave (minDepth : Nat) (rest : Bytes) (position : Nat) (levels : List Level) :
    (reached (leave minDepth rest position levels)).levels <:+ levels := by
  fun_induction leave minDepth rest position levels with
  | case3 => exact List.IsSuffix.trans ‹_› (List.suffix_cons _ _)
  | case7 _ level outer _ after _ _ ih => exact ih.trans (List.suffix_cons _ _)
  | _ => exact List.suffix_refl _

theorem nested_ascendTo (minDepth : Nat) : Keeps Nested (ascendTo minDepth) := fun _ hnested ↦
  hnested.of_suffix (suffix_leave minDepth _ _ _)

theorem nested_take (count : Nat) : Keeps Nested (take count) := by
  intro decoder hnested
  unfold take
  split
  · exact ⟨hnested.depth_le, hnested.pending_le⟩
  · exact hnested

theorem nested_head : Keeps Nested head := by
  intro decoder hnested
  unfold head
  split
  · exact hnested
  · exact ⟨hnested.depth_le, hnested.pending_le⟩

theorem compositional_nested : Compositional fun operation ↦ Keeps Nested operation :=
  ⟨.pure, fun _ ↦ .throw _, .bind⟩

theorem nested_taggedHead (allowed : Nat) : Keeps Nested (taggedHead allowed) :=
  compositional_nested.taggedHead nested_head allowed

/-- One member fewer is to come in the innermost level. -/
theorem nested_countMember : Keeps Nested (modify countMember : Cursor PUnit) := by
  rintro ⟨rest, position, levels⟩ hnested
  cases levels with
  | nil => exact hnested
  | cons level outer =>
    refine ⟨hnested.depth_le, List.forall_mem_cons.2 ⟨fun count hcount ↦ ?_,
      (List.forall_mem_cons.1 hnested.pending_le).2⟩⟩
    obtain ⟨before | _, isMap, seen⟩ := level
    · obtain rfl : before - 1 = count := Pending.items.inj hcount
      exact Nat.le_trans (Nat.sub_le before 1) (hnested.pending_le _ List.mem_cons_self before rfl)
    · cases hcount

/-- A level is entered only inside the limits. -/
theorem nested_enter (count? : Option UInt64) (isMap : Bool) :
    Keeps Nested (enter count? isMap) := by
  intro decoder hnested
  unfold enter
  split
  · exact hnested
  next hdepth =>
    have hinside : decoder.levels.length + 1 ≤ maxNesting := Nat.lt_of_not_ge hdepth
    split
    · exact ⟨hinside, List.forall_mem_cons.2 ⟨fun _ hcount ↦ (by cases hcount), hnested.pending_le⟩⟩
    next count =>
      split
      · exact hnested
      next hcount =>
        refine ⟨hinside, List.forall_mem_cons.2 ⟨?_, hnested.pending_le⟩⟩
        rintro _ ⟨⟩
        split <;> omega

theorem nested_value (head : Head) : Keeps Nested (value head) :=
  compositional_nested.value nested_take nested_enter head

theorem nested_next : Keeps Nested next := by
  refine .bind (nested_ascendTo 0) fun _ ↦ .bind .get fun start ↦ ?_
  dsimp only
  split
  · exact .throw _
  · exact .bind (nested_taggedHead _) fun _ ↦ .bind nested_countMember fun _ ↦
      .bind (nested_value _) fun _ ↦ .bind .get fun _ ↦ .pure _

theorem nested_finish : Keeps Nested finish := by
  refine .bind (nested_ascendTo 0) fun _ ↦ .bind .get fun reached ↦ ?_
  dsimp only
  split
  · exact .throw _
  · split
    · exact .throw _
    · exact .pure _

/-! ### Sound cursors -/

/-- What holds at any time of a cursor over an input. -/
structure Sound (input : Bytes) (decoder : Decoder) : Prop extends Nested decoder where
  position_le : decoder.position ≤ input.length
  rest_eq : decoder.rest = input.drop decoder.position

theorem sound_ofBytes (input : Bytes) : Sound input (ofBytes input) :=
  ⟨nested_ofBytes input, Nat.zero_le _, rfl⟩

/-- A cursor that comes of a sound one by reading stands in the input. -/
theorem Sound.of_advances {input : Bytes} {before after : Decoder} (hsound : Sound input before)
    (hadvances : before.Advances after) (hnested : after.Nested) : Sound input after := by
  obtain ⟨count, hcount, hrest, hposition⟩ := hadvances
  have hbefore := hsound.position_le
  rw [hsound.rest_eq, List.length_drop] at hcount
  exact {
    toNested := hnested
    position_le := by omega
    rest_eq := by rw [hrest, hsound.rest_eq, List.drop_drop, hposition] }

end Decoder

end Cose.Cbor
