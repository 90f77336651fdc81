import Mathlib.Tactic.Common
import Cose.Proofs.Cbor.Decoder.Recovery

/-!
# The nesting that a generic value takes

`Reading.valueOf` recurses on the nesting that is left. The limit on open levels makes this no
restriction: a container is delivered only inside the limit, and its members stand deeper than the
container itself, so the nesting is never used up before the limit is met. From this it follows that
every nesting from `maxNesting` on reads the same value, or fails the same
(`Reading.valueOf_of_maxNesting_le`).

That the value of an entry stands as deep as its label is the one thing that needs the bytes in
between: a map may not end behind a label, so the cursor is followed through its entries.
-/

set_option autoImplicit false
set_option relaxedAutoImplicit false

namespace Cose.Cbor

open Node

namespace Decoder

/-! ### The level of an item -/

theorem openLevels_of_innermostOpen {levels : List Level} {rest : Bytes}
    (hopen : InnermostOpen levels rest) : openLevels levels rest = levels.length := by
  cases levels with
  | nil => rfl
  | cons level outer =>
    obtain ⟨hpending, hbreak⟩ := hopen
    obtain ⟨count | _, isMap, seen⟩ := level
    · cases count with
      | zero => exact absurd rfl hpending
      | succ count => rfl
    · cases rest with
      | nil => rfl
      | cons first after =>
        have hfirst : first ≠ breakByte := fun hfirst ↦ hbreak rfl (by rw [hfirst]; rfl)
        simp [openLevels, hfirst]

/-- An item is delivered at the level that the cursor foresees. -/
theorem level_of_next {before after : Decoder} {item : Item}
    (hnext : next before = .ok item after) : item.level = before.nextLevel := by
  obtain ⟨start, tags, token, hstart, _, _, _, rfl, _⟩ := opening_of_next hnext
  rw [(agrees_of_ascendTo hstart).nextLevel_eq]
  exact (openLevels_of_innermostOpen (demands_leave hstart []).2).symm

/-- A container is delivered only where a level may be opened for it. -/
theorem level_lt_of_isContainer {before after : Decoder} {item : Item}
    (hnext : next before = .ok item after) (hcontainer : item.isContainer = true) :
    item.level < maxNesting := by
  obtain ⟨start, tags, token, _, _, hfits, _, rfl, _⟩ := opening_of_next hnext
  cases token with
  | leaf atom => cases atom <;> cases hcontainer
  | definite isMap count => exact hfits.1
  | indefinite isMap => exact hfits

/-! ### Between the entries of a container -/

/-- Whether a cursor stands between two entries of a container at a nesting level, a map or an
array, with the levels that are complete left or not. -/
def BetweenEntries (base : Nat) (isMap : Bool) (decoder : Decoder) : Prop :=
  ∃ ahead position level outer, decoder.Agrees ⟨ahead, position, level :: outer⟩ ∧
    level.IsWhole ∧ level.isMap = isMap ∧ outer.length = base

/-- Behind the item of a container its entries begin. -/
theorem betweenEntries_of_next {before after : Decoder} {item : Item}
    (hnext : next before = .ok item after) {isMap : Bool} {count? : Option UInt64}
    (hvalue : item.value = if isMap then .map count? else .array count?) :
    BetweenEntries item.level isMap after := by
  obtain ⟨start, tags, token, _, _, _, _, rfl, hafter⟩ := opening_of_next hnext
  obtain ⟨level, hwhole, hmap, henter, _, _⟩ := Token.exists_level hvalue
  refine ⟨after.rest, after.position, level, countedLevels start.levels, ?_, hwhole, hmap,
    length_countedLevels start.levels⟩
  rw [← henter]
  rw [hafter]
  exact .refl _

variable {base : Nat} {isMap : Bool} {before middle after : Decoder}

/-- An entry of a container is read to where the next one begins. -/
theorem BetweenEntries.of_spansAll (hbetween : BetweenEntries base isMap before)
    (hlevel : before.nextLevel > base) {nodes : List Node}
    (hstride : nodes.length = Level.stride isMap) (hspans : before.SpansAll nodes after) :
    BetweenEntries base isMap after := by
  obtain ⟨ahead, position, level, outer, hagrees, hwhole, hmap, rfl⟩ := hbetween
  rw [hagrees.nextLevel_eq] at hlevel
  rw [← hmap] at hstride
  obtain ⟨_, next, rest, last, hnextWhole, hnextMap, _, _, _, hafter⟩ :=
    hspans.of_level hwhole hstride hagrees hlevel
  exact ⟨rest, last, next, outer, hafter, hnextWhole, hnextMap.trans hmap, rfl⟩

/-- The value of an entry stands as deep as its label: behind the label the map goes on. -/
theorem BetweenEntries.level_of_value (hbetween : BetweenEntries base true before)
    (hlevel : before.nextLevel > base) {label : Node} (hlabel : before.Spans label middle)
    {item : Item} (hnext : next middle = .ok item after) : item.level = base + 1 := by
  obtain ⟨ahead, position, level, outer, hagrees, hwhole, hmap, rfl⟩ := hbetween
  rw [hagrees.nextLevel_eq] at hlevel
  have hopen := hwhole.not_ends_counted hmap (pending_ne_of_openLevels hlevel)
  obtain ⟨_, rest, last, _, hmiddle⟩ := hlabel.of_level hagrees (.inr hlevel)
  obtain ⟨start, tags, token, hstart, _, _, _, rfl, _⟩ := opening_of_next hnext
  rw [hmiddle.ascendTo_eq] at hstart
  rw [eq_of_ascendTo_of_open hstart (.inl hopen)]
  rfl

end Decoder

namespace Reading

open Decoder

variable {ε β : Type} [CursorError ε]

/-! ### Loops that do the same -/

/-- Two loops do the same if their visits do, wherever the loops lead. -/
theorem runBelow_congr (invariant : Decoder → Prop) {level : Nat}
    {visit other : β → Item → Reading ε β}
    (hsame : ∀ {state : β} {item : Item} {before middle : Decoder}, invariant before →
      before.nextLevel > level → Decoder.next before = .ok item middle →
      (visit state item).run middle = (other state item).run middle)
    (hvisit : ∀ {state visited : β} {item : Item} {before middle after : Decoder},
      invariant before → before.nextLevel > level → Decoder.next before = .ok item middle →
      (visit state item).run middle = .ok visited after → invariant after)
    {before : Decoder} (hbefore : invariant before) (initial : β) :
    runBelow level visit initial before = runBelow level other initial before := by
  fun_induction runBelow level visit initial before with
  | case1 state before hlevel cause after hnext => exact (runBelow_of_next_error hlevel hnext).symm
  | case2 state before hlevel item middle hnext cause after hrun =>
    rw [hsame hbefore hlevel hnext] at hrun
    exact (runBelow_of_visit_error hlevel hnext hrun).symm
  | case3 state before hlevel item middle hnext visited after hrun ih =>
    rw [ih (hvisit hbefore hlevel hnext hrun)]
    rw [hsame hbefore hlevel hnext] at hrun
    exact (runBelow_of_visit hlevel hnext hrun).symm
  | case4 state before hlevel => rw [runBelow, if_neg hlevel]

/-! ### Values at every nesting -/

/-- Whether two nestings read whatever is delivered at a level, or deeper, the same. -/
def ReadAlike (ε : Type) [CursorError ε] (base first second : Nat) : Prop :=
  ∀ {item : Item} {before middle : Decoder}, Decoder.next before = .ok item middle →
    base ≤ item.level →
    (valueOf first item : Reading ε Value).run middle = (valueOf second item).run middle

variable {base first second : Nat}

/-- The members of an array are delivered deeper than the array. -/
theorem runBelow_visitMember_congr (halike : ReadAlike ε (base + 1) first second)
    (initial : List Value) (before : Decoder) :
    (runBelow base (visitMember first) initial before : EStateM.Result ε Decoder (List Value)) =
      runBelow base (visitMember second) initial before := by
  refine runBelow_congr (fun _ ↦ True) (fun _ hlevel hnext ↦ ?_) (fun _ _ _ _ ↦ trivial) trivial
    initial
  refine run_bind_congr (halike hnext ?_)
  rw [level_of_next hnext]
  exact hlevel

/-- The labels of a map and their values are delivered deeper than the map. -/
theorem runBelow_visitLabel_congr (halike : ReadAlike ε (base + 1) first second)
    (initial : List (Value × Value)) {before : Decoder}
    (hbetween : BetweenEntries base true before) :
    (runBelow base (visitLabel first) initial before :
        EStateM.Result ε Decoder (List (Value × Value))) =
      runBelow base (visitLabel second) initial before := by
  refine runBelow_congr (BetweenEntries base true) ?_ ?_ hbetween initial
  · intro state item before middle hbetween hlevel hnext
    have hitem : base + 1 ≤ item.level := by
      rw [level_of_next hnext]
      exact hlevel
    have hlabel := halike hnext hitem
    cases hread : (valueOf first item : Reading ε Value).run middle with
    | error cause after =>
      exact (run_bind_error hread).trans (run_bind_error (hlabel.symm.trans hread)).symm
    | ok label between =>
      refine (run_bind_ok hread).trans (.trans ?_ (run_bind_ok (hlabel.symm.trans hread)).symm)
      obtain ⟨node, hdelivers, _⟩ := recovers ε first hnext hread
      cases hcontent : (next : Reading ε Item).run between with
      | error cause after => exact (run_bind_error hcontent).trans (run_bind_error hcontent).symm
      | ok content after =>
        refine (run_bind_ok hcontent).trans (.trans ?_ (run_bind_ok hcontent).symm)
        have hvalue := of_run_next hcontent
        have hdepth := hbetween.level_of_value hlevel hdelivers.spans hvalue
        exact run_bind_congr (halike hvalue (Nat.le_of_eq hdepth.symm))
  · intro state visited item before middle after hbetween hlevel hnext hrun
    obtain ⟨nodes, hstride, hspans, _⟩ := visitsMembers_visitLabel (recovers ε first) hnext hrun
    exact hbetween.of_spansAll hlevel hstride hspans

/-- Two nestings read a container the same if one less of each reads its members the same. -/
theorem run_valueOf_succ {item : Item} {before middle : Decoder}
    (hnext : Decoder.next before = .ok item middle)
    (halike : ReadAlike ε (item.level + 1) first second) :
    (valueOf (first + 1) item : Reading ε Value).run middle =
      (valueOf (second + 1) item).run middle := by
  cases hvalue : item.value with
  | array count? =>
    rw [run_valueOf_array hvalue, run_valueOf_array hvalue]
    exact run_bind_congr (runBelow_visitMember_congr halike [] middle)
  | map count? =>
    rw [run_valueOf_map hvalue, run_valueOf_map hvalue]
    have hbetween : BetweenEntries item.level true middle := betweenEntries_of_next hnext hvalue
    exact run_bind_congr (runBelow_visitLabel_congr halike [] hbetween)
  | _ =>
    obtain ⟨value, level, nextLevel, tags⟩ := item
    cases hvalue
    rfl

/-- An item without members is read the same at every nesting. -/
theorem valueOf_of_not_isContainer {item : Item} (hleaf : item.isContainer = false)
    (first second : Nat) : (valueOf first item : Reading ε Value) = valueOf second item := by
  obtain ⟨value, level, nextLevel, tags⟩ := item
  cases value with
  | array | map => cases hleaf
  | _ => cases first <;> cases second <;> rfl

/-- At the limit nothing that is delivered has members. -/
theorem readAlike_of_maxNesting_le (ε : Type) [CursorError ε] (hbase : maxNesting ≤ base)
    (first second : Nat) : ReadAlike ε base first second := by
  intro item before middle hnext hlevel
  have hleaf : item.isContainer = false := Bool.eq_false_iff.2 fun hcontainer ↦
    Nat.not_lt.2 (Nat.le_trans hbase hlevel) (level_lt_of_isContainer hnext hcontainer)
  rw [valueOf_of_not_isContainer hleaf first second]

/-- Two nestings that reach from a level to the limit read whatever is delivered there the same. By
induction on the first of them, as members stand deeper than their container. -/
theorem readAlike (ε : Type) [CursorError ε] (hfirst : maxNesting ≤ first + base)
    (hsecond : maxNesting ≤ second + base) : ReadAlike ε base first second := by
  induction first generalizing base second with
  | zero =>
    rw [Nat.zero_add] at hfirst
    exact readAlike_of_maxNesting_le ε hfirst 0 second
  | succ first ih =>
    cases second with
    | zero =>
      rw [Nat.zero_add] at hsecond
      exact readAlike_of_maxNesting_le ε hsecond (first + 1) 0
    | succ second =>
      intro item before middle hnext hlevel
      have hinner : ReadAlike ε (item.level + 1) first second := ih (by omega) (by omega)
      exact run_valueOf_succ hnext hinner

/-- From the limit on, every nesting reads a delivered item the same. -/
theorem valueOf_of_maxNesting_le {nesting : Nat} (hnesting : maxNesting ≤ nesting) {item : Item}
    {before middle : Decoder} (hnext : Decoder.next before = .ok item middle) :
    (valueOf nesting item : Reading ε Value).run middle = (valueOf maxNesting item).run middle :=
  readAlike ε hnesting (Nat.le_refl _) hnext (Nat.zero_le _)

end Reading

end Cose.Cbor
