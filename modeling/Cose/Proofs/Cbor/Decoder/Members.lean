import Mathlib.Tactic.Common
import Cose.Proofs.Cbor.Decoder.Spanning

/-!
# Loops over the members of a container

A loop that reads one member of an array at a time, or one entry of a map, ends where its container
does, and what it collected is a function of the members (`Reading.members_of_runBelow`). With the
item that opened the container in front, the members make up a node
(`Reading.exists_container_of_runBelow`). The loops differ in what they make of the members, which
is a relation between the state of the loop, the members read, and the state behind them.
-/

set_option autoImplicit false
set_option relaxedAutoImplicit false

namespace Cose.Cbor

open Node

/-! ### Levels at whole entries -/

namespace Level

variable {level : Level}

/-- The number of members that are read at once: one member of an array, or one entry of a map. -/
def stride (isMap : Bool) : Nat := if isMap then 2 else 1

/-- Whether a level stands between two entries, if it is a map. -/
def IsWhole (level : Level) : Prop :=
  level.isMap = true →
    match level.pending with
    | .items count => count % 2 = 0
    | .untilBreak => level.seen % 2 = 0

theorem IsWhole.ends_of_untilBreak (hwhole : level.IsWhole)
    (hpending : level.pending = .untilBreak) : level.Ends 0 := by
  simpa [IsWhole, Ends, hpending] using hwhole

theorem pending_ne_of_not_ends (hends : ¬level.Ends 0) : level.pending ≠ .items 0 := by
  intro hpending
  exact hends (by simp [Ends, hpending])

/-- An array may end behind any member. -/
theorem isWhole_of_array (harray : level.isMap = false) : level.IsWhole := by
  intro hmap
  rw [harray] at hmap
  cases hmap

/-- A map stands between two entries again once one of them was read. -/
theorem IsWhole.counted_counted (hwhole : level.IsWhole) :
    ((level.counted 1).counted 1).IsWhole := by
  intro hmap
  obtain ⟨count | _, isMap, seen⟩ := level
  · have heven : count % 2 = 0 := hwhole hmap
    change (count - 1 - 1) % 2 = 0
    omega
  · have heven : seen % 2 = 0 := hwhole hmap
    change (seen + 1 + 1) % 2 = 0
    omega

/-- A map does not end between a label and its value. -/
theorem IsWhole.not_ends_counted (hwhole : level.IsWhole) (hmap : level.isMap = true)
    (hopen : level.pending ≠ .items 0) : ¬(level.counted 1).Ends 0 := by
  obtain ⟨count | _, isMap, seen⟩ := level
  · have heven : count % 2 = 0 := hwhole hmap
    have hcount : count ≠ 0 := fun hzero ↦ hopen (by rw [hzero])
    intro hends
    have hlast : 0 = count - 1 := hends
    omega
  · have heven : seen % 2 = 0 := hwhole hmap
    intro hends
    have hodd : (seen + 1 + 0) % 2 = 0 := hends hmap
    omega

end Level

/-- What is delivered for a container tells whether it is a map. -/
theorem isMap_eq_of_value {isMap isOther : Bool} {count? other? : Option UInt64}
    (hvalue : (if isOther then ItemValue.map other? else .array other?) =
      if isMap then .map count? else .array count?) : isOther = isMap := by
  cases isOther <;> cases isMap <;> first | rfl | cases hvalue

/-- A token that is delivered as an array or map opens a level for its members. -/
theorem Token.exists_level {token : Token} {isMap : Bool} {count? : Option UInt64}
    (hvalue : token.value = if isMap then .map count? else .array count?) :
    ∃ level : Level, level.IsWhole ∧ level.isMap = isMap ∧
      (∀ levels, token.enter levels = level :: levels) ∧ token.closing = level.closing ∧
      ∀ members, level.Ends members → token.Holds members := by
  cases token with
  | leaf atom => cases isMap <;> cases atom <;> cases hvalue
  | definite isOther count =>
    obtain rfl := isMap_eq_of_value hvalue
    refine ⟨_, fun hmap ↦ ?_, rfl, fun _ ↦ rfl, rfl, fun _ hends ↦ hends⟩
    obtain rfl : isOther = true := hmap
    exact Nat.mul_mod_right _ _
  | indefinite isOther =>
    obtain rfl := isMap_eq_of_value hvalue
    refine ⟨_, fun _ ↦ rfl, rfl, fun _ ↦ rfl, rfl, fun members hends hmap ↦ ?_⟩
    have heven : (0 + members) % 2 = 0 := hends hmap
    rwa [Nat.zero_add] at heven

namespace Decoder

variable {outer : List Level} {ahead : Bytes} {position : Nat}

/-! ### Several nodes between cursors -/

/-- Whether the bytes from one cursor to another are those of several nodes. -/
inductive SpansAll : Decoder → List Node → Decoder → Prop where
  | nil (decoder : Decoder) : SpansAll decoder [] decoder
  | cons {before middle after : Decoder} {node : Node} {nodes : List Node}
      (hnode : before.Spans node middle) (hothers : SpansAll middle nodes after) :
      SpansAll before (node :: nodes) after

theorem SpansAll.one {before after : Decoder} {node : Node} (hspans : before.Spans node after) :
    before.SpansAll [node] after := .cons hspans (.nil after)

theorem SpansAll.two {before middle after : Decoder} {first second : Node}
    (hfirst : before.Spans first middle) (hsecond : middle.Spans second after) :
    before.SpansAll [first, second] after := .cons hfirst (.one hsecond)

/-- What is read at once in a level are members of it, and the level takes that many fewer. -/
theorem SpansAll.of_level {before after : Decoder} {nodes : List Node}
    (hspans : before.SpansAll nodes after) {level : Level} (hwhole : level.IsWhole)
    (hstride : nodes.length = Level.stride level.isMap)
    (hagrees : before.Agrees ⟨ahead, position, level :: outer⟩)
    (hopen : openLevels (level :: outer) ahead > outer.length) :
    AllWellFormed (outer.length + 1) nodes ∧ ∃ next rest position, next.IsWhole ∧
      next.isMap = level.isMap ∧ next.closing = level.closing ∧
      (∀ members, next.Ends members → level.Ends (members + nodes.length)) ∧
      ahead = encodedAll nodes ++ rest ∧ after.Agrees ⟨rest, position, next :: outer⟩ := by
  have hpending := pending_ne_of_openLevels hopen
  cases hmap : level.isMap with
  | false =>
    rw [hmap] at hstride
    rcases hspans with _ | ⟨hnode, _ | ⟨_, _⟩⟩
    · cases hstride
    · obtain ⟨hwellFormed, rest, last, rfl, hafter⟩ := hnode.of_level hagrees (.inr hopen)
      refine ⟨⟨hwellFormed, trivial⟩, level.counted 1, rest, last, Level.isWhole_of_array hmap,
        hmap, level.closing_counted 1, fun members hends ↦ ends_succ_of_counted hpending hends,
        ?_, hafter⟩
      simp [encodedAll]
    · cases hstride
  | true =>
    have hbetween := hwhole.not_ends_counted hmap hpending
    rw [hmap] at hstride
    rcases hspans with _ | ⟨hlabel, _ | ⟨hvalue, _ | ⟨_, _⟩⟩⟩
    · cases hstride
    · cases hstride
    · obtain ⟨hlabelNode, behind, _, rfl, hmiddle⟩ := hlabel.of_level hagrees (.inr hopen)
      obtain ⟨hvalueNode, rest, last, rfl, hafter⟩ := hvalue.of_level hmiddle (.inl hbetween)
      refine ⟨⟨hlabelNode, hvalueNode, trivial⟩, (level.counted 1).counted 1, rest, last,
        hwhole.counted_counted, hmap, ?_, fun members hends ↦ ?_, by simp [encodedAll], hafter⟩
      · rw [Level.closing_counted, Level.closing_counted]
      · exact ends_succ_of_counted hpending
          (ends_succ_of_counted (Level.pending_ne_of_not_ends hbetween) hends)
    · cases hstride

end Decoder

namespace Reading

open Decoder

/-! ### Loops -/

variable {ε β : Type} [CursorError ε]

/-- What one visit of a loop does: it reads the members that are read at once, and these take the
state that it starts in to the state that it ends in, in front of whatever is read later. -/
def VisitsMembers (visit : β → Item → Reading ε β) (isMap : Bool)
    (relation : β → List Node → β → Prop) : Prop :=
  ∀ {state visited : β} {item : Item} {before middle after : Decoder},
    Decoder.next before = .ok item middle → (visit state item).run middle = .ok visited after →
    ∃ nodes, nodes.length = Level.stride isMap ∧ before.SpansAll nodes after ∧
      ∀ {others : List Node} {final : β}, relation visited others final →
        relation state (nodes ++ others) final

variable {visit : β → Item → Reading ε β} {relation : β → List Node → β → Prop}

/-- A loop over the members of a level reads them all, and leaves the level as good as left. -/
theorem members_of_runBelow {isMap : Bool} (hvisit : VisitsMembers visit isMap relation)
    (hrefl : ∀ state, relation state [] state) {outer : List Level} {state final : β}
    {before after : Decoder} (hrun : runBelow outer.length visit state before = .ok final after)
    {level : Level} (hwhole : level.IsWhole) (hmap : level.isMap = isMap) {ahead : Bytes}
    {position : Nat} (hagrees : before.Agrees ⟨ahead, position, level :: outer⟩) :
    ∃ members rest last, AllWellFormed (outer.length + 1) members ∧ level.Ends members.length ∧
      ahead = encodedAll members ++ (level.closing ++ rest) ∧
      after.Agrees ⟨rest, last, outer⟩ ∧ relation state members final := by
  fun_induction runBelow outer.length visit state before generalizing level ahead position with
  | case1 => cases hrun
  | case2 => cases hrun
  | case3 state before hlevel item middle hnext visited between hrunVisit ih =>
    rw [hagrees.nextLevel_eq] at hlevel
    obtain ⟨nodes, hstride, hspans, hrelation⟩ := hvisit hnext hrunVisit
    rw [← hmap] at hstride
    obtain ⟨hnodes, next, behind, _, hnextWhole, hnextMap, hclosing, hends, rfl, hbetween⟩ :=
      hspans.of_level hwhole hstride hagrees hlevel
    obtain ⟨members, rest, last, hmembers, hnextEnds, rfl, hafter, hothers⟩ :=
      ih hrun hnextWhole (hnextMap.trans hmap) hbetween
    refine ⟨nodes ++ members, rest, last, ?_, ?_, by simp [hclosing], hafter, hrelation hothers⟩
    · rw [allWellFormed_iff] at hnodes hmembers ⊢
      exact List.forall_mem_append.2 ⟨hnodes, hmembers⟩
    · rw [List.length_append, Nat.add_comm]
      exact hends members.length hnextEnds
  | case4 state before hlevel =>
    cases hrun
    rw [hagrees.nextLevel_eq] at hlevel
    obtain ⟨hends, rest, last, hahead, hleave⟩ :=
      exists_leave_of_done hwhole.ends_of_untilBreak (Nat.not_lt.1 hlevel)
    have hascend : Decoder.ascendTo outer.length ⟨ahead, position, level :: outer⟩ =
        .ok () ⟨rest, last, outer⟩ := hleave
    exact ⟨[], rest, last, trivial, hends, hahead, hagrees.trans (agrees_of_ascendTo hascend),
      hrefl _⟩

/-- The item of a container and the members that a loop read behind it make up a node. -/
theorem exists_container_of_runBelow (isMap : Bool) (hvisit : VisitsMembers visit isMap relation)
    (hrefl : ∀ state, relation state [] state) {item : Item} {before middle after : Decoder}
    (hnext : Decoder.next before = .ok item middle) {count? : Option UInt64}
    (hvalue : item.value = if isMap then .map count? else .array count?) {initial final : β}
    (hrun : runBelow item.level visit initial middle = .ok final after) :
    ∃ tags token members, before.Delivers item (.mk tags token members) after ∧
      relation initial members final := by
  obtain ⟨start, tags, token, hstart, htags, hfits, hrest, hitem, hmiddle⟩ := opening_of_next hnext
  have htoken : token.value = if isMap then .map count? else .array count? := by
    rw [← hvalue, hitem]
    rfl
  obtain ⟨level, hwhole, hmap, henter, hclosing, hholds⟩ := Token.exists_level htoken
  have hlevel : item.level = (countedLevels start.levels).length := by
    rw [length_countedLevels, hitem]
    rfl
  have hinside : middle.Agrees
      ⟨middle.rest, middle.position, level :: countedLevels start.levels⟩ := by
    have hlevels : middle.levels = level :: countedLevels start.levels := by
      rw [hmiddle, behind, henter]
    rw [← hlevels]
    exact .refl middle
  rw [hlevel] at hrun
  obtain ⟨members, rest, last, hmembers, hends, hahead, hafter, hrelation⟩ :=
    members_of_runBelow hvisit hrefl hrun hwhole hmap hinside
  rw [length_countedLevels] at hmembers
  refine ⟨tags, token, members, ⟨⟨start, rest, last, hstart,
    ⟨htags, hfits, hholds _ hends, hmembers⟩, ?_, hafter⟩, by rw [hitem]; rfl, by rw [hitem]; rfl⟩,
    hrelation⟩
  rw [hrest, hahead, encoded, hclosing]
  simp only [List.append_assoc]

end Reading

end Cose.Cbor
