import Mathlib.Data.List.Chain
import Cose.Proofs.Cbor.Decoder.Safety

/-!
# Looking ahead agrees with moving on

`Decoder.nextLevel` foresees the level of the next item from the open levels and the bytes ahead,
without moving. It counts the levels that `Decoder.ascendTo` keeps open
(`Decoder.depth_of_ascendTo`), and these are all of them exactly where the innermost has members to
come (`Decoder.openLevels_eq_length_iff`). Behind an item the innermost level is the one that the
item opened, if it opened one, so what an item says about the level of the next one tells whether
members of the item follow (`Decoder.nextLevel_eq_succ_iff`).

`Decoder.lookahead_exact` puts this together for every cursor, wherever it stands and whatever
failed on the way there. `Decoder.isChain_drain` carries it through a whole run: every item but the
first stands where the item before it said.
-/

set_option autoImplicit false
set_option relaxedAutoImplicit false

namespace Cose.Cbor

/-! ### Levels that stay open -/

namespace Decoder

/-- Where the innermost level has no members to come, not all levels stay open. -/
theorem openLevels_lt_of_not_innermostOpen {levels : List Level} {rest : Bytes}
    (hover : ¬InnermostOpen levels rest) : openLevels levels rest < levels.length := by
  cases levels with
  | nil => exact absurd trivial hover
  | cons level outer =>
    rw [List.length_cons, Nat.lt_succ_iff]
    by_cases hzero : level.pending = .items 0
    · simp only [openLevels, hzero]
      exact openLevels_le_length outer rest
    · have hbreak : level.pending = .untilBreak ∧ rest.head? = some breakByte := by
        by_contra hother
        exact hover ⟨hzero, fun hpending hfirst ↦ hother ⟨hpending, hfirst⟩⟩
      obtain ⟨hpending, hfirst⟩ := hbreak
      obtain ⟨after, rfl⟩ := List.head?_eq_some_iff.1 hfirst
      simp only [openLevels, hpending, if_true]
      exact openLevels_le_length outer after

/-- All levels stay open exactly where the innermost has members to come. -/
theorem openLevels_eq_length_iff (levels : List Level) (rest : Bytes) :
    openLevels levels rest = levels.length ↔ InnermostOpen levels rest := by
  constructor
  · intro hlevels
    by_contra hover
    exact absurd hlevels (Nat.ne_of_lt (openLevels_lt_of_not_innermostOpen hover))
  · exact openLevels_of_innermostOpen

/-- Leaving finished containers keeps the levels open that are foreseen, and those within the least
depth. -/
theorem depth_of_ascendTo {minDepth : Nat} {decoder start : Decoder}
    (hstart : ascendTo minDepth decoder = .ok () start) :
    start.depth = max decoder.nextLevel (min minDepth decoder.depth) := by
  obtain ⟨rest, position, levels⟩ := decoder
  change leave minDepth rest position levels = .ok () start at hstart
  change start.levels.length = max (openLevels levels rest) (min minDepth levels.length)
  -- A level that is left lies beyond the least depth, so the minimum is the same without it.
  fun_induction leave minDepth rest position levels with
  | case1 =>
    cases hstart
    simp [openLevels]
  | case2 rest position level outer hwithin =>
    cases hstart
    have hle := openLevels_le_length (level :: outer) rest
    rw [List.length_cons] at hle ⊢
    omega
  | case3 position level outer hbeyond rest hpending ih =>
    have hlevels : openLevels (level :: outer) rest = openLevels outer rest := by
      simp [openLevels, hpending]
    rw [ih hstart, hlevels, List.length_cons]
    omega
  | case6 => cases hstart
  | case7 position level outer hbeyond after hpending heven ih =>
    have hlevels : openLevels (level :: outer) (breakByte :: after) = openLevels outer after := by
      simp [openLevels, hpending]
    rw [ih hstart, hlevels, List.length_cons]
    omega
  | _ =>
    cases hstart
    simp_all only [openLevels, List.length_cons, if_false]
    omega

/-- An item says of the next one what the cursor behind it foresees. -/
theorem nextLevel_of_next {before after : Decoder} {item : Item}
    (hnext : next before = .ok item after) : item.nextLevel = after.nextLevel := by
  obtain ⟨start, tags, token, _, _, _, _, hitem, hafter⟩ := opening_of_next hnext
  rw [hitem, hafter]
  rfl

end Decoder

/-! ### Items with members to come -/

/-- Whether members follow where a value is delivered in front of given bytes: it is an array or
map, but neither one of length zero nor one of indefinite length that its break follows at once. -/
def ItemValue.HasMembers (rest : Bytes) : ItemValue → Prop
  | array count? | map count? =>
    count? ≠ some 0 ∧ (count? = none → rest.head? ≠ some breakByte)
  | _ => False

instance (rest : Bytes) (value : ItemValue) : Decidable (value.HasMembers rest) := by
  unfold ItemValue.HasMembers
  split <;> infer_instance

theorem ItemValue.hasMembers_container (isMap : Bool) (count? : Option UInt64) (rest : Bytes) :
    (if isMap then map count? else array count?).HasMembers rest ↔
      count? ≠ some 0 ∧ (count? = none → rest.head? ≠ some breakByte) := by
  cases isMap <;> rfl

theorem Leaf.not_hasMembers (atom : Leaf) (rest : Bytes) : ¬atom.value.HasMembers rest := by
  cases atom <;> exact id

namespace Token

/-- A token opens a level that has members to come if its value has some. -/
theorem openLevels_enter_eq_iff (token : Token) (levels : List Level) (rest : Bytes) :
    Decoder.openLevels (token.enter levels) rest = levels.length + 1 ↔
      token.value.HasMembers rest := by
  cases token with
  | leaf atom =>
    have hlevels := Decoder.openLevels_le_length levels rest
    exact iff_of_false (Nat.ne_of_lt (Nat.lt_succ_of_le hlevels)) (atom.not_hasMembers rest)
  | definite isMap count =>
    have hzero : count.number = 0 ↔ count.number.toNat = 0 := UInt64.toNat_inj.symm
    have hpairs : 2 * count.number.toNat = 0 ↔ count.number.toNat = 0 := by omega
    refine (Decoder.openLevels_eq_length_iff ((definite isMap count).enter levels) rest).trans ?_
    rw [value, ItemValue.hasMembers_container]
    cases isMap
    · simp [enter, InnermostOpen, hzero]
    · simp only [enter, InnermostOpen, if_true, ne_eq, Pending.items.injEq, hpairs, reduceCtorEq,
        IsEmpty.forall_iff, and_true, Option.some.injEq, hzero]
  | indefinite isMap =>
    refine (Decoder.openLevels_eq_length_iff ((indefinite isMap).enter levels) rest).trans ?_
    rw [value, ItemValue.hasMembers_container]
    simp [enter, InnermostOpen]

/-- Behind a token no more levels stay open than it opens. -/
theorem openLevels_enter_le (token : Token) (levels : List Level) (rest : Bytes) :
    Decoder.openLevels (token.enter levels) rest ≤ levels.length + 1 := by
  have hlevels := Decoder.openLevels_le_length (token.enter levels) rest
  cases token with
  | leaf atom => exact Nat.le_succ_of_le hlevels
  | definite isMap count => exact hlevels
  | indefinite isMap => exact hlevels

end Token

namespace Decoder

/-- The level behind an item is one deeper than the item exactly if members of it follow. -/
theorem nextLevel_eq_succ_iff {before after : Decoder} {item : Item}
    (hnext : next before = .ok item after) :
    item.nextLevel = item.level + 1 ↔ item.value.HasMembers after.rest := by
  obtain ⟨start, tags, token, _, _, _, _, rfl, _⟩ := opening_of_next hnext
  have hopens := token.openLevels_enter_eq_iff (countedLevels start.levels) after.rest
  rw [length_countedLevels] at hopens
  exact hopens

/-- Otherwise it is no deeper than the item. -/
theorem nextLevel_le_succ {before after : Decoder} {item : Item}
    (hnext : next before = .ok item after) : item.nextLevel ≤ item.level + 1 := by
  obtain ⟨start, tags, token, _, _, _, _, rfl, _⟩ := opening_of_next hnext
  have hopens := token.openLevels_enter_le (countedLevels start.levels) after.rest
  rw [length_countedLevels] at hopens
  exact hopens

/-! ### Runs -/

/-- The first item of a run stands where the cursor foresees it. -/
theorem level_of_mem_head?_drain {decoder : Decoder} {first : Item}
    (hfirst : first ∈ decoder.drain.1.head?) : first.level = decoder.nextLevel := by
  rw [drain] at hfirst
  split at hfirst
  · cases hfirst
  next item after hnext =>
    cases hfirst
    exact level_of_next hnext

/-- In a run every item but the first stands where the item before it said. -/
theorem isChain_drain (decoder : Decoder) :
    decoder.drain.1.IsChain fun first second ↦ second.level = first.nextLevel := by
  fun_induction drain decoder with
  | case1 => exact .nil
  | case2 decoder item after hnext items cause hdrain ih =>
    rw [hdrain] at ih
    refine ih.cons fun second hsecond ↦ ?_
    have hmem : second ∈ after.drain.1.head? := by rwa [hdrain]
    rw [nextLevel_of_next hnext]
    exact level_of_mem_head?_drain hmem

/-- What a cursor foresees is what it finds, wherever it stands: operations of any kind may have led
it there, and some of them may have failed. The level of the next item is the one foreseen in front
of it, and the item itself foresees what the cursor does behind it, so the next item stands there,
if there is one. That is one level deeper exactly if members of the item follow, and no deeper than
the item otherwise. Leaving finished containers, down to a least depth or not, keeps the levels open
that are foreseen; and what is foreseen holds through a whole run. -/
theorem lookahead_exact (decoder : Decoder) :
    (∀ {item : Item} {after : Decoder}, next decoder = .ok item after →
      item.level = decoder.nextLevel ∧ item.nextLevel = after.nextLevel ∧
      (∀ {following : Item} {last : Decoder}, next after = .ok following last →
        following.level = item.nextLevel) ∧
      (item.nextLevel = item.level + 1 ↔ item.value.HasMembers after.rest) ∧
      (¬item.value.HasMembers after.rest → item.nextLevel ≤ item.level)) ∧
    (∀ {minDepth : Nat} {start : Decoder}, ascendTo minDepth decoder = .ok () start →
      start.depth = max decoder.nextLevel (min minDepth decoder.depth)) ∧
    decoder.drain.1.IsChain fun first second ↦ second.level = first.nextLevel := by
  refine ⟨fun {item after} hnext ↦ ?_, depth_of_ascendTo, isChain_drain decoder⟩
  have hforeseen := nextLevel_of_next hnext
  have hopens := nextLevel_eq_succ_iff hnext
  have hbound := nextLevel_le_succ hnext
  refine ⟨level_of_next hnext, hforeseen, fun hfollowing ↦ ?_, hopens, fun hnone ↦ ?_⟩
  · rw [hforeseen]
    exact level_of_next hfollowing
  · have hother : item.nextLevel ≠ item.level + 1 := fun hdeeper ↦ hnone (hopens.1 hdeeper)
    omega

/-- An invalid text leaves two containers open that have ended. What is foreseen there is the level
of the map behind the break, and behind the map that of its label. -/
theorem lookahead_exact_behind_failure :
    let before := Move.applyAll (ofBytes [0x9f, 0x81, 0x61, 0xff, 0xff, 0xa1, 0x01, 0x02])
      [.next, .next, .next]
    let after : Decoder := ⟨[0x01, 0x02], 6, [⟨.items 2, true, 0⟩]⟩
    let label : Item := ⟨.unsigned 1, 1, 1, []⟩
    let last : Decoder := ⟨[0x02], 7, [⟨.items 1, true, 1⟩]⟩
    before.depth = 2 ∧ next before = .ok ⟨.map (some 1), 0, 1, []⟩ after ∧
      0 = before.nextLevel ∧ 1 = after.nextLevel ∧ next after = .ok label last ∧
      label.level = 1 ∧ (1 = 0 + 1 ↔ (ItemValue.map (some 1)).HasMembers after.rest) := by
  intro before after label last
  have hnext : next before = .ok ⟨.map (some 1), 0, 1, []⟩ after := by with_unfolding_all rfl
  have hfollowing : next after = .ok label last := by with_unfolding_all rfl
  obtain ⟨hlevel, hforeseen, hstands, hopens, _⟩ := (lookahead_exact before).1 hnext
  exact ⟨by decide, hnext, hlevel, hforeseen, hfollowing, hstands hfollowing, hopens⟩

end Decoder

end Cose.Cbor
