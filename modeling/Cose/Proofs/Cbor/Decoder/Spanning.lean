import Mathlib.Tactic.Common
import Cose.Proofs.Cbor.Decoder.Retracing

/-!
# The nodes that a cursor has moved over

`Decoder.Spans` says that the bytes between two cursors are those of one well-formed node. Reading
an item and skipping its members moves a cursor over one node (`Reading.exists_delivers_of_skip`):
a cursor does not see the end of the node when it enters it, so what the open levels still take from
the bytes ahead is followed through the steps in between, from the last of them back to the first
(`closes_of_passes`).
-/

set_option autoImplicit false
set_option relaxedAutoImplicit false

namespace Cose.Cbor

open Node

/-! ### Nodes as items -/

namespace Node

/-- The value that a node is delivered as, without its members. -/
def itemValue : Node → ItemValue
  | mk _ token _ => token.value

/-- The tag numbers that a node is delivered with. -/
def tagNumbers : Node → List UInt64
  | mk tags _ _ => tags.map (·.number)

end Node

/-! ### Levels that are closed -/

/-- Whether the bytes ahead close some levels, innermost first, that are open inside a number of
others: the members that complete each of them come, with its end, and then the rest. -/
def Closes (depth : Nat) : List Level → (ahead rest : Bytes) → Prop
  | [], ahead, rest => ahead = rest
  | level :: inner, ahead, rest =>
    ∃ members after, AllWellFormed (depth + inner.length + 1) members ∧
      level.Ends members.length ∧ ahead = encodedAll members ++ (level.closing ++ after) ∧
      Closes depth inner after rest

namespace Decoder

variable {depth : Nat} {outer inner : List Level} {ahead rest more : Bytes} {position : Nat}

/-- A level whose members are complete is closed by its end alone. -/
theorem closes_cons_of_ends {level : Level} (hends : level.Ends 0)
    (hinner : Closes depth inner ahead rest) :
    Closes depth (level :: inner) (level.closing ++ ahead) rest :=
  ⟨[], ahead, trivial, hends, rfl, hinner⟩

/-- A level inside the least depth is either complete, and left with its end, or stays. -/
theorem leave_cons_cases {minDepth : Nat} {level : Level} (hinside : minDepth < outer.length + 1)
    {last : Decoder} (hleave : leave minDepth ahead position (level :: outer) = .ok () last) :
    (level.Ends 0 ∧ ∃ more, ahead = level.closing ++ more ∧
        openLevels (level :: outer) ahead = openLevels outer more ∧
        ∃ position, leave minDepth more position outer = .ok () last) ∨
      openLevels (level :: outer) ahead = outer.length + 1 ∧
        last = ⟨ahead, position, level :: outer⟩ := by
  have hdepth : ¬outer.length + 1 ≤ minDepth := Nat.not_le.2 hinside
  obtain ⟨count | _, isMap, seen⟩ := level
  · cases count with
    | zero =>
      simp only [leave, hdepth, if_false] at hleave
      exact .inl ⟨rfl, ahead, rfl, by simp [openLevels], position, hleave⟩
    | succ count =>
      simp only [leave, hdepth, if_false] at hleave
      cases hleave
      exact .inr ⟨by simp [openLevels], rfl⟩
  · cases ahead with
    | nil =>
      simp only [leave, hdepth, if_false] at hleave
      cases hleave
      exact .inr ⟨by simp [openLevels], rfl⟩
    | cons first more =>
      simp only [leave, hdepth, if_false] at hleave
      split at hleave
      next hbreak =>
        split at hleave
        · cases hleave
        next heven =>
          have hends : Level.Ends ⟨.untilBreak, isMap, seen⟩ 0 := by simpa [Level.Ends] using heven
          exact .inl ⟨hends, more, by rw [hbreak]; rfl, by simp [openLevels, hbreak], _, hleave⟩
      next hbreak =>
        cases hleave
        exact .inr ⟨by simp [openLevels, hbreak], rfl⟩

theorem pending_ne_of_openLevels {level : Level}
    (hopen : openLevels (level :: outer) ahead > outer.length) : level.pending ≠ .items 0 := by
  intro hpending
  simp only [openLevels, hpending] at hopen
  exact absurd (openLevels_le_length outer ahead) (Nat.not_le.2 hopen)

/-- A level that is complete, or at a break where it may end, can be left. -/
theorem exists_leave_of_done {level : Level} (hbreak : level.pending = .untilBreak → level.Ends 0)
    (hdone : openLevels (level :: outer) ahead ≤ outer.length) :
    level.Ends 0 ∧ ∃ rest last, ahead = level.closing ++ rest ∧
      leave outer.length ahead position (level :: outer) = .ok () ⟨rest, last, outer⟩ := by
  have hinside : ¬outer.length + 1 ≤ outer.length := Nat.not_succ_le_self _
  obtain ⟨count | _, isMap, seen⟩ := level
  · cases count with
    | zero => exact ⟨rfl, ahead, position, rfl, by simp [leave, leave_length]⟩
    | succ count => exact absurd hdone hinside
  · cases ahead with
    | nil => exact absurd hdone hinside
    | cons first rest =>
      by_cases hfirst : first = breakByte
      · have hends := hbreak rfl
        have heven : ¬(isMap = true ∧ seen % 2 = 1) := by simpa [Level.Ends] using hends
        refine ⟨hends, rest, position + 1, by rw [hfirst]; rfl, ?_⟩
        simp only [leave, hinside, hfirst, heven, if_true, if_false, leave_length]
      · exact absurd hdone (by simp [openLevels, hfirst])

/-- Levels that can be left at once are closed by what is left with them. -/
theorem closes_of_leave {last : Decoder}
    (hleave : leave outer.length ahead position (inner ++ outer) = .ok () last)
    (hdone : openLevels (inner ++ outer) ahead ≤ outer.length) :
    Closes outer.length inner ahead last.rest ∧ last.levels = outer := by
  induction inner generalizing ahead position with
  | nil =>
    rw [List.nil_append, leave_length] at hleave
    cases hleave
    exact ⟨rfl, rfl⟩
  | cons level inner ih =>
    have hinside : outer.length < (inner ++ outer).length + 1 := by
      rw [List.length_append]
      omega
    rcases leave_cons_cases hinside hleave with ⟨hends, more, rfl, hsame, _, hmore⟩ | ⟨hopen, _⟩
    · rw [List.cons_append, hsame] at hdone
      obtain ⟨hcloses, hlevels⟩ := ih hmore hdone
      exact ⟨closes_cons_of_ends hends hcloses, hlevels⟩
    · rw [List.cons_append, hopen] at hdone
      omega

/-- Where a member of an inner level comes next, leaving finished containers stops at an inner
level. -/
theorem exists_inner_of_leave {start : Decoder}
    (hleave : leave 0 ahead position (inner ++ outer) = .ok () start)
    (hopen : openLevels (inner ++ outer) ahead > outer.length) :
    ∃ level below, start.levels = level :: below ++ outer ∧
      ∀ rest, Closes outer.length (level :: below) start.rest rest →
        Closes outer.length inner ahead rest := by
  induction inner generalizing ahead position with
  | nil =>
    rw [List.nil_append] at hopen
    exact absurd (openLevels_le_length outer ahead) (Nat.not_le.2 hopen)
  | cons level inner ih =>
    rw [List.cons_append] at hleave hopen
    rcases leave_cons_cases (Nat.succ_pos _) hleave with ⟨hends, more, rfl, hsame, _, hmore⟩ |
      ⟨_, rfl⟩
    · rw [hsame] at hopen
      obtain ⟨first, below, hlevels, hcloses⟩ := ih hmore hopen
      exact ⟨first, below, hlevels, fun rest hrest ↦ closes_cons_of_ends hends (hcloses rest hrest)⟩
    · exact ⟨level, inner, rfl, fun _ hrest ↦ hrest⟩

/-- Behind a token the members that it holds come first. -/
theorem closes_enter {token : Token} (hcloses : Closes depth (token.enter inner) ahead rest) :
    ∃ members after, AllWellFormed (depth + inner.length + 1) members ∧
      token.Holds members.length ∧ ahead = encodedAll members ++ (token.closing ++ after) ∧
      Closes depth inner after rest := by
  cases token with
  | leaf atom => exact ⟨[], ahead, trivial, rfl, rfl, hcloses⟩
  | definite isMap count => exact hcloses
  | indefinite isMap =>
    obtain ⟨members, after, hmembers, hends, hahead, hinner⟩ := hcloses
    refine ⟨members, after, hmembers, fun hmap ↦ ?_, hahead, hinner⟩
    have heven : (0 + members.length) % 2 = 0 := hends hmap
    rwa [Nat.zero_add] at heven

/-- A level that asks for a member takes one more than it does once that member is counted. -/
theorem ends_succ_of_counted {level : Level} (hopen : level.pending ≠ .items 0) {members : Nat}
    (hends : (level.counted 1).Ends members) : level.Ends (members + 1) := by
  obtain ⟨count | _, isMap, seen⟩ := level
  · have hcount : count ≠ 0 := fun hzero ↦ hopen (by rw [hzero])
    have hmembers : members = count - 1 := hends
    change members + 1 = count
    omega
  · intro hmap
    have heven : (seen + 1 + members) % 2 = 0 := hends hmap
    change (seen + (members + 1)) % 2 = 0
    rwa [Nat.add_comm members, ← Nat.add_assoc]

/-- Tags and a token in front of what closes the levels behind them are the start of one more
member. -/
theorem closes_of_opening {level : Level} (hopen : level.pending ≠ .items 0)
    {tags : List Argument} (htags : tags.length ≤ maxTags) {token : Token}
    (hfits : token.Fits (depth + inner.length + 1))
    (hcloses : Closes depth (token.enter (level.counted 1 :: inner)) more rest) :
    Closes depth (level :: inner) (encodedTags tags ++ token.encoded ++ more) rest := by
  obtain ⟨below, after, hbelow, hholds, rfl, members, behind, hmembers, hends, rfl, hinner⟩ :=
    closes_enter hcloses
  refine ⟨.mk tags token below :: members, behind, ⟨⟨htags, hfits, hholds, hbelow⟩, hmembers⟩,
    ends_succ_of_counted hopen hends, ?_, hinner⟩
  simp [encodedAll, encoded, Level.closing_counted]

/-! ### Steps inside a container -/

/-- Whether a cursor comes of another by reading items above a nesting level. -/
inductive Passes (base : Nat) : Decoder → Decoder → Prop where
  | refl (decoder : Decoder) : Passes base decoder decoder
  | step {before middle after : Decoder} {item : Item} (hlevel : before.nextLevel > base)
      (hnext : next before = .ok item middle) (hothers : Passes base middle after) :
      Passes base before after

/-- Where a cursor has read items of inner levels until these could be left, the bytes it read
close these levels. -/
theorem closes_of_passes {before after last : Decoder} (hpasses : Passes outer.length before after)
    (hlevels : before.levels = inner ++ outer) (hdone : after.nextLevel ≤ outer.length)
    (hlast : ascendTo outer.length after = .ok () last) :
    Closes outer.length inner before.rest last.rest ∧ last.levels = outer := by
  induction hpasses generalizing inner with
  | refl decoder =>
    rw [nextLevel, hlevels] at hdone
    rw [ascendTo, hlevels] at hlast
    exact closes_of_leave hlast hdone
  | @step before middle after item hlevel hnext _ ih =>
    obtain ⟨start, tags, token, hstart, htags, hfits, hrest, _, hmiddle⟩ := opening_of_next hnext
    rw [nextLevel, hlevels] at hlevel
    have hleave := hstart
    rw [ascendTo, hlevels] at hleave
    obtain ⟨level, below, hstartLevels, hcloses⟩ := exists_inner_of_leave hleave hlevel
    have hopen := (demands_leave hstart []).2
    rw [hstartLevels] at hopen
    have henter : middle.levels = token.enter (level.counted 1 :: below) ++ outer := by
      rw [hmiddle, behind, hstartLevels, List.cons_append, countedLevels_cons]
      cases token <;> rfl
    obtain ⟨hmiddleCloses, hlast⟩ := ih henter hdone hlast
    have hdepth : start.depth = outer.length + below.length + 1 := by
      rw [depth, hstartLevels, List.length_append, List.length_cons]
      omega
    rw [hdepth] at hfits
    refine ⟨hcloses _ ?_, hlast⟩
    rw [hrest]
    exact closes_of_opening hopen.1 htags hfits hmiddleCloses

/-! ### Cursors that deliver the same -/

/-- Whether two cursors deliver the same items from where they stand: they may differ in the
finished containers that they have left already. -/
structure Agrees (first second : Decoder) : Prop where
  nextLevel_eq : first.nextLevel = second.nextLevel
  ascendTo_eq : ascendTo 0 first = ascendTo 0 second

namespace Agrees

variable {first second third : Decoder}

theorem refl (decoder : Decoder) : decoder.Agrees decoder := ⟨rfl, rfl⟩

theorem trans (hleft : first.Agrees second) (hright : second.Agrees third) : first.Agrees third :=
  ⟨hleft.nextLevel_eq.trans hright.nextLevel_eq, hleft.ascendTo_eq.trans hright.ascendTo_eq⟩

end Agrees

/-- Leaving finished containers changes nothing about what is delivered. -/
theorem agrees_of_ascendTo {minDepth : Nat} {decoder last : Decoder}
    (hlast : ascendTo minDepth decoder = .ok () last) : decoder.Agrees last := by
  obtain ⟨rest, position, levels⟩ := decoder
  change leave minDepth rest position levels = .ok () last at hlast
  suffices hsame : openLevels levels rest = openLevels last.levels last.rest ∧
      leave 0 rest position levels = leave 0 last.rest last.position last.levels from
    ⟨hsame.1, hsame.2⟩
  fun_induction leave minDepth rest position levels with
  | case3 position level outer _ rest hpending ih =>
    obtain ⟨hlevel, hleave⟩ := ih hlast
    exact ⟨by simpa [openLevels, hpending] using hlevel, by simpa [leave, hpending] using hleave⟩
  | case6 => cases hlast
  | case7 position level outer _ after hpending heven ih =>
    obtain ⟨hlevel, hleave⟩ := ih hlast
    exact ⟨by simpa [openLevels, hpending] using hlevel,
      by simpa [leave, hpending, heven] using hleave⟩
  | _ =>
    cases hlast
    exact ⟨rfl, rfl⟩

/-- Where a cursor can be finished, nothing is ahead and no container is open. -/
theorem of_finish_eq_ok {decoder last : Decoder} (hfinish : finish decoder = .ok () last) :
    ∃ start, ascendTo 0 decoder = .ok () start ∧ start.levels = [] ∧ start.rest = [] := by
  rw [finish, bind_eq_ok_iff] at hfinish
  obtain ⟨_, start, hstart, hfinish⟩ := hfinish
  rw [bind_eq_ok_iff] at hfinish
  obtain ⟨_, _, hget, hfinish⟩ := hfinish
  cases hget
  refine ⟨start, hstart, ?_⟩
  by_cases hdepth : start.depth > 0
  · simp only [hdepth, if_true] at hfinish
    cases hfinish
  · by_cases hrest : start.rest = []
    · exact ⟨List.length_eq_zero_iff.1 (Nat.eq_zero_of_not_pos hdepth), hrest⟩
    · simp only [hdepth, hrest, if_false, ne_eq, not_false_eq_true, if_true] at hfinish
      cases hfinish

/-! ### Nodes between cursors -/

/-- Whether the bytes from one cursor to another are those of a well-formed node, once the first
has left all finished containers. -/
def Spans (before : Decoder) (node : Node) (after : Decoder) : Prop :=
  ∃ start rest position, ascendTo 0 before = .ok () start ∧ node.WellFormed start.depth ∧
    start.rest = node.encoded ++ rest ∧ after.Agrees ⟨rest, position, countedLevels start.levels⟩

/-- Whether an item is what a node is delivered as, with a cursor behind the node. -/
structure Delivers (before : Decoder) (item : Item) (node : Node) (after : Decoder) : Prop where
  spans : before.Spans node after
  value_eq : item.value = node.itemValue
  tags_eq : item.tags = node.tagNumbers

/-- An input that a node spans to its end is the encoding of the node. -/
theorem Spans.eq_encoded {input : Bytes} {node : Node} {middle last : Decoder}
    (hspans : (ofBytes input).Spans node middle) (hfinish : finish middle = .ok () last) :
    node.WellFormed 0 ∧ input = node.encoded := by
  obtain ⟨start, rest, position, hstart, hnode, hrest, hmiddle⟩ := hspans
  cases hstart
  obtain ⟨reached, hreached, _, hnothing⟩ := of_finish_eq_ok hfinish
  rw [hmiddle.ascendTo_eq] at hreached
  cases hreached
  obtain rfl : rest = [] := hnothing
  rw [List.append_nil] at hrest
  exact ⟨hnode, hrest⟩

/-- An item and what is read until its level is left make up a node. -/
theorem exists_delivers_of_passes {before middle after last : Decoder} {item : Item}
    (hnext : next before = .ok item middle) (hpasses : Passes item.level middle after)
    (hdone : after.nextLevel ≤ item.level) (hlast : ascendTo item.level after = .ok () last) :
    ∃ node, before.Delivers item node last := by
  obtain ⟨start, tags, token, hstart, htags, hfits, hrest, hitem, hmiddle⟩ := opening_of_next hnext
  have hlevel : item.level = (countedLevels start.levels).length := by
    rw [hitem, length_countedLevels]
    rfl
  have henter : middle.levels = token.enter [] ++ countedLevels start.levels := by
    rw [hmiddle, behind]
    cases token <;> rfl
  rw [hlevel] at hpasses hdone hlast
  obtain ⟨hcloses, hlevels⟩ := closes_of_passes hpasses henter hdone hlast
  obtain ⟨members, rest, hmembers, hholds, hahead, rfl⟩ := closes_enter hcloses
  rw [length_countedLevels] at hmembers
  refine ⟨.mk tags token members, ⟨start, last.rest, last.position, hstart,
    ⟨htags, hfits, hholds, hmembers⟩, ?_, by rw [← hlevels]; exact .refl last⟩,
    by rw [hitem]; rfl, by rw [hitem]; rfl⟩
  rw [hrest, hahead, encoded]
  simp only [List.append_assoc]

/-- An item without members is a leaf with its tags. -/
theorem leaf_of_next {before after : Decoder} {item : Item}
    (hnext : next before = .ok item after) (hleaf : item.isContainer = false) :
    ∃ start tags atom, ascendTo 0 before = .ok () start ∧ tags.length ≤ maxTags ∧
      start.rest = (Node.mk tags (.leaf atom) []).encoded ++ after.rest ∧
      item.value = atom.value ∧ item.tags = tags.map (·.number) ∧
      after.levels = countedLevels start.levels := by
  obtain ⟨start, tags, token, hstart, htags, hfits, hrest, hitem, hafter⟩ := opening_of_next hnext
  have hvalue : item.value = token.value := by
    rw [hitem]
    rfl
  cases token with
  | leaf atom =>
    refine ⟨start, tags, atom, hstart, htags, ?_, hvalue, by rw [hitem]; rfl, by rw [hafter]; rfl⟩
    rw [hrest, encoded]
    simp [encodedAll, Token.closing]
  | definite isMap count =>
    rw [Item.isContainer, hvalue] at hleaf
    cases isMap <;> cases hleaf
  | indefinite isMap =>
    rw [Item.isContainer, hvalue] at hleaf
    cases isMap <;> cases hleaf

/-- An item without members makes up a node by itself. -/
theorem exists_delivers_of_leaf {before after : Decoder} {item : Item}
    (hnext : next before = .ok item after) (hleaf : item.isContainer = false) :
    ∃ node, before.Delivers item node after := by
  obtain ⟨start, tags, atom, hstart, htags, hrest, hvalue, hnumbers, hlevels⟩ :=
    leaf_of_next hnext hleaf
  refine ⟨.mk tags (.leaf atom) [], ⟨start, after.rest, after.position, hstart,
    ⟨htags, trivial, rfl, trivial⟩, hrest, ?_⟩, hvalue, hnumbers⟩
  rw [← hlevels]
  exact .refl after

/-- Where a node starts does not depend on containers that are not left yet. -/
theorem Spans.of_agrees {before other after : Decoder} {node : Node}
    (hspans : other.Spans node after) (hagrees : before.Agrees other) :
    before.Spans node after := by
  obtain ⟨start, rest, position, hstart, hspans⟩ := hspans
  exact ⟨start, rest, position, hagrees.ascendTo_eq.trans hstart, hspans⟩

/-- A cursor inside a level that does not end here has nothing to leave. -/
theorem eq_of_ascendTo_of_open {level : Level} {start : Decoder}
    (hstart : ascendTo 0 ⟨ahead, position, level :: outer⟩ = .ok () start)
    (hopen : ¬level.Ends 0 ∨ openLevels (level :: outer) ahead > outer.length) :
    start = ⟨ahead, position, level :: outer⟩ := by
  rcases leave_cons_cases (Nat.succ_pos _) hstart with ⟨hends, more, _, hsame, _⟩ | ⟨_, hstays⟩
  · rcases hopen with hopen | hopen
    · exact absurd hends hopen
    · rw [hsame] at hopen
      exact absurd (openLevels_le_length outer more) (Nat.not_le.2 hopen)
  · exact hstays

/-- Inside a level that does not end here, a node ahead is a member of the level, and behind it the
level has one more member counted. -/
theorem Spans.of_level {before after : Decoder} {node : Node} (hspans : before.Spans node after)
    {level : Level} (hagrees : before.Agrees ⟨ahead, position, level :: outer⟩)
    (hopen : ¬level.Ends 0 ∨ openLevels (level :: outer) ahead > outer.length) :
    node.WellFormed (outer.length + 1) ∧ ∃ rest position, ahead = node.encoded ++ rest ∧
      after.Agrees ⟨rest, position, level.counted 1 :: outer⟩ := by
  obtain ⟨start, rest, last, hstart, hnode, hrest, hafter⟩ := hspans
  rw [hagrees.ascendTo_eq] at hstart
  rw [eq_of_ascendTo_of_open hstart hopen] at hnode hrest hafter
  rw [countedLevels_cons] at hafter
  exact ⟨hnode, rest, last, hrest, hafter⟩

end Decoder

namespace Reading

open Decoder

variable {ε β : Type} [CursorError ε]

/-- A loop whose visits read nothing moves a cursor over items above its level. -/
theorem passes_of_runBelow {base : Nat} {visit : β → Item → Reading ε β} {initial result : β}
    {before after : Decoder}
    (hvisit : ∀ {state visited : β} {item : Item} {middle last : Decoder},
      (visit state item).run middle = .ok visited last → middle = last)
    (hrun : runBelow base visit initial before = .ok result after) :
    Passes base before after ∧ after.nextLevel ≤ base := by
  fun_induction runBelow base visit initial before with
  | case1 => cases hrun
  | case2 => cases hrun
  | case3 state decoder hlevel item middle hnext visited between hrunVisit ih =>
    obtain rfl := hvisit hrunVisit
    obtain ⟨hpasses, hdone⟩ := ih hrun
    exact ⟨.step hlevel hnext hpasses, hdone⟩
  | case4 state decoder hlevel =>
    cases hrun
    exact ⟨.refl _, Nat.not_lt.1 hlevel⟩

/-- Reading an item and skipping its members moves a cursor over a node. -/
theorem exists_delivers_of_skip {before middle after : Decoder} {item : Item}
    (hnext : Decoder.next before = .ok item middle)
    (hskip : (skip item : Reading ε Unit).run middle = .ok () after) :
    ∃ node, before.Delivers item node after := by
  obtain ⟨_, between, hloop, hascend⟩ := of_run_bind hskip
  obtain ⟨hpasses, hdone⟩ := passes_of_runBelow (fun hvisit ↦ (of_run_pure hvisit).2) hloop
  exact exists_delivers_of_passes hnext hpasses hdone (of_run_ofCursor hascend)

end Reading

end Cose.Cbor
