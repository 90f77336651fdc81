import Mathlib.Tactic.Common
import Cose.Proofs.Cbor.Decoder.Opening

/-!
# The encodings that a cursor accepts

`Decoder.drain` asks a cursor for items until it fails. A cursor accepts an encoding if the failure
is that nothing is left. `drain_eq_noMoreItems_iff` says that the accepted encodings are those of
well-formed nodes one after the other, and that the items are the traversal of the nodes, each
linked to the level of the next.

The invariant is `Demands`: what the open levels still require of the bytes ahead, level by level.
Leaving finished containers does not change it (`demands_leave`), a cursor that has left them
stands before a node or at the end (`demands_cons_iff`), and one step of the cursor takes the
first visit off it (`demands_next`).
-/

set_option autoImplicit false
set_option relaxedAutoImplicit false

namespace Cose.Cbor

open Node

/-! ### What open levels demand -/

/-- Whether a level ends behind a number of further members. -/
def Level.Ends (level : Level) (members : Nat) : Prop :=
  match level.pending with
  | .items count => members = count
  | .untilBreak => level.isMap = true → (level.seen + members) % 2 = 0

/-- The bytes that end a level. -/
def Level.closing (level : Level) : Bytes :=
  match level.pending with
  | .items _ => []
  | .untilBreak => [breakByte]

/-- What the open levels, innermost first, still require of the bytes ahead: the members that
complete each level with its end, and whole nodes at the top. The visits are what is delivered on
the way. -/
def Demands : List Level → Bytes → List Visit → Prop
  | [], rest, visits =>
    ∃ nodes, AllWellFormed 0 nodes ∧ rest = encodedAll nodes ∧ visits = visitsAll 0 nodes
  | level :: outer, rest, visits =>
    ∃ members after others, AllWellFormed (outer.length + 1) members ∧
      level.Ends members.length ∧ rest = encodedAll members ++ level.closing ++ after ∧
      visits = visitsAll (outer.length + 1) members ++ others ∧ Demands outer after others

theorem demands_items_zero {level : Level} (hpending : level.pending = .items 0)
    {outer : List Level} {rest : Bytes} {visits : List Visit} :
    Demands (level :: outer) rest visits ↔ Demands outer rest visits := by
  simp only [Demands, Level.Ends, Level.closing, hpending, List.length_eq_zero_iff]
  constructor
  · rintro ⟨members, after, others, _, rfl, rfl, rfl, hdemands⟩
    exact hdemands
  · exact fun hdemands ↦ ⟨[], rest, visits, trivial, rfl, rfl, rfl, hdemands⟩

theorem demands_break {level : Level} (hpending : level.pending = .untilBreak)
    {outer : List Level} {after : Bytes} {visits : List Visit} :
    Demands (level :: outer) (breakByte :: after) visits ↔
      ¬(level.isMap = true ∧ level.seen % 2 = 1) ∧ Demands outer after visits := by
  have hends : level.Ends 0 ↔ ¬(level.isMap = true ∧ level.seen % 2 = 1) := by
    simp [Level.Ends, hpending]
  simp only [Demands, Level.closing, hpending]
  constructor
  · rintro ⟨members, behind, others, _, hmembers, hrest, rfl, hdemands⟩
    cases members with
    | nil =>
      cases hrest
      exact ⟨hends.1 hmembers, hdemands⟩
    | cons node members =>
      obtain ⟨first, more, hencoded, hfirst⟩ := node.exists_cons_encoded
      simp only [encodedAll, hencoded, List.cons_append, List.cons.injEq] at hrest
      exact absurd hrest.1.symm hfirst
  · rintro ⟨heven, hdemands⟩
    exact ⟨[], after, visits, trivial, hends.2 heven, rfl, rfl, hdemands⟩

/-! ### Leaving finished containers -/

/-- Whether the innermost level has members to come, as far as the first byte ahead tells. -/
def InnermostOpen : List Level → Bytes → Prop
  | [], _ => True
  | level :: _, rest =>
    level.pending ≠ .items 0 ∧ (level.pending = .untilBreak → rest.head? ≠ some breakByte)

/-- Leaving all finished containers leaves the demands as they were. -/
theorem demands_leave {rest : Bytes} {position : Nat} {levels : List Level} {start : Decoder}
    (hleave : Decoder.leave 0 rest position levels = .ok () start) (visits : List Visit) :
    (Demands levels rest visits ↔ Demands start.levels start.rest visits) ∧
      InnermostOpen start.levels start.rest := by
  fun_induction Decoder.leave 0 rest position levels with
  | case1 =>
    cases hleave
    exact ⟨Iff.rfl, trivial⟩
  | case2 => omega
  | case3 _ level _ _ _ hpending ih =>
    rw [demands_items_zero hpending]
    exact ih hleave
  | case4 _ _ level _ _ count hpending =>
    cases hleave
    exact ⟨Iff.rfl, by simp [hpending], by simp [hpending]⟩
  | case5 _ level _ _ hpending =>
    cases hleave
    exact ⟨Iff.rfl, by simp [hpending], by simp⟩
  | case6 => simp at hleave
  | case7 _ level _ _ after hpending heven ih =>
    rw [demands_break hpending, and_iff_right heven]
    exact ih hleave
  | case8 _ level _ _ first after hpending hfirst =>
    cases hleave
    exact ⟨Iff.rfl, by simp [hpending], by simp [hfirst]⟩

/-- Where finished containers cannot be left, nothing meets the demands. -/
theorem not_demands_of_leave_error {rest : Bytes} {position : Nat} {levels : List Level}
    {cause : DecodeError} {after : Decoder}
    (hleave : Decoder.leave 0 rest position levels = .error cause after) (visits : List Visit) :
    ¬Demands levels rest visits ∧ cause = .notWellFormed := by
  fun_induction Decoder.leave 0 rest position levels with
  | case3 _ level _ _ _ hpending ih =>
    rw [demands_items_zero hpending]
    exact ih hleave
  | case6 _ level _ _ after hpending hodd =>
    cases hleave
    rw [demands_break hpending]
    exact ⟨fun hdemands ↦ hdemands.1 hodd, rfl⟩
  | case7 _ level _ _ after hpending _ ih =>
    rw [demands_break hpending]
    exact ⟨fun hdemands ↦ (ih hleave).1 hdemands.2, (ih hleave).2⟩
  | _ => simp at hleave

/-! ### The first node ahead -/

/-- Where the innermost level has members to come, the bytes ahead start with the first of them. -/
theorem demands_cons_iff {levels : List Level} {rest : Bytes} (hopen : InnermostOpen levels rest)
    (visits : List Visit) :
    Demands levels rest visits ↔ (levels = [] ∧ rest = [] ∧ visits = []) ∨
      ∃ (node : Node) (after : Bytes) (others : List Visit),
        node.WellFormed levels.length ∧ rest = node.encoded ++ after ∧
        visits = node.visits levels.length ++ others ∧
        Demands (Decoder.countedLevels levels) after others := by
  cases levels with
  | nil =>
    constructor
    · rintro ⟨nodes, hnodes, rfl, rfl⟩
      cases nodes with
      | nil => exact .inl ⟨rfl, rfl, rfl⟩
      | cons node nodes =>
        exact .inr ⟨node, encodedAll nodes, visitsAll 0 nodes, hnodes.1, rfl, rfl, nodes,
          hnodes.2, rfl, rfl⟩
    · rintro (⟨-, rfl, rfl⟩ | ⟨node, _, _, hnode, rfl, rfl, nodes, hnodes, rfl, rfl⟩)
      · exact ⟨[], trivial, rfl, rfl⟩
      · exact ⟨node :: nodes, ⟨hnode, hnodes⟩, rfl, rfl⟩
  | cons level outer =>
    obtain ⟨hzero, hbreak⟩ := hopen
    have hcount (members : Nat) : level.Ends (members + 1) ↔
        Level.Ends { level with pending := level.pending.pred, seen := level.seen + 1 }
          members := by
      unfold Level.Ends
      cases hpending : level.pending with
      | items count =>
        have hcount : count ≠ 0 := fun hcount ↦ hzero (hcount ▸ hpending)
        simp only [Pending.pred]
        omega
      | untilBreak => simp only [Pending.pred, Nat.add_assoc, Nat.add_comm 1]
    have hclosing : Level.closing
        { level with pending := level.pending.pred, seen := level.seen + 1 } = level.closing := by
      unfold Level.closing
      cases level.pending <;> rfl
    have hmore : ¬level.Ends 0 ∨ level.closing ++ ([] : Bytes) = [breakByte] := by
      unfold Level.Ends Level.closing
      cases hpending : level.pending with
      | items count => exact .inl fun hcount ↦ hzero (hcount ▸ hpending)
      | untilBreak => exact .inr rfl
    constructor
    · rintro ⟨members, after, others, hmembers, hends, rfl, rfl, hdemands⟩
      cases members with
      | nil =>
        rcases hmore with hends' | hclose
        · exact absurd hends hends'
        · rw [List.append_nil] at hclose
          have hpending : level.pending = .untilBreak := by
            unfold Level.closing at hclose
            split at hclose
            · simp at hclose
            next hpending => exact hpending
          exact absurd (by rw [hclose]; rfl) (hbreak hpending)
      | cons node members =>
        refine .inr ⟨node, encodedAll members ++ level.closing ++ after,
          visitsAll (outer.length + 1) members ++ others, hmembers.1, ?_, ?_,
          members, after, others, hmembers.2, (hcount _).1 hends, by rw [hclosing], rfl, hdemands⟩
        · simp [encodedAll]
        · simp [visitsAll]
    · rintro (⟨hnil, _⟩ | ⟨node, _, _, hnode, rfl, rfl, members, after, others, hmembers, hends,
        rfl, rfl, hdemands⟩)
      · cases hnil
      · refine ⟨node :: members, after, others, ⟨hnode, hmembers⟩, (hcount _).2 hends, ?_, ?_,
          hdemands⟩
        · simp [encodedAll, hclosing]
        · simp [visitsAll]

/-- Behind a token the members it holds are demanded, with its end, before anything else. -/
theorem demands_enter {token : Token} {levels : List Level} {rest : Bytes} {visits : List Visit} :
    Demands (token.enter levels) rest visits ↔
      ∃ members after others, AllWellFormed (levels.length + 1) members ∧
        token.Holds members.length ∧ rest = encodedAll members ++ token.closing ++ after ∧
        visits = visitsAll (levels.length + 1) members ++ others ∧
        Demands levels after others := by
  cases token with
  | leaf atom =>
    simp only [Token.enter, Token.Holds, Token.closing, List.length_eq_zero_iff]
    constructor
    · exact fun hdemands ↦ ⟨[], rest, visits, trivial, rfl, rfl, rfl, hdemands⟩
    · rintro ⟨members, after, others, _, rfl, rfl, rfl, hdemands⟩
      exact hdemands
  | definite isMap count => exact Iff.rfl
  | indefinite isMap =>
    simp only [Token.enter, Demands, Level.Ends, Level.closing, Token.Holds, Token.closing,
      Nat.zero_add]

/-- The first node ahead is tags and a token, and then what the token demands. -/
theorem demands_opening_iff {levels : List Level} {rest : Bytes} (hopen : InnermostOpen levels rest)
    (visits : List Visit) :
    Demands levels rest visits ↔ (levels = [] ∧ rest = [] ∧ visits = []) ∨
      ∃ (tags : List Argument) (token : Token) (more : Bytes) (others : List Visit),
        tags.length ≤ maxTags ∧ token.Fits levels.length ∧
        rest = encodedTags tags ++ token.encoded ++ more ∧
        visits = ⟨token.value, levels.length, tags.map (·.number)⟩ :: others ∧
        Demands (token.enter (Decoder.countedLevels levels)) more others := by
  rw [demands_cons_iff hopen]
  refine or_congr_right ⟨?_, ?_⟩
  · rintro ⟨⟨tags, token, members⟩, after, others, hnode, rfl, rfl, hdemands⟩
    obtain ⟨htags, hfits, hholds, hmembers⟩ := hnode
    refine ⟨tags, token, encodedAll members ++ token.closing ++ after,
      visitsAll (levels.length + 1) members ++ others, htags, hfits, ?_, ?_,
      demands_enter.2 ⟨members, after, others, ?_, hholds, rfl, ?_, hdemands⟩⟩
    · simp [encoded]
    · simp [visits]
    · rwa [Decoder.length_countedLevels]
    · rw [Decoder.length_countedLevels]
  · rintro ⟨tags, token, more, others, htags, hfits, rfl, rfl, hdemands⟩
    obtain ⟨members, after, others, hmembers, hholds, rfl, rfl, houter⟩ := demands_enter.1 hdemands
    rw [Decoder.length_countedLevels] at hmembers ⊢
    refine ⟨⟨tags, token, members⟩, after, others, ⟨htags, hfits, hholds, hmembers⟩, ?_, ?_,
      houter⟩
    · simp [encoded]
    · simp [visits]

/-- The level that a cursor foresees is that of the next visit. -/
theorem openLevels_of_demands {levels : List Level} {rest : Bytes} {visits : List Visit}
    (hdemands : Demands levels rest visits) :
    Decoder.openLevels levels rest = headLevel visits := by
  induction levels generalizing rest visits with
  | nil =>
    obtain ⟨nodes, _, rfl, rfl⟩ := hdemands
    cases nodes with
    | nil => rfl
    | cons node nodes =>
      obtain ⟨tags, token, members⟩ := node
      simp [Decoder.openLevels, visitsAll, Node.visits, headLevel]
  | cons level outer ih =>
    obtain ⟨members, after, others, hmembers, hends, rfl, rfl, houter⟩ := hdemands
    cases members with
    | nil =>
      unfold Level.Ends at hends
      cases hpending : level.pending with
      | items count =>
        rw [hpending] at hends
        cases hends
        simpa [Decoder.openLevels, hpending, Level.closing, encodedAll, visitsAll] using ih houter
      | untilBreak =>
        simpa [Decoder.openLevels, hpending, Level.closing, encodedAll, visitsAll] using ih houter
    | cons node members =>
      obtain ⟨first, more, hencoded, hfirst⟩ := node.exists_cons_encoded
      have hlevel : headLevel (visitsAll (outer.length + 1) (node :: members) ++ others) =
          outer.length + 1 := by
        obtain ⟨tags, token, below⟩ := node
        simp [visitsAll, Node.visits, headLevel]
      rw [hlevel]
      unfold Level.Ends at hends
      cases hpending : level.pending with
      | items count =>
        rw [hpending] at hends
        cases hends
        simp [Decoder.openLevels, hpending]
      | untilBreak => simp [Decoder.openLevels, hpending, encodedAll, hencoded, hfirst]

/-! ### Running out of items -/

namespace Decoder

/-- An operation that never reports that nothing is left. -/
def NeverExhausted {α : Type} (operation : Cursor α) : Prop :=
  ∀ decoder after, operation decoder ≠ .error .noMoreItems after

namespace NeverExhausted

variable {α β : Type}

theorem pure (result : α) : NeverExhausted (Pure.pure result) := fun _ _ hrun ↦ by cases hrun

theorem throw {cause : DecodeError} (hcause : cause ≠ .noMoreItems) :
    NeverExhausted (throwThe DecodeError cause : Cursor α) := by
  intro decoder after hrun
  cases hrun
  exact hcause rfl

theorem bind {operation : Cursor α} {following : α → Cursor β}
    (hoperation : NeverExhausted operation)
    (hfollowing : ∀ result, NeverExhausted (following result)) :
    NeverExhausted (operation >>= following) := by
  intro decoder after hrun
  change EStateM.bind operation following decoder = _ at hrun
  unfold EStateM.bind at hrun
  split at hrun
  next result middle _ => exact hfollowing result middle after hrun
  next cause middle hfirst =>
    cases hrun
    exact hoperation decoder _ hfirst

end NeverExhausted

theorem neverExhausted_head : NeverExhausted head := by
  intro decoder after hrun
  unfold head at hrun
  split at hrun
  next cause hread =>
    cases hrun
    unfold Head.read at hread
    split at hread
    · simp at hread
    · dsimp only at hread
      split at hread
      · split at hread
        · simp at hread
        · split at hread <;> simp at hread
      · split at hread
        · split at hread <;> simp at hread
        · simp at hread
  next => simp at hrun

theorem compositional_neverExhausted :
    Compositional fun operation ↦ NeverExhausted operation :=
  ⟨.pure, .throw, .bind⟩

theorem neverExhausted_taggedHead (allowed : Nat) : NeverExhausted (taggedHead allowed) :=
  compositional_neverExhausted.taggedHead neverExhausted_head allowed

theorem neverExhausted_take (count : Nat) : NeverExhausted (take count) := by
  intro decoder after hrun
  unfold take at hrun
  split at hrun <;> simp at hrun

theorem neverExhausted_enter (count? : Option UInt64) (isMap : Bool) :
    NeverExhausted (enter count? isMap) := by
  intro decoder after hrun
  unfold enter at hrun
  split at hrun
  · simp at hrun
  · split at hrun
    · simp at hrun
    · split at hrun <;> simp at hrun

theorem neverExhausted_value (head : Head) : NeverExhausted (value head) :=
  compositional_neverExhausted.value neverExhausted_take neverExhausted_enter head

/-- A cursor that reports that nothing is left stands at the end, outside of every container. -/
theorem of_next_eq_noMoreItems {decoder after : Decoder}
    (hrun : next decoder = .error .noMoreItems after) :
    ∃ start, ascendTo 0 decoder = .ok () start ∧ start.levels = [] ∧ start.rest = [] := by
  cases hstart : ascendTo 0 decoder with
  | error cause reached =>
    have hcause := (not_demands_of_leave_error hstart []).2
    rw [next] at hrun
    change EStateM.bind _ _ decoder = _ at hrun
    unfold EStateM.bind at hrun
    rw [hstart] at hrun
    cases hrun
    cases hcause
  | ok _ start =>
    refine ⟨start, rfl, ?_⟩
    by_cases hend : start.depth = 0 ∧ start.rest = []
    · exact ⟨List.length_eq_zero_iff.1 hend.1, hend.2⟩
    · have hcount : NeverExhausted (modify countMember) := fun _ _ hmodify ↦ by cases hmodify
      have hget : NeverExhausted get := fun _ _ hget ↦ by cases hget
      have hremaining := (NeverExhausted.bind (neverExhausted_taggedHead maxTags) fun last ↦
        .bind hcount fun _ ↦ .bind (neverExhausted_value last.2) fun value ↦
          .bind hget fun reached : Decoder ↦
            .pure (Item.mk value start.depth reached.nextLevel last.1)) start after
      refine absurd ?_ hremaining
      rw [next] at hrun
      change EStateM.bind _ _ decoder = _ at hrun
      unfold EStateM.bind at hrun
      rw [hstart] at hrun
      change (if start.depth = 0 ∧ start.rest = [] then _ else _ : Cursor Item) start = _ at hrun
      rw [if_neg hend] at hrun
      exact hrun

/-! ### Runs to the end -/

/-- The items that a cursor delivers until it fails, and the failure. -/
def drain (decoder : Decoder) : List Item × DecodeError :=
  match _hnext : next decoder with
  | .error cause _ => ([], cause)
  | .ok item after =>
    let (items, cause) := drain after
    (item :: items, cause)
termination_by decoder.rest.length
decreasing_by exact length_of_next _hnext

/-- One step takes the first visit off the demands. -/
theorem demands_next {decoder after : Decoder} {item : Item} (hrun : next decoder = .ok item after)
    (visits : List Visit) :
    Demands decoder.levels decoder.rest visits ↔
      ∃ others, visits = ⟨item.value, item.level, item.tags⟩ :: others ∧
        Demands after.levels after.rest others := by
  obtain ⟨start, tags, token, hstart, htags, hfits, hrest, hitem, hafter⟩ := opening_of_next hrun
  obtain ⟨hsame, hopen⟩ := demands_leave hstart visits
  rw [hsame, demands_opening_iff hopen]
  constructor
  · rintro (⟨_, hend, _⟩ | ⟨tags, token, more, others, htags, hfits, hmore, rfl, hdemands⟩)
    · obtain ⟨first, rest, hopening, _⟩ := exists_cons_opening tags token
      rw [hend, hopening] at hrest
      cases hrest
    · rw [next_of_opening hstart htags hfits hmore] at hrun
      cases hrun
      exact ⟨others, rfl, hdemands⟩
  · rintro ⟨others, rfl, hdemands⟩
    refine .inr ⟨tags, token, after.rest, others, htags, hfits, hrest, ?_, ?_⟩
    · rw [hitem]
      rfl
    · rw [hafter] at hdemands
      exact hdemands

/-- Where a step fails, the demands are met only if nothing is left. -/
theorem demands_of_next_error {decoder after : Decoder} {cause : DecodeError}
    (hrun : next decoder = .error cause after) (visits : List Visit) :
    Demands decoder.levels decoder.rest visits ↔ cause = .noMoreItems ∧ visits = [] := by
  constructor
  · intro hdemands
    cases hstart : ascendTo 0 decoder with
    | error cause reached => exact absurd hdemands (not_demands_of_leave_error hstart visits).1
    | ok _ start =>
      obtain ⟨hsame, hopen⟩ := demands_leave hstart visits
      rw [hsame, demands_opening_iff hopen] at hdemands
      rcases hdemands with ⟨hlevels, hrest, rfl⟩ |
        ⟨tags, token, more, others, htags, hfits, hmore, rfl, hdemands⟩
      · have hend : start.depth = 0 ∧ start.rest = [] := ⟨by rw [depth, hlevels]; rfl, hrest⟩
        rw [next] at hrun
        change EStateM.bind _ _ decoder = _ at hrun
        unfold EStateM.bind at hrun
        rw [hstart] at hrun
        change (if start.depth = 0 ∧ start.rest = [] then _ else _ : Cursor Item) start = _ at hrun
        rw [if_pos hend] at hrun
        cases hrun
        exact ⟨rfl, rfl⟩
      · rw [next_of_opening hstart htags hfits hmore] at hrun
        cases hrun
  · rintro ⟨rfl, rfl⟩
    obtain ⟨start, hstart, hlevels, hrest⟩ := of_next_eq_noMoreItems hrun
    rw [(demands_leave hstart []).1, hlevels, hrest]
    exact ⟨[], trivial, rfl, rfl⟩

/-- A cursor is drained without another failure than that nothing is left exactly if the bytes
ahead meet the demands of its levels. -/
theorem drain_eq_iff_demands (decoder : Decoder) (items : List Item) :
    decoder.drain = (items, .noMoreItems) ↔
      ∃ visits, Demands decoder.levels decoder.rest visits ∧ items = link visits := by
  -- On the steps of the cursor and not on the nodes, which are only found on the way.
  fun_induction drain decoder generalizing items with
  | case1 decoder cause after hnext =>
    simp only [demands_of_next_error hnext, Prod.mk.injEq]
    constructor
    · rintro ⟨rfl, rfl⟩
      exact ⟨[], ⟨rfl, rfl⟩, rfl⟩
    · rintro ⟨visits, ⟨rfl, rfl⟩, rfl⟩
      exact ⟨rfl, rfl⟩
  | case2 decoder item after hnext others cause hdrain ih =>
    have hforeseen : item.nextLevel = after.nextLevel := by
      obtain ⟨start, tags, token, _, _, _, _, hitem, hafter⟩ := opening_of_next hnext
      rw [hitem, hafter]
      rfl
    simp only [demands_next hnext, Prod.mk.injEq]
    rw [hdrain] at ih
    simp only [Prod.mk.injEq] at ih
    constructor
    · rintro ⟨rfl, rfl⟩
      obtain ⟨visits, hdemands, rfl⟩ := (ih others).1 ⟨rfl, rfl⟩
      refine ⟨_, ⟨visits, rfl, hdemands⟩, ?_⟩
      rw [link, ← openLevels_of_demands hdemands]
      exact congrArg (· :: link visits) (by rw [show openLevels _ _ = _ from hforeseen.symm])
    · rintro ⟨_, ⟨visits, rfl, hdemands⟩, rfl⟩
      obtain ⟨rfl, rfl⟩ := (ih (link visits)).2 ⟨visits, hdemands, rfl⟩
      refine ⟨?_, rfl⟩
      rw [link, ← openLevels_of_demands hdemands]
      exact congrArg (· :: link visits) (by rw [show openLevels _ _ = _ from hforeseen.symm])

/-- The encodings that are read to their end are those of well-formed nodes one after the other,
and what is delivered is the traversal of these nodes. -/
theorem drain_eq_noMoreItems_iff (bytes : Bytes) (items : List Item) :
    (ofBytes bytes).drain = (items, .noMoreItems) ↔
      ∃ nodes : List Node, (∀ node ∈ nodes, node.WellFormed 0) ∧ bytes = encodedAll nodes ∧
        items = link (visitsAll 0 nodes) := by
  rw [drain_eq_iff_demands]
  constructor
  · rintro ⟨visits, ⟨nodes, hnodes, hbytes, rfl⟩, rfl⟩
    exact ⟨nodes, allWellFormed_iff.1 hnodes, hbytes, rfl⟩
  · rintro ⟨nodes, hnodes, hbytes, rfl⟩
    exact ⟨visitsAll 0 nodes, ⟨nodes, allWellFormed_iff.2 hnodes, hbytes, rfl⟩, rfl⟩

end Decoder

end Cose.Cbor
