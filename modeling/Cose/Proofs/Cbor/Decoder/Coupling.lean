import Mathlib.Data.List.Forall2
import Cose.Proofs.Cbor.Decoder.Spanning
import Cose.Proofs.Cbor.Decoder.Whole

/-!
# Two runs side by side

Two runs on different inputs are alike if they fail for the same reason, or succeed with results and
cursors in some relation (`RunAlike`). Runs in sequence are alike if their parts are
(`RunAlike.bind`). Two loops over the members of two containers are alike if each visit on the one
side is alike to the visit on the other, for members that correspond (`Reading.runAlike_runBelow`).
-/

set_option autoImplicit false
set_option relaxedAutoImplicit false

namespace Cose.Cbor

open Node

/-! ### Runs that are alike -/

/-- Whether two runs fail for the same reason, or succeed with results and cursors in a given
relation. -/
inductive RunAlike {ε α β : Type} (related : α → Decoder → β → Decoder → Prop) :
    EStateM.Result ε Decoder α → EStateM.Result ε Decoder β → Prop where
  | ok {result : α} {other : β} {after last : Decoder}
      (hrelated : related result after other last) :
      RunAlike related (.ok result after) (.ok other last)
  | error (cause : ε) (after last : Decoder) :
      RunAlike related (.error cause after) (.error cause last)

/-- The same result, with cursors in a given relation. -/
def SameResult {α : Type} (behind : Decoder → Decoder → Prop) :
    α → Decoder → α → Decoder → Prop := fun result after other last ↦
  result = other ∧ behind after last

namespace RunAlike

variable {ε α β : Type} {first second : Decoder}

/-- The ends of two runs that are alike. -/
theorem ends {related : α → Decoder → β → Decoder → Prop} {run : EStateM.Result ε Decoder α}
    {other : EStateM.Result ε Decoder β} (halike : RunAlike related run other) :
    (∃ result after counterpart last, run = .ok result after ∧ other = .ok counterpart last ∧
      related result after counterpart last) ∨
      ∃ cause after last, run = .error cause after ∧ other = .error cause last := by
  cases halike with
  | ok hrelated => exact .inl ⟨_, _, _, _, rfl, rfl, hrelated⟩
  | error cause after last => exact .inr ⟨cause, after, last, rfl, rfl⟩

theorem bind {α' β' : Type} {related : α → Decoder → β → Decoder → Prop}
    {final : α' → Decoder → β' → Decoder → Prop} {reading : Reading ε α} {other : Reading ε β}
    {following : α → Reading ε α'} {others : β → Reading ε β'}
    (hreading : RunAlike related (reading.run first) (other.run second))
    (hfollowing : ∀ result after counterpart last, related result after counterpart last →
      RunAlike final ((following result).run after) ((others counterpart).run last)) :
    RunAlike final ((reading >>= following).run first) ((other >>= others).run second) := by
  rcases hreading.ends with ⟨result, after, counterpart, last, hrun, hother, hrelated⟩ |
    ⟨cause, after, last, hrun, hother⟩
  · rw [Reading.run_bind_ok hrun, Reading.run_bind_ok hother]
    exact hfollowing _ _ _ _ hrelated
  · rw [Reading.run_bind_error hrun, Reading.run_bind_error hother]
    exact .error cause after last

theorem imp {related other : α → Decoder → β → Decoder → Prop}
    {run : EStateM.Result ε Decoder α} {counterpart : EStateM.Result ε Decoder β}
    (halike : RunAlike related run counterpart)
    (himplies : ∀ result after found last, related result after found last →
      other result after found last) : RunAlike other run counterpart := by
  cases halike with
  | ok hrelated => exact .ok (himplies _ _ _ _ hrelated)
  | error cause after last => exact .error cause after last

/-- What does not look at the cursor has the same result on both sides. -/
theorem ofExcept (behind : Decoder → Decoder → Prop) (result : Except ε α)
    (hbehind : behind first second) : RunAlike (SameResult behind)
      ((Reading.ofExcept result).run first) ((Reading.ofExcept result).run second) := by
  cases result with
  | ok => exact .ok ⟨rfl, hbehind⟩
  | error cause => exact .error cause first second

/-- Runs on other inputs are alike from where the cursors stand. -/
theorem within (behind : Decoder → Decoder → Prop) {reading other : Reading ε α}
    {input counterpart : Bytes} {inside : Decoder → Decoder → Prop}
    (hinside : RunAlike (SameResult inside) (reading.run (.ofBytes input))
      (other.run (.ofBytes counterpart))) (hbehind : behind first second) :
    RunAlike (SameResult behind) ((Reading.within input reading).run first)
      ((Reading.within counterpart other).run second) := by
  rcases hinside.ends with ⟨result, after, _, last, hrun, hother, rfl, _⟩ |
    ⟨cause, after, last, hrun, hother⟩
  · rw [Reading.run_within hrun, Reading.run_within hother]
    exact .ok ⟨rfl, hbehind⟩
  · simp only [Reading.within, hrun, hother]
    exact .error cause first second

end RunAlike

/-! ### The item of a node -/

/-- The members of a node. -/
def Node.members : Node → List Node
  | mk _ _ members => members

namespace Decoder

variable {decoder : Decoder} {outer : List Level} {node : Node} {nodes : List Node} {rest : Bytes}

theorem value_itemOf (start : Decoder) (node : Node) (rest : Bytes) :
    (start.itemOf node rest).value = node.itemValue := by
  cases node
  rfl

theorem tags_itemOf (start : Decoder) (node : Node) (rest : Bytes) :
    (start.itemOf node rest).tags = node.tagNumbers := by
  cases node
  rfl

theorem level_itemOf (start : Decoder) (node : Node) (rest : Bytes) :
    (start.itemOf node rest).level = (countedLevels start.levels).length := by
  cases node
  exact (length_countedLevels start.levels).symm

/-- A node ahead comes as the next item. -/
theorem Spans.exists_next {before after : Decoder} (hspans : before.Spans node after) :
    ∃ (start : Decoder) (more : Bytes) (position : Nat), node.WellFormed start.depth ∧
      next before = .ok (start.itemOf node more) (start.inside node more) ∧
      after.Agrees ⟨more, position, countedLevels start.levels⟩ := by
  obtain ⟨start, more, position, hstart, hnode, hrest, hafter⟩ := hspans
  refine ⟨start, more, position, hnode, ?_, hafter⟩
  obtain ⟨tags, token, members⟩ := node
  obtain ⟨htags, hfits, _, _⟩ := hnode
  refine next_of_opening hstart htags hfits ?_
  rw [hrest, encoded]
  simp only [List.append_assoc]

theorem Reaches.exists_agrees {levels : List Level} (hreaches : decoder.Reaches rest levels) :
    ∃ position, decoder.Agrees ⟨rest, position, levels⟩ := by
  obtain ⟨position, hsettles⟩ := hreaches
  exact ⟨position, hsettles.nextLevel_eq, hsettles.ascendTo_eq 0 (Nat.zero_le _)⟩

/-- The first member that a cursor faces comes as the next item, and whoever has read it faces the
others. -/
theorem Faces.next_node (hfaces : decoder.Faces outer (node :: nodes) rest) :
    ∃ (start : Decoder) (more : Bytes), outer.length < decoder.nextLevel ∧
      node.WellFormed start.depth ∧
      next decoder = .ok (start.itemOf node more) (start.inside node more) ∧
      ∀ after : Decoder, after.Reaches more (countedLevels start.levels) →
        after.Faces outer nodes rest := by
  obtain ⟨start, more, hsettles, hready, hdepth, hnode, hrest, hothers⟩ := hfaces.exists_start
  refine ⟨start, more, ?_, hnode, next_of_node hsettles hready hnode hrest, hothers⟩
  rw [hsettles.nextLevel_eq, hready.nextLevel_eq, hdepth]
  exact Nat.lt_succ_self _

/-- Behind the item of a node that is no container the cursor is behind the node. -/
theorem reaches_inside {start : Decoder} (hnode : node.WellFormed start.depth) {item : Item}
    (hvalue : item.value = node.itemValue) (hleaf : item.isContainer = false) (rest : Bytes) :
    (start.inside node rest).Reaches rest (countedLevels start.levels) := by
  obtain ⟨tags, token, members⟩ := node
  obtain ⟨_, _, hholds, _⟩ := hnode
  rw [Item.isContainer, hvalue, itemValue] at hleaf
  cases token with
  | leaf atom =>
    obtain rfl : members = [] := List.length_eq_zero_iff.1 hholds
    exact reaches_inside_leaf start tags atom rest
  | definite isMap count => cases isMap <;> cases hleaf
  | indefinite isMap => cases isMap <;> cases hleaf

/-- Behind the item of a container the cursor faces its members. -/
theorem faces_members (isMap : Bool) {start : Decoder} (hnode : node.WellFormed start.depth)
    {count? : Option UInt64}
    (hvalue : node.itemValue = if isMap then .map count? else .array count?) (rest : Bytes) :
    (start.inside node rest).Faces (countedLevels start.levels) node.members rest := by
  obtain ⟨tags, token, members⟩ := node
  cases token with
  | leaf atom => cases isMap <;> cases atom <;> cases hvalue
  | definite isOther count => exact faces_inside (opensLevel_definite isOther count) hnode rest
  | indefinite isOther => exact faces_inside (opensLevel_indefinite isOther) hnode rest

end Decoder

/-! ### Loops side by side -/

namespace Reading

open Decoder

variable {ε β : Type} [CursorError ε] {visit : β → Item → Reading ε β}
  {first second : Decoder} {outer inner : List Level} {rest last : Bytes}

/-- Whether the visits of certain members, which are read at once inside two containers, are alike
whatever stands behind them. -/
def VisitsAlike (visit : β → Item → Reading ε β) (members counterparts : List Node) : Prop :=
  ∀ (state : β) {first second : Decoder} {outer inner : List Level} {others more : List Node}
    {rest last : Bytes}, first.Faces outer (members ++ others) rest →
    second.Faces inner (counterparts ++ more) last →
    ∃ item middle counterpart between, outer.length < first.nextLevel ∧
      inner.length < second.nextLevel ∧ Decoder.next first = .ok item middle ∧
      Decoder.next second = .ok counterpart between ∧
      RunAlike (SameResult fun after reached ↦
          after.Faces outer others rest ∧ reached.Faces inner more last)
        ((visit state item).run middle) ((visit state counterpart).run between)

/-- Loops over the members of two containers are alike if the visits of members that correspond
are. -/
theorem runAlike_runBelow {γ : Type} (members : γ → List Node) {corresponds : γ → γ → Prop}
    (hvisits : ∀ left right, corresponds left right →
      VisitsAlike visit (members left) (members right)) {lefts rights : List γ}
    (hcorresponds : List.Forall₂ corresponds lefts rights) (state : β)
    (hfirst : first.Faces outer (lefts.flatMap members) rest)
    (hsecond : second.Faces inner (rights.flatMap members) last) :
    RunAlike (SameResult fun after reached ↦ after.Reaches rest outer ∧ reached.Reaches last inner)
      (runBelow outer.length visit state first) (runBelow inner.length visit state second) := by
  induction hcorresponds generalizing first second state with
  | nil =>
    rw [runBelow_of_reaches hfirst.reaches, runBelow_of_reaches hsecond.reaches]
    exact .ok ⟨rfl, hfirst.reaches, hsecond.reaches⟩
  | @cons left right lefts rights hpair _ ih =>
    rw [List.flatMap_cons] at hfirst hsecond
    obtain ⟨item, middle, counterpart, between, hlevel, hotherLevel, hnext, hotherNext, hvisit⟩ :=
      hvisits left right hpair state hfirst hsecond
    rcases hvisit.ends with ⟨visited, after, _, reached, hrun, hother, rfl, hafter, hreached⟩ |
      ⟨cause, after, reached, hrun, hother⟩
    · rw [runBelow_of_visit hlevel hnext hrun, runBelow_of_visit hotherLevel hotherNext hother]
      exact ih visited hafter hreached
    · rw [runBelow_of_visit_error hlevel hnext hrun,
        runBelow_of_visit_error hotherLevel hotherNext hother]
      exact .error _ after reached

/-- Nodes that are passed over, whatever they are, leave what stands behind them. -/
theorem exists_run_skip {node : Node} {nodes : List Node}
    (hfaces : first.Faces outer (node :: nodes) rest) :
    ∃ item middle after, Decoder.next first = .ok item middle ∧ item.value = node.itemValue ∧
      item.tags = node.tagNumbers ∧ (skip item : Reading ε Unit).run middle = .ok () after ∧
      after.Faces outer nodes rest := by
  obtain ⟨start, more, _, hnode, hnext, hothers⟩ := hfaces.next_node
  obtain ⟨position, hskip⟩ := run_skip (ε := ε) hnode more
  exact ⟨_, _, _, hnext, value_itemOf start node more, tags_itemOf start node more, hskip,
    hothers _ ⟨position, .refl _⟩⟩

end Reading

end Cose.Cbor
