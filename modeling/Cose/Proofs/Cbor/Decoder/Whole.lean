import Mathlib.Tactic.Common
import Cose.Proofs.Cbor.Decoder.Settling

/-!
# Whole items, kept as they are encoded

`Decoder.AcceptsItem` says that bytes are one item and that a cursor reads it to its end, with a
limit on how deep its containers nest. Such bytes are those of a node that may stand that much
further inside (`Decoder.exists_node_of_acceptsItem`). Where a node is ahead of a cursor, reading it
raw takes exactly its bytes (`Reading.run_nextRaw`): the loop that skips its members visits all the
nodes inside, one after the other.
-/

set_option autoImplicit false
set_option relaxedAutoImplicit false

namespace Cose.Cbor

open Node

/-! ### Nodes further inside -/

/-- What is delivered is delivered with its value, level and tags. -/
theorem exists_item_of_mem_link {visits : List Visit} {visit : Visit} (hmem : visit ∈ visits) :
    ∃ item ∈ link visits, item.value = visit.value ∧ item.level = visit.level := by
  induction visits with
  | nil => cases hmem
  | cons first rest ih =>
    rcases List.mem_cons.1 hmem with rfl | hrest
    · exact ⟨_, .head _, rfl, rfl⟩
    · obtain ⟨item, hitem, hsame⟩ := ih hrest
      exact ⟨item, .tail _ hitem, hsame⟩

namespace Node

/-- Whether the containers among some visits keep the limit on nesting when they are moved inside by
a number of levels. -/
def StayInside (shift : Nat) (visits : List Visit) : Prop :=
  ∀ visit ∈ visits, (∃ count?, visit.value = .array count? ∨ visit.value = .map count?) →
    visit.level + shift < maxNesting

theorem fits_of_stayInside {shift level : Nat} {token : Token} (hfits : token.Fits level)
    (hinside : (∃ count?, token.value = .array count? ∨ token.value = .map count?) →
      level + shift < maxNesting) : token.Fits (level + shift) := by
  cases token with
  | leaf atom => trivial
  | definite isMap count =>
    refine ⟨hinside ⟨some count.number, ?_⟩, hfits.2⟩
    cases isMap
    · exact .inl rfl
    · exact .inr rfl
  | indefinite isMap =>
    refine hinside ⟨none, ?_⟩
    cases isMap
    · exact .inl rfl
    · exact .inr rfl

mutual

/-- A node may stand further inside if its containers keep the limit on nesting there. -/
theorem WellFormed.shift {shift : Nat} : (node : Node) → {level : Nat} → node.WellFormed level →
    StayInside shift (node.visits level) → node.WellFormed (level + shift)
  | mk tags token members, level, ⟨htags, hfits, hholds, hmembers⟩, hinside => by
    obtain ⟨hfirst, hbelow⟩ := List.forall_mem_cons.1 hinside
    have hdeeper := AllWellFormed.shift members hmembers hbelow
    rw [Nat.add_right_comm] at hdeeper
    exact ⟨htags, fits_of_stayInside hfits hfirst, hholds, hdeeper⟩

theorem AllWellFormed.shift {shift : Nat} : (nodes : List Node) → {level : Nat} →
    AllWellFormed level nodes → StayInside shift (visitsAll level nodes) →
    AllWellFormed (level + shift) nodes
  | [], _, _, _ => trivial
  | node :: rest, _, ⟨hnode, hrest⟩, hinside =>
    ⟨WellFormed.shift node hnode fun visit hmem ↦ hinside visit (List.mem_append_left _ hmem),
      AllWellFormed.shift rest hrest fun visit hmem ↦
        hinside visit (List.mem_append_right _ hmem)⟩

end

end Node

/-! ### Items that a cursor accepts -/

namespace Decoder

/-- Whether bytes are one item that a cursor reads to its end, whose containers nest no deeper than
a number of levels. -/
def AcceptsItem (depth : Nat) (bytes : Bytes) : Prop :=
  ∃ first inner, (ofBytes bytes).drain = (first :: inner, .noMoreItems) ∧
    (∀ item ∈ inner, 0 < item.level) ∧
    ∀ item ∈ first :: inner, item.isContainer = true → item.level < depth

/-- The bytes of an accepted item are those of a node, which may stand as far inside as its
containers leave room. -/
theorem exists_node_of_acceptsItem {depth level : Nat} {bytes : Bytes}
    (haccepts : AcceptsItem depth bytes) (hroom : depth + level ≤ maxNesting) :
    ∃ node : Node, node.WellFormed level ∧ node.encoded = bytes := by
  obtain ⟨first, inner, hdrain, hone, hshallow⟩ := haccepts
  obtain ⟨visits, ⟨nodes, hnodes, hbytes, hvisits⟩, hitems⟩ := (drain_eq_iff_demands _ _).1 hdrain
  cases nodes with
  | nil =>
    rw [hvisits] at hitems
    cases hitems
  | cons node others =>
    obtain ⟨hnode, hothers⟩ := hnodes
    have hinside : StayInside level visits := by
      rintro visit hmem ⟨count?, hcontainer⟩
      obtain ⟨item, hitem, hvalue, hlevel⟩ := exists_item_of_mem_link hmem
      have hlimit : item.isContainer = true := by
        rw [Item.isContainer, hvalue]
        rcases hcontainer with hvisit | hvisit <;> rw [hvisit]
      rw [← hitems] at hitem
      have hbelow := hshallow item hitem hlimit
      omega
    -- A second node would be delivered at the top, behind the first item.
    have hsingle : others = [] := by
      cases others with
      | nil => rfl
      | cons second more =>
        obtain ⟨tags, token, members⟩ := node
        obtain ⟨tags', token', members'⟩ := second
        rw [hvisits] at hitems
        simp only [visitsAll, Node.visits, List.cons_append, link, List.cons.injEq] at hitems
        obtain ⟨item, hitem, _, hlevel⟩ := exists_item_of_mem_link
          (List.mem_append_right (visitsAll 1 members) (List.mem_cons_self ..))
        rw [← hitems.2] at hitem
        exact absurd (hone item hitem) (by rw [hlevel]; exact Nat.lt_irrefl 0)
    rw [hsingle] at hvisits
    rw [hvisits, visitsAll, visitsAll, List.append_nil] at hinside
    have hshifted := WellFormed.shift node hnode hinside
    rw [Nat.zero_add] at hshifted
    refine ⟨node, hshifted, ?_⟩
    change bytes = encodedAll (node :: others) at hbytes
    rw [hbytes, hsingle, encodedAll, encodedAll, List.append_nil]

end Decoder

/-! ### Reading raw items -/

namespace Reading

open Decoder

variable {ε : Type} [CursorError ε]

/-- A visit that reads nothing. -/
def passOver : Unit → Item → Reading ε Unit := fun _ _ ↦ pure ()

mutual

/-- Inside a node a loop passes over all that is below. -/
theorem exists_runBelow_inside (ε : Type) [CursorError ε] (node : Node) {bound : Nat}
    {start : Decoder} (hbound : bound ≤ start.depth) (hnode : node.WellFormed start.depth)
    (rest : Bytes) :
    ∃ after, runBelow bound passOver () (start.inside node rest) =
        (runBelow bound passOver () after : EStateM.Result ε Decoder Unit) ∧
      after.Reaches rest (countedLevels start.levels) := by
  obtain ⟨tags, token, members⟩ := node
  have hdepth : bound ≤ (countedLevels start.levels).length := by
    rwa [length_countedLevels]
  cases token with
  | leaf atom =>
    obtain ⟨_, _, hholds, _⟩ := hnode
    obtain rfl : members = [] := List.length_eq_zero_iff.1 hholds
    exact ⟨_, rfl, reaches_inside_leaf start tags atom rest⟩
  | definite isMap count =>
    exact exists_runBelow_over ε members hdepth
      (faces_inside (opensLevel_definite isMap count) hnode rest)
  | indefinite isMap =>
    exact exists_runBelow_over ε members hdepth
      (faces_inside (opensLevel_indefinite isMap) hnode rest)

theorem exists_runBelow_over (ε : Type) [CursorError ε] (nodes : List Node) {bound : Nat}
    {outer : List Level} (hbound : bound ≤ outer.length) {decoder : Decoder} {rest : Bytes}
    (hfaces : decoder.Faces outer nodes rest) :
    ∃ after, runBelow bound passOver () decoder =
        (runBelow bound passOver () after : EStateM.Result ε Decoder Unit) ∧
      after.Reaches rest outer := by
  cases nodes with
  | nil => exact ⟨decoder, rfl, hfaces.reaches⟩
  | cons node nodes =>
    obtain ⟨start, more, hsettles, hready, hdepth, hnode, hrest, hothers⟩ := hfaces.exists_start
    have hinside : bound < start.depth := by omega
    have hvisit : (passOver () (start.itemOf node more) : Reading ε Unit).run
        (start.inside node more) = .ok () (start.inside node more) := rfl
    obtain ⟨middle, hmiddle, hreaches⟩ :=
      exists_runBelow_inside ε node (Nat.le_of_lt hinside) hnode more
    obtain ⟨after, hafter, hend⟩ := exists_runBelow_over ε nodes hbound (hothers middle hreaches)
    refine ⟨after, ?_, hend⟩
    rw [runBelow_of_node hsettles hready hinside hnode hrest hvisit, hmiddle, hafter]

end

/-- Skipping a node ends right behind it, with all containers left that the node opened. -/
theorem run_skip {start : Decoder} {node : Node} (hnode : node.WellFormed start.depth)
    (rest : Bytes) :
    ∃ position, (skip (start.itemOf node rest) : Reading ε Unit).run (start.inside node rest) =
      .ok () ⟨rest, position, countedLevels start.levels⟩ := by
  have hlevel : (start.itemOf node rest).level = (countedLevels start.levels).length := by
    obtain ⟨tags, token, members⟩ := node
    exact (length_countedLevels start.levels).symm
  have hdepth : start.depth = (countedLevels start.levels).length :=
    (length_countedLevels start.levels).symm
  obtain ⟨after, hafter, hreaches⟩ :=
    exists_runBelow_inside ε node (Nat.le_refl start.depth) hnode rest
  have hloop : (foldBelow (start.itemOf node rest).level () passOver : Reading ε Unit).run
      (start.inside node rest) = .ok () after := by
    change runBelow (start.itemOf node rest).level passOver () (start.inside node rest) = _
    rw [hdepth] at hafter
    rw [hlevel, hafter]
    exact runBelow_of_reaches hreaches
  obtain ⟨position, hsettles⟩ := hreaches
  have hascend : Decoder.ascendTo (start.itemOf node rest).level after =
      .ok () ⟨rest, position, countedLevels start.levels⟩ := by
    rw [hlevel]
    exact (hsettles.ascendTo_eq _ (Nat.le_refl _)).trans (leave_length rest position _)
  exact ⟨position, run_bind hloop (run_ascendTo hascend)⟩

/-- A node that is ahead is read raw as its bytes, and the cursor is then right behind it, at the
level at which it stands. -/
theorem run_nextRaw_eq {decoder start : Decoder} (hsettles : decoder.Settles start)
    (hready : start.Ready) {node : Node} (hnode : node.WellFormed start.depth) {rest : Bytes}
    (hrest : start.rest = node.encoded ++ rest) :
    (nextRaw : Reading ε (Item × Bytes)).run decoder =
      .ok (start.itemOf node rest, node.encoded)
        ⟨rest, start.position + node.encoded.length, countedLevels start.levels⟩ := by
  have hascend : Decoder.ascendTo 0 decoder = .ok () start :=
    (hsettles.ascendTo_eq 0 (Nat.zero_le _)).trans hready.ascendTo_eq
  have hnext : (next : Reading ε Item).run start =
      .ok (start.itemOf node rest) (start.inside node rest) :=
    run_next (next_of_node (.refl start) hready hnode hrest)
  obtain ⟨position, hskip⟩ := run_skip (ε := ε) hnode rest
  have hadvances : start.Advances ⟨rest, position, countedLevels start.levels⟩ := by
    have hfirst := (next : Reading ε Item).forward start
    have hsecond :=
      (skip (start.itemOf node rest) : Reading ε Unit).forward (start.inside node rest)
    rw [hnext] at hfirst
    rw [hskip] at hsecond
    exact hfirst.trans hsecond
  obtain ⟨count, hcount, hbehind, hposition⟩ := hadvances
  have htaken : count = node.encoded.length := by
    have hlength := congrArg List.length hbehind
    change rest.length = _ at hlength
    rw [hrest] at hlength hcount
    rw [List.length_append] at hcount
    rw [List.length_drop, List.length_append] at hlength
    omega
  obtain rfl : position = start.position + node.encoded.length := hposition.trans (by rw [htaken])
  have hraw : start.rest.take (start.position + node.encoded.length - start.position) =
      node.encoded := by
    rw [Nat.add_sub_cancel_left, hrest, List.take_left]
  refine run_bind (run_ascendTo hascend) (run_bind rfl (run_bind hnext (run_bind hskip ?_)))
  exact congrArg (fun raw : Bytes ↦ EStateM.Result.ok (start.itemOf node rest, raw) _) hraw

/-- A node that is ahead is read raw as its bytes. -/
theorem run_nextRaw {decoder start : Decoder} (hsettles : decoder.Settles start)
    (hready : start.Ready) {node : Node} (hnode : node.WellFormed start.depth) {rest : Bytes}
    (hrest : start.rest = node.encoded ++ rest) :
    ∃ after, (nextRaw : Reading ε (Item × Bytes)).run decoder =
        .ok (start.itemOf node rest, node.encoded) after ∧
      after.Reaches rest (countedLevels start.levels) :=
  ⟨_, run_nextRaw_eq hsettles hready hnode hrest, _, .refl _⟩

end Reading

end Cose.Cbor
