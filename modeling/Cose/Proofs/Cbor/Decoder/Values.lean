import Mathlib.Tactic.Common
import Cose.Cbor.Decoder.Tree
import Cose.Proofs.Cbor.Decoder.Settling

/-!
# Generic values of nodes

`Node.value?` is the generic value that a node stands for, whatever the widths of its heads.
`Reading.nextValue_of_node` says that a cursor reads exactly that value from a well-formed node.
-/

set_option autoImplicit false
set_option relaxedAutoImplicit false

namespace Cose.Cbor

open Node

/-! ### Values of nodes -/

/-- The generic value of an item without members, if it has one. -/
def ItemValue.generic? : ItemValue → Option Value
  | unsigned n => some (.unsigned n)
  | negative n => some (.negative n)
  | bytes content => some (.bytes content)
  | text content => some (.text content)
  | float number => some (.float number)
  | bool truth => some (.bool truth)
  | null => some .null
  | array _ => none
  | map _ => none
  | undefined => none
  | simple _ => none

namespace Value

/-- Members of a map as its entries, if they are whole pairs. -/
def entries? : List Value → Option (List (Value × Value))
  | [] => some []
  | [_] => none
  | label :: value :: rest => (entries? rest).map ((label, value) :: ·)

/-- The array or map with given members. -/
def container? (isMap : Bool) (members : List Value) : Option Value :=
  if isMap then (entries? members).map map else some (array members)

end Value

namespace Node

mutual

/-- The generic value of a node, if it has one. -/
def value? : Node → Option Value
  | mk tags token members =>
    let content? :=
      match token with
      | .leaf atom => atom.value.generic?
      | .definite isMap _ => (values? members).bind (Value.container? isMap)
      | .indefinite isMap => (values? members).bind (Value.container? isMap)
    content?.map ((tags.map (·.number)).foldr Value.tag)

/-- The generic values of several nodes, if all have one. -/
def values? : List Node → Option (List Value)
  | [] => some []
  | node :: rest => node.value?.bind fun value ↦ (values? rest).map (value :: ·)

end

end Node

/-! ### Reading values -/

namespace Reading

open Decoder

variable {ε : Type} [CursorError ε]

/-- What is done with each member of an array. -/
def visitMember (nesting : Nat) (members : List Value) (member : Item) :
    Reading ε (List Value) := do
  return (← valueOf nesting member) :: members

/-- What is done with each label in a map. -/
def visitLabel (nesting : Nat) (entries : List (Value × Value)) (member : Item) :
    Reading ε (List (Value × Value)) := do
  let label ← valueOf nesting member
  let value ← valueOf nesting (← next)
  return (label, value) :: entries

/-- An item without members is its own value. -/
theorem valueOf_generic {item : Item} {content : Value}
    (hvalue : item.value.generic? = some content) (nesting : Nat) (decoder : Decoder) :
    (valueOf nesting item : Reading ε Value).run decoder =
      .ok (item.tags.foldr Value.tag content) decoder := by
  obtain ⟨value, level, nextLevel, tags⟩ := item
  cases value <;> simp only [ItemValue.generic?, Option.some.injEq, reduceCtorEq] at hvalue <;>
  · subst hvalue
    cases nesting <;> rfl

/-- An array is the value of the members that a loop collects, the last of them first. -/
theorem run_valueOf_array {item : Item} {count? : Option UInt64}
    (hvalue : item.value = .array count?) (nesting : Nat) (decoder : Decoder) :
    (valueOf (nesting + 1) item : Reading ε Value).run decoder =
      (foldBelow item.level [] (visitMember nesting) >>= fun members : List Value ↦
        (pure (item.tags.foldr Value.tag (.array members.reverse)) : Reading ε Value)).run
        decoder := by
  obtain ⟨value, level, nextLevel, tags⟩ := item
  cases hvalue
  rfl

/-- A map is the value of the entries that a loop collects, the last of them first. -/
theorem run_valueOf_map {item : Item} {count? : Option UInt64}
    (hvalue : item.value = .map count?) (nesting : Nat) (decoder : Decoder) :
    (valueOf (nesting + 1) item : Reading ε Value).run decoder =
      (foldBelow item.level [] (visitLabel nesting) >>= fun entries : List (Value × Value) ↦
        (pure (item.tags.foldr Value.tag (.map entries.reverse)) : Reading ε Value)).run
        decoder := by
  obtain ⟨value, level, nextLevel, tags⟩ := item
  cases hvalue
  rfl

theorem valueOf_array {item : Item} {count? : Option UInt64} (hvalue : item.value = .array count?)
    {nesting : Nat} {decoder after : Decoder} {members : List Value}
    (hrun : runBelow item.level (visitMember nesting) [] decoder =
      (.ok members after : EStateM.Result ε Decoder (List Value))) :
    (valueOf (nesting + 1) item : Reading ε Value).run decoder =
      .ok (item.tags.foldr Value.tag (.array members.reverse)) after :=
  (run_valueOf_array hvalue nesting decoder).trans (run_bind hrun rfl)

theorem valueOf_map {item : Item} {count? : Option UInt64} (hvalue : item.value = .map count?)
    {nesting : Nat} {decoder after : Decoder} {entries : List (Value × Value)}
    (hrun : runBelow item.level (visitLabel nesting) [] decoder =
      (.ok entries after : EStateM.Result ε Decoder (List (Value × Value)))) :
    (valueOf (nesting + 1) item : Reading ε Value).run decoder =
      .ok (item.tags.foldr Value.tag (.map entries.reverse)) after :=
  (run_valueOf_map hvalue nesting decoder).trans (run_bind hrun rfl)

/-! ### Reading nodes -/

/-- What reading a node as a value does: it returns the value and ends behind the node. -/
def ReadsNode (ε : Type) [CursorError ε] (nesting : Nat) (node : Node) (value : Value) : Prop :=
  ∀ (start : Decoder) (rest : Bytes), start.Ready → node.WellFormed start.depth →
    maxNesting ≤ nesting + start.depth → start.rest = node.encoded ++ rest →
    ∃ after, (valueOf nesting (start.itemOf node rest) : Reading ε Value).run
        (start.inside node rest) = .ok value after ∧
      after.Reaches rest (countedLevels start.levels)

/-- A loop over the members of an array collects their values. -/
theorem runBelow_members {nesting : Nat} {nodes : List Node} {values : List Value}
    (hreads : List.Forall₂ (ReadsNode ε nesting) nodes values) {outer : List Level}
    (hnesting : maxNesting ≤ nesting + (outer.length + 1)) {rest : Bytes} {decoder : Decoder}
    (hfaces : decoder.Faces outer nodes rest) (initial : List Value) :
    ∃ after, runBelow outer.length (visitMember nesting) initial decoder =
        (.ok (values.reverse ++ initial) after : EStateM.Result ε Decoder (List Value)) ∧
      after.Reaches rest outer := by
  induction hreads generalizing decoder initial with
  | nil => exact ⟨decoder, runBelow_of_reaches hfaces.reaches, hfaces.reaches⟩
  | @cons node value nodes values hnode _ ih =>
    obtain ⟨start, more, hsettles, hready, hdepth, hwellFormed, hrest, hothers⟩ :=
      hfaces.exists_start
    rw [← hdepth] at hnesting
    obtain ⟨middle, hrun, hmiddle⟩ := hnode start more hready hwellFormed hnesting hrest
    have hvisit : (visitMember nesting initial (start.itemOf node more) :
        Reading ε (List Value)).run (start.inside node more) = .ok (value :: initial) middle :=
      run_bind hrun rfl
    rw [hdepth] at hnesting
    obtain ⟨after, hafter, hend⟩ := ih (hothers middle hmiddle) (value :: initial)
    refine ⟨after, ?_, hend⟩
    rw [runBelow_of_node hsettles hready (Nat.le_of_eq hdepth.symm) hwellFormed hrest hvisit,
      hafter]
    simp

/-- A loop over the labels of a map collects its entries. -/
theorem runBelow_labels {nesting : Nat} {nodes : List Node} {values : List Value}
    (hreads : List.Forall₂ (ReadsNode ε nesting) nodes values) {entries : List (Value × Value)}
    (hentries : Value.entries? values = some entries) {outer : List Level}
    (hnesting : maxNesting ≤ nesting + (outer.length + 1)) {rest : Bytes} {decoder : Decoder}
    (hfaces : decoder.Faces outer nodes rest) (initial : List (Value × Value)) :
    ∃ after, runBelow outer.length (visitLabel nesting) initial decoder =
        (.ok (entries.reverse ++ initial) after :
          EStateM.Result ε Decoder (List (Value × Value))) ∧
      after.Reaches rest outer := by
  fun_induction Value.entries? values generalizing nodes entries decoder initial with
  | case1 =>
    cases hreads
    cases hentries
    exact ⟨decoder, runBelow_of_reaches hfaces.reaches, hfaces.reaches⟩
  | case2 value => cases hentries
  | case3 label value values ih =>
    obtain ⟨others, hothers, rfl⟩ := Option.map_eq_some_iff.1 hentries
    rcases hreads with _ | ⟨hlabel, _ | ⟨hvalue, hreads⟩⟩
    rename_i first second nodes
    obtain ⟨start, more, hsettles, hready, hdepth, hfirst, hrest, hbehind⟩ := hfaces.exists_start
    obtain ⟨between, hrun, hbetween⟩ := hlabel start more hready hfirst (by omega) hrest
    obtain ⟨next, more', hsettles', hready', hdepth', hsecond, hrest', hbehind'⟩ :=
      (hbehind between hbetween).exists_start
    obtain ⟨middle, hrun', hmiddle⟩ := hvalue next more' hready' hsecond (by omega) hrest'
    have hvisit : (visitLabel nesting initial (start.itemOf first more) :
        Reading ε (List (Value × Value))).run (start.inside first more) =
          .ok ((label, value) :: initial) middle :=
      run_bind hrun (run_bind (run_next (next_of_node hsettles' hready' hsecond hrest'))
        (run_bind hrun' rfl))
    obtain ⟨after, hafter, hend⟩ :=
      ih hreads hothers (hbehind' middle hmiddle) ((label, value) :: initial)
    refine ⟨after, ?_, hend⟩
    rw [runBelow_of_node hsettles hready (Nat.le_of_eq hdepth.symm) hfirst hrest hvisit, hafter]
    simp

/-- An array or map is read if its members are. -/
theorem readsNode_container {tags : List Argument} {token : Token} {isMap : Bool} {level : Level}
    (hopens : OpensLevel token isMap level) {members : List Node} {values : List Value}
    (hreads : ∀ nesting, List.Forall₂ (ReadsNode ε nesting) members values) {content : Value}
    (hcontent : Value.container? isMap values = some content) (nesting : Nat) :
    ReadsNode ε nesting (.mk tags token members)
      ((tags.map (·.number)).foldr Value.tag content) := by
  intro start rest hready hnode hnesting hrest
  have hdepth := hopens.depth_lt _ hnode.2.1
  obtain ⟨inner, rfl⟩ : ∃ inner, nesting = inner + 1 := ⟨nesting - 1, by omega⟩
  have hfaces := faces_inside hopens hnode rest
  have houter : (countedLevels start.levels).length = start.depth :=
    length_countedLevels start.levels
  have hinner : maxNesting ≤ inner + ((countedLevels start.levels).length + 1) := by omega
  obtain ⟨count?, hvalue⟩ := hopens.value_eq
  cases isMap with
  | false =>
    cases hcontent
    obtain ⟨after, hrun, hafter⟩ := runBelow_members (hreads inner) hinner hfaces []
    rw [houter] at hrun
    have harray : (start.itemOf (.mk tags token members) rest).value = .array count? := hvalue
    refine ⟨after, ?_, hafter⟩
    rw [valueOf_array harray hrun, List.append_nil, List.reverse_reverse]
    rfl
  | true =>
    obtain ⟨entries, hentries, rfl⟩ := Option.map_eq_some_iff.1 hcontent
    obtain ⟨after, hrun, hafter⟩ := runBelow_labels (hreads inner) hentries hinner hfaces []
    rw [houter] at hrun
    have hmap : (start.itemOf (.mk tags token members) rest).value = .map count? := hvalue
    refine ⟨after, ?_, hafter⟩
    rw [valueOf_map hmap hrun, List.append_nil, List.reverse_reverse]
    rfl

mutual

/-- Every node with a generic value is read as that value. -/
theorem readsNode (ε : Type) [CursorError ε] (node : Node) {value : Value}
    (hvalue : node.value? = some value) (nesting : Nat) : ReadsNode ε nesting node value := by
  obtain ⟨tags, token, members⟩ := node
  obtain ⟨content, hcontent, rfl⟩ := Option.map_eq_some_iff.1 hvalue
  cases token with
  | leaf atom =>
    intro start rest hready hnode hnesting hrest
    obtain ⟨_, _, hholds, _⟩ := hnode
    obtain rfl : members = [] := List.length_eq_zero_iff.1 hholds
    exact ⟨_, valueOf_generic hcontent nesting _, reaches_inside_leaf start tags atom rest⟩
  | definite isMap count =>
    obtain ⟨values, hvalues, hcontainer⟩ := Option.bind_eq_some_iff.1 hcontent
    exact readsNode_container (opensLevel_definite isMap count) (readsNodes ε members hvalues)
      hcontainer nesting
  | indefinite isMap =>
    obtain ⟨values, hvalues, hcontainer⟩ := Option.bind_eq_some_iff.1 hcontent
    exact readsNode_container (opensLevel_indefinite isMap) (readsNodes ε members hvalues)
      hcontainer nesting

theorem readsNodes (ε : Type) [CursorError ε] (nodes : List Node) {values : List Value}
    (hvalues : values? nodes = some values) (nesting : Nat) :
    List.Forall₂ (ReadsNode ε nesting) nodes values := by
  cases nodes with
  | nil =>
    cases hvalues
    exact .nil
  | cons node nodes =>
    rw [values?] at hvalues
    obtain ⟨value, hvalue, hrest⟩ := Option.bind_eq_some_iff.1 hvalues
    obtain ⟨others, hothers, rfl⟩ := Option.map_eq_some_iff.1 hrest
    exact .cons (readsNode ε node hvalue nesting) (readsNodes ε nodes hothers nesting)

end

/-- The bytes of a well-formed node are read as its generic value, to their end. -/
theorem nextValue_of_node {node : Node} (hnode : node.WellFormed 0) {value : Value}
    (hvalue : node.value? = some value) :
    ∃ after, (nextValue : Reading ε Value).run (ofBytes node.encoded) = .ok value after ∧
      ∃ last, Decoder.finish after = .ok () last := by
  let start : Decoder := ofBytes node.encoded
  have hready : start.Ready := ready_top node.encoded 0
  have hrest : start.rest = node.encoded ++ [] := (List.append_nil _).symm
  obtain ⟨after, hrun, hafter⟩ :=
    readsNode ε node hvalue maxNesting start [] hready hnode (Nat.le_refl _) hrest
  have hnext := next_of_node (.refl start) hready hnode hrest
  exact ⟨after, run_bind (run_next hnext) hrun, finish_of_reaches hafter⟩

end Reading

end Cose.Cbor
