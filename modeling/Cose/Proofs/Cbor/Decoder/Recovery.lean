import Mathlib.Tactic.Common
import Cose.Proofs.Cbor.Decoder.Members
import Cose.Proofs.Cbor.Decoder.Values

/-!
# The node behind a generic value

Whatever is read as a generic value is a well-formed node that stands for this value, whatever the
input (`Reading.exists_node_of_nextValue`). With the reading of nodes as values this makes the
accepted inputs exactly the encodings of nodes that have a value.
-/

set_option autoImplicit false
set_option relaxedAutoImplicit false

namespace Cose.Cbor

open Node

namespace Node

/-- A node without members is the value that it is delivered as. -/
theorem value?_of_generic? {node : Node} {content : Value}
    (hvalue : node.itemValue.generic? = some content) :
    node.value? = some (node.tagNumbers.foldr Value.tag content) := by
  obtain ⟨tags, token, members⟩ := node
  cases token with
  | leaf atom =>
    change atom.value.generic?.map _ = _
    rw [show atom.value.generic? = some content from hvalue]
    rfl
  | definite isMap count => cases isMap <;> cases hvalue
  | indefinite isMap => cases isMap <;> cases hvalue

/-- An array or map is the container of the values of its members. -/
theorem value?_of_members {tags : List Argument} {token : Token} {members : List Node}
    (isMap : Bool) {count? : Option UInt64}
    (htoken : token.value = if isMap then .map count? else .array count?) {values : List Value}
    (hvalues : values? members = some values) {content : Value}
    (hcontent : Value.container? isMap values = some content) :
    (mk tags token members).value? = some ((tags.map (·.number)).foldr Value.tag content) := by
  cases token with
  | leaf atom => cases isMap <;> cases atom <;> cases htoken
  | definite isOther count =>
    obtain rfl := isMap_eq_of_value htoken
    change ((values? members).bind (Value.container? isOther)).map _ = _
    rw [hvalues, Option.bind_some, hcontent]
    rfl
  | indefinite isOther =>
    obtain rfl := isMap_eq_of_value htoken
    change ((values? members).bind (Value.container? isOther)).map _ = _
    rw [hvalues, Option.bind_some, hcontent]
    rfl

end Node

namespace Reading

open Decoder

variable {ε : Type} [CursorError ε]

/-! ### What reading a value went through -/

/-- What reading the value of an item went through, with what is behind the item in front of it:
nothing more where the item has no members, or a loop over its members. -/
inductive ValueRead (ε : Type) [CursorError ε] (item : Item) (before : Decoder) :
    (nesting : Nat) → Value → Decoder → Prop where
  | leaf {nesting : Nat} {content : Value} (hcontent : item.value.generic? = some content) :
      ValueRead ε item before nesting (item.tags.foldr Value.tag content) before
  | array {inner : Nat} {after : Decoder} {count? : Option UInt64} {members : List Value}
      (hvalue : item.value = .array count?)
      (hloop : runBelow item.level (visitMember inner) [] before =
        (.ok members after : EStateM.Result ε Decoder (List Value))) :
      ValueRead ε item before (inner + 1)
        (item.tags.foldr Value.tag (.array members.reverse)) after
  | map {inner : Nat} {after : Decoder} {count? : Option UInt64} {entries : List (Value × Value)}
      (hvalue : item.value = .map count?)
      (hloop : runBelow item.level (visitLabel inner) [] before =
        (.ok entries after : EStateM.Result ε Decoder (List (Value × Value)))) :
      ValueRead ε item before (inner + 1)
        (item.tags.foldr Value.tag (.map entries.reverse)) after

theorem valueRead_of_run {nesting : Nat} {item : Item} {value : Value} {before after : Decoder}
    (hrun : (valueOf nesting item : Reading ε Value).run before = .ok value after) :
    ValueRead ε item before nesting value after := by
  obtain ⟨delivered, level, nextLevel, tags⟩ := item
  unfold valueOf at hrun
  cases delivered with
  | array count? =>
    cases nesting with
    | zero => exact absurd hrun run_fail_bind_ne
    | succ inner =>
      obtain ⟨members, between, hloop, hrun⟩ := of_run_bind hrun
      obtain ⟨rfl, rfl⟩ := of_run_pure hrun
      exact .array rfl hloop
  | map count? =>
    cases nesting with
    | zero => exact absurd hrun run_fail_bind_ne
    | succ inner =>
      obtain ⟨entries, between, hloop, hrun⟩ := of_run_bind hrun
      obtain ⟨rfl, rfl⟩ := of_run_pure hrun
      exact .map rfl hloop
  | undefined => exact absurd hrun run_fail_bind_ne
  | simple number => exact absurd hrun run_fail_bind_ne
  | _ =>
    obtain ⟨rfl, rfl⟩ := of_run_pure hrun
    exact .leaf rfl

/-! ### Nodes behind values -/

/-- Whether reading values at a nesting recovers them from nodes. -/
def Recovers (ε : Type) [CursorError ε] (nesting : Nat) : Prop :=
  ∀ {item : Item} {value : Value} {before middle after : Decoder},
    Decoder.next before = .ok item middle →
    (valueOf nesting item : Reading ε Value).run middle = .ok value after →
    ∃ node, before.Delivers item node after ∧ node.value? = some value

/-- An item that is its own value has no members. -/
theorem exists_node_of_generic? {item : Item} {content : Value} {before after : Decoder}
    (hnext : Decoder.next before = .ok item after)
    (hcontent : item.value.generic? = some content) :
    ∃ node, before.Delivers item node after ∧
      node.value? = some (item.tags.foldr Value.tag content) := by
  have hleaf : item.isContainer = false := by
    unfold Item.isContainer
    split <;> simp_all [ItemValue.generic?]
  obtain ⟨node, hdelivers⟩ := exists_delivers_of_leaf hnext hleaf
  rw [hdelivers.value_eq] at hcontent
  exact ⟨node, hdelivers, by rw [value?_of_generic? hcontent, hdelivers.tags_eq]⟩

/-- A visit of an array adds the value of its member. -/
theorem visitsMembers_visitMember {nesting : Nat} (hrecovers : Recovers ε nesting) :
    VisitsMembers (visitMember nesting : List Value → Item → Reading ε (List Value)) false
      fun state nodes final ↦ ∃ values, values? nodes = some values ∧
        final = values.reverse ++ state := by
  intro state visited item before middle after hnext hrun
  obtain ⟨value, _, hvalue, hrun⟩ := of_run_bind hrun
  obtain ⟨rfl, rfl⟩ := of_run_pure hrun
  obtain ⟨node, hdelivers, hnode⟩ := hrecovers hnext hvalue
  refine ⟨[node], rfl, .one hdelivers.spans, ?_⟩
  rintro others _ ⟨values, hvalues, rfl⟩
  refine ⟨value :: values, ?_, by simp⟩
  rw [List.singleton_append, values?, hnode, Option.bind_some, hvalues]
  rfl

/-- A visit of a map adds the entry of its label and its value. -/
theorem visitsMembers_visitLabel {nesting : Nat} (hrecovers : Recovers ε nesting) :
    VisitsMembers
      (visitLabel nesting : List (Value × Value) → Item → Reading ε (List (Value × Value))) true
      fun state nodes final ↦ ∃ values entries, values? nodes = some values ∧
        Value.entries? values = some entries ∧ final = entries.reverse ++ state := by
  intro state visited item before middle after hnext hrun
  obtain ⟨label, _, hlabel, hrun⟩ := of_run_bind hrun
  obtain ⟨content, _, hcontent, hrun⟩ := of_run_bind hrun
  obtain ⟨value, _, hvalue, hrun⟩ := of_run_bind hrun
  obtain ⟨rfl, rfl⟩ := of_run_pure hrun
  obtain ⟨first, hfirst, hfirstValue⟩ := hrecovers hnext hlabel
  obtain ⟨second, hsecond, hsecondValue⟩ := hrecovers (of_run_next hcontent) hvalue
  refine ⟨[first, second], rfl, .two hfirst.spans hsecond.spans, ?_⟩
  rintro others _ ⟨values, entries, hvalues, hentries, rfl⟩
  refine ⟨label :: value :: values, (label, value) :: entries, ?_, ?_, by simp⟩
  · rw [List.cons_append, List.singleton_append, values?, values?, hfirstValue, Option.bind_some,
      hsecondValue, Option.bind_some, hvalues]
    rfl
  · rw [Value.entries?, hentries]
    rfl

/-- Values are recovered from nodes at every nesting, by induction on it. -/
theorem recovers (ε : Type) [CursorError ε] (nesting : Nat) : Recovers ε nesting := by
  induction nesting with
  | zero =>
    intro item value before middle after hnext hrun
    cases valueRead_of_run hrun with
    | leaf hcontent => exact exists_node_of_generic? hnext hcontent
  | succ inner ih =>
    intro item value before middle after hnext hrun
    cases valueRead_of_run hrun with
    | leaf hcontent => exact exists_node_of_generic? hnext hcontent
    | array hvalue hloop =>
      obtain ⟨tags, token, nodes, hdelivers, values, hvalues, rfl⟩ :=
        exists_container_of_runBelow false (visitsMembers_visitMember ih)
          (fun state ↦ ⟨[], rfl, rfl⟩) hnext hvalue hloop
      refine ⟨_, hdelivers, ?_⟩
      rw [value?_of_members false (hdelivers.value_eq.symm.trans hvalue) hvalues rfl,
        hdelivers.tags_eq, List.append_nil, List.reverse_reverse]
      rfl
    | map hvalue hloop =>
      obtain ⟨tags, token, nodes, hdelivers, values, entries, hvalues, hentries, rfl⟩ :=
        exists_container_of_runBelow true (visitsMembers_visitLabel ih)
          (fun state ↦ ⟨[], [], rfl, rfl, rfl⟩) hnext hvalue hloop
      have hcontent : Value.container? true values = some (.map entries) := by
        rw [Value.container?, if_pos rfl, hentries]
        rfl
      refine ⟨_, hdelivers, ?_⟩
      rw [value?_of_members true (hdelivers.value_eq.symm.trans hvalue) hvalues hcontent,
        hdelivers.tags_eq, List.append_nil, List.reverse_reverse]
      rfl

/-- Whatever is read to its end as a generic value is the encoding of a node that stands for the
value. -/
theorem exists_node_of_nextValue {input : Bytes} {value : Value} {after last : Decoder}
    (hrun : (nextValue : Reading ε Value).run (ofBytes input) = .ok value after)
    (hfinish : Decoder.finish after = .ok () last) :
    ∃ node : Node, node.WellFormed 0 ∧ node.encoded = input ∧ node.value? = some value := by
  obtain ⟨item, middle, hnext, hrun⟩ := of_run_bind hrun
  obtain ⟨node, hdelivers, hvalue⟩ := recovers ε maxNesting (of_run_next hnext) hrun
  obtain ⟨hnode, hencoded⟩ := hdelivers.spans.eq_encoded hfinish
  exact ⟨node, hnode, hencoded.symm, hvalue⟩

end Reading

end Cose.Cbor
