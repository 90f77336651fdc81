import Cose.Proofs.Cbor.Decoder.Coupling
import Cose.Proofs.Header.Invariant

/-!
# Labels and their types

Headers that were read have integers or text strings as labels, and so does the list of critical
labels. The byte string, both maps and that list have no tags. Labels and the members of the list
may have any (`HeaderNodes.Typed`, `typed_of_readHeaders`). Bytes hold one pair of headers at most
(`HeaderNodes.Ahead.unique`), so headers that are not of these types are not read.
-/

set_option autoImplicit false
set_option relaxedAutoImplicit false

namespace Cose

open Cbor Node Decoder

variable {readers : List (Int64 × ParameterReader)} {capacity : Nat} {isProtected : Bool}

/-! ### Headers of the right types -/

/-- Whether a node is an integer of 64 bits with its sign or a text string, whatever its tags. -/
def Cbor.Node.IsLabel (node : Node) : Prop := node.integer?.isSome = true ∨ node.isText = true

/-- Whether a node is an array without tags of integers and text strings, whatever the tags of
these. -/
def Cbor.Node.IsLabelList (node : Node) : Prop :=
  node.tagNumbers = [] ∧ (∃ count?, node.itemValue = .array count?) ∧
    ∀ member ∈ node.members, member.IsLabel

/-- Whether a node is a map without tags with integers and text strings as labels, whatever the tags
of these, and with no list of critical labels but such an array. -/
def Cbor.Node.IsBucket (node : Node) : Prop :=
  ∃ entries, node.IsMapOf entries ∧ ∀ entry ∈ entries, entry.1.IsLabel ∧
    (entry.1.integer? = some HeaderLabel.crit.code → entry.2.IsLabelList)

/-- The nodes that headers consist of: a byte string, which is empty or holds one node, and another
node behind it. -/
structure HeaderNodes where
  /-- The tag numbers of the byte string. -/
  tagNumbers : List UInt64
  inside? : Option Node
  behind : Node

namespace HeaderNodes

/-- The content of the byte string. -/
def content (nodes : HeaderNodes) : Bytes :=
  match nodes.inside? with
  | none => []
  | some bucket => bucket.encoded

/-- Whether the nodes of headers stand between two cursors. -/
def Ahead (before : Decoder) (nodes : HeaderNodes) (after : Decoder) : Prop :=
  ∃ wrapper middle, before.Spans wrapper middle ∧ wrapper.tagNumbers = nodes.tagNumbers ∧
    wrapper.itemValue = .bytes nodes.content ∧
    (∀ bucket ∈ nodes.inside?, bucket.WellFormed 0) ∧ middle.Spans nodes.behind after

/-- Whether the byte string has no tags, and both maps are of the right types. -/
structure Typed (nodes : HeaderNodes) : Prop where
  tagNumbers_eq : nodes.tagNumbers = []
  inside : ∀ bucket ∈ nodes.inside?, bucket.IsBucket
  behind : nodes.behind.IsBucket

/-- Bytes hold the nodes of one pair of headers at most. -/
theorem Ahead.unique {before after last : Decoder} {nodes others : HeaderNodes}
    (hahead : nodes.Ahead before after) (hother : others.Ahead before last) : nodes = others := by
  obtain ⟨tags, inside?, behind⟩ := nodes
  obtain ⟨otherTags, other?, otherBehind⟩ := others
  obtain ⟨wrapper, middle, hwrapper, htags, hvalue, hinside, hbehind⟩ := hahead
  obtain ⟨_, between, hcounterpart, hotherTags, hotherValue, hotherInside, hotherBehind⟩ := hother
  obtain ⟨rfl, hmiddle⟩ := hwrapper.unique (.refl before) hcounterpart
  obtain ⟨rfl, _⟩ := hbehind.unique hmiddle hotherBehind
  have hcontent := ItemValue.bytes.inj (hvalue.symm.trans hotherValue)
  obtain rfl : inside? = other? := by
    cases inside? with
    | none =>
      cases other? with
      | none => rfl
      | some bucket =>
        have hpositive := bucket.length_encoded_pos
        rw [← show [] = bucket.encoded from hcontent] at hpositive
        cases hpositive
    | some bucket =>
      cases other? with
      | none =>
        have hpositive := bucket.length_encoded_pos
        rw [show bucket.encoded = [] from hcontent] at hpositive
        cases hpositive
      | some other =>
        rw [Node.encoded_inj (hinside bucket rfl).regular (hotherInside other rfl).regular hcontent]
  obtain rfl : tags = otherTags := htags.symm.trans hotherTags
  rfl

end HeaderNodes

/-! ### Headers that were read have the right types -/

theorem isLabelList_of_isListOf {node : Node} {critical : CriticalLabels}
    (hlist : node.IsListOf critical) : node.IsLabelList := by
  obtain ⟨token, members, rfl, harray, _, hlists⟩ := hlist
  refine ⟨rfl, harray, fun member hmem ↦ ?_⟩
  by_cases htext : member.isText = true
  · exact .inr htext
  · exact .inl (hlists.isSome member hmem (Bool.eq_false_iff.2 htext))

/-- An entry that was taken has a list of critical labels only as an array of labels. -/
theorem HeaderState.Takes.isLabelList {state visited : HeaderState} {label value : Node}
    (htakes : state.Takes readers capacity isProtected (label, value) visited)
    (hcrit : label.integer? = some HeaderLabel.crit.code) : value.IsLabelList := by
  cases htakes with
  | critical _ _ _ hlist => exact isLabelList_of_isListOf hlist
  | stored hlabel hother =>
    rw [hcrit] at hlabel
    exact absurd (Option.some.inj hlabel).symm hother
  | passedOver hpassed => exact absurd hcrit (integer?_ne_crit_of_passedOver hpassed)

theorem EntryRead.isLabel {state visited : HeaderState} {item : Item}
    {before middle start last : Decoder} {label : Node}
    (hread : EntryRead readers capacity isProtected state item before middle visited)
    (hdelivers : start.Delivers item label last) : label.IsLabel := by
  have hinteger {integer : Int64} (hlabel : item.toInt64 = .ok integer) : label.IsLabel := by
    refine .inl ?_
    rw [hdelivers.integer?_eq, hlabel]
    rfl
  cases hread with
  | critical hlabel => exact hinteger hlabel
  | stored hlabel => exact hinteger hlabel
  | passedOver hlabel => exact hinteger hlabel
  | textLabel hlabel => exact .inr (by rw [hdelivers.isText_eq, hlabel])

/-- A bucket that was read is a map with labels of the right types. -/
theorem isBucket_of_run_readBucket (hreaders : ∀ entry ∈ readers, entry.2.ConsumesValue)
    {state final : HeaderState} {before after : Decoder}
    (hrun : (readBucket readers capacity isProtected state).run before = .ok final after) :
    ∃ node : Node, before.Spans node after ∧ node.IsBucket := by
  obtain ⟨item, middle, count?, hnext, huntagged, hvalue, hloop⟩ := of_run_readBucket hrun
  have hvisit : Reading.VisitsMembers (readEntry readers capacity isProtected) true
      fun _ members _ ↦ ∃ entries, members = entryMembers entries ∧
        ∀ entry ∈ entries, entry.1.IsLabel ∧
          (entry.1.integer? = some HeaderLabel.crit.code → entry.2.IsLabelList) := by
    intro state visited item before middle after hnext hrun
    have hread := entryRead_of_run hrun
    obtain ⟨label, hlabel⟩ := exists_delivers_of_leaf hnext (entryRead_isContainer hread)
    obtain ⟨value, hspans, htakes⟩ := hread.exists_takes hreaders hlabel.integer?_eq
    refine ⟨[label, value], rfl, .two hlabel.spans hspans, ?_⟩
    rintro _ _ ⟨entries, rfl, hothers⟩
    exact ⟨(label, value) :: entries, rfl,
      List.forall_mem_cons.2 ⟨⟨hread.isLabel hlabel, htakes.isLabelList⟩, hothers⟩⟩
  obtain ⟨tags, token, _, hdelivers, entries, rfl, htyped⟩ :=
    Reading.exists_container_of_runBelow true hvisit (fun _ ↦ ⟨[], rfl, nofun⟩) hnext hvalue hloop
  obtain rfl : tags = [] := by
    have hnumbers : tags.map (·.number) = [] := hdelivers.tags_eq.symm.trans huntagged
    exact List.map_eq_nil_iff.1 hnumbers
  exact ⟨_, hdelivers.spans, entries,
    ⟨token, rfl, count?, hdelivers.value_eq.symm.trans hvalue⟩, htyped⟩

/-- Headers that were read have the right types. -/
theorem typed_of_readHeaders (hreaders : ∀ entry ∈ readers, entry.2.ConsumesValue)
    {before after : Decoder} {headers : DecodedHeaders}
    (hrun : (readHeaders readers capacity).run before = .ok headers after) :
    ∃ nodes : HeaderNodes, nodes.Ahead before after ∧ nodes.content = headers.protectedBytes ∧
      nodes.Typed := by
  obtain ⟨item, middle, _, _, hnext, hbytes, hprotected, hbucket, _⟩ := readHeaders_cases hrun
  obtain ⟨hvalue, huntagged⟩ := of_expectBytes hbytes
  have hleaf : item.isContainer = false := by rw [Item.isContainer, hvalue]
  obtain ⟨wrapper, hwrapper⟩ := exists_delivers_of_leaf hnext hleaf
  have hwrapperValue := hwrapper.value_eq.symm.trans hvalue
  have hwrapperTags := hwrapper.tags_eq.symm.trans huntagged
  obtain ⟨behind, hspans, hbehind⟩ := isBucket_of_run_readBucket hreaders hbucket
  rcases hprotected with ⟨hempty, _⟩ | ⟨_, between, last, hinner, hfinish⟩
  · have hnone {property : Node → Prop} : ∀ bucket ∈ none, property bucket :=
      fun bucket hmem ↦ absurd hmem (Option.not_mem_none bucket)
    refine ⟨⟨[], none, behind⟩, ⟨wrapper, middle, hwrapper.spans, hwrapperTags, ?_, hnone, hspans⟩,
      hempty.symm, rfl, hnone, hbehind⟩
    rw [hwrapperValue, hempty]
    rfl
  · obtain ⟨inside, hinside, htyped⟩ := isBucket_of_run_readBucket hreaders hinner
    obtain ⟨hwellFormed, hencoded⟩ := hinside.eq_encoded hfinish
    refine ⟨⟨[], some inside, behind⟩, ⟨wrapper, middle, hwrapper.spans, hwrapperTags, ?_, ?_,
      hspans⟩, hencoded.symm, rfl, ?_, hbehind⟩
    · rw [hwrapperValue, hencoded]
      rfl
    · rintro _ ⟨⟩
      exact hwellFormed
    · rintro _ ⟨⟩
      exact htyped

end Cose
