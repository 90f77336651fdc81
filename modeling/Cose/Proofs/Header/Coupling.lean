import Cose.Proofs.Cbor.Decoder.Coupling
import Cose.Proofs.Header.Labels

/-!
# Headers that look alike

Of an entry the reader sees the value of its label, and the value and tags of what is behind it; of
the list of critical labels also the values of its members. It sees no tags of labels and members
(`EntriesAlike`). Two headers that look alike in this way are read alike, wherever they stand: both
are rejected for the same reason or both give the same parameters (`runAlike_readHeaders`). One
entry is compared first (`visitsAlike_readEntry`), then a bucket (`runAlike_readBucket`).

So the types of labels decide whether headers are read, and their tags do not
(`labels_typed_of_readHeaders`).
-/

set_option autoImplicit false
set_option relaxedAutoImplicit false

namespace Cose

open Cbor Node Decoder

variable {capacity : Nat} {isProtected : Bool}

/-! ### What the reader sees -/

/-- Whether two entries of a bucket look alike: their labels have the same value, whatever their
tags, and so have the members of lists of critical labels. -/
structure EntriesAlike (left right : Node × Node) : Prop where
  label_eq : left.1.itemValue = right.1.itemValue
  value_eq : left.2.itemValue = right.2.itemValue
  tagNumbers_eq : left.2.tagNumbers = right.2.tagNumbers
  members : left.1.integer? = some HeaderLabel.crit.code →
    List.Forall₂ (fun member counterpart ↦ member.itemValue = counterpart.itemValue)
      left.2.members right.2.members

/-- Whether two nodes look alike as buckets: they have the same value and tags, and if they are
maps, their entries look alike. -/
structure BucketsAlike (left right : Node) : Prop where
  value_eq : left.itemValue = right.itemValue
  tagNumbers_eq : left.tagNumbers = right.tagNumbers
  members : ∀ count?, left.itemValue = .map count? → ∃ lefts rights,
    left.members = entryMembers lefts ∧ right.members = entryMembers rights ∧
      List.Forall₂ EntriesAlike lefts rights

/-- Whether the nodes of two headers look alike. -/
structure HeaderNodes.Alike (nodes others : HeaderNodes) : Prop where
  tagNumbers_eq : nodes.tagNumbers = others.tagNumbers
  inside : Option.Rel BucketsAlike nodes.inside? others.inside?
  behind : BucketsAlike nodes.behind others.behind

/-! ### Items with the same value -/

section Items

variable {item counterpart : Item} (hvalue : item.value = counterpart.value)
include hvalue

theorem Cbor.Item.toInt64_congr : item.toInt64 = counterpart.toInt64 := by
  rw [Item.toInt64, hvalue, Item.toInt64]

theorem readLabel_congr : readLabel item = readLabel counterpart := by
  rw [readLabel, Item.toInt64_congr hvalue, readLabel]

theorem readCriticalLabel_congr (critical : CriticalLabels) :
    readCriticalLabel critical item = readCriticalLabel critical counterpart := by
  rw [readCriticalLabel, readLabel_congr hvalue, hvalue, readCriticalLabel]

theorem nativeValue?_congr (htags : item.tags = counterpart.tags) :
    nativeValue? item = nativeValue? counterpart := by
  rw [nativeValue?, htags, hvalue, Item.toInt64_congr hvalue, nativeValue?]

theorem readEntry_congr (readers : List (Int64 × ParameterReader)) (capacity : Nat)
    (isProtected : Bool) (state : HeaderState) :
    readEntry readers capacity isProtected state item =
      readEntry readers capacity isProtected state counterpart := by
  unfold readEntry
  rw [readLabel_congr hvalue, hvalue]

end Items

/-! ### Labels and lists of labels -/

section Labels

variable {first second : Decoder} {item : Item}

/-- What follows a label may know which one it is. -/
theorem runAlike_readLabel_bind {α : Type} {related : α → Decoder → α → Decoder → Prop}
    {following : Int64 → Reading Error α}
    (hfollowing : ∀ label, item.toInt64 = .ok label →
      RunAlike related ((following label).run first) ((following label).run second)) :
    RunAlike related ((readLabel item >>= following).run first)
      ((readLabel item >>= following).run second) := by
  cases hlabel : item.toInt64 with
  | error cause =>
    have hfails (decoder : Decoder) :
        (readLabel item).run decoder = .error (.decode cause) decoder := by
      rw [readLabel, hlabel]
      rfl
    rw [Reading.run_bind_error (hfails first), Reading.run_bind_error (hfails second)]
    exact .error _ first second
  | ok label =>
    have hreads (decoder : Decoder) : (readLabel item).run decoder = .ok label decoder := by
      rw [readLabel, hlabel]
      rfl
    rw [Reading.run_bind_ok (hreads first), Reading.run_bind_ok (hreads second)]
    exact hfollowing label hlabel

/-- A critical label is read without looking at the cursor, and no container is one. -/
theorem runAlike_readCriticalLabel {behind : Decoder → Decoder → Prop}
    (hbehind : item.isContainer = false → behind first second) (critical : CriticalLabels) :
    RunAlike (SameResult behind) ((readCriticalLabel critical item).run first)
      ((readCriticalLabel critical item).run second) := by
  unfold readCriticalLabel
  split
  case h_1 hvalue | h_2 hvalue =>
    refine runAlike_readLabel_bind fun label _ ↦ ?_
    split
    · exact .error _ first second
    · split
      · exact .error _ first second
      · exact .ok ⟨rfl, hbehind (by rw [Item.isContainer, hvalue])⟩
  case h_3 hvalue => exact .ok ⟨rfl, hbehind (by rw [Item.isContainer, hvalue])⟩
  case h_4 => exact .error _ first second

end Labels

section Members

variable {first second : Decoder} {outer inner : List Level} {left right : Node}
  {others more : List Node} {rest last : Bytes}

/-- The tags of a member of the list of critical labels are not looked at. -/
theorem visitsAlike_readCriticalLabel (hvalue : left.itemValue = right.itemValue) :
    Reading.VisitsAlike readCriticalLabel [left] [right] := by
  intro critical first second outer inner others more rest last hfirst hsecond
  obtain ⟨start, ahead, hlevel, hnode, hnext, hothers⟩ := hfirst.next_node
  obtain ⟨other, beyond, hotherLevel, hcounterpart, hotherNext, hmore⟩ := hsecond.next_node
  have hsame : (other.itemOf right beyond).value = (start.itemOf left ahead).value := by
    rw [value_itemOf, value_itemOf, hvalue]
  refine ⟨_, _, _, _, hlevel, hotherLevel, hnext, hotherNext, ?_⟩
  rw [readCriticalLabel_congr hsame]
  refine runAlike_readCriticalLabel (fun hleaf ↦ ⟨?_, ?_⟩) critical
  · exact hothers _ (reaches_inside hnode (value_itemOf start left ahead) hleaf ahead)
  · exact hmore _ (reaches_inside hcounterpart (hsame.symm.trans (value_itemOf other right beyond))
      hleaf beyond)

/-- Two lists of critical labels are read alike if their members have the same values. -/
theorem runAlike_readCritical (hvalue : left.itemValue = right.itemValue)
    (htags : left.tagNumbers = right.tagNumbers)
    (hmembers : List.Forall₂ (fun member counterpart ↦ member.itemValue = counterpart.itemValue)
      left.members right.members)
    (hfirst : first.Faces outer (left :: others) rest)
    (hsecond : second.Faces inner (right :: more) last) :
    RunAlike (SameResult fun after reached ↦
        after.Faces outer others rest ∧ reached.Faces inner more last)
      (readCritical.run first) (readCritical.run second) := by
  obtain ⟨start, ahead, _, hnode, hnext, hothers⟩ := hfirst.next_node
  obtain ⟨other, beyond, _, hcounterpart, hotherNext, hmore⟩ := hsecond.next_node
  unfold readCritical
  rw [Reading.run_bind_ok (Reading.run_next hnext),
    Reading.run_bind_ok (Reading.run_next hotherNext)]
  simp only [value_itemOf, tags_itemOf, hvalue, htags]
  cases harray : right.itemValue with
  | array count? =>
    cases right.tagNumbers with
    | cons tag tags => exact .error _ _ _
    | nil =>
      have hfaces := faces_members false hnode (hvalue.trans harray) ahead
      have hotherFaces := faces_members false hcounterpart harray beyond
      rw [← List.flatMap_singleton' left.members] at hfaces
      rw [← List.flatMap_singleton' right.members] at hotherFaces
      have hloop := Reading.runAlike_runBelow (fun member ↦ [member])
        (fun _ _ ↦ visitsAlike_readCriticalLabel) hmembers ⟨[], false⟩ hfaces hotherFaces
      rw [← level_itemOf start left ahead, ← level_itemOf other right beyond] at hloop
      refine RunAlike.bind hloop ?_
      rintro critical after _ reached ⟨rfl, hafter, hreached⟩
      split
      · exact .error _ after reached
      · exact .ok ⟨rfl, hothers _ hafter, hmore _ hreached⟩
  | _ => exact .error _ _ _

/-- Values without a reader that have the same value and tags are read alike, or passed over. -/
theorem runAlike_readValue? (hvalue : left.itemValue = right.itemValue)
    (htags : left.tagNumbers = right.tagNumbers) (label : Int64)
    (hfirst : first.Faces outer (left :: others) rest)
    (hsecond : second.Faces inner (right :: more) last) :
    RunAlike (SameResult fun after reached ↦
        after.Faces outer others rest ∧ reached.Faces inner more last)
      ((readValue? [] label).run first) ((readValue? [] label).run second) := by
  obtain ⟨start, ahead, _, hnode, hnext, hothers⟩ := hfirst.next_node
  obtain ⟨other, beyond, _, hcounterpart, hotherNext, hmore⟩ := hsecond.next_node
  have hnative :
      nativeValue? (start.itemOf left ahead) = nativeValue? (other.itemOf right beyond) :=
    nativeValue?_congr (by rw [value_itemOf, value_itemOf, hvalue])
      (by rw [tags_itemOf, tags_itemOf, htags])
  unfold readValue?
  rw [List.lookup_nil]
  dsimp only
  rw [Reading.run_bind_ok (Reading.run_next hnext),
    Reading.run_bind_ok (Reading.run_next hotherNext), hnative]
  cases hcase : nativeValue? (other.itemOf right beyond) with
  | some value =>
    have hleaf := isContainer_of_nativeValue? (hnative.trans hcase)
    have hotherLeaf := isContainer_of_nativeValue? hcase
    exact .ok ⟨rfl, hothers _ (reaches_inside hnode (value_itemOf ..) hleaf ahead),
      hmore _ (reaches_inside hcounterpart (value_itemOf ..) hotherLeaf beyond)⟩
  | none =>
    obtain ⟨position, hskip⟩ := Reading.run_skip (ε := Error) hnode ahead
    obtain ⟨place, hotherSkip⟩ := Reading.run_skip (ε := Error) hcounterpart beyond
    dsimp only
    rw [Reading.run_bind_ok hskip, Reading.run_bind_ok hotherSkip]
    exact .ok ⟨rfl, hothers _ ⟨position, .refl _⟩, hmore _ ⟨place, .refl _⟩⟩

end Members

/-! ### Entries and buckets -/

/-- Behind labels with the same value the rest of two entries is read alike. A label that is a
container is rejected, so what stands behind it does not matter. -/
theorem runAlike_readEntry {first second : Decoder} {outer inner : List Level}
    {left right : Node × Node} {others more : List Node} {rest last : Bytes} {item : Item}
    (halike : EntriesAlike left right) (hitem : item.value = left.1.itemValue)
    (hbehind : item.isContainer = false →
      first.Faces outer (left.2 :: others) rest ∧ second.Faces inner (right.2 :: more) last)
    (state : HeaderState) :
    RunAlike (SameResult fun after reached ↦
        after.Faces outer others rest ∧ reached.Faces inner more last)
      ((readEntry [] capacity isProtected state item).run first)
      ((readEntry [] capacity isProtected state item).run second) := by
  unfold readEntry
  split
  case h_1 hvalue | h_2 hvalue =>
    obtain ⟨hfirst, hsecond⟩ := hbehind (by rw [Item.isContainer, hvalue])
    refine runAlike_readLabel_bind fun label hlabel ↦ ?_
    have hinteger : left.1.integer? = some label := by
      rw [integer?, ← hitem]
      exact congrArg Except.toOption hlabel
    split
    next hcrit =>
      split
      · exact .error _ first second
      · split
        · exact .error _ first second
        · refine RunAlike.bind (runAlike_readCritical halike.value_eq halike.tagNumbers_eq
            (halike.members (hcrit ▸ hinteger)) hfirst hsecond) ?_
          rintro critical after _ reached ⟨rfl, hbehind⟩
          exact .ok ⟨rfl, hbehind⟩
    -- The value is stored or passed over, as the one reading of it says for both entries.
    · refine RunAlike.bind
        (runAlike_readValue? halike.value_eq halike.tagNumbers_eq label hfirst hsecond) ?_
      rintro value? after _ reached ⟨rfl, hbehind⟩
      split
      · exact .ofExcept _ _ hbehind
      · exact .ok ⟨rfl, hbehind⟩
  case h_3 hvalue =>
    obtain ⟨hfirst, hsecond⟩ := hbehind (by rw [Item.isContainer, hvalue])
    obtain ⟨value, middle, after, hnext, _, _, hskip, hafter⟩ :=
      Reading.exists_run_skip (ε := Error) hfirst
    obtain ⟨counterpart, between, reached, hotherNext, _, _, hotherSkip, hreached⟩ :=
      Reading.exists_run_skip (ε := Error) hsecond
    rw [Reading.run_bind_ok (Reading.run_next hnext), Reading.run_bind_ok hskip,
      Reading.run_bind_ok (Reading.run_next hotherNext), Reading.run_bind_ok hotherSkip]
    exact .ok ⟨rfl, hafter, hreached⟩
  case h_4 => exact .error _ first second

/-- One visit of the loop over a bucket does the same with entries that look alike. -/
theorem visitsAlike_readEntry {left right : Node × Node} (halike : EntriesAlike left right) :
    Reading.VisitsAlike (readEntry [] capacity isProtected) [left.1, left.2]
      [right.1, right.2] := by
  intro state first second outer inner others more rest last hfirst hsecond
  obtain ⟨start, ahead, hlevel, hnode, hnext, hothers⟩ := hfirst.next_node
  obtain ⟨other, beyond, hotherLevel, hcounterpart, hotherNext, hmore⟩ := hsecond.next_node
  have hsame : (other.itemOf right.1 beyond).value = (start.itemOf left.1 ahead).value := by
    rw [value_itemOf, value_itemOf, halike.label_eq]
  refine ⟨_, _, _, _, hlevel, hotherLevel, hnext, hotherNext, ?_⟩
  rw [readEntry_congr hsame]
  refine runAlike_readEntry halike (value_itemOf start left.1 ahead) (fun hleaf ↦ ⟨?_, ?_⟩) state
  · exact hothers _ (reaches_inside hnode (value_itemOf start left.1 ahead) hleaf ahead)
  · exact hmore _ (reaches_inside hcounterpart
      (hsame.symm.trans (value_itemOf other right.1 beyond)) hleaf beyond)

/-- Buckets that look alike are read alike, from whatever was read before them. -/
theorem runAlike_readBucket {before after other last : Decoder} {left right : Node}
    (halike : BucketsAlike left right) (hleft : before.Spans left after)
    (hright : other.Spans right last) (state : HeaderState) :
    RunAlike (SameResult fun reached ended ↦ reached.SameAhead after ∧ ended.SameAhead last)
      ((readBucket [] capacity isProtected state).run before)
      ((readBucket [] capacity isProtected state).run other) := by
  obtain ⟨start, ahead, position, hnode, hnext, hafter⟩ := hleft.exists_next
  obtain ⟨second, beyond, place, hcounterpart, hotherNext, hlast⟩ := hright.exists_next
  unfold readBucket
  rw [Reading.run_bind_ok (Reading.run_next hnext),
    Reading.run_bind_ok (Reading.run_next hotherNext)]
  simp only [expectUntagged, value_itemOf, tags_itemOf, halike.value_eq, halike.tagNumbers_eq]
  refine RunAlike.bind (.ofExcept (fun middle between ↦
    middle = start.inside left ahead ∧ between = second.inside right beyond) _ ⟨rfl, rfl⟩) ?_
  rintro _ _ _ _ ⟨_, rfl, rfl⟩
  cases hmap : right.itemValue with
  | map count? =>
    have hvalue := halike.value_eq.trans hmap
    obtain ⟨lefts, rights, hlefts, hrights, hentries⟩ := halike.members count? hvalue
    have hfaces := faces_members true hnode hvalue ahead
    have hotherFaces := faces_members true hcounterpart hmap beyond
    rw [hlefts] at hfaces
    rw [hrights] at hotherFaces
    have hloop := Reading.runAlike_runBelow (fun entry ↦ [entry.1, entry.2])
      (@visitsAlike_readEntry capacity isProtected) hentries state hfaces hotherFaces
    rw [← level_itemOf start left ahead, ← level_itemOf second right beyond] at hloop
    refine RunAlike.imp hloop ?_
    rintro final reached _ ended ⟨rfl, hreached, hended⟩
    obtain ⟨_, hreached⟩ := hreached.exists_agrees
    obtain ⟨_, hended⟩ := hended.exists_agrees
    exact ⟨rfl, ⟨_, _, _, _, hreached, hafter⟩, ⟨_, _, _, _, hended, hlast⟩⟩
  | _ => exact .error _ _ _

/-! ### Both buckets -/

/-- A cursor with nothing ahead and no container open can be finished. -/
theorem Cbor.Decoder.SameAhead.exists_finish {decoder : Decoder} {position : Nat}
    (hsame : decoder.SameAhead ⟨[], position, []⟩) : ∃ last, finish decoder = .ok () last := by
  obtain ⟨rest, levels, place, other, hdecoder, hnothing⟩ := hsame
  have hleave : leave 0 rest other levels = .ok () ⟨[], position, []⟩ := hnothing.ascendTo_eq.symm
  obtain ⟨reached, hreached⟩ := leave_of_position hleave place
  refine ⟨⟨[], reached, []⟩, ?_⟩
  rw [finish, bind_eq_ok_iff]
  exact ⟨(), _, hdecoder.ascendTo_eq.trans hreached, rfl⟩

/-- The content of the protected byte string is read alike. -/
theorem runAlike_protected {left right : Node} (halike : BucketsAlike left right)
    (hleft : left.WellFormed 0) (hright : right.WellFormed 0) :
    let reading : Reading Error HeaderState := do
      let state ← readBucket [] capacity true ⟨[], none⟩
      Reading.finish
      return state
    RunAlike (SameResult fun _ _ ↦ True) (reading.run (.ofBytes left.encoded))
      (reading.run (.ofBytes right.encoded)) := by
  intro reading
  have hspans {node : Node} (hnode : node.WellFormed 0) :
      (ofBytes node.encoded).Spans node ⟨[], 0, []⟩ :=
    ⟨ofBytes node.encoded, [], 0, rfl, hnode, (List.append_nil _).symm, .refl _⟩
  refine RunAlike.bind (runAlike_readBucket halike (hspans hleft) (hspans hright) _) ?_
  rintro state after _ reached ⟨rfl, hafter, hreached⟩
  obtain ⟨last, hlast⟩ := hafter.exists_finish
  obtain ⟨ended, hended⟩ := hreached.exists_finish
  rw [Reading.run_bind_ok (Reading.run_finish hlast),
    Reading.run_bind_ok (Reading.run_finish hended)]
  exact .ok ⟨rfl, trivial⟩

/-- Whether two readings of headers gave the same parameters. -/
def SameParameters (headers : DecodedHeaders) (_ : Decoder) (others : DecodedHeaders)
    (_ : Decoder) : Prop :=
  headers.parameters = others.parameters

/-- The second bucket is read alike, and the critical labels are marked alike. -/
theorem runAlike_unprotected {before after other last : Decoder} {left right : Node}
    {content counterpart : Bytes} (halike : BucketsAlike left right)
    (hleft : before.Spans left after) (hright : other.Spans right last) (first : HeaderState) :
    let reading (content : Bytes) : Reading Error DecodedHeaders := do
      let state ← readBucket [] capacity false first
      let parameters ←
        match state.critical? with
        | none => pure state.parameters
        | some critical => Reading.ofExcept (critical.mark state.parameters)
      return ⟨content, parameters⟩
    RunAlike SameParameters ((reading content).run before) ((reading counterpart).run other) := by
  intro reading
  refine RunAlike.bind (runAlike_readBucket halike hleft hright first) ?_
  rintro state reached _ ended ⟨rfl, _⟩
  split
  · exact .ok rfl
  · refine RunAlike.bind (.ofExcept (fun _ _ ↦ True) _ trivial) ?_
    rintro parameters _ _ _ ⟨rfl, _⟩
    exact .ok rfl

theorem expectBytes_of_value {item : Item} {content : Bytes}
    (hvalue : item.value = .bytes content) :
    expectBytes item = (expectUntagged item "bstr").map fun _ ↦ content := by
  rw [expectBytes, hvalue]
  cases expectUntagged item "bstr" <;> rfl

/-- The byte string of headers comes as the next item, and what was behind it is behind that. -/
theorem HeaderNodes.Ahead.exists_next {before after : Decoder} {nodes : HeaderNodes}
    (hahead : nodes.Ahead before after) :
    ∃ item middle last, next before = .ok item middle ∧
      expectBytes item = (if nodes.tagNumbers = [] then .ok nodes.content
        else .error (.unexpectedItem "tag" "bstr")) ∧
      (∀ bucket ∈ nodes.inside?, bucket.WellFormed 0) ∧ middle.Spans nodes.behind last := by
  obtain ⟨wrapper, middle, hwrapper, htags, hvalue, hinside, hbehind⟩ := hahead
  obtain ⟨start, ahead, position, hnode, hnext, hmiddle⟩ := hwrapper.exists_next
  have hitem : (start.itemOf wrapper ahead).value = .bytes nodes.content := by
    rw [value_itemOf, hvalue]
  have hleaf : (start.itemOf wrapper ahead).isContainer = false := by rw [Item.isContainer, hitem]
  obtain ⟨place, hplace⟩ :=
    (reaches_inside hnode (value_itemOf start wrapper ahead) hleaf ahead).exists_agrees
  obtain ⟨last, hlast⟩ := SameAhead.exists_spans ⟨_, _, _, _, hmiddle, hplace⟩ hbehind
  refine ⟨_, _, last, hnext, ?_, hinside, hlast⟩
  rw [expectBytes_of_value hitem, expectUntagged, tags_itemOf, htags]
  split <;> rfl

/-- Headers that look alike are read alike. -/
theorem runAlike_readHeaders {before after other last : Decoder} {nodes others : HeaderNodes}
    (halike : nodes.Alike others) (hleft : nodes.Ahead before after)
    (hright : others.Ahead other last) :
    RunAlike SameParameters ((readHeaders [] capacity).run before)
      ((readHeaders [] capacity).run other) := by
  obtain ⟨item, middle, reached, hnext, hbytes, hinside, hspans⟩ := hleft.exists_next
  obtain ⟨_, between, ended, hotherNext, hotherBytes, hotherInside, hotherSpans⟩ :=
    hright.exists_next
  obtain ⟨tags, inside?, behind⟩ := nodes
  obtain ⟨_, other?, counterpart⟩ := others
  obtain ⟨rfl, hbuckets, hbehind⟩ := halike
  unfold readHeaders
  rw [Reading.run_bind_ok (Reading.run_next hnext),
    Reading.run_bind_ok (Reading.run_next hotherNext), hbytes, hotherBytes]
  dsimp only at hinside hotherInside hspans hotherSpans ⊢
  cases tags with
  | cons tag tags => exact .error _ middle between
  | nil =>
    rw [if_pos rfl, if_pos rfl]
    cases hbuckets with
    | none => exact runAlike_unprotected hbehind hspans hotherSpans _
    | @some left right hbucket =>
      have hnonempty (node behind : Node) :
          ¬(HeaderNodes.content ⟨[], some node, behind⟩).isEmpty = true := fun hempty ↦
        List.ne_nil_of_length_pos node.length_encoded_pos (List.isEmpty_iff.1 hempty)
      rw [Reading.run_bind_ok (Reading.run_ofExcept rfl middle),
        Reading.run_bind_ok (Reading.run_ofExcept rfl between),
        if_neg (hnonempty left behind), if_neg (hnonempty right counterpart)]
      refine RunAlike.bind (.within (fun after last ↦ after = middle ∧ last = between)
        (runAlike_protected hbucket (hinside left rfl) (hotherInside right rfl)) ⟨rfl, rfl⟩) ?_
      rintro state _ _ _ ⟨rfl, rfl, rfl⟩
      exact runAlike_unprotected hbehind hspans hotherSpans state

/-- Nodes of headers that are the whole input. -/
theorem HeaderNodes.ahead_ofBytes (nodes : HeaderNodes) (huntagged : nodes.tagNumbers = [])
    (hlength : nodes.content.length < 2 ^ 64)
    (hinside : ∀ bucket ∈ nodes.inside?, bucket.WellFormed 0)
    (hbehind : nodes.behind.WellFormed 0) {input : Bytes}
    (hinput : input = (leaf (.ofBytes nodes.content hlength)).encoded ++ nodes.behind.encoded)
    (position : Nat) : nodes.Ahead (ofBytes input) ⟨[], position, []⟩ := by
  refine ⟨leaf (.ofBytes nodes.content hlength), ⟨nodes.behind.encoded, 0, []⟩, ?_,
    huntagged.symm, rfl, hinside, ?_⟩
  · exact ⟨ofBytes input, nodes.behind.encoded, 0, rfl, wellFormed_leaf 0 _, hinput, .refl _⟩
  · exact ⟨_, [], position, rfl, hbehind, (List.append_nil _).symm, .refl _⟩

/-! ### Types decide, tags of labels do not -/

/-- Headers that are read without readers have labels and critical labels of the right types, and a
byte string, maps and a list of critical labels without tags; where one of these is not so, reading
fails. Tags of labels and of critical labels are never looked at: headers that look alike but for
them are read alike. -/
theorem labels_typed_of_readHeaders (capacity : Nat) (before : Decoder) :
    (∀ headers after, (readHeaders [] capacity).run before = .ok headers after →
      ∃ nodes : HeaderNodes, nodes.Ahead before after ∧
        nodes.content = headers.protectedBytes ∧ nodes.Typed) ∧
    (∀ (nodes : HeaderNodes) after, nodes.Ahead before after → ¬nodes.Typed →
      ∃ cause reached, (readHeaders [] capacity).run before = .error cause reached) ∧
    ∀ (nodes others : HeaderNodes) after other last, nodes.Ahead before after →
      others.Ahead other last → nodes.Alike others →
      RunAlike SameParameters ((readHeaders [] capacity).run before)
        ((readHeaders [] capacity).run other) := by
  have htyped : ∀ headers after, (readHeaders [] capacity).run before = .ok headers after →
      ∃ nodes : HeaderNodes, nodes.Ahead before after ∧
        nodes.content = headers.protectedBytes ∧ nodes.Typed :=
    fun _ _ ↦ typed_of_readHeaders (List.forall_mem_nil _)
  refine ⟨htyped, fun nodes after hahead huntyped ↦ ?_, fun nodes others after other last hahead
    hother halike ↦ runAlike_readHeaders halike hahead hother⟩
  cases hrun : (readHeaders [] capacity).run before with
  | error cause reached => exact ⟨cause, reached, rfl⟩
  | ok headers last =>
    obtain ⟨others, hother, _, hothers⟩ := htyped headers last hrun
    obtain rfl := hahead.unique hother
    exact absurd hothers huntyped

/-- A map whose label has a tag, the same map without it, and a map that has a tag itself. -/
theorem labels_typed_of_readHeaders_tagged :
    let entry (tags : List Argument) : Node × Node :=
      (.mk tags (.leaf (.unsigned (.shortest 1))) [], leaf (.unsigned (.shortest 2)))
    let map (tags : List Argument) : Node := .mk [] (.counting true 1) (entryMembers [entry tags])
    let tagged : HeaderNodes := ⟨[], none, map [.shortest 1]⟩
    let plain : HeaderNodes := ⟨[], none, map []⟩
    let taggedMap : HeaderNodes := ⟨[], none, .mk [.shortest 1] (.counting true 0) []⟩
    let before := ofBytes [0x40, 0xa1, 0xc1, 0x01, 0x02]
    let other := ofBytes [0x40, 0xa1, 0x01, 0x02]
    let third := ofBytes [0x40, 0xc1, 0xa0]
    let headers : DecodedHeaders := ⟨[], [⟨1, false, false, .int 2⟩]⟩
    let after : Decoder := ⟨[], 5, [⟨.items 0, true, 2⟩]⟩
    ((readHeaders [] 4).run before = .ok headers after ∧
        ∃ nodes : HeaderNodes, nodes.Ahead before after ∧
          nodes.content = headers.protectedBytes ∧ nodes.Typed) ∧
      (taggedMap.Ahead third ⟨[], 3, []⟩ ∧ ¬taggedMap.Typed ∧
        ∃ cause reached, (readHeaders [] 4).run third = .error cause reached) ∧
      tagged.Ahead before ⟨[], 5, []⟩ ∧ plain.Ahead other ⟨[], 4, []⟩ ∧ tagged.Alike plain ∧
      RunAlike SameParameters ((readHeaders [] 4).run before) ((readHeaders [] 4).run other) := by
  intro entry map tagged plain taggedMap before other third headers after
  have hrun : (readHeaders [] 4).run before = .ok headers after := by
    with_unfolding_all rfl
  have htag : [Argument.shortest 1].length ≤ maxTags := by decide
  have hnone : ∀ bucket ∈ (none : Option Node), bucket.WellFormed 0 := by simp
  have hmap {tags : List Argument} (htags : tags.length ≤ maxTags) : (map tags).WellFormed 0 :=
    wellFormed_counting (Nat.zero_le _) (by decide) (by decide) rfl
      ⟨⟨htags, trivial, rfl, trivial⟩, wellFormed_leaf 1 _, trivial⟩
  have htagged : tagged.Ahead before ⟨[], 5, []⟩ :=
    tagged.ahead_ofBytes rfl (by decide +zetaReduce) hnone (hmap htag) rfl 5
  have hplain : plain.Ahead other ⟨[], 4, []⟩ :=
    plain.ahead_ofBytes rfl (by decide +zetaReduce) hnone (hmap (Nat.zero_le _)) rfl 4
  have htaggedMap : taggedMap.Ahead third ⟨[], 3, []⟩ :=
    taggedMap.ahead_ofBytes rfl (by decide +zetaReduce) hnone
      (wellFormed_counting htag (by decide) (Nat.zero_le _) rfl trivial) rfl 3
  have huntyped : ¬taggedMap.Typed := by
    rintro ⟨_, _, _, ⟨_, hsame, _⟩, _⟩
    cases hsame
  have halike : tagged.Alike plain := by
    have hentry : EntriesAlike (entry [.shortest 1]) (entry []) :=
      ⟨rfl, rfl, rfl, fun hcrit ↦ absurd hcrit (by decide +zetaReduce)⟩
    exact ⟨rfl, .none, rfl, rfl, fun _ _ ↦ ⟨_, _, rfl, rfl, .cons hentry .nil⟩⟩
  obtain ⟨htyped, hfails, _⟩ := labels_typed_of_readHeaders 4 third
  obtain ⟨hsucceeds, _, hsame⟩ := labels_typed_of_readHeaders 4 before
  exact ⟨⟨hrun, hsucceeds headers after hrun⟩,
    ⟨htaggedMap, huntyped, hfails taggedMap _ htaggedMap huntyped⟩, htagged, hplain, halike,
    hsame tagged plain _ other _ htagged hplain halike⟩

/-- An unprotected map whose label has a tag is read, and so is a protected one in which the list of
critical labels has a member with a tag. -/
theorem readHeaders_taggedLabel :
    let tagged := Node.mk [.shortest 1] (.leaf (.unsigned (.shortest 1))) []
    let number (argument : UInt64) := leaf (.unsigned (.shortest argument))
    let map (count : Nat) := Node.mk [] (.counting true count)
    let nodes : HeaderNodes := ⟨[], none, map 1 [tagged, number 2]⟩
    let others : HeaderNodes := ⟨[], some (map 2 [number 1, number 7, number 2,
      .mk [] (.counting false 1) [tagged]]), map 0 []⟩
    let before := ofBytes [0x40, 0xa1, 0xc1, 0x01, 0x02]
    let other := ofBytes [0x47, 0xa2, 0x01, 0x07, 0x02, 0x81, 0xc1, 0x01, 0xa0]
    tagged.tagNumbers = [1] ∧
      nodes.Ahead before ⟨[], 5, []⟩ ∧ others.Ahead other ⟨[], 9, []⟩ ∧
      (∃ after, (readHeaders [] 4).run before = .ok ⟨[], [⟨1, false, false, .int 2⟩]⟩ after) ∧
      ∃ after, (readHeaders [] 4).run other =
        .ok ⟨others.content, [⟨1, true, true, .int 7⟩]⟩ after := by
  intro tagged number map nodes others before other
  have hnone : ∀ bucket ∈ (none : Option Node), bucket.WellFormed 0 := by simp
  have htagged {level : Nat} : tagged.WellFormed level :=
    ⟨(by decide : 1 ≤ maxTags), trivial, rfl, trivial⟩
  have hmap (count : Nat) (hcount : count ≤ maxItems) {members : List Node}
      (hmembers : members.length = 2 * count) (hall : AllWellFormed 1 members) :
      (map count members).WellFormed 0 :=
    wellFormed_counting (Nat.zero_le _) (by decide) hcount hmembers hall
  refine ⟨rfl, ?_, ?_, ⟨⟨[], 5, [⟨.items 0, true, 2⟩]⟩, by with_unfolding_all rfl⟩,
    ⟨⟨[], 9, [⟨.items 0, true, 0⟩]⟩, by with_unfolding_all rfl⟩⟩
  · exact nodes.ahead_ofBytes rfl (by decide +zetaReduce) hnone
      (hmap 1 (by decide) rfl ⟨htagged, wellFormed_leaf 1 _, trivial⟩) rfl 5
  · refine others.ahead_ofBytes rfl (by decide +zetaReduce) ?_
      (hmap 0 (by decide) rfl trivial) rfl 9
    rintro _ ⟨⟩
    have hlist : WellFormed 1 (.mk [] (.counting false 1) [tagged]) :=
      wellFormed_counting (Nat.zero_le _) (by decide) (by decide) rfl ⟨htagged, trivial⟩
    exact hmap 2 (by decide) rfl
      ⟨wellFormed_leaf 1 _, wellFormed_leaf 1 _, wellFormed_leaf 1 _, hlist, trivial⟩

end Cose
