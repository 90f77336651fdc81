import Cose.Proofs.Cbor.Decoder.Members
import Cose.Proofs.Header.Acceptance

/-!
# Entries of header maps

The entries of both buckets as they stand in the bytes, against what is read from them. An entry is
kept if it is the list of critical labels, or if its value has a reader or is of native type; the
others are passed over. `HeaderState.Takes` says what one entry does to what was read before it, and
`HeaderState.TakesAll` what several do, one after the other.

A bucket that was read is a map whose entries were taken (`takesAll_of_run_readBucket`), and headers
that were read are a byte string, which is empty or holds such a map, and a second map behind it
(`takesAll_of_readHeaders`).
-/

set_option autoImplicit false
set_option relaxedAutoImplicit false

namespace Cose

open Cbor Node Decoder

variable {readers : List (Int64 × ParameterReader)} {capacity : Nat} {isProtected : Bool}

/-! ### Entries in the bytes -/

/-- The integer that a label is, whatever its tags. -/
def Cbor.Node.integer? (node : Node) : Option Int64 :=
  (Item.toInt64 ⟨node.itemValue, 0, 0, []⟩).toOption

/-- Whether a node is a value of native type. -/
def Cbor.Node.isNative (node : Node) : Bool :=
  (nativeValue? ⟨node.itemValue, 0, 0, node.tagNumbers⟩).isSome

/-- The integer label of an entry that is kept: of the list of critical labels, of a value that
there is a reader for, or of a value of native type. -/
def keptLabel? (readers : List (Int64 × ParameterReader)) (entry : Node × Node) : Option Int64 :=
  entry.1.integer?.filter fun label ↦
    label == HeaderLabel.crit.code || ((readers.lookup label).isSome || entry.2.isNative)

theorem keptLabel?_of_integer {label : Node} {integer : Int64}
    (hlabel : label.integer? = some integer) (value : Node) :
    keptLabel? readers (label, value) =
      if integer == HeaderLabel.crit.code ||
        ((readers.lookup integer).isSome || value.isNative) then some integer else none := by
  rw [keptLabel?, hlabel, Option.filter_some]

/-- The members of a map with given entries. -/
def entryMembers (entries : List (Node × Node)) : List Node :=
  entries.flatMap fun entry ↦ [entry.1, entry.2]

/-- Whether a node is a map without tags that has given entries. -/
def Cbor.Node.IsMapOf (node : Node) (entries : List (Node × Node)) : Prop :=
  ∃ token, node = .mk [] token (entryMembers entries) ∧ ∃ count?, token.value = .map count?

theorem Cbor.Decoder.Delivers.integer?_eq {before after : Decoder} {item : Item} {node : Node}
    (hdelivers : before.Delivers item node after) : node.integer? = item.toInt64.toOption := by
  obtain ⟨value, level, nextLevel, tags⟩ := item
  obtain rfl : value = node.itemValue := hdelivers.value_eq
  rfl

theorem Cbor.Decoder.Delivers.isNative_eq {before after : Decoder} {item : Item} {node : Node}
    (hdelivers : before.Delivers item node after) :
    node.isNative = (nativeValue? item).isSome := by
  obtain ⟨value, level, nextLevel, tags⟩ := item
  obtain rfl : value = node.itemValue := hdelivers.value_eq
  obtain rfl : tags = node.tagNumbers := hdelivers.tags_eq
  rfl

/-! ### Readers of one value -/

/-- Whether a reader reads one whole value where it succeeds. -/
def ParameterReader.ConsumesValue (reader : ParameterReader) : Prop :=
  ∀ (label : Int64) (value : ParameterValue) (before after : Decoder),
    (reader label).run before = .ok value after → ∃ node, before.Spans node after

theorem ParameterReader.raw_consumesValue : ParameterReader.raw.ConsumesValue := by
  intro label value before after hrun
  obtain ⟨_, _, hraw, hrun⟩ := Reading.of_run_bind hrun
  obtain ⟨_, rfl⟩ := Reading.of_run_pure hrun
  obtain ⟨_, start, hascend, hraw⟩ := Reading.of_run_bind hraw
  obtain ⟨_, _, hcursor, hraw⟩ := Reading.of_run_bind hraw
  cases hcursor
  obtain ⟨item, middle, hnext, hraw⟩ := Reading.of_run_bind hraw
  obtain ⟨_, last, hskip, hraw⟩ := Reading.of_run_bind hraw
  obtain ⟨_, _, hcursor, hraw⟩ := Reading.of_run_bind hraw
  cases hcursor
  obtain ⟨_, rfl⟩ := Reading.of_run_pure hraw
  obtain ⟨node, hspans, _⟩ := Reading.exists_delivers_of_skip (Reading.of_run_next hnext) hskip
  exact ⟨node, hspans.of_agrees (agrees_of_ascendTo (Reading.of_run_ofCursor hascend))⟩

/-- No container is of native type. -/
theorem isContainer_of_nativeValue? {item : Item} {value : ParameterValue}
    (hnative : nativeValue? item = some value) : item.isContainer = false := by
  unfold nativeValue? at hnative
  unfold Item.isContainer
  split <;> simp_all

/-- A value that was read came from the reader for its label or was of native type, and one that
was passed over was of another type. -/
theorem readValue?_cases {label : Int64} {value? : Option ParameterValue} {before after : Decoder}
    (hreaders : ∀ entry ∈ readers, entry.2.ConsumesValue)
    (hrun : (readValue? readers label).run before = .ok value? after) :
    ∃ node, before.Spans node after ∧
      value?.isSome = ((readers.lookup label).isSome || node.isNative) := by
  unfold readValue? at hrun
  split at hrun
  next reader hlookup =>
    obtain ⟨value, _, hvalue, hrun⟩ := Reading.of_run_bind hrun
    obtain ⟨rfl, rfl⟩ := Reading.of_run_pure hrun
    obtain ⟨first, rest, hsplit, _⟩ := List.lookup_eq_some_iff.1 hlookup
    have hmem : (label, reader) ∈ readers := hsplit ▸ List.mem_append_right first (.head rest)
    obtain ⟨node, hspans⟩ := hreaders _ hmem _ _ _ _ hvalue
    exact ⟨node, hspans, by rw [hlookup]; rfl⟩
  next hlookup =>
    obtain ⟨item, middle, hnext, hrun⟩ := Reading.of_run_bind hrun
    split at hrun
    next value hnative =>
      obtain ⟨rfl, rfl⟩ := Reading.of_run_pure hrun
      have hleaf := isContainer_of_nativeValue? hnative
      obtain ⟨node, hdelivers⟩ := exists_delivers_of_leaf (Reading.of_run_next hnext) hleaf
      exact ⟨node, hdelivers.spans, by rw [hlookup, hdelivers.isNative_eq, hnative]; rfl⟩
    next hnative =>
      obtain ⟨_, _, hskip, hrun⟩ := Reading.of_run_bind hrun
      obtain ⟨rfl, rfl⟩ := Reading.of_run_pure hrun
      obtain ⟨node, hdelivers⟩ := Reading.exists_delivers_of_skip (Reading.of_run_next hnext) hskip
      exact ⟨node, hdelivers.spans, by rw [hlookup, hdelivers.isNative_eq, hnative]; rfl⟩

/-! ### The list of critical labels -/

/-- Whether a node is a text string, whatever its tags. -/
def Cbor.Node.isText (node : Node) : Bool :=
  match node.itemValue with
  | .text _ => true
  | _ => false

namespace CriticalLabels

/-- Whether some members of the list of critical labels lead from what was listed before them to
what is listed behind them: each of them is an integer or a text string, and no integer is listed
twice, nor more of them than allowed. -/
structure Lists (critical : CriticalLabels) (members : List Node) (final : CriticalLabels) :
    Prop where
  labels_eq : final.labels = critical.labels ++ members.filterMap integer?
  hasText_eq : final.hasText = (critical.hasText || members.any isText)
  isSome : ∀ member ∈ members, member.isText = false → member.integer?.isSome
  nodup : critical.labels.Nodup → final.labels.Nodup
  length_le : critical.labels.length ≤ maxCriticalParameters →
    final.labels.length ≤ maxCriticalParameters

namespace Lists

variable {first second third : CriticalLabels} {left right : List Node}

theorem refl (critical : CriticalLabels) : critical.Lists [] critical where
  labels_eq := (List.append_nil _).symm
  hasText_eq := (Bool.or_false _).symm
  isSome := nofun
  nodup := id
  length_le := id

theorem trans (hleft : first.Lists left second) (hright : second.Lists right third) :
    first.Lists (left ++ right) third where
  labels_eq := by
    rw [hright.labels_eq, hleft.labels_eq, List.filterMap_append, List.append_assoc]
  hasText_eq := by rw [hright.hasText_eq, hleft.hasText_eq, List.any_append, Bool.or_assoc]
  isSome := fun member hmem ↦
    (List.mem_append.1 hmem).elim (hleft.isSome member) (hright.isSome member)
  nodup := hright.nodup ∘ hleft.nodup
  length_le := hright.length_le ∘ hleft.length_le

end Lists

/-- A new integer is listed behind the others. -/
theorem lists_integer {critical : CriticalLabels} {node : Node} {label : Int64}
    (hlabel : node.integer? = some label) (hvalue : node.isText = false)
    (hnew : label ∉ critical.labels) (hroom : critical.labels.length ≠ maxCriticalParameters) :
    critical.Lists [node] { critical with labels := critical.labels ++ [label] } where
  labels_eq := by rw [List.filterMap_cons, hlabel]; rfl
  hasText_eq := by rw [List.any_cons, hvalue]; exact (Bool.or_false _).symm
  isSome := by
    intro member hmem _
    rw [List.mem_singleton.1 hmem, hlabel]
    rfl
  nodup := fun hnodup ↦ hnodup.append (List.nodup_singleton label) fun other hother hlast ↦
    hnew (List.mem_singleton.1 hlast ▸ hother)
  length_le := by
    intro hlength
    rw [List.length_append, List.length_singleton]
    omega

/-- A text string is listed only as such. -/
theorem lists_text {critical : CriticalLabels} {node : Node} (hvalue : node.isText = true)
    (hlabel : node.integer? = none) : critical.Lists [node] { critical with hasText := true } where
  labels_eq := by rw [List.filterMap_cons, hlabel]; exact (List.append_nil _).symm
  hasText_eq := by rw [List.any_cons, hvalue]; exact (Bool.or_true _).symm
  isSome := by
    intro member hmem hother
    rw [List.mem_singleton.1 hmem, hvalue] at hother
    cases hother
  nodup := id
  length_le := id

end CriticalLabels

theorem Cbor.Decoder.Delivers.isText_eq {before after : Decoder} {item : Item} {node : Node}
    (hdelivers : before.Delivers item node after) :
    node.isText = match item.value with | .text _ => true | _ => false := by
  rw [isText, hdelivers.value_eq]

theorem lists_of_run_criticalInteger {critical listed : CriticalLabels} {item : Item}
    {before after : Decoder}
    (hrun : Reading.run (do
      let label ← readLabel item
      if critical.labels.contains label then .fail .badCritParameter
      else if critical.labels.length = maxCriticalParameters then .fail .tooManyCriticalParameters
      else return { critical with labels := critical.labels ++ [label] }) before =
        .ok listed after) :
    before = after ∧ ∀ node : Node, node.integer? = item.toInt64.toOption →
      node.isText = false → critical.Lists [node] listed := by
  obtain ⟨label, _, hlabel, hrun⟩ := Reading.of_run_bind hrun
  obtain ⟨hinteger, rfl⟩ := of_run_readLabel hlabel
  split at hrun
  · exact absurd hrun Reading.run_fail_ne
  next hnew =>
    split at hrun
    · exact absurd hrun Reading.run_fail_ne
    next hroom =>
      obtain ⟨rfl, rfl⟩ := Reading.of_run_pure hrun
      refine ⟨rfl, fun node hnode hvalue ↦ ?_⟩
      rw [hinteger] at hnode
      exact CriticalLabels.lists_integer hnode hvalue (by simpa using hnew) hroom

/-- Reading one critical label reads nothing behind its item, which has no members and is listed. -/
theorem lists_of_run_readCriticalLabel {critical listed : CriticalLabels} {item : Item}
    {before after : Decoder}
    (hrun : (readCriticalLabel critical item).run before = .ok listed after) :
    before = after ∧ item.isContainer = false ∧ ∀ {start last : Decoder} {node : Node},
      start.Delivers item node last → critical.Lists [node] listed := by
  unfold readCriticalLabel at hrun
  split at hrun
  next hvalue =>
    obtain ⟨hsame, hlists⟩ := lists_of_run_criticalInteger hrun
    refine ⟨hsame, by rw [Item.isContainer, hvalue], fun hdelivers ↦ ?_⟩
    exact hlists _ hdelivers.integer?_eq (by rw [hdelivers.isText_eq, hvalue])
  next hvalue =>
    obtain ⟨hsame, hlists⟩ := lists_of_run_criticalInteger hrun
    refine ⟨hsame, by rw [Item.isContainer, hvalue], fun hdelivers ↦ ?_⟩
    exact hlists _ hdelivers.integer?_eq (by rw [hdelivers.isText_eq, hvalue])
  next hvalue =>
    obtain ⟨rfl, hsame⟩ := Reading.of_run_pure hrun
    refine ⟨hsame, by rw [Item.isContainer, hvalue], fun hdelivers ↦ ?_⟩
    refine CriticalLabels.lists_text (by rw [hdelivers.isText_eq, hvalue]) ?_
    rw [hdelivers.integer?_eq, Item.toInt64, hvalue]
    rfl
  · exact absurd hrun Reading.run_fail_ne

/-- Whether a node is an array without tags whose members, at least one, are listed. -/
def Cbor.Node.IsListOf (node : Node) (critical : CriticalLabels) : Prop :=
  ∃ token members, node = .mk [] token members ∧ (∃ count?, token.value = .array count?) ∧
    members ≠ [] ∧ CriticalLabels.Lists ⟨[], false⟩ members critical

/-- The list of critical labels is one value. -/
theorem isListOf_of_run_readCritical {critical : CriticalLabels} {before after : Decoder}
    (hrun : readCritical.run before = .ok critical after) :
    ∃ node : Node, before.Spans node after ∧ node.IsListOf critical := by
  obtain ⟨array, middle, hnext, hrun⟩ := Reading.of_run_bind hrun
  split at hrun
  next count? hvalue hplain =>
    obtain ⟨listed, _, hloop, hrun⟩ := Reading.of_run_bind hrun
    split at hrun
    · exact absurd hrun Reading.run_fail_ne
    next hnonempty =>
      obtain ⟨rfl, rfl⟩ := Reading.of_run_pure hrun
      have hvisit : Reading.VisitsMembers readCriticalLabel false CriticalLabels.Lists := by
        intro state visited item before middle after hnext hrun
        obtain ⟨rfl, hleaf, hlists⟩ := lists_of_run_readCriticalLabel hrun
        obtain ⟨label, hlabel⟩ := exists_delivers_of_leaf hnext hleaf
        exact ⟨[label], rfl, .one hlabel.spans, fun hothers ↦ (hlists hlabel).trans hothers⟩
      obtain ⟨tags, token, members, hdelivers, hlists⟩ := Reading.exists_container_of_runBelow false
        hvisit CriticalLabels.Lists.refl (Reading.of_run_next hnext) hvalue hloop
      obtain rfl : tags = [] := by
        have hnumbers : tags.map (·.number) = [] := hdelivers.tags_eq.symm.trans hplain
        exact List.map_eq_nil_iff.1 hnumbers
      refine ⟨_, hdelivers.spans, token, members, rfl,
        ⟨count?, hdelivers.value_eq.symm.trans hvalue⟩, ?_, hlists⟩
      rintro rfl
      exact hnonempty (by rw [hlists.labels_eq, hlists.hasText_eq]; rfl)
  · exact absurd hrun Reading.run_fail_ne

/-! ### What entries do -/

namespace HeaderState

/-- What one entry of a bucket does to what was read before it: it is kept as the list of critical
labels, its value is stored as a parameter behind the others, or it is passed over. -/
inductive Takes (readers : List (Int64 × ParameterReader)) (capacity : Nat) (isProtected : Bool)
    (state : HeaderState) : Node × Node → HeaderState → Prop where
  | critical {label value : Node} {critical : CriticalLabels}
      (hlabel : label.integer? = some HeaderLabel.crit.code) (hprotected : isProtected = true)
      (hnone : state.critical? = none) (hlist : value.IsListOf critical) :
      Takes readers capacity isProtected state (label, value)
        { state with critical? := some critical }
  | stored {label value : Node} {integer : Int64} {content : ParameterValue}
      (hlabel : label.integer? = some integer) (hother : integer ≠ HeaderLabel.crit.code)
      (hkept : ((readers.lookup integer).isSome || value.isNative) = true)
      (hnew : ∀ parameter ∈ state.parameters, parameter.label ≠ integer)
      (hroom : state.parameters.length < capacity) :
      Takes readers capacity isProtected state (label, value)
        { state with parameters := state.parameters ++ [⟨integer, isProtected, false, content⟩] }
  | passedOver {entry : Node × Node} (hpassed : keptLabel? readers entry = none) :
      Takes readers capacity isProtected state entry state

/-- What several entries of a bucket do, one after the other. -/
inductive TakesAll (readers : List (Int64 × ParameterReader)) (capacity : Nat)
    (isProtected : Bool) : HeaderState → List (Node × Node) → HeaderState → Prop where
  | nil (state : HeaderState) : TakesAll readers capacity isProtected state [] state
  | cons {state middle final : HeaderState} {entry : Node × Node} {entries : List (Node × Node)}
      (hfirst : state.Takes readers capacity isProtected entry middle)
      (hothers : TakesAll readers capacity isProtected middle entries final) :
      TakesAll readers capacity isProtected state (entry :: entries) final

end HeaderState

theorem entryRead_isContainer {state visited : HeaderState} {item : Item} {before after : Decoder}
    (hread : EntryRead readers capacity isProtected state item before after visited) :
    item.isContainer = false := by
  have hinteger {label : Int64} (hlabel : item.toInt64 = .ok label) : item.isContainer = false := by
    unfold Item.toInt64 at hlabel
    unfold Item.isContainer
    split <;> simp_all
  cases hread with
  | critical hlabel => exact hinteger hlabel
  | stored hlabel => exact hinteger hlabel
  | passedOver hlabel => exact hinteger hlabel
  | textLabel hlabel => rw [Item.isContainer, hlabel]

/-- An entry that was read is one value behind its label, and is taken. -/
theorem EntryRead.exists_takes (hreaders : ∀ entry ∈ readers, entry.2.ConsumesValue)
    {state visited : HeaderState} {item : Item} {before after : Decoder} {label : Node}
    (hlabel : label.integer? = item.toInt64.toOption)
    (hread : EntryRead readers capacity isProtected state item before after visited) :
    ∃ value, before.Spans value after ∧
      state.Takes readers capacity isProtected (label, value) visited := by
  cases hread with
  | critical hcrit hprotected hnone hrun =>
    obtain ⟨value, hspans, hlist⟩ := isListOf_of_run_readCritical hrun
    exact ⟨value, hspans, .critical (by rw [hlabel, hcrit]; rfl) hprotected hnone hlist⟩
  | stored hinteger hother hrun hnew hroom =>
    obtain ⟨value, hspans, hsome⟩ := readValue?_cases hreaders hrun
    exact ⟨value, hspans, .stored (by rw [hlabel, hinteger]; rfl) hother hsome.symm hnew hroom⟩
  | passedOver hinteger hother hrun =>
    obtain ⟨value, hspans, hnone⟩ := readValue?_cases hreaders hrun
    refine ⟨value, hspans, .passedOver ?_⟩
    rw [keptLabel?_of_integer (by rw [hlabel, hinteger]; rfl), ← hnone,
      beq_eq_false_iff_ne.2 hother]
    rfl
  | textLabel htext hnext hskip =>
    obtain ⟨value, hdelivers⟩ := Reading.exists_delivers_of_skip hnext hskip
    have hnone : item.toInt64.toOption = none := by
      rw [Item.toInt64, htext]
      rfl
    refine ⟨value, hdelivers.spans, .passedOver ?_⟩
    rw [keptLabel?, hlabel, hnone]
    rfl

/-- One visit of the loop over a bucket reads one entry. -/
theorem visitsMembers_readEntry (hreaders : ∀ entry ∈ readers, entry.2.ConsumesValue) :
    Reading.VisitsMembers (readEntry readers capacity isProtected) true
      fun state members final ↦ ∃ entries, members = entryMembers entries ∧
        state.TakesAll readers capacity isProtected entries final := by
  intro state visited item before middle after hnext hrun
  have hread := entryRead_of_run hrun
  obtain ⟨label, hlabel⟩ := exists_delivers_of_leaf hnext (entryRead_isContainer hread)
  obtain ⟨value, hspans, htakes⟩ := hread.exists_takes hreaders hlabel.integer?_eq
  refine ⟨[label, value], rfl, .two hlabel.spans hspans, ?_⟩
  rintro _ final ⟨entries, rfl, hothers⟩
  exact ⟨(label, value) :: entries, rfl, .cons htakes hothers⟩

/-! ### Both buckets -/

/-- A bucket that was read is a map whose entries were taken. -/
theorem takesAll_of_run_readBucket (hreaders : ∀ entry ∈ readers, entry.2.ConsumesValue)
    {state final : HeaderState} {before after : Decoder}
    (hrun : (readBucket readers capacity isProtected state).run before = .ok final after) :
    ∃ (node : Node) (entries : List (Node × Node)), node.IsMapOf entries ∧
      before.Spans node after ∧
      state.TakesAll readers capacity isProtected entries final := by
  obtain ⟨item, middle, count?, hnext, huntagged, hvalue, hloop⟩ := of_run_readBucket hrun
  obtain ⟨tags, token, _, hdelivers, entries, rfl, htakes⟩ :=
    Reading.exists_container_of_runBelow true (visitsMembers_readEntry hreaders)
      (fun state ↦ ⟨[], rfl, .nil state⟩) hnext hvalue hloop
  obtain rfl : tags = [] := by
    have hnumbers : tags.map (·.number) = [] := hdelivers.tags_eq.symm.trans huntagged
    exact List.map_eq_nil_iff.1 hnumbers
  exact ⟨_, entries, ⟨token, rfl, count?, hdelivers.value_eq.symm.trans hvalue⟩, hdelivers.spans,
    htakes⟩

/-- The content of the protected byte string is empty or a map whose entries were taken. -/
theorem ProtectedRead.exists_takesAll (hreaders : ∀ entry ∈ readers, entry.2.ConsumesValue)
    {content : Bytes} {state : HeaderState} (hread : ProtectedRead readers capacity content state) :
    ∃ entries : List (Node × Node),
      (content = [] ∧ entries = [] ∨
        ∃ node : Node, node.IsMapOf entries ∧ node.WellFormed 0 ∧ content = node.encoded) ∧
      HeaderState.TakesAll readers capacity true ⟨[], none⟩ entries state := by
  rcases hread with ⟨hempty, rfl⟩ | ⟨_, middle, last, hbucket, hfinish⟩
  · exact ⟨[], .inl ⟨hempty, rfl⟩, .nil _⟩
  · obtain ⟨node, entries, hmap, hspans, htakes⟩ := takesAll_of_run_readBucket hreaders hbucket
    exact ⟨entries, .inr ⟨node, hmap, hspans.eq_encoded hfinish⟩, htakes⟩

/-- Whether a byte string with given content and a map stand one after the other between two
cursors, with the entries of one map in the content, which may be empty, and those of the other
behind it. -/
def HeadersAhead (before : Decoder) (content : Bytes) (first second : List (Node × Node))
    (after : Decoder) : Prop :=
  ∃ wrapper middle bucket, before.Spans wrapper middle ∧ wrapper.itemValue = .bytes content ∧
    (content = [] ∧ first = [] ∨
      ∃ node : Node, node.IsMapOf first ∧ node.WellFormed 0 ∧ content = node.encoded) ∧
    bucket.IsMapOf second ∧ middle.Spans bucket after

/-- Headers that were read are a byte string and a map, whose entries were taken one bucket after
the other. -/
theorem takesAll_of_readHeaders (hreaders : ∀ entry ∈ readers, entry.2.ConsumesValue)
    {before after : Decoder} {headers : DecodedHeaders}
    (hrun : (readHeaders readers capacity).run before = .ok headers after) :
    ∃ first second state last, HeadersAhead before headers.protectedBytes first second after ∧
      HeaderState.TakesAll readers capacity true ⟨[], none⟩ first state ∧
      state.TakesAll readers capacity false second last ∧ last.Marks headers.parameters := by
  obtain ⟨item, middle, state, last, hnext, hbytes, hprotected, hbucket, hmarks⟩ :=
    readHeaders_cases hrun
  obtain ⟨hvalue, _⟩ := of_expectBytes hbytes
  have hleaf : item.isContainer = false := by rw [Item.isContainer, hvalue]
  obtain ⟨wrapper, hwrapper⟩ := exists_delivers_of_leaf hnext hleaf
  obtain ⟨first, hcontent, hfirst⟩ := hprotected.exists_takesAll hreaders
  obtain ⟨bucket, second, hmap, hspans, hsecond⟩ := takesAll_of_run_readBucket hreaders hbucket
  exact ⟨first, second, state, last, ⟨wrapper, middle, bucket, hwrapper.spans,
    hwrapper.value_eq.symm.trans hvalue, hcontent, hmap, hspans⟩, hfirst, hsecond, hmarks⟩

end Cose
