import Mathlib.Data.List.Perm.Basic
import Cose.Header.Decode
import Cose.Proofs.Header.Buckets

/-!
# Header buckets as nodes

`HeaderEntry.wire` gives the bytes of an entry, whose value is of native type, a list of critical
labels or an item that is already encoded. The bytes of a bucket are those of a map node whose
members are the labels and the values of the entries in turn (`exists_bucketNode`). The rules may
have put the entries in another order, so a `BucketNode` lists them in some arrangement.

A value is spelled for some readers: one of native type for a label without a reader, and an
encoded one for a label whose reader keeps the encoded value.
-/

set_option autoImplicit false
set_option relaxedAutoImplicit false

namespace Cose

open Cbor Node

/-! ### Integers -/

/-- A signed number as a leaf. -/
def intLeaf (number : Int64) : Leaf :=
  match number.toInt with
  | .ofNat n => .unsigned (.shortest (UInt64.ofNat n))
  | .negSucc n => .negative (.shortest (UInt64.ofNat n))

theorem encoded_intLeaf (rules : Rules) (number : Int64) :
    (leaf (intLeaf number)).encoded = (Scalar.int number).encoded rules := by
  rw [encoded_leaf, intLeaf, Scalar.encoded]
  cases number.toInt <;> exact List.append_nil _

/-- The leaf of a number is read back as the number. -/
theorem toInt64_of_intLeaf {item : Item} {number : Int64}
    (hitem : item.value = (intLeaf number).value) : item.toInt64 = .ok number := by
  have hupper := number.toInt_lt
  have hlower := number.le_toInt
  have hback : Int64.ofInt number.toInt = number := Int64.ofInt_toInt number
  unfold intLeaf at hitem
  unfold Item.toInt64
  cases hnumber : number.toInt with
  | ofNat n =>
    rw [hnumber] at hitem hupper hback
    have hsmall : n < 2 ^ 63 := Int.ofNat_lt.1 hupper
    have hword : (UInt64.ofNat n).toNat = n :=
      UInt64.toNat_ofNat_of_lt' (Nat.lt_trans hsmall (by decide))
    simp only [hitem, Leaf.value, Argument.number_shortest, hword, hsmall, if_true]
    exact congrArg Except.ok hback
  | negSucc n =>
    rw [hnumber] at hitem hlower hback
    have hsmall : n < 2 ^ 63 := by omega
    have hword : (UInt64.ofNat n).toNat = n :=
      UInt64.toNat_ofNat_of_lt' (Nat.lt_trans hsmall (by decide))
    simp only [hitem, Leaf.value, Argument.number_shortest, hword, hsmall, if_true, hback]

/-! ### Values -/

namespace ParameterValue

/-- Whether a leaf is read as a value. -/
def IsAtom (value : ParameterValue) (atom : Leaf) : Prop :=
  ∀ item : Item, item.value = atom.value → item.tags = [] → nativeValue? item = some value

theorem isAtom_int (number : Int64) : (int number).IsAtom (intLeaf number) := by
  intro item hitem htags
  have hnumber := toInt64_of_intLeaf hitem
  unfold nativeValue?
  rw [if_pos htags, hnumber]
  unfold intLeaf at hitem
  split at hitem <;>
    · rw [hitem]
      rfl

/-- Only the value and the tags of an item decide which parameter value it is. -/
theorem isAtom_of_value {value : ParameterValue} {atom : Leaf}
    (hvalue : nativeValue? ⟨atom.value, 0, 0, []⟩ = some value) : value.IsAtom atom := by
  intro item hitem htags
  simp only [nativeValue?, Item.toInt64, hitem, htags] at hvalue ⊢
  exact hvalue

/-- A value of native type is written as a leaf that is read as the value. -/
theorem exists_atom {rules : Rules} (hrules : rules.KeepsNumbers) {value : ParameterValue}
    (hnative : value.IsNative) (hlength : (value.scalar.encoded rules).length < 2 ^ 64) :
    ∃ atom, value.IsAtom atom ∧ (leaf atom).encoded = value.scalar.encoded rules := by
  cases value with
  | int number => exact ⟨intLeaf number, isAtom_int number, encoded_intLeaf rules number⟩
  | text content =>
    change (shortestHead _ _ ++ content.toUTF8.toList).length < 2 ^ 64 at hlength
    rw [List.length_append, length_toUTF8] at hlength
    have hcontent : content.utf8ByteSize < 2 ^ 64 := by omega
    exact ⟨.ofText content hcontent, isAtom_of_value rfl, encoded_leaf _⟩
  | bytes content =>
    change (shortestHead _ _ ++ content).length < 2 ^ 64 at hlength
    rw [List.length_append] at hlength
    have hcontent : content.length < 2 ^ 64 := by omega
    exact ⟨.ofBytes content hcontent, isAtom_of_value rfl, encoded_leaf _⟩
  | small value =>
    cases value with
    | float number =>
      obtain ⟨atom, hhead, hcontent, hatom⟩ := exists_leaf_of_double hrules number
      refine ⟨atom, isAtom_of_value ?_, ?_⟩
      · rw [hatom]
        rfl
      · rw [encoded_leaf, hcontent, List.append_nil, hhead]
        rfl
    | bool truth =>
      refine ⟨.bool truth, isAtom_of_value rfl, ?_⟩
      rw [encoded_leaf]
      exact List.append_nil _
    | null =>
      refine ⟨.null, isAtom_of_value rfl, ?_⟩
      rw [encoded_leaf]
      exact List.append_nil _
    | undefined =>
      refine ⟨.undefined, isAtom_of_value rfl, ?_⟩
      rw [encoded_leaf]
      exact List.append_nil _
  | encoded item => exact hnative.elim
  | written writer => exact hnative.elim

end ParameterValue

/-! ### Bytes of entries -/

/-- The bytes of a value. A value that a program writes has none of its own. -/
def ParameterValue.wire (rules : Rules) : ParameterValue → Bytes
  | encoded item => item
  | value => value.scalar.encoded rules

theorem ParameterValue.wire_of_native {value : ParameterValue} (hnative : value.IsNative)
    (rules : Rules) : value.wire rules = value.scalar.encoded rules := by
  cases value with
  | encoded item => exact hnative.elim
  | _ => rfl

namespace HeaderEntry

/-- The bytes of the value of an entry. -/
def content (rules : Rules) : HeaderEntry → Bytes
  | parameter stored => stored.value.wire rules
  | critical labels =>
    Container.array.enclose rules (labels.map fun label ↦ (Scalar.int label).encoded rules)

/-- The bytes of an entry. -/
def wire (rules : Rules) (entry : HeaderEntry) : Entry where
  label := (Scalar.int entry.label).encoded rules
  value := entry.content rules

/-- The labels and the values of a bucket in turn, before the rules arrange them. -/
def wires (rules : Rules) (entries : List HeaderEntry) : List Bytes :=
  unpaired (entries.map (wire rules))

theorem length_wires (rules : Rules) (entries : List HeaderEntry) :
    (wires rules entries).length = 2 * entries.length := by
  rw [wires, length_unpaired, List.length_map]

theorem wires_append (rules : Rules) (front back : List HeaderEntry) :
    wires rules (front ++ back) = wires rules front ++ wires rules back := by
  rw [wires, unpaired, List.map_append, List.flatMap_append]
  rfl

theorem pairs_wires (rules : Rules) (entries : List HeaderEntry) :
    pairs (wires rules entries) = entries.map (wire rules) := pairs_unpaired _

theorem mem_wires {rules : Rules} {entries : List HeaderEntry} {bytes : Bytes} :
    bytes ∈ wires rules entries ↔
      ∃ entry ∈ entries, bytes = (entry.wire rules).label ∨ bytes = (entry.wire rules).value := by
  simp [wires, unpaired, List.flatMap_map]

/-- Whether the value of an entry is of native type, or a list that is not too long. -/
def IsPlain : HeaderEntry → Prop
  | parameter native => native.value.IsNative
  | critical labels => labels.length ≤ maxItems

/-- The value of a plain entry is written as its outline. -/
theorem encoded_value_of_plain {entry : HeaderEntry} (hplain : entry.IsPlain) (rules : Rules) :
    entry.value.encoded rules = entry.content rules := by
  cases entry with
  | parameter native => exact (ParameterValue.wire_of_native hplain rules).symm
  | critical labels =>
    have heach : Outline.encodedEach rules (labels.map fun label ↦ .scalar (.int label)) =
        labels.map fun label ↦ (Scalar.int label).encoded rules := by
      rw [Outline.encodedEach_eq_map, List.map_map]
      rfl
    rw [value, Outline.encoded, heach, content]

theorem encodedEach_outlines {entries : List HeaderEntry}
    (hplain : ∀ entry ∈ entries, entry.IsPlain) (rules : Rules) :
    Outline.encodedEach rules (entries.flatMap outlines) = wires rules entries := by
  induction entries with
  | nil => rfl
  | cons entry rest ih =>
    obtain ⟨hentry, hrest⟩ := List.forall_mem_cons.1 hplain
    change (Scalar.int entry.label).encoded rules :: entry.value.encoded rules ::
      Outline.encodedEach rules (rest.flatMap outlines) = _
    rw [encoded_value_of_plain hentry, ih hrest]
    rfl

end HeaderEntry

/-- The bytes of a bucket. -/
def bucketItem (rules : Rules) (entries : List HeaderEntry) : Bytes :=
  Container.map.enclose rules (HeaderEntry.wires rules entries)

theorem encoded_bucket {entries : List HeaderEntry} (hplain : ∀ entry ∈ entries, entry.IsPlain)
    (rules : Rules) : (bucket entries).encoded rules = bucketItem rules entries := by
  rw [bucket, Outline.encoded, HeaderEntry.encodedEach_outlines hplain, bucketItem]

/-! ### Entries as nodes -/

section Readers

variable {readers : List (Int64 × ParameterReader)}

namespace HeaderEntry

/-- Whether two nodes are the label and the value of an entry, as some readers take them. -/
inductive SpelledBy (readers : List (Int64 × ParameterReader)) :
    HeaderEntry → (label value : Node) → Prop
  | native {stored : Parameter} {atom : Leaf} (hnone : readers.lookup stored.label = none)
    (hatom : stored.value.IsAtom atom) :
    SpelledBy readers (.parameter stored) (leaf (intLeaf stored.label)) (leaf atom)
  | encoded {stored : Parameter} {node : Node} (hraw : readers.lookup stored.label = some .raw)
    (hvalue : stored.value = .encoded node.encoded) :
    SpelledBy readers (.parameter stored) (leaf (intLeaf stored.label)) node
  | critical (labels : List Int64) (count : Argument) :
    SpelledBy readers (.critical labels) (leaf (intLeaf HeaderLabel.crit.code))
      (.mk [] (.definite false count) (labels.map fun label ↦ leaf (intLeaf label)))

/-- Whether nodes are the labels and the values of some entries in turn. -/
inductive AllSpelledBy (readers : List (Int64 × ParameterReader)) :
    List HeaderEntry → List Node → Prop
  | nil : AllSpelledBy readers [] []
  | cons {entry : HeaderEntry} {label value : Node} {entries : List HeaderEntry}
    {nodes : List Node} (hentry : entry.SpelledBy readers label value)
    (hentries : AllSpelledBy readers entries nodes) :
    AllSpelledBy readers (entry :: entries) (label :: value :: nodes)

/-- Whether the value of an entry can be written at a level and taken by some readers: it is of
native type and its label has no reader, or it is a whole item and the reader of its label keeps
the encoded value, or it is a list that is not too long. -/
def Suits (readers : List (Int64 × ParameterReader)) (level : Nat) : HeaderEntry → Prop
  | parameter stored =>
    stored.value.IsNative ∧ readers.lookup stored.label = none ∨
      ∃ node : Node, node.WellFormed level ∧ stored.value = .encoded node.encoded ∧
        readers.lookup stored.label = some .raw
  | critical labels => labels.length ≤ maxItems

/-- Plain entries need no readers. -/
theorem IsPlain.suits {entry : HeaderEntry} (hplain : entry.IsPlain) (level : Nat) :
    entry.Suits [] level := by
  cases entry with
  | parameter native => exact .inl ⟨hplain, rfl⟩
  | critical labels => exact hplain

/-- The labels of a list are the members of an array. -/
theorem encodedAll_labels (rules : Rules) (labels : List Int64) :
    encodedAll (labels.map fun label ↦ leaf (intLeaf label)) =
      (labels.map fun label ↦ (Scalar.int label).encoded rules).flatten := by
  rw [← flatten_map_encoded, List.map_map]
  refine congrArg List.flatten (List.map_congr_left fun label _ ↦ ?_)
  exact encoded_intLeaf rules label

/-- The bytes of an entry are those of two nodes that spell it. -/
theorem exists_nodes {rules : Rules} (hrules : rules.KeepsNumbers) {entry : HeaderEntry}
    {level : Nat} (hlevel : level < maxNesting) (hsuits : entry.Suits readers level)
    (hlength : (entry.wire rules).value.length < 2 ^ 64) :
    ∃ label value, entry.SpelledBy readers label value ∧ label.WellFormed level ∧
      value.WellFormed level ∧ label.encoded = (entry.wire rules).label ∧
      value.encoded = (entry.wire rules).value := by
  cases entry with
  | parameter stored =>
    rcases hsuits with ⟨hnative, hnone⟩ | ⟨node, hnode, hvalue, hraw⟩
    · have hwire := ParameterValue.wire_of_native hnative rules
      change (stored.value.wire rules).length < 2 ^ 64 at hlength
      rw [hwire] at hlength
      obtain ⟨atom, hatom, hencoded⟩ := ParameterValue.exists_atom hrules hnative hlength
      exact ⟨_, _, .native hnone hatom, wellFormed_leaf _ _, wellFormed_leaf _ _,
        encoded_intLeaf rules _, hencoded.trans hwire.symm⟩
    · refine ⟨_, node, .encoded hraw hvalue, wellFormed_leaf _ _, hnode, encoded_intLeaf rules _,
        ?_⟩
      rw [wire, content, hvalue]
      rfl
  | critical labels =>
    have hcount : labels.length ≤ maxItems := hsuits
    have hmembers : (labels.map fun label ↦ leaf (intLeaf label)).length = labels.length :=
      List.length_map _
    refine ⟨_, _, .critical labels (.shortest (UInt64.ofNat labels.length)),
      wellFormed_leaf _ _, wellFormed_counting (Nat.zero_le _) hlevel hcount hmembers ?_,
      encoded_intLeaf rules _, ?_⟩
    · rw [allWellFormed_iff, List.forall_mem_map]
      exact fun label _ ↦ wellFormed_leaf _ _
    · change (Node.mk [] (.counting false labels.length) _).encoded = _
      rw [encoded_counting, encodedAll_labels rules]
      simp only [wire, content, Container.enclose, List.length_map]
      rfl

/-- The bytes of some entries are those of nodes that spell them. -/
theorem exists_allNodes {rules : Rules} (hrules : rules.KeepsNumbers)
    {entries : List HeaderEntry} {level : Nat} (hlevel : level < maxNesting)
    (hentries : ∀ entry ∈ entries, entry.Suits readers level ∧
      (entry.wire rules).value.length < 2 ^ 64) :
    ∃ nodes, AllSpelledBy readers entries nodes ∧ AllWellFormed level nodes ∧
      nodes.length = 2 * entries.length ∧
      encodedAll nodes = encodedEntries (entries.map (wire rules)) := by
  induction entries with
  | nil => exact ⟨[], .nil, trivial, rfl, rfl⟩
  | cons entry rest ih =>
    obtain ⟨⟨hsuits, hlength⟩, hrest⟩ := List.forall_mem_cons.1 hentries
    obtain ⟨label, value, hspelled, hlabel, hvalue, hlabelBytes, hvalueBytes⟩ :=
      exists_nodes hrules hlevel hsuits hlength
    obtain ⟨nodes, hnodes, hwellFormed, hcount, hothers⟩ := ih hrest
    refine ⟨label :: value :: nodes, .cons hspelled hnodes, ⟨hlabel, hvalue, hwellFormed⟩, ?_, ?_⟩
    · rw [List.length_cons, List.length_cons, hcount, List.length_cons, Nat.mul_succ]
    · rw [encodedAll, encodedAll, hothers, ← List.append_assoc, hlabelBytes, hvalueBytes]
      rfl

/-- The labels and the values of some entries are nodes. -/
theorem isNode_of_mem_wires {rules : Rules} (hrules : rules.KeepsNumbers)
    {entries : List HeaderEntry} {level : Nat} (hlevel : level < maxNesting)
    (hentries : ∀ entry ∈ entries, entry.Suits readers level ∧
      (entry.wire rules).value.length < 2 ^ 64) {bytes : Bytes}
    (hmem : bytes ∈ wires rules entries) : IsNode level bytes := by
  obtain ⟨entry, hentry, hbytes⟩ := mem_wires.1 hmem
  obtain ⟨hsuits, hlength⟩ := hentries entry hentry
  obtain ⟨label, value, _, hlabel, hvalue, hlabelBytes, hvalueBytes⟩ :=
    exists_nodes hrules hlevel hsuits hlength
  rcases hbytes with rfl | rfl
  · exact ⟨label, WellFormed.regular label hlabel, hlabelBytes⟩
  · exact ⟨value, WellFormed.regular value hvalue, hvalueBytes⟩

/-- The entries of a bucket in the order in which they are written. -/
theorem exists_arrangement (rules : Rules) (entries : List HeaderEntry) :
    ∃ arranged : List HeaderEntry, arranged.Perm entries ∧
      Container.arrange rules (pairs (wires rules entries)) = arranged.map (wire rules) ∧
      (rules.sortMaps = false → arranged = entries) := by
  rw [pairs_wires]
  cases hsort : rules.sortMaps with
  | false => exact ⟨entries, .refl _, by rw [Container.arrange, hsort]; rfl, fun _ ↦ rfl⟩
  | true =>
    have hperm : Relation.Comp (· = List.map (wire rules) ·) List.Perm
        (Container.arrange rules (entries.map (wire rules))) entries := by
      rw [List.eq_map_comp_perm]
      exact Container.perm_arrange rules _
    obtain ⟨arranged, harranged, hentries⟩ := hperm
    exact ⟨arranged, hentries, harranged, fun hfalse ↦ by cases hfalse⟩

end HeaderEntry

/-- The value of an entry is a part of the bucket. -/
theorem length_value_le_bucket {rules : Rules} {entries : List HeaderEntry}
    (htakes : Container.map.Takes rules (HeaderEntry.wires rules entries)) {entry : HeaderEntry}
    (hentry : entry ∈ entries) :
    (entry.wire rules).value.length ≤ (bucketItem rules entries).length := by
  have hmember : (entry.wire rules).value ∈ HeaderEntry.wires rules entries :=
    HeaderEntry.mem_wires.2 ⟨entry, hentry, .inr rfl⟩
  have hinner := Container.length_le_enclose htakes
  have hvalue := length_le_flatten hmember
  rw [bucketItem]
  omega

/-- A map node around the entries of a bucket, in some order. -/
structure BucketNode (readers : List (Int64 × ParameterReader)) (entries : List HeaderEntry) where
  arranged : List HeaderEntry
  count : Argument
  members : List Node
  perm : arranged.Perm entries
  spelled : HeaderEntry.AllSpelledBy readers arranged members

/-- The node of a bucket. -/
def BucketNode.node {entries : List HeaderEntry} (bucketNode : BucketNode readers entries) :
    Node :=
  .mk [] (.definite true bucketNode.count) bucketNode.members

/-- The bytes of a bucket are those of a map node around its entries. -/
theorem exists_bucketNode {rules : Rules} (hrules : rules.KeepsNumbers)
    {entries : List HeaderEntry} {level : Nat} (hlevel : level + 1 < maxNesting)
    (hsuits : ∀ entry ∈ entries, entry.Suits readers (level + 1))
    (htakes : Container.map.Takes rules (HeaderEntry.wires rules entries))
    (hlength : (bucketItem rules entries).length < 2 ^ 64) :
    ∃ bucketNode : BucketNode readers entries, bucketNode.node.WellFormed level ∧
      bucketNode.node.encoded = bucketItem rules entries ∧
      (rules.sortMaps = false → bucketNode.arranged = entries) := by
  obtain ⟨arranged, hperm, harrange, hsame⟩ := HeaderEntry.exists_arrangement rules entries
  have hentries : ∀ entry ∈ arranged, entry.Suits readers (level + 1) ∧
      (entry.wire rules).value.length < 2 ^ 64 := by
    intro entry hmem
    have hentry := hperm.mem_iff.1 hmem
    have hvalue := length_value_le_bucket htakes hentry
    exact ⟨hsuits entry hentry, Nat.lt_of_le_of_lt hvalue hlength⟩
  obtain ⟨nodes, hspelled, hnodes, hcount, hencoded⟩ :=
    HeaderEntry.exists_allNodes hrules hlevel hentries
  have htotal := HeaderEntry.length_wires rules entries
  have hfew : (HeaderEntry.wires rules entries).length ≤ 2 * maxItems := htakes.length_le _ rfl
  have hsmall : entries.length ≤ maxItems := by omega
  rw [hperm.length_eq] at hcount
  refine ⟨⟨arranged, .shortest (UInt64.ofNat entries.length), nodes, hperm, hspelled⟩,
    wellFormed_counting (Nat.zero_le _) (Nat.lt_of_succ_lt hlevel) hsmall hcount hnodes, ?_, hsame⟩
  change (Node.mk [] (.counting true entries.length) nodes).encoded = bucketItem rules entries
  rw [encoded_counting, hencoded, ← harrange, bucketItem, Container.enclose, htotal,
    Nat.mul_div_cancel_left _ (by decide)]
  rfl

end Readers

/-! ### The headers of a message -/

section Headers

variable {rules : Rules} {parameters : List Parameter}

theorem isPlain_protectedEntries (hconveyable : Conveyable parameters) :
    ∀ entry ∈ protectedEntries parameters, entry.IsPlain :=
  forall_protectedEntries hconveyable.native
    (Nat.le_trans (length_criticalLabels_le hconveyable.toWellLabelled) (by decide))

theorem isPlain_unprotectedEntries (hconveyable : Conveyable parameters) :
    ∀ entry ∈ unprotectedEntries parameters, entry.IsPlain :=
  forall_unprotectedEntries hconveyable.native

/-- Both buckets are no longer than what a session may hold. -/
theorem length_buckets_le (hfits : Draft.Fits rules
    ⟨.ground [protectedItem parameters, bucket (unprotectedEntries parameters)], []⟩) :
    ((bucket (protectedEntries parameters)).encoded rules).length +
      ((bucket (unprotectedEntries parameters)).encoded rules).length ≤ maxEncodedLength := by
  have hcontents : Draft.contents rules ⟨.ground [protectedItem parameters,
      bucket (unprotectedEntries parameters)], []⟩ =
        (protectedItem parameters).encoded rules ++
          (bucket (unprotectedEntries parameters)).encoded rules := by
    simp [Draft.contents, Layers.contents, tagHeads, Outline.encodedAll, Outline.encodedEach]
  rw [Draft.Fits, hcontents, encoded_protectedItem, List.length_append,
    List.length_append] at hfits
  omega

/-- What was written for the headers of a message are the bytes of two nodes: a byte string with the
map of the protected bucket inside, and the map of the unprotected bucket. -/
theorem exists_headerNodes (hrules : rules.KeepsNumbers) (hconveyable : Conveyable parameters)
    {headers : HeaderItems} (hrun : encodeHeaderItems rules parameters = .ok headers) :
    ∃ (first : BucketNode [] (protectedEntries parameters))
      (second : BucketNode [] (unprotectedEntries parameters)) (length : Argument)
      (hlength : length.number.toNat = first.node.encoded.length),
      first.node.WellFormed 0 ∧ second.node.WellFormed 1 ∧
        first.node.encoded = headers.protectedBytes ∧
        (leaf (.bytes length first.node.encoded hlength)).encoded = headers.protectedItem ∧
        second.node.encoded = headers.unprotectedItem := by
  obtain ⟨hbytes, hitem, hunprotected, hadmissible, hfits⟩ :=
    encodeHeaderItems_eq_ok hconveyable hrun
  obtain ⟨⟨_, _, _, ⟨_, _, hfirstTakes, _⟩, _⟩, ⟨_, _, hsecondTakes, _⟩, _⟩ := hadmissible
  have hlimit : maxEncodedLength < 2 ^ 64 := by decide
  have htotal := length_buckets_le hfits
  have hfirstPlain := isPlain_protectedEntries hconveyable
  have hsecondPlain := isPlain_unprotectedEntries hconveyable
  rw [HeaderEntry.encodedEach_outlines hfirstPlain] at hfirstTakes
  rw [HeaderEntry.encodedEach_outlines hsecondPlain] at hsecondTakes
  rw [encoded_bucket hfirstPlain] at hbytes htotal
  rw [encoded_bucket hsecondPlain] at hunprotected htotal
  have hfirstLength : (bucketItem rules (protectedEntries parameters)).length < 2 ^ 64 := by
    omega
  have hsecondLength : (bucketItem rules (unprotectedEntries parameters)).length < 2 ^ 64 := by
    omega
  have hinside : 0 + 1 < maxNesting := by decide
  have hdeeper : 1 + 1 < maxNesting := by decide
  obtain ⟨first, hfirst, hfirstBytes, _⟩ := exists_bucketNode hrules hinside
    (fun entry hmem ↦ (hfirstPlain entry hmem).suits _) hfirstTakes hfirstLength
  obtain ⟨second, hsecond, hsecondBytes, _⟩ := exists_bucketNode hrules hdeeper
    (fun entry hmem ↦ (hsecondPlain entry hmem).suits _) hsecondTakes hsecondLength
  have hlength : (UInt64.ofNat first.node.encoded.length).toNat = first.node.encoded.length := by
    rw [← hfirstBytes] at hfirstLength
    exact UInt64.toNat_ofNat_of_lt' hfirstLength
  rw [← hbytes] at hfirstBytes
  refine ⟨first, second, .shortest (UInt64.ofNat first.node.encoded.length), hlength, hfirst,
    hsecond, hfirstBytes, ?_, hsecondBytes.trans hunprotected.symm⟩
  rw [hitem, encoded_protectedItem, encoded_bucket hfirstPlain, ← hbytes, encoded_leaf,
    ← hfirstBytes]
  rfl

end Headers

end Cose
