import Mathlib.Tactic.Common
import Cose.Proofs.Cbor.Decoder.Recovery
import Cose.Proofs.Cbor.RoundTrip
import Cose.Proofs.Cbor.Uniqueness

/-!
# Canonical encodings

A node is canonical if every length is definite, every head the shortest, and every floating point
number in the narrowest precision that holds it. It is ordered if the labels in each of its maps
increase. What the encoder makes of a value is such a node (`Value.isCanonical_outline`), and from a
canonical node a value is read that the encoder makes the same node of (`Value.writtenAs_of_node`).
As bytes are the encoding of one node only, encoding undoes decoding on the canonical inputs and on
no others: `Encoder.finish_appendValue_iff_canonical`.

Reading has no limit on the length of its input and the encoder has one, so this is about inputs
that are short enough for an encoding. Beyond that the canonical inputs are read as well, but not
made again (`Encoder.finish_appendValue_of_overlong`).
-/

set_option autoImplicit false
set_option relaxedAutoImplicit false

namespace Cose.Cbor

open Node

/-! ### Canonical and ordered nodes -/

/-- Whether a number is written in the narrowest width that holds it. -/
def Argument.IsShortest (argument : Argument) : Prop :=
  argument = .shortest argument.number

theorem Argument.isShortest_shortest (number : UInt64) : (shortest number).IsShortest := rfl

theorem Argument.IsShortest.head_eq {argument : Argument} (hargument : argument.IsShortest)
    (major : Major) : argument.head major = shortestHead major argument.number :=
  congrArg (Argument.head · major) hargument

/-- Whether a leaf has the shortest head, and a number the narrowest precision that holds it. -/
def Leaf.Canonical : Leaf → Prop
  | unsigned argument => argument.IsShortest
  | negative argument => argument.IsShortest
  | bytes length _ _ => length.IsShortest
  | text length _ _ => length.IsShortest
  | half number => (Float.Reduced.half number).IsNarrowest
  | single number => (Float.Reduced.single number).IsNarrowest
  | double number => (Float.Reduced.double number).IsNarrowest
  | _ => True

/-- Whether a token has a definite length and the shortest head. -/
def Token.Canonical : Token → Prop
  | leaf atom => atom.Canonical
  | definite _ count => count.IsShortest
  | indefinite _ => False

/-- Whether the members of a token are labels and values in turn. -/
def Token.IsMap : Token → Prop
  | leaf _ => False
  | definite isMap _ => isMap = true
  | indefinite isMap => isMap = true

/-- The entries of a map with given members, as bytes. -/
def Node.entries (members : List Node) : List Entry := pairs (members.map encoded)

namespace Node

mutual

/-- Whether all lengths are definite, all heads the shortest, and all floating point numbers in the
narrowest precision that holds them. -/
def Canonical : Node → Prop
  | mk tags token members =>
    (∀ tag ∈ tags, tag.IsShortest) ∧ token.Canonical ∧ AllCanonical members

/-- Whether all nodes of a list are canonical. -/
def AllCanonical : List Node → Prop
  | [] => True
  | node :: rest => node.Canonical ∧ AllCanonical rest

end

mutual

/-- Whether the encoded labels of every map are in strictly increasing order, byte by byte. -/
def Ordered : Node → Prop
  | mk _ token members =>
    (token.IsMap → (entries members).Pairwise Entry.Before) ∧ AllOrdered members

/-- Whether all nodes of a list are ordered. -/
def AllOrdered : List Node → Prop
  | [] => True
  | node :: rest => node.Ordered ∧ AllOrdered rest

end

end Node

/-- The rules that write every number as it is in the narrowest precision. -/
structure Rules.Minimal (rules : Rules) : Prop extends rules.KeepsNumbers where
  reduceFloats_eq : rules.reduceFloats = true

theorem Rules.minimal_preferred : Rules.preferred.Minimal := ⟨⟨rfl, rfl⟩, rfl⟩

theorem Rules.minimal_coreDeterministic : Rules.coreDeterministic.Minimal := ⟨⟨rfl, rfl⟩, rfl⟩

/-! ### What is written is canonical -/

theorem canonical_reducedLeaf {number : Float.Reduced} :
    (reducedLeaf number).Canonical ↔ number.IsNarrowest := by
  cases number <;> exact Iff.rfl

/-- A number is written in the narrowest precision that holds it. -/
theorem encoded_double {rules : Rules} (hrules : rules.Minimal) (number : Float.Double) :
    (Scalar.double number).encoded rules = reducedBytes number.reduce := by
  simp [Scalar.encoded, floatBytes, hrules.floatsToInts_eq, hrules.canonicalNaN_eq,
    hrules.reduceFloats_eq]

/-- Whether bytes are those of a canonical node, ordered where maps are put in order. -/
def IsCanonical (rules : Rules) (level : Nat) (bytes : Bytes) : Prop :=
  ∃ node : Node, node.Regular level ∧ node.Canonical ∧
    (rules.sortMaps = true → node.Ordered) ∧ node.encoded = bytes

namespace IsCanonical

variable {rules : Rules} {level : Nat}

theorem leaf (atom : Leaf) (hatom : atom.Canonical) :
    IsCanonical rules level (atom.argument.head atom.major ++ atom.content) := by
  refine ⟨.leaf atom, ⟨trivial, rfl, trivial⟩, ⟨by simp, hatom, trivial⟩,
    fun _ ↦ ⟨fun hmap ↦ hmap.elim, trivial⟩, encoded_leaf atom⟩

/-- A leaf without content is its head alone. -/
theorem head (atom : Leaf) (hatom : atom.Canonical) (hcontent : atom.content = []) :
    IsCanonical rules level (atom.argument.head atom.major) := by
  have hleaf : IsCanonical rules level (atom.argument.head atom.major ++ atom.content) :=
    leaf atom hatom
  rwa [hcontent, List.append_nil] at hleaf

theorem tag {bytes : Bytes} (hbytes : IsCanonical rules level bytes) (number : UInt64) :
    IsCanonical rules level (shortestHead .tag number ++ bytes) := by
  obtain ⟨⟨tags, token, members⟩, hregular, ⟨htags, hcanonical⟩, hordered, rfl⟩ := hbytes
  refine ⟨.mk (.shortest number :: tags) token members, hregular,
    ⟨List.forall_mem_cons.2 ⟨rfl, htags⟩, hcanonical⟩, hordered, ?_⟩
  simp [Node.encoded, encodedTags, shortestHead]

/-- Several canonical byte strings are the bytes of a list of nodes. -/
theorem exists_nodes {each : List Bytes} (heach : ∀ bytes ∈ each, IsCanonical rules level bytes) :
    ∃ nodes, AllRegular level nodes ∧ AllCanonical nodes ∧
      (rules.sortMaps = true → AllOrdered nodes) ∧ nodes.map encoded = each := by
  induction each with
  | nil => exact ⟨[], trivial, trivial, fun _ ↦ trivial, rfl⟩
  | cons bytes rest ih =>
    obtain ⟨⟨node, hregular, hcanonical, hordered, rfl⟩, hrest⟩ := List.forall_mem_cons.1 heach
    obtain ⟨nodes, hregulars, hcanonicals, hordereds, rfl⟩ := ih hrest
    exact ⟨node :: nodes, ⟨hregular, hregulars⟩, ⟨hcanonical, hcanonicals⟩,
      fun hsort ↦ ⟨hordered hsort, hordereds hsort⟩, rfl⟩

/-- An array around canonical byte strings. -/
theorem array {each : List Bytes} (hlevel : level < maxNesting)
    (htakes : Container.array.Takes rules each)
    (heach : ∀ bytes ∈ each, IsCanonical rules (level + 1) bytes) :
    IsCanonical rules level (Container.array.enclose rules each) := by
  obtain ⟨nodes, hregular, hcanonical, hordered, rfl⟩ := exists_nodes heach
  have hcount : (nodes.map encoded).length ≤ maxItems := htakes.length_le _ rfl
  refine ⟨.mk [] (.counting false (nodes.map encoded).length) nodes,
    ⟨fits_counting false hlevel hcount, holds_counting hcount ?_, hregular⟩,
    ⟨by simp, rfl, hcanonical⟩, fun hsort ↦ ⟨fun hmap ↦ Bool.noConfusion hmap, hordered hsort⟩, ?_⟩
  · rw [List.length_map]
    rfl
  · rw [encoded_counting, ← flatten_map_encoded]
    rfl

/-- A map around canonical byte strings, in order where the rules put maps in order. -/
theorem map {each : List Bytes} (hlevel : level < maxNesting)
    (htakes : Container.map.Takes rules each)
    (heach : ∀ bytes ∈ each, IsCanonical rules (level + 1) bytes) :
    IsCanonical rules level (Container.map.enclose rules each) := by
  have harranged : ∀ bytes ∈ unpaired (Container.arrange rules (pairs each)),
      IsCanonical rules (level + 1) bytes :=
    fun bytes hbytes ↦ heach bytes (mem_of_mem_unpaired hbytes)
  obtain ⟨nodes, hregular, hcanonical, hordered, hnodes⟩ := exists_nodes harranged
  have hcount : each.length ≤ 2 * maxItems := htakes.length_le _ rfl
  have hpairs : each.length / 2 ≤ maxItems := by omega
  have hmembers : nodes.length = 2 * (each.length / 2) := by
    have hlength : (nodes.map encoded).length = (unpaired _).length := congrArg List.length hnodes
    rwa [List.length_map, length_unpaired, (Container.perm_arrange rules _).length_eq,
      length_pairs] at hlength
  refine ⟨.mk [] (.counting true (each.length / 2)) nodes,
    ⟨fits_counting true hlevel hpairs, holds_counting hpairs hmembers, hregular⟩,
    ⟨by simp, rfl, hcanonical⟩, fun hsort ↦ ⟨fun _ ↦ ?_, hordered hsort⟩, ?_⟩
  · rw [entries, hnodes, pairs_unpaired, Container.arrange, if_pos hsort]
    exact Entry.pairwise_sorted (htakes.labels_distinct rfl hsort)
  · rw [encoded_counting, ← flatten_map_encoded, hnodes, flatten_unpaired]
    rfl

end IsCanonical

namespace Value

mutual

/-- What the encoder makes of a value is canonical, and ordered where it puts maps in order. -/
theorem isCanonical_outline {rules : Rules} (hrules : rules.Minimal) (value : Value) {depth : Nat}
    (hadmissible : value.outline.Admissible rules depth)
    (hlength : (value.outline.encoded rules).length < 2 ^ 64) :
    IsCanonical rules depth (value.outline.encoded rules) := by
  cases value with
  | unsigned n => exact .head (.unsigned (.shortest n)) rfl rfl
  | negative n => exact .head (.negative (.shortest n)) rfl rfl
  | bytes content =>
    change (shortestHead _ _ ++ content).length < 2 ^ 64 at hlength
    rw [List.length_append] at hlength
    have hcontent : content.length < 2 ^ 64 := by omega
    exact .leaf (.ofBytes content hcontent) (Argument.isShortest_shortest _)
  | text content =>
    change (shortestHead _ _ ++ content.toUTF8.toList).length < 2 ^ 64 at hlength
    rw [List.length_append, length_toUTF8] at hlength
    have hcontent : content.utf8ByteSize < 2 ^ 64 := by omega
    exact .leaf (.ofText content hcontent) (Argument.isShortest_shortest _)
  | float number =>
    have hatom : (reducedLeaf number.reduce).Canonical :=
      canonical_reducedLeaf.2 number.isNarrowest_reduce
    change IsCanonical rules depth ((Scalar.double number).encoded rules)
    rw [encoded_double hrules, reducedBytes_eq]
    exact .head _ hatom (content_reducedLeaf _)
  | bool truth => exact .head (.bool truth) trivial rfl
  | null => exact .head .null trivial rfl
  | tag number content =>
    change (shortestHead _ _ ++ content.outline.encoded rules).length < 2 ^ 64 at hlength
    rw [List.length_append] at hlength
    exact (isCanonical_outline hrules content hadmissible (by omega)).tag number
  | array members =>
    obtain ⟨hdepth, _, htakes, hmembers⟩ := hadmissible
    have hinner := Container.length_le_enclose htakes
    change (Container.array.enclose rules _).length < 2 ^ 64 at hlength
    refine .array hdepth htakes (areCanonical_outlines hrules members hmembers ?_)
    omega
  | map entries =>
    obtain ⟨hdepth, _, htakes, hmembers⟩ := hadmissible
    have hinner := Container.length_le_enclose htakes
    change (Container.map.enclose rules _).length < 2 ^ 64 at hlength
    refine .map hdepth htakes (areCanonical_entryOutlines hrules entries hmembers ?_)
    omega

theorem areCanonical_outlines {rules : Rules} (hrules : rules.Minimal) (members : List Value)
    {depth : Nat} (hadmissible : Outline.AllAdmissible rules depth (outlines members))
    (hlength : (Outline.encodedEach rules (outlines members)).flatten.length < 2 ^ 64) :
    ∀ bytes ∈ Outline.encodedEach rules (outlines members), IsCanonical rules depth bytes := by
  cases members with
  | nil => exact fun bytes hbytes ↦ by cases hbytes
  | cons member rest =>
    obtain ⟨hmember, hrest⟩ := hadmissible
    rw [outlines, Outline.encodedEach, List.flatten_cons, List.length_append] at hlength
    exact List.forall_mem_cons.2 ⟨isCanonical_outline hrules member hmember (by omega),
      areCanonical_outlines hrules rest hrest (by omega)⟩

theorem areCanonical_entryOutlines {rules : Rules} (hrules : rules.Minimal)
    (entries : List (Value × Value)) {depth : Nat}
    (hadmissible : Outline.AllAdmissible rules depth (entryOutlines entries))
    (hlength : (Outline.encodedEach rules (entryOutlines entries)).flatten.length < 2 ^ 64) :
    ∀ bytes ∈ Outline.encodedEach rules (entryOutlines entries), IsCanonical rules depth bytes := by
  match entries with
  | [] => exact fun bytes hbytes ↦ by cases hbytes
  | (label, value) :: rest =>
    obtain ⟨hlabel, hvalue, hrest⟩ := hadmissible
    rw [entryOutlines, Outline.encodedEach, Outline.encodedEach, List.flatten_cons,
      List.flatten_cons, List.length_append, List.length_append] at hlength
    exact List.forall_mem_cons.2 ⟨isCanonical_outline hrules label hlabel (by omega),
      List.forall_mem_cons.2 ⟨isCanonical_outline hrules value hvalue (by omega),
        areCanonical_entryOutlines hrules rest hrest (by omega)⟩⟩

end

/-! ### Canonical nodes are written again -/

/-- Whether the encoder makes some bytes of a value at a depth. -/
structure WrittenAs (rules : Rules) (depth : Nat) (value : Value) (bytes : Bytes) : Prop where
  admissible : value.outline.Admissible rules depth
  encoded_eq : value.outline.encoded rules = bytes

theorem outline_tags (tags : List UInt64) (content : Value) :
    (tags.foldr Value.tag content).outline = tagged tags content.outline := by
  induction tags with
  | nil => rfl
  | cons tag tags ih =>
    change Outline.tag tag (tags.foldr Value.tag content).outline = _
    rw [ih]
    rfl

theorem number_eq_of_toNat {number : UInt64} {count : Nat} (hcount : number.toNat = count) :
    number = UInt64.ofNat count := by
  rw [← hcount, UInt64.ofNat_toNat]

/-- A number in the narrowest precision is written again. -/
theorem writtenAs_reducedLeaf {rules : Rules} (hrules : rules.Minimal) (number : Float.Reduced)
    (hnumber : (reducedLeaf number).Canonical) (depth : Nat) :
    (Value.float number.toDouble).WrittenAs rules depth
      ((reducedLeaf number).argument.head (reducedLeaf number).major ++
        (reducedLeaf number).content) := by
  refine ⟨trivial, ?_⟩
  change (Scalar.double number.toDouble).encoded rules = _
  rw [encoded_double hrules, content_reducedLeaf, List.append_nil, ← reducedBytes_eq,
    Float.Double.reduce_eq_iff.2 ⟨rfl, canonical_reducedLeaf.1 hnumber⟩]

/-- A canonical leaf is written again. -/
theorem writtenAs_leaf {rules : Rules} (hrules : rules.Minimal) {atom : Leaf}
    (hatom : atom.Canonical) {content : Value} (hvalue : atom.value.generic? = some content)
    (depth : Nat) :
    content.WrittenAs rules depth (atom.argument.head atom.major ++ atom.content) := by
  cases atom with
  | unsigned argument =>
    cases hvalue
    refine ⟨trivial, ?_⟩
    change _ = argument.head .unsigned ++ []
    rw [List.append_nil, hatom.head_eq]
    rfl
  | negative argument =>
    cases hvalue
    refine ⟨trivial, ?_⟩
    change _ = argument.head .negative ++ []
    rw [List.append_nil, hatom.head_eq]
    rfl
  | bytes length content hlength =>
    cases hvalue
    refine ⟨trivial, ?_⟩
    change _ = length.head .bytes ++ content
    rw [hatom.head_eq, number_eq_of_toNat hlength]
    rfl
  | text length content hlength =>
    cases hvalue
    refine ⟨trivial, ?_⟩
    change _ = length.head .text ++ content.toUTF8.toList
    rw [hatom.head_eq, number_eq_of_toNat hlength]
    rfl
  | simple number hnumber => cases hvalue
  | bool truth =>
    cases hvalue
    refine ⟨?_, (List.append_nil _).symm⟩
    cases truth <;> exact ⟨by decide, fun _ ↦ by decide⟩
  | null =>
    cases hvalue
    exact ⟨⟨by decide, fun _ ↦ by decide⟩, (List.append_nil _).symm⟩
  | undefined => cases hvalue
  | half number =>
    cases hvalue
    exact writtenAs_reducedLeaf hrules (.half number) hatom depth
  | single number =>
    cases hvalue
    exact writtenAs_reducedLeaf hrules (.single number) hatom depth
  | double number =>
    cases hvalue
    exact writtenAs_reducedLeaf hrules (.double number) hatom depth

/-- Tags with the shortest heads are written again. -/
theorem WrittenAs.tags {rules : Rules} {depth : Nat} {content : Value} {bytes : Bytes}
    (hcontent : content.WrittenAs rules depth bytes) {tags : List Argument}
    (htags : ∀ tag ∈ tags, tag.IsShortest) :
    ((tags.map (·.number)).foldr Value.tag content).WrittenAs rules depth
      (encodedTags tags ++ bytes) := by
  have hheads : tagHeads (tags.map (·.number)) = encodedTags tags := by
    rw [tagHeads, encodedTags, List.flatMap_map]
    refine List.flatMap_congr fun tag htag ↦ ?_
    exact ((htags tag htag).head_eq .tag).symm
  constructor
  · rw [outline_tags]
    exact admissible_tagged.2 hcontent.admissible
  · rw [outline_tags, encoded_tagged, hheads, hcontent.encoded_eq]

/-- Whether the encoder makes the bytes of some nodes of some values at a depth. -/
structure AllWrittenAs (rules : Rules) (depth : Nat) (values : List Value) (nodes : List Node) :
    Prop where
  admissible : Outline.AllAdmissible rules depth (outlines values)
  encoded_eq : Outline.encodedEach rules (outlines values) = nodes.map encoded

/-- The labels and values of a map in turn are those of its entries. -/
theorem eq_flattened_of_entries? {values : List Value} {entries : List (Value × Value)}
    (hentries : entries? values = some entries) : values = flattened entries := by
  fun_induction entries? values generalizing entries with
  | case1 =>
    cases hentries
    rfl
  | case2 value => cases hentries
  | case3 label value rest ih =>
    obtain ⟨others, hothers, rfl⟩ := Option.map_eq_some_iff.1 hentries
    rw [ih hothers]
    rfl

theorem entryOutlines_eq (entries : List (Value × Value)) :
    entryOutlines entries = outlines (flattened entries) := by
  induction entries with
  | nil => rfl
  | cons entry rest ih =>
    change entry.1.outline :: entry.2.outline :: entryOutlines rest = _
    rw [ih]
    rfl

/-- An array with the shortest head is written again with its members. -/
theorem AllWrittenAs.array {rules : Rules} {level : Nat} {values : List Value}
    {members : List Node} (hmembers : AllWrittenAs rules (level + 1) values members)
    {count : Argument} (hcount : count.IsShortest) (hfits : (Token.definite false count).Fits level)
    (hholds : (Token.definite false count).Holds members.length) :
    (Value.array values).WrittenAs rules level
      ((Token.definite false count).encoded ++ encodedAll members) := by
  obtain ⟨hlevel, hitems⟩ := hfits
  have heach := hmembers.encoded_eq
  have hlength : (Outline.encodedEach rules (outlines values)).length = count.number.toNat := by
    rw [heach, List.length_map]
    exact hholds
  have hhead : count.head .array = shortestHead .array (UInt64.ofNat count.number.toNat) := by
    rw [hcount.head_eq, UInt64.ofNat_toNat]
  constructor
  · refine ⟨hlevel, fun hindefinite ↦ absurd hindefinite (by decide),
      ⟨?_, fun hmap ↦ absurd hmap (by decide), fun hmap ↦ absurd hmap (by decide)⟩,
      hmembers.admissible⟩
    rintro _ ⟨⟩
    rw [hlength]
    exact hitems
  · change Container.array.enclose rules (Outline.encodedEach rules (outlines values)) = _
    rw [Container.enclose, hlength, heach, flatten_map_encoded, ← hhead]
    simp [Token.encoded, Token.head, Token.content, containerMajor]

/-- A map with the shortest head is written again with its labels and values, which are in order if
maps are put in order. -/
theorem AllWrittenAs.map {rules : Rules} {level : Nat} {values : List Value}
    {members : List Node} (hmembers : AllWrittenAs rules (level + 1) values members)
    {count : Argument} (hcount : count.IsShortest) (hfits : (Token.definite true count).Fits level)
    (hholds : (Token.definite true count).Holds members.length)
    (hordered : rules.sortMaps = true → (Node.entries members).Pairwise Entry.Before)
    {entries : List (Value × Value)} (hentries : entries? values = some entries) :
    (Value.map entries).WrittenAs rules level
      ((Token.definite true count).encoded ++ encodedAll members) := by
  obtain ⟨hlevel, hitems⟩ := hfits
  obtain ⟨hadmissible, heach⟩ := hmembers
  rw [eq_flattened_of_entries? hentries, ← entryOutlines_eq] at hadmissible heach
  have hlength : (Outline.encodedEach rules (entryOutlines entries)).length =
      2 * count.number.toNat := by
    rw [heach, List.length_map]
    exact hholds
  have hhead : count.head .map = shortestHead .map (UInt64.ofNat count.number.toNat) := by
    rw [hcount.head_eq, UInt64.ofNat_toNat]
  have hwhole : (Outline.encodedEach rules (entryOutlines entries)).length % 2 = 0 := by omega
  have harranged : Container.arrange rules (pairs (Outline.encodedEach rules
      (entryOutlines entries))) = pairs (Outline.encodedEach rules (entryOutlines entries)) := by
    rw [Container.arrange, heach]
    split_ifs with hsort
    · exact (Entry.eq_sorted (.refl _) (hordered hsort)).symm
    · rfl
  constructor
  · refine ⟨hlevel, fun hindefinite ↦ absurd hindefinite (by decide), ⟨?_, fun _ ↦ hwhole, ?_⟩,
      hadmissible⟩
    · rintro _ ⟨⟩
      rw [hlength]
      exact Nat.mul_le_mul_left 2 hitems
    · intro _ hsort
      rw [heach]
      exact Entry.distinct_of_pairwise (hordered hsort)
  · change Container.map.enclose rules (Outline.encodedEach rules (entryOutlines entries)) = _
    rw [Container.enclose, harranged, Container.encodedEntries_pairs hwhole, hlength,
      Nat.mul_div_cancel_left _ (by decide), heach, flatten_map_encoded, ← hhead]
    simp [Token.encoded, Token.head, Token.content, containerMajor]

mutual

/-- The value of a canonical node is written as the node, where the node is ordered if maps are put
in order. -/
theorem writtenAs_of_node {rules : Rules} (hrules : rules.Minimal) (node : Node) {level : Nat}
    (hnode : node.WellFormed level) (hcanonical : node.Canonical)
    (hordered : rules.sortMaps = true → node.Ordered) {value : Value}
    (hvalue : node.value? = some value) : value.WrittenAs rules level node.encoded := by
  obtain ⟨tags, token, members⟩ := node
  obtain ⟨_, hfits, hholds, hmembers⟩ := hnode
  obtain ⟨htags, htoken, hcanonicals⟩ := hcanonical
  obtain ⟨content, hcontent, rfl⟩ := Option.map_eq_some_iff.1 hvalue
  have hbytes : (Node.mk tags token members).encoded =
      encodedTags tags ++ (token.encoded ++ encodedAll members ++ token.closing) := by
    simp [encoded]
  rw [hbytes]
  refine WrittenAs.tags ?_ htags
  cases token with
  | leaf atom =>
    obtain rfl : members = [] := List.length_eq_zero_iff.1 hholds
    simpa [Token.encoded, Token.head, Token.content, Token.closing, encodedAll] using
      writtenAs_leaf hrules htoken hcontent level
  | definite isMap count =>
    obtain ⟨values, hvalues, hcontainer⟩ := Option.bind_eq_some_iff.1 hcontent
    have hwritten := allWrittenAs_of_nodes hrules members hmembers hcanonicals
      (fun hsort ↦ (hordered hsort).2) hvalues
    rw [Token.closing, List.append_nil]
    cases isMap with
    | false =>
      cases hcontainer
      exact hwritten.array htoken hfits hholds
    | true =>
      obtain ⟨entries, hentries, rfl⟩ := Option.map_eq_some_iff.1 hcontainer
      exact hwritten.map htoken hfits hholds (fun hsort ↦ (hordered hsort).1 rfl) hentries
  | indefinite isMap => exact htoken.elim

theorem allWrittenAs_of_nodes {rules : Rules} (hrules : rules.Minimal) (nodes : List Node)
    {level : Nat} (hnodes : AllWellFormed level nodes) (hcanonical : AllCanonical nodes)
    (hordered : rules.sortMaps = true → AllOrdered nodes) {values : List Value}
    (hvalues : values? nodes = some values) : AllWrittenAs rules level values nodes := by
  cases nodes with
  | nil =>
    cases hvalues
    exact ⟨trivial, rfl⟩
  | cons node rest =>
    rw [values?] at hvalues
    obtain ⟨value, hvalue, hrest⟩ := Option.bind_eq_some_iff.1 hvalues
    obtain ⟨others, hothers, rfl⟩ := Option.map_eq_some_iff.1 hrest
    have hfirst := writtenAs_of_node hrules node hnodes.1 hcanonical.1
      (fun hsort ↦ (hordered hsort).1) hvalue
    have hbehind := allWrittenAs_of_nodes hrules rest hnodes.2 hcanonical.2
      (fun hsort ↦ (hordered hsort).2) hothers
    refine ⟨⟨hfirst.admissible, hbehind.admissible⟩, ?_⟩
    rw [outlines, Outline.encodedEach, hfirst.encoded_eq, hbehind.encoded_eq, List.map_cons]

end

end Value

/-! ### Encoding what was decoded -/

namespace Encoder

/-- A growing session finishes with a value if and only if the value keeps the limits and is short
enough, and then with the bytes of its outline. -/
theorem finish_appendValue_eq_ok {rules : Rules} {value : Value} {bytes : Bytes} :
    ((growable rules).appendValue value).finish = .ok bytes ↔
      value.WrittenAs rules 0 bytes ∧ bytes.length ≤ maxEncodedLength := by
  rw [appendValue_eq_perform, finish_perform_outline_eq_ok_iff]
  constructor
  · rintro ⟨hadmissible, hencoded, hlength⟩
    exact ⟨⟨hadmissible, hencoded⟩, hlength⟩
  · rintro ⟨⟨hadmissible, hencoded⟩, hlength⟩
    exact ⟨hadmissible, hencoded, hlength⟩

/-- The encoder makes the bytes of a node of its value if and only if the node is canonical, and
ordered where maps are put in order. -/
theorem finish_appendValue_iff_of_node {rules : Rules} (hrules : rules.Minimal) {node : Node}
    (hnode : node.WellFormed 0) {value : Value} (hvalue : node.value? = some value) :
    ((growable rules).appendValue value).finish = .ok node.encoded ↔
      node.Canonical ∧ (rules.sortMaps = true → node.Ordered) ∧
        node.encoded.length ≤ maxEncodedLength := by
  rw [finish_appendValue_eq_ok]
  constructor
  · rintro ⟨⟨hadmissible, hencoded⟩, hlength⟩
    have hshort : (value.outline.encoded rules).length < 2 ^ 64 := by
      rw [hencoded]
      exact Nat.lt_of_le_of_lt hlength (by decide)
    obtain ⟨other, hregular, hcanonical, hordered, hother⟩ :=
      Value.isCanonical_outline hrules value hadmissible hshort
    obtain rfl := encoded_inj hregular (WellFormed.regular node hnode) (hother.trans hencoded)
    exact ⟨hcanonical, hordered, hlength⟩
  · rintro ⟨hcanonical, hordered, hlength⟩
    exact ⟨Value.writtenAs_of_node hrules node hnode hcanonical hordered hvalue, hlength⟩

/-- An input that is read to its end as a value is the encoding of exactly one node. Under preferred
rules the encoder makes the input of the value again if and only if all lengths in this node are
definite, all heads the shortest and all floating point numbers in the narrowest precision that
holds them, and under the rules of deterministic encoding if and only if the labels of all maps are
also in increasing order; in both cases the input has to be short enough for an encoding. -/
theorem finish_appendValue_iff_canonical {input : Bytes} {value : Value} {after last : Decoder}
    (hread : (Reading.nextValue : Reading DecodeError Value).run (.ofBytes input) =
      .ok value after)
    (hfinish : Decoder.finish after = .ok () last) :
    ∃ node : Node, node.WellFormed 0 ∧ node.encoded = input ∧ node.value? = some value ∧
      (∀ other : Node, other.WellFormed 0 → other.encoded = input → other = node) ∧
      (((growable .preferred).appendValue value).finish = .ok input ↔
        node.Canonical ∧ input.length ≤ maxEncodedLength) ∧
      (((growable .coreDeterministic).appendValue value).finish = .ok input ↔
        node.Canonical ∧ node.Ordered ∧ input.length ≤ maxEncodedLength) := by
  obtain ⟨node, hnode, rfl, hvalue⟩ := Reading.exists_node_of_nextValue hread hfinish
  refine ⟨node, hnode, rfl, hvalue, fun other hother hsame ↦ ?_, ?_, ?_⟩
  · exact encoded_inj (WellFormed.regular other hother) (WellFormed.regular node hnode) hsame
  · rw [finish_appendValue_iff_of_node Rules.minimal_preferred hnode hvalue]
    simp [Rules.preferred]
  · rw [finish_appendValue_iff_of_node Rules.minimal_coreDeterministic hnode hvalue]
    simp [Rules.coreDeterministic]

/-- A map whose labels are not in order. -/
theorem finish_appendValue_iff_canonical_map :
    ∃ node : Node, node.WellFormed 0 ∧ node.encoded = [0xa2, 0x02, 0xf9, 0x3e, 0x00, 0x01, 0x80] ∧
      node.value? = some (.map [(.unsigned 2, .float ⟨0x3ff8000000000000⟩),
        (.unsigned 1, .array [])]) ∧
      (∀ other : Node, other.WellFormed 0 →
        other.encoded = [0xa2, 0x02, 0xf9, 0x3e, 0x00, 0x01, 0x80] → other = node) ∧
      (((growable .preferred).appendValue (.map [(.unsigned 2, .float ⟨0x3ff8000000000000⟩),
          (.unsigned 1, .array [])])).finish = .ok [0xa2, 0x02, 0xf9, 0x3e, 0x00, 0x01, 0x80] ↔
        node.Canonical ∧ 7 ≤ maxEncodedLength) ∧
      (((growable .coreDeterministic).appendValue (.map [(.unsigned 2, .float ⟨0x3ff8000000000000⟩),
          (.unsigned 1, .array [])])).finish = .ok [0xa2, 0x02, 0xf9, 0x3e, 0x00, 0x01, 0x80] ↔
        node.Canonical ∧ node.Ordered ∧ 7 ≤ maxEncodedLength) := by
  have hread : (Reading.nextValue : Reading DecodeError Value).run
      (.ofBytes [0xa2, 0x02, 0xf9, 0x3e, 0x00, 0x01, 0x80]) =
        .ok (.map [(.unsigned 2, .float ⟨0x3ff8000000000000⟩), (.unsigned 1, .array [])])
          ⟨[], 7, [⟨.items 0, false, 0⟩, ⟨.items 0, true, 4⟩]⟩ := by
    with_unfolding_all rfl
  have hfinish : Decoder.finish ⟨[], 7, [⟨.items 0, false, 0⟩, ⟨.items 0, true, 4⟩]⟩ =
      .ok () ⟨[], 7, []⟩ := rfl
  exact finish_appendValue_iff_canonical hread hfinish

/-- A byte string that does not fit in an encoding is refused, once its head is written. -/
theorem finish_appendBytes_of_overlong (rules : Rules) {content : Bytes}
    (hlong : maxEncodedLength < content.length) :
    ((growable rules).appendBytes content).finish = .error .bufferTooLarge := by
  let number : UInt64 := UInt64.ofNat content.length
  have hhead : (shortestHead .bytes number).length ≤ maxEncodedLength := by
    have hwidth : (Argument.shortest number).width.size ≤ 8 := by
      cases (Argument.shortest number).width <;> decide
    rw [shortestHead, Argument.length_head]
    exact Nat.le_trans (Nat.succ_le_succ hwidth) (by decide)
  have hfits : ([] : Bytes).length + (shortestHead .bytes number).length ≤ maxEncodedLength := by
    rwa [List.length_nil, Nat.zero_add]
  have hwritten : (growable rules).beginItem.write (encodeHead .bytes number 0) =
      live rules (shortestHead .bytes number) [] false := by
    rw [Argument.encodeHead_zero]
    exact write_live hfits
  have hrefused : ((growable rules).appendBytes content).error = some .bufferTooLarge := by
    rw [appendBytes, hwritten]
    exact error_write_live (Nat.lt_of_lt_of_le hlong (Nat.le_add_left _ _))
  exact (finish_of_error hrefused).1

/-- A definite byte string of `2 ^ 32` zeros has the shortest head and is read to its end, and yet
the encoder does not make it again: it is canonical, but too long for an encoding. -/
theorem finish_appendValue_of_overlong :
    let content : Bytes := List.replicate (2 ^ 32) 0
    let input : Bytes := [0x5b, 0, 0, 0, 1, 0, 0, 0, 0] ++ content
    (∃ after last,
      (Reading.nextValue : Reading DecodeError Value).run (.ofBytes input) =
        .ok (.bytes content) after ∧ Decoder.finish after = .ok () last) ∧
    (∃ node : Node, node.WellFormed 0 ∧ node.encoded = input ∧ node.Canonical ∧ node.Ordered) ∧
    ((growable .preferred).appendValue (.bytes content)).finish = .error .bufferTooLarge ∧
    ((growable .coreDeterministic).appendValue (.bytes content)).finish =
      .error .bufferTooLarge := by
  intro content input
  have hcontent : content.length = 2 ^ 32 := List.length_replicate
  have hword : content.length < 2 ^ 64 := by
    rw [hcontent]
    decide
  have hlong : maxEncodedLength < content.length := by
    rw [hcontent]
    decide
  let node : Node := .leaf (.ofBytes content hword)
  have hnode : node.WellFormed 0 := wellFormed_leaf 0 _
  have hinput : node.encoded = input := by
    have hhead : (Argument.shortest (UInt64.ofNat content.length)).head .bytes =
        [0x5b, 0, 0, 0, 1, 0, 0, 0, 0] := by
      rw [hcontent]
      decide
    rw [encoded_leaf]
    exact congrArg (· ++ content) hhead
  have hcanonical : node.Canonical :=
    ⟨by simp, Argument.isShortest_shortest _, trivial⟩
  have hvalue : node.value? = some (.bytes content) := rfl
  obtain ⟨after, hread, last, hfinish⟩ := Reading.nextValue_of_node (ε := DecodeError) hnode hvalue
  rw [hinput] at hread
  exact ⟨⟨after, last, hread, hfinish⟩,
    ⟨node, hnode, hinput, hcanonical, fun hmap ↦ hmap.elim, trivial⟩,
    finish_appendBytes_of_overlong .preferred hlong,
    finish_appendBytes_of_overlong .coreDeterministic hlong⟩

end Encoder

end Cose.Cbor
