import Mathlib.Tactic.Common
import Cose.Proofs.Cbor.Encoder.Outline
import Cose.Proofs.Cbor.Extent
import Cose.Proofs.Float.Narrowing

/-!
# Admissible outlines are nodes

The bytes of an admissible outline are those of a node of the grammar (`Outline.isNode`). So the
body of a map is split into the entries that were written, and put in order it is what the
serialization says (`sortEntries_flatten`).
-/

set_option autoImplicit false
set_option relaxedAutoImplicit false

namespace Cose.Cbor

/-! ### Leaves -/

/-- A leaf alone is regular at every level. -/
theorem isNode_leaf (level : Nat) (atom : Leaf) :
    IsNode level (atom.argument.head atom.major ++ atom.content) :=
  ⟨.leaf atom, ⟨trivial, rfl, trivial⟩, Node.encoded_leaf atom⟩

theorem isNode_unsigned (level : Nat) (number : UInt64) :
    IsNode level (shortestHead .unsigned number) := by
  simpa [shortestHead, Leaf.content, Leaf.argument, Leaf.major] using
    isNode_leaf level (.unsigned (.shortest number))

theorem isNode_negative (level : Nat) (number : UInt64) :
    IsNode level (shortestHead .negative number) := by
  simpa [shortestHead, Leaf.content, Leaf.argument, Leaf.major] using
    isNode_leaf level (.negative (.shortest number))

theorem isNode_bytes (level : Nat) {content : Bytes} (hlength : content.length < 2 ^ 64) :
    IsNode level (shortestHead .bytes (UInt64.ofNat content.length) ++ content) :=
  isNode_leaf level (.ofBytes content hlength)

theorem isNode_text (level : Nat) {content : String} (hlength : content.utf8ByteSize < 2 ^ 64) :
    IsNode level (shortestHead .text (UInt64.ofNat content.utf8ByteSize) ++
      content.toUTF8.toList) :=
  isNode_leaf level (.ofText content hlength)

/-- The simple value that a leaf stands for, by its number. -/
theorem isNode_simple (level : Nat) {value : UInt8} (hassigned : ¬(24 ≤ value ∧ value < 32)) :
    IsNode level (shortestHead .simple value.toUInt64) := by
  have hleaf (atom : Leaf) (hmajor : atom.major = .simple) (hcontent : atom.content = [])
      (hargument : atom.argument = .shortest value.toUInt64) :
      IsNode level (shortestHead .simple value.toUInt64) := by
    have hnode := isNode_leaf level atom
    rwa [hmajor, hcontent, hargument, List.append_nil] at hnode
  by_cases hfalse : value = simpleFalse
  · exact hleaf (.bool false) rfl rfl (by rw [hfalse]; rfl)
  by_cases htrue : value = simpleTrue
  · exact hleaf (.bool true) rfl rfl (by rw [htrue]; rfl)
  by_cases hnull : value = simpleNull
  · exact hleaf .null rfl rfl (by rw [hnull]; rfl)
  by_cases hundefined : value = simpleUndefined
  · exact hleaf .undefined rfl rfl (by rw [hundefined]; rfl)
  · have hnumber : value.toNat < 20 ∨ 32 ≤ value.toNat := by
      rw [← UInt8.toNat_inj] at hfalse htrue hnull hundefined
      rw [UInt8.le_iff_toNat_le, UInt8.lt_iff_toNat_lt] at hassigned
      simp only [simpleFalse, simpleTrue, simpleNull, simpleUndefined, UInt8.toNat_ofNat] at *
      omega
    exact hleaf (.simple value hnumber) rfl rfl rfl

/-- The leaf that a number in its own precision is written as. -/
def reducedLeaf : Float.Reduced → Leaf
  | .half number => .half number
  | .single number => .single number
  | .double number => .double number

theorem reducedBytes_eq (number : Float.Reduced) :
    reducedBytes number = (reducedLeaf number).argument.head (reducedLeaf number).major := by
  cases number <;> rfl

theorem content_reducedLeaf (number : Float.Reduced) : (reducedLeaf number).content = [] := by
  cases number <;> rfl

theorem value_reducedLeaf (number : Float.Reduced) :
    (reducedLeaf number).value = .float number.toDouble := by
  cases number <;> rfl

theorem isNode_reduced (level : Nat) (number : Float.Reduced) :
    IsNode level (reducedBytes number) := by
  have hnode := isNode_leaf level (reducedLeaf number)
  rwa [content_reducedLeaf, List.append_nil, ← reducedBytes_eq] at hnode

/-- The rules that write every number as it is. -/
structure Rules.KeepsNumbers (rules : Rules) : Prop where
  floatsToInts_eq : rules.floatsToInts = false
  canonicalNaN_eq : rules.canonicalNaN = false

/-- A number keeps every bit, in whichever precision it is written. -/
theorem exists_leaf_of_double {rules : Rules} (hrules : rules.KeepsNumbers)
    (number : Float.Double) :
    ∃ atom : Leaf, atom.argument.head atom.major = (Scalar.double number).encoded rules ∧
      atom.content = [] ∧ atom.value = .float number := by
  simp only [Scalar.encoded, floatBytes, hrules.floatsToInts_eq, hrules.canonicalNaN_eq,
    Bool.false_eq_true, if_false, Bool.and_false]
  split_ifs
  · refine ⟨reducedLeaf number.reduce, (reducedBytes_eq _).symm, content_reducedLeaf _, ?_⟩
    rw [value_reducedLeaf, Float.Double.toDouble_reduce]
  · exact ⟨.double number, rfl, rfl, rfl⟩

theorem isNode_float (level : Nat) (rules : Rules) (whole? : Option Float.WholeNumber)
    (isNaN : Bool) (narrowest full : Float.Reduced) :
    IsNode level (floatBytes rules whole? isNaN narrowest full) := by
  unfold floatBytes
  split
  next whole _ =>
    cases whole with
    | unsigned number => exact isNode_unsigned level number
    | negative number => exact isNode_negative level number
  · split_ifs <;> exact isNode_reduced level _

/-- A permitted scalar is a node without members. -/
theorem Scalar.isNode {rules : Rules} (level : Nat) {value : Scalar}
    (hallowed : value.Allowed rules) (hlength : (value.encoded rules).length < 2 ^ 64) :
    IsNode level (value.encoded rules) := by
  cases value with
  | int number =>
    simp only [Scalar.encoded]
    split
    · exact isNode_unsigned level _
    · exact isNode_negative level _
  | unsigned number => exact isNode_unsigned level number
  | negative number => exact isNode_negative level number
  | bytes content =>
    rw [Scalar.encoded, List.length_append] at hlength
    exact isNode_bytes level (by omega)
  | text content =>
    rw [Scalar.encoded, List.length_append, length_toUTF8] at hlength
    exact isNode_text level (by omega)
  | simple value => exact isNode_simple level hallowed.1
  | double number => exact isNode_float level rules _ _ _ _
  | single number => exact isNode_float level rules _ _ _ _
  | fullDouble number => exact isNode_reduced level (.double number)
  | fullSingle number => exact isNode_reduced level (.single number)

/-! ### Entries of maps -/

theorem IsNode.mono {outer level : Nat} (houter : outer ≤ level) {bytes : Bytes}
    (hnode : IsNode level bytes) : IsNode outer bytes := by
  obtain ⟨node, hregular, hencoded⟩ := hnode
  exact ⟨node, Node.Regular.mono houter node hregular, hencoded⟩

/-- Several byte strings of nodes are the bytes of a list of nodes. -/
theorem exists_nodes {level : Nat} {members : List Bytes}
    (hmembers : ∀ bytes ∈ members, IsNode level bytes) :
    ∃ nodes, Node.AllRegular level nodes ∧ nodes.length = members.length ∧
      Node.encodedAll nodes = members.flatten := by
  induction members with
  | nil => exact ⟨[], trivial, rfl, rfl⟩
  | cons bytes rest ih =>
    obtain ⟨⟨node, hregular, rfl⟩, hrest⟩ := List.forall_mem_cons.1 hmembers
    obtain ⟨nodes, hnodes, hlength, hencoded⟩ := ih hrest
    exact ⟨node :: nodes, ⟨hregular, hnodes⟩, by simp [hlength],
      by simp [Node.encodedAll, hencoded]⟩

theorem mem_of_mem_pairs {members : List Bytes} {entry : Entry} (hentry : entry ∈ pairs members) :
    entry.label ∈ members ∧ entry.value ∈ members := by
  fun_induction pairs members with
  | case1 => cases hentry
  | case2 label => cases hentry
  | case3 label value rest ih =>
    rcases List.mem_cons.1 hentry with rfl | hrest
    · simp
    · obtain ⟨hlabel, hvalue⟩ := ih hrest
      exact ⟨.tail _ (.tail _ hlabel), .tail _ (.tail _ hvalue)⟩

theorem ofNodes_pairs {level : Nat} {members : List Bytes}
    (hmembers : ∀ bytes ∈ members, IsNode level bytes) :
    ∀ entry ∈ pairs members, entry.OfNodes level := by
  intro entry hentry
  obtain ⟨hlabel, hvalue⟩ := mem_of_mem_pairs hentry
  exact ⟨hmembers _ hlabel, hmembers _ hvalue⟩

/-- The labels and values of some entries in turn. -/
def unpaired (entries : List Entry) : List Bytes :=
  entries.flatMap fun entry ↦ [entry.label, entry.value]

theorem flatten_unpaired (entries : List Entry) :
    (unpaired entries).flatten = encodedEntries entries := by
  induction entries with
  | nil => rfl
  | cons entry rest ih =>
    change entry.label ++ (entry.value ++ (unpaired rest).flatten) = _
    rw [ih, ← List.append_assoc]
    rfl

theorem length_unpaired (entries : List Entry) :
    (unpaired entries).length = 2 * entries.length := by
  induction entries with
  | nil => rfl
  | cons entry rest ih =>
    change (unpaired rest).length + 2 = _
    rw [ih, List.length_cons, Nat.mul_succ]

theorem length_pairs (members : List Bytes) : (pairs members).length = members.length / 2 := by
  fun_induction pairs members with
  | case1 => rfl
  | case2 label => simp
  | case3 label value rest ih =>
    rw [List.length_cons, ih, List.length_cons, List.length_cons]
    omega

theorem pairs_unpaired (entries : List Entry) : pairs (unpaired entries) = entries := by
  induction entries with
  | nil => rfl
  | cons entry rest ih =>
    change entry :: pairs (unpaired rest) = _
    rw [ih]

/-- The labels and values of a map in some order are among its members. -/
theorem mem_of_mem_unpaired {rules : Rules} {members : List Bytes} {bytes : Bytes}
    (hbytes : bytes ∈ unpaired (Container.arrange rules (pairs members))) : bytes ∈ members := by
  obtain ⟨entry, hentry, hmem⟩ := List.mem_flatMap.1 hbytes
  obtain ⟨hlabel, hvalue⟩ :=
    mem_of_mem_pairs ((Container.perm_arrange rules (pairs members)).mem_iff.1 hentry)
  obtain rfl | rfl : bytes = entry.label ∨ bytes = entry.value := by simpa using hmem
  · exact hlabel
  · exact hvalue

/-! ### Containers -/

/-- A container around nodes is a node. -/
theorem Container.isNode {rules : Rules} {kind : Container} {level : Nat} {members : List Bytes}
    (hlevel : level < maxNesting) (htakes : kind.Takes rules members)
    (hmembers : ∀ bytes ∈ members, IsNode (level + 1) bytes)
    (hlength : (kind.enclose rules members).length < 2 ^ 64) :
    IsNode level (kind.enclose rules members) := by
  cases kind with
  | array =>
    obtain ⟨nodes, hnodes, hcount, hencoded⟩ := exists_nodes hmembers
    have hitems : members.length ≤ maxItems := htakes.length_le maxItems rfl
    refine ⟨.mk [] (.counting false members.length) nodes,
      ⟨Node.fits_counting false hlevel hitems, Node.holds_counting hitems hcount, hnodes⟩, ?_⟩
    rw [Node.encoded_counting, hencoded]
    rfl
  | map =>
    have harranged : ∀ bytes ∈ unpaired (arrange rules (pairs members)), IsNode (level + 1) bytes :=
      fun bytes hbytes ↦ hmembers bytes (mem_of_mem_unpaired hbytes)
    obtain ⟨nodes, hnodes, hcount, hencoded⟩ := exists_nodes harranged
    rw [length_unpaired, (perm_arrange rules _).length_eq, length_pairs] at hcount
    have hmembers : members.length ≤ 2 * maxItems := htakes.length_le _ rfl
    have hitems : members.length / 2 ≤ maxItems := by omega
    refine ⟨.mk [] (.counting true (members.length / 2)) nodes,
      ⟨Node.fits_counting true hlevel hitems, Node.holds_counting hitems hcount, hnodes⟩, ?_⟩
    rw [Node.encoded_counting, hencoded, flatten_unpaired]
    rfl
  | indefiniteArray =>
    obtain ⟨nodes, hnodes, hcount, hencoded⟩ := exists_nodes hmembers
    refine ⟨.mk [] (.indefinite false) nodes, ⟨hlevel, by simp [Token.Holds], hnodes⟩, ?_⟩
    simp [Node.encoded, encodedTags, Token.encoded, Token.head, Token.content, Token.closing,
      hencoded, enclose, containerMajor]
  | indefiniteMap =>
    obtain ⟨nodes, hnodes, hcount, hencoded⟩ := exists_nodes hmembers
    have hwhole := htakes.pairs_whole rfl
    refine ⟨.mk [] (.indefinite true) nodes, ⟨hlevel, ?_, hnodes⟩, ?_⟩
    · simp [Token.Holds, hcount, hwhole]
    · simp [Node.encoded, encodedTags, Token.encoded, Token.head, Token.content, Token.closing,
        hencoded, enclose, containerMajor]
  | wrap =>
    rw [enclose, List.length_append] at hlength
    exact isNode_bytes level (by omega)

/-! ### Outlines -/

theorem IsNode.tag {level : Nat} {bytes : Bytes} (hnode : IsNode level bytes) (number : UInt64) :
    IsNode level (shortestHead .tag number ++ bytes) := by
  obtain ⟨⟨tags, token, members⟩, hregular, rfl⟩ := hnode
  refine ⟨.mk (.shortest number :: tags) token members, hregular, ?_⟩
  simp [Node.encoded, encodedTags, shortestHead]

theorem length_le_flatten {bytes : Bytes} {members : List Bytes} (hmem : bytes ∈ members) :
    bytes.length ≤ members.flatten.length := by
  obtain ⟨front, back, rfl⟩ := List.append_of_mem hmem
  simp only [List.flatten_append, List.flatten_cons, List.length_append]
  omega

mutual

/-- The bytes of an admissible outline are those of a node. -/
theorem Outline.isNode {rules : Rules} {depth : Nat} (outline : Outline)
    (hadmissible : outline.Admissible rules depth)
    (hlength : (outline.encoded rules).length < 2 ^ 64) :
    IsNode depth (outline.encoded rules) := by
  cases outline with
  | scalar value => exact Scalar.isNode depth hadmissible hlength
  | tag number content =>
    rw [Outline.encoded, List.length_append] at hlength
    exact (Outline.isNode content hadmissible (by omega)).tag number
  | container kind members =>
    obtain ⟨hdepth, _, htakes, hmembers⟩ := hadmissible
    have hinner := Container.length_le_enclose htakes
    rw [Outline.encoded] at hlength
    refine Container.isNode hdepth htakes ?_ hlength
    refine Outline.isNode_of_mem members hmembers fun bytes hmem ↦ ?_
    have hbytes := length_le_flatten hmem
    omega

theorem Outline.isNode_of_mem {rules : Rules} {depth : Nat} (outlines : List Outline)
    (hadmissible : Outline.AllAdmissible rules depth outlines)
    (hlength : ∀ bytes ∈ Outline.encodedEach rules outlines, bytes.length < 2 ^ 64) :
    ∀ bytes ∈ Outline.encodedEach rules outlines, IsNode depth bytes := by
  cases outlines with
  | nil => simp [Outline.encodedEach]
  | cons outline rest =>
    obtain ⟨houtline, hrest⟩ := hadmissible
    rw [Outline.encodedEach, List.forall_mem_cons] at hlength ⊢
    exact ⟨Outline.isNode outline houtline hlength.1,
      Outline.isNode_of_mem rest hrest hlength.2⟩

end

/-! ### Sorting the body of a map -/

/-- The body of a map with distinct labels is put in order. -/
theorem sortEntries_flatten {members : List Bytes} (hwhole : members.length % 2 = 0)
    (hmembers : ∀ bytes ∈ members, IsNode 0 bytes) (hdistinct : Entry.Distinct (pairs members)) :
    sortEntries members.flatten = (encodedEntries (Entry.sorted (pairs members)), none) := by
  rw [sortEntries, ← Container.encodedEntries_pairs hwhole,
    splitEntries_encodedEntries (ofNodes_pairs hmembers)]
  simp [settle_eq_sorted hdistinct]

/-- Equal labels in the body of a map are found. -/
theorem sortEntries_of_not_distinct {members : List Bytes} (hwhole : members.length % 2 = 0)
    (hmembers : ∀ bytes ∈ members, IsNode 0 bytes) (hequal : ¬Entry.Distinct (pairs members)) :
    ∃ reached, sortEntries members.flatten = (reached, some .duplicateLabel) := by
  obtain ⟨arranged, hsettle⟩ := settle_of_not_distinct hequal
  refine ⟨encodedEntries arranged, ?_⟩
  rw [sortEntries, ← Container.encodedEntries_pairs hwhole,
    splitEntries_encodedEntries (ofNodes_pairs hmembers)]
  simp [hsettle]

end Cose.Cbor
