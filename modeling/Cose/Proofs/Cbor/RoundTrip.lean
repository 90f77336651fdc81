import Mathlib.Tactic.Common
import Cose.Proofs.Cbor.Decoder.Values
import Cose.Proofs.Cbor.Encoder.Refinement

/-!
# Generic values survive encoding

A generic value is written as its outline (`Value.outline`), and where the rules keep numbers and
the order of maps as they are, the bytes of the outline are those of a well-formed node that stands
for the value (`Value.spelledBy_outline`). So what the encoder makes of a value is read back as
that value: `Reading.nextValue_of_appendValue`.
-/

set_option autoImplicit false
set_option relaxedAutoImplicit false

namespace Cose.Cbor

open Node

/-! ### Outlines of values -/

namespace Value

mutual

/-- The outline by which a value is written. -/
def outline : Value → Outline
  | unsigned n => .scalar (.unsigned n)
  | negative n => .scalar (.negative n)
  | bytes content => .scalar (.bytes content)
  | text content => .scalar (.text content)
  | float number => .scalar (.double number)
  | bool truth => .scalar (.simple (if truth then simpleTrue else simpleFalse))
  | null => .scalar (.simple simpleNull)
  | tag number content => .tag number content.outline
  | array members => .container .array (outlines members)
  | map entries => .container .map (entryOutlines entries)

/-- The outlines of the members of an array. -/
def outlines : List Value → List Outline
  | [] => []
  | member :: rest => member.outline :: outlines rest

/-- The outlines of the labels and values of a map in turn. -/
def entryOutlines : List (Value × Value) → List Outline
  | [] => []
  | (label, value) :: rest => label.outline :: value.outline :: entryOutlines rest

end

mutual

/-- Whether a value keeps the limits of the library where a number of arrays and maps is open
around it and a number of tags stands before it. -/
def Bounded : (depth tags : Nat) → Value → Prop
  | depth, tags, tag _ content => tags < maxTags ∧ content.Bounded depth (tags + 1)
  | depth, _, array members =>
    depth < maxNesting ∧ members.length ≤ maxItems ∧ AllBounded (depth + 1) members
  | depth, _, map entries =>
    depth < maxNesting ∧ entries.length ≤ maxItems ∧ EntriesBounded (depth + 1) entries
  | _, _, _ => True

/-- Whether all members of an array keep the limits. -/
def AllBounded : (depth : Nat) → List Value → Prop
  | _, [] => True
  | depth, member :: rest => member.Bounded depth 0 ∧ AllBounded depth rest

/-- Whether all labels and values of a map keep the limits. -/
def EntriesBounded : (depth : Nat) → List (Value × Value) → Prop
  | _, [] => True
  | depth, (label, value) :: rest =>
    label.Bounded depth 0 ∧ value.Bounded depth 0 ∧ EntriesBounded depth rest

end

theorem length_outlines (members : List Value) : (outlines members).length = members.length := by
  induction members with
  | nil => rfl
  | cons member rest ih => rw [outlines, List.length_cons, ih, List.length_cons]

theorem length_entryOutlines (entries : List (Value × Value)) :
    (entryOutlines entries).length = 2 * entries.length := by
  induction entries with
  | nil => rfl
  | cons entry rest ih =>
    rw [entryOutlines, List.length_cons, List.length_cons, ih, List.length_cons, Nat.mul_succ]

end Value

/-! ### Appending is performing -/

namespace Encoder

mutual

/-- A value is appended by the operations of its outline. -/
theorem appendValue_eq_perform (encoder : Encoder) (value : Value) :
    encoder.appendValue value = encoder.perform value.outline.operations := by
  cases value with
  | tag number content => exact appendValue_eq_perform (encoder.addTag number) content
  | array members =>
    change ((encoder.openArray.appendMembers members).closeArray) =
      (encoder.perform [.opening .array]).perform
        (Outline.operationsAll (Value.outlines members) ++ [.closing .array])
    rw [perform_append, appendMembers_eq_perform]
    rfl
  | map entries =>
    change ((encoder.openMap.appendEntries entries).closeMap) =
      (encoder.perform [.opening .map]).perform
        (Outline.operationsAll (Value.entryOutlines entries) ++ [.closing .map])
    rw [perform_append, appendEntries_eq_perform]
    rfl
  | _ => rfl

theorem appendMembers_eq_perform (encoder : Encoder) (members : List Value) :
    encoder.appendMembers members =
      encoder.perform (Outline.operationsAll (Value.outlines members)) := by
  cases members with
  | nil => rfl
  | cons member rest =>
    rw [appendMembers, Value.outlines, Outline.operationsAll, perform_append,
      appendValue_eq_perform encoder member, appendMembers_eq_perform _ rest]

theorem appendEntries_eq_perform (encoder : Encoder) (entries : List (Value × Value)) :
    encoder.appendEntries entries =
      encoder.perform (Outline.operationsAll (Value.entryOutlines entries)) := by
  match entries with
  | [] => rfl
  | (label, value) :: rest =>
    rw [appendEntries, Value.entryOutlines, Outline.operationsAll, Outline.operationsAll,
      perform_append, perform_append, appendValue_eq_perform encoder label,
      appendValue_eq_perform _ value, appendEntries_eq_perform _ rest]

end

end Encoder

/-! ### Values and nodes -/

/-- The rules that write every number as it is and keep the order of maps. -/
structure Rules.Lossless (rules : Rules) : Prop extends rules.KeepsNumbers where
  sortMaps_eq : rules.sortMaps = false

theorem Rules.lossless_of_mem {rules : Rules}
    (hrules : rules = .preferred ∨ rules = .noPreferred) : rules.Lossless := by
  obtain rfl | rfl := hrules <;> exact ⟨⟨rfl, rfl⟩, rfl⟩

namespace Value

/-- Whether bytes are those of a well-formed node at a level that stands for a value and leaves
room for a number of tags before it. -/
def SpelledBy (value : Value) (level tags : Nat) (bytes : Bytes) : Prop :=
  ∃ (own : List Argument) (token : Token) (members : List Node), tags + own.length ≤ maxTags ∧
    (Node.mk own token members).WellFormed level ∧ (Node.mk own token members).encoded = bytes ∧
      (Node.mk own token members).value? = some value

theorem spelledBy_leaf {atom : Leaf} {value : Value} (hvalue : atom.value.generic? = some value)
    (level : Nat) {tags : Nat} (htags : tags ≤ maxTags) :
    value.SpelledBy level tags (atom.argument.head atom.major ++ atom.content) := by
  refine ⟨[], .leaf atom, [], htags, wellFormed_leaf level atom, encoded_leaf atom, ?_⟩
  change atom.value.generic?.map _ = _
  rw [hvalue]
  rfl

/-- A leaf without content is its head alone. -/
theorem spelledBy_head {atom : Leaf} {value : Value} (hvalue : atom.value.generic? = some value)
    (hcontent : atom.content = []) (level : Nat) {tags : Nat} (htags : tags ≤ maxTags) :
    value.SpelledBy level tags (atom.argument.head atom.major) := by
  have hspelled := spelledBy_leaf hvalue level htags
  rwa [hcontent, List.append_nil] at hspelled

theorem spelledBy_tag {value : Value} {level tags : Nat} {bytes : Bytes}
    (hspelled : value.SpelledBy level (tags + 1) bytes) (number : UInt64) :
    (Value.tag number value).SpelledBy level tags (shortestHead .tag number ++ bytes) := by
  obtain ⟨own, token, members, htags, ⟨hown, hnode⟩, rfl, hvalue⟩ := hspelled
  have hlength : tags + (Argument.shortest number :: own).length ≤ maxTags := by
    rw [List.length_cons]
    omega
  refine ⟨.shortest number :: own, token, members, hlength, ⟨by omega, hnode⟩, ?_, ?_⟩
  · simp [encoded, encodedTags, shortestHead]
  · obtain ⟨content, hcontent, rfl⟩ := Option.map_eq_some_iff.1 hvalue
    exact Option.map_eq_some_iff.2 ⟨content, hcontent, rfl⟩

/-- Bytes of values, one after the other, are the bytes of nodes that stand for the values. -/
theorem exists_nodes_of_spelled {level : Nat} {values : List Value} {each : List Bytes}
    (hspelled : List.Forall₂ (fun value bytes ↦ value.SpelledBy level 0 bytes) values each) :
    ∃ nodes, AllWellFormed level nodes ∧ nodes.length = values.length ∧
      encodedAll nodes = each.flatten ∧ values? nodes = some values := by
  induction hspelled with
  | nil => exact ⟨[], trivial, rfl, rfl, rfl⟩
  | cons hvalue _ ih =>
    obtain ⟨own, token, members, _, hnode, rfl, hvalue⟩ := hvalue
    obtain ⟨nodes, hnodes, hlength, hencoded, hvalues⟩ := ih
    refine ⟨.mk own token members :: nodes, ⟨hnode, hnodes⟩, by simp [hlength], ?_, ?_⟩
    · rw [encodedAll, hencoded, List.flatten_cons]
    · rw [values?, hvalue, hvalues]
      rfl

/-- A container of definite length around values. -/
theorem spelledBy_definite (isMap : Bool) {level tags count : Nat} (hlevel : level < maxNesting)
    (htags : tags ≤ maxTags) (hcount : count ≤ maxItems) {values : List Value}
    {each : List Bytes}
    (hspelled : List.Forall₂ (fun value bytes ↦ value.SpelledBy (level + 1) 0 bytes) values each)
    (hlength : values.length = if isMap then 2 * count else count) {value : Value}
    (hvalue : container? isMap values = some value) :
    value.SpelledBy level tags
      (shortestHead (containerMajor isMap) (UInt64.ofNat count) ++ each.flatten) := by
  obtain ⟨nodes, hnodes, hmembers, hencoded, hvalues⟩ := exists_nodes_of_spelled hspelled
  refine ⟨[], .counting isMap count, nodes, htags, wellFormed_counting (Nat.zero_le _) hlevel hcount
    (hmembers.trans hlength) hnodes, ?_, ?_⟩
  · rw [encoded_counting, hencoded]
    rfl
  · change ((values? nodes).bind (container? isMap)).map _ = _
    rw [hvalues, Option.bind_some, hvalue]
    rfl

/-- The labels and values of a map in turn. -/
def flattened (entries : List (Value × Value)) : List Value :=
  entries.flatMap fun entry ↦ [entry.1, entry.2]

theorem entries?_flattened (entries : List (Value × Value)) :
    entries? (flattened entries) = some entries := by
  induction entries with
  | nil => rfl
  | cons entry rest ih =>
    change (entries? (flattened rest)).map _ = _
    rw [ih]
    rfl

theorem length_flattened (entries : List (Value × Value)) :
    (flattened entries).length = 2 * entries.length := by
  induction entries with
  | nil => rfl
  | cons entry rest ih =>
    change (flattened rest).length + 2 = _
    rw [ih, List.length_cons, Nat.mul_succ]

mutual

/-- The outline of a bounded value is spelled like the value. -/
theorem spelledBy_outline {rules : Rules} (hrules : rules.Lossless) (value : Value)
    {level tags : Nat} (hbounded : value.Bounded level tags) (htags : tags ≤ maxTags)
    (hlength : (value.outline.encoded rules).length < 2 ^ 64) :
    value.SpelledBy level tags (value.outline.encoded rules) := by
  cases value with
  | unsigned n =>
    have hvalue : (Leaf.unsigned (.shortest n)).value.generic? = some (.unsigned n) := rfl
    exact spelledBy_head hvalue rfl level htags
  | negative n =>
    have hvalue : (Leaf.negative (.shortest n)).value.generic? = some (.negative n) := rfl
    exact spelledBy_head hvalue rfl level htags
  | bytes content =>
    change (shortestHead _ _ ++ content).length < 2 ^ 64 at hlength
    rw [List.length_append] at hlength
    have hcontent : content.length < 2 ^ 64 := by omega
    have hvalue : (Leaf.ofBytes content hcontent).value.generic? = some (.bytes content) := rfl
    exact spelledBy_leaf hvalue level htags
  | text content =>
    change (shortestHead _ _ ++ content.toUTF8.toList).length < 2 ^ 64 at hlength
    rw [List.length_append, length_toUTF8] at hlength
    have hcontent : content.utf8ByteSize < 2 ^ 64 := by omega
    have hvalue : (Leaf.ofText content hcontent).value.generic? = some (.text content) := rfl
    exact spelledBy_leaf hvalue level htags
  | float number =>
    obtain ⟨atom, hbytes, hcontent, hatom⟩ :=
      exists_leaf_of_double hrules.toKeepsNumbers number
    have hvalue : atom.value.generic? = some (.float number) := by
      rw [hatom]
      rfl
    have hspelled := spelledBy_head hvalue hcontent level htags
    rwa [hbytes] at hspelled
  | bool truth =>
    have hvalue : (Leaf.bool truth).value.generic? = some (.bool truth) := rfl
    exact spelledBy_head hvalue rfl level htags
  | null =>
    have hvalue : Leaf.null.value.generic? = some .null := rfl
    exact spelledBy_head hvalue rfl level htags
  | tag number content =>
    obtain ⟨hroom, hcontent⟩ := hbounded
    change (shortestHead _ _ ++ content.outline.encoded rules).length < 2 ^ 64 at hlength
    rw [List.length_append] at hlength
    exact spelledBy_tag (spelledBy_outline hrules content hcontent hroom (by omega)) number
  | array members =>
    obtain ⟨hlevel, hcount, hmembers⟩ := hbounded
    have hbytes : (array members).outline.encoded rules =
        shortestHead .array (UInt64.ofNat members.length) ++
          (Outline.encodedEach rules (outlines members)).flatten := by
      rw [outline, Outline.encoded, Container.enclose, Outline.encodedEach_eq_map, List.length_map,
        length_outlines]
    rw [hbytes, List.length_append] at hlength
    rw [hbytes]
    have hspelled := spelled_outlines hrules members hmembers (by omega)
    exact spelledBy_definite false hlevel htags hcount hspelled rfl rfl
  | map entries =>
    obtain ⟨hlevel, hcount, hentries⟩ := hbounded
    have hwhole : (Outline.encodedEach rules (entryOutlines entries)).length =
        2 * entries.length := by
      rw [Outline.encodedEach_eq_map, List.length_map, length_entryOutlines]
    have hbytes : (map entries).outline.encoded rules =
        shortestHead .map (UInt64.ofNat entries.length) ++
          (Outline.encodedEach rules (entryOutlines entries)).flatten := by
      rw [outline, Outline.encoded, Container.enclose, Container.arrange, hrules.sortMaps_eq,
        if_neg Bool.false_ne_true, Container.encodedEntries_pairs (by omega), hwhole,
        Nat.mul_div_cancel_left _ (by decide)]
    rw [hbytes, List.length_append] at hlength
    rw [hbytes]
    have hspelled := spelled_entryOutlines hrules entries hentries (by omega)
    have hvalue : container? true (flattened entries) = some (map entries) := by
      rw [container?, if_pos rfl, entries?_flattened]
      rfl
    exact spelledBy_definite true hlevel htags hcount hspelled
      (length_flattened entries) hvalue

theorem spelled_outlines {rules : Rules} (hrules : rules.Lossless) (members : List Value)
    {level : Nat} (hbounded : AllBounded level members)
    (hlength : (Outline.encodedEach rules (outlines members)).flatten.length < 2 ^ 64) :
    List.Forall₂ (fun value bytes ↦ value.SpelledBy level 0 bytes) members
      (Outline.encodedEach rules (outlines members)) := by
  cases members with
  | nil => exact .nil
  | cons member rest =>
    obtain ⟨hmember, hrest⟩ := hbounded
    rw [outlines, Outline.encodedEach, List.flatten_cons, List.length_append] at hlength
    exact .cons (spelledBy_outline hrules member hmember (Nat.zero_le _) (by omega))
      (spelled_outlines hrules rest hrest (by omega))

theorem spelled_entryOutlines {rules : Rules} (hrules : rules.Lossless)
    (entries : List (Value × Value)) {level : Nat} (hbounded : EntriesBounded level entries)
    (hlength : (Outline.encodedEach rules (entryOutlines entries)).flatten.length < 2 ^ 64) :
    List.Forall₂ (fun value bytes ↦ value.SpelledBy level 0 bytes) (flattened entries)
      (Outline.encodedEach rules (entryOutlines entries)) := by
  match entries with
  | [] => exact .nil
  | (label, value) :: rest =>
    obtain ⟨hlabel, hvalue, hrest⟩ := hbounded
    rw [entryOutlines, Outline.encodedEach, Outline.encodedEach, List.flatten_cons,
      List.flatten_cons, List.length_append, List.length_append] at hlength
    exact .cons (spelledBy_outline hrules label hlabel (Nat.zero_le _) (by omega))
      (.cons (spelledBy_outline hrules value hvalue (Nat.zero_le _) (by omega))
        (spelled_entryOutlines hrules rest hrest (by omega)))

end

/-! ### Admissibility -/

mutual

/-- The outline of a bounded value keeps the limits of a session, and no rule forbids it. -/
theorem admissible_outline {rules : Rules} (hrules : rules.Lossless) (value : Value)
    {depth tags : Nat} (hbounded : value.Bounded depth tags) :
    value.outline.Admissible rules depth := by
  have hlabels {kind : Container} {each : List Bytes} : kind = .map → rules.sortMaps = true →
      Entry.Distinct (pairs each) := fun _ hsort ↦
    absurd (hsort.symm.trans hrules.sortMaps_eq) (by decide)
  cases value with
  | bool truth => cases truth <;> exact ⟨by decide, fun _ ↦ by decide⟩
  | null => exact ⟨by decide, fun _ ↦ by decide⟩
  | tag number content => exact admissible_outline hrules content hbounded.2
  | array members =>
    obtain ⟨hlevel, hcount, hmembers⟩ := hbounded
    refine ⟨hlevel, fun hindefinite ↦ absurd hindefinite (by decide), ⟨?_, ?_, hlabels⟩,
      admissible_outlines hrules members hmembers⟩
    · rintro _ ⟨⟩
      rwa [Outline.encodedEach_eq_map, List.length_map, length_outlines]
    · exact fun hmap ↦ absurd hmap (by decide)
  | map entries =>
    obtain ⟨hlevel, hcount, hentries⟩ := hbounded
    refine ⟨hlevel, fun hindefinite ↦ absurd hindefinite (by decide), ⟨?_, ?_, hlabels⟩,
      admissible_entryOutlines hrules entries hentries⟩
    · rintro _ ⟨⟩
      rw [Outline.encodedEach_eq_map, List.length_map, length_entryOutlines]
      omega
    · intro _
      rw [Outline.encodedEach_eq_map, List.length_map, length_entryOutlines, Nat.mul_mod_right]
  | _ => trivial

theorem admissible_outlines {rules : Rules} (hrules : rules.Lossless) (members : List Value)
    {depth : Nat} (hbounded : AllBounded depth members) :
    Outline.AllAdmissible rules depth (outlines members) := by
  cases members with
  | nil => trivial
  | cons member rest =>
    obtain ⟨hmember, hrest⟩ := hbounded
    exact ⟨admissible_outline hrules member hmember, admissible_outlines hrules rest hrest⟩

theorem admissible_entryOutlines {rules : Rules} (hrules : rules.Lossless)
    (entries : List (Value × Value)) {depth : Nat} (hbounded : EntriesBounded depth entries) :
    Outline.AllAdmissible rules depth (entryOutlines entries) := by
  match entries with
  | [] => trivial
  | (label, value) :: rest =>
    obtain ⟨hlabel, hvalue, hrest⟩ := hbounded
    exact ⟨admissible_outline hrules label hlabel, admissible_outline hrules value hvalue,
      admissible_entryOutlines hrules rest hrest⟩

end

end Value

namespace Reading

open Decoder

/-- A value is read from any bytes that spell it. -/
theorem nextValue_of_spelled {value : Value} {bytes : Bytes}
    (hspelled : value.SpelledBy 0 0 bytes) :
    ∃ after, (nextValue : Reading DecodeError Value).run (ofBytes bytes) = .ok value after ∧
      ∃ last, Decoder.finish after = .ok () last := by
  obtain ⟨own, token, members, _, hnode, rfl, hvalue⟩ := hspelled
  exact nextValue_of_node hnode hvalue

/-- A generic value that keeps the limits of the library is written without failure under
preferred rules and under rules without preference, and what is written is read back as the same
value, every bit of its numbers included, with nothing left behind it. -/
theorem nextValue_of_appendValue {rules : Rules}
    (hrules : rules = .preferred ∨ rules = .noPreferred) (value : Value)
    (hbounded : value.Bounded 0 0)
    (hlength : (value.outline.encoded rules).length ≤ maxEncodedLength) :
    ∃ bytes, ((Encoder.growable rules).appendValue value).finish = .ok bytes ∧
      ∃ after, (nextValue : Reading DecodeError Value).run (ofBytes bytes) = .ok value after ∧
        ∃ last, Decoder.finish after = .ok () last := by
  have hlossless := Rules.lossless_of_mem hrules
  refine ⟨value.outline.encoded rules, ?_, ?_⟩
  · rw [Encoder.appendValue_eq_perform]
    exact Encoder.finish_perform_outline (Value.admissible_outline hlossless value hbounded) hlength
  · have hshort : (value.outline.encoded rules).length < 2 ^ 64 :=
      Nat.lt_of_le_of_lt hlength (by decide)
    obtain ⟨own, token, members, _, hnode, hencoded, hvalue⟩ :=
      Value.spelledBy_outline hlossless value hbounded (Nat.zero_le _) hshort
    rw [← hencoded]
    exact nextValue_of_node hnode hvalue

/-- A negative zero behind a tag and a map with one entry, in an array. -/
theorem nextValue_of_appendValue_nested :
    ∃ bytes, ((Encoder.growable .preferred).appendValue
        (.array [.tag 1 (.float ⟨0x8000000000000000⟩),
          .map [(.negative 0, .bytes [255])]])).finish = .ok bytes ∧
      ∃ after, (nextValue : Reading DecodeError Value).run (ofBytes bytes) =
          .ok (.array [.tag 1 (.float ⟨0x8000000000000000⟩), .map [(.negative 0, .bytes [255])]])
            after ∧
        ∃ last, Decoder.finish after = .ok () last := by
  refine nextValue_of_appendValue (.inl rfl) _ ?_ ?_
  · exact ⟨by decide, by decide, ⟨by decide, trivial⟩,
      ⟨by decide, by decide, trivial, trivial, trivial⟩, trivial⟩
  · decide

end Reading

end Cose.Cbor
