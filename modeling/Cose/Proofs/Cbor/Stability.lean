import Mathlib.Tactic.Common
import Cose.Proofs.Cbor.Canonical

/-!
# Encoding is stable

Encoding may change a value: a floating point number becomes an integer or loses the payload of a
NaN, and the entries of a map change their order. What is read from the bytes is then another
value, but one that the encoder makes the same bytes of (`IsStable`), so nothing changes a second
time. This holds under all rules, those of numeric reduction among them, for the values whose items
carry no more tags than a decoder reads (`Value.FewTags`): `Encoder.finish_appendValue_stable`.
-/

set_option autoImplicit false
set_option relaxedAutoImplicit false

namespace Cose.Cbor

open Node

namespace Value

mutual

/-- Whether no item of a value carries more tags than a decoder reads, where a number of tags stands
before the value. -/
def FewTags : (before : Nat) → Value → Prop
  | before, tag _ content => before < maxTags ∧ content.FewTags (before + 1)
  | _, array members => AllFewTags members
  | _, map entries => EntriesFewTags entries
  | _, _ => True

/-- Whether the members of an array carry no more tags. -/
def AllFewTags : List Value → Prop
  | [] => True
  | member :: rest => member.FewTags 0 ∧ AllFewTags rest

/-- Whether the labels and values of a map carry no more tags. -/
def EntriesFewTags : List (Value × Value) → Prop
  | [] => True
  | (label, value) :: rest => label.FewTags 0 ∧ value.FewTags 0 ∧ EntriesFewTags rest

end

/-- Values in whole pairs are the labels and values of a map. -/
theorem exists_flattened {values : List Value} (hwhole : values.length % 2 = 0) :
    ∃ entries, values = flattened entries := by
  fun_induction entries? values with
  | case1 => exact ⟨[], rfl⟩
  | case2 value => simp at hwhole
  | case3 label value rest ih =>
    simp only [List.length_cons] at hwhole
    obtain ⟨entries, rfl⟩ := ih (by omega)
    exact ⟨(label, value) :: entries, rfl⟩

end Value

/-! ### Stable byte strings -/

/-- Whether bytes are those of a well-formed node at a level that stands for a value of which the
encoder makes the same bytes. -/
def IsStable (rules : Rules) (level tags : Nat) (bytes : Bytes) : Prop :=
  ∃ value : Value, value.SpelledBy level tags bytes ∧ value.WrittenAs rules level bytes

namespace IsStable

variable {rules : Rules} {level tags : Nat}

/-- A leaf without content is its head alone. -/
theorem head (atom : Leaf) {value : Value} (hvalue : atom.value.generic? = some value)
    (hcontent : atom.content = []) (htags : tags ≤ maxTags)
    (hwritten : value.WrittenAs rules level (atom.argument.head atom.major)) :
    IsStable rules level tags (atom.argument.head atom.major) :=
  ⟨value, Value.spelledBy_head hvalue hcontent level htags, hwritten⟩

theorem unsigned (htags : tags ≤ maxTags) (n : UInt64) :
    IsStable rules level tags (shortestHead .unsigned n) := by
  have hvalue : (Leaf.unsigned (.shortest n)).value.generic? = some (.unsigned n) := rfl
  exact head (.unsigned (.shortest n)) hvalue rfl htags ⟨trivial, rfl⟩

theorem negative (htags : tags ≤ maxTags) (n : UInt64) :
    IsStable rules level tags (shortestHead .negative n) := by
  have hvalue : (Leaf.negative (.shortest n)).value.generic? = some (.negative n) := rfl
  exact head (.negative (.shortest n)) hvalue rfl htags ⟨trivial, rfl⟩

/-- A number in some precision is stable if the encoder makes its bytes of the number it holds. -/
theorem reduced (htags : tags ≤ maxTags) {number : Float.Reduced}
    (hwritten : (Scalar.double number.toDouble).encoded rules = reducedBytes number) :
    IsStable rules level tags (reducedBytes number) := by
  have hvalue : (reducedLeaf number).value.generic? = some (.float number.toDouble) := by
    rw [value_reducedLeaf]
    rfl
  rw [reducedBytes_eq] at hwritten ⊢
  exact head _ hvalue (content_reducedLeaf number) htags ⟨trivial, hwritten⟩

/-- A number is written as an integer, as the canonical NaN or in a precision that holds it, and in
each case so is what is read from that. -/
theorem double (htags : tags ≤ maxTags) (number : Float.Double) :
    IsStable rules level tags ((Scalar.double number).encoded rules) := by
  have hencoded : (Scalar.double number).encoded rules =
      floatBytes rules number.wholeNumber? number.isNaN number.reduce (.double number) := rfl
  have hself := hencoded
  unfold floatBytes at hencoded
  split at hencoded
  next whole hwhole =>
    rw [hencoded]
    cases whole with
    | unsigned n => exact unsigned htags n
    | negative n => exact negative htags n
  next hfraction =>
    split_ifs at hencoded with hnan hreduce
    · rw [hencoded]
      refine reduced htags ?_
      obtain ⟨_, hcanonical⟩ := Bool.and_eq_true_iff.1 hnan
      have hwhole : Float.Half.quietNaN.toDouble.wholeNumber? = none := by decide
      have hisNaN : Float.Half.quietNaN.toDouble.isNaN = true := by decide
      simp only [Float.Reduced.toDouble, Scalar.encoded, floatBytes, hwhole, hisNaN, hcanonical,
        ite_self, Bool.and_self, if_true]
    · have hnumber : number.reduce.toDouble = number := Float.Double.toDouble_reduce number
      rw [hencoded]
      refine reduced htags ?_
      rw [hnumber, hencoded]
    · rw [hencoded]
      exact reduced htags hencoded

theorem tag {bytes : Bytes} (hbytes : IsStable rules level (tags + 1) bytes) (number : UInt64) :
    IsStable rules level tags (shortestHead .tag number ++ bytes) := by
  obtain ⟨value, hspelled, hadmissible, hencoded⟩ := hbytes
  exact ⟨.tag number value, Value.spelledBy_tag hspelled number, hadmissible,
    congrArg (shortestHead .tag number ++ ·) hencoded⟩

/-- Several stable byte strings are those of several values. -/
theorem exists_values {each : List Bytes} (heach : ∀ bytes ∈ each, IsStable rules level 0 bytes) :
    ∃ values : List Value,
      List.Forall₂ (fun value bytes ↦ value.SpelledBy level 0 bytes) values each ∧
      Outline.AllAdmissible rules level (Value.outlines values) ∧
      Outline.encodedEach rules (Value.outlines values) = each := by
  induction each with
  | nil => exact ⟨[], .nil, trivial, rfl⟩
  | cons bytes rest ih =>
    obtain ⟨⟨value, hspelled, hadmissible, hencoded⟩, hrest⟩ := List.forall_mem_cons.1 heach
    obtain ⟨values, hspelleds, hadmissibles, hencodeds⟩ := ih hrest
    refine ⟨value :: values, .cons hspelled hspelleds, ⟨hadmissible, hadmissibles⟩, ?_⟩
    rw [Value.outlines, Outline.encodedEach, hencoded, hencodeds]

/-- An array around stable byte strings. -/
theorem array (hlevel : level < maxNesting) (htags : tags ≤ maxTags) {each : List Bytes}
    (htakes : Container.array.Takes rules each)
    (heach : ∀ bytes ∈ each, IsStable rules (level + 1) 0 bytes) :
    IsStable rules level tags (Container.array.enclose rules each) := by
  obtain ⟨values, hspelled, hadmissible, hencoded⟩ := exists_values heach
  have hcount : each.length ≤ maxItems := htakes.length_le _ rfl
  refine ⟨.array values,
    Value.spelledBy_definite false hlevel htags hcount hspelled hspelled.length_eq rfl, ?_, ?_⟩
  · refine ⟨hlevel, fun hindefinite ↦ absurd hindefinite (by decide), ?_, hadmissible⟩
    rwa [hencoded]
  · rw [Value.outline, Outline.encoded, hencoded]

/-- Entries in order stay in order. -/
theorem arrange_arrange {entries : List Entry}
    (hdistinct : rules.sortMaps = true → Entry.Distinct entries) :
    Container.arrange rules (Container.arrange rules entries) =
      Container.arrange rules entries := by
  unfold Container.arrange
  split_ifs with hsort
  · exact (Entry.eq_sorted (.refl _) (Entry.pairwise_sorted (hdistinct hsort))).symm
  · rfl

/-- A map takes its entries in the order in which they are written. -/
theorem takes_arranged {each : List Bytes} (htakes : Container.map.Takes rules each) :
    Container.map.Takes rules (unpaired (Container.arrange rules (pairs each))) where
  length_le limit hlimit := by
    have hcount := htakes.length_le limit hlimit
    rw [length_unpaired, (Container.perm_arrange rules _).length_eq, length_pairs]
    omega
  pairs_whole _ := by rw [length_unpaired, Nat.mul_mod_right]
  labels_distinct hmap hsort := by
    rw [pairs_unpaired]
    exact ((Container.perm_arrange rules _).map Entry.label).nodup_iff.2
      (htakes.labels_distinct hmap hsort)

theorem enclose_arranged {each : List Bytes} (htakes : Container.map.Takes rules each) :
    Container.map.enclose rules (unpaired (Container.arrange rules (pairs each))) =
      Container.map.enclose rules each := by
  rw [Container.enclose, Container.enclose, pairs_unpaired,
    arrange_arrange (htakes.labels_distinct rfl), length_unpaired,
    (Container.perm_arrange rules _).length_eq, length_pairs, Nat.mul_div_cancel_left _ (by decide)]

/-- A map around stable byte strings. What is read from it has its entries in the order in which
they are written. -/
theorem map (hlevel : level < maxNesting) (htags : tags ≤ maxTags) {each : List Bytes}
    (htakes : Container.map.Takes rules each)
    (heach : ∀ bytes ∈ each, IsStable rules (level + 1) 0 bytes) :
    IsStable rules level tags (Container.map.enclose rules each) := by
  obtain ⟨values, hspelled, hadmissible, hencoded⟩ :=
    exists_values fun bytes hbytes ↦ heach bytes (mem_of_mem_unpaired hbytes)
  have hlimit : each.length ≤ 2 * maxItems := htakes.length_le _ rfl
  have hcount : each.length / 2 ≤ maxItems := by omega
  have hlength : values.length = 2 * (each.length / 2) := by
    rw [hspelled.length_eq, length_unpaired, (Container.perm_arrange rules _).length_eq,
      length_pairs]
  have hwhole : values.length % 2 = 0 := by omega
  obtain ⟨entries, rfl⟩ := Value.exists_flattened hwhole
  have hvalue : Value.container? true (Value.flattened entries) = some (.map entries) := by
    rw [Value.container?, if_pos rfl, Value.entries?_flattened]
    rfl
  have hbytes := Value.spelledBy_definite true hlevel htags hcount hspelled hlength hvalue
  rw [flatten_unpaired] at hbytes
  rw [← Value.entryOutlines_eq] at hadmissible hencoded
  refine ⟨.map entries, hbytes, ?_, ?_⟩
  · refine ⟨hlevel, fun hindefinite ↦ absurd hindefinite (by decide), ?_, hadmissible⟩
    rw [hencoded]
    exact takes_arranged htakes
  · rw [Value.outline, Outline.encoded, hencoded, enclose_arranged htakes]

end IsStable

/-! ### What is written is stable -/

namespace Value

mutual

/-- What the encoder makes of a value is stable. -/
theorem isStable_outline {rules : Rules} (value : Value) {depth before : Nat}
    (hadmissible : value.outline.Admissible rules depth) (htags : value.FewTags before)
    (hbefore : before ≤ maxTags) (hlength : (value.outline.encoded rules).length < 2 ^ 64) :
    IsStable rules depth before (value.outline.encoded rules) := by
  cases value with
  | unsigned n => exact .unsigned hbefore n
  | negative n => exact .negative hbefore n
  | bytes content =>
    change (shortestHead _ _ ++ content).length < 2 ^ 64 at hlength
    rw [List.length_append] at hlength
    have hcontent : content.length < 2 ^ 64 := by omega
    have hvalue : (Leaf.ofBytes content hcontent).value.generic? = some (.bytes content) := rfl
    exact ⟨_, spelledBy_leaf hvalue depth hbefore, trivial, rfl⟩
  | text content =>
    change (shortestHead _ _ ++ content.toUTF8.toList).length < 2 ^ 64 at hlength
    rw [List.length_append, length_toUTF8] at hlength
    have hcontent : content.utf8ByteSize < 2 ^ 64 := by omega
    have hvalue : (Leaf.ofText content hcontent).value.generic? = some (.text content) := rfl
    exact ⟨_, spelledBy_leaf hvalue depth hbefore, trivial, rfl⟩
  | float number => exact .double hbefore number
  | bool truth =>
    have hvalue : (Leaf.bool truth).value.generic? = some (.bool truth) := rfl
    exact .head (.bool truth) hvalue rfl hbefore ⟨hadmissible, rfl⟩
  | null =>
    have hvalue : Leaf.null.value.generic? = some .null := rfl
    exact .head .null hvalue rfl hbefore ⟨hadmissible, rfl⟩
  | tag number content =>
    obtain ⟨hroom, hcontent⟩ := htags
    change (shortestHead _ _ ++ content.outline.encoded rules).length < 2 ^ 64 at hlength
    rw [List.length_append] at hlength
    exact (isStable_outline content hadmissible hcontent hroom (by omega)).tag number
  | array members =>
    obtain ⟨hdepth, _, htakes, hmembers⟩ := hadmissible
    have hinner := Container.length_le_enclose htakes
    change (Container.array.enclose rules _).length < 2 ^ 64 at hlength
    exact .array hdepth hbefore htakes (areStable_outlines members hmembers htags (by omega))
  | map entries =>
    obtain ⟨hdepth, _, htakes, hmembers⟩ := hadmissible
    have hinner := Container.length_le_enclose htakes
    change (Container.map.enclose rules _).length < 2 ^ 64 at hlength
    exact .map hdepth hbefore htakes (areStable_entryOutlines entries hmembers htags (by omega))

theorem areStable_outlines {rules : Rules} (members : List Value) {depth : Nat}
    (hadmissible : Outline.AllAdmissible rules depth (outlines members))
    (htags : AllFewTags members)
    (hlength : (Outline.encodedEach rules (outlines members)).flatten.length < 2 ^ 64) :
    ∀ bytes ∈ Outline.encodedEach rules (outlines members), IsStable rules depth 0 bytes := by
  cases members with
  | nil => exact fun bytes hbytes ↦ by cases hbytes
  | cons member rest =>
    obtain ⟨hmember, hrest⟩ := hadmissible
    rw [outlines, Outline.encodedEach, List.flatten_cons, List.length_append] at hlength
    exact List.forall_mem_cons.2
      ⟨isStable_outline member hmember htags.1 (Nat.zero_le _) (by omega),
        areStable_outlines rest hrest htags.2 (by omega)⟩

theorem areStable_entryOutlines {rules : Rules} (entries : List (Value × Value)) {depth : Nat}
    (hadmissible : Outline.AllAdmissible rules depth (entryOutlines entries))
    (htags : EntriesFewTags entries)
    (hlength : (Outline.encodedEach rules (entryOutlines entries)).flatten.length < 2 ^ 64) :
    ∀ bytes ∈ Outline.encodedEach rules (entryOutlines entries), IsStable rules depth 0 bytes := by
  match entries with
  | [] => exact fun bytes hbytes ↦ by cases hbytes
  | (label, value) :: rest =>
    obtain ⟨hlabel, hvalue, hrest⟩ := hadmissible
    rw [entryOutlines, Outline.encodedEach, Outline.encodedEach, List.flatten_cons,
      List.flatten_cons, List.length_append, List.length_append] at hlength
    exact List.forall_mem_cons.2
      ⟨isStable_outline label hlabel htags.1 (Nat.zero_le _) (by omega),
        List.forall_mem_cons.2
          ⟨isStable_outline value hvalue htags.2.1 (Nat.zero_le _) (by omega),
            areStable_entryOutlines rest hrest htags.2.2 (by omega)⟩⟩

end

end Value

/-! ### Encoding a second time -/

namespace Encoder

/-- Whatever is encoded of a value with not too many tags is read to its end as a value, maybe
another one, of which the encoder makes the same bytes. -/
theorem finish_appendValue_stable {rules : Rules} {value : Value} (htags : value.FewTags 0)
    {bytes : Bytes} (hencoded : ((growable rules).appendValue value).finish = .ok bytes) :
    ∃ again after, (Reading.nextValue : Reading DecodeError Value).run (.ofBytes bytes) =
        .ok again after ∧
      (∃ last, Decoder.finish after = .ok () last) ∧
      ((growable rules).appendValue again).finish = .ok bytes := by
  obtain ⟨⟨hadmissible, rfl⟩, hlength⟩ := finish_appendValue_eq_ok.1 hencoded
  have hshort : (value.outline.encoded rules).length < 2 ^ 64 :=
    Nat.lt_of_le_of_lt hlength (by decide)
  obtain ⟨again, hspelled, hwritten⟩ :=
    Value.isStable_outline value hadmissible htags (Nat.zero_le _) hshort
  obtain ⟨after, hread, hfinish⟩ := Reading.nextValue_of_spelled hspelled
  exact ⟨again, after, hread, hfinish, finish_appendValue_eq_ok.2 ⟨hwritten, hlength⟩⟩

/-- Under the rules of numeric reduction, a map with a label that is written as an integer and
changes its place, and with a NaN that loses its payload. -/
theorem finish_appendValue_stable_reduced :
    ∃ again after, (Reading.nextValue : Reading DecodeError Value).run
        (.ofBytes [0xa2, 0x01, 0xf9, 0x3e, 0x00, 0x02, 0xf9, 0x7e, 0x00]) = .ok again after ∧
      (∃ last, Decoder.finish after = .ok () last) ∧
      ((growable .dcbor).appendValue again).finish =
        .ok [0xa2, 0x01, 0xf9, 0x3e, 0x00, 0x02, 0xf9, 0x7e, 0x00] := by
  let value : Value := .map [(.float ⟨0x4000000000000000⟩, .float ⟨0xfff8000000000001⟩),
    (.unsigned 1, .float ⟨0x3ff8000000000000⟩)]
  have htakes : Container.map.Takes .dcbor [[0x02], [0xf9, 0x7e, 0x00], [0x01],
      [0xf9, 0x3e, 0x00]] := by
    refine ⟨?_, fun _ ↦ rfl, fun _ _ ↦ ?_⟩
    · rintro _ ⟨⟩
      decide
    · change [[0x02], [0x01]].Nodup
      decide
  have hwritten : value.WrittenAs .dcbor 0
      [0xa2, 0x01, 0xf9, 0x3e, 0x00, 0x02, 0xf9, 0x7e, 0x00] :=
    ⟨⟨by decide, fun hindefinite ↦ absurd hindefinite (by decide), htakes, trivial, trivial,
      trivial, trivial, trivial⟩, by decide⟩
  have htags : value.FewTags 0 := ⟨trivial, trivial, trivial, trivial, trivial⟩
  exact finish_appendValue_stable htags (finish_appendValue_eq_ok.2 ⟨hwritten, by decide⟩)

end Encoder

end Cose.Cbor
