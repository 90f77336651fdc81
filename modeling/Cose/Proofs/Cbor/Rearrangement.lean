import Mathlib.Tactic.Common
import Cose.Proofs.Cbor.Canonical

/-!
# Values that differ in the order of map entries

Two values are rearrangements of each other if they differ only in the order of the entries of their
maps, at any depth: inside labels, values, arrays and tags too (`Value.Rearranged`). Where the rules
put maps in order, the outlines of such values are alike (`Outline.Alike`): one is admissible if and
only if the other is, and they have the same bytes then. The maps inside a map are in order before
its labels are compared, so this is an induction over the places where entries changed their order.
The main statement is `Encoder.finish_appendValue_of_rearranged`.
-/

set_option autoImplicit false
set_option relaxedAutoImplicit false

namespace Cose.Cbor

/-! ### Rearranged values -/

/-- Whether two values differ only in the order of the entries of maps, at any depth. -/
inductive Value.Rearranged : Value → Value → Prop where
  | refl (value : Value) : Rearranged value value
  | trans {first second third : Value} (hfirst : Rearranged first second)
      (hsecond : Rearranged second third) : Rearranged first third
  | entries {entries others : List (Value × Value)} (hperm : entries.Perm others) :
      Rearranged (.map entries) (.map others)
  | tag (number : UInt64) {content other : Value} (hcontent : Rearranged content other) :
      Rearranged (.tag number content) (.tag number other)
  | member (front back : List Value) {member other : Value} (hmember : Rearranged member other) :
      Rearranged (.array (front ++ member :: back)) (.array (front ++ other :: back))
  | label (front back : List (Value × Value)) {label other : Value} (value : Value)
      (hlabel : Rearranged label other) :
      Rearranged (.map (front ++ (label, value) :: back)) (.map (front ++ (other, value) :: back))
  | value (front back : List (Value × Value)) (label : Value) {value other : Value}
      (hvalue : Rearranged value other) :
      Rearranged (.map (front ++ (label, value) :: back)) (.map (front ++ (label, other) :: back))

/-! ### Outlines that are written alike -/

namespace Outline

/-- Whether two outlines are admissible at the same depths, and have the same bytes if they are. -/
structure Alike (rules : Rules) (left right : Outline) : Prop where
  admissible_iff : ∀ depth, left.Admissible rules depth ↔ right.Admissible rules depth
  encoded_eq : ∀ depth, left.Admissible rules depth → left.encoded rules = right.encoded rules

namespace Alike

variable {rules : Rules} {left right : Outline}

theorem refl (rules : Rules) (outline : Outline) : Alike rules outline outline :=
  ⟨fun _ ↦ Iff.rfl, fun _ _ ↦ rfl⟩

theorem symm (halike : Alike rules left right) : Alike rules right left where
  admissible_iff depth := (halike.admissible_iff depth).symm
  encoded_eq depth hright :=
    (halike.encoded_eq depth ((halike.admissible_iff depth).2 hright)).symm

theorem trans {middle : Outline} (hleft : Alike rules left middle)
    (hright : Alike rules middle right) : Alike rules left right where
  admissible_iff depth := (hleft.admissible_iff depth).trans (hright.admissible_iff depth)
  encoded_eq depth hadmissible :=
    (hleft.encoded_eq depth hadmissible).trans
      (hright.encoded_eq depth ((hleft.admissible_iff depth).1 hadmissible))

theorem tag (halike : Alike rules left right) (number : UInt64) :
    Alike rules (.tag number left) (.tag number right) where
  admissible_iff := halike.admissible_iff
  encoded_eq depth hadmissible :=
    congrArg (shortestHead .tag number ++ ·) (halike.encoded_eq depth hadmissible)

/-- A container keeps its bytes when a member is replaced by one that is written alike. -/
theorem admissible_of_member (halike : Alike rules left right) {kind : Container}
    {front back : List Outline} {depth : Nat}
    (hadmissible : (container kind (front ++ left :: back)).Admissible rules depth) :
    (container kind (front ++ right :: back)).Admissible rules depth ∧
      encodedEach rules (front ++ left :: back) = encodedEach rules (front ++ right :: back) := by
  obtain ⟨hdepth, hallowed, htakes, hmembers⟩ := hadmissible
  obtain ⟨hfront, hleft, hback⟩ := allAdmissible_append.1 hmembers
  have heach : encodedEach rules (front ++ left :: back) =
      encodedEach rules (front ++ right :: back) := by
    simp only [encodedEach_eq_map, List.map_append, List.map_cons, halike.encoded_eq _ hleft]
  have hright := (halike.admissible_iff (depth + 1)).1 hleft
  refine ⟨⟨hdepth, hallowed, ?_, allAdmissible_append.2 ⟨hfront, hright, hback⟩⟩, heach⟩
  rwa [← heach]

theorem member (halike : Alike rules left right) (kind : Container) (front back : List Outline) :
    Alike rules (.container kind (front ++ left :: back))
      (.container kind (front ++ right :: back)) where
  admissible_iff _ :=
    ⟨fun hleft ↦ (halike.admissible_of_member hleft).1,
      fun hright ↦ (halike.symm.admissible_of_member hright).1⟩
  encoded_eq _ hleft := congrArg (kind.enclose rules) (halike.admissible_of_member hleft).2

end Alike

end Outline

/-! ### Permuted entries -/

namespace Value

/-- The entry of a map as it is written. -/
def encodedEntry (rules : Rules) (entry : Value × Value) : Entry :=
  ⟨entry.1.outline.encoded rules, entry.2.outline.encoded rules⟩

theorem pairs_entryOutlines (rules : Rules) (entries : List (Value × Value)) :
    pairs (Outline.encodedEach rules (entryOutlines entries)) =
      entries.map (encodedEntry rules) := by
  induction entries with
  | nil => rfl
  | cons entry rest ih =>
    change encodedEntry rules entry :: pairs (Outline.encodedEach rules (entryOutlines rest)) = _
    rw [ih, List.map_cons]

theorem length_encodedEntries (rules : Rules) (entries : List (Value × Value)) :
    (Outline.encodedEach rules (entryOutlines entries)).length = 2 * entries.length := by
  rw [Outline.encodedEach_eq_map, List.length_map, length_entryOutlines]

theorem entryOutlines_append (front back : List (Value × Value)) :
    entryOutlines (front ++ back) = entryOutlines front ++ entryOutlines back := by
  induction front with
  | nil => rfl
  | cons entry rest ih =>
    change entry.1.outline :: entry.2.outline :: entryOutlines (rest ++ back) = _
    rw [ih]
    rfl

theorem outlines_append (front back : List Value) :
    outlines (front ++ back) = outlines front ++ outlines back := by
  induction front with
  | nil => rfl
  | cons member rest ih =>
    change member.outline :: outlines (rest ++ back) = _
    rw [ih]
    rfl

/-- All labels and values of a map are admissible, in whichever order its entries stand. -/
theorem allAdmissible_entryOutlines {rules : Rules} {depth : Nat} {entries : List (Value × Value)} :
    Outline.AllAdmissible rules depth (entryOutlines entries) ↔
      ∀ entry ∈ entries, entry.1.outline.Admissible rules depth ∧
        entry.2.outline.Admissible rules depth := by
  induction entries with
  | nil => simp [entryOutlines, Outline.AllAdmissible]
  | cons entry rest ih =>
    rw [List.forall_mem_cons, ← ih, and_assoc]
    exact Iff.rfl

section Permuted

variable {rules : Rules} {entries others : List (Value × Value)}

theorem takes_of_perm (hperm : entries.Perm others)
    (htakes : Container.map.Takes rules (Outline.encodedEach rules (entryOutlines entries))) :
    Container.map.Takes rules (Outline.encodedEach rules (entryOutlines others)) where
  length_le limit hlimit := by
    rw [length_encodedEntries, ← hperm.length_eq, ← length_encodedEntries rules]
    exact htakes.length_le limit hlimit
  pairs_whole _ := by rw [length_encodedEntries, Nat.mul_mod_right]
  labels_distinct hmap hsort := by
    have hdistinct := htakes.labels_distinct hmap hsort
    rw [pairs_entryOutlines] at hdistinct ⊢
    exact ((hperm.map (encodedEntry rules)).map Entry.label).nodup_iff.1 hdistinct

theorem admissible_of_perm (hperm : entries.Perm others) {depth : Nat}
    (hadmissible : (map entries).outline.Admissible rules depth) :
    (map others).outline.Admissible rules depth := by
  obtain ⟨hdepth, hallowed, htakes, hmembers⟩ := hadmissible
  refine ⟨hdepth, hallowed, takes_of_perm hperm htakes, allAdmissible_entryOutlines.2 ?_⟩
  intro entry hentry
  exact allAdmissible_entryOutlines.1 hmembers entry (hperm.mem_iff.2 hentry)

/-- Distinct labels have one order only. -/
theorem sorted_eq_of_perm {first second : List Entry} (hperm : first.Perm second)
    (hdistinct : Entry.Distinct first) : Entry.sorted first = Entry.sorted second :=
  Entry.eq_sorted ((Entry.perm_sorted first).trans hperm) (Entry.pairwise_sorted hdistinct)

/-- Where maps are put in order, the order in which their entries are given does not matter. -/
theorem alike_of_perm (hsort : rules.sortMaps = true) (hperm : entries.Perm others) :
    Outline.Alike rules (map entries).outline (map others).outline where
  admissible_iff depth := ⟨admissible_of_perm hperm, admissible_of_perm hperm.symm⟩
  encoded_eq depth hadmissible := by
    obtain ⟨_, _, htakes, _⟩ := hadmissible
    have hdistinct := htakes.labels_distinct rfl hsort
    rw [pairs_entryOutlines] at hdistinct
    have hsorted := sorted_eq_of_perm (hperm.map (encodedEntry rules)) hdistinct
    simp only [outline, Outline.encoded, Container.enclose, Container.arrange, if_pos hsort,
      pairs_entryOutlines, length_encodedEntries, hperm.length_eq, hsorted]

end Permuted

/-- Values that differ in the order of entries are written alike. -/
theorem Rearranged.alike {rules : Rules} (hsort : rules.sortMaps = true) {left right : Value}
    (hrearranged : left.Rearranged right) :
    Outline.Alike rules left.outline right.outline := by
  induction hrearranged with
  | refl value => exact .refl rules value.outline
  | trans _ _ hfirst hsecond => exact hfirst.trans hsecond
  | entries hperm => exact alike_of_perm hsort hperm
  | tag number _ ih => exact ih.tag number
  | member front back _ ih =>
    simp only [outline, outlines_append]
    exact ih.member .array _ _
  | label front back value _ ih =>
    simp only [outline, entryOutlines_append]
    exact ih.member .map _ _
  | @value front back label value other _ ih =>
    have hsplit (value : Value) : entryOutlines (front ++ (label, value) :: back) =
        (entryOutlines front ++ [label.outline]) ++ value.outline :: entryOutlines back := by
      rw [entryOutlines_append, List.append_assoc]
      rfl
    simp only [outline, hsplit]
    exact ih.member .map _ _

end Value

/-! ### Encoding -/

namespace Encoder

/-- Under the rules of deterministic encoding, values that differ only in the order of the entries
of maps have the same bytes, or none of them is encoded. -/
theorem finish_appendValue_of_rearranged {rules : Rules}
    (hrules : rules = .coreDeterministic ∨ rules = .dcbor) {left right : Value}
    (hrearranged : left.Rearranged right) :
    (∃ bytes, ((growable rules).appendValue left).finish = .ok bytes ∧
      ((growable rules).appendValue right).finish = .ok bytes) ∨
    ∃ cause other, ((growable rules).appendValue left).finish = .error cause ∧
      ((growable rules).appendValue right).finish = .error other := by
  have hsort : rules.sortMaps = true := by
    obtain rfl | rfl := hrules <;> rfl
  obtain ⟨hadmissible, hencoded⟩ := hrearranged.alike hsort
  have hsame (bytes : Bytes) : ((growable rules).appendValue left).finish = .ok bytes ↔
      ((growable rules).appendValue right).finish = .ok bytes := by
    rw [finish_appendValue_eq_ok, finish_appendValue_eq_ok]
    constructor
    · rintro ⟨⟨hleft, rfl⟩, hlength⟩
      exact ⟨⟨(hadmissible 0).1 hleft, (hencoded 0 hleft).symm⟩, hlength⟩
    · rintro ⟨⟨hright, rfl⟩, hlength⟩
      have hleft := (hadmissible 0).2 hright
      exact ⟨⟨hleft, hencoded 0 hleft⟩, hlength⟩
  cases hleft : ((growable rules).appendValue left).finish with
  | ok bytes => exact .inl ⟨bytes, rfl, (hsame bytes).1 hleft⟩
  | error cause =>
    cases hright : ((growable rules).appendValue right).finish with
    | ok bytes => exact absurd (hleft.symm.trans ((hsame bytes).2 hright)) (by simp)
    | error other => exact .inr ⟨cause, other, rfl, rfl⟩

/-- A map whose entries change places, with a map as a label and one behind a tag in an array whose
entries change places too. -/
theorem finish_appendValue_of_rearranged_nested :
    let first : Value := .map [(.unsigned 1, .null), (.unsigned 2, .null)]
    let second : Value := .map [(.unsigned 2, .null), (.unsigned 1, .null)]
    (∃ bytes, ((growable .dcbor).appendValue (.map [(first, .null),
        (.unsigned 3, .array [.tag 4 first])])).finish = .ok bytes ∧
      ((growable .dcbor).appendValue (.map [(.unsigned 3, .array [.tag 4 second]),
        (second, .null)])).finish = .ok bytes) ∨
    ∃ cause other, ((growable .dcbor).appendValue (.map [(first, .null),
        (.unsigned 3, .array [.tag 4 first])])).finish = .error cause ∧
      ((growable .dcbor).appendValue (.map [(.unsigned 3, .array [.tag 4 second]),
        (second, .null)])).finish = .error other := by
  intro first second
  have hinner : first.Rearranged second := .entries (.swap _ _ _)
  have hlabel : (Value.map [(first, .null), (.unsigned 3, .array [.tag 4 first])]).Rearranged
      (.map [(second, .null), (.unsigned 3, .array [.tag 4 first])]) :=
    .label [] _ .null hinner
  have hvalue : (Value.map [(second, .null), (.unsigned 3, .array [.tag 4 first])]).Rearranged
      (.map [(second, .null), (.unsigned 3, .array [.tag 4 second])]) :=
    .value [(second, .null)] [] (.unsigned 3) (.member [] [] (.tag 4 hinner))
  exact finish_appendValue_of_rearranged (.inr rfl)
    (.trans hlabel (.trans hvalue (.entries (.swap _ _ _))))

end Encoder

end Cose.Cbor
