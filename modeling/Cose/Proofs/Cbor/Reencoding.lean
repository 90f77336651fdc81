import Mathlib.Tactic.Common
import Cose.Proofs.Cbor.Canonical

/-!
# Encoding what was read

Whatever is read to its end as a value nests no deeper and carries no more tags than the encoder
permits, and no array or map that announces the number of its members has too many. The members of
an array or map of indefinite length are not counted when they are read (`Token.Limited`), and that
is the only reason for which a value that was read is not encoded again:
`Reading.reencodes_iff_limited`. An array of indefinite length with one member too many shows that
it happens (`Reading.not_reencodes_overlong`).
-/

set_option autoImplicit false
set_option relaxedAutoImplicit false

namespace Cose.Cbor

open Node

/-- The most members of an array, or labels and values of a map. -/
def memberLimit (isMap : Bool) : Nat := if isMap then 2 * maxItems else maxItems

/-- Whether a token of indefinite length is followed by no more members than the encoder takes. -/
def Token.Limited : Token → (members : Nat) → Prop
  | leaf _, _ => True
  | definite _ _, _ => True
  | indefinite isMap, members => members ≤ memberLimit isMap

namespace Node

mutual

/-- Whether no array or map of indefinite length in a node has more members than the encoder
takes. -/
def Limited : Node → Prop
  | mk _ token members => token.Limited members.length ∧ AllLimited members

/-- Whether all nodes of a list keep that limit. -/
def AllLimited : List Node → Prop
  | [] => True
  | node :: rest => node.Limited ∧ AllLimited rest

end

/-- Values are as many as the nodes they are the values of. -/
theorem length_of_values? {nodes : List Node} {values : List Value}
    (hvalues : values? nodes = some values) : values.length = nodes.length := by
  induction nodes generalizing values with
  | nil =>
    cases hvalues
    rfl
  | cons node rest ih =>
    rw [values?] at hvalues
    obtain ⟨value, _, hrest⟩ := Option.bind_eq_some_iff.1 hvalues
    obtain ⟨others, hothers, rfl⟩ := Option.map_eq_some_iff.1 hrest
    rw [List.length_cons, List.length_cons, ih hothers]

end Node

/-- An array or map that announces its members keeps the limit on them. -/
theorem Token.le_memberLimit {isMap : Bool} {count : Argument} {level members : Nat}
    (hfits : (definite isMap count).Fits level) (hholds : (definite isMap count).Holds members) :
    members ≤ memberLimit isMap := by
  have hcount : count.number.toNat ≤ maxItems := hfits.2
  have hmembers : members = if isMap then 2 * count.number.toNat else count.number.toNat := hholds
  rw [hmembers, memberLimit]
  split_ifs
  · exact Nat.mul_le_mul_left 2 hcount
  · exact hcount

/-! ### Limited nodes have bounded values -/

namespace Value

/-- A value keeps the limits behind tags if it keeps them with all the tags before it. -/
theorem bounded_tags {tags : List UInt64} {content : Value} {depth before : Nat}
    (hcontent : content.Bounded depth (before + tags.length))
    (htags : before + tags.length ≤ maxTags) : (tags.foldr tag content).Bounded depth before := by
  induction tags generalizing before with
  | nil => exact hcontent
  | cons number rest ih =>
    rw [List.length_cons] at hcontent htags
    have hrest : (rest.foldr tag content).Bounded depth (before + 1) := by
      refine ih ?_ (by omega)
      rwa [Nat.add_assoc, Nat.add_comm 1]
    exact ⟨by omega, hrest⟩

/-- An item without members keeps all limits. -/
theorem bounded_of_generic? {item : ItemValue} {content : Value}
    (hvalue : item.generic? = some content) (depth tags : Nat) : content.Bounded depth tags := by
  cases item <;> cases hvalue <;> trivial

theorem entriesBounded_of_allBounded {depth : Nat} {entries : List (Value × Value)}
    (hmembers : AllBounded depth (flattened entries)) : EntriesBounded depth entries := by
  induction entries with
  | nil => trivial
  | cons entry rest ih =>
    obtain ⟨hlabel, hvalue, hrest⟩ := hmembers
    exact ⟨hlabel, hvalue, ih hrest⟩

/-- An array or map of not too many bounded values is bounded. -/
theorem bounded_of_container? {isMap : Bool} {values : List Value} {value : Value}
    (hvalue : container? isMap values = some value) {level : Nat} (hlevel : level < maxNesting)
    (hcount : values.length ≤ memberLimit isMap) (hmembers : AllBounded (level + 1) values)
    (tags : Nat) : value.Bounded level tags := by
  cases isMap with
  | false =>
    cases hvalue
    exact ⟨hlevel, hcount, hmembers⟩
  | true =>
    obtain ⟨entries, hentries, rfl⟩ := Option.map_eq_some_iff.1 hvalue
    obtain rfl := eq_flattened_of_entries? hentries
    rw [length_flattened] at hcount
    exact ⟨hlevel, Nat.le_of_mul_le_mul_left hcount (by decide),
      entriesBounded_of_allBounded hmembers⟩

mutual

/-- The value of a limited node keeps the limits of the encoder. -/
theorem bounded_of_node (node : Node) {level : Nat} (hnode : node.WellFormed level)
    (hlimited : node.Limited) {value : Value} (hvalue : node.value? = some value) :
    value.Bounded level 0 := by
  obtain ⟨tags, token, members⟩ := node
  obtain ⟨htags, hfits, hholds, hmembers⟩ := hnode
  obtain ⟨hcount, hlimiteds⟩ := hlimited
  obtain ⟨content, hcontent, rfl⟩ := Option.map_eq_some_iff.1 hvalue
  have hnumbers : 0 + (tags.map (·.number)).length ≤ maxTags := by
    rwa [Nat.zero_add, List.length_map]
  refine bounded_tags ?_ hnumbers
  cases token with
  | leaf atom => exact bounded_of_generic? hcontent level _
  | definite isMap count =>
    obtain ⟨values, hvalues, hcontainer⟩ := Option.bind_eq_some_iff.1 hcontent
    have hfew := Token.le_memberLimit hfits hholds
    rw [← length_of_values? hvalues] at hfew
    exact bounded_of_container? hcontainer hfits.1 hfew
      (allBounded_of_nodes members hmembers hlimiteds hvalues) _
  | indefinite isMap =>
    obtain ⟨values, hvalues, hcontainer⟩ := Option.bind_eq_some_iff.1 hcontent
    have hfew : members.length ≤ memberLimit isMap := hcount
    rw [← length_of_values? hvalues] at hfew
    exact bounded_of_container? hcontainer hfits hfew
      (allBounded_of_nodes members hmembers hlimiteds hvalues) _

theorem allBounded_of_nodes (nodes : List Node) {level : Nat} (hnodes : AllWellFormed level nodes)
    (hlimited : AllLimited nodes) {values : List Value} (hvalues : values? nodes = some values) :
    AllBounded level values := by
  cases nodes with
  | nil =>
    cases hvalues
    trivial
  | cons node rest =>
    rw [values?] at hvalues
    obtain ⟨value, hvalue, hrest⟩ := Option.bind_eq_some_iff.1 hvalues
    obtain ⟨others, hothers, rfl⟩ := Option.map_eq_some_iff.1 hrest
    exact ⟨bounded_of_node node hnodes.1 hlimited.1 hvalue,
      allBounded_of_nodes rest hnodes.2 hlimited.2 hothers⟩

end

/-! ### Values that are encoded come from limited nodes -/

/-- An array or map is admissible only with members that are, and that are not too many. -/
theorem of_admissible_container? {isMap : Bool} {values : List Value} {value : Value}
    (hvalue : container? isMap values = some value) {rules : Rules} {depth : Nat}
    (hadmissible : value.outline.Admissible rules depth) :
    values.length ≤ memberLimit isMap ∧
      Outline.AllAdmissible rules (depth + 1) (outlines values) := by
  cases isMap with
  | false =>
    cases hvalue
    obtain ⟨_, _, htakes, hmembers⟩ := hadmissible
    have hcount := htakes.length_le maxItems rfl
    rw [Outline.encodedEach_eq_map, List.length_map, length_outlines] at hcount
    exact ⟨hcount, hmembers⟩
  | true =>
    obtain ⟨entries, hentries, rfl⟩ := Option.map_eq_some_iff.1 hvalue
    obtain rfl := eq_flattened_of_entries? hentries
    obtain ⟨_, _, htakes, hmembers⟩ := hadmissible
    have hcount := htakes.length_le (2 * maxItems) rfl
    rw [Outline.encodedEach_eq_map, List.length_map, length_entryOutlines] at hcount
    rw [entryOutlines_eq] at hmembers
    exact ⟨by rwa [length_flattened], hmembers⟩

mutual

/-- A node whose value is encoded again is limited. -/
theorem limited_of_node (node : Node) {level : Nat} (hnode : node.WellFormed level) {value : Value}
    (hvalue : node.value? = some value) {rules : Rules} {depth : Nat}
    (hadmissible : value.outline.Admissible rules depth) : node.Limited := by
  obtain ⟨tags, token, members⟩ := node
  obtain ⟨_, _, hholds, hmembers⟩ := hnode
  obtain ⟨content, hcontent, rfl⟩ := Option.map_eq_some_iff.1 hvalue
  rw [outline_tags, admissible_tagged] at hadmissible
  cases token with
  | leaf atom =>
    obtain rfl : members = [] := List.length_eq_zero_iff.1 hholds
    exact ⟨trivial, trivial⟩
  | definite isMap count =>
    obtain ⟨values, hvalues, hcontainer⟩ := Option.bind_eq_some_iff.1 hcontent
    obtain ⟨_, hadmissibles⟩ := of_admissible_container? hcontainer hadmissible
    exact ⟨trivial, allLimited_of_nodes members hmembers hvalues hadmissibles⟩
  | indefinite isMap =>
    obtain ⟨values, hvalues, hcontainer⟩ := Option.bind_eq_some_iff.1 hcontent
    obtain ⟨hcount, hadmissibles⟩ := of_admissible_container? hcontainer hadmissible
    rw [length_of_values? hvalues] at hcount
    exact ⟨hcount, allLimited_of_nodes members hmembers hvalues hadmissibles⟩

theorem allLimited_of_nodes (nodes : List Node) {level : Nat} (hnodes : AllWellFormed level nodes)
    {values : List Value} (hvalues : values? nodes = some values) {rules : Rules} {depth : Nat}
    (hadmissible : Outline.AllAdmissible rules depth (outlines values)) : AllLimited nodes := by
  cases nodes with
  | nil => trivial
  | cons node rest =>
    rw [values?] at hvalues
    obtain ⟨value, hvalue, hrest⟩ := Option.bind_eq_some_iff.1 hvalues
    obtain ⟨others, hothers, rfl⟩ := Option.map_eq_some_iff.1 hrest
    exact ⟨limited_of_node node hnodes.1 hvalue hadmissible.1,
      allLimited_of_nodes rest hnodes.2 hothers hadmissible.2⟩

end

/-- A value that keeps the limits is read again from its encoding. -/
theorem nextValue_of_bounded {rules : Rules} (hrules : rules.Lossless) {value : Value}
    (hbounded : value.Bounded 0 0)
    (hlength : (value.outline.encoded rules).length ≤ maxEncodedLength) :
    ∃ after, (Reading.nextValue : Reading DecodeError Value).run
        (.ofBytes (value.outline.encoded rules)) = .ok value after ∧
      ∃ last, Decoder.finish after = .ok () last := by
  have hshort : (value.outline.encoded rules).length < 2 ^ 64 :=
    Nat.lt_of_le_of_lt hlength (by decide)
  exact Reading.nextValue_of_spelled
    (spelledBy_outline hrules value hbounded (Nat.zero_le _) hshort)

end Value

/-! ### Encoding again -/

namespace Reading

open Decoder

/-- An input that is read to its end as a value is the encoding of exactly one node, which keeps the
limit on nesting and on announced members. Under preferred rules and under rules without preference
its value is encoded again if and only if no array or map of indefinite length in it has too many
members, as far as the encoding is short enough, and what is encoded is read as the same value. -/
theorem reencodes_iff_limited {rules : Rules} (hrules : rules = .preferred ∨ rules = .noPreferred)
    {input : Bytes} {value : Value} {after last : Decoder}
    (hread : (nextValue : Reading DecodeError Value).run (ofBytes input) = .ok value after)
    (hfinish : Decoder.finish after = .ok () last)
    (hlength : (value.outline.encoded rules).length ≤ maxEncodedLength) :
    ∃ node : Node, node.WellFormed 0 ∧ node.encoded = input ∧ node.value? = some value ∧
      (∀ other : Node, other.WellFormed 0 → other.encoded = input → other = node) ∧
      ((∃ bytes, ((Encoder.growable rules).appendValue value).finish = .ok bytes) ↔
        node.Limited) ∧
      ∀ bytes, ((Encoder.growable rules).appendValue value).finish = .ok bytes →
        ∃ again, (nextValue : Reading DecodeError Value).run (ofBytes bytes) = .ok value again ∧
          ∃ behind, Decoder.finish again = .ok () behind := by
  have hlossless := Rules.lossless_of_mem hrules
  obtain ⟨node, hnode, rfl, hvalue⟩ := exists_node_of_nextValue hread hfinish
  refine ⟨node, hnode, rfl, hvalue, fun other hother hsame ↦ ?_, ⟨?_, fun hlimited ↦ ?_⟩, ?_⟩
  · exact encoded_inj (WellFormed.regular other hother) (WellFormed.regular node hnode) hsame
  · rintro ⟨bytes, hbytes⟩
    obtain ⟨⟨hadmissible, _⟩, _⟩ := Encoder.finish_appendValue_eq_ok.1 hbytes
    exact Value.limited_of_node node hnode hvalue hadmissible
  · have hbounded := Value.bounded_of_node node hnode hlimited hvalue
    have hadmissible := Value.admissible_outline hlossless value hbounded
    exact ⟨_, Encoder.finish_appendValue_eq_ok.2 ⟨⟨hadmissible, rfl⟩, hlength⟩⟩
  · intro bytes hbytes
    obtain ⟨⟨hadmissible, rfl⟩, _⟩ := Encoder.finish_appendValue_eq_ok.1 hbytes
    have hlimited := Value.limited_of_node node hnode hvalue hadmissible
    exact Value.nextValue_of_bounded hlossless (Value.bounded_of_node node hnode hlimited hvalue)
      hlength

/-- An array of indefinite length in a map of indefinite length. -/
theorem reencodes_iff_limited_nested :
    ∃ node : Node, node.WellFormed 0 ∧
      node.encoded = [0xbf, 0x01, 0x9f, 0xf9, 0x7e, 0x00, 0xff, 0xff] ∧
      node.value? = some (.map [(.unsigned 1, .array [.float ⟨0x7ff8000000000000⟩])]) ∧
      (∀ other : Node, other.WellFormed 0 →
        other.encoded = [0xbf, 0x01, 0x9f, 0xf9, 0x7e, 0x00, 0xff, 0xff] → other = node) ∧
      ((∃ bytes, ((Encoder.growable .noPreferred).appendValue
          (.map [(.unsigned 1, .array [.float ⟨0x7ff8000000000000⟩])])).finish = .ok bytes) ↔
        node.Limited) ∧
      ∀ bytes, ((Encoder.growable .noPreferred).appendValue
          (.map [(.unsigned 1, .array [.float ⟨0x7ff8000000000000⟩])])).finish = .ok bytes →
        ∃ again, (nextValue : Reading DecodeError Value).run (ofBytes bytes) =
            .ok (.map [(.unsigned 1, .array [.float ⟨0x7ff8000000000000⟩])]) again ∧
          ∃ behind, Decoder.finish again = .ok () behind := by
  have hread : (nextValue : Reading DecodeError Value).run
      (ofBytes [0xbf, 0x01, 0x9f, 0xf9, 0x7e, 0x00, 0xff, 0xff]) =
        .ok (.map [(.unsigned 1, .array [.float ⟨0x7ff8000000000000⟩])])
          ⟨[0xff, 0xff], 6, [⟨.untilBreak, false, 1⟩, ⟨.untilBreak, true, 2⟩]⟩ := by
    with_unfolding_all rfl
  have hfinish : Decoder.finish ⟨[0xff, 0xff], 6,
      [⟨.untilBreak, false, 1⟩, ⟨.untilBreak, true, 2⟩]⟩ = .ok () ⟨[], 8, []⟩ := rfl
  exact reencodes_iff_limited (.inr rfl) hread hfinish (by decide)

/-! ### One member too many -/

/-- An array of indefinite length with a number of zeros. -/
def zeroArray (count : Nat) : Node :=
  .mk [] (.indefinite false) (List.replicate count (.leaf (.unsigned (.shortest 0))))

theorem wellFormed_zeroArray (count : Nat) : (zeroArray count).WellFormed 0 := by
  have hlevel : 0 < maxNesting := by decide
  refine ⟨Nat.zero_le _, hlevel, fun hmap ↦ absurd hmap (by decide), ?_⟩
  rw [allWellFormed_iff]
  intro node hnode
  rw [List.eq_of_mem_replicate hnode]
  exact wellFormed_leaf 1 _

theorem encoded_zeroArray (count : Nat) :
    (zeroArray count).encoded = 0x9f :: (List.replicate count 0x00 ++ [0xff]) := by
  have hzero : (Node.leaf (.unsigned (.shortest 0))).encoded = [0x00] := by decide
  have hmembers : encodedAll (List.replicate count (.leaf (.unsigned (.shortest 0)))) =
      List.replicate count 0x00 := by
    rw [← flatten_map_encoded, List.map_replicate, hzero, List.flatten_replicate_singleton]
  rw [zeroArray, encoded, hmembers]
  rfl

theorem value?_zeroArray (count : Nat) :
    (zeroArray count).value? = some (.array (List.replicate count (.unsigned 0))) := by
  have hmembers : values? (List.replicate count (.leaf (.unsigned (.shortest 0)))) =
      some (List.replicate count (.unsigned 0)) := by
    induction count with
    | zero => rfl
    | succ count ih =>
      rw [List.replicate_succ, List.replicate_succ, values?, ih]
      rfl
  rw [zeroArray, value?, hmembers]
  rfl

/-- The bytes that an array of zeros would have with the number of its members announced. -/
theorem length_encoded_zeros (rules : Rules) (count : Nat) :
    ((Value.array (List.replicate count (.unsigned 0))).outline.encoded rules).length =
      (shortestHead .array (UInt64.ofNat count)).length + count := by
  have houtlines : Value.outlines (List.replicate count (.unsigned 0)) =
      List.replicate count (.scalar (.unsigned 0)) := by
    induction count with
    | zero => rfl
    | succ count ih =>
      rw [List.replicate_succ, List.replicate_succ, Value.outlines, ih]
      rfl
  have hzero : (Outline.scalar (.unsigned 0)).encoded rules = [0x00] := rfl
  rw [Value.outline, houtlines, Outline.encoded, Outline.encodedEach_eq_map, List.map_replicate,
    hzero, Container.enclose, List.flatten_replicate_singleton, List.length_append,
    List.length_replicate, List.length_replicate]

/-- An array of indefinite length with one member more than an array may have is read as a value,
which is refused when it is encoded, short as its encoding would be. -/
theorem not_reencodes_overlong :
    (∃ after, (nextValue : Reading DecodeError Value).run
        (ofBytes (0x9f :: (List.replicate 65535 0x00 ++ [0xff]))) =
          .ok (.array (List.replicate 65535 (.unsigned 0))) after ∧
      ∃ last, Decoder.finish after = .ok () last) ∧
    ∀ rules ∈ [Rules.preferred, Rules.noPreferred],
      ((Value.array (List.replicate 65535 (.unsigned 0))).outline.encoded rules).length ≤
        maxEncodedLength ∧
      ∀ bytes, ((Encoder.growable rules).appendValue
        (.array (List.replicate 65535 (.unsigned 0)))).finish ≠ .ok bytes := by
  refine ⟨?_, fun rules _ ↦ ⟨?_, fun bytes hbytes ↦ ?_⟩⟩
  · rw [← encoded_zeroArray]
    exact nextValue_of_node (wellFormed_zeroArray _) (value?_zeroArray _)
  · rw [length_encoded_zeros]
    decide
  · obtain ⟨⟨hadmissible, _⟩, _⟩ := Encoder.finish_appendValue_eq_ok.1 hbytes
    have harray : Value.container? false (List.replicate 65535 (.unsigned 0)) =
        some (.array (List.replicate 65535 (.unsigned 0))) := rfl
    obtain ⟨hcount, _⟩ := Value.of_admissible_container? harray hadmissible
    rw [List.length_replicate] at hcount
    exact absurd hcount (by decide)

end Reading

end Cose.Cbor
