import Cose.Proofs.Header.Entries

/-!
# Labels of headers that were read

An entry of a header map is kept if it is the list of critical labels, or if its value has a reader
or is of native type; the others are passed over before their labels are compared. So no label is
kept twice (`keptLabels_nodup_of_readHeaders`), and a label that is passed over may well be repeated
(`readHeaders_repeated_label`).
-/

set_option autoImplicit false
set_option relaxedAutoImplicit false

namespace Cose

open Cbor Node Decoder

variable {readers : List (Int64 × ParameterReader)} {capacity : Nat} {isProtected : Bool}

/-! ### Labels that are kept -/

namespace HeaderState

/-- The labels that were kept so far. -/
def labels (state : HeaderState) : List Int64 :=
  (if state.critical?.isSome then [HeaderLabel.crit.code] else []) ++
    state.parameters.map (·.label)

/-- Whether no label was kept twice: the parameters have distinct labels, none of them that of the
list of critical labels. -/
structure Tidy (state : HeaderState) : Prop where
  nodup : (state.parameters.map (·.label)).Nodup
  not_crit : HeaderLabel.crit.code ∉ state.parameters.map (·.label)

theorem Tidy.labels_nodup {state : HeaderState} (htidy : state.Tidy) : state.labels.Nodup := by
  unfold labels
  split
  · exact List.nodup_cons.2 ⟨htidy.not_crit, htidy.nodup⟩
  · exact htidy.nodup

/-- Whether some labels are what was kept between two states. -/
structure Keeps (state visited : HeaderState) (kept : List Int64) : Prop where
  labels_perm : visited.labels.Perm (state.labels ++ kept)
  parameters_eq : visited.parameters.map (·.label) =
    state.parameters.map (·.label) ++ kept.filter (· ≠ HeaderLabel.crit.code)
  tidy : state.Tidy → visited.Tidy

namespace Keeps

variable {first second third : HeaderState} {left right : List Int64}

theorem refl (state : HeaderState) : state.Keeps state [] where
  labels_perm := by rw [List.append_nil]
  parameters_eq := (List.append_nil _).symm
  tidy := id

theorem trans (hleft : first.Keeps second left) (hright : second.Keeps third right) :
    first.Keeps third (left ++ right) where
  labels_perm := by
    rw [← List.append_assoc]
    exact hright.labels_perm.trans (hleft.labels_perm.append_right right)
  parameters_eq := by
    rw [hright.parameters_eq, hleft.parameters_eq, List.filter_append, List.append_assoc]
  tidy := fun htidy ↦ hright.tidy (hleft.tidy htidy)

end Keeps

theorem keeps_critical {state : HeaderState} (hnone : state.critical? = none)
    (critical : CriticalLabels) :
    state.Keeps { state with critical? := some critical } [HeaderLabel.crit.code] where
  labels_perm := by
    simp only [labels, hnone, Option.isSome_some, Option.isSome_none, if_true]
    exact List.perm_append_comm
  parameters_eq := by simp
  tidy := fun htidy ↦ ⟨htidy.nodup, htidy.not_crit⟩

theorem keeps_parameter {state : HeaderState} {label : Int64}
    (hother : label ≠ HeaderLabel.crit.code)
    (hnew : ∀ parameter ∈ state.parameters, parameter.label ≠ label) (value : ParameterValue) :
    state.Keeps
      { state with parameters := state.parameters ++ [⟨label, isProtected, false, value⟩] }
      [label] where
  labels_perm := by simp [labels]
  parameters_eq := by simp [hother]
  tidy := by
    intro htidy
    refine ⟨(grows_append value hnew).labels_nodup htidy.nodup, fun hcrit ↦ ?_⟩
    rw [List.map_append] at hcrit
    rcases List.mem_append.1 hcrit with hcrit | hcrit
    · exact htidy.not_crit hcrit
    · exact hother (List.mem_singleton.1 hcrit).symm

end HeaderState

namespace HeaderState

/-- One entry keeps its label, unless it is passed over. -/
theorem Takes.keeps {state visited : HeaderState} {entry : Node × Node}
    (htakes : state.Takes readers capacity isProtected entry visited) :
    state.Keeps visited (keptLabel? readers entry).toList := by
  cases htakes with
  | critical hlabel _ hnone _ =>
    rw [keptLabel?_of_integer hlabel, beq_self_eq_true, Bool.true_or]
    exact keeps_critical hnone _
  | stored hlabel hother hkept hnew _ =>
    rw [keptLabel?_of_integer hlabel, hkept, Bool.or_true]
    exact keeps_parameter hother hnew _
  | passedOver hpassed =>
    rw [hpassed]
    exact .refl _

/-- Several entries keep the labels of those that are not passed over. -/
theorem TakesAll.keeps {state final : HeaderState} {entries : List (Node × Node)}
    (htakes : state.TakesAll readers capacity isProtected entries final) :
    state.Keeps final (entries.filterMap (keptLabel? readers)) := by
  induction htakes with
  | nil state => exact .refl state
  | @cons state middle final entry entries hfirst _ ih =>
    have hcons : (entry :: entries).filterMap (keptLabel? readers) =
        (keptLabel? readers entry).toList ++ entries.filterMap (keptLabel? readers) := by
      rw [List.filterMap_cons]
      cases keptLabel? readers entry <;> rfl
    rw [hcons]
    exact hfirst.keeps.trans ih

end HeaderState

/-- A bucket that was read is a map, and keeps the labels of the entries that are not passed
over. -/
theorem exists_map_of_readBucket (hreaders : ∀ entry ∈ readers, entry.2.ConsumesValue)
    {state final : HeaderState} {before after : Decoder}
    (hrun : (readBucket readers capacity isProtected state).run before = .ok final after) :
    ∃ node entries, node.IsMapOf entries ∧ before.Spans node after ∧
      state.Keeps final (entries.filterMap (keptLabel? readers)) := by
  obtain ⟨node, entries, hmap, hspans, htakes⟩ := takesAll_of_run_readBucket hreaders hrun
  exact ⟨node, entries, hmap, hspans, htakes.keeps⟩

/-! ### Both buckets -/

/-- The content of the protected byte string is empty or a map. -/
theorem ProtectedRead.exists_map (hreaders : ∀ entry ∈ readers, entry.2.ConsumesValue)
    {content : Bytes} {state : HeaderState} (hread : ProtectedRead readers capacity content state) :
    ∃ entries : List (Node × Node),
      (content = [] ∧ entries = [] ∨
        ∃ node : Node, node.IsMapOf entries ∧ node.WellFormed 0 ∧ content = node.encoded) ∧
      HeaderState.Keeps ⟨[], none⟩ state (entries.filterMap (keptLabel? readers)) := by
  obtain ⟨entries, hcontent, htakes⟩ := hread.exists_takesAll hreaders
  exact ⟨entries, hcontent, htakes.keeps⟩

theorem integer?_of_keptLabel? {entry : Node × Node} {label : Int64}
    (hkept : keptLabel? readers entry = some label) : entry.1.integer? = some label :=
  (Option.filter_eq_some_iff.1 hkept).1

/-- A label that is never passed over occurs no more often than it is kept. -/
theorem count_integer?_le {entries : List (Node × Node)} {label : Int64}
    (hkept : ∀ entry ∈ entries, entry.1.integer? = some label → keptLabel? readers entry ≠ none) :
    (entries.filterMap (·.1.integer?)).count label ≤
      (entries.filterMap (keptLabel? readers)).count label := by
  induction entries with
  | nil => exact Nat.le_refl _
  | cons entry rest ih =>
    obtain ⟨hfirst, hrest⟩ := List.forall_mem_cons.1 hkept
    rw [List.filterMap_cons, List.filterMap_cons]
    cases hlabel : keptLabel? readers entry with
    | some kept =>
      rw [integer?_of_keptLabel? hlabel]
      simp only [List.count_cons]
      exact Nat.add_le_add_right (ih hrest) _
    | none =>
      cases hinteger : entry.1.integer? with
      | none => exact ih hrest
      | some other =>
        have hother : other ≠ label := fun hsame ↦ hfirst (hsame ▸ hinteger) hlabel
        rw [List.count_cons_of_ne hother]
        exact ih hrest

/-- Headers that were read are a byte string and a map, and no two of their entries that are kept
have the same label: the parameters have the labels that are kept, in order and without that of the
list of critical labels. An integer label occurs twice only if an entry with that label is passed
over. -/
theorem keptLabels_nodup_of_readHeaders (hreaders : ∀ entry ∈ readers, entry.2.ConsumesValue)
    {before after : Decoder} {headers : DecodedHeaders}
    (hrun : (readHeaders readers capacity).run before = .ok headers after) :
    ∃ first second, HeadersAhead before headers.protectedBytes first second after ∧
      ((first ++ second).filterMap (keptLabel? readers)).Nodup ∧
      headers.parameters.map (·.label) =
        ((first ++ second).filterMap (keptLabel? readers)).filter (· ≠ HeaderLabel.crit.code) ∧
      (((first ++ second).filterMap (·.1.integer?)).Nodup ↔
        ∀ entry ∈ first ++ second, keptLabel? readers entry = none →
          ∀ label, entry.1.integer? = some label →
            ((first ++ second).filterMap (·.1.integer?)).count label = 1) := by
  obtain ⟨item, middle, state, last, hnext, hbytes, hprotected, hbucket, hmarks⟩ :=
    readHeaders_cases hrun
  obtain ⟨hvalue, _⟩ := of_expectBytes hbytes
  have hleaf : item.isContainer = false := by rw [Item.isContainer, hvalue]
  obtain ⟨wrapper, hwrapper⟩ := exists_delivers_of_leaf hnext hleaf
  obtain ⟨first, hcontent, hfirst⟩ := hprotected.exists_map hreaders
  obtain ⟨bucket, second, hmap, hspans, hsecond⟩ := exists_map_of_readBucket hreaders hbucket
  have hkeeps := hfirst.trans hsecond
  rw [← List.filterMap_append] at hkeeps
  have htidy : last.Tidy := hkeeps.tidy ⟨List.nodup_nil, List.not_mem_nil⟩
  have hnodup : ((first ++ second).filterMap (keptLabel? readers)).Nodup :=
    hkeeps.labels_perm.nodup_iff.1 htidy.labels_nodup
  refine ⟨first, second, ⟨wrapper, middle, bucket, hwrapper.spans,
    hwrapper.value_eq.symm.trans hvalue, hcontent, hmap, hspans⟩, hnodup, ?_, ?_⟩
  · rw [(hmarks.eq_map htidy.nodup).2, Parameter.map_label_markListed, hkeeps.parameters_eq]
    rfl
  constructor
  · intro hall entry hmem _ label hlabel
    exact List.count_eq_one_of_mem hall (List.mem_filterMap.2 ⟨entry, hmem, hlabel⟩)
  · intro honce
    rw [List.nodup_iff_count_le_one]
    intro label
    by_cases hpassed : ∃ entry ∈ first ++ second, keptLabel? readers entry = none ∧
        entry.1.integer? = some label
    · obtain ⟨entry, hmem, hnone, hlabel⟩ := hpassed
      exact Nat.le_of_eq (honce entry hmem hnone label hlabel)
    · have hkept : ∀ entry ∈ first ++ second, entry.1.integer? = some label →
          keptLabel? readers entry ≠ none := fun entry hmem hlabel hnone ↦
        hpassed ⟨entry, hmem, hnone, hlabel⟩
      exact Nat.le_trans (count_integer?_le hkept) (List.nodup_iff_count_le_one.1 hnodup label)

/-- A key identifier, and a value that is taken whole. -/
theorem keptLabels_nodup_of_readHeaders_raw :
    let readers : List (Int64 × ParameterReader) := [(99, ParameterReader.raw)]
    let before := Decoder.ofBytes [0x40, 0xa2, 0x04, 0x41, 0x31, 0x18, 0x63, 0x81, 0x01]
    let headers : DecodedHeaders := ⟨[],
      [⟨4, false, false, .bytes [0x31]⟩, ⟨99, false, false, .encoded [0x81, 0x01]⟩]⟩
    let after : Decoder := ⟨[], 9, [⟨.items 0, true, 4⟩]⟩
    (∀ entry ∈ readers, entry.2.ConsumesValue) ∧
      (readHeaders readers 4).run before = .ok headers after ∧
      ∃ first second, HeadersAhead before headers.protectedBytes first second after ∧
        ((first ++ second).filterMap (keptLabel? readers)).Nodup ∧
        headers.parameters.map (·.label) =
          ((first ++ second).filterMap (keptLabel? readers)).filter
            (· ≠ HeaderLabel.crit.code) ∧
        (((first ++ second).filterMap (·.1.integer?)).Nodup ↔
          ∀ entry ∈ first ++ second, keptLabel? readers entry = none →
            ∀ label, entry.1.integer? = some label →
              ((first ++ second).filterMap (·.1.integer?)).count label = 1) := by
  intro readers before headers after
  have hreaders : ∀ entry ∈ readers, entry.2.ConsumesValue := by
    intro entry hmem
    rw [List.mem_singleton.1 hmem]
    exact ParameterReader.raw_consumesValue
  have hrun : (readHeaders readers 4).run before = .ok headers after := by
    with_unfolding_all rfl
  exact ⟨hreaders, hrun, keptLabels_nodup_of_readHeaders hreaders hrun⟩

/-- An empty array, which no label has a reader for, is passed over under one label twice. -/
theorem readHeaders_repeated_label :
    let before := Decoder.ofBytes [0x40, 0xa2, 0x07, 0x80, 0x07, 0x80]
    ∃ headers after entries, (readHeaders [] 4).run before = .ok headers after ∧
      HeadersAhead before headers.protectedBytes [] entries after ∧
      ¬(entries.filterMap (·.1.integer?)).Nodup := by
  intro before
  let label := leaf (.unsigned (.shortest 7))
  let value : Node := .mk [] (.counting false 0) []
  refine ⟨⟨[], []⟩, ⟨[], 6, [⟨.items 0, true, 4⟩]⟩, [(label, value), (label, value)],
    by with_unfolding_all rfl, ⟨leaf (.ofBytes [] (by decide)),
      ⟨[0xa2, 0x07, 0x80, 0x07, 0x80], 1, []⟩,
      .mk [] (.counting true 2) [label, value, label, value], ?_, rfl, .inl ⟨rfl, rfl⟩,
      ⟨_, rfl, _, rfl⟩, ?_⟩, by decide⟩
  · exact ⟨before, _, 1, rfl, wellFormed_leaf 0 _, rfl, .refl _⟩
  · refine ⟨_, [], 6, rfl, ?_, rfl, ⟨rfl, rfl⟩⟩
    have hvalue : value.WellFormed 1 :=
      ⟨Nat.zero_le _, fits_counting false (by decide) (Nat.zero_le _),
        holds_counting (Nat.zero_le _) rfl, trivial⟩
    exact ⟨Nat.zero_le _, fits_counting true (by decide) (by decide),
      holds_counting (by decide) rfl, wellFormed_leaf 1 _, hvalue, wellFormed_leaf 1 _, hvalue,
      trivial⟩

end Cose
