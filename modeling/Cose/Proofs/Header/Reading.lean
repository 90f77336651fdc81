import Mathlib.Data.List.Nodup
import Cose.Header.Decode
import Cose.Proofs.Cbor.Decoder.Whole
import Cose.Proofs.Header.Marking
import Cose.Proofs.Header.Spelling

/-!
# Reading the headers that were written

`HeaderState.Admits` says that some entries can be added to what has been read of the headers: no
label was met before, and there is room. One entry is read as `HeaderState.add` says and leaves the
others admitted (`readEntry_of_spelled`), so a bucket is read to its end (`runBelow_entries`), by
whatever readers of its parameters it was written for.

Once both buckets are read, the parameters are those of the buckets in the order of their bytes
(`BucketNode.stored`), and marking the critical ones restores them (`mark_of_buckets`). So reading
gives back the headers (`readHeaders_of_next`), where they stand in a message
(`readHeaders_of_faces`) and where they are the whole input (`readHeaders_of_nodes`).
-/

set_option autoImplicit false
set_option relaxedAutoImplicit false

namespace Cose

open Cbor Node Decoder

/-! ### What entries add -/

/-- The parameter of an entry, `none` for the list of critical labels. -/
def HeaderEntry.parameter? : HeaderEntry → Option Parameter
  | parameter native => some native
  | critical _ => none

theorem HeaderEntry.length_parameters_cons (stored : Parameter) (entries : List HeaderEntry) :
    ((parameter stored :: entries).filterMap parameter?).length =
      (entries.filterMap parameter?).length + 1 :=
  rfl

/-- A parameter as it is stored when it is read. It is not marked as critical before all entries
were read. -/
def Parameter.received (isProtected : Bool) (parameter : Parameter) : Parameter :=
  ⟨parameter.label, isProtected, false, parameter.value⟩

/-- Whether an entry may stand in a bucket. -/
def HeaderEntry.Permitted (isProtected : Bool) : HeaderEntry → Prop
  | parameter native => native.label ≠ HeaderLabel.crit.code
  | critical labels =>
    isProtected = true ∧ labels ≠ [] ∧ labels.Nodup ∧ labels.length ≤ maxCriticalParameters

namespace HeaderState

/-- What has been read of the headers, with one more entry. -/
def add (isProtected : Bool) (state : HeaderState) : HeaderEntry → HeaderState
  | .parameter native =>
    { state with parameters := state.parameters ++ [native.received isProtected] }
  | .critical labels => { state with critical? := some ⟨labels, false⟩ }

/-- Whether entries can be added one after the other to what has been read. -/
structure Admits (capacity : Nat) (isProtected : Bool) (state : HeaderState)
    (entries : List HeaderEntry) : Prop where
  permitted : ∀ entry ∈ entries, entry.Permitted isProtected
  labels_nodup : (entries.map (·.label)).Nodup
  label_new : ∀ entry ∈ entries, ∀ stored ∈ state.parameters, stored.label ≠ entry.label
  critical_new : ∀ labels, .critical labels ∈ entries → state.critical? = none
  room : state.parameters.length + (entries.filterMap HeaderEntry.parameter?).length ≤ capacity

variable {capacity : Nat} {isProtected : Bool} {state : HeaderState}

/-- The order of the entries does not matter. -/
theorem Admits.of_perm {first second : List HeaderEntry} (hperm : first.Perm second)
    (hadmits : Admits capacity isProtected state second) :
    Admits capacity isProtected state first where
  permitted := fun entry hmem ↦ hadmits.permitted entry (hperm.mem_iff.1 hmem)
  labels_nodup := (hperm.map _).nodup_iff.2 hadmits.labels_nodup
  label_new := fun entry hmem ↦ hadmits.label_new entry (hperm.mem_iff.1 hmem)
  critical_new := fun labels hmem ↦ hadmits.critical_new labels (hperm.mem_iff.1 hmem)
  room := by
    rw [(hperm.filterMap _).length_eq]
    exact hadmits.room

/-- Once an entry is added, those behind it can be added still. -/
theorem Admits.tail {entry : HeaderEntry} {entries : List HeaderEntry}
    (hadmits : Admits capacity isProtected state (entry :: entries)) :
    Admits capacity isProtected (state.add isProtected entry) entries := by
  obtain ⟨hpermitted, hnodup, hnew, hcritical, hroom⟩ := hadmits
  obtain ⟨hdifferent, hothers⟩ := List.nodup_cons.1 hnodup
  obtain ⟨_, hrest⟩ := List.forall_mem_cons.1 hnew
  have hlabel : ∀ other ∈ entries, entry.label ≠ other.label := fun other hmem hequal ↦
    hdifferent (List.mem_map.2 ⟨other, hmem, hequal.symm⟩)
  refine ⟨fun other hmem ↦ hpermitted other (.tail _ hmem), hothers, ?_, ?_, ?_⟩
  · intro other hmem stored hstored
    cases entry with
    | parameter native =>
      rcases List.mem_append.1 hstored with hold | hlast
      · exact hrest other hmem stored hold
      · rw [List.mem_singleton.1 hlast]
        exact hlabel other hmem
    | critical labels => exact hrest other hmem stored hstored
  · intro labels hmem
    cases entry with
    | parameter native => exact hcritical labels (.tail _ hmem)
    | critical first => exact absurd rfl (hlabel (.critical labels) hmem)
  · cases entry with
    | parameter native =>
      rw [HeaderEntry.length_parameters_cons] at hroom
      simp only [add, List.length_append, List.length_singleton]
      omega
    | critical labels => exact hroom

theorem parameters_foldl_add (entries : List HeaderEntry) :
    (entries.foldl (add isProtected) state).parameters =
      state.parameters ++
        (entries.filterMap HeaderEntry.parameter?).map (·.received isProtected) := by
  induction entries generalizing state with
  | nil => exact (List.append_nil _).symm
  | cons entry rest ih =>
    rw [List.foldl_cons, ih]
    cases entry with
    | parameter native => simp [add, HeaderEntry.parameter?]
    | critical labels => rfl

/-- The list of critical labels is that of an entry, or the one that was met before if no entry has
one. -/
theorem critical?_foldl_add (entries : List HeaderEntry) :
    (∃ labels, .critical labels ∈ entries ∧
        (entries.foldl (add isProtected) state).critical? = some ⟨labels, false⟩) ∨
      (∀ labels, .critical labels ∉ entries) ∧
        (entries.foldl (add isProtected) state).critical? = state.critical? := by
  induction entries generalizing state with
  | nil => exact .inr ⟨fun labels hmem ↦ by (cases hmem), rfl⟩
  | cons entry rest ih =>
    rw [List.foldl_cons]
    rcases @ih (state.add isProtected entry) with ⟨labels, hmem, hmet⟩ | ⟨hnone, hkept⟩
    · exact .inl ⟨labels, .tail _ hmem, hmet⟩
    · rw [hkept]
      cases entry with
      | parameter stored =>
        refine .inr ⟨fun labels hmem ↦ ?_, rfl⟩
        cases hmem with
        | tail _ hrest => exact hnone labels hrest
      | critical labels => exact .inl ⟨labels, .head _, rfl⟩

end HeaderState

/-! ### Reading the list of critical labels -/

section Reading

variable {decoder : Decoder} {outer : List Level} {rest : Bytes}

theorem value_intLeaf_cases (number : Int64) :
    (∃ n, (intLeaf number).value = .unsigned n) ∨ ∃ n, (intLeaf number).value = .negative n := by
  unfold intLeaf
  cases number.toInt with
  | ofNat n => exact .inl ⟨_, rfl⟩
  | negSucc n => exact .inr ⟨_, rfl⟩

theorem run_readLabel {item : Item} {label : Int64} (hitem : item.value = (intLeaf label).value)
    (decoder : Decoder) : (readLabel item).run decoder = .ok label decoder := by
  refine Reading.run_ofExcept ?_ decoder
  rw [toInt64_of_intLeaf hitem]
  rfl

/-- A label that is not listed yet is listed behind the others. -/
theorem run_readCriticalLabel {critical : CriticalLabels} {item : Item} {label : Int64}
    (hitem : item.value = (intLeaf label).value) (hnew : label ∉ critical.labels)
    (hroom : critical.labels.length ≠ maxCriticalParameters) (decoder : Decoder) :
    (readCriticalLabel critical item).run decoder =
      .ok { critical with labels := critical.labels ++ [label] } decoder := by
  have hlabel := run_readLabel hitem decoder
  have hcontains : ¬critical.labels.contains label = true := by
    rwa [List.contains_iff_mem]
  unfold readCriticalLabel
  rcases value_intLeaf_cases label with ⟨n, hn⟩ | ⟨n, hn⟩
  all_goals
    rw [hitem, hn]
    refine Reading.run_bind hlabel ?_
    rw [if_neg hcontains, if_neg hroom]
    rfl

/-- The labels of the list are read in order. -/
theorem runBelow_criticalLabels {labels listed : List Int64} (hnodup : (listed ++ labels).Nodup)
    (hfew : (listed ++ labels).length ≤ maxCriticalParameters)
    (hfaces : decoder.Faces outer (labels.map fun label ↦ leaf (intLeaf label)) rest) :
    ∃ after, Reading.runBelow outer.length readCriticalLabel ⟨listed, false⟩ decoder =
        .ok ⟨listed ++ labels, false⟩ after ∧ after.Reaches rest outer := by
  induction labels generalizing listed decoder with
  | nil =>
    rw [List.append_nil]
    exact ⟨decoder, Reading.runBelow_of_reaches hfaces.reaches, hfaces.reaches⟩
  | cons label labels ih =>
    have hsplit : listed ++ label :: labels = listed ++ [label] ++ labels := by simp
    obtain ⟨item, middle, hnext, hitem, _, hmiddle⟩ := hfaces.next_leaf
    have hnew : label ∉ listed := fun hmem ↦
      List.disjoint_of_nodup_append hnodup hmem (.head _)
    have hroom : listed.length ≠ maxCriticalParameters := by
      rw [List.length_append, List.length_cons] at hfew
      omega
    have hvisit : (readCriticalLabel ⟨listed, false⟩ item).run middle =
        .ok ⟨listed ++ [label], false⟩ middle := run_readCriticalLabel hitem hnew hroom middle
    rw [hsplit] at hnodup hfew
    obtain ⟨after, hafter, hend⟩ := ih hnodup hfew hmiddle
    refine ⟨after, ?_, hend⟩
    rw [Reading.runBelow_of_faces hfaces hnext hvisit, hafter, hsplit]

/-- A list of distinct labels that is neither empty nor too long is read whole. -/
theorem run_readCritical {labels : List Int64} (hnonempty : labels ≠ []) (hnodup : labels.Nodup)
    (hfew : labels.length ≤ maxCriticalParameters) {count : Argument} {nodes : List Node}
    (hfaces : decoder.Faces outer (.mk [] (.definite false count)
      (labels.map fun label ↦ leaf (intLeaf label)) :: nodes) rest) :
    ∃ after, readCritical.run decoder = .ok ⟨labels, false⟩ after ∧
      after.Faces outer nodes rest := by
  obtain ⟨item, middle, inner, more, hnext, hvalue, htags, hlevel, hinner, hothers⟩ :=
    hfaces.next_container (opensLevel_definite false count)
  have hdistinct : ([] ++ labels).Nodup := hnodup
  obtain ⟨after, hrun, hafter⟩ := runBelow_criticalLabels hdistinct hfew hinner
  refine ⟨after, Reading.run_bind (Reading.run_next hnext) ?_, hothers after hafter⟩
  have harray : item.value = .array (some count.number) := hvalue
  have hplain : item.tags = [] := htags
  rw [harray, hplain, hlevel]
  refine Reading.run_bind hrun ?_
  have hempty : ¬(labels.isEmpty && !false) = true := by
    simpa using hnonempty
  simp only [List.nil_append]
  rw [if_neg hempty]
  rfl

/-! ### Reading the entries of a bucket -/

variable {readers : List (Int64 × ParameterReader)} {capacity : Nat} {isProtected : Bool}
  {state : HeaderState}

/-- A value of native type is read as itself where its label has no reader. -/
theorem run_readValue?_native {label : Int64} (hnone : readers.lookup label = none)
    {value : ParameterValue} {atom : Leaf} (hatom : value.IsAtom atom) {nodes : List Node}
    (hfaces : decoder.Faces outer (leaf atom :: nodes) rest) :
    ∃ after, (readValue? readers label).run decoder = .ok (some value) after ∧
      after.Faces outer nodes rest := by
  obtain ⟨item, after, hnext, hitem, htags, hafter⟩ := hfaces.next_leaf
  refine ⟨after, ?_, hafter⟩
  unfold readValue?
  rw [hnone]
  refine Reading.run_bind (Reading.run_next hnext) ?_
  rw [hatom item hitem htags]
  rfl

/-- Any value is kept as it is encoded where the reader of its label does so. -/
theorem run_readValue?_raw {label : Int64} (hraw : readers.lookup label = some .raw) {node : Node}
    {nodes : List Node} (hfaces : decoder.Faces outer (node :: nodes) rest) :
    ∃ after, (readValue? readers label).run decoder = .ok (some (.encoded node.encoded)) after ∧
      after.Faces outer nodes rest := by
  obtain ⟨start, more, hsettles, hready, _, hnode, hrest, hothers⟩ := hfaces.exists_start
  obtain ⟨after, hrun, hreaches⟩ := Reading.run_nextRaw (ε := Error) hsettles hready hnode hrest
  refine ⟨after, ?_, hothers after hreaches⟩
  unfold readValue?
  rw [hraw]
  exact Reading.run_bind (Reading.run_bind hrun rfl) rfl

/-- A parameter whose label was not stored is stored while there is room. -/
theorem store_eq_ok {parameter : Parameter}
    (hnew : ∀ stored ∈ state.parameters, stored.label ≠ parameter.label)
    (hroom : state.parameters.length < capacity) :
    state.store capacity parameter =
      .ok { state with parameters := state.parameters ++ [parameter] } := by
  have hfind : findParameter? state.parameters parameter.label = none := by
    refine List.find?_eq_none.2 fun stored hmem hequal ↦ hnew stored hmem ?_
    exact beq_iff_eq.1 hequal
  rw [HeaderState.store, hfind, if_neg (by decide), if_pos hroom]

/-- A parameter whose value is read is stored. -/
theorem run_readEntry_parameter {parameter : Parameter}
    (hlabel : parameter.label ≠ HeaderLabel.crit.code)
    (hnew : ∀ stored ∈ state.parameters, stored.label ≠ parameter.label)
    (hroom : state.parameters.length < capacity) {item : Item}
    (hitem : item.value = (intLeaf parameter.label).value) {after : Decoder}
    (hvalue : (readValue? readers parameter.label).run decoder =
      .ok (some parameter.value) after) :
    (readEntry readers capacity isProtected state item).run decoder =
      .ok (state.add isProtected (.parameter parameter)) after := by
  have hstore : state.store capacity (parameter.received isProtected) =
      .ok (state.add isProtected (.parameter parameter)) := store_eq_ok hnew hroom
  unfold readEntry
  rcases value_intLeaf_cases parameter.label with ⟨n, hn⟩ | ⟨n, hn⟩
  all_goals
    rw [hitem, hn]
    refine Reading.run_bind (run_readLabel hitem decoder) ?_
    rw [if_neg hlabel]
    exact Reading.run_bind hvalue (Reading.run_ofExcept hstore after)

/-- The first list of critical labels in the protected bucket is read and kept. -/
theorem run_readEntry_critical {labels : List Int64} (hnonempty : labels ≠ [])
    (hnodup : labels.Nodup) (hfew : labels.length ≤ maxCriticalParameters)
    (hnone : state.critical? = none) {item : Item}
    (hitem : item.value = (intLeaf HeaderLabel.crit.code).value) {count : Argument}
    {nodes : List Node} (hfaces : decoder.Faces outer (.mk [] (.definite false count)
      (labels.map fun label ↦ leaf (intLeaf label)) :: nodes) rest) :
    ∃ after, (readEntry readers capacity true state item).run decoder =
        .ok (state.add true (.critical labels)) after ∧ after.Faces outer nodes rest := by
  obtain ⟨after, hcritical, hafter⟩ := run_readCritical hnonempty hnodup hfew hfaces
  refine ⟨after, ?_, hafter⟩
  unfold readEntry
  rcases value_intLeaf_cases HeaderLabel.crit.code with ⟨n, hn⟩ | ⟨n, hn⟩
  all_goals
    rw [hitem, hn]
    refine Reading.run_bind (run_readLabel hitem decoder) ?_
    rw [if_pos rfl, if_neg (by decide), hnone, if_neg (by decide)]
    exact Reading.run_bind hcritical rfl

/-- An entry that is admitted is read and added. -/
theorem readEntry_of_spelled {entry : HeaderEntry} {label value : Node}
    (hspelled : entry.SpelledBy readers label value) {entries : List HeaderEntry}
    (hadmits : state.Admits capacity isProtected (entry :: entries)) {nodes : List Node}
    (hfaces : decoder.Faces outer (label :: value :: nodes) rest) :
    ∃ item middle after, Decoder.next decoder = .ok item middle ∧
      (readEntry readers capacity isProtected state item).run middle =
        .ok (state.add isProtected entry) after ∧ after.Faces outer nodes rest := by
  have hpermitted := hadmits.permitted entry (.head _)
  have hnew := hadmits.label_new entry (.head _)
  have hroom (stored : Parameter) (hentry : entry = .parameter stored) :
      state.parameters.length < capacity := by
    have hall := hadmits.room
    rw [hentry, HeaderEntry.length_parameters_cons] at hall
    omega
  cases hspelled with
  | native hnone hatom =>
    obtain ⟨item, middle, hnext, hitem, _, hmiddle⟩ := hfaces.next_leaf
    obtain ⟨after, hvalue, hafter⟩ := run_readValue?_native hnone hatom hmiddle
    exact ⟨item, middle, after, hnext,
      run_readEntry_parameter hpermitted hnew (hroom _ rfl) hitem hvalue, hafter⟩
  | encoded hraw hencoded =>
    obtain ⟨item, middle, hnext, hitem, _, hmiddle⟩ := hfaces.next_leaf
    obtain ⟨after, hvalue, hafter⟩ := run_readValue?_raw hraw hmiddle
    rw [← hencoded] at hvalue
    exact ⟨item, middle, after, hnext,
      run_readEntry_parameter hpermitted hnew (hroom _ rfl) hitem hvalue, hafter⟩
  | critical labels count =>
    obtain ⟨rfl, hnonempty, hnodup, hfew⟩ := hpermitted
    have hnone := hadmits.critical_new labels (.head _)
    obtain ⟨item, middle, hnext, hitem, _, hmiddle⟩ := hfaces.next_leaf
    obtain ⟨after, hrun, hafter⟩ :=
      run_readEntry_critical hnonempty hnodup hfew hnone hitem hmiddle
    exact ⟨item, middle, after, hnext, hrun, hafter⟩

/-- The entries of a bucket are read and added one after the other. -/
theorem runBelow_entries {entries : List HeaderEntry} {nodes : List Node}
    (hspelled : HeaderEntry.AllSpelledBy readers entries nodes)
    (hadmits : state.Admits capacity isProtected entries)
    (hfaces : decoder.Faces outer nodes rest) :
    ∃ after, Reading.runBelow outer.length (readEntry readers capacity isProtected) state decoder =
        .ok (entries.foldl (HeaderState.add isProtected) state) after ∧
      after.Reaches rest outer := by
  induction hspelled generalizing state decoder with
  | nil => exact ⟨decoder, Reading.runBelow_of_reaches hfaces.reaches, hfaces.reaches⟩
  | cons hentry _ ih =>
    obtain ⟨item, middle, between, hnext, hvisit, hbetween⟩ :=
      readEntry_of_spelled hentry hadmits hfaces
    obtain ⟨after, hafter, hend⟩ := ih hadmits.tail hbetween
    exact ⟨after, by rw [Reading.runBelow_of_faces hfaces hnext hvisit, hafter, List.foldl_cons],
      hend⟩

/-- A bucket is read to its end, once its map is entered. -/
theorem readBucket_of_next {entries : List HeaderEntry} (bucketNode : BucketNode readers entries)
    (hadmits : state.Admits capacity isProtected entries) {item : Item} {middle : Decoder}
    (hnext : Decoder.next decoder = .ok item middle)
    (hvalue : item.value = .map (some bucketNode.count.number)) (htags : item.tags = [])
    (hlevel : item.level = outer.length) (hfaces : middle.Faces outer bucketNode.members rest) :
    ∃ after, (readBucket readers capacity isProtected state).run decoder =
        .ok (bucketNode.arranged.foldl (HeaderState.add isProtected) state) after ∧
      after.Reaches rest outer := by
  obtain ⟨after, hrun, hafter⟩ :=
    runBelow_entries bucketNode.spelled (hadmits.of_perm bucketNode.perm) hfaces
  have huntagged : expectUntagged item "map" = .ok () := if_pos htags
  refine ⟨after, Reading.run_bind (Reading.run_next hnext) ?_, hafter⟩
  refine Reading.run_bind (Reading.run_ofExcept huntagged middle) ?_
  rw [hvalue, hlevel]
  exact hrun

end Reading

/-! ### Admitting both buckets -/

section Buckets

variable {readers : List (Int64 × ParameterReader)} {parameters : List Parameter}

theorem filterMap_parameter (stored : List Parameter) :
    (stored.map HeaderEntry.parameter).filterMap HeaderEntry.parameter? = stored := by
  induction stored with
  | nil => rfl
  | cons first rest ih => exact congrArg (first :: ·) ih

theorem filterMap_protectedEntries (parameters : List Parameter) :
    (protectedEntries parameters).filterMap HeaderEntry.parameter? =
      parameters.filter (·.isProtected) := by
  rw [protectedEntries, List.filterMap_append, filterMap_parameter]
  rcases criticalEntries_cases parameters with ⟨_, hnone⟩ | ⟨_, hsome⟩
  · rw [hnone]
    exact List.append_nil _
  · rw [hsome]
    exact List.append_nil _

variable {capacity : Nat}

/-- The protected bucket is admitted at the start. -/
theorem admits_protectedEntries (hlabelled : WellLabelled parameters)
    (hcapacity : parameters.length ≤ capacity) :
    HeaderState.Admits capacity true ⟨[], none⟩ (protectedEntries parameters) where
  permitted := by
    intro entry hmem
    rcases mem_protectedEntries hmem with ⟨stored, hstored, _, rfl⟩ | ⟨hnonempty, rfl⟩
    · exact hlabelled.label_ne_crit stored hstored
    · refine ⟨rfl, hnonempty, ?_, length_criticalLabels_le hlabelled⟩
      exact hlabelled.labels_nodup.sublist (List.filter_sublist.map _)
  labels_nodup := labels_nodup_protectedEntries hlabelled
  label_new := fun _ _ _ hstored ↦ by cases hstored
  critical_new := fun _ _ ↦ rfl
  room := by
    have hfewer := List.length_filter_le (·.isProtected) parameters
    rw [filterMap_protectedEntries, List.length_nil]
    omega

/-- The unprotected bucket is admitted behind the protected one. -/
theorem admits_unprotectedEntries (hlabelled : WellLabelled parameters)
    (hcapacity : parameters.length ≤ capacity) {arranged : List HeaderEntry}
    (hperm : arranged.Perm (protectedEntries parameters)) :
    (arranged.foldl (HeaderState.add true) ⟨[], none⟩).Admits capacity false
      (unprotectedEntries parameters) where
  permitted := by
    intro entry hmem
    obtain ⟨stored, hstored, _, rfl⟩ := mem_unprotectedEntries hmem
    exact hlabelled.label_ne_crit stored hstored
  labels_nodup := labels_nodup_unprotectedEntries hlabelled
  label_new := by
    intro entry hmem received hreceived hequal
    obtain ⟨stored, hstored, hunprotected, rfl⟩ := mem_unprotectedEntries hmem
    rw [HeaderState.parameters_foldl_add, List.nil_append] at hreceived
    obtain ⟨other, hother, rfl⟩ := List.mem_map.1 hreceived
    rw [(hperm.filterMap _).mem_iff, filterMap_protectedEntries] at hother
    obtain ⟨hother, hprotected⟩ := List.mem_filter.1 hother
    have hsame : other = stored :=
      List.inj_on_of_nodup_map hlabelled.labels_nodup hother hstored hequal
    rw [hsame, hunprotected] at hprotected
    cases hprotected
  critical_new := by
    intro labels hmem
    obtain ⟨stored, _, _, hentry⟩ := mem_unprotectedEntries hmem
    cases hentry
  room := by
    have hsplit := List.length_eq_length_filter_add (·.isProtected) (l := parameters)
    rw [HeaderState.parameters_foldl_add, List.nil_append, List.length_map,
      (hperm.filterMap _).length_eq, filterMap_protectedEntries, unprotectedEntries,
      filterMap_parameter]
    omega

/-! ### Restoring the critical parameters -/

/-- A parameter that was stored is as it was once the critical labels are marked. -/
theorem markListed_received (hlabelled : WellLabelled parameters) {parameter : Parameter}
    (hmem : parameter ∈ parameters) :
    (parameter.received parameter.isProtected).markListed (criticalLabels parameters) =
      parameter := by
  unfold Parameter.markListed
  by_cases hcritical : parameter.isCritical = true
  · have hlisted : parameter.label ∈ criticalLabels parameters :=
      List.mem_map.2 ⟨parameter, List.mem_filter.2 ⟨hmem, hcritical⟩, rfl⟩
    refine (if_pos hlisted).trans ?_
    obtain ⟨label, isProtected, isCritical, value⟩ := parameter
    cases hcritical
    rfl
  · have hunlisted : parameter.label ∉ criticalLabels parameters := by
      intro hlisted
      obtain ⟨other, hother, hequal⟩ := List.mem_map.1 hlisted
      obtain ⟨hother, hmarked⟩ := List.mem_filter.1 hother
      rw [List.inj_on_of_nodup_map hlabelled.labels_nodup hother hmem hequal] at hmarked
      exact hcritical hmarked
    refine (if_neg hunlisted).trans ?_
    obtain ⟨label, isProtected, isCritical, value⟩ := parameter
    cases Bool.eq_false_of_not_eq_true hcritical
    rfl

/-- The parameters of a bucket in the order in which they were written. -/
def BucketNode.stored {entries : List HeaderEntry} (bucketNode : BucketNode readers entries) :
    List Parameter :=
  bucketNode.arranged.filterMap HeaderEntry.parameter?

theorem BucketNode.perm_protected
    (bucketNode : BucketNode readers (protectedEntries parameters)) :
    bucketNode.stored.Perm (parameters.filter (·.isProtected)) := by
  rw [← filterMap_protectedEntries]
  exact bucketNode.perm.filterMap _

theorem BucketNode.perm_unprotected
    (bucketNode : BucketNode readers (unprotectedEntries parameters)) :
    bucketNode.stored.Perm (parameters.filter (!·.isProtected)) := by
  rw [← filterMap_parameter (parameters.filter (!·.isProtected))]
  exact bucketNode.perm.filterMap _

theorem perm_stored (first : BucketNode readers (protectedEntries parameters))
    (second : BucketNode readers (unprotectedEntries parameters)) :
    (first.stored ++ second.stored).Perm parameters :=
  (first.perm_protected.append second.perm_unprotected).trans
    (List.filter_append_perm _ parameters)

/-- What was stored of a bucket is restored by marking. -/
theorem map_markListed_received (hlabelled : WellLabelled parameters) {isProtected : Bool}
    {stored : List Parameter}
    (hstored : ∀ parameter ∈ stored, parameter ∈ parameters ∧ parameter.isProtected = isProtected) :
    (stored.map (·.received isProtected)).map (·.markListed (criticalLabels parameters)) =
      stored := by
  rw [List.map_map]
  refine (List.map_congr_left fun parameter hmem ↦ ?_).trans stored.map_id
  obtain ⟨hparameter, rfl⟩ := hstored parameter hmem
  exact markListed_received hlabelled hparameter

/-- Once both buckets are read, the labels that were met as critical are those of the critical
parameters. -/
theorem critical?_of_buckets (first : BucketNode readers (protectedEntries parameters))
    (second : BucketNode readers (unprotectedEntries parameters)) {state : HeaderState}
    (hstate : state = second.arranged.foldl (HeaderState.add false)
      (first.arranged.foldl (HeaderState.add true) ⟨[], none⟩)) :
    state.critical? = none ∧ criticalLabels parameters = [] ∨
      state.critical? = some ⟨criticalLabels parameters, false⟩ := by
  -- The list is an entry of the protected bucket, if there are any labels.
  have hkept : state.critical? =
      (first.arranged.foldl (HeaderState.add true) ⟨[], none⟩).critical? := by
    rcases @HeaderState.critical?_foldl_add false
      (first.arranged.foldl (HeaderState.add true) ⟨[], none⟩) second.arranged with
      ⟨labels, hmem, _⟩ | ⟨_, hkept⟩
    · obtain ⟨_, _, _, hentry⟩ := mem_unprotectedEntries (second.perm.mem_iff.1 hmem)
      cases hentry
    · rw [hstate, hkept]
  rw [hkept]
  rcases HeaderState.critical?_foldl_add first.arranged with ⟨labels, hmem, hmet⟩ | ⟨hnone, hmet⟩
  · right
    rcases mem_protectedEntries (first.perm.mem_iff.1 hmem) with ⟨_, _, _, hentry⟩ | ⟨_, hentry⟩
    · cases hentry
    · rw [hmet, HeaderEntry.critical.inj hentry]
  · refine .inl ⟨hmet, ?_⟩
    rcases criticalEntries_cases parameters with ⟨hempty, _⟩ | ⟨_, hsome⟩
    · exact hempty
    · have hmem : .critical (criticalLabels parameters) ∈ protectedEntries parameters := by
        rw [protectedEntries, hsome]
        exact List.mem_append_right _ (.head _)
      exact absurd (first.perm.mem_iff.2 hmem) (hnone _)

/-- Once both buckets are read, marking the critical labels restores the parameters. -/
theorem map_markListed_of_buckets (hlabelled : WellLabelled parameters)
    (first : BucketNode readers (protectedEntries parameters))
    (second : BucketNode readers (unprotectedEntries parameters)) {state : HeaderState}
    (hstate : state = second.arranged.foldl (HeaderState.add false)
      (first.arranged.foldl (HeaderState.add true) ⟨[], none⟩)) :
    state.parameters.map (·.markListed (criticalLabels parameters)) =
      first.stored ++ second.stored := by
  have hfirst : ∀ parameter ∈ first.stored,
      parameter ∈ parameters ∧ parameter.isProtected = true := fun parameter hmem ↦
    List.mem_filter.1 (first.perm_protected.mem_iff.1 hmem)
  have hsecond : ∀ parameter ∈ second.stored,
      parameter ∈ parameters ∧ parameter.isProtected = false := fun parameter hmem ↦ by
    simpa using List.mem_filter.1 (second.perm_unprotected.mem_iff.1 hmem)
  have hparameters : state.parameters =
      first.stored.map (·.received true) ++ second.stored.map (·.received false) := by
    rw [hstate, HeaderState.parameters_foldl_add, HeaderState.parameters_foldl_add,
      List.nil_append]
    rfl
  rw [hparameters, List.map_append, map_markListed_received hlabelled hfirst,
    map_markListed_received hlabelled hsecond]

/-- Once both buckets are read, the critical labels are all found, and the parameters are those that
were written. -/
theorem mark_of_buckets (hlabelled : WellLabelled parameters)
    (first : BucketNode readers (protectedEntries parameters))
    (second : BucketNode readers (unprotectedEntries parameters)) {state : HeaderState}
    (hstate : state = second.arranged.foldl (HeaderState.add false)
      (first.arranged.foldl (HeaderState.add true) ⟨[], none⟩)) :
    state.critical? = none ∧ state.parameters = first.stored ++ second.stored ∨
      ∃ critical, state.critical? = some critical ∧
        critical.mark state.parameters = .ok (first.stored ++ second.stored) := by
  have hrestored := map_markListed_of_buckets hlabelled first second hstate
  rcases critical?_of_buckets first second hstate with ⟨hnone, hunlisted⟩ | hsome
  · have hunmarked : state.parameters.map (·.markListed []) = state.parameters :=
      (List.map_congr_left fun parameter _ ↦ if_neg List.not_mem_nil).trans state.parameters.map_id
    rw [hunlisted, hunmarked] at hrestored
    exact .inl ⟨hnone, hrestored⟩
  · have hlabels := Parameter.map_label_markListed (criticalLabels parameters) state.parameters
    have hperm := (perm_stored first second).map (·.label)
    rw [hrestored] at hlabels
    have hnodup : (state.parameters.map (·.label)).Nodup := by
      rw [← hlabels]
      exact hperm.nodup_iff.2 hlabelled.labels_nodup
    have hfound : ∀ label ∈ criticalLabels parameters, label ∈ state.parameters.map (·.label) := by
      intro label hlabel
      rw [← hlabels, hperm.mem_iff]
      exact (List.filter_sublist.map _).subset hlabel
    exact .inr ⟨_, hsome,
      (CriticalLabels.mark_eq_ok_iff hnodup).2 ⟨rfl, hfound, hrestored.symm⟩⟩

/-! ### Reading both buckets -/

theorem expectBytes_eq_ok {item : Item} {content : Bytes} (hvalue : item.value = .bytes content)
    (htags : item.tags = []) : expectBytes item = .ok content := by
  rw [expectBytes, expectUntagged, if_pos htags, hvalue]
  rfl

/-- The protected bucket is read from the content of its byte string. -/
theorem run_within_protected (hlabelled : WellLabelled parameters)
    (hcapacity : parameters.length ≤ capacity)
    (bucketNode : BucketNode readers (protectedEntries parameters))
    (hnode : bucketNode.node.WellFormed 0) (decoder : Decoder) :
    (Reading.within bucketNode.node.encoded (do
        let state ← readBucket readers capacity true ⟨[], none⟩
        Reading.finish
        return state)).run decoder =
      .ok (bucketNode.arranged.foldl (HeaderState.add true) ⟨[], none⟩) decoder := by
  obtain ⟨item, middle, hnext, hvalue, htags, hlevel, hfaces⟩ :=
    next_top (opensLevel_definite true bucketNode.count) hnode
  have hdepth : item.level = ([] : List Level).length := hlevel
  obtain ⟨after, hrun, hafter⟩ := readBucket_of_next bucketNode
    (admits_protectedEntries hlabelled hcapacity) hnext hvalue htags hdepth hfaces
  obtain ⟨last, hlast⟩ := finish_of_reaches hafter
  exact Reading.run_within
    (Reading.run_bind hrun (Reading.run_bind (Reading.run_finish hlast) rfl)) decoder

/-- Headers are read from the byte string of the first bucket and the map of the second. -/
theorem readHeaders_of_next (hlabelled : WellLabelled parameters)
    (hcapacity : parameters.length ≤ capacity)
    (first : BucketNode readers (protectedEntries parameters)) (hfirst : first.node.WellFormed 0)
    (second : BucketNode readers (unprotectedEntries parameters)) {decoder middle inside : Decoder}
    {item map : Item} (hnext : Decoder.next decoder = .ok item middle)
    (hitem : item.value = .bytes first.node.encoded) (htags : item.tags = [])
    (hmap : Decoder.next middle = .ok map inside)
    (hvalue : map.value = .map (some second.count.number)) (hplain : map.tags = [])
    {outer : List Level} (hlevel : map.level = outer.length) {rest : Bytes}
    (hinside : inside.Faces outer second.members rest) :
    ∃ after, (readHeaders readers capacity).run decoder =
        .ok ⟨first.node.encoded, first.stored ++ second.stored⟩ after ∧
      after.Reaches rest outer := by
  have hbytes := expectBytes_eq_ok hitem htags
  have hnonempty : ¬first.node.encoded.isEmpty = true := by
    rw [List.isEmpty_iff_length_eq_zero]
    exact Nat.ne_of_gt first.node.length_encoded_pos
  have hprotected := run_within_protected hlabelled hcapacity first hfirst middle
  obtain ⟨after, hrun, hafter⟩ := readBucket_of_next second
    (admits_unprotectedEntries hlabelled hcapacity first.perm) hmap hvalue hplain hlevel hinside
  -- Critical labels are looked up only here, when the parameters of both buckets are known.
  obtain ⟨state, hstate⟩ : ∃ state, state = second.arranged.foldl (HeaderState.add false)
    (first.arranged.foldl (HeaderState.add true) ⟨[], none⟩) := ⟨_, rfl⟩
  rw [← hstate] at hrun
  refine ⟨after, ?_, hafter⟩
  refine Reading.run_bind (Reading.run_next hnext) ?_
  refine Reading.run_bind (Reading.run_ofExcept hbytes middle) ?_
  rw [if_neg hnonempty]
  refine Reading.run_bind hprotected (Reading.run_bind hrun ?_)
  rcases mark_of_buckets hlabelled first second hstate with
    ⟨hcritical, hstored⟩ | ⟨critical, hcritical, hmarked⟩
  · rw [hcritical, hstored]
    rfl
  · rw [hcritical]
    exact Reading.run_bind (Reading.run_ofExcept hmarked after) rfl

/-- The headers of a message are read, and the protected bytes are the content of the byte string
that was written. -/
theorem readHeaders_of_faces (hlabelled : WellLabelled parameters)
    (hcapacity : parameters.length ≤ capacity)
    (first : BucketNode readers (protectedEntries parameters)) (hfirst : first.node.WellFormed 0)
    (second : BucketNode readers (unprotectedEntries parameters)) {length : Argument}
    (hlength : length.number.toNat = first.node.encoded.length) {decoder : Decoder}
    {outer : List Level} {nodes : List Node} {rest : Bytes}
    (hfaces : decoder.Faces outer
      (leaf (.bytes length first.node.encoded hlength) :: second.node :: nodes) rest) :
    ∃ after, (readHeaders readers capacity).run decoder =
        .ok ⟨first.node.encoded, first.stored ++ second.stored⟩ after ∧
      after.Faces outer nodes rest := by
  obtain ⟨item, middle, hnext, hitem, htags, hmiddle⟩ := hfaces.next_leaf
  obtain ⟨map, inside, inner, more, hmap, hvalue, hplain, hlevel, hinside, hothers⟩ :=
    hmiddle.next_container (opensLevel_definite true second.count)
  obtain ⟨after, hrun, hafter⟩ := readHeaders_of_next hlabelled hcapacity first hfirst second
    hnext hitem htags hmap hvalue hplain hlevel hinside
  exact ⟨after, hrun, hothers after hafter⟩

/-- Headers that are the whole input are read to its end. -/
theorem readHeaders_of_nodes (hlabelled : WellLabelled parameters)
    (hcapacity : parameters.length ≤ capacity)
    (first : BucketNode readers (protectedEntries parameters)) (hfirst : first.node.WellFormed 0)
    (second : BucketNode readers (unprotectedEntries parameters))
    (hsecond : second.node.WellFormed 0) {length : Argument}
    (hlength : length.number.toNat = first.node.encoded.length) :
    ∃ after last, (readHeaders readers capacity).run (ofBytes
        ((leaf (.bytes length first.node.encoded hlength)).encoded ++ second.node.encoded)) =
        .ok ⟨first.node.encoded, first.stored ++ second.stored⟩ after ∧
      Decoder.finish after = .ok () last := by
  let atom : Leaf := .bytes length first.node.encoded hlength
  let start : Decoder := ofBytes ((leaf atom).encoded ++ second.node.encoded)
  have hnext := next_of_node (.refl start) (ready_top _ 0) (wellFormed_leaf start.depth atom) rfl
  obtain ⟨position, hsettles⟩ := reaches_inside_leaf start [] atom second.node.encoded
  have hrest : second.node.encoded = second.node.encoded ++ [] := (List.append_nil _).symm
  have hmap := next_of_node hsettles (ready_top _ position) hsecond hrest
  let behind : Decoder := ⟨second.node.encoded, position, []⟩
  have hbehind : (Node.mk [] (.definite true second.count) second.members).WellFormed
      behind.depth := hsecond
  have hfaces := faces_inside (opensLevel_definite true second.count) hbehind []
  obtain ⟨after, hrun, hafter⟩ := readHeaders_of_next hlabelled hcapacity first hfirst second
    hnext rfl rfl hmap rfl rfl rfl hfaces
  obtain ⟨last, hlast⟩ := finish_of_reaches hafter
  exact ⟨after, last, hrun, hlast⟩

end Buckets

end Cose
