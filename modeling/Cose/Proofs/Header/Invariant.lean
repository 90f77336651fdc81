import Cose.Proofs.Cbor.Uniqueness
import Cose.Proofs.Header.Distinct

/-!
# What headers that were read obey

Parameters are stored in the order of their entries, the protected ones first, each with a label of
its own and no more of them than there is room for. Only the protected map may have an entry with a
list of critical labels, and only one; the parameters that it lists, all of which were stored, are
the critical ones (`DecodedHeaders.Obeys`). What a single entry does is known, so all of this is
carried along a bucket from entry to entry.

Since bytes hold one pair of header maps at most (`HeadersAhead.unique`), headers whose entries
break one of these rules are not read at all (`obeys_of_readHeaders`).
-/

set_option autoImplicit false
set_option relaxedAutoImplicit false

namespace Cose

open Cbor Node Decoder

variable {readers : List (Int64 × ParameterReader)} {capacity : Nat} {isProtected : Bool}

/-! ### Bytes hold one pair of header maps -/

namespace Cbor.Decoder

/-- Where a cursor gets by leaving finished containers does not depend on its position. -/
theorem leave_of_position {rest : Bytes} {position : Nat} {levels : List Level} {start : Decoder}
    (hleave : leave 0 rest position levels = .ok () start) (other : Nat) :
    ∃ place, leave 0 rest other levels = .ok () ⟨start.rest, place, start.levels⟩ := by
  fun_induction leave 0 rest position levels generalizing other with
  | case3 position level outer _ rest hpending ih =>
    obtain ⟨place, hplace⟩ := ih hleave other
    exact ⟨place, by simpa [leave, hpending] using hplace⟩
  | case6 => cases hleave
  | case7 position level outer _ after hpending heven ih =>
    obtain ⟨place, hplace⟩ := ih hleave (other + 1)
    exact ⟨place, by simpa [leave, hpending, heven] using hplace⟩
  | _ =>
    cases hleave
    exact ⟨other, by simp [leave, *]⟩

/-- Whether two cursors, wherever they are, have the same bytes ahead and the same containers
open. -/
def SameAhead (first second : Decoder) : Prop :=
  ∃ rest levels position other, first.Agrees ⟨rest, position, levels⟩ ∧
    second.Agrees ⟨rest, other, levels⟩

theorem SameAhead.refl (decoder : Decoder) : decoder.SameAhead decoder :=
  ⟨decoder.rest, decoder.levels, decoder.position, decoder.position, .refl _, .refl _⟩

/-- One node is ahead of a cursor at most. -/
theorem Spans.unique {before other after last : Decoder} {node counterpart : Node}
    (hsame : before.SameAhead other) (hspans : before.Spans node after)
    (hother : other.Spans counterpart last) : node = counterpart ∧ after.SameAhead last := by
  obtain ⟨rest, levels, position, place, hbefore, hplace⟩ := hsame
  obtain ⟨start, behind, ending, hstart, hnode, hrest, hafter⟩ := hspans
  obtain ⟨second, beyond, finish, hsecond, hcounterpart, hbytes, hlast⟩ := hother
  rw [hbefore.ascendTo_eq] at hstart
  rw [hplace.ascendTo_eq] at hsecond
  obtain ⟨reached, hreached⟩ := leave_of_position hstart place
  change leave 0 rest place levels = .ok () second at hsecond
  rw [hsecond] at hreached
  cases hreached
  obtain ⟨rfl, rfl⟩ := Node.encoded_append_inj hnode.regular hcounterpart.regular
    (hrest.symm.trans hbytes)
  exact ⟨rfl, behind, _, ending, finish, hafter, hlast⟩

/-- A node that is ahead of one cursor is ahead of the other, too. -/
theorem SameAhead.exists_spans {before other after : Decoder} {node : Node}
    (hsame : before.SameAhead other) (hspans : before.Spans node after) :
    ∃ last, other.Spans node last := by
  obtain ⟨rest, levels, position, place, hbefore, hplace⟩ := hsame
  obtain ⟨start, behind, ending, hstart, hnode, hrest, _⟩ := hspans
  rw [hbefore.ascendTo_eq] at hstart
  obtain ⟨reached, hreached⟩ := leave_of_position hstart place
  exact ⟨⟨behind, ending, countedLevels start.levels⟩, ⟨start.rest, reached, start.levels⟩, behind,
    ending, hplace.ascendTo_eq.trans hreached, hnode, hrest, .refl _⟩

end Cbor.Decoder

theorem entryMembers_injective : Function.Injective entryMembers := by
  intro first second hsame
  induction first generalizing second with
  | nil =>
    cases second with
    | nil => rfl
    | cons entry rest => cases hsame
  | cons entry rest ih =>
    cases second with
    | nil => cases hsame
    | cons other others =>
      obtain ⟨label, value⟩ := entry
      obtain ⟨counterpart, content⟩ := other
      simp only [entryMembers, List.flatMap_cons, List.cons_append, List.nil_append,
        List.cons.injEq] at hsame
      obtain ⟨rfl, rfl, hrest⟩ := hsame
      rw [ih hrest]

theorem Cbor.Node.IsMapOf.unique {node : Node} {first second : List (Node × Node)}
    (hfirst : node.IsMapOf first) (hsecond : node.IsMapOf second) : first = second := by
  obtain ⟨token, rfl, _⟩ := hfirst
  obtain ⟨other, hsame, _⟩ := hsecond
  exact entryMembers_injective (Node.mk.inj hsame).2.2

/-- The entries of both header maps are told by the bytes. -/
theorem HeadersAhead.unique {before after last : Decoder} {content other : Bytes}
    {first second left right : List (Node × Node)}
    (hahead : HeadersAhead before content first second after)
    (hother : HeadersAhead before other left right last) :
    content = other ∧ first = left ∧ second = right := by
  obtain ⟨wrapper, middle, bucket, hwrapper, hvalue, hcontent, hbucket, hbehind⟩ := hahead
  obtain ⟨_, _, _, hcounterpart, hotherValue, hotherContent, hotherBucket, hotherBehind⟩ := hother
  obtain ⟨rfl, hmiddle⟩ := hwrapper.unique (.refl before) hcounterpart
  obtain ⟨rfl, _⟩ := hbehind.unique hmiddle hotherBehind
  rw [hvalue] at hotherValue
  obtain rfl : content = other := ItemValue.bytes.inj hotherValue
  refine ⟨rfl, ?_, hbucket.unique hotherBucket⟩
  rcases hcontent with ⟨hempty, rfl⟩ | ⟨node, hmap, hnode, hbytes⟩
  · rcases hotherContent with ⟨_, rfl⟩ | ⟨node, _, _, hbytes⟩
    · rfl
    · obtain ⟨_, _, hencoded, _⟩ := node.exists_cons_encoded
      rw [hempty, hencoded] at hbytes
      cases hbytes
  · rcases hotherContent with ⟨hempty, _⟩ | ⟨counterpart, hotherMap, hother, hotherBytes⟩
    · obtain ⟨_, _, hencoded, _⟩ := node.exists_cons_encoded
      rw [hempty, hencoded] at hbytes
      cases hbytes
    · obtain rfl := Node.encoded_inj hnode.regular hother.regular (hbytes.symm.trans hotherBytes)
      exact hmap.unique hotherMap

/-! ### Entries with the list of critical labels -/

/-- The entries with the label of the list of critical labels. -/
def criticalListEntries (entries : List (Node × Node)) : List (Node × Node) :=
  entries.filter fun entry ↦ entry.1.integer? == some HeaderLabel.crit.code

theorem criticalListEntries_cons_of_eq {entry : Node × Node}
    (hlabel : entry.1.integer? = some HeaderLabel.crit.code) (entries : List (Node × Node)) :
    criticalListEntries (entry :: entries) = entry :: criticalListEntries entries :=
  List.filter_cons_of_pos (by rw [hlabel, beq_self_eq_true])

theorem criticalListEntries_cons_of_ne {entry : Node × Node}
    (hlabel : entry.1.integer? ≠ some HeaderLabel.crit.code) (entries : List (Node × Node)) :
    criticalListEntries (entry :: entries) = criticalListEntries entries :=
  List.filter_cons_of_neg (by rwa [beq_iff_eq])

/-- An entry that is passed over does not have the list of critical labels. -/
theorem integer?_ne_crit_of_passedOver {entry : Node × Node}
    (hpassed : keptLabel? readers entry = none) :
    entry.1.integer? ≠ some HeaderLabel.crit.code := by
  intro hlabel
  obtain ⟨label, value⟩ := entry
  rw [keptLabel?_of_integer hlabel, beq_self_eq_true, Bool.true_or] at hpassed
  cases hpassed

theorem Cbor.Node.integer?_of_isText {node : Node} (htext : node.isText = true) :
    node.integer? = none := by
  unfold isText at htext
  split at htext
  next content hvalue =>
    rw [integer?, Item.toInt64, hvalue]
    rfl
  · cases htext

/-- Whether a node is an array without tags of given integers, whatever the tags of these. -/
def Cbor.Node.ListsLabels (node : Node) (labels : List Int64) : Prop :=
  ∃ token members, node = .mk [] token members ∧ (∃ count?, token.value = .array count?) ∧
    members.map integer? = labels.map some

/-- A list of critical labels without text strings is one of integers. -/
theorem Cbor.Node.IsListOf.listsLabels {node : Node} {critical : CriticalLabels}
    (hlist : node.IsListOf critical) (htext : critical.hasText = false) :
    node.ListsLabels critical.labels ∧ critical.labels ≠ [] ∧
      critical.labels.length ≤ maxCriticalParameters ∧ critical.labels.Nodup := by
  obtain ⟨token, members, hnode, harray, hnonempty, hlists⟩ := hlist
  have hany : members.any isText = false := by
    rw [← htext, hlists.hasText_eq]
    rfl
  have hintegers : members.map integer? = critical.labels.map some := by
    rw [hlists.labels_eq, List.nil_append, List.map_filterMap]
    have hsome : ∀ member ∈ members, (member.integer?.map some) = some member.integer? := by
      intro member hmem
      have hother := List.any_eq_false.1 hany member hmem
      obtain ⟨label, hlabel⟩ := Option.isSome_iff_exists.1
        (hlists.isSome member hmem (Bool.eq_false_iff.2 hother))
      rw [hlabel]
      rfl
    rw [List.filterMap_congr hsome, List.filterMap_eq_map']
  refine ⟨⟨token, members, hnode, harray, hintegers⟩, ?_, hlists.length_le (Nat.zero_le _),
    hlists.nodup List.nodup_nil⟩
  intro hempty
  rw [hempty, List.map_nil] at hintegers
  exact hnonempty (List.map_eq_nil_iff.1 hintegers)

theorem filterMap_integer?_of_map {members : List Node} {labels : List Int64}
    (hintegers : members.map integer? = labels.map some) : members.filterMap integer? = labels := by
  have hself := congrArg (List.filterMap id) hintegers
  simpa [List.filterMap_map] using hself

/-! ### From entry to entry -/

namespace HeaderState

/-- One entry lets what was read before it grow. -/
theorem Takes.grows {state visited : HeaderState} {entry : Node × Node}
    (htakes : state.Takes readers capacity isProtected entry visited) :
    state.Grows isProtected visited := by
  cases htakes with
  | critical _ hprotected =>
    refine .of_parameters_eq rfl fun hunprotected ↦ ?_
    rw [hprotected] at hunprotected
    cases hunprotected
  | stored _ _ _ hnew _ => exact grows_append _ hnew
  | passedOver => exact .refl state

/-- One entry is stored only where there is room. -/
theorem Takes.length_le {state visited : HeaderState} {entry : Node × Node}
    (htakes : state.Takes readers capacity isProtected entry visited)
    (hlength : state.parameters.length ≤ capacity) : visited.parameters.length ≤ capacity := by
  cases htakes with
  | critical => exact hlength
  | stored _ _ _ _ hroom => rwa [List.length_append]
  | passedOver => exact hlength

theorem TakesAll.grows {state final : HeaderState} {entries : List (Node × Node)}
    (htakes : state.TakesAll readers capacity isProtected entries final) :
    state.Grows isProtected final := by
  induction htakes with
  | nil state => exact .refl state
  | cons hfirst _ ih => exact hfirst.grows.trans ih

theorem TakesAll.length_le {state final : HeaderState} {entries : List (Node × Node)}
    (htakes : state.TakesAll readers capacity isProtected entries final)
    (hlength : state.parameters.length ≤ capacity) : final.parameters.length ≤ capacity := by
  induction htakes with
  | nil => exact hlength
  | cons hfirst _ ih => exact ih (hfirst.length_le hlength)

/-- A bucket has the list of critical labels in one entry at most, and only if it is protected and
no list was met before. -/
theorem TakesAll.critical?_cases {state final : HeaderState} {entries : List (Node × Node)}
    (htakes : state.TakesAll readers capacity isProtected entries final) :
    criticalListEntries entries = [] ∧ final.critical? = state.critical? ∨
      isProtected = true ∧ state.critical? = none ∧ ∃ label value critical,
        criticalListEntries entries = [(label, value)] ∧ value.IsListOf critical ∧
        final.critical? = some critical := by
  induction htakes with
  | nil state => exact .inl ⟨rfl, rfl⟩
  | cons hfirst _ ih =>
    cases hfirst with
    | critical hlabel hprotected hnone hlist =>
      rw [criticalListEntries_cons_of_eq hlabel]
      rcases ih with ⟨hothers, hfinal⟩ | ⟨_, hmet, _⟩
      · rw [hothers]
        exact .inr ⟨hprotected, hnone, _, _, _, rfl, hlist, hfinal⟩
      · cases hmet
    | stored hlabel hother =>
      rwa [criticalListEntries_cons_of_ne (by rwa [hlabel, Ne, Option.some.injEq])]
    | passedOver hpassed =>
      rwa [criticalListEntries_cons_of_ne (integer?_ne_crit_of_passedOver hpassed)]

end HeaderState

/-! ### Both buckets -/

/-- The labels that parameters are stored for. -/
def storedLabels (readers : List (Int64 × ParameterReader)) (entries : List (Node × Node)) :
    List Int64 :=
  (entries.filterMap (keptLabel? readers)).filter (· ≠ HeaderLabel.crit.code)

/-- What headers obey that were read from a protected and an unprotected map with given entries. -/
structure DecodedHeaders.Obeys (headers : DecodedHeaders)
    (readers : List (Int64 × ParameterReader)) (capacity : Nat)
    (first second : List (Node × Node)) : Prop where
  length_le : headers.parameters.length ≤ capacity
  labels_nodup : (headers.parameters.map (·.label)).Nodup
  label_ne_crit : ∀ parameter ∈ headers.parameters, parameter.label ≠ HeaderLabel.crit.code
  labels_eq : headers.parameters.map (·.label) = storedLabels readers (first ++ second)
  /-- No parameter that is not protected stands before a protected one. -/
  protected_first : headers.parameters.Pairwise fun earlier later ↦
    later.isProtected = true → earlier.isProtected = true
  /-- Without a list of critical labels no parameter is critical, and otherwise the critical ones
  are those with a listed label. -/
  critical : criticalListEntries first = [] ∧
      (∀ parameter ∈ headers.parameters, parameter.isCritical = false) ∨
    ∃ label value labels, criticalListEntries first = [(label, value)] ∧
      value.ListsLabels labels ∧ labels ≠ [] ∧ labels.length ≤ maxCriticalParameters ∧
      labels.Nodup ∧ (∀ listed ∈ labels, listed ∈ headers.parameters.map (·.label)) ∧
      ∀ parameter ∈ headers.parameters, parameter.isCritical = true ↔ parameter.label ∈ labels
  no_unprotected_list : criticalListEntries second = []

/-- What is wrong with a list of critical labels, given the labels that parameters are stored
for. -/
inductive Cbor.Node.BadList (stored : List Int64) : Node → Prop where
  | empty {tags : List Argument} {token : Token} : BadList stored (.mk tags token [])
  | textLabel {tags : List Argument} {token : Token} {members : List Node} {member : Node}
      (hmem : member ∈ members) (htext : member.isText = true) :
      BadList stored (.mk tags token members)
  | repeatedLabel {tags : List Argument} {token : Token} {members : List Node}
      (hrepeated : ¬(members.filterMap integer?).Nodup) : BadList stored (.mk tags token members)
  | tooMany {tags : List Argument} {token : Token} {members : List Node}
      (hlength : maxCriticalParameters < members.length) : BadList stored (.mk tags token members)
  | notStored {tags : List Argument} {token : Token} {members : List Node} {label : Int64}
      (hmem : label ∈ members.filterMap integer?) (hmissing : label ∉ stored) :
      BadList stored (.mk tags token members)

/-- What is wrong with the lists of critical labels in a protected and an unprotected map. -/
inductive HeaderDefect (readers : List (Int64 × ParameterReader))
    (first second : List (Node × Node)) : Prop where
  | repeatedList (hlength : 2 ≤ (criticalListEntries first).length)
  | unprotectedList (hsome : criticalListEntries second ≠ [])
  | badList {label value : Node} (hmem : (label, value) ∈ criticalListEntries first)
      (hbad : value.BadList (storedLabels readers (first ++ second)))

/-- No list of critical labels that is obeyed is a bad one. -/
theorem DecodedHeaders.Obeys.not_defect {headers : DecodedHeaders}
    {first second : List (Node × Node)}
    (hobeys : headers.Obeys readers capacity first second) :
    ¬HeaderDefect readers first second := by
  intro hdefect
  cases hdefect with
  | repeatedList hlength =>
    rcases hobeys.critical with ⟨hnone, _⟩ | ⟨_, _, _, hone, _⟩
    · rw [hnone] at hlength
      exact absurd hlength (by decide)
    · rw [hone] at hlength
      exact Nat.not_succ_le_self 1 hlength
  | unprotectedList hsome => exact hsome hobeys.no_unprotected_list
  | badList hmem hbad =>
    rcases hobeys.critical with ⟨hnone, _⟩ |
      ⟨_, _, labels, hone, ⟨token, members, rfl, _, hintegers⟩, hnonempty, hlength, hnodup,
        hstored, _⟩
    · rw [hnone] at hmem
      cases hmem
    · rw [hone] at hmem
      obtain ⟨rfl, rfl⟩ := Prod.mk.inj (List.mem_singleton.1 hmem)
      cases hbad with
      | empty => exact hnonempty (List.map_eq_nil_iff.1 hintegers.symm)
      | textLabel hmember htext =>
        have hinteger := List.mem_map_of_mem (f := integer?) hmember
        rw [hintegers, Cbor.Node.integer?_of_isText htext] at hinteger
        obtain ⟨_, _, hsome⟩ := List.mem_map.1 hinteger
        cases hsome
      | repeatedLabel hrepeated =>
        rw [filterMap_integer?_of_map hintegers] at hrepeated
        exact hrepeated hnodup
      | tooMany hlong =>
        have hsame := congrArg List.length hintegers
        rw [List.length_map, List.length_map] at hsame
        omega
      | notStored hlisted hmissing =>
        rw [filterMap_integer?_of_map hintegers] at hlisted
        rw [← hobeys.labels_eq] at hmissing
        exact hmissing (hstored _ hlisted)

/-- Protected parameters in front of others that are not protected. -/
theorem pairwise_protected_append {left right : List Parameter}
    (hleft : ∀ parameter ∈ left, parameter.isProtected = true)
    (hright : ∀ parameter ∈ right, parameter.isProtected = false) :
    (left ++ right).Pairwise fun earlier later ↦
      later.isProtected = true → earlier.isProtected = true := by
  refine List.pairwise_append.2 ⟨List.pairwise_iff_forall_sublist.2 fun {earlier _} hsub _ ↦ ?_,
    List.pairwise_iff_forall_sublist.2 fun {_ later} hsub hflag ↦ ?_,
    fun earlier hmem _ _ _ ↦ hleft earlier hmem⟩
  · exact hleft earlier (hsub.subset (.head _))
  · rw [hright later (hsub.subset (.tail _ (.head _)))] at hflag
    cases hflag

namespace HeaderState

variable {first second : List (Node × Node)} {state last : HeaderState}

/-- The parameters of both buckets, the protected ones first, none of them critical yet. -/
theorem TakesAll.exists_append (hfirst : TakesAll readers capacity true ⟨[], none⟩ first state)
    (hsecond : state.TakesAll readers capacity false second last) :
    ∃ stored added, last.parameters = stored ++ added ∧
      (∀ parameter ∈ stored, parameter.isProtected = true) ∧
      (∀ parameter ∈ added, parameter.isProtected = false) ∧
      ∀ parameter ∈ last.parameters, parameter.isCritical = false := by
  obtain ⟨stored, hstored, hstoredFlags⟩ := hfirst.grows.parameters_eq
  obtain ⟨added, hadded, haddedFlags⟩ := hsecond.grows.parameters_eq
  rw [hstored, List.nil_append] at hadded
  refine ⟨stored, added, hadded, fun _ hmem ↦ (hstoredFlags _ hmem).1,
    fun _ hmem ↦ (haddedFlags _ hmem).1, ?_⟩
  rw [hadded]
  exact List.forall_mem_append.2 ⟨fun _ hmem ↦ (hstoredFlags _ hmem).2,
    fun _ hmem ↦ (haddedFlags _ hmem).2⟩

/-- The list of critical labels is that of the protected bucket, and the unprotected one has
none. -/
theorem TakesAll.critical?_eq (hsecond : state.TakesAll readers capacity false second last) :
    criticalListEntries second = [] ∧ last.critical? = state.critical? := by
  rcases hsecond.critical?_cases with hnone | ⟨hflag, _⟩
  · exact hnone
  · cases hflag

/-- The labels of both buckets are kept. -/
theorem TakesAll.keeps_both (hfirst : TakesAll readers capacity true ⟨[], none⟩ first state)
    (hsecond : state.TakesAll readers capacity false second last) :
    Keeps ⟨[], none⟩ last ((first ++ second).filterMap (keptLabel? readers)) := by
  rw [List.filterMap_append]
  exact hfirst.keeps.trans hsecond.keeps

end HeaderState

/-- Headers whose entries were taken, with the critical ones marked, obey. -/
theorem obeys_of_takesAll {headers : DecodedHeaders} {first second : List (Node × Node)}
    {state last : HeaderState}
    (hfirst : HeaderState.TakesAll readers capacity true ⟨[], none⟩ first state)
    (hsecond : state.TakesAll readers capacity false second last)
    (hmarks : last.Marks headers.parameters) : headers.Obeys readers capacity first second := by
  have hkeeps := hfirst.keeps_both hsecond
  have htidy : last.Tidy := hkeeps.tidy ⟨List.nodup_nil, List.not_mem_nil⟩
  obtain ⟨hall, hmarked⟩ := hmarks.eq_map htidy.nodup
  have hlabels : headers.parameters.map (·.label) = last.parameters.map (·.label) := by
    rw [hmarked, Parameter.map_label_markListed]
  obtain ⟨stored, added, happend, hstored, hadded, hplain⟩ := hfirst.exists_append hsecond
  obtain ⟨hunlisted, hmet⟩ := hsecond.critical?_eq
  have hcritical : ∀ parameter ∈ headers.parameters,
      parameter.isCritical = true ↔ parameter.label ∈ last.listed := by
    rw [hmarked]
    intro parameter hmem
    obtain ⟨original, horiginal, rfl⟩ := List.mem_map.1 hmem
    rw [Parameter.label_markListed]
    exact Parameter.isCritical_markListed _ (hplain original horiginal)
  refine ⟨?_, hlabels ▸ htidy.nodup, ?_, hlabels.trans hkeeps.parameters_eq, ?_, ?_, hunlisted⟩
  · rw [hmarked, List.length_map]
    exact hsecond.length_le (hfirst.length_le (Nat.zero_le _))
  · intro parameter hmem hcrit
    have hlabel := List.mem_map_of_mem (f := (·.label)) hmem
    rw [hlabels, hcrit] at hlabel
    exact htidy.not_crit hlabel
  · rw [hmarked, List.pairwise_map, happend]
    simp only [Parameter.isProtected_markListed]
    exact pairwise_protected_append hstored hadded
  rcases hfirst.critical?_cases with ⟨hnone, hfound⟩ |
    ⟨_, _, label, value, critical, hone, hlist, hfound⟩
  · refine .inl ⟨hnone, fun parameter hmem ↦ Bool.eq_false_iff.2 fun hflag ↦ ?_⟩
    have hlisted := (hcritical parameter hmem).1 hflag
    rw [HeaderState.listed, hmet, hfound] at hlisted
    cases hlisted
  · have hlisted : last.listed = critical.labels := by
      rw [HeaderState.listed, hmet, hfound]
    rw [HeaderState.Marks, hmet, hfound] at hmarks
    obtain ⟨htext, _⟩ := (CriticalLabels.mark_eq_ok_iff htidy.nodup).1 hmarks
    obtain ⟨hvalue, hnonempty, hlength, hnodup⟩ := hlist.listsLabels htext
    rw [hlisted] at hall hcritical
    exact .inr ⟨label, value, critical.labels, hone, hvalue, hnonempty, hlength, hnodup,
      hlabels ▸ hall, hcritical⟩

/-- Headers that were read obey, for the entries of the two maps in the bytes, and where something
is wrong with the lists of critical labels in these, reading fails. -/
theorem obeys_of_readHeaders (hreaders : ∀ entry ∈ readers, entry.2.ConsumesValue)
    (before : Decoder) :
    (∀ headers after, (readHeaders readers capacity).run before = .ok headers after →
      ∃ first second, HeadersAhead before headers.protectedBytes first second after ∧
        headers.Obeys readers capacity first second) ∧
    ∀ content first second after, HeadersAhead before content first second after →
      HeaderDefect readers first second →
      ∃ cause reached, (readHeaders readers capacity).run before = .error cause reached := by
  have hobeys : ∀ headers after, (readHeaders readers capacity).run before = .ok headers after →
      ∃ first second, HeadersAhead before headers.protectedBytes first second after ∧
        headers.Obeys readers capacity first second := by
    intro headers after hrun
    obtain ⟨first, second, state, last, hahead, hfirst, hsecond, hmarks⟩ :=
      takesAll_of_readHeaders hreaders hrun
    exact ⟨first, second, hahead, obeys_of_takesAll hfirst hsecond hmarks⟩
  refine ⟨hobeys, fun content first second after hahead hdefect ↦ ?_⟩
  cases hrun : (readHeaders readers capacity).run before with
  | ok headers last =>
    obtain ⟨left, right, hother, hresult⟩ := hobeys headers last hrun
    obtain ⟨_, rfl, rfl⟩ := hahead.unique hother
    exact absurd hdefect hresult.not_defect
  | error cause reached => exact ⟨cause, reached, rfl⟩

/-- A list of critical labels in front of the parameter of one of them, the other one standing in
the unprotected map, and an empty list. -/
theorem obeys_of_readHeaders_listed :
    let readers : List (Int64 × ParameterReader) := [(99, ParameterReader.raw)]
    let content : Bytes := [0xa2, 0x02, 0x82, 0x01, 0x18, 0x63, 0x01, 0x07]
    let before := Decoder.ofBytes (0x48 :: content ++ [0xa1, 0x18, 0x63, 0x81, 0x01])
    let headers : DecodedHeaders :=
      ⟨content, [⟨1, true, true, .int 7⟩, ⟨99, false, true, .encoded [0x81, 0x01]⟩]⟩
    let after : Decoder := ⟨[], 14, [⟨.items 0, true, 2⟩]⟩
    let other := Decoder.ofBytes [0x43, 0xa1, 0x02, 0x80, 0xa0]
    let list : Node × Node :=
      (leaf (.unsigned (.shortest 2)), .mk [] (.counting false 0) [])
    (∀ entry ∈ readers, entry.2.ConsumesValue) ∧
      (readHeaders readers 2).run before = .ok headers after ∧
      (∃ first second, HeadersAhead before headers.protectedBytes first second after ∧
        headers.Obeys readers 2 first second) ∧
      HeadersAhead other [0xa1, 0x02, 0x80] [list] [] ⟨[], 5, []⟩ ∧
      HeaderDefect readers [list] [] ∧
      ∃ cause reached, (readHeaders readers 2).run other = .error cause reached := by
  intro readers content before headers after other list
  have hreaders : ∀ entry ∈ readers, entry.2.ConsumesValue := by
    intro entry hmem
    rw [List.mem_singleton.1 hmem]
    exact ParameterReader.raw_consumesValue
  have hrun : (readHeaders readers 2).run before = .ok headers after := by
    with_unfolding_all rfl
  have hempty : Node.WellFormed 1 (.mk [] (.counting false 0) []) :=
    ⟨Nat.zero_le _, fits_counting false (by decide) (Nat.zero_le _),
      holds_counting (Nat.zero_le _) rfl, trivial⟩
  have hmap : Node.WellFormed 0 (.mk [] (.counting true 1) [list.1, list.2]) :=
    ⟨Nat.zero_le _, fits_counting true (by decide) (by decide), holds_counting (by decide) rfl,
      wellFormed_leaf 1 _, hempty, trivial⟩
  have hahead : HeadersAhead other [0xa1, 0x02, 0x80] [list] [] ⟨[], 5, []⟩ := by
    refine ⟨leaf (.ofBytes [0xa1, 0x02, 0x80] (by decide)), ⟨[0xa0], 4, []⟩,
      .mk [] (.counting true 0) [], ?_, rfl, .inr ⟨_, ⟨_, rfl, _, rfl⟩, hmap, rfl⟩,
      ⟨_, rfl, _, rfl⟩, ?_⟩
    · exact ⟨other, _, 4, rfl, wellFormed_leaf 0 _, rfl, .refl _⟩
    · exact ⟨_, [], 5, rfl, ⟨Nat.zero_le _, fits_counting true (by decide) (Nat.zero_le _),
        holds_counting (Nat.zero_le _) rfl, trivial⟩, rfl, .refl _⟩
  have hdefect : HeaderDefect readers [list] [] := .badList (.head _) .empty
  exact ⟨hreaders, hrun, (obeys_of_readHeaders hreaders before).1 headers after hrun, hahead,
    hdefect, (obeys_of_readHeaders hreaders other).2 _ _ _ _ hahead hdefect⟩

end Cose
