import Mathlib.Data.List.Nodup
import Cose.Proofs.Cbor.Encoder.Refinement

/-!
# Equal labels in a map

Where maps are put in order, a map is refused for equal labels exactly if two of its labels have the
same bytes, whatever its values are and wherever in a session it stands
(`Encoder.error_closeMap_opened_iff`). Nothing else that goes wrong when a map is closed is reported
so.
-/

set_option autoImplicit false
set_option relaxedAutoImplicit false

namespace Cose.Cbor

open Encoder

/-! ### Entries as members -/

namespace Outline

/-- The members of a map with some entries: each label with its value behind it. -/
def ofEntries (entries : List (Outline × Outline)) : List Outline :=
  entries.flatMap fun entry ↦ [entry.1, entry.2]

/-- The bytes of the labels of some entries. -/
def encodedLabels (rules : Rules) (entries : List (Outline × Outline)) : List Bytes :=
  (entries.map Prod.fst).map (encoded rules)

theorem encodedEach_ofEntries (rules : Rules) (entries : List (Outline × Outline)) :
    encodedEach rules (ofEntries entries) =
      unpaired (entries.map fun entry ↦ ⟨entry.1.encoded rules, entry.2.encoded rules⟩) := by
  induction entries with
  | nil => rfl
  | cons entry rest ih =>
    change entry.1.encoded rules :: entry.2.encoded rules :: encodedEach rules (ofEntries rest) = _
    rw [ih]
    rfl

theorem length_encodedEach_ofEntries (rules : Rules) (entries : List (Outline × Outline)) :
    (encodedEach rules (ofEntries entries)).length % 2 = 0 := by
  rw [encodedEach_ofEntries, length_unpaired, Nat.mul_mod_right]

theorem distinct_ofEntries_iff (rules : Rules) (entries : List (Outline × Outline)) :
    Entry.Distinct (pairs (encodedEach rules (ofEntries entries))) ↔
      (encodedLabels rules entries).Nodup := by
  rw [encodedEach_ofEntries, pairs_unpaired, Entry.Distinct, List.map_map, encodedLabels,
    List.map_map]
  exact Iff.rfl

end Outline

/-! ### Closing a map -/

section Closing

variable {rules : Rules} {base : Bytes} {members : List Bytes} {frames : List Frame}

/-- Bytes are refused for the length of the encoding only. -/
theorem error_insert_live {front back data : Bytes} {tagPending : Bool} {cause : EncodeError}
    (herror : ((live rules (front ++ back) frames tagPending).insert front.length data).error =
      some cause) : cause = .bufferTooLarge := by
  have hrefusal := refusal?_live rules (front ++ back) frames tagPending data.length
  simp only [Encoder.insert, proceed_live, hrefusal] at herror
  split at herror
  next refused hrefused =>
    split at hrefused <;> cases hrefused
    cases herror
    rfl
  next => cases herror

/-- A map is refused for equal labels if and only if there are some. -/
theorem error_closeMap_around_iff (hsort : rules.sortMaps = true)
    (hwhole : members.length % 2 = 0) (hmembers : ∀ bytes ∈ members, IsNode 0 bytes) :
    (around rules base .map members frames).closeMap.error = some .duplicateLabel ↔
      ¬Entry.Distinct (pairs members) := by
  by_cases hdistinct : Entry.Distinct (pairs members)
  · rw [closeMap_around hwhole, if_pos hsort,
      sortMap_live (sortEntries_flatten hwhole hmembers hdistinct), Option.elim_none]
    refine iff_of_false (fun herror ↦ ?_) (not_not_intro hdistinct)
    cases error_insert_live herror
  · obtain ⟨reached, hclose⟩ := closeMap_around_of_not_distinct hsort hwhole hmembers hdistinct
    rw [hclose]
    exact iff_of_true rfl hdistinct

end Closing

/-! ### Maps in sessions -/

namespace Encoder

variable {rules : Rules}

/-- A session in which an item was opened and some members of it were written. -/
def opened (rules : Rules) (before : List Operation) (kind : Container)
    (members : List Outline) : Encoder :=
  (growable rules).perform (before ++ .opening kind :: Outline.operationsAll members)

/-- A session in which an item was opened and that has not failed holds a draft with the item open.
-/
theorem exists_opened_eq_session {before : List Operation} {kind : Container}
    {members : List Outline} (hlive : (opened rules before kind members).error = none) :
    ∃ outer tags,
      opened rules before kind members =
        (Draft.mk (.opened outer tags kind members) []).session rules ∧
      (Draft.mk (.opened outer tags kind members) []).Sound rules := by
  have hstart := Draft.sound_start rules
  rw [opened, ← Draft.session_start] at hlive ⊢
  obtain ⟨last, hrun⟩ := Draft.exists_run hstart fun hfailed ↦ hfailed hlive
  obtain ⟨middle, hbefore, hrest⟩ := hrun.split
  obtain ⟨outer, tags⟩ := middle
  cases hrest with
  | step hstep _ hmembers =>
    cases hstep
    obtain rfl : last = ⟨.opened outer tags kind members, []⟩ :=
      Draft.eq_append_of_run members hmembers
    exact ⟨outer, tags, Draft.perform_of_run hrun hstart, Draft.sound_of_run hrun hstart⟩

/-- A map in a session is refused for equal labels if and only if two labels have the same bytes. -/
theorem error_closeMap_opened_iff (hsort : rules.sortMaps = true) {before : List Operation}
    {entries : List (Outline × Outline)}
    (hlive : (opened rules before .map (Outline.ofEntries entries)).error = none) :
    (opened rules before .map (Outline.ofEntries entries)).closeMap.error = some .duplicateLabel ↔
      ¬(Outline.encodedLabels rules entries).Nodup := by
  obtain ⟨outer, tags, hsession, hsound⟩ := exists_opened_eq_session hlive
  rw [hsession, Draft.session_opened, error_closeMap_around_iff hsort
    (Outline.length_encodedEach_ofEntries rules entries) (Draft.isNode_of_opened hsound),
    Outline.distinct_ofEntries_iff]

end Encoder

end Cose.Cbor
