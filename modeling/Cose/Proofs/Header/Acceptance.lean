import Mathlib.Data.List.Nodup
import Cose.Header.Decode
import Cose.Proofs.Cbor.Decoder.Retracing
import Cose.Proofs.Header.Marking

/-!
# Headers that were read

What can have happened when a reading of headers succeeded. `EntryRead` lists the four ways in which
one entry of a bucket is read, and `readHeaders_cases` takes a successful reading of both buckets
apart. `HeaderState.Grows` is what every entry, and so every bucket, does to what was read before
it: parameters are added behind the others, with new labels and none of them critical, and the list
of critical labels is met in the protected bucket only.
-/

set_option autoImplicit false
set_option relaxedAutoImplicit false

namespace Cose

open Cbor

variable {readers : List (Int64 × ParameterReader)} {capacity : Nat} {isProtected : Bool}

/-! ### One entry -/

/-- The ways in which an entry of a bucket is read, from the item of its label and the cursor behind
it to the cursor behind its value. -/
inductive EntryRead (readers : List (Int64 × ParameterReader)) (capacity : Nat)
    (isProtected : Bool) (state : HeaderState) (item : Item) (before after : Decoder) :
    HeaderState → Prop where
  /-- The list of critical labels is kept apart from the parameters. -/
  | critical {critical : CriticalLabels} (hlabel : item.toInt64 = .ok HeaderLabel.crit.code)
      (hprotected : isProtected = true) (hnone : state.critical? = none)
      (hrun : readCritical.run before = .ok critical after) :
      EntryRead readers capacity isProtected state item before after
        { state with critical? := some critical }
  /-- A value that could be read is stored. -/
  | stored {label : Int64} {value : ParameterValue} (hlabel : item.toInt64 = .ok label)
      (hother : label ≠ HeaderLabel.crit.code)
      (hrun : (readValue? readers label).run before = .ok (some value) after)
      (hnew : ∀ parameter ∈ state.parameters, parameter.label ≠ label)
      (hroom : state.parameters.length < capacity) :
      EntryRead readers capacity isProtected state item before after
        { state with parameters := state.parameters ++ [⟨label, isProtected, false, value⟩] }
  /-- A value of another type is passed over. -/
  | passedOver {label : Int64} (hlabel : item.toInt64 = .ok label)
      (hother : label ≠ HeaderLabel.crit.code)
      (hrun : (readValue? readers label).run before = .ok none after) :
      EntryRead readers capacity isProtected state item before after state
  /-- Whatever has a text label is passed over. -/
  | textLabel {content : String} (hlabel : item.value = .text content) {value : Item}
      {middle : Decoder} (hnext : Decoder.next before = .ok value middle)
      (hskip : (Reading.skip value : Reading Error Unit).run middle = .ok () after) :
      EntryRead readers capacity isProtected state item before after state

theorem of_run_readLabel {item : Item} {label : Int64} {before after : Decoder}
    (hrun : (readLabel item).run before = .ok label after) :
    item.toInt64 = .ok label ∧ before = after := by
  obtain ⟨hlabel, hafter⟩ := Reading.of_run_ofExcept hrun
  cases hinteger : item.toInt64 with
  | error cause =>
    rw [hinteger] at hlabel
    cases hlabel
  | ok integer =>
    rw [hinteger] at hlabel
    cases hlabel
    exact ⟨rfl, hafter⟩

/-- A parameter that was stored has a new label, and stands behind the others. -/
theorem HeaderState.of_store {state stored : HeaderState} {parameter : Parameter}
    (hstore : state.store capacity parameter = .ok stored) :
    (∀ other ∈ state.parameters, other.label ≠ parameter.label) ∧
      state.parameters.length < capacity ∧
      stored = { state with parameters := state.parameters ++ [parameter] } := by
  unfold store at hstore
  split at hstore
  · cases hstore
  next hfind =>
    split at hstore
    next hroom =>
      cases hstore
      refine ⟨fun other hmem hequal ↦ hfind ?_, hroom, rfl⟩
      rw [findParameter?, List.find?_isSome]
      exact ⟨other, hmem, beq_iff_eq.2 hequal⟩
    · cases hstore

/-- The entry of an integer label was read as the list of critical labels, stored or passed over. -/
theorem entryRead_of_label {state visited : HeaderState} {item : Item} {before after : Decoder}
    (hrun : Reading.run (do
      let label ← readLabel item
      if label = HeaderLabel.crit.code then
        if isProtected = false then .fail .badCritParameter
        else if state.critical?.isSome then .fail .duplicateParameter
        else return { state with critical? := some (← readCritical) }
      else
        match ← readValue? readers label with
        | some value => .ofExcept (state.store capacity ⟨label, isProtected, false, value⟩)
        | none => return state) before = .ok visited after) :
    EntryRead readers capacity isProtected state item before after visited := by
  obtain ⟨label, _, hread, hrun⟩ := Reading.of_run_bind hrun
  obtain ⟨hlabel, rfl⟩ := of_run_readLabel hread
  split at hrun
  next hcrit =>
    split at hrun
    · exact absurd hrun Reading.run_fail_ne
    next hprotected =>
      split at hrun
      · exact absurd hrun Reading.run_fail_ne
      next hsome =>
        obtain ⟨critical, _, hcritical, hrun⟩ := Reading.of_run_bind hrun
        obtain ⟨rfl, rfl⟩ := Reading.of_run_pure hrun
        exact .critical (hcrit ▸ hlabel) (by simpa using hprotected) (by simpa using hsome)
          hcritical
  next hother =>
    obtain ⟨value?, middle, hvalue, hrun⟩ := Reading.of_run_bind hrun
    cases value? with
    | none =>
      obtain ⟨rfl, rfl⟩ := Reading.of_run_pure hrun
      exact .passedOver hlabel hother hvalue
    | some value =>
      obtain ⟨hstore, rfl⟩ := Reading.of_run_ofExcept hrun
      obtain ⟨hnew, hroom, rfl⟩ := HeaderState.of_store hstore
      exact .stored hlabel hother hvalue hnew hroom

theorem entryRead_of_run {state visited : HeaderState} {item : Item} {before after : Decoder}
    (hrun : (readEntry readers capacity isProtected state item).run before = .ok visited after) :
    EntryRead readers capacity isProtected state item before after visited := by
  unfold readEntry at hrun
  split at hrun
  · exact entryRead_of_label hrun
  · exact entryRead_of_label hrun
  next hlabel =>
    obtain ⟨value, middle, hnext, hrun⟩ := Reading.of_run_bind hrun
    obtain ⟨_, last, hskip, hrun⟩ := Reading.of_run_bind hrun
    obtain ⟨rfl, rfl⟩ := Reading.of_run_pure hrun
    exact .textLabel hlabel (Reading.of_run_next hnext) hskip
  · exact absurd hrun Reading.run_fail_ne

/-! ### What entries add -/

namespace HeaderState

/-- Whether a state comes of another by reading entries of one bucket: parameters of that bucket are
added behind the others, with new labels and none of them critical, and only the protected bucket
has a list of critical labels. -/
structure Grows (isProtected : Bool) (state final : HeaderState) : Prop where
  parameters_eq : ∃ added, final.parameters = state.parameters ++ added ∧
    ∀ parameter ∈ added, parameter.isProtected = isProtected ∧ parameter.isCritical = false
  labels_nodup : (state.parameters.map (·.label)).Nodup → (final.parameters.map (·.label)).Nodup
  critical_eq : isProtected = false → final.critical? = state.critical?

namespace Grows

variable {first second third : HeaderState}

theorem of_parameters_eq (hparameters : second.parameters = first.parameters)
    (hcritical : isProtected = false → second.critical? = first.critical?) :
    Grows isProtected first second where
  parameters_eq := ⟨[], by rw [hparameters, List.append_nil], nofun⟩
  labels_nodup := fun hnodup ↦ by rwa [hparameters]
  critical_eq := hcritical

theorem refl (state : HeaderState) : Grows isProtected state state :=
  of_parameters_eq rfl fun _ ↦ rfl

theorem trans (hleft : Grows isProtected first second) (hright : Grows isProtected second third) :
    Grows isProtected first third := by
  obtain ⟨left, hleftEq, hleftFlags⟩ := hleft.parameters_eq
  obtain ⟨right, hrightEq, hrightFlags⟩ := hright.parameters_eq
  refine ⟨⟨left ++ right, by rw [hrightEq, hleftEq, List.append_assoc], ?_⟩, ?_, ?_⟩
  · intro parameter hmem
    exact (List.mem_append.1 hmem).elim (hleftFlags parameter) (hrightFlags parameter)
  · exact fun hnodup ↦ hright.labels_nodup (hleft.labels_nodup hnodup)
  · exact fun hunprotected ↦
      (hright.critical_eq hunprotected).trans (hleft.critical_eq hunprotected)

end Grows

/-- One parameter with a new label is added. -/
theorem grows_append {state : HeaderState} {label : Int64} (value : ParameterValue)
    (hnew : ∀ parameter ∈ state.parameters, parameter.label ≠ label) :
    Grows isProtected state
      { state with parameters := state.parameters ++ [⟨label, isProtected, false, value⟩] } where
  parameters_eq := ⟨_, rfl, fun _ hmem ↦ by rw [List.mem_singleton.1 hmem]; exact ⟨rfl, rfl⟩⟩
  labels_nodup := by
    intro hnodup
    rw [List.map_append]
    refine hnodup.append (List.nodup_singleton _) fun other hstored hlast ↦ ?_
    obtain ⟨parameter, hmem, rfl⟩ := List.mem_map.1 hstored
    exact hnew parameter hmem (List.mem_singleton.1 hlast)
  critical_eq := fun _ ↦ rfl

end HeaderState

/-- One entry lets what was read before it grow. -/
theorem EntryRead.grows {state visited : HeaderState} {item : Item} {before after : Decoder}
    (hread : EntryRead readers capacity isProtected state item before after visited) :
    HeaderState.Grows isProtected state visited := by
  cases hread with
  | critical _ hprotected =>
    refine .of_parameters_eq rfl fun hunprotected ↦ ?_
    rw [hprotected] at hunprotected
    cases hunprotected
  | stored _ _ _ hnew => exact HeaderState.grows_append _ hnew
  | passedOver => exact .refl state
  | textLabel => exact .refl state

/-! ### Checks of items -/

theorem of_expectUntagged {item : Item} {want : String}
    (hresult : expectUntagged item want = .ok ()) : item.tags = [] := by
  unfold expectUntagged at hresult
  split at hresult
  · assumption
  · cases hresult

theorem of_expectBytes {item : Item} {content : Bytes} (hresult : expectBytes item = .ok content) :
    item.value = .bytes content ∧ item.tags = [] := by
  unfold expectBytes at hresult
  cases huntagged : expectUntagged item "bstr" with
  | error cause =>
    rw [huntagged] at hresult
    cases hresult
  | ok _ =>
    rw [huntagged] at hresult
    refine ⟨?_, of_expectUntagged huntagged⟩
    cases hvalue : item.value with
    | bytes found =>
      rw [hvalue] at hresult
      cases hresult
      rfl
    | _ =>
      rw [hvalue] at hresult
      cases hresult

/-! ### Buckets -/

/-- A bucket that was read is a map without tags, whose entries were read one after the other. -/
theorem of_run_readBucket {state final : HeaderState} {before after : Decoder}
    (hrun : (readBucket readers capacity isProtected state).run before = .ok final after) :
    ∃ item middle count?, Decoder.next before = .ok item middle ∧ item.tags = [] ∧
      item.value = .map count? ∧
      Reading.runBelow item.level (readEntry readers capacity isProtected) state middle =
        .ok final after := by
  obtain ⟨item, middle, hnext, hrun⟩ := Reading.of_run_bind hrun
  obtain ⟨_, _, hcheck, hrun⟩ := Reading.of_run_bind hrun
  obtain ⟨huntagged, rfl⟩ := Reading.of_run_ofExcept hcheck
  split at hrun
  next count? hvalue =>
    exact ⟨item, _, count?, Reading.of_run_next hnext, of_expectUntagged huntagged, hvalue, hrun⟩
  · exact absurd hrun Reading.run_fail_ne

/-- A bucket lets what was read before it grow. -/
theorem grows_of_run_readBucket {state final : HeaderState} {before after : Decoder}
    (hrun : (readBucket readers capacity isProtected state).run before = .ok final after) :
    HeaderState.Grows isProtected state final := by
  obtain ⟨_, _, _, _, _, _, hloop⟩ := of_run_readBucket hrun
  refine (Reading.runBelow_induction (fun visited _ ↦ HeaderState.Grows isProtected state visited)
    (fun hstate _ _ hvisit ↦ ?_) (.refl state) hloop).1
  exact hstate.trans (entryRead_of_run hvisit).grows

/-- Whether something is what reading the content of the protected byte string by itself gives. -/
def ProtectedRead (readers : List (Int64 × ParameterReader)) (capacity : Nat) (content : Bytes)
    (state : HeaderState) : Prop :=
  content = [] ∧ state = ⟨[], none⟩ ∨
    content ≠ [] ∧ ∃ middle last,
      (readBucket readers capacity true ⟨[], none⟩).run (.ofBytes content) = .ok state middle ∧
        Decoder.finish middle = .ok () last

/-- Whether parameters are those that were stored, with all that are listed as critical marked. -/
def HeaderState.Marks (state : HeaderState) (parameters : List Parameter) : Prop :=
  match state.critical? with
  | none => parameters = state.parameters
  | some critical => critical.mark state.parameters = .ok parameters

namespace HeaderState

/-- The integers in the list of critical labels. -/
def listed (state : HeaderState) : List Int64 :=
  match state.critical? with
  | none => []
  | some critical => critical.labels

/-- Where stored labels are distinct, marking leaves the parameters in place, and all labels that
are listed were stored. -/
theorem Marks.eq_map {state : HeaderState} {parameters : List Parameter}
    (hnodup : (state.parameters.map (·.label)).Nodup) (hmarks : state.Marks parameters) :
    (∀ label ∈ state.listed, label ∈ state.parameters.map (·.label)) ∧
      parameters = state.parameters.map (·.markListed state.listed) := by
  unfold Marks at hmarks
  unfold listed
  cases hcritical : state.critical? with
  | none =>
    rw [hcritical] at hmarks
    exact ⟨nofun, by simp [hmarks, Parameter.markListed]⟩
  | some critical =>
    rw [hcritical] at hmarks
    exact ((CriticalLabels.mark_eq_ok_iff hnodup).1 hmarks).2

end HeaderState

/-- The second bucket is read behind the first, and the critical labels are marked in the end. -/
theorem of_run_unprotected {content : Bytes} {first : HeaderState} {before after : Decoder}
    {headers : DecodedHeaders}
    (hrun : Reading.run (do
      let state ← readBucket readers capacity false first
      let parameters ←
        match state.critical? with
        | none => pure state.parameters
        | some critical => Reading.ofExcept (critical.mark state.parameters)
      return (⟨content, parameters⟩ : DecodedHeaders)) before = .ok headers after) :
    headers.protectedBytes = content ∧
      ∃ last, (readBucket readers capacity false first).run before = .ok last after ∧
        last.Marks headers.parameters := by
  obtain ⟨last, middle, hlast, hrun⟩ := Reading.of_run_bind hrun
  unfold HeaderState.Marks
  split at hrun
  next hnone =>
    obtain ⟨parameters, _, hparameters, hrun⟩ := Reading.of_run_bind hrun
    obtain ⟨rfl, rfl⟩ := Reading.of_run_pure hparameters
    obtain ⟨rfl, rfl⟩ := Reading.of_run_pure hrun
    exact ⟨rfl, last, hlast, by rw [hnone]⟩
  next critical hsome =>
    obtain ⟨parameters, _, hparameters, hrun⟩ := Reading.of_run_bind hrun
    obtain ⟨hmark, rfl⟩ := Reading.of_run_ofExcept hparameters
    obtain ⟨rfl, rfl⟩ := Reading.of_run_pure hrun
    exact ⟨rfl, last, hlast, by rw [hsome]; exact hmark⟩

/-- Headers that were read are a byte string, whose content is read by itself, and a second bucket,
and the critical labels are marked in the end. -/
theorem readHeaders_cases {before after : Decoder} {headers : DecodedHeaders}
    (hrun : (readHeaders readers capacity).run before = .ok headers after) :
    ∃ item middle first last, Decoder.next before = .ok item middle ∧
      expectBytes item = .ok headers.protectedBytes ∧
      ProtectedRead readers capacity headers.protectedBytes first ∧
      (readBucket readers capacity false first).run middle = .ok last after ∧
      last.Marks headers.parameters := by
  obtain ⟨item, middle, hnext, hrun⟩ := Reading.of_run_bind hrun
  obtain ⟨content, _, hread, hrun⟩ := Reading.of_run_bind hrun
  obtain ⟨hbytes, rfl⟩ := Reading.of_run_ofExcept hread
  split at hrun
  next hempty =>
    obtain ⟨first, _, hfirst, hrun⟩ := Reading.of_run_bind hrun
    obtain ⟨rfl, rfl⟩ := Reading.of_run_pure hfirst
    obtain ⟨rfl, last, hlast, hmarks⟩ := of_run_unprotected hrun
    exact ⟨item, middle, _, last, Reading.of_run_next hnext, hbytes,
      .inl ⟨by simpa using hempty, rfl⟩, hlast, hmarks⟩
  next hnonempty =>
    obtain ⟨first, _, hfirst, hrun⟩ := Reading.of_run_bind hrun
    obtain ⟨⟨_, hinner⟩, rfl⟩ := Reading.of_run_within hfirst
    obtain ⟨state, inside, hbucket, hinner⟩ := Reading.of_run_bind hinner
    obtain ⟨_, finished, hfinish, hinner⟩ := Reading.of_run_bind hinner
    obtain ⟨rfl, rfl⟩ := Reading.of_run_pure hinner
    obtain ⟨rfl, last, hlast, hmarks⟩ := of_run_unprotected hrun
    exact ⟨item, middle, state, last, Reading.of_run_next hnext, hbytes,
      .inr ⟨by simpa using hnonempty, inside, finished, hbucket, Reading.of_run_finish hfinish⟩,
      hlast, hmarks⟩

end Cose
