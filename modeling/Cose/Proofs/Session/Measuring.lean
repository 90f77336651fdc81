import Mathlib.Tactic.Common
import Cose.Proofs.Session.Tandem

/-!
# Measuring an encoding

A session that only counts bytes goes through the same calls as one whose output grows, and agrees
with it in length, failure and answers (`Call.measuredRight`). It does not see the entries of maps,
so it cannot notice that they cannot be put in order: there the two part.
-/

set_option autoImplicit false
set_option relaxedAutoImplicit false

namespace Cose

open Cbor

/-! ### Users who do not look at bytes -/

/-- An answer without the bytes and regions that only a session with bytes has. -/
def Answer.withoutBytes : Answer → Answer
  | bytes _ => bytes none
  | region _ => region none
  | answer => answer

/-- The outlook of a user who works with regions and learns everything of a session but its bytes.
-/
def Outlook.measuring : Outlook where
  usesRegions := True
  sight encoder := encoder.withOutput (.sizeOnly encoder.length)
  hear := Answer.withoutBytes
  error_sight _ := rfl
  rules_sight _ := rfl
  hear_bytes _ _ _ := rfl
  hear_region _ _ := rfl

/-! ### Growing outputs and their lengths -/

namespace Cbor.Output

/-- Whether an output grows, and another counts its bytes. -/
def CountedBy (growing counting : Output) : Prop :=
  ∃ written beyond, growing = .growable written beyond ∧ counting = .sizeOnly written.size

variable {growing counting : Output}

theorem CountedBy.refusal? (hcounted : CountedBy growing counting) (count : Nat) :
    counting.refusal? count = growing.refusal? count := by
  obtain ⟨written, beyond, rfl, rfl⟩ := hcounted
  rfl

/-- A change that comes out at the same length is one that the counting output goes along with. -/
theorem CountedBy.grows (hcounted : CountedBy growing counting) {count : Nat}
    {change : Output → Output} (hchange : CountedBy (change growing) (change counting)) :
    Grows CountedBy (fun _ _ ↦ False) growing counting count change :=
  .inl ⟨hcounted.refusal? count, fun _ ↦ hchange⟩

theorem CountedBy.push (hcounted : CountedBy growing counting) (data : Bytes) :
    CountedBy (growing.push data) (counting.push data) := by
  have hlength := growing.length_push data
  obtain ⟨written, beyond, rfl, rfl⟩ := hcounted
  exact ⟨_, _, rfl, congrArg Output.sizeOnly hlength.symm⟩

theorem CountedBy.insert (hcounted : CountedBy growing counting) (position : Nat) (data : Bytes) :
    CountedBy (growing.insert position data) (counting.insert position data) := by
  have hlength := growing.length_insert position data
  obtain ⟨written, beyond, rfl, rfl⟩ := hcounted
  exact ⟨_, _, rfl, congrArg Output.sizeOnly hlength.symm⟩

theorem CountedBy.replaceFrom (hcounted : CountedBy growing counting) {position : Nat}
    {data : Bytes} (hdata : data.length = (growing.contentsFrom position).length) :
    CountedBy (growing.replaceFrom position data) counting := by
  have hlength := growing.length_replaceFrom hdata
  obtain ⟨written, beyond, rfl, rfl⟩ := hcounted
  exact ⟨_, _, rfl, congrArg Output.sizeOnly hlength.symm⟩

theorem CountedBy.endAt (hcounted : CountedBy growing counting) (position : Nat) :
    CountedBy (growing.endAt position) (counting.endAt position) := by
  obtain ⟨written, beyond, rfl, rfl⟩ := hcounted
  refine ⟨_, _, rfl, congrArg Output.sizeOnly ?_⟩
  -- What the held bytes do not make up for is filled up with zeros.
  simp only [← Array.length_toList, Array.toList_appendList, List.length_append,
    Array.toList_shrink, List.length_take, List.length_replicate]
  omega

end Cbor.Output

open Output in
/-- A growing session, and one that counts its bytes. -/
def Tandem.measuring : Tandem where
  outlook := .measuring
  Paired := CountedBy
  Lost _ _ := False
  mindsSorting := True
  length_eq := by
    rintro _ _ ⟨written, beyond, rfl, rfl⟩
    rfl
  sight_eq := by
    rintro ⟨_, _, _, _, _⟩ _ ⟨written, beyond, rfl, rfl⟩
    rfl
  push hcounted data := hcounted.grows (hcounted.push data)
  insert hcounted position data := hcounted.grows (hcounted.insert position data)
  sortMap := by
    intro encoder counting hcounted start hsorted
    have hreplaced := hcounted.replaceFrom (length_sortEntries (encoder.output.contentsFrom start))
    have hgrowing : encoder.output.isSizeOnly = false := by
      obtain ⟨written, beyond, houtput, -⟩ := hcounted
      rw [houtput, isSizeOnly]
    have hcounting : (encoder.withOutput counting).output.isSizeOnly = true := by
      obtain ⟨written, beyond, -, rfl⟩ := hcounted
      rfl
    rw [Encoder.sortMap_of_live hgrowing (hsorted trivial), Encoder.sortMap_of_isSizeOnly hcounting]
    exact ⟨counting, hreplaced, rfl⟩
  reserve _ _ _ hcounted capacity content := by
    refine hcounted.grows ?_
    obtain ⟨written, beyond, rfl, rfl⟩ := hcounted
    exact ⟨_, _, rfl, rfl⟩
  endAt _ _ _ hcounted position := hcounted.endAt position
  lost_mono hlost _ := hlost
  not_lost _ _ _ := id

/-! ### Maps that cannot be put in order -/

namespace Cbor.Encoder

variable {encoder : Encoder}

theorem sortMaps_of_missorts (hmissorts : encoder.Missorts) : encoder.rules.sortMaps = true := by
  obtain ⟨frame, popped, hpop, _, hrules, _⟩ := hmissorts
  have hsame := (encoder.sameOutput_pop .map).rules_eq
  rw [hpop] at hsame
  exact hsame ▸ hrules

/-- Sorting fails only for its own reasons. -/
theorem error_sortMap {start : Nat} (hlive : encoder.error = none)
    (hfailed : (encoder.sortMap start).Failed) :
    (encoder.sortMap start).error = some .duplicateLabel ∨
      (encoder.sortMap start).error = some .unsupported := by
  unfold sortMap at hfailed ⊢
  dsimp only at hfailed ⊢
  split at hfailed
  · exact absurd hlive hfailed
  next hbytes =>
    rw [if_neg hbytes]
    cases hfailure : (sortEntries (encoder.output.contentsFrom start)).2 with
    | none =>
      simp only [hfailure] at hfailed
      exact absurd hlive hfailed
    | some cause =>
      simp only [fail, hlive]
      rcases cause_of_sortEntries hfailure with rfl | rfl
      · exact .inl rfl
      · exact .inr rfl

/-- A map that cannot be put in order is not closed, for one of two causes. -/
theorem error_closeMap_of_missorts (hmissorts : encoder.Missorts) :
    encoder.closeMap.error = some .duplicateLabel ∨
      encoder.closeMap.error = some .unsupported := by
  obtain ⟨frame, popped, hpop, hwhole, hrules, hfailed⟩ := hmissorts
  have hclose : encoder.closeMap = popped.sortMap frame.start := by
    rw [closeMap_eq, closeBy, hpop]
    dsimp only [completeMap]
    rw [if_pos hwhole, arrangeMap, if_pos hrules, insert_of_failed hfailed]
  rw [hclose]
  exact error_sortMap (error_of_pop hpop) hfailed

end Cbor.Encoder

/-! ### Programs -/

namespace Session

variable {α : Type} {program : Session α} (rules : Rules)

/-- A session that counts bytes comes out of a program like one that grows, if all maps that are
closed on the way can be put in order. -/
theorem Traced.measuring_outcome {mapClosings : Encoder → List Encoder}
    (htraced : Traced .measuring program mapClosings)
    (hsorts : ∀ closing ∈ mapClosings (.growable rules), ¬closing.Missorts) :
    Tandem.measuring.Matches (outcome (program (.growable rules))).2
        (outcome (program (.sizeOnly rules))).2 ∧
      (outcome (program (.sizeOnly rules))).1 = (outcome (program (.growable rules))).1 := by
  have hstart : Tandem.measuring.Matches (.growable rules) (.sizeOnly rules) :=
    ⟨.sizeOnly 0, ⟨#[], [], rfl, rfl⟩, rfl⟩
  rcases hstart.outcome htraced fun _ ↦ hsorts with hmatches | ⟨_, _, hlost⟩
  · exact hmatches
  · exact hlost.elim

/-- Where the rules do not ask for an order, no map is met that cannot be put in order. -/
theorem Traced.not_missorts {outlook : Outlook} {mapClosings : Encoder → List Encoder}
    (htraced : Traced outlook program mapClosings) (hrules : rules.sortMaps = false) :
    ∀ closing ∈ mapClosings (.growable rules), ¬closing.Missorts := by
  intro closing hmem hmissorts
  have hclosing : closing.rules = rules := htraced.rules_of_mem hmem
  have hsorts := Encoder.sortMaps_of_missorts hmissorts
  rw [hclosing, hrules] at hsorts
  cases hsorts

end Session

/-! ### Runs -/

/-- Whether calls, one after the other, are measured right: a session that only counts bytes comes
out of them with the length and the failure of one that grows, it is finished alike, and the user
hears the same. -/
structure Call.MeasuredRight (rules : Rules) (calls : List Call) : Prop where
  length_eq : (runAll (.sizeOnly rules) calls).2.length = (runAll (.growable rules) calls).2.length
  error_eq : (runAll (.sizeOnly rules) calls).2.error = (runAll (.growable rules) calls).2.error
  finishSize_eq : (runAll (.sizeOnly rules) calls).2.finishSize =
    (runAll (.growable rules) calls).2.finishSize
  answers_eq : (runAll (.sizeOnly rules) calls).1.map Answer.withoutBytes =
    (runAll (.growable rules) calls).1.map Answer.withoutBytes

/-- Calls are measured right up to the first map that the growing session closes without being able
to put it in order, which fails for one of two causes, and to the end if the rules do not ask for an
order. They are a program in steps, which says at which sessions it closes maps; every initial part
of a run is such a program itself. -/
theorem Call.measuredRight (rules : Rules) {calls : List Call}
    (hpermitted : ∀ call ∈ calls, Outlook.measuring.Permits call) :
    (transcript .measuring calls).Traceable .measuring ∧
      (∀ mapClosings, (transcript .measuring calls).Traced .measuring mapClosings →
        (∀ closing ∈ mapClosings (.growable rules), ¬closing.Missorts) →
        MeasuredRight rules calls) ∧
      (∀ closing : Encoder, closing.Missorts → closing.rules.sortMaps = true ∧
        (closing.closeMap.error = some .duplicateLabel ∨
          closing.closeMap.error = some .unsupported)) ∧
      (rules.sortMaps = false → MeasuredRight rules calls) := by
  have hmeasured : ∀ mapClosings, (transcript .measuring calls).Traced .measuring mapClosings →
      (∀ closing ∈ mapClosings (.growable rules), ¬closing.Missorts) →
      MeasuredRight rules calls := by
    intro mapClosings htraced hsorts
    obtain ⟨hmatches, hheard⟩ := htraced.measuring_outcome rules hsorts
    exact ⟨hmatches.length_eq, hmatches.error_eq, hmatches.finishSize_eq, Except.ok.inj hheard⟩
  have htraceable := traceable_transcript hpermitted
  have hcauses (closing : Encoder) (hmissorts : closing.Missorts) :=
    And.intro (Encoder.sortMaps_of_missorts hmissorts)
      (Encoder.error_closeMap_of_missorts hmissorts)
  refine ⟨htraceable, hmeasured, hcauses, fun hrules ↦ ?_⟩
  obtain ⟨mapClosings, htraced⟩ := htraceable
  exact hmeasured mapClosings htraced (htraced.not_missorts rules hrules)

/-- A program that writes the label of its parameter, and the length of the encoding before it. -/
def positionWriter : ParameterWriter := fun label _ _ ↦ do
  let length ← Encoder.length <$> get
  modify fun encoder ↦ (encoder.appendInt label).appendUnsigned (UInt64.ofNat length)

theorem traceable_positionWriter (label : Int64) (isProtected isCritical : Bool) :
    (positionWriter label isProtected isCritical).Traceable .measuring :=
  (Session.Traceable.look Encoder.length fun _ ↦ rfl).bind fun length ↦
    .perform [.scalar (.int label), .scalar (.unsigned (UInt64.ofNat length))]

/-- Headers with a parameter that a program writes, a map with two equal labels, a region that turns
out shorter, and a failing call, by rules that do not ask for an order. -/
theorem Call.measuredRight_positionWriter :
    let calls : List Call :=
      [.operation (.opening .array), .headers [⟨9, true, true, .written positionWriter⟩],
        .value (.map [(.unsigned 1, .null), (.unsigned 1, .text "again")]),
        .openRegion 40 [1, 2, 3], .closeRegion 3, .raw [0xf6], .operation (.closing .map)]
    (∀ call ∈ calls, Outlook.measuring.Permits call) ∧ MeasuredRight .preferred calls := by
  intro calls
  have huses : Outlook.measuring.usesRegions := trivial
  have hpermitted : ∀ call ∈ calls, Outlook.measuring.Permits call := by
    simp [calls, Outlook.permits_iff, huses, Call.writers, Parameter.writer?,
      traceable_positionWriter]
  exact ⟨hpermitted, (measuredRight .preferred hpermitted).2.2.2 rfl⟩

end Cose
