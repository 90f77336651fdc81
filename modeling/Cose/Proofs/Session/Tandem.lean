import Mathlib.Tactic.Common
import Cose.Proofs.Session.Steps

/-!
# Sessions in tandem

The same steps are taken on two sessions that differ only in their outputs. A `Tandem` says which
outputs go together, and which failures the second session may make alone; then what one kind of
change does to both outputs carries over to every step (`Tandem.Matches.step`), and from the steps
to every program in steps (`Tandem.Matches.outcome`): the two sessions go on to differ only in
their outputs, and the program has the same result on both, unless the second session failed alone.
-/

set_option autoImplicit false
set_option relaxedAutoImplicit false

namespace Cose

open Cbor

namespace Cbor.Encoder

/-! ### Sessions with another output -/

/-- A session with another output. -/
def withOutput (encoder : Encoder) (output : Output) : Encoder := { encoder with output := output }

variable (encoder : Encoder) (output : Output)

theorem fail_withOutput (cause : EncodeError) :
    (encoder.withOutput output).fail cause = (encoder.fail cause).withOutput output := by
  obtain ⟨_, _, error, _, _⟩ := encoder
  cases error <;> rfl

theorem beginItem_withOutput :
    (encoder.withOutput output).beginItem = encoder.beginItem.withOutput output := by
  obtain ⟨_, frames, error, _, _⟩ := encoder
  cases error with
  | some cause => rfl
  | none =>
    cases frames with
    | nil => rfl
    | cons frame outer =>
      simp only [beginItem, proceed, withOutput]
      cases frame.kind.limit? with
      | none => rfl
      | some limit =>
        dsimp only
        split <;> rfl

theorem pop_withOutput (kind : Nest) :
    (encoder.withOutput output).pop kind = (encoder.pop kind).map id (·.withOutput output) := by
  obtain ⟨_, frames, error, _, tagPending⟩ := encoder
  cases error with
  | some cause => rfl
  | none =>
    cases tagPending with
    | true => rfl
    | false =>
      cases frames with
      | nil => rfl
      | cons frame outer =>
        simp only [pop, withOutput, Bool.false_eq_true, if_false]
        split <;> rfl

theorem sortMap_withOutput {start : Nat} (hbytes : encoder.output.isSizeOnly = false)
    (hother : output.isSizeOnly = false)
    (hcontents : output.contentsFrom start = encoder.output.contentsFrom start) :
    (encoder.withOutput output).sortMap start = (encoder.sortMap start).withOutput
      (output.replaceFrom start (sortEntries (encoder.output.contentsFrom start)).1) := by
  simp only [sortMap, withOutput, hbytes, hother, hcontents, Bool.false_eq_true, if_false]
  cases (sortEntries (encoder.output.contentsFrom start)).2 with
  | none => rfl
  | some cause =>
    exact fail_withOutput { encoder with output := encoder.output.replaceFrom start _ } _ cause

/-- Whether a session cannot be closed as a map because its entries cannot be put in order, where
its rules ask for that. -/
def Missorts (encoder : Encoder) : Prop :=
  ∃ frame popped, encoder.pop .map = (some frame, popped) ∧ frame.count % 2 = 0 ∧
    popped.rules.sortMaps = true ∧ (popped.sortMap frame.start).Failed

end Cbor.Encoder

/-! ### Outputs that go together -/

/-- Whether two outputs take a number of further bytes alike and go together afterwards. Otherwise
only the second refuses them, with a failure that may be its own. -/
def Cbor.Output.Grows (Paired : Output → Output → Prop) (Lost : Nat → EncodeError → Prop)
    (first second : Output) (count : Nat) (change : Output → Output) : Prop :=
  (second.refusal? count = first.refusal? count ∧
      (first.refusal? count = none → Paired (change first) (change second))) ∨
    (first.refusal? count = none ∧
      ∃ cause, second.refusal? count = some cause ∧ Lost (change first).length cause)

/-- Outputs that go together whatever steps a user takes on both sessions. -/
structure Tandem where
  /-- How the user works with the sessions, who cannot tell them apart by what is seen. -/
  outlook : Outlook
  Paired : Output → Output → Prop
  /-- The failures that the second session may make alone, by the length of the first. -/
  Lost : (length : Nat) → (cause : EncodeError) → Prop
  /-- Whether the sessions part where the first cannot put a map in order. -/
  mindsSorting : Prop
  length_eq : ∀ {first second}, Paired first second → second.length = first.length
  sight_eq : ∀ {encoder : Encoder} {second}, Paired encoder.output second →
    outlook.sight (encoder.withOutput second) = outlook.sight encoder
  push : ∀ {first second}, Paired first second → ∀ data,
    Output.Grows Paired Lost first second data.length (·.push data)
  insert : ∀ {first second}, Paired first second → ∀ position data,
    Output.Grows Paired Lost first second data.length (·.insert position data)
  sortMap : ∀ {encoder : Encoder} {second}, Paired encoder.output second → ∀ start,
    (mindsSorting → ¬(encoder.sortMap start).Failed) →
    ∃ sorted, Paired (encoder.sortMap start).output sorted ∧
      (encoder.withOutput second).sortMap start = (encoder.sortMap start).withOutput sorted
  reserve : outlook.usesRegions → ∀ {first second}, Paired first second → ∀ capacity content,
    Output.Grows Paired Lost first second capacity (·.reserve capacity content)
  endAt : outlook.usesRegions → ∀ {first second}, Paired first second → ∀ position,
    Paired (first.endAt position) (second.endAt position)
  lost_mono : ∀ {length further cause}, Lost length cause → length ≤ further → Lost further cause
  not_lost : outlook.usesRegions → ∀ length cause, ¬Lost length cause

namespace Tandem

variable {tandem : Tandem} {first second : Encoder}

/-- Whether two sessions differ only in their outputs, and these go together. -/
def Matches (tandem : Tandem) (first second : Encoder) : Prop :=
  ∃ output, tandem.Paired first.output output ∧ second = first.withOutput output

/-- Whether the second session has failed alone. -/
def Apart (tandem : Tandem) (first second : Encoder) : Prop :=
  ∃ cause, second.error = some cause ∧ tandem.Lost first.length cause

/-- Whether two sessions still match, unless the second has failed alone. -/
def Follows (tandem : Tandem) (first second : Encoder) : Prop :=
  tandem.Matches first second ∨ tandem.Apart first second

/-- Sessions that are apart stay so. -/
theorem Apart.advance (hapart : tandem.Apart first second) {first' second' : Encoder}
    (hfirst : first.Advances first') (hsecond : second.Advances second') :
    tandem.Apart first' second' := by
  obtain ⟨cause, herror, hlost⟩ := hapart
  exact ⟨cause, hsecond.error_eq herror, tandem.lost_mono hlost hfirst.length_le⟩

/-- What advances every session keeps two sessions in tandem if it does so where they match. -/
theorem Follows.advance (hfollows : tandem.Follows first second) {change : Encoder → Encoder}
    (hadvances : ∀ encoder : Encoder, encoder.Advances (change encoder))
    (hmatches : tandem.Matches first second → tandem.Follows (change first) (change second)) :
    tandem.Follows (change first) (change second) := by
  rcases hfollows with hsame | hapart
  · exact hmatches hsame
  · exact .inr (hapart.advance (hadvances first) (hadvances second))

/-! ### What leaves the outputs alone -/

namespace Matches

theorem length_eq (hmatches : tandem.Matches first second) : second.length = first.length := by
  obtain ⟨output, hpaired, rfl⟩ := hmatches
  exact tandem.length_eq hpaired

theorem error_eq (hmatches : tandem.Matches first second) : second.error = first.error := by
  obtain ⟨output, hpaired, rfl⟩ := hmatches
  rfl

theorem rules_eq (hmatches : tandem.Matches first second) : second.rules = first.rules := by
  obtain ⟨output, hpaired, rfl⟩ := hmatches
  rfl

theorem frames_eq (hmatches : tandem.Matches first second) : second.frames = first.frames := by
  obtain ⟨output, hpaired, rfl⟩ := hmatches
  rfl

theorem incompleteness?_eq (hmatches : tandem.Matches first second) :
    second.incompleteness? = first.incompleteness? := by
  obtain ⟨output, hpaired, rfl⟩ := hmatches
  rfl

theorem finishSize_eq (hmatches : tandem.Matches first second) :
    second.finishSize = first.finishSize := by
  unfold Encoder.finishSize
  rw [hmatches.incompleteness?_eq, hmatches.length_eq]

theorem sight_eq (hmatches : tandem.Matches first second) :
    tandem.outlook.sight second = tandem.outlook.sight first := by
  obtain ⟨output, hpaired, rfl⟩ := hmatches
  exact tandem.sight_eq hpaired

/-- A change that leaves the output alone, and does not depend on it but for its length, is the same
on both sessions. -/
theorem change (hmatches : tandem.Matches first second) (change : Encoder → Encoder)
    (houtput : (change first).output = first.output)
    (hsame : ∀ output : Output, output.length = first.length →
      change (first.withOutput output) = (change first).withOutput output) :
    tandem.Matches (change first) (change second) := by
  obtain ⟨output, hpaired, rfl⟩ := hmatches
  exact ⟨output, houtput ▸ hpaired, hsame output (tandem.length_eq hpaired)⟩

theorem fail (hmatches : tandem.Matches first second) (cause : EncodeError) :
    tandem.Matches (first.fail cause) (second.fail cause) :=
  hmatches.change (·.fail cause) (first.sameOutput_fail cause).output_eq fun output _ ↦
    first.fail_withOutput output cause

theorem beginItem (hmatches : tandem.Matches first second) :
    tandem.Matches first.beginItem second.beginItem :=
  hmatches.change Encoder.beginItem first.sameOutput_beginItem.output_eq fun output _ ↦
    first.beginItem_withOutput output

/-- What is done only to sessions that have not failed is done to both or to neither. -/
theorem proceed (hmatches : tandem.Matches first second) {change : Encoder → Encoder}
    (hchange : first.error = none → tandem.Follows (change first) (change second)) :
    tandem.Follows (first.proceed change) (second.proceed change) := by
  have herror := hmatches.error_eq
  unfold Encoder.proceed
  cases hfirst : first.error with
  | some cause =>
    simp only [herror, hfirst]
    exact .inl hmatches
  | none =>
    simp only [herror, hfirst]
    exact hchange hfirst

/-! #### Bytes -/

theorem grow (hmatches : tandem.Matches first second) {count : Nat} {change : Output → Output}
    (hgrows : ∀ {first second}, tandem.Paired first second →
      Output.Grows tandem.Paired tandem.Lost first second count change) :
    tandem.Follows (first.grow count change) (second.grow count change) := by
  refine hmatches.proceed fun hlive ↦ ?_
  obtain ⟨output, hpaired, rfl⟩ := hmatches
  have houtput : (first.withOutput output).output = output := rfl
  rw [houtput]
  rcases hgrows hpaired with ⟨hrefusal, hchanged⟩ | ⟨hfits, cause, hfull, hlost⟩
  · rw [hrefusal]
    cases hfirst : first.output.refusal? count with
    | some cause => exact .inl (Matches.fail ⟨output, hpaired, rfl⟩ cause)
    | none => exact .inl ⟨change output, hchanged hfirst, rfl⟩
  · simp only [hfits, hfull]
    refine .inr ⟨cause, ?_, hlost⟩
    simp only [Encoder.fail, Encoder.withOutput, hlive]

theorem write (hmatches : tandem.Matches first second) (data : Bytes) :
    tandem.Follows (first.write data) (second.write data) :=
  hmatches.grow (tandem.push · data)

theorem insert (hmatches : tandem.Matches first second) (position : Nat) (data : Bytes) :
    tandem.Follows (first.insert position data) (second.insert position data) :=
  hmatches.grow (tandem.insert · position data)

end Matches

theorem Follows.write (hfollows : tandem.Follows first second) (data : Bytes) :
    tandem.Follows (first.write data) (second.write data) :=
  hfollows.advance (·.advances_write data) (·.write data)

/-- A change that leaves the output, the failure and the rules alone keeps sessions in tandem if it
is the same on both. -/
theorem Follows.change (hfollows : tandem.Follows first second) (change : Encoder → Encoder)
    (houtput : ∀ encoder, (change encoder).output = encoder.output)
    (herror : ∀ encoder, (change encoder).error = encoder.error)
    (hrules : ∀ encoder, (change encoder).rules = encoder.rules)
    (hsame : ∀ (encoder : Encoder) (output : Output), output.length = encoder.length →
      change (encoder.withOutput output) = (change encoder).withOutput output) :
    tandem.Follows (change first) (change second) := by
  have hadvances (encoder : Encoder) : encoder.Advances (change encoder) :=
    ⟨(congrArg Output.length (houtput encoder)).ge, (herror encoder).trans, hrules encoder⟩
  exact hfollows.advance hadvances fun hmatches ↦
    .inl (hmatches.change change (houtput first) (hsame first))

/-! ### Items -/

namespace Matches

theorem appendEncoded (hmatches : tandem.Matches first second) (item : Bytes) :
    tandem.Follows (first.appendEncoded item) (second.appendEncoded item) :=
  hmatches.beginItem.write item

theorem append (hmatches : tandem.Matches first second) (value : Scalar) :
    tandem.Follows (value.append first) (value.append second) := by
  by_cases hallowed : value.Allowed first.rules
  · obtain hwrite | ⟨head, content, _, hwrite⟩ := Encoder.append_eq_write hallowed
    · rw [hwrite first rfl, hwrite second hmatches.rules_eq]
      exact hmatches.appendEncoded _
    · rw [hwrite first rfl, hwrite second hmatches.rules_eq]
      exact (hmatches.appendEncoded head).write content
  · obtain ⟨cause, hfail⟩ := Encoder.exists_append_eq_fail hallowed
    rw [hfail first rfl, hfail second hmatches.rules_eq]
    exact .inl (hmatches.fail cause)

theorem addTag (hmatches : tandem.Matches first second) (tag : UInt64) :
    tandem.Follows (first.addTag tag) (second.addTag tag) := by
  refine hmatches.proceed fun _ ↦ ?_
  rw [hmatches.frames_eq]
  split
  · exact .inl (hmatches.fail _)
  · exact (hmatches.write (encodeHead .tag tag 0)).change ({ · with tagPending := true })
      (fun _ ↦ rfl) (fun _ ↦ rfl) (fun _ ↦ rfl) fun _ _ _ ↦ rfl

theorem openNest (hmatches : tandem.Matches first second) (kind : Nest) :
    tandem.Follows (first.openNest kind) (second.openNest kind) := by
  have hcounted := hmatches.beginItem
  have hdepth : second.beginItem.depth = first.beginItem.depth :=
    congrArg List.length hcounted.frames_eq
  refine hcounted.proceed fun _ ↦ ?_
  rw [hdepth, hcounted.rules_eq]
  split
  · exact .inl (hcounted.fail _)
  · split
    · exact .inl (hcounted.fail _)
    · refine (hcounted.write (Encoder.openingBytes kind)).change
        (fun encoder ↦ { encoder with frames := ⟨kind, encoder.length, 0⟩ :: encoder.frames })
        (fun _ ↦ rfl) (fun _ ↦ rfl) (fun _ ↦ rfl) fun encoder output hlength ↦ ?_
      simp only [Encoder.withOutput, Encoder.length, hlength]

/-! ### Open items that are closed -/

/-- An item is closed on both sessions alike if it is completed alike. -/
theorem closeBy (hmatches : tandem.Matches first second) (kind : Nest)
    {complete : Encoder → Frame → Encoder}
    (hcomplete : ∀ frame popped other, first.pop kind = (some frame, popped) →
      tandem.Matches popped other → tandem.Follows (complete popped frame) (complete other frame)) :
    tandem.Follows (first.closeBy kind complete) (second.closeBy kind complete) := by
  obtain ⟨output, hpaired, rfl⟩ := hmatches
  have houtput := (first.sameOutput_pop kind).output_eq
  unfold Encoder.closeBy
  rw [Encoder.pop_withOutput]
  cases hpop : first.pop kind with
  | mk frame? popped =>
    rw [hpop] at houtput
    have hpopped : tandem.Matches popped (popped.withOutput output) :=
      ⟨output, houtput ▸ hpaired, rfl⟩
    cases frame? with
    | none => exact .inl hpopped
    | some frame => exact hcomplete frame popped _ hpop hpopped

/-- The entries of a map are put in order alike if the first session does not fail on them, or that
does not matter. -/
theorem arrangeMap (hmatches : tandem.Matches first second) (start : Nat)
    (hsorts : tandem.mindsSorting → first.rules.sortMaps = true →
      ¬(first.sortMap start).Failed) :
    tandem.Matches (first.arrangeMap start) (second.arrangeMap start) := by
  unfold Encoder.arrangeMap
  rw [hmatches.rules_eq]
  split
  next hrules =>
    obtain ⟨output, hpaired, rfl⟩ := hmatches
    exact tandem.sortMap hpaired start fun hminds ↦ hsorts hminds hrules
  next => exact hmatches

theorem closeMap (hmatches : tandem.Matches first second)
    (hsorts : tandem.mindsSorting → ¬first.Missorts) :
    tandem.Follows first.closeMap second.closeMap := by
  rw [Encoder.closeMap_eq, Encoder.closeMap_eq]
  refine hmatches.closeBy .map fun frame popped other hpop hpopped ↦ ?_
  unfold Encoder.completeMap
  split
  next hwhole =>
    refine Matches.insert (hpopped.arrangeMap frame.start fun hminds hrules hfailed ↦ ?_) _ _
    exact hsorts hminds ⟨frame, popped, hpop, hwhole, hrules, hfailed⟩
  next => exact .inl (hpopped.fail _)

theorem closeMapIndefinite (hmatches : tandem.Matches first second) :
    tandem.Follows first.closeMapIndefinite second.closeMapIndefinite := by
  rw [Encoder.closeMapIndefinite_eq, Encoder.closeMapIndefinite_eq]
  refine hmatches.closeBy .indefiniteMap fun frame popped other _ hpopped ↦ ?_
  unfold Encoder.completeIndefiniteMap
  split
  · exact hpopped.write _
  · exact .inl (hpopped.fail _)

theorem completeWrap (hmatches : tandem.Matches first second) (frame : Frame) :
    tandem.Follows (first.completeWrap frame) (second.completeWrap frame) := by
  unfold Encoder.completeWrap
  rw [hmatches.length_eq]
  exact hmatches.insert _ _

/-- A byte string is closed alike, and the answer is the same, unless the second session fails. -/
theorem closeWrap (hmatches : tandem.Matches first second) (includeHead : Bool) :
    tandem.Matches (first.closeWrap includeHead).2 (second.closeWrap includeHead).2 ∧
        (second.closeWrap includeHead).1 = (first.closeWrap includeHead).1 ∨
      tandem.Apart (first.closeWrap includeHead).2 (second.closeWrap includeHead).2 := by
  obtain ⟨output, hpaired, rfl⟩ := hmatches
  have houtput := (first.sameOutput_pop .wrap).output_eq
  have hsecond := first.pop_withOutput output .wrap
  cases hpop : first.pop .wrap with
  | mk frame? popped =>
    rw [hpop] at houtput hsecond
    have hpopped : tandem.Matches popped (popped.withOutput output) :=
      ⟨output, houtput ▸ hpaired, rfl⟩
    cases frame? with
    | none =>
      rw [Encoder.closeWrap, Encoder.closeWrap, hpop, hsecond]
      exact .inl ⟨hpopped, rfl⟩
    | some frame =>
      rw [Encoder.closeWrap_of_pop hpop, Encoder.closeWrap_of_pop hsecond]
      rcases hpopped.completeWrap frame with hsame | hapart
      · refine .inl ⟨hsame, ?_⟩
        simp only [Encoder.wrappedSpan?, hsame.error_eq, hsame.length_eq, hpopped.length_eq]
      · exact .inr hapart

end Matches

/-! ### Steps -/

/-- Sessions stay in tandem by every operation, where no map that cannot be put in order is closed.
-/
theorem Matches.operation (hmatches : tandem.Matches first second) (operation : Operation)
    (hsorts : tandem.mindsSorting → operation = .closing .map → ¬first.Missorts) :
    tandem.Follows (operation.apply first) (operation.apply second) := by
  cases operation with
  | scalar value => exact hmatches.append value
  | tag number => exact hmatches.addTag number
  | opening kind => cases kind <;> exact hmatches.openNest _
  | closing kind =>
    cases kind with
    | array =>
      rw [Operation.apply, Operation.apply, Encoder.closeArray_eq, Encoder.closeArray_eq]
      exact hmatches.closeBy .array fun _ _ _ _ hpopped ↦ hpopped.insert _ _
    | map => exact hmatches.closeMap fun hminds ↦ hsorts hminds rfl
    | indefiniteArray =>
      rw [Operation.apply, Operation.apply, Encoder.closeArrayIndefinite_eq,
        Encoder.closeArrayIndefinite_eq]
      exact hmatches.closeBy .indefiniteArray fun _ _ _ _ hpopped ↦ hpopped.write _
    | indefiniteMap => exact hmatches.closeMapIndefinite
    | wrap =>
      simp only [Operation.apply, Encoder.snd_closeWrap]
      exact hmatches.closeBy .wrap fun frame _ _ _ hpopped ↦ hpopped.completeWrap frame

/-- Where users work with regions the sessions do not part. -/
theorem Follows.matches_of_usesRegions (hfollows : tandem.Follows first second)
    (huses : tandem.outlook.usesRegions) : tandem.Matches first second := by
  rcases hfollows with hmatches | ⟨cause, _, hlost⟩
  · exact hmatches
  · exact absurd hlost (tandem.not_lost huses _ cause)

theorem Matches.openRegion (hmatches : tandem.Matches first second)
    (huses : tandem.outlook.usesRegions) (capacity : Nat) (content : Bytes) :
    tandem.Follows (first.openRegion capacity content).2
      (second.openRegion capacity content).2 := by
  rw [Encoder.openRegion_eq, Encoder.openRegion_eq]
  have hopened := (hmatches.openNest .region).matches_of_usesRegions huses
  have hnoted : tandem.Follows ((first.openNest .region).proceed (·.setCapacity capacity))
      ((second.openNest .region).proceed (·.setCapacity capacity)) :=
    hopened.proceed fun _ ↦ .inl (hopened.change (·.setCapacity capacity) rfl fun _ _ ↦ rfl)
  exact (hnoted.matches_of_usesRegions huses).grow (tandem.reserve huses · capacity content)

theorem Matches.closeRegion (hmatches : tandem.Matches first second)
    (huses : tandem.outlook.usesRegions) (used : Nat) :
    tandem.Follows (first.closeRegion used) (second.closeRegion used) := by
  rw [Encoder.closeRegion_eq, Encoder.closeRegion_eq]
  refine hmatches.closeBy .region fun frame popped other _ hpopped ↦ ?_
  unfold Encoder.completeRegion
  split
  · exact .inl (hpopped.fail _)
  · obtain ⟨output, hpaired, rfl⟩ := hpopped
    exact Matches.insert ⟨_, tandem.endAt huses hpaired _, rfl⟩ _ _

/-- Sessions stay in tandem by every step, where no map that cannot be put in order is closed. -/
theorem Matches.step (hmatches : tandem.Matches first second) {step : Step}
    (hallowed : tandem.outlook.Allows step)
    (hsorts : tandem.mindsSorting → ∀ closing ∈ step.mapClosings first, ¬closing.Missorts) :
    tandem.Follows (step.apply first) (step.apply second) := by
  cases step with
  | operation operation =>
    refine hmatches.operation operation ?_
    rintro hminds rfl
    exact hsorts hminds first (List.mem_singleton_self first)
  | raw data => exact hmatches.write data
  | encoded item => exact hmatches.appendEncoded item
  | openRegion capacity content => exact hmatches.openRegion (hallowed trivial) capacity content
  | closeRegion used => exact hmatches.closeRegion (hallowed trivial) used

end Tandem

/-! ### Programs -/

open Session

namespace Tandem

variable {tandem : Tandem} {first second : Encoder}

/-- A program in steps has the same result on sessions in tandem, and leaves them in tandem, unless
the second session fails alone, where no map that cannot be put in order is closed. -/
theorem Matches.outcome {α : Type} {program : Session α} {mapClosings : Encoder → List Encoder}
    (htraced : Traced tandem.outlook program mapClosings) (hmatches : tandem.Matches first second)
    (hsorts : tandem.mindsSorting → ∀ closing ∈ mapClosings first, ¬closing.Missorts) :
    tandem.Matches (outcome (program first)).2 (outcome (program second)).2 ∧
        (outcome (program second)).1 = (outcome (program first)).1 ∨
      tandem.Apart (outcome (program first)).2 (outcome (program second)).2 := by
  induction htraced generalizing first second with
  | pure value => exact .inl ⟨hmatches, rfl⟩
  | throw cause => exact .inl ⟨hmatches, rfl⟩
  | look view =>
    exact .inl ⟨hmatches, congrArg (Except.ok ∘ view) hmatches.sight_eq⟩
  | step step hallowed =>
    rcases hmatches.step hallowed hsorts with hafter | hapart
    · exact .inl ⟨hafter, rfl⟩
    · exact .inr hapart
  | closeWrap includeHead =>
    rcases hmatches.closeWrap includeHead with ⟨hafter, hanswer⟩ | hapart
    · exact .inl ⟨hafter, congrArg Except.ok hanswer⟩
    · exact .inr hapart
  | attempt htraced ih =>
    rcases ih hmatches hsorts with ⟨hafter, hresult⟩ | hapart
    · exact .inl ⟨hafter, congrArg Except.ok hresult⟩
    · exact .inr hapart
  | @bind _ _ program next mapClosings nextClosings hfirst hnext ihfirst ihnext =>
    rcases ihfirst hmatches fun hminds closing hmem ↦
      hsorts hminds closing (List.mem_append_left _ hmem) with ⟨hmiddle, hresult⟩ | hapart
    · rw [outcome_bind, outcome_bind]
      cases hrun : Session.outcome (program first) with
      | mk result middle =>
        cases hother : Session.outcome (program second) with
        | mk other otherMiddle =>
          rw [hrun, hother] at hmiddle hresult
          cases hresult
          cases result with
          | error cause => exact .inl ⟨hmiddle, rfl⟩
          | ok value =>
            refine ihnext value hmiddle fun hminds closing hmem ↦ hsorts hminds closing ?_
            refine List.mem_append_right _ ?_
            rw [hrun]
            exact hmem
    · -- What the program goes on with makes no difference any more: the sessions stay apart.
      have hplain : ¬tandem.outlook.usesRegions := by
        obtain ⟨cause, _, hlost⟩ := hapart
        exact fun huses ↦ tandem.not_lost huses _ cause hlost
      have hadvances (encoder : Encoder) : (Session.outcome (program encoder)).2.Advances
          (Session.outcome ((program >>= next) encoder)).2 :=
        Session.advances_bind (fun value middle ↦ (hnext value).advances hplain middle) encoder
      exact .inr (hapart.advance (hadvances first) (hadvances second))

end Tandem

end Cose
