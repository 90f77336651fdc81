import Mathlib.Tactic.Common
import Cose.Proofs.Session.Tandem

/-!
# Encoding into a region of fixed capacity

A session over a region of fixed capacity goes through the same calls as one whose output grows, as
long as the bytes fit; where they do not, it fails for want of room and nothing else. As long as no
regions are opened the encoding only gets longer, so no more room is ever needed than for the whole
encoding (`Call.finish_runAll_fixed`).
-/

set_option autoImplicit false
set_option relaxedAutoImplicit false

namespace Cose

open Cbor

/-! ### Users who do not look at the capacity -/

/-- An output as it is seen by its contents alone. -/
def Cbor.Output.contentsOnly : Output → Output
  | sizeOnly count => .sizeOnly count
  | fixed written _ => .growable written []
  | growable written _ => .growable written []

/-- The outlook of a user who works without regions and learns everything of a session but how much
room is left. -/
def Outlook.bounded : Outlook where
  usesRegions := False
  sight encoder := encoder.withOutput encoder.output.contentsOnly
  hear := id
  error_sight _ := rfl
  rules_sight _ := rfl
  hear_bytes := by
    rintro ⟨output, _, _, _, _⟩ start stop
    cases output <;> rfl
  hear_region := by
    rintro ⟨output, _, _, _, _⟩ capacity
    cases output <;> rfl

/-! ### Outputs with the same contents -/

namespace Cbor.Output

/-- Whether a region of a given capacity holds the same bytes as an output that grows. -/
def Bounds (capacity : Nat) (growing bounded : Output) : Prop :=
  ∃ written beyond, growing = .growable written [] ∧ bounded = .fixed written beyond ∧
    written.size + beyond.length = capacity

/-- The one failure that a region may make alone. -/
def Overflows (capacity length : Nat) (cause : EncodeError) : Prop :=
  capacity < length ∧ cause = .bufferTooSmall

variable {capacity : Nat} {growing bounded : Output}

/-- A region takes what an output that grows takes, unless it comes out longer than the region. -/
theorem Bounds.grows (hbounds : Bounds capacity growing bounded) {count : Nat}
    {change : Output → Output} (hlength : (change growing).length = growing.length + count)
    (hfits : growing.length + count ≤ capacity →
      Bounds capacity (change growing) (change bounded)) :
    Grows (Bounds capacity) (Overflows capacity) growing bounded count change := by
  obtain ⟨written, beyond, rfl, rfl, hcapacity⟩ := hbounds
  simp only [length] at hfits
  unfold Grows
  rw [hlength]
  simp only [refusal?, length]
  by_cases hlimit : written.size + count > maxEncodedLength
  · simp [hlimit]
  · by_cases hroom : count ≤ beyond.length
    · exact .inl ⟨by simp [hlimit, hroom], fun _ ↦ hfits (by omega)⟩
    · exact .inr ⟨by simp [hlimit], .bufferTooSmall, by simp [hlimit, hroom], by omega, rfl⟩

theorem Bounds.push (hbounds : Bounds capacity growing bounded) (data : Bytes)
    (hfits : growing.length + data.length ≤ capacity) :
    Bounds capacity (growing.push data) (bounded.push data) := by
  have hlength := growing.length_push data
  obtain ⟨written, beyond, rfl, rfl, hcapacity⟩ := hbounds
  refine ⟨_, _, rfl, rfl, ?_⟩
  simp only [Output.push, length] at hlength hfits
  rw [hlength, List.length_drop]
  omega

theorem Bounds.insert (hbounds : Bounds capacity growing bounded) (position : Nat) (data : Bytes)
    (hfits : growing.length + data.length ≤ capacity) :
    Bounds capacity (growing.insert position data) (bounded.insert position data) := by
  have hlength := growing.length_insert position data
  obtain ⟨written, beyond, rfl, rfl, hcapacity⟩ := hbounds
  refine ⟨_, _, rfl, rfl, ?_⟩
  simp only [Output.insert, length] at hlength hfits
  rw [hlength, List.length_drop]
  omega

theorem Bounds.replaceFrom (hbounds : Bounds capacity growing bounded) {position : Nat}
    {data : Bytes} (hdata : data.length = (growing.contentsFrom position).length) :
    Bounds capacity (growing.replaceFrom position data) (bounded.replaceFrom position data) := by
  have hlength := growing.length_replaceFrom hdata
  obtain ⟨written, beyond, rfl, rfl, hcapacity⟩ := hbounds
  refine ⟨_, _, rfl, rfl, ?_⟩
  simp only [Output.replaceFrom, length] at hlength
  rw [hlength, hcapacity]

end Cbor.Output

open Output in
/-- A session whose output grows, and one over a region of a given capacity. -/
def Tandem.bounded (capacity : Nat) : Tandem where
  outlook := .bounded
  Paired := Bounds capacity
  Lost := Overflows capacity
  mindsSorting := False
  length_eq := by
    rintro _ _ ⟨written, beyond, rfl, rfl, _⟩
    rfl
  sight_eq := by
    rintro ⟨_, _, _, _, _⟩ _ ⟨written, beyond, rfl, rfl, _⟩
    rfl
  push hbounds data := hbounds.grows (length_push _ data) (hbounds.push data)
  insert hbounds position data :=
    hbounds.grows (length_insert _ position data) (hbounds.insert position data)
  sortMap := by
    intro encoder bounded hbounds start _
    have hreplaced := hbounds.replaceFrom (length_sortEntries (encoder.output.contentsFrom start))
    have hsame : encoder.output.isSizeOnly = false ∧ bounded.isSizeOnly = false ∧
        bounded.contentsFrom start = encoder.output.contentsFrom start := by
      obtain ⟨written, beyond, hgrowing, rfl, -⟩ := hbounds
      rw [hgrowing]
      exact ⟨rfl, rfl, rfl⟩
    obtain ⟨hgrowing, hbounded, hcontents⟩ := hsame
    refine ⟨_, ?_, encoder.sortMap_withOutput bounded hgrowing hbounded hcontents⟩
    rw [encoder.output_sortMap hgrowing]
    exact hreplaced
  reserve := False.elim
  endAt := False.elim
  lost_mono hlost hlength := ⟨Nat.lt_of_lt_of_le hlost.1 hlength, hlost.2⟩
  not_lost := False.elim

/-! ### Finishing -/

namespace Tandem.Matches

variable {capacity : Nat} {growing bounded : Encoder}

theorem length_le (hmatches : (Tandem.bounded capacity).Matches growing bounded) :
    growing.length ≤ capacity := by
  obtain ⟨output, ⟨written, beyond, hgrowing, _, hcapacity⟩, rfl⟩ := hmatches
  rw [Encoder.length, hgrowing, Output.length]
  omega

/-- Sessions over the same bytes are finished with the same result. -/
theorem finish_eq (hmatches : (Tandem.bounded capacity).Matches growing bounded) :
    bounded.finish = growing.finish := by
  have hincomplete := hmatches.incompleteness?_eq
  obtain ⟨output, ⟨written, beyond, hgrowing, rfl, _⟩, rfl⟩ := hmatches
  unfold Encoder.finish
  rw [hincomplete, hgrowing]
  simp [Encoder.withOutput, Output.contents, Output.storage]

/-- A session that grew without regions is finished with all bytes written. -/
theorem length_of_finish (hmatches : (Tandem.bounded capacity).Matches growing bounded)
    {bytes : Bytes} (hfinish : growing.finish = .ok bytes) : bytes.length = growing.length := by
  obtain ⟨output, ⟨written, beyond, hgrowing, _⟩, rfl⟩ := hmatches
  unfold Encoder.finish at hfinish
  rw [hgrowing] at hfinish
  split at hfinish
  · cases hfinish
  · cases hfinish
    simp [Encoder.length, hgrowing, Output.storage, Output.length]

end Tandem.Matches

/-! ### Programs -/

namespace Session

variable {α : Type} {program : Session α} (htraceable : program.Traceable .bounded) (rules : Rules)
include htraceable

/-- A region comes out of a program like an output that grows, or overflows. -/
theorem Traceable.bounded_outcome (storage : Bytes) :
    (Tandem.bounded storage.length).Matches (outcome (program (.growable rules))).2
          (outcome (program (.ofOutput (.fixed #[] storage) rules))).2 ∧
        (outcome (program (.ofOutput (.fixed #[] storage) rules))).1 =
          (outcome (program (.growable rules))).1 ∨
      storage.length < (outcome (program (.growable rules))).2.length ∧
        (outcome (program (.ofOutput (.fixed #[] storage) rules))).2.error =
          some .bufferTooSmall := by
  obtain ⟨_, htraced⟩ := htraceable
  have hstart : (Tandem.bounded storage.length).Matches (.growable rules)
      (.ofOutput (.fixed #[] storage) rules) :=
    ⟨.fixed #[] storage, ⟨#[], storage, rfl, rfl, Nat.zero_add _⟩, rfl⟩
  rcases hstart.outcome htraced False.elim with hsame | ⟨_, herror, hlength, rfl⟩
  · exact .inl hsame
  · exact .inr ⟨hlength, herror⟩

theorem Traceable.length_of_finish {bytes : Bytes}
    (hfinish : (outcome (program (.growable rules))).2.finish = .ok bytes) :
    bytes.length = (outcome (program (.growable rules))).2.length := by
  let storage : Bytes := List.replicate (outcome (program (.growable rules))).2.length 0
  rcases htraceable.bounded_outcome rules storage with ⟨hmatches, _⟩ | ⟨hlength, _⟩
  · exact hmatches.length_of_finish hfinish
  · exact absurd hlength (by simp [storage])

/-- A region holds the encoding if it is no shorter, and overflows otherwise. -/
theorem Traceable.finish_fixed {bytes : Bytes}
    (hfinish : (outcome (program (.growable rules))).2.finish = .ok bytes) (storage : Bytes) :
    (outcome (program (.ofOutput (.fixed #[] storage) rules))).2.finish =
      if bytes.length ≤ storage.length then .ok bytes else .error .bufferTooSmall := by
  have hbytes := htraceable.length_of_finish rules hfinish
  rcases htraceable.bounded_outcome rules storage with ⟨hmatches, _⟩ | ⟨hlength, herror⟩
  · rw [if_pos (hbytes ▸ hmatches.length_le), hmatches.finish_eq, hfinish]
  · rw [if_neg (by omega), (Encoder.finish_of_error herror).1]

end Session

/-! ### Runs -/

namespace Call

theorem runAll_append (encoder : Encoder) (first second : List Call) :
    runAll encoder (first ++ second) =
      (runAll (runAll encoder first).2 second).map ((runAll encoder first).1 ++ ·) id := by
  induction first generalizing encoder with
  | nil => rfl
  | cons call rest ih =>
    rw [List.cons_append, runAll, runAll]
    dsimp only
    rw [ih]
    rfl

/-- A region that holds the whole encoding is never too short on the way there, and one that does
not is too short in the end. The length of the encoding only grows from call to call, and with room
for all of it no call fails and every call is answered alike. -/
theorem finish_runAll_fixed (rules : Rules) {calls : List Call}
    (hpermitted : ∀ call ∈ calls, Outlook.bounded.Permits call) {bytes : Bytes}
    (hfinish : (runAll (.growable rules) calls).2.finish = .ok bytes) (storage : Bytes) :
    (runAll (.ofOutput (.fixed #[] storage) rules) calls).2.finish =
        (if bytes.length ≤ storage.length then .ok bytes else .error .bufferTooSmall) ∧
      ∀ before after, calls = before ++ after →
        (runAll (.growable rules) before).2.length ≤ bytes.length ∧
        (bytes.length ≤ storage.length →
          (runAll (.ofOutput (.fixed #[] storage) rules) before).2.error = none ∧
          (runAll (.ofOutput (.fixed #[] storage) rules) before).1 =
            (runAll (.growable rules) before).1) := by
  have htraceable := traceable_transcript hpermitted
  have hbytes : bytes.length = (runAll (.growable rules) calls).2.length :=
    htraceable.length_of_finish rules hfinish
  refine ⟨htraceable.finish_fixed rules hfinish storage, ?_⟩
  rintro before after rfl
  obtain ⟨hbefore, hafter⟩ := List.forall_mem_append.1 hpermitted
  have hadvances : (runAll (.growable rules) before).2.Advances
      (runAll (.growable rules) (before ++ after)).2 := by
    obtain ⟨_, htraced⟩ := traceable_transcript hafter
    rw [runAll_append]
    exact htraced.advances id (runAll (.growable rules) before).2
  refine ⟨hbytes ▸ hadvances.length_le, fun hfits ↦ ?_⟩
  rcases (traceable_transcript hbefore).bounded_outcome rules storage with
    ⟨hmatches, hanswers⟩ | ⟨hlength, _⟩
  · refine ⟨hmatches.error_eq.trans ?_, ?_⟩
    · -- A failure on the way would still stand in the end.
      rw [Option.eq_none_iff_forall_ne_some]
      intro cause herror
      have hfailed := (Encoder.finish_of_error (hadvances.error_eq herror)).1
      rw [hfinish] at hfailed
      cases hfailed
    · have hheard : List.map id _ = List.map id _ := Except.ok.inj hanswers
      rwa [List.map_id, List.map_id] at hheard
  · have hlonger : storage.length < (runAll (.growable rules) before).2.length := hlength
    have hshorter := hadvances.length_le
    omega

end Call

/-- A program that writes the label of its parameter, and the first byte of the encoding. -/
def echoWriter : ParameterWriter := fun label _ _ ↦ do
  let first? ← (Encoder.view? · 0 1) <$> get
  modify fun encoder ↦ (encoder.appendInt label).appendBytes (first?.getD [])

theorem traceable_echoWriter (label : Int64) (isProtected isCritical : Bool) :
    (echoWriter label isProtected isCritical).Traceable .bounded := by
  refine (Session.Traceable.look (Encoder.view? · 0 1) ?_).bind fun first? ↦
    .perform [.scalar (.int label), .scalar (.bytes (first?.getD []))]
  rintro ⟨output, _, _, _, _⟩
  cases output <;> rfl

/-- An array of an integer, headers with a parameter that a program writes, and a nested encoding.
It takes twelve bytes, and no fewer. -/
theorem Call.finish_runAll_fixed_echoWriter :
    let calls : List Call :=
      [.operation (.opening .array), .value (.unsigned 7),
        .headers [⟨9, true, false, .written echoWriter⟩], .operation (.opening .wrap),
        .value (.array [.unsigned 1, .null]), .closeWrapBytes true, .operation (.closing .array)]
    let storage (capacity : Nat) : Bytes := List.replicate capacity 0xaa
    let bytes : Bytes := [0x84, 7, 0x44, 0xa1, 9, 0x41, 7, 0xa0, 0x43, 0x82, 1, 0xf6]
    (∀ call ∈ calls, Outlook.bounded.Permits call) ∧
      (runAll (.growable .preferred) calls).2.finish = .ok bytes ∧
      (runAll (.ofOutput (.fixed #[] (storage 12)) .preferred) calls).2.finish = .ok bytes ∧
      (runAll (.ofOutput (.fixed #[] (storage 11)) .preferred) calls).2.finish =
        .error .bufferTooSmall := by
  intro calls storage bytes
  have hpermitted : ∀ call ∈ calls, Outlook.bounded.Permits call := by
    simp [calls, Outlook.permits_iff, Call.IsRegional, Call.writers, Parameter.writer?,
      traceable_echoWriter]
  have hfinish : (runAll (.growable .preferred) calls).2.finish = .ok bytes := by decide +kernel
  have hfixed := finish_runAll_fixed .preferred hpermitted hfinish
  exact ⟨hpermitted, hfinish, (hfixed (storage 12)).1, (hfixed (storage 11)).1⟩

end Cose
