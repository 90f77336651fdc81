import Cose.Proofs.Header.Acceptance

/-!
# Critical parameters that were read

The labels in the list of critical labels are looked up among the parameters of both buckets, so a
critical parameter that was read need not be protected. It always is exactly if all listed labels
stand in the protected bucket (`critical_protected_iff_of_readHeaders`). The list of
`readHeaders_critical_unprotected` has a label that stands in the unprotected bucket.
-/

set_option autoImplicit false
set_option relaxedAutoImplicit false

namespace Cose

open Cbor

variable {readers : List (Int64 × ParameterReader)} {capacity : Nat}

/-- The protected bucket, read by itself, holds protected parameters with distinct labels. -/
theorem ProtectedRead.grows {content : Bytes} {first : HeaderState}
    (hread : ProtectedRead readers capacity content first) :
    HeaderState.Grows true ⟨[], none⟩ first := by
  rcases hread with ⟨_, rfl⟩ | ⟨_, _, _, hbucket, _⟩
  · exact .refl _
  · exact grows_of_run_readBucket hbucket

/-- Parameters of which a critical one is not protected are not written. -/
theorem encodeHeaders_of_critical_unprotected {parameters : List Parameter}
    {parameter : Parameter} (hmem : parameter ∈ parameters)
    (hcritical : parameter.isCritical = true) (hunprotected : parameter.isProtected = false)
    (encoder : Encoder) :
    encodeHeaders parameters encoder = .error .criticalInUnprotected encoder := by
  have hany : (parameters.filter (·.isCritical)).any (!·.isProtected) = true :=
    List.any_eq_true.2 ⟨parameter, List.mem_filter.2 ⟨hmem, hcritical⟩, by simp [hunprotected]⟩
  unfold encodeHeaders
  simp only [hany, if_true]
  rfl

/-- The parameters that were read are those of the protected bucket and of the other one behind it,
with distinct labels, and those with a listed label are marked. -/
theorem parameters_of_readHeaders {before after : Decoder} {headers : DecodedHeaders}
    (hrun : (readHeaders readers capacity).run before = .ok headers after) :
    ∃ (first : HeaderState) (added : List Parameter),
      ProtectedRead readers capacity headers.protectedBytes first ∧
      (∀ parameter ∈ first.parameters,
        parameter.isProtected = true ∧ parameter.isCritical = false) ∧
      (∀ parameter ∈ added, parameter.isProtected = false ∧ parameter.isCritical = false) ∧
      ((first.parameters ++ added).map (·.label)).Nodup ∧
      (∀ label ∈ first.listed, label ∈ (first.parameters ++ added).map (·.label)) ∧
      headers.parameters = (first.parameters ++ added).map (·.markListed first.listed) := by
  obtain ⟨_, _, first, last, _, _, hfirst, hbucket, hmarks⟩ := readHeaders_cases hrun
  have hsecond := grows_of_run_readBucket hbucket
  have hnodup : (last.parameters.map (·.label)).Nodup :=
    hsecond.labels_nodup (hfirst.grows.labels_nodup List.nodup_nil)
  have hlisted : last.listed = first.listed := by
    rw [HeaderState.listed, hsecond.critical_eq rfl, HeaderState.listed]
  obtain ⟨hall, hmarked⟩ := hmarks.eq_map hnodup
  obtain ⟨stored, hstored, hstoredFlags⟩ := hfirst.grows.parameters_eq
  obtain ⟨added, hadded, haddedFlags⟩ := hsecond.parameters_eq
  rw [List.nil_append] at hstored
  rw [hadded] at hnodup
  rw [hlisted, hadded] at hall hmarked
  exact ⟨first, added, hfirst, hstored ▸ hstoredFlags, haddedFlags, hnodup, hall, hmarked⟩

/-- The critical parameters among those that were read are the ones with a listed label. All of
them are protected if and only if every listed label was stored from the protected bucket, and where
that is not so, the parameters cannot be written again. -/
theorem critical_protected_iff_of_readHeaders {before after : Decoder} {headers : DecodedHeaders}
    (hrun : (readHeaders readers capacity).run before = .ok headers after) :
    ∃ first : HeaderState, ProtectedRead readers capacity headers.protectedBytes first ∧
      (∀ parameter ∈ headers.parameters,
        parameter.isCritical = true ↔ parameter.label ∈ first.listed) ∧
      ((∀ parameter ∈ headers.parameters, parameter.isCritical = true →
          parameter.isProtected = true) ↔
        ∀ label ∈ first.listed, label ∈ first.parameters.map (·.label)) ∧
      ((∃ label ∈ first.listed, label ∉ first.parameters.map (·.label)) →
        ∀ encoder,
          encodeHeaders headers.parameters encoder = .error .criticalInUnprotected encoder) := by
  obtain ⟨first, added, hfirst, hstored, hadded, hnodup, hall, hmarked⟩ :=
    parameters_of_readHeaders hrun
  have hplain : ∀ parameter ∈ first.parameters ++ added, parameter.isCritical = false :=
    fun _ hmem ↦ (List.mem_append.1 hmem).elim (fun hmem ↦ (hstored _ hmem).2)
      fun hmem ↦ (hadded _ hmem).2
  -- A listed label that is not among the protected ones was stored from the other bucket.
  have hunprotected : ∀ label ∈ first.listed, label ∉ first.parameters.map (·.label) →
      ∃ parameter ∈ headers.parameters, parameter.isCritical = true ∧
        parameter.isProtected = false := by
    intro label hlabel hmissing
    have hmem := hall label hlabel
    rw [List.map_append] at hmem
    obtain ⟨parameter, hparameter, rfl⟩ :=
      List.mem_map.1 ((List.mem_append.1 hmem).resolve_left hmissing)
    obtain ⟨hflag, huncritical⟩ := hadded parameter hparameter
    refine ⟨parameter.markListed first.listed, ?_, ?_, ?_⟩
    · rw [hmarked]
      exact List.mem_map_of_mem (List.mem_append_right _ hparameter)
    · exact (Parameter.isCritical_markListed _ huncritical).2 hlabel
    · rwa [Parameter.isProtected_markListed]
  refine ⟨first, hfirst, ?_, ⟨?_, ?_⟩, ?_⟩
  · intro parameter hmem
    rw [hmarked] at hmem
    obtain ⟨original, horiginal, rfl⟩ := List.mem_map.1 hmem
    rw [Parameter.label_markListed]
    exact Parameter.isCritical_markListed _ (hplain original horiginal)
  · intro hprotected label hlabel
    by_contra hmissing
    obtain ⟨parameter, hmem, hcritical, hflag⟩ := hunprotected label hlabel hmissing
    rw [hprotected parameter hmem hcritical] at hflag
    cases hflag
  · intro hlabels parameter hmem hcritical
    rw [hmarked] at hmem
    obtain ⟨original, horiginal, rfl⟩ := List.mem_map.1 hmem
    rw [Parameter.isCritical_markListed _ (hplain original horiginal)] at hcritical
    obtain ⟨other, hother, hsame⟩ := List.mem_map.1 (hlabels _ hcritical)
    have hotherMem : other ∈ first.parameters ++ added := List.mem_append_left _ hother
    rw [← List.inj_on_of_nodup_map hnodup hotherMem horiginal hsame,
      Parameter.isProtected_markListed]
    exact (hstored other hother).1
  · rintro ⟨label, hlabel, hmissing⟩ encoder
    obtain ⟨parameter, hmem, hcritical, hflag⟩ := hunprotected label hlabel hmissing
    exact encodeHeaders_of_critical_unprotected hmem hcritical hflag encoder

/-- A list of critical labels names a parameter of the unprotected bucket: it is read as critical,
and is not protected. -/
theorem readHeaders_critical_unprotected :
    ∃ headers after, (readHeaders [] 4).run
        (.ofBytes [0x44, 0xa1, 0x02, 0x81, 0x04, 0xa1, 0x04, 0x41, 0x31]) = .ok headers after ∧
      ∃ parameter ∈ headers.parameters,
        parameter.isCritical = true ∧ parameter.isProtected = false :=
  ⟨⟨[0xa1, 0x02, 0x81, 0x04], [⟨4, false, true, .bytes [0x31]⟩]⟩, ⟨[], 9, [⟨.items 0, true, 2⟩]⟩,
    by with_unfolding_all rfl, _, .head _, rfl, rfl⟩

/-- A protected parameter with a listed label, and another one in the unprotected bucket. -/
theorem critical_protected_iff_of_readHeaders_alg :
    let headers : DecodedHeaders := ⟨[0xa2, 0x01, 0x01, 0x02, 0x81, 0x01],
      [⟨1, true, true, .int 1⟩, ⟨4, false, false, .bytes [0x31]⟩]⟩
    (readHeaders [] 4).run (.ofBytes
        [0x46, 0xa2, 0x01, 0x01, 0x02, 0x81, 0x01, 0xa1, 0x04, 0x41, 0x31]) =
      .ok headers ⟨[], 11, [⟨.items 0, true, 2⟩]⟩ ∧
    ∃ first : HeaderState, ProtectedRead [] 4 headers.protectedBytes first ∧
      (∀ parameter ∈ headers.parameters,
        parameter.isCritical = true ↔ parameter.label ∈ first.listed) ∧
      ((∀ parameter ∈ headers.parameters, parameter.isCritical = true →
          parameter.isProtected = true) ↔
        ∀ label ∈ first.listed, label ∈ first.parameters.map (·.label)) ∧
      ((∃ label ∈ first.listed, label ∉ first.parameters.map (·.label)) →
        ∀ encoder,
          encodeHeaders headers.parameters encoder = .error .criticalInUnprotected encoder) := by
  intro headers
  have hrun : (readHeaders [] 4).run (.ofBytes
        [0x46, 0xa2, 0x01, 0x01, 0x02, 0x81, 0x01, 0xa1, 0x04, 0x41, 0x31]) =
      .ok headers ⟨[], 11, [⟨.items 0, true, 2⟩]⟩ := by with_unfolding_all rfl
  exact ⟨hrun, critical_protected_iff_of_readHeaders hrun⟩

end Cose
