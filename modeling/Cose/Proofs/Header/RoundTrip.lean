import Mathlib.Tactic.Common
import Cose.Proofs.Header.Reading
import Cose.Proofs.Header.Writing

/-!
# Headers are read as they were written

`Storable` parameters have values that are kept by both sides: values of native type, and whole
items that are already encoded, for which the reader is given a table of readers that keep the
encoded value (`KeepsEncoded`). Their headers are written whenever the limits of a session allow it,
and read back with every parameter as it was: `readHeaders_of_encodeHeaders`. Where the rules put
maps in order, the parameters of a bucket may come in another order.
-/

set_option autoImplicit false
set_option relaxedAutoImplicit false

namespace Cose

open Cbor Encoder Node Decoder

/-! ### Parameters that are kept -/

namespace ParameterValue

/-- Whether a value is of native type, or one encoded item that a cursor accepts and whose
containers nest at most thirteen deep. -/
def IsStorable : ParameterValue → Prop
  | encoded item => AcceptsItem 13 item
  | written _ => False
  | _ => True

/-- Whether a value is an item that is already encoded. -/
def isEncoded : ParameterValue → Bool
  | encoded _ => true
  | _ => false

theorem IsStorable.native_or_encoded {value : ParameterValue} (hstorable : value.IsStorable) :
    value.IsNative ∧ value.isEncoded = false ∨
      ∃ item, value = .encoded item ∧ AcceptsItem 13 item := by
  cases value with
  | encoded item => exact .inr ⟨item, rfl, hstorable⟩
  | written writer => exact hstorable.elim
  | _ => exact .inl ⟨trivial, rfl⟩

end ParameterValue

/-- Parameters that are told apart by their labels and whose values are kept. -/
structure Storable (parameters : List Parameter) : Prop extends WellLabelled parameters where
  values_storable : ∀ parameter ∈ parameters, parameter.value.IsStorable

/-- The labels of the parameters whose values are already encoded. -/
def encodedLabels (parameters : List Parameter) : List Int64 :=
  (parameters.filter (·.value.isEncoded)).map (·.label)

/-- Whether there is a reader for exactly the labels of encoded values, and it keeps the encoded
value. -/
def KeepsEncoded (readers : List (Int64 × ParameterReader)) (parameters : List Parameter) : Prop :=
  ∀ label, readers.lookup label =
    if label ∈ encodedLabels parameters then some ParameterReader.raw else none

theorem label_mem_encodedLabels {parameters : List Parameter} (hlabelled : WellLabelled parameters)
    {parameter : Parameter} (hmem : parameter ∈ parameters) :
    parameter.label ∈ encodedLabels parameters ↔ parameter.value.isEncoded = true := by
  constructor
  · intro hlabel
    obtain ⟨other, hother, hequal⟩ := List.mem_map.1 hlabel
    obtain ⟨hother, hencoded⟩ := List.mem_filter.1 hother
    rwa [List.inj_on_of_nodup_map hlabelled.labels_nodup hother hmem hequal] at hencoded
  · exact fun hencoded ↦ List.mem_map.2 ⟨parameter, List.mem_filter.2 ⟨hmem, hencoded⟩, rfl⟩

/-- Every storable parameter can be written inside a bucket, and taken by the readers. -/
theorem Storable.suits {parameters : List Parameter} (hstorable : Storable parameters)
    {readers : List (Int64 × ParameterReader)} (hreaders : KeepsEncoded readers parameters) :
    ∀ parameter ∈ parameters, (HeaderEntry.parameter parameter).Suits readers 1 := by
  intro parameter hmem
  have hlabel := label_mem_encodedLabels hstorable.toWellLabelled hmem
  have hlookup := hreaders parameter.label
  rcases (hstorable.values_storable parameter hmem).native_or_encoded with
    ⟨hnative, hplain⟩ | ⟨item, hvalue, haccepts⟩
  · rw [hplain] at hlabel
    rw [if_neg fun hlisted ↦ Bool.false_ne_true (hlabel.1 hlisted)] at hlookup
    exact .inl ⟨hnative, hlookup⟩
  · obtain ⟨node, hnode, rfl⟩ :=
      exists_node_of_acceptsItem haccepts (by decide : 13 + 1 ≤ maxNesting)
    rw [hvalue] at hlabel
    rw [if_pos (hlabel.2 rfl)] at hlookup
    exact .inr ⟨node, hnode, hvalue, hlookup⟩

/-! ### Round trip -/

section RoundTrip

variable {rules : Rules} {parameters : List Parameter} {readers : List (Int64 × ParameterReader)}

/-- The bytes of headers are those of two nodes: a byte string with the map of the protected bucket
inside, and the map of the unprotected bucket. -/
theorem exists_nodes_of_headerBytes (hrules : rules.KeepsNumbers)
    (hlabelled : WellLabelled parameters)
    (hsuits : ∀ parameter ∈ parameters, (HeaderEntry.parameter parameter).Suits readers 1)
    (hlimits : WithinLimits rules parameters) :
    ∃ (first : BucketNode readers (protectedEntries parameters))
      (second : BucketNode readers (unprotectedEntries parameters)) (length : Argument)
      (hlength : length.number.toNat = first.node.encoded.length),
      first.node.WellFormed 0 ∧ second.node.WellFormed 0 ∧
        first.node.encoded = bucketItem rules (protectedEntries parameters) ∧
        (leaf (.bytes length first.node.encoded hlength)).encoded ++ second.node.encoded =
          headerBytes rules parameters ∧
        (rules.sortMaps = false → first.stored = parameters.filter (·.isProtected) ∧
          second.stored = parameters.filter (!·.isProtected)) := by
  have htotal := length_bucketItems_le hlimits
  have hlimit : maxEncodedLength < 2 ^ 64 := by decide
  obtain ⟨first, hfirst, hfirstBytes, hfirstSame⟩ := exists_bucketNode hrules (by decide)
    (suits_protectedEntries hsuits hlabelled)
    (takes_wires rules hlimits.protected_few (labels_nodup_protectedEntries hlabelled)) (by omega)
  obtain ⟨second, hsecond, hsecondBytes, hsecondSame⟩ := exists_bucketNode hrules (by decide)
    (suits_unprotectedEntries hsuits)
    (takes_wires rules hlimits.unprotected_few (labels_nodup_unprotectedEntries hlabelled))
    (by omega)
  have hfirstLength : (bucketItem rules (protectedEntries parameters)).length < 2 ^ 64 := by
    omega
  have hlength : (UInt64.ofNat first.node.encoded.length).toNat = first.node.encoded.length := by
    rw [hfirstBytes]
    exact UInt64.toNat_ofNat_of_lt' hfirstLength
  refine ⟨first, second, .shortest (UInt64.ofNat first.node.encoded.length), hlength, hfirst,
    hsecond, hfirstBytes, ?_, fun hsort ↦ ⟨?_, ?_⟩⟩
  · rw [encoded_leaf, hsecondBytes, headerBytes, Container.enclose, List.flatten_singleton,
      ← hfirstBytes]
    rfl
  · rw [BucketNode.stored, hfirstSame hsort, filterMap_protectedEntries]
  · rw [BucketNode.stored, hsecondSame hsort, unprotectedEntries, filterMap_parameter]

/-- The content of the protected byte string is viewed in the bytes of headers. -/
theorem view?_headerBytes (rules : Rules) (parameters : List Parameter) :
    let content := bucketItem rules (protectedEntries parameters)
    (live rules (headerBytes rules parameters) [] false).view?
        (shortestHead .bytes (UInt64.ofNat content.length)).length
        (Container.wrap.enclose rules [content]).length = some content := by
  intro content
  let head := shortestHead .bytes (UInt64.ofNat content.length)
  have hwrap : Container.wrap.enclose rules [content] = head ++ content := by
    rw [Container.enclose, List.flatten_singleton]
  have hbytes : headerBytes rules parameters =
      head ++ content ++ bucketItem rules (unprotectedEntries parameters) := by
    rw [← hwrap]
    rfl
  rw [hbytes, hwrap, List.length_append]
  exact view?_live head content _

/-- Headers that were written are read back: the content of the protected byte string as it stands
in the session, and every parameter as it was, those of the protected bucket first. Only where maps
are put in order may the parameters of a bucket come in another order than they were given in. -/
theorem readHeaders_of_encodeHeaders
    (hrules : rules = .preferred ∨ rules = .noPreferred ∨ rules = .coreDeterministic)
    (hstorable : Storable parameters) (hlimits : WithinLimits rules parameters)
    (hreaders : KeepsEncoded readers parameters) {capacity : Nat}
    (hcapacity : parameters.length ≤ capacity) :
    ∃ span encoder headers after last,
      encodeHeaders parameters (.growable rules) = .ok span encoder ∧
      encoder.finish = .ok (headerBytes rules parameters) ∧
      (readHeaders readers capacity).run (ofBytes (headerBytes rules parameters)) =
        .ok headers after ∧
      Decoder.finish after = .ok () last ∧
      encoder.view? span.start span.stop = some headers.protectedBytes ∧
      (rules ≠ .coreDeterministic → headers.parameters =
        parameters.filter (·.isProtected) ++ parameters.filter (!·.isProtected)) ∧
      ∃ first second, headers.parameters = first ++ second ∧
        first.Perm (parameters.filter (·.isProtected)) ∧
        second.Perm (parameters.filter (!·.isProtected)) := by
  have hkeeps : rules.KeepsNumbers := by
    obtain rfl | rfl | rfl := hrules <;> exact ⟨rfl, rfl⟩
  have hbasic : rules.onlyBasicSimple = false := by
    obtain rfl | rfl | rfl := hrules <;> rfl
  have hsort : rules ≠ .coreDeterministic → rules.sortMaps = false := by
    obtain rfl | rfl | rfl := hrules
    · exact fun _ ↦ rfl
    · exact fun _ ↦ rfl
    · exact fun hother ↦ absurd rfl hother
  have hlabelled := hstorable.toWellLabelled
  have hsuits := hstorable.suits hreaders
  have hencode := encodeHeaders_eq_ok_of_withinLimits hkeeps hbasic hlabelled hsuits hlimits
  obtain ⟨first, second, length, hlength, hfirst, hsecond, hcontent, hbytes, hsame⟩ :=
    exists_nodes_of_headerBytes hkeeps hlabelled hsuits hlimits
  obtain ⟨after, last, hread, hfinish⟩ :=
    readHeaders_of_nodes hlabelled hcapacity first hfirst second hsecond hlength
  rw [hbytes] at hread
  refine ⟨_, _, _, after, last, hencode, finish_live _, hread, hfinish, ?_, fun hother ↦ ?_,
    first.stored, second.stored, rfl, first.perm_protected, second.perm_unprotected⟩
  · rw [hcontent]
    exact view?_headerBytes rules parameters
  · obtain ⟨hfirstStored, hsecondStored⟩ := hsame (hsort hother)
    rw [hfirstStored, hsecondStored]

/-- A critical algorithm identifier, a number, and an array that is already encoded. -/
def nestedParameters : List Parameter :=
  [⟨HeaderLabel.alg.code, true, true, .int (-7)⟩,
    ⟨100, false, false, .encoded [0x82, 0x01, 0x80]⟩,
    ⟨101, true, false, .small (.float ⟨0x7ff0000000000001⟩)⟩]

theorem storable_nestedParameters : Storable nestedParameters where
  labels_nodup := by decide
  label_ne_crit := by simp [nestedParameters]; decide
  critical_protected := by simp [nestedParameters]
  critical_few := by decide
  values_storable := by
    simp only [nestedParameters, List.forall_mem_cons]
    refine ⟨trivial, ⟨⟨.array (some 2), 0, 1, []⟩,
      [⟨.unsigned 1, 1, 1, []⟩, ⟨.array (some 0), 1, 0, []⟩], ?_, ?_, ?_⟩, trivial, nofun⟩
    · with_unfolding_all rfl
    · decide
    · decide

theorem withinLimits_nestedParameters : WithinLimits .preferred nestedParameters where
  protected_few := by decide
  unprotected_few := by decide
  length_le := by decide

theorem keepsEncoded_nestedParameters : KeepsEncoded [(100, .raw)] nestedParameters := by
  intro label
  have hlabels : encodedLabels nestedParameters = [100] := rfl
  by_cases hlabel : label = 100
  · rw [hlabels, hlabel, if_pos (List.mem_singleton_self 100)]
    rfl
  · rw [hlabels, if_neg fun hmem ↦ hlabel (List.mem_singleton.1 hmem)]
    simp [hlabel]

theorem readHeaders_of_encodeHeaders_nestedParameters :
    ∃ span encoder headers after last,
      encodeHeaders nestedParameters (.growable .preferred) = .ok span encoder ∧
      encoder.finish = .ok (headerBytes .preferred nestedParameters) ∧
      (readHeaders [(100, .raw)] 3).run (ofBytes (headerBytes .preferred nestedParameters)) =
        .ok headers after ∧
      Decoder.finish after = .ok () last ∧
      encoder.view? span.start span.stop = some headers.protectedBytes ∧
      headers.parameters = nestedParameters.filter (·.isProtected) ++
        nestedParameters.filter (!·.isProtected) := by
  obtain ⟨span, encoder, headers, after, last, hencode, hfinish, hread, hlast, hview, hsame, _⟩ :=
    readHeaders_of_encodeHeaders (.inl rfl) storable_nestedParameters withinLimits_nestedParameters
      keepsEncoded_nestedParameters (Nat.le_refl 3)
  exact ⟨span, encoder, headers, after, last, hencode, hfinish, hread, hlast, hview,
    hsame (by decide)⟩

end RoundTrip

end Cose
