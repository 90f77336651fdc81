import Cose.Proofs.Header.Critical

/-!
# What is reported as protected

The content of the protected byte string is read by itself, before anything of the unprotected map
is seen, and what the map adds stands behind it. So the protected parameters that are returned, with
their marks and in their order, and the algorithm identifier depend on that content alone
(`protected_eq_of_readHeaders`), although both buckets are stored in one list and the critical
labels are looked up among all parameters of that list.
-/

set_option autoImplicit false
set_option relaxedAutoImplicit false

namespace Cose

open Cbor

variable {readers : List (Int64 × ParameterReader)} {capacity : Nat}

/-- Whether the next item is a byte string with given content. -/
def Cbor.Decoder.BytesAhead (decoder : Decoder) (content : Bytes) : Prop :=
  ∃ item after, Decoder.next decoder = .ok item after ∧ item.value = .bytes content

/-- The content of the protected byte string is read in one way only. -/
theorem ProtectedRead.unique {content : Bytes} {first second : HeaderState}
    (hfirst : ProtectedRead readers capacity content first)
    (hsecond : ProtectedRead readers capacity content second) : first = second := by
  rcases hfirst with ⟨hempty, rfl⟩ | ⟨hsome, middle, last, hbucket, _⟩
  · rcases hsecond with ⟨_, rfl⟩ | ⟨hsome, _⟩
    · rfl
    · exact absurd hempty hsome
  · rcases hsecond with ⟨hempty, _⟩ | ⟨_, other, _, hother, _⟩
    · exact absurd hempty hsome
    · rw [hbucket] at hother
      cases hother
      rfl

/-- Parameters that are not protected do not give an algorithm identifier. -/
theorem algorithmId?_of_unprotected {parameters : List Parameter}
    (hunprotected : ∀ parameter ∈ parameters, parameter.isProtected = false) :
    algorithmId? parameters = none := by
  unfold algorithmId?
  split
  next hfind =>
    have hflag := hunprotected _ (List.mem_of_find?_eq_some hfind)
    cases hflag
  · rfl

/-- Parameters behind others that are not protected do not take part in the search for an algorithm
identifier. -/
theorem algorithmId?_append {left right : List Parameter}
    (hright : ∀ parameter ∈ right, parameter.isProtected = false) :
    algorithmId? (left ++ right) = algorithmId? left := by
  have hsplit : findParameter? (left ++ right) HeaderLabel.alg.code =
      (findParameter? left HeaderLabel.alg.code).or
        (findParameter? right HeaderLabel.alg.code) := List.find?_append
  cases hfind : findParameter? left HeaderLabel.alg.code with
  | some parameter =>
    rw [hfind, Option.some_or] at hsplit
    simp only [algorithmId?, hsplit, hfind]
  | none =>
    rw [hfind, Option.none_or] at hsplit
    have hnone := algorithmId?_of_unprotected hright
    simp only [algorithmId?, hsplit, hfind] at hnone ⊢
    exact hnone

/-- The parameters that were read are those of the protected bytes, marked as these list them, and
others behind them that are not protected. -/
theorem exists_protected_of_readHeaders {before after : Decoder} {headers : DecodedHeaders}
    (hrun : (readHeaders readers capacity).run before = .ok headers after) :
    ∃ first added, ProtectedRead readers capacity headers.protectedBytes first ∧
      headers.parameters = first.parameters.map (·.markListed first.listed) ++ added ∧
      headers.parameters.filter (·.isProtected) =
        first.parameters.map (·.markListed first.listed) ∧
      ∀ parameter ∈ added, parameter.isProtected = false := by
  obtain ⟨first, added, hfirst, hstored, hadded, _, _, hmarked⟩ := parameters_of_readHeaders hrun
  have hleft : ∀ parameter ∈ first.parameters.map (·.markListed first.listed),
      parameter.isProtected = true := by
    intro parameter hmem
    obtain ⟨original, horiginal, rfl⟩ := List.mem_map.1 hmem
    rw [Parameter.isProtected_markListed]
    exact (hstored original horiginal).1
  have hright : ∀ parameter ∈ added.map (·.markListed first.listed),
      parameter.isProtected = false := by
    intro parameter hmem
    obtain ⟨original, horiginal, rfl⟩ := List.mem_map.1 hmem
    rw [Parameter.isProtected_markListed]
    exact (hadded original horiginal).1
  rw [List.map_append] at hmarked
  refine ⟨first, _, hfirst, hmarked, ?_, hright⟩
  rw [hmarked, List.filter_append, List.filter_eq_self.2 hleft,
    List.filter_eq_nil_iff.2 fun parameter hmem ↦ by simp [hright parameter hmem],
    List.append_nil]

/-- The protected bytes that are returned are the content of the byte string ahead. -/
theorem protectedBytes_of_readHeaders {before after : Decoder} {headers : DecodedHeaders}
    (hrun : (readHeaders readers capacity).run before = .ok headers after) {content : Bytes}
    (hahead : before.BytesAhead content) : headers.protectedBytes = content := by
  obtain ⟨item, middle, _, _, hnext, hbytes, _⟩ := readHeaders_cases hrun
  obtain ⟨other, _, hother, hvalue⟩ := hahead
  rw [hnext] at hother
  cases hother
  rw [(of_expectBytes hbytes).1] at hvalue
  exact ItemValue.bytes.inj hvalue

/-- Two readings of headers with the same content in the protected byte string return that content,
the same protected parameters in the same order, with the same values and marks, and the same
algorithm identifier, whatever stands in the unprotected maps. -/
theorem protected_eq_of_readHeaders {content : Bytes} {before after other last : Decoder}
    {headers counterpart : DecodedHeaders} (hahead : before.BytesAhead content)
    (hotherAhead : other.BytesAhead content)
    (hrun : (readHeaders readers capacity).run before = .ok headers after)
    (hother : (readHeaders readers capacity).run other = .ok counterpart last) :
    headers.protectedBytes = content ∧ counterpart.protectedBytes = content ∧
      headers.parameters.filter (·.isProtected) =
        counterpart.parameters.filter (·.isProtected) ∧
      headers.algorithmId? = counterpart.algorithmId? := by
  have hcontent := protectedBytes_of_readHeaders hrun hahead
  have hsame := protectedBytes_of_readHeaders hother hotherAhead
  obtain ⟨first, added, hfirst, hmarked, hfilter, hright⟩ := exists_protected_of_readHeaders hrun
  obtain ⟨second, more, hsecond, hotherMarked, hotherFilter, hotherRight⟩ :=
    exists_protected_of_readHeaders hother
  rw [hcontent] at hfirst
  rw [hsame] at hsecond
  obtain rfl := hfirst.unique hsecond
  refine ⟨hcontent, hsame, hfilter.trans hotherFilter.symm, ?_⟩
  rw [DecodedHeaders.algorithmId?, DecodedHeaders.algorithmId?, hmarked, hotherMarked,
    algorithmId?_append hright, algorithmId?_append hotherRight]

/-- The protected bytes hold an algorithm identifier and list the labels 1 and 4 as critical. One
unprotected map has a key identifier under label 4, the other one a different value under the same
label and a further parameter. -/
theorem protected_eq_of_readHeaders_listed :
    let content : Bytes := [0xa2, 0x01, 0x07, 0x02, 0x82, 0x01, 0x04]
    let before := Decoder.ofBytes (0x47 :: content ++ [0xa1, 0x04, 0x41, 0x31])
    let other := Decoder.ofBytes (0x47 :: content ++ [0xa2, 0x05, 0x40, 0x04, 0x07])
    let headers : DecodedHeaders :=
      ⟨content, [⟨1, true, true, .int 7⟩, ⟨4, false, true, .bytes [0x31]⟩]⟩
    let counterpart : DecodedHeaders :=
      ⟨content, [⟨1, true, true, .int 7⟩, ⟨5, false, false, .bytes []⟩,
        ⟨4, false, true, .int 7⟩]⟩
    before.BytesAhead content ∧ other.BytesAhead content ∧
      (readHeaders [] 4).run before = .ok headers ⟨[], 12, [⟨.items 0, true, 2⟩]⟩ ∧
      (readHeaders [] 4).run other = .ok counterpart ⟨[], 13, [⟨.items 0, true, 4⟩]⟩ ∧
      headers.protectedBytes = content ∧ counterpart.protectedBytes = content ∧
      headers.parameters.filter (·.isProtected) =
        counterpart.parameters.filter (·.isProtected) ∧
      headers.algorithmId? = counterpart.algorithmId? := by
  intro content before other headers counterpart
  have hahead : before.BytesAhead content :=
    ⟨⟨.bytes content, 0, 0, []⟩, ⟨[0xa1, 0x04, 0x41, 0x31], 8, []⟩,
      by with_unfolding_all rfl, rfl⟩
  have hotherAhead : other.BytesAhead content :=
    ⟨⟨.bytes content, 0, 0, []⟩, ⟨[0xa2, 0x05, 0x40, 0x04, 0x07], 8, []⟩,
      by with_unfolding_all rfl, rfl⟩
  have hrun : (readHeaders [] 4).run before =
      .ok headers ⟨[], 12, [⟨.items 0, true, 2⟩]⟩ := by with_unfolding_all rfl
  have hother : (readHeaders [] 4).run other =
      .ok counterpart ⟨[], 13, [⟨.items 0, true, 4⟩]⟩ := by with_unfolding_all rfl
  exact ⟨hahead, hotherAhead, hrun, hother,
    protected_eq_of_readHeaders hahead hotherAhead hrun hother⟩

end Cose
