import Mathlib.Tactic.Common
import Cose.Proofs.Cbor.Encoder.Extension
import Cose.Proofs.Cbor.Uniqueness
import Cose.Proofs.Header.Spelling

/-!
# Writing headers within the limits

`WithinLimits` says that the headers made of some parameters keep the limits of an encoding
session. Then nothing can fail: `encodeHeaders_eq_ok_of_withinLimits` gives the session that holds
the headers, and where the content of the protected byte string stands in it. Values may be of
native type or encoded already.

Equal labels would be refused where maps are put in order, but two labels with the same bytes are
the same label (`encoded_int_injective`).
-/

set_option autoImplicit false
set_option relaxedAutoImplicit false

namespace Cose

open Cbor Encoder Node

/-! ### Labels -/

/-- A number is told by its bytes. -/
theorem encoded_int_injective (rules : Rules) :
    Function.Injective fun number ↦ (Scalar.int number).encoded rules := by
  intro first second hsame
  have hregular (number : Int64) : (leaf (intLeaf number)).Regular 0 :=
    WellFormed.regular _ (wellFormed_leaf 0 _)
  have hbytes : (leaf (intLeaf first)).encoded = (leaf (intLeaf second)).encoded := by
    rw [encoded_intLeaf rules, encoded_intLeaf rules]
    exact hsame
  have hleaf := encoded_inj (hregular first) (hregular second) hbytes
  rw [leaf, leaf, Node.mk.injEq, Token.leaf.injEq] at hleaf
  let item : Item := ⟨(intLeaf first).value, 0, 0, []⟩
  have hfirst : item.toInt64 = .ok first := toInt64_of_intLeaf rfl
  have hsecond : item.toInt64 = .ok second :=
    toInt64_of_intLeaf (congrArg Leaf.value hleaf.2.1)
  exact Except.ok.inj (hfirst.symm.trans hsecond)

theorem isNode_int (rules : Rules) (level : Nat) (number : Int64) :
    IsNode level ((Scalar.int number).encoded rules) :=
  ⟨leaf (intLeaf number), WellFormed.regular _ (wellFormed_leaf level _),
    encoded_intLeaf rules number⟩

/-- A map takes entries with distinct labels, if they are not too many. -/
theorem takes_wires (rules : Rules) {entries : List HeaderEntry}
    (hfew : entries.length ≤ maxItems) (hnodup : (entries.map (·.label)).Nodup) :
    Container.map.Takes rules (HeaderEntry.wires rules entries) where
  length_le := by
    rintro _ ⟨⟩
    rw [HeaderEntry.length_wires]
    exact Nat.mul_le_mul_left 2 hfew
  pairs_whole := fun _ ↦ by
    rw [HeaderEntry.length_wires]
    exact Nat.mul_mod_right 2 _
  labels_distinct := fun _ _ ↦ by
    have hlabels : (entries.map (HeaderEntry.wire rules)).map Entry.label =
        (entries.map (·.label)).map fun label ↦ (Scalar.int label).encoded rules := by
      rw [List.map_map, List.map_map]
      rfl
    rw [HeaderEntry.pairs_wires, Entry.Distinct, hlabels]
    exact hnodup.map (encoded_int_injective rules)

/-! ### Entries -/

section Entries

variable {rules : Rules}

theorem ParameterValue.allowed_scalar (hbasic : rules.onlyBasicSimple = false)
    (value : ParameterValue) : value.scalar.Allowed rules := by
  have hpermitted {simple : UInt8} (hassigned : ¬(24 ≤ simple ∧ simple < 32)) :
      (Scalar.simple simple).Allowed rules :=
    ⟨hassigned, fun honly ↦ by rw [hbasic] at honly; cases honly⟩
  cases value with
  | small value =>
    cases value with
    | float number => trivial
    | bool truth => cases truth <;> exact hpermitted (by decide)
    | null => exact hpermitted (by decide)
    | undefined => exact hpermitted (by decide)
  | encoded item => exact hpermitted (by decide)
  | written writer => exact hpermitted (by decide)
  | _ => trivial

theorem extends_value (hbasic : rules.onlyBasicSimple = false) {value : ParameterValue}
    (happended : value.IsAppended) (depth : Nat) :
    Extends rules depth (fun encoder ↦ appendNative encoder value) [value.wire rules] := by
  rcases happended.native_or_encoded with hnative | ⟨item, rfl⟩
  · simp only [ParameterValue.appendNative_eq hnative, ParameterValue.wire_of_native hnative]
    exact extends_scalar (value.allowed_scalar hbasic)
  · exact extends_encoded rules depth item

/-- Parameters are appended as the labels and the values of their entries. -/
theorem extends_parameters (hbasic : rules.onlyBasicSimple = false) {stored : List Parameter}
    (happended : ∀ parameter ∈ stored, parameter.value.IsAppended) (depth : Nat) :
    Extends rules depth (fun encoder ↦ stored.foldl appendParameter encoder)
      (HeaderEntry.wires rules (stored.map .parameter)) := by
  induction stored with
  | nil => exact extends_id rules depth
  | cons parameter rest ih =>
    obtain ⟨hfirst, hrest⟩ := List.forall_mem_cons.1 happended
    have hallowed : (Scalar.int parameter.label).Allowed rules := trivial
    exact ((extends_scalar hallowed).comp (extends_value hbasic hfirst depth)).comp (ih hrest)

/-- Integers between the two ends of an array are appended as its members. -/
theorem extends_ints (rules : Rules) {numbers : List Int64} (hfew : numbers.length ≤ maxItems)
    (depth : Nat) :
    Extends rules (depth + 1) (fun encoder ↦ (numbers.foldl appendInt encoder.openArray).closeArray)
      [Container.array.enclose rules
        (numbers.map fun number ↦ (Scalar.int number).encoded rules)] := by
  have hallowed : ∀ value ∈ numbers.map Scalar.int, value.Allowed rules := by
    simp [Scalar.Allowed]
  have hmembers := @extends_scalars rules depth _ hallowed
  simp only [List.foldl_map, List.map_map] at hmembers
  have hcount : (numbers.map (Scalar.encoded rules ∘ Scalar.int)).length ≤ maxItems := by
    rwa [List.length_map]
  have hnodes : ∀ bytes ∈ numbers.map (Scalar.encoded rules ∘ Scalar.int), IsNode 0 bytes := by
    intro bytes hmem
    obtain ⟨number, _, rfl⟩ := List.mem_map.1 hmem
    exact isNode_int rules 0 number
  have hlimit (limit : Nat) (hlimit : limit ∈ Container.array.limit?) :
      (numbers.map (Scalar.encoded rules ∘ Scalar.int)).length ≤ limit := by
    cases hlimit
    exact hcount
  have htakes : Container.array.Takes rules (numbers.map (Scalar.encoded rules ∘ Scalar.int)) :=
    ⟨hlimit, fun hmap ↦ Bool.noConfusion hmap, fun hmap ↦ by cases hmap⟩
  exact extends_container hmembers hlimit (fun hindefinite ↦ by cases hindefinite) htakes hnodes

/-- The list of critical labels is appended as an entry, if there is one. -/
theorem extends_criticalLabels (rules : Rules) {parameters : List Parameter}
    (hfew : (parameters.filter (·.isCritical)).length ≤ maxCriticalParameters) (depth : Nat) :
    Extends rules (depth + 1)
      (fun encoder ↦ appendCriticalLabels encoder (parameters.filter (·.isCritical)))
      (HeaderEntry.wires rules (criticalEntries parameters)) := by
  unfold criticalEntries
  cases hcritical : parameters.filter (·.isCritical) with
  | nil => exact extends_id rules (depth + 1)
  | cons first rest =>
    rw [hcritical] at hfew
    have hlabels : ((first :: rest).map (·.label)).length ≤ maxItems := by
      rw [List.length_map]
      exact Nat.le_trans hfew (by decide)
    have hlabel : (Scalar.int HeaderLabel.crit.code).Allowed rules := trivial
    have hentry := (extends_scalar hlabel).comp (extends_ints rules hlabels depth)
    simp only [List.foldl_map] at hentry
    exact hentry

/-- Whether entries can be written as a map. -/
structure FillsMap (rules : Rules) (entries : List HeaderEntry) : Prop where
  takes : Container.map.Takes rules (HeaderEntry.wires rules entries)
  isNode : ∀ bytes ∈ HeaderEntry.wires rules entries, IsNode 0 bytes

/-- Entries with distinct labels that suit some readers fill a map, if they are not too many. -/
theorem fillsMap_of_suits (hrules : rules.KeepsNumbers)
    {readers : List (Int64 × ParameterReader)} {entries : List HeaderEntry}
    (hsuits : ∀ entry ∈ entries, entry.Suits readers 1) (hfew : entries.length ≤ maxItems)
    (hnodup : (entries.map (·.label)).Nodup)
    (hlength : (bucketItem rules entries).length < 2 ^ 64) : FillsMap rules entries := by
  have htakes := takes_wires rules hfew hnodup
  refine ⟨htakes, fun bytes hmem ↦ ?_⟩
  have hnode := HeaderEntry.isNode_of_mem_wires hrules (by decide) (fun entry hentry ↦
    ⟨hsuits entry hentry, Nat.lt_of_le_of_lt (length_value_le_bucket htakes hentry) hlength⟩) hmem
  exact hnode.mono (Nat.zero_le 1)

/-- A map is opened, filled and closed around its entries. -/
theorem extends_bucket {entries : List HeaderEntry} (hfills : FillsMap rules entries)
    {append : Encoder → Encoder} {depth : Nat}
    (hextends : Extends rules depth append (HeaderEntry.wires rules entries)) :
    Extends rules (depth + 1) (fun encoder ↦ (append encoder.openMap).closeMap)
      [bucketItem rules entries] :=
  extends_container hextends (fun limit hlimit ↦ hfills.takes.length_le limit hlimit)
    (fun hindefinite ↦ by cases hindefinite) hfills.takes hfills.isNode

end Entries

/-! ### Programs that do not fail -/

theorem modifyGet_eq_ok {α : Type} {change : Encoder → α × Encoder} {encoder after : Encoder}
    {result : α} (hchange : change encoder = (result, after)) :
    (modifyGet change : Session α) encoder = .ok result after := by
  change EStateM.Result.ok (change encoder).1 (change encoder).2 = _
  rw [hchange]

theorem foldl_appendParameter_of_failed {encoder : Encoder} (hfailed : encoder.Failed)
    {stored : List Parameter} (happended : ∀ parameter ∈ stored, parameter.value.IsAppended) :
    stored.foldl appendParameter encoder = encoder := by
  induction stored with
  | nil => rfl
  | cons parameter rest ih =>
    obtain ⟨hfirst, hrest⟩ := List.forall_mem_cons.1 happended
    have hlabel : encoder.appendInt parameter.label = encoder :=
      append_of_failed hfailed (.int parameter.label)
    have hvalue := appendNative_of_failed hfailed hfirst
    rw [List.foldl_cons, appendParameter, hlabel, hvalue]
    exact ih hrest

/-- Parameters are written one after the other, if the session has not failed in the end. -/
theorem forM_encodeParameter_of_live {stored : List Parameter}
    (happended : ∀ parameter ∈ stored, parameter.value.IsAppended) {encoder : Encoder}
    (hlive : ¬(stored.foldl appendParameter encoder).Failed) :
    stored.forM encodeParameter encoder = .ok () (stored.foldl appendParameter encoder) := by
  induction stored generalizing encoder with
  | nil => rfl
  | cons parameter rest ih =>
    obtain ⟨hfirst, hrest⟩ := List.forall_mem_cons.1 happended
    rw [List.foldl_cons] at hlive ⊢
    have hkept : ¬(appendParameter encoder parameter).Failed := fun hfailed ↦
      hlive (by rwa [foldl_appendParameter_of_failed hfailed hrest])
    have hchecked : encodeParameter parameter encoder =
        .ok () (appendParameter encoder parameter) := by
      rw [encodeParameter_eq_check hfirst]
      exact check_of_live hkept
    exact bind_eq_ok_iff.2 ⟨(), _, hchecked, ih hrest hlive⟩

/-! ### Both buckets -/

/-- The bytes of headers: the protected bucket in a byte string, and the unprotected one. -/
def headerBytes (rules : Rules) (parameters : List Parameter) : Bytes :=
  Container.wrap.enclose rules [bucketItem rules (protectedEntries parameters)] ++
    bucketItem rules (unprotectedEntries parameters)

/-- Whether headers keep the limits of an encoding session: no bucket has too many entries, and the
bytes are not too many. -/
structure WithinLimits (rules : Rules) (parameters : List Parameter) : Prop where
  protected_few : (protectedEntries parameters).length ≤ maxItems
  unprotected_few : (unprotectedEntries parameters).length ≤ maxItems
  length_le : (headerBytes rules parameters).length ≤ maxEncodedLength

section Headers

variable {rules : Rules} {parameters : List Parameter}

theorem length_bucketItems_le (hlimits : WithinLimits rules parameters) :
    (bucketItem rules (protectedEntries parameters)).length +
      (bucketItem rules (unprotectedEntries parameters)).length ≤ maxEncodedLength := by
  have hlength := hlimits.length_le
  simp only [headerBytes, Container.enclose, List.flatten_singleton, List.length_append] at hlength
  omega

variable {readers : List (Int64 × ParameterReader)}

theorem isAppended_of_suits {parameter : Parameter} {level : Nat}
    (hsuits : (HeaderEntry.parameter parameter).Suits readers level) :
    parameter.value.IsAppended := by
  rcases hsuits with ⟨hnative, _⟩ | ⟨node, _, hvalue, _⟩
  · exact hnative.isAppended
  · rw [hvalue]
    trivial

theorem suits_protectedEntries {level : Nat}
    (hsuits : ∀ parameter ∈ parameters, (HeaderEntry.parameter parameter).Suits readers level)
    (hlabelled : WellLabelled parameters) :
    ∀ entry ∈ protectedEntries parameters, entry.Suits readers level :=
  forall_protectedEntries hsuits
    (Nat.le_trans (length_criticalLabels_le hlabelled) (by decide))

theorem suits_unprotectedEntries {level : Nat}
    (hsuits : ∀ parameter ∈ parameters, (HeaderEntry.parameter parameter).Suits readers level) :
    ∀ entry ∈ unprotectedEntries parameters, entry.Suits readers level :=
  forall_unprotectedEntries hsuits

/-! ### The steps of a session -/

/-- Append the entries of the protected bucket. -/
def appendProtected (parameters : List Parameter) (encoder : Encoder) : Encoder :=
  appendCriticalLabels ((parameters.filter (·.isProtected)).foldl appendParameter encoder)
    (parameters.filter (·.isCritical))

/-- Append the entries of the unprotected bucket. -/
def appendUnprotected (parameters : List Parameter) (encoder : Encoder) : Encoder :=
  (parameters.filter (!·.isProtected)).foldl appendParameter encoder

theorem not_failed_of_closeMap {encoder : Encoder} (hlive : ¬encoder.closeMap.Failed) :
    ¬encoder.Failed := by
  intro hfailed
  have hclosed : encoder.closeMap = encoder := apply_of_failed hfailed (.closing .map)
  rw [hclosed] at hlive
  exact hlive hfailed

theorem not_failed_of_appendProtected {encoder : Encoder}
    (hlive : ¬(appendProtected parameters encoder).Failed) :
    ¬((parameters.filter (·.isProtected)).foldl appendParameter encoder).Failed := by
  intro hfailed
  rw [appendProtected, appendCriticalLabels_eq, perform_of_failed hfailed] at hlive
  exact hlive hfailed

/-- The map of the protected bucket is written inside its byte string. -/
theorem closeMap_appendProtected (hbasic : rules.onlyBasicSimple = false)
    (happended : ∀ parameter ∈ parameters, parameter.value.IsAppended)
    (hfew : (parameters.filter (·.isCritical)).length ≤ maxCriticalParameters)
    (hfills : FillsMap rules (protectedEntries parameters))
    (hfits : (bucketItem rules (protectedEntries parameters)).length ≤ maxEncodedLength) :
    (appendProtected parameters (growable rules).openWrap.openMap).closeMap =
      around rules [] .wrap [bucketItem rules (protectedEntries parameters)] [] := by
  have hextends : Extends rules 1 (appendProtected parameters)
      (HeaderEntry.wires rules (protectedEntries parameters)) := by
    rw [protectedEntries, HeaderEntry.wires_append]
    exact (extends_parameters hbasic (fun parameter hmem ↦
      happended parameter (List.mem_of_mem_filter hmem)) 1).comp
      (extends_criticalLabels rules hfew 0)
  have hone (limit : Nat) (hlimit : limit ∈ Container.wrap.nest.limit?) : 1 ≤ limit := by
    cases hlimit
    decide
  have hinside : (([] : Bytes) ++ openingBytes .wrap ++
      [bucketItem rules (protectedEntries parameters)].flatten).length ≤ maxEncodedLength := by
    rw [List.flatten_singleton]
    exact hfits
  exact @Extends.around_eq rules 2 .wrap _ _ (extends_bucket hfills hextends) hone [] []
    (hasRoomFor_nil 1).hasRoom (fun hindefinite ↦ by cases hindefinite) (by decide) hinside

/-- The map of the unprotected bucket is written behind the byte string. -/
theorem closeMap_appendUnprotected (hbasic : rules.onlyBasicSimple = false)
    (happended : ∀ parameter ∈ parameters, parameter.value.IsAppended)
    (hfills : FillsMap rules (unprotectedEntries parameters)) {contents : Bytes}
    (hfits : (contents ++ bucketItem rules (unprotectedEntries parameters)).length ≤
      maxEncodedLength) :
    (appendUnprotected parameters (live rules contents [] false).openMap).closeMap =
      live rules (contents ++ bucketItem rules (unprotectedEntries parameters)) [] false := by
  have hextends : Extends rules 0 (appendUnprotected parameters)
      (HeaderEntry.wires rules (unprotectedEntries parameters)) :=
    extends_parameters hbasic (fun parameter hmem ↦
      happended parameter (List.mem_of_mem_filter hmem)) 0
  rw [← List.flatten_singleton (l := bucketItem rules _)] at hfits ⊢
  exact extends_bucket hfills hextends contents [] (hasRoomFor_nil 1) (by decide) hfits

/-- Headers within the limits are written without failure, and it is told where the content of the
protected byte string stands. -/
theorem encodeHeaders_eq_ok_of_withinLimits (hrules : rules.KeepsNumbers)
    (hbasic : rules.onlyBasicSimple = false) (hlabelled : WellLabelled parameters)
    (hsuits : ∀ parameter ∈ parameters, (HeaderEntry.parameter parameter).Suits readers 1)
    (hlimits : WithinLimits rules parameters) :
    let content := bucketItem rules (protectedEntries parameters)
    encodeHeaders parameters (.growable rules) =
      .ok ⟨(shortestHead .bytes (UInt64.ofNat content.length)).length,
          (Container.wrap.enclose rules [content]).length⟩
        (live rules (headerBytes rules parameters) [] false) := by
  intro content
  have happended : ∀ parameter ∈ parameters, parameter.value.IsAppended := fun parameter hmem ↦
    isAppended_of_suits (hsuits parameter hmem)
  have hkept (keep : Parameter → Bool) :
      ∀ parameter ∈ parameters.filter keep, parameter.value.IsAppended := fun parameter hmem ↦
    happended parameter (List.mem_of_mem_filter hmem)
  have hlength := length_bucketItems_le hlimits
  have hlimit : maxEncodedLength < 2 ^ 64 := by decide
  have hfirstFills := fillsMap_of_suits hrules (suits_protectedEntries hsuits hlabelled)
    hlimits.protected_few (labels_nodup_protectedEntries hlabelled) (by omega)
  have hsecondFills := fillsMap_of_suits hrules (suits_unprotectedEntries hsuits)
    hlimits.unprotected_few (labels_nodup_unprotectedEntries hlabelled) (by omega)
  let opened := (growable rules).openWrap.openMap
  have hfirst : (appendProtected parameters opened).closeMap = around rules [] .wrap [content] [] :=
    closeMap_appendProtected hbasic happended hlabelled.critical_few hfirstFills (by omega)
  have hfirstLive := not_failed_of_appendProtected (not_failed_of_closeMap
    (by rw [hfirst]; exact fun hfailed ↦ hfailed rfl))
  have htotal := hlimits.length_le
  rw [headerBytes] at htotal
  have hwrapFits : (([] : Bytes) ++ Container.wrap.enclose rules [content]).length ≤
      maxEncodedLength := by
    rw [List.length_append] at htotal
    exact Nat.le_of_add_right_le htotal
  let wrapped := live rules (Container.wrap.enclose rules [content]) [] false
  let span : Span := ⟨(shortestHead .bytes (UInt64.ofNat content.length)).length,
    (Container.wrap.enclose rules [content]).length⟩
  have hwrap : (around rules [] .wrap [content] []).closeWrap false = (some span, wrapped) := by
    have hclosed := @closeWrap_around_of_fits rules [] [content] [] hwrapFits
    rwa [List.nil_append, List.flatten_singleton, List.length_nil, Nat.zero_add] at hclosed
  have hsecond : (appendUnprotected parameters wrapped.openMap).closeMap =
      live rules (headerBytes rules parameters) [] false :=
    closeMap_appendUnprotected hbasic happended hsecondFills htotal
  have hsecondLive := not_failed_of_closeMap
    (by rw [hsecond]; exact fun hfailed ↦ hfailed rfl)
  rw [encodeHeaders_eq_encodeBuckets hlabelled]
  refine bind_eq_ok_iff.2 ⟨(), opened, rfl, ?_⟩
  refine bind_eq_ok_iff.2 ⟨(), _, forM_encodeParameter_of_live (hkept _) hfirstLive, ?_⟩
  refine bind_eq_ok_iff.2 ⟨(), (appendProtected parameters opened).closeMap, rfl, ?_⟩
  rw [hfirst]
  refine bind_eq_ok_iff.2 ⟨some span, wrapped, modifyGet_eq_ok hwrap, ?_⟩
  refine bind_eq_ok_iff.2 ⟨(), wrapped.openMap, rfl, ?_⟩
  refine bind_eq_ok_iff.2 ⟨(), _, forM_encodeParameter_of_live (hkept _) hsecondLive, ?_⟩
  refine bind_eq_ok_iff.2 ⟨(), (appendUnprotected parameters wrapped.openMap).closeMap, rfl, ?_⟩
  rw [hsecond]
  exact bind_eq_ok_iff.2 ⟨(), _, check_of_live fun hfailed ↦ hfailed rfl, rfl⟩

end Headers

end Cose
