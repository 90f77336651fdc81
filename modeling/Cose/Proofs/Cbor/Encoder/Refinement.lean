import Mathlib.Tactic.Common
import Cose.Proofs.Cbor.Encoder.Draft
import Cose.Proofs.Cbor.Encoder.Realization
import Cose.Proofs.Cbor.Encoder.Session

/-!
# The encoder refines plain serialization

A session that holds a draft is a live session with the bytes and the open items of the draft
(`Draft.session`). Each operation either does to it what a step does to the draft, or fails and
there is no step that keeps the limit on length (`Draft.conforms`). So a session follows the run of
its draft as long as there is one.

Together with the runs of traversals this characterizes the sessions that finish:
`Encoder.finish_perform_eq_ok_iff`.
-/

set_option autoImplicit false
set_option relaxedAutoImplicit false

namespace Cose.Cbor

open Encoder

/-! ### Closing a container -/

section Closing

variable {rules : Rules} {base : Bytes} {members : List Bytes} {frames : List Frame}

/-- A session in which a container with some members is open, over the bytes before it. -/
def around (rules : Rules) (base : Bytes) (kind : Container) (members : List Bytes)
    (frames : List Frame) : Encoder :=
  live rules (base ++ openingBytes kind.nest ++ members.flatten)
    (⟨kind.nest, (base ++ openingBytes kind.nest).length, members.length⟩ :: frames) false

theorem pop_around (kind : Container) :
    (around rules base kind members frames).pop kind.nest =
      (some ⟨kind.nest, (base ++ openingBytes kind.nest).length, members.length⟩,
        live rules (base ++ openingBytes kind.nest ++ members.flatten) frames false) :=
  pop_live

theorem closeArray_around :
    (around rules base .array members frames).closeArray =
      (live rules (base ++ members.flatten) frames false).insert base.length
        (shortestHead .array (UInt64.ofNat members.length)) := by
  have hpop : (around rules base .array members frames).pop .array = _ := pop_around .array
  rw [closeArray, hpop]
  simp [Container.nest, openingBytes, shortestHead, Argument.encodeHead_zero]

theorem closeWrap_around_eq :
    let head := shortestHead .bytes (UInt64.ofNat members.flatten.length)
    let inserted := (live rules (base ++ members.flatten) frames false).insert base.length head
    (around rules base .wrap members frames).closeWrap false =
      match inserted.error with
      | some _ => (none, inserted)
      | none => (some ⟨base.length + head.length, inserted.length⟩, inserted) := by
  have hpop : (around rules base .wrap members frames).pop .wrap = _ := pop_around .wrap
  rw [closeWrap, hpop]
  simp only [Container.nest, openingBytes, List.append_nil, length_live, List.length_append,
    Nat.add_sub_cancel_left, shortestHead, Argument.encodeHead_zero]
  rfl

theorem closeWrap_around :
    ((around rules base .wrap members frames).closeWrap false).2 =
      (live rules (base ++ members.flatten) frames false).insert base.length
        (shortestHead .bytes (UInt64.ofNat members.flatten.length)) := by
  rw [closeWrap_around_eq]
  split <;> rfl

/-- A byte string is closed where its bytes fit, and it is told exactly where its content stands. -/
theorem closeWrap_around_of_fits
    (hfits : (base ++ Container.wrap.enclose rules members).length ≤ maxEncodedLength) :
    (around rules base .wrap members frames).closeWrap false =
      (some ⟨base.length + (shortestHead .bytes (UInt64.ofNat members.flatten.length)).length,
          (base ++ Container.wrap.enclose rules members).length⟩,
        live rules (base ++ Container.wrap.enclose rules members) frames false) := by
  rw [Container.enclose, ← List.append_assoc] at hfits ⊢
  rw [closeWrap_around_eq, insert_live hfits, length_live]
  rfl

/-- Where a byte string is closed, its bytes fit. -/
theorem closeWrap_around_eq_some {span : Span} {after : Encoder}
    (hclose : (around rules base .wrap members frames).closeWrap false = (some span, after)) :
    span = ⟨base.length + (shortestHead .bytes (UInt64.ofNat members.flatten.length)).length,
      (base ++ Container.wrap.enclose rules members).length⟩ := by
  by_cases hfits : (base ++ Container.wrap.enclose rules members).length ≤ maxEncodedLength
  · rw [closeWrap_around_of_fits hfits] at hclose
    cases hclose
    rfl
  · rw [Container.enclose, ← List.append_assoc] at hfits
    have hfailed : ((live rules (base ++ members.flatten) frames false).insert base.length
        (shortestHead .bytes (UInt64.ofNat members.flatten.length))).Failed :=
      failed_insert_live (Nat.not_le.1 hfits)
    obtain ⟨cause, hcause⟩ := Option.ne_none_iff_exists'.1 hfailed
    rw [closeWrap_around_eq] at hclose
    simp only [hcause] at hclose
    cases hclose

theorem closeArrayIndefinite_around :
    (around rules base .indefiniteArray members frames).closeArrayIndefinite =
      (live rules (base ++ openingBytes .indefiniteArray ++ members.flatten) frames false).write
        [breakByte] := by
  have hpop : (around rules base .indefiniteArray members frames).pop .indefiniteArray = _ :=
    pop_around .indefiniteArray
  rw [closeArrayIndefinite, hpop]
  rfl

theorem closeMapIndefinite_around (hwhole : members.length % 2 = 0) :
    (around rules base .indefiniteMap members frames).closeMapIndefinite =
      (live rules (base ++ openingBytes .indefiniteMap ++ members.flatten) frames false).write
        [breakByte] := by
  have hpop : (around rules base .indefiniteMap members frames).pop .indefiniteMap = _ :=
    pop_around .indefiniteMap
  rw [closeMapIndefinite, hpop]
  simp only [hwhole, if_true]
  rfl

theorem failed_closeMapIndefinite_around (hodd : members.length % 2 ≠ 0) :
    (around rules base .indefiniteMap members frames).closeMapIndefinite.Failed := by
  have hpop : (around rules base .indefiniteMap members frames).pop .indefiniteMap = _ :=
    pop_around .indefiniteMap
  rw [closeMapIndefinite, hpop]
  simp only [hodd, if_false]
  exact failed_fail _ _

/-- Sorting replaces the body of a map by what comes out of it. -/
theorem sortMap_live {body sorted : Bytes} {failure? : Option EncodeError}
    (hsort : sortEntries body = (sorted, failure?)) :
    (live rules (base ++ body) frames false).sortMap base.length =
      failure?.elim (live rules (base ++ sorted) frames false)
        (live rules (base ++ sorted) frames false).fail := by
  have hbody : (live rules (base ++ body) frames false).output.contentsFrom base.length = body := by
    simp [live, Output.contentsFrom]
  have hreplaced : (live rules (base ++ body) frames false).output.replaceFrom base.length sorted =
      (live rules (base ++ sorted) frames false).output := by
    simp [live, Output.replaceFrom]
  rw [sortMap, hbody, hsort]
  simp only [hreplaced]
  cases failure? <;> rfl

theorem closeMap_around (hwhole : members.length % 2 = 0) :
    (around rules base .map members frames).closeMap =
      ((if rules.sortMaps then
        (live rules (base ++ members.flatten) frames false).sortMap base.length
      else live rules (base ++ members.flatten) frames false)).insert base.length
        (shortestHead .map (UInt64.ofNat (members.length / 2))) := by
  have hpop : (around rules base .map members frames).pop .map = _ := pop_around .map
  rw [closeMap, hpop]
  simp only [hwhole, if_true, Container.nest, openingBytes, List.append_nil, shortestHead,
    Argument.encodeHead_zero]
  rfl

theorem failed_closeMap_around (hodd : members.length % 2 ≠ 0) :
    (around rules base .map members frames).closeMap.Failed := by
  have hpop : (around rules base .map members frames).pop .map = _ := pop_around .map
  rw [closeMap, hpop]
  simp only [hodd, if_false]
  exact failed_fail _ _

/-- The body of a map whose labels are distinct, if they have to be, is arranged by the rules. -/
theorem arranged_live (hwhole : members.length % 2 = 0)
    (hmembers : ∀ bytes ∈ members, IsNode 0 bytes)
    (hdistinct : rules.sortMaps = true → Entry.Distinct (pairs members)) :
    (if rules.sortMaps then
      (live rules (base ++ members.flatten) frames false).sortMap base.length
    else live rules (base ++ members.flatten) frames false) =
      live rules (base ++ encodedEntries (Container.arrange rules (pairs members))) frames
        false := by
  by_cases hsort : rules.sortMaps = true
  · rw [if_pos hsort, sortMap_live (sortEntries_flatten hwhole hmembers (hdistinct hsort)),
      Option.elim_none, Container.arrange, if_pos hsort]
  · rw [if_neg hsort, Container.arrange, if_neg hsort, Container.encodedEntries_pairs hwhole]

/-- A container is closed where it takes its members and its bytes fit. -/
theorem closing_around {kind : Container} (htakes : kind.Takes rules members)
    (hmembers : ∀ bytes ∈ members, IsNode 0 bytes)
    (hfits : (base ++ kind.enclose rules members).length ≤ maxEncodedLength) :
    (Operation.closing kind).apply (around rules base kind members frames) =
      live rules (base ++ kind.enclose rules members) frames false := by
  cases kind with
  | array =>
    rw [Container.enclose, ← List.append_assoc] at hfits ⊢
    rw [Operation.apply, closeArray_around, insert_live hfits]
  | map =>
    rw [Container.enclose, ← List.append_assoc] at hfits ⊢
    rw [Operation.apply, closeMap_around (htakes.pairs_whole rfl),
      arranged_live (htakes.pairs_whole rfl) hmembers (htakes.labels_distinct rfl),
      insert_live hfits]
  | indefiniteArray =>
    have hbytes : base ++ Container.enclose rules .indefiniteArray members =
        base ++ openingBytes .indefiniteArray ++ members.flatten ++ [breakByte] := by
      simp [Container.enclose, openingBytes, indefiniteHead]
    rw [hbytes] at hfits ⊢
    rw [List.length_append] at hfits
    rw [Operation.apply, closeArrayIndefinite_around, write_live hfits]
  | indefiniteMap =>
    have hbytes : base ++ Container.enclose rules .indefiniteMap members =
        base ++ openingBytes .indefiniteMap ++ members.flatten ++ [breakByte] := by
      simp [Container.enclose, openingBytes, indefiniteHead]
    rw [hbytes] at hfits ⊢
    rw [List.length_append] at hfits
    rw [Operation.apply, closeMapIndefinite_around (htakes.pairs_whole rfl), write_live hfits]
  | wrap =>
    rw [Container.enclose, ← List.append_assoc] at hfits ⊢
    rw [Operation.apply, closeWrap_around, insert_live hfits]

/-- A map with equal labels fails for them where maps are put in order. -/
theorem closeMap_around_of_not_distinct (hsort : rules.sortMaps = true)
    (hwhole : members.length % 2 = 0) (hmembers : ∀ bytes ∈ members, IsNode 0 bytes)
    (hequal : ¬Entry.Distinct (pairs members)) :
    ∃ reached, (around rules base .map members frames).closeMap =
      (live rules (base ++ reached) frames false).fail .duplicateLabel := by
  obtain ⟨reached, hsorted⟩ := sortEntries_of_not_distinct hwhole hmembers hequal
  have hfailed := failed_fail (live rules (base ++ reached) frames false) .duplicateLabel
  refine ⟨reached, ?_⟩
  rw [closeMap_around hwhole, if_pos hsort, sortMap_live hsorted, Option.elim_some,
    insert_of_failed hfailed]

/-- A map with equal labels is not closed where maps are put in order. -/
theorem failed_closeMap_of_not_distinct (hsort : rules.sortMaps = true)
    (hmembers : ∀ bytes ∈ members, IsNode 0 bytes)
    (hequal : ¬Entry.Distinct (pairs members)) :
    (around rules base .map members frames).closeMap.Failed := by
  by_cases hwhole : members.length % 2 = 0
  · obtain ⟨reached, hclose⟩ := closeMap_around_of_not_distinct hsort hwhole hmembers hequal
    rw [hclose]
    exact failed_fail _ _
  · exact failed_closeMap_around hwhole

/-- A container is not closed where it does not take its members or its bytes do not fit. -/
theorem failed_closing_around {kind : Container}
    (hlimit : ∀ limit ∈ kind.limit?, members.length ≤ limit)
    (hmembers : ∀ bytes ∈ members, IsNode 0 bytes)
    (hrefused : ¬(kind.Takes rules members ∧
      (base ++ kind.enclose rules members).length ≤ maxEncodedLength)) :
    ((Operation.closing kind).apply (around rules base kind members frames)).Failed := by
  cases kind with
  | array =>
    have hfull := Nat.not_le.1 fun hfits ↦ hrefused
      ⟨⟨hlimit, fun hmap ↦ absurd hmap (by decide), fun hmap ↦ by cases hmap⟩, hfits⟩
    rw [Container.enclose, ← List.append_assoc] at hfull
    rw [Operation.apply, closeArray_around]
    exact failed_insert_live hfull
  | map =>
    by_cases hwhole : members.length % 2 = 0
    · by_cases hdistinct : rules.sortMaps = true → Entry.Distinct (pairs members)
      · have hfull := Nat.not_le.1 fun hfits ↦ hrefused
          ⟨⟨hlimit, fun _ ↦ hwhole, fun _ ↦ hdistinct⟩, hfits⟩
        rw [Container.enclose, ← List.append_assoc] at hfull
        rw [Operation.apply, closeMap_around hwhole, arranged_live hwhole hmembers hdistinct]
        exact failed_insert_live hfull
      · obtain ⟨hsort, hequal⟩ := Classical.not_imp.1 hdistinct
        exact failed_closeMap_of_not_distinct hsort hmembers hequal
    · exact failed_closeMap_around hwhole
  | indefiniteArray =>
    have hfull := Nat.not_le.1 fun hfits ↦ hrefused
      ⟨⟨hlimit, fun hmap ↦ absurd hmap (by decide), fun hmap ↦ by cases hmap⟩, hfits⟩
    rw [Operation.apply, closeArrayIndefinite_around]
    refine failed_write_live ?_
    simpa [Container.enclose, openingBytes, Nat.add_assoc] using hfull
  | indefiniteMap =>
    by_cases hwhole : members.length % 2 = 0
    · have hfull := Nat.not_le.1 fun hfits ↦ hrefused
        ⟨⟨hlimit, fun _ ↦ hwhole, fun hmap ↦ by cases hmap⟩, hfits⟩
      rw [Operation.apply, closeMapIndefinite_around hwhole]
      refine failed_write_live ?_
      simpa [Container.enclose, openingBytes, Nat.add_assoc] using hfull
    · exact failed_closeMapIndefinite_around hwhole
  | wrap =>
    have hfull := Nat.not_le.1 fun hfits ↦ hrefused
      ⟨⟨hlimit, fun hmap ↦ absurd hmap (by decide), fun hmap ↦ by cases hmap⟩, hfits⟩
    rw [Container.enclose, ← List.append_assoc] at hfull
    rw [Operation.apply, closeWrap_around]
    exact failed_insert_live hfull

end Closing

/-! ### Sessions that hold drafts -/

namespace Layers

/-- An item that is begun in a session is counted in its innermost layer. -/
theorem counted_frames (rules : Rules) (layers : Layers) :
    counted (layers.frames rules 0) = layers.frames rules 1 := by
  cases layers <;> rfl

/-- Writing one item of a layer completes the count that was begun with it. -/
theorem frames_append_singleton (rules : Rules) (layers : Layers) (outline : Outline) :
    (layers.append [outline]).frames rules 0 = layers.frames rules 1 := by
  cases layers <;> simp [append, frames]

theorem takesTags_frames (rules : Rules) (layers : Layers) :
    TakesTags (layers.frames rules 0) := by
  cases layers with
  | ground items => exact fun _ hmem ↦ by simp [frames] at hmem
  | opened outer tags kind members =>
    rintro _ ⟨⟩
    cases kind <;> exact fun hregion ↦ by cases hregion

end Layers

namespace Draft

variable {rules : Rules}

/-- The session that holds a draft. -/
def session (rules : Rules) (draft : Draft) : Encoder :=
  live rules (draft.contents rules) (draft.layers.frames rules 0) (!draft.tags.isEmpty)

theorem session_start (rules : Rules) : start.session rules = growable rules := rfl

/-- The members of a byte string that holds an encoding are fewer than its bytes, so their number
needs no limit of its own. -/
theorem length_encodedAll_ge {depth : Nat} {outlines : List Outline}
    (hadmissible : Outline.AllAdmissible rules depth outlines)
    (hlength : (Outline.encodedAll rules outlines).length < 2 ^ 64) :
    outlines.length ≤ (Outline.encodedAll rules outlines).length := by
  induction outlines with
  | nil => simp
  | cons outline rest ih =>
    obtain ⟨houtline, hrest⟩ := hadmissible
    have hsplit : Outline.encodedAll rules (outline :: rest) =
        outline.encoded rules ++ Outline.encodedAll rules rest := rfl
    rw [hsplit, List.length_append] at hlength ⊢
    obtain ⟨node, _, hencoded⟩ := outline.isNode houtline (by omega)
    have hpositive := node.length_encoded_pos
    have hinner := ih hrest (by omega)
    rw [hencoded] at hpositive
    rw [List.length_cons]
    omega

/-- An open item takes one more item where its container does. -/
theorem limit_nest_iff {kind : Container} {count : Nat} (hcount : count < 2 ^ 64 - 1) :
    (∃ limit, kind.nest.limit? = some limit ∧ count < limit) ↔
      ∀ limit ∈ kind.limit?, count + 1 ≤ limit := by
  have hsome (bound : Nat) : (∃ limit, some bound = some limit ∧ count < limit) ↔
      ∀ limit ∈ some bound, count + 1 ≤ limit := by
    constructor
    · rintro ⟨_, ⟨⟩, hlt⟩ _ ⟨⟩
      exact hlt
    · exact fun hlimit ↦ ⟨bound, rfl, hlimit bound rfl⟩
  cases kind with
  | wrap => exact iff_of_true ⟨_, rfl, hcount⟩ fun _ hlimit ↦ by cases hlimit
  | _ => exact hsome _

theorem hasRoom_frames {draft : Draft} (hsound : draft.Sound rules) :
    HasRoom (draft.layers.frames rules 0) ↔ draft.layers.HasRoom 1 := by
  obtain ⟨layers, pending⟩ := draft
  obtain ⟨hadmissible, hfits⟩ := hsound
  cases layers with
  | ground items => exact iff_of_true (fun _ hmem ↦ by simp [Layers.frames] at hmem) trivial
  | opened outer tags kind members =>
    obtain ⟨_, _, _, _, _, hmembers⟩ := hadmissible
    have hbytes : (Outline.encodedAll rules members).length ≤ maxEncodedLength := by
      simp only [Fits, contents, Layers.contents, List.length_append] at hfits
      omega
    have hcount := length_encodedAll_ge hmembers (Nat.lt_of_le_of_lt hbytes (by decide))
    have hfew : members.length < 2 ^ 64 - 1 :=
      Nat.lt_of_le_of_lt (Nat.le_trans hcount hbytes) (by decide)
    refine Iff.trans ?_ (limit_nest_iff hfew)
    constructor
    · exact fun hroom ↦ hroom _ rfl
    · rintro hroom _ ⟨⟩
      exact hroom

theorem session_add (rules : Rules) (draft : Draft) (outline : Outline) :
    (draft.add outline).session rules =
      live rules (draft.contents rules ++ outline.encoded rules)
        (draft.layers.frames rules 1) false := by
  rw [session, contents_add, add, Layers.frames_append_singleton]
  rfl

/-- A session does on an operation what its draft does, or fails where the draft has no step. -/
def Conforms (rules : Rules) (draft : Draft) (operation : Operation) : Prop :=
  (∃ next, Step rules draft operation next ∧ next.Fits rules ∧
    operation.apply (draft.session rules) = next.session rules) ∨
  ((operation.apply (draft.session rules)).Failed ∧
    ∀ next, Step rules draft operation next → ¬next.Fits rules)

theorem conforms_scalar {draft : Draft} (hsound : draft.Sound rules) (value : Scalar) :
    Conforms rules draft (.scalar value) := by
  by_cases hpermitted : value.Allowed rules ∧ HasRoom (draft.layers.frames rules 0) ∧
      (draft.contents rules ++ value.encoded rules).length ≤ maxEncodedLength
  · obtain ⟨hallowed, hroom, hfits⟩ := hpermitted
    refine .inl ⟨_, .scalar hallowed ((hasRoom_frames hsound).1 hroom), ?_, ?_⟩
    · rwa [Fits, contents_add]
    · rw [session_add, ← Layers.counted_frames]
      exact append_live hallowed hroom hfits
  · refine .inr ⟨failed_append_live hpermitted, fun next hstep hfits ↦ hpermitted ?_⟩
    cases hstep with
    | scalar hallowed hroom =>
      rw [Fits, contents_add] at hfits
      exact ⟨hallowed, (hasRoom_frames hsound).2 hroom, hfits⟩

theorem conforms_tag (draft : Draft) (number : UInt64) : Conforms rules draft (.tag number) := by
  have htag : (draft.session rules).addTag number =
      { (draft.session rules).write (shortestHead .tag number) with tagPending := true } :=
    addTag_live (draft.layers.takesTags_frames rules) number
  have hcontents : contents rules { draft with tags := draft.tags ++ [number] } =
      draft.contents rules ++ shortestHead .tag number := by
    simp [contents, tagHeads]
  by_cases hfits : (draft.contents rules ++ shortestHead .tag number).length ≤ maxEncodedLength
  · refine .inl ⟨_, .tag draft number, by rwa [Fits, hcontents], ?_⟩
    rw [List.length_append] at hfits
    rw [Operation.apply, htag, session, write_live hfits, session, hcontents]
    simp [live]
  · refine .inr ⟨?_, fun next hstep hnext ↦ hfits ?_⟩
    · rw [List.length_append] at hfits
      have hfailed : ((draft.session rules).write (shortestHead .tag number)).Failed :=
        failed_write_live (Nat.not_le.1 hfits)
      rw [Operation.apply, htag]
      exact hfailed
    · cases hstep
      rwa [Fits, hcontents] at hnext

theorem apply_opening (kind : Container) (encoder : Encoder) :
    (Operation.opening kind).apply encoder = encoder.openNest kind.nest := by
  cases kind <;> rfl

theorem conforms_opening {draft : Draft} (hsound : draft.Sound rules) (kind : Container) :
    Conforms rules draft (.opening kind) := by
  have hcontents : contents rules ⟨.opened draft.layers draft.tags kind [], []⟩ =
      draft.contents rules ++ openingBytes kind.nest := by
    simp [contents, Layers.contents, tagHeads, Outline.encodedAll, Outline.encodedEach]
  by_cases hopens : Opens rules (draft.contents rules) (draft.layers.frames rules 0) kind.nest
  · have hroom := (hasRoom_frames hsound).1 hopens.hasRoom
    have hdepth : draft.layers.depth < maxNesting := by
      rw [← Layers.length_frames rules 0]
      exact hopens.depth_lt
    refine .inl ⟨_, .opening hroom hdepth hopens.permitted, ?_, ?_⟩
    · rw [Fits, hcontents]
      exact hopens.fits
    · rw [apply_opening, session, openNest_live hopens, Layers.counted_frames, session, hcontents]
      rfl
  · refine .inr ⟨?_, fun next hstep hfits ↦ hopens ?_⟩
    · rw [apply_opening]
      exact failed_openNest_live hopens
    · cases hstep with
      | opening hroom hdepth hallowed =>
        rw [Fits, hcontents] at hfits
        refine ⟨(hasRoom_frames hsound).2 hroom, ?_, hallowed, hfits⟩
        rwa [Layers.length_frames]

/-- Where no container of the right kind can be closed, closing fails. -/
theorem failed_closing {draft : Draft} {kind : Container}
    (hinnermost : draft.tags ≠ [] ∨
      ∀ frame ∈ (draft.layers.frames rules 0).head?, frame.kind ≠ kind.nest) :
    ((Operation.closing kind).apply (draft.session rules)).Failed := by
  have hpending : (!draft.tags.isEmpty) = true ∨
      ∀ frame ∈ (draft.layers.frames rules 0).head?, frame.kind ≠ kind.nest := by
    simpa using hinnermost
  obtain ⟨failed, hpop, hfailed⟩ : ∃ failed, (draft.session rules).pop kind.nest =
      (none, failed) ∧ failed.Failed := failed_pop_live hpending
  cases kind <;>
  · simp only [Container.nest] at hpop
    simpa only [Operation.apply, closeArray, closeMap, closeArrayIndefinite, closeMapIndefinite,
      closeWrap, hpop] using hfailed

theorem nest_injective : Function.Injective Container.nest := by
  intro first second hnest
  cases first <;> cases second <;> first | rfl | cases hnest

theorem contents_opened (rules : Rules) (outer : Layers) (tags : List UInt64) (kind : Container)
    (members : List Outline) :
    contents rules ⟨.opened outer tags kind members, []⟩ =
      outer.contents rules ++ tagHeads tags ++ openingBytes kind.nest ++
        (Outline.encodedEach rules members).flatten := by
  simp [contents, Layers.contents, tagHeads, Outline.encodedAll]

/-- The session that holds a draft with an open container. -/
theorem session_opened (rules : Rules) (outer : Layers) (tags : List UInt64) (kind : Container)
    (members : List Outline) :
    session rules ⟨.opened outer tags kind members, []⟩ =
      around rules (outer.contents rules ++ tagHeads tags) kind
        (Outline.encodedEach rules members) (outer.frames rules 1) := by
  have hcount : (Outline.encodedEach rules members).length = members.length := by
    rw [Outline.encodedEach_eq_map, List.length_map]
  rw [session, contents_opened, around, hcount]
  rfl

/-- The members of an open container are nodes. -/
theorem isNode_of_opened {outer : Layers} {tags : List UInt64} {kind : Container}
    {members : List Outline}
    (hsound : (Draft.mk (.opened outer tags kind members) []).Sound rules) :
    ∀ bytes ∈ Outline.encodedEach rules members, IsNode 0 bytes := by
  obtain ⟨⟨_, _, _, _, _, hmembers⟩, hfits⟩ := hsound
  rw [Fits, contents_opened, List.length_append] at hfits
  have hbound : maxEncodedLength < 2 ^ 64 := by decide
  have hshort : ∀ bytes ∈ Outline.encodedEach rules members, bytes.length < 2 ^ 64 := by
    intro bytes hmem
    have hlength := length_le_flatten hmem
    omega
  exact fun bytes hmem ↦
    (Outline.isNode_of_mem members hmembers hshort bytes hmem).mono (Nat.zero_le _)

theorem conforms_closing {draft : Draft} (hsound : draft.Sound rules) (kind : Container) :
    Conforms rules draft (.closing kind) := by
  obtain ⟨layers, pending⟩ := draft
  by_cases hpending : pending = []
  · subst hpending
    cases layers with
    | ground items =>
      refine .inr ⟨failed_closing (.inr fun _ hmem ↦ by simp [Layers.frames] at hmem), ?_⟩
      rintro next ⟨⟩
    | opened outer tags found members =>
      by_cases hkind : found = kind
      · subst hkind
        have hnodes := isNode_of_opened hsound
        obtain ⟨⟨_, _, _, _, hlimit, _⟩, _⟩ := hsound
        let base := outer.contents rules ++ tagHeads tags
        let inner := Outline.encodedEach rules members
        have hsession := session_opened rules outer tags found members
        have hinner : inner.length = members.length := by
          simp only [inner, Outline.encodedEach_eq_map, List.length_map]
        -- The only places where a matching close can still fail are its own rules and the length.
        by_cases hpermitted : found.Takes rules inner ∧
            (base ++ found.enclose rules inner).length ≤ maxEncodedLength
        · obtain ⟨htakes, hnext⟩ := hpermitted
          refine .inl ⟨_, .closing htakes, by rwa [Fits, contents_add], ?_⟩
          rw [hsession, closing_around htakes hnodes hnext, session_add]
          rfl
        · refine .inr ⟨?_, fun next hstep hnext ↦ hpermitted ?_⟩
          · rw [hsession]
            exact failed_closing_around (by rwa [hinner]) hnodes hpermitted
          · cases hstep with
            | closing htakes =>
              rw [Fits, contents_add] at hnext
              exact ⟨htakes, hnext⟩
      · refine .inr ⟨failed_closing (.inr ?_), ?_⟩
        · rintro _ ⟨⟩ hnest
          exact hkind (nest_injective hnest)
        · rintro next ⟨⟩
          exact absurd rfl hkind
  · refine .inr ⟨failed_closing (.inl hpending), ?_⟩
    rintro next ⟨⟩
    exact absurd rfl hpending

/-- Every operation on a session that holds a sound draft is a step of the draft or fails. -/
theorem conforms {draft : Draft} (hsound : draft.Sound rules) (operation : Operation) :
    Conforms rules draft operation := by
  cases operation with
  | scalar value => exact conforms_scalar hsound value
  | tag number => exact conforms_tag draft number
  | opening kind => exact conforms_opening hsound kind
  | closing kind => exact conforms_closing hsound kind

/-! ### Whole sessions -/

/-- A session follows the run of its draft. -/
theorem perform_of_run {first last : Draft} {operations : List Operation}
    (hrun : Run rules first operations last) (hsound : first.Sound rules) :
    (first.session rules).perform operations = last.session rules := by
  induction hrun with
  | refl draft => rfl
  | @step first second last operation rest hstep hfits _ ih =>
    obtain ⟨next, hnext, _, hsession⟩ | ⟨_, hnone⟩ := conforms hsound operation
    · cases hnext.unique hstep
      rw [perform, List.foldl_cons, hsession]
      exact ih ⟨admissible_of_step hstep hsound.1, hfits⟩
    · exact absurd hfits (hnone second hstep)

/-- A session that does not fail has followed a run of its draft. -/
theorem exists_run {first : Draft} {operations : List Operation} (hsound : first.Sound rules)
    (hperform : ¬((first.session rules).perform operations).Failed) :
    ∃ last, Run rules first operations last := by
  induction operations generalizing first with
  | nil => exact ⟨first, .refl first⟩
  | cons operation rest ih =>
    rw [perform, List.foldl_cons] at hperform
    obtain ⟨next, hstep, hfits, hsession⟩ | ⟨hfailed, _⟩ := conforms hsound operation
    · rw [hsession] at hperform
      obtain ⟨last, hrun⟩ := ih ⟨admissible_of_step hstep hsound.1, hfits⟩ hperform
      exact ⟨last, .step hstep hfits hrun⟩
    · refine absurd ?_ hperform
      have hstuck := perform_of_failed hfailed rest
      rw [perform] at hstuck
      rwa [hstuck]

/-- A session can be finished where its draft consists of whole items. -/
theorem finish_session (draft : Draft) (bytes : Bytes) :
    (draft.session rules).finish = .ok bytes ↔
      ∃ items, draft = ⟨.ground items, []⟩ ∧ bytes = Outline.encodedAll rules items := by
  obtain ⟨layers, pending⟩ := draft
  cases layers with
  | opened outer tags kind members =>
    simp [session, finish, incompleteness?, live, depth, Layers.frames]
  | ground items =>
    cases pending with
    | cons tag rest => simp [session, finish, incompleteness?, live, depth, Layers.frames]
    | nil =>
      simp [session, finish, incompleteness?, live, depth, Layers.frames, contents,
        Layers.contents, tagHeads, Output.storage]
      exact eq_comm

/-- Wherever the traversal of some outlines is followed without failure, the outlines are written
and the draft stays sound. -/
theorem session_of_traversal {layers : Layers} (hsound : (Draft.mk layers []).Sound rules)
    {outlines : List Outline} (hlive : ¬(((Draft.mk layers []).session rules).perform
      (Outline.operationsAll outlines)).Failed) :
    ((Draft.mk layers []).session rules).perform (Outline.operationsAll outlines) =
        (Draft.mk (layers.append outlines) []).session rules ∧
      (Draft.mk (layers.append outlines) []).Sound rules := by
  obtain ⟨last, hrun⟩ := exists_run hsound hlive
  cases eq_append_of_run outlines hrun
  exact ⟨perform_of_run hrun hsound, sound_of_run hrun hsound⟩

end Draft

namespace Encoder

theorem perform_append (encoder : Encoder) (first second : List Operation) :
    encoder.perform (first ++ second) = (encoder.perform first).perform second :=
  List.foldl_append

/-- The session of one admissible outline that is not too long finishes with its bytes. -/
theorem finish_perform_outline {rules : Rules} {outline : Outline}
    (hadmissible : outline.Admissible rules 0)
    (hlength : (outline.encoded rules).length ≤ maxEncodedLength) :
    ((growable rules).perform outline.operations).finish = .ok (outline.encoded rules) := by
  have hrun : Draft.Run rules Draft.start outline.operations ⟨.ground [outline], []⟩ := by
    refine Draft.run_outline outline hadmissible trivial ?_
    rw [Draft.Fits, Draft.contents_add]
    exact hlength
  rw [← Draft.session_start, Draft.perform_of_run hrun (Draft.sound_start rules)]
  refine (Draft.finish_session _ _).2 ⟨[outline], rfl, ?_⟩
  rw [Outline.encodedAll_singleton]

/-- The session of one outline finishes if and only if the outline is admissible and not too long,
and then with its bytes. -/
theorem finish_perform_outline_eq_ok_iff {rules : Rules} {outline : Outline} {bytes : Bytes} :
    ((growable rules).perform outline.operations).finish = .ok bytes ↔
      outline.Admissible rules 0 ∧ outline.encoded rules = bytes ∧
        bytes.length ≤ maxEncodedLength := by
  constructor
  · intro hfinish
    have hstart := Draft.sound_start rules
    rw [← Draft.session_start] at hfinish
    obtain ⟨last, hrun⟩ := Draft.exists_run hstart (not_failed_of_finish hfinish)
    obtain rfl := Draft.eq_add_of_run outline hrun
    rw [Draft.perform_of_run hrun hstart] at hfinish
    obtain ⟨items, hitems, rfl⟩ := (Draft.finish_session _ _).1 hfinish
    obtain ⟨⟨hadmissible, _⟩, hfits⟩ := Draft.sound_of_run hrun hstart
    rw [Draft.Fits, hitems] at hfits
    cases hitems
    refine ⟨hadmissible, (Outline.encodedAll_singleton rules outline).symm, ?_⟩
    simpa [Draft.contents, Layers.contents, tagHeads] using hfits
  · rintro ⟨hadmissible, rfl, hlength⟩
    exact finish_perform_outline hadmissible hlength

/-- A growing session records no error and finishes if and only if the operations are the
traversal of some admissible outlines whose serialization is not too long, and the bytes are then
that serialization. So a sequence of operations in which something is left open, closed twice or
with the wrong kind, or refused by a rule or a limit never finishes, whatever stands around it. -/
theorem finish_perform_eq_ok_iff (rules : Rules) (operations : List Operation) (bytes : Bytes) :
    (((growable rules).perform operations).error = none ∧
      ((growable rules).perform operations).finish = .ok bytes) ↔
    ∃ outlines : List Outline,
      (∀ outline ∈ outlines, outline.Admissible rules 0) ∧
      (Outline.encodedAll rules outlines).length ≤ maxEncodedLength ∧
      operations = Outline.operationsAll outlines ∧
      bytes = Outline.encodedAll rules outlines := by
  have hstart := Draft.sound_start rules
  rw [← Draft.session_start]
  constructor
  · rintro ⟨herror, hfinish⟩
    obtain ⟨last, hrun⟩ := Draft.exists_run hstart fun hfailed ↦ hfailed herror
    rw [Draft.perform_of_run hrun hstart] at hfinish
    obtain ⟨items, rfl, rfl⟩ := (Draft.finish_session last bytes).1 hfinish
    obtain ⟨hadmissible, hfits⟩ := Draft.sound_of_run hrun hstart
    refine ⟨items, Outline.allAdmissible_iff.1 hadmissible, ?_, ?_, rfl⟩
    · simpa [Draft.Fits, Draft.contents, Layers.contents, tagHeads] using hfits
    · have hoperations := Draft.operations_of_run hrun
      simpa [Draft.operations, Draft.start, Layers.operations, Outline.operationsAll] using
        hoperations.symm
  · rintro ⟨outlines, hadmissible, hlength, rfl, rfl⟩
    have hrun : Draft.Run rules Draft.start (Outline.operationsAll outlines)
        ⟨.ground outlines, []⟩ := by
      refine Draft.run_outlines outlines (Outline.allAdmissible_iff.2 hadmissible) trivial ?_
      simpa [Draft.Fits, Draft.contents, Layers.append, Layers.contents, tagHeads] using hlength
    rw [Draft.perform_of_run hrun hstart]
    exact ⟨rfl, (Draft.finish_session _ _).2 ⟨outlines, rfl, rfl⟩⟩

end Encoder

end Cose.Cbor
