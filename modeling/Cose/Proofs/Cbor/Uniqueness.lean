import Mathlib.Tactic.Common
import Cose.Proofs.Cbor.Decoder.Opening
import Cose.Proofs.Cbor.Extent
import Cose.Proofs.Float.Minimality

/-!
# Bytes are the encoding of one node

No two nodes have the same bytes, and none has the bytes that another one starts with
(`Node.encoded_append_inj`): every choice that the format leaves open, of the width of a head or of
the form of a length, shows in the bytes. A token is told by what is read from its head and by its
value, and both are functions of the bytes (`Token.encoded_append_inj`).
-/

set_option autoImplicit false
set_option relaxedAutoImplicit false

namespace Cose.Cbor

/-! ### Heads and leaves -/

theorem Width.size_injective : Function.Injective Width.size := by
  intro first second hsize
  cases first <;> cases second <;> first | rfl | cases hsize

/-- What is read from a head tells its argument. -/
theorem Argument.eq_of_read {first second : Argument} {major other : Major}
    (hread : first.read major = second.read other) : first = second := by
  have hlength : first.width.size + 1 = second.width.size + 1 := congrArg Head.length hread
  exact Argument.ext (Width.size_injective (Nat.succ.inj hlength)) (congrArg Head.argument hread)

/-- A leaf is told by its argument and its value. -/
theorem Leaf.eq_of_argument_of_value {first second : Leaf}
    (hargument : first.argument = second.argument) (hvalue : first.value = second.value) :
    first = second := by
  have hwidth := congrArg Argument.width hargument
  cases first <;> cases second <;>
    simp only [Leaf.value, reduceCtorEq, ItemValue.bytes.injEq, ItemValue.text.injEq,
      ItemValue.simple.injEq, ItemValue.bool.injEq, ItemValue.float.injEq] at hvalue
  -- What is left are the pairs of one constructor, and those of two precisions.
  case half.half => rw [Float.Half.toDouble_injective hvalue]
  case single.single => rw [Float.Single.toDouble_injective hvalue]
  all_goals simp_all [Leaf.argument, Argument.ofWord16, Argument.ofWord32, Argument.ofWord64]

/-! ### Tokens -/

theorem containerMajor_injective : Function.Injective containerMajor := by
  intro first second hmajor
  cases first <;> cases second <;> first | rfl | cases hmajor

namespace Token

/-- A token is told by what is read from its head and by its value. -/
theorem eq_of_read_of_value {first second : Token} (hread : first.read = second.read)
    (hvalue : first.value = second.value) : first = second := by
  have hform : first.read.isIndefinite = second.read.isIndefinite := by rw [hread]
  have hleaf (atom : Leaf) (isMap : Bool) (count? : Option UInt64) :
      atom.value ≠ if isMap then .map count? else .array count? := by
    cases isMap <;> cases atom <;> simp [Leaf.value]
  cases first with
  | leaf atom =>
    cases second with
    | leaf other => rw [Leaf.eq_of_argument_of_value (Argument.eq_of_read hread) hvalue]
    | definite isMap count => exact absurd hvalue (hleaf atom isMap (some count.number))
    | indefinite isMap => exact absurd hvalue (hleaf atom isMap none)
  | definite isMap count =>
    cases second with
    | leaf other => exact absurd hvalue.symm (hleaf other isMap (some count.number))
    | definite isOther other =>
      rw [Argument.eq_of_read hread, containerMajor_injective (congrArg Head.major hread)]
    | indefinite isOther => cases hform
  | indefinite isMap =>
    cases second with
    | leaf other => exact absurd hvalue.symm (hleaf other isMap none)
    | definite isOther other => cases hform
    | indefinite isOther => rw [containerMajor_injective (congrArg Head.major hread)]

/-- Bytes start with at most one token. -/
theorem encoded_append_inj {first second : Token} (hfirst : first.Fits 0) (hsecond : second.Fits 0)
    {rest other : Bytes} (hsame : first.encoded ++ rest = second.encoded ++ other) :
    first = second ∧ rest = other := by
  simp only [encoded, List.append_assoc] at hsame
  have hread : first.read = second.read := by
    have hhead := first.read_head (first.content ++ rest)
    rw [hsame, second.read_head] at hhead
    exact (Except.ok.inj hhead).symm
  have hlength : first.head.length = second.head.length := by
    rw [← length_read, hread, length_read]
  obtain ⟨_, hcontent⟩ := List.append_inj hsame hlength
  have hdelivered {token : Token} (hfits : token.Fits 0) (more : Bytes) :
      Decoder.value token.read ⟨token.content ++ more, 0, []⟩ =
        .ok token.value ⟨more, 0 + token.content.length, token.enter []⟩ :=
    Decoder.value_of_token hfits more 0
  have hvalue := hdelivered hfirst rest
  rw [hcontent, hread, hdelivered hsecond] at hvalue
  obtain ⟨hsameValue, hbehind⟩ := EStateM.Result.ok.inj hvalue
  exact ⟨eq_of_read_of_value hread hsameValue.symm, (congrArg Decoder.rest hbehind).symm⟩

end Token

/-- Bytes start with at most one token behind tags. -/
theorem opening_append_inj {tags others : List Argument} {first second : Token}
    (hfirst : first.Fits 0) (hsecond : second.Fits 0) {rest other : Bytes}
    (hsame : encodedTags tags ++ (first.encoded ++ rest) =
      encodedTags others ++ (second.encoded ++ other)) :
    tags = others ∧ first = second ∧ rest = other := by
  have hcons (tag : Argument) (tags : List Argument) (more : Bytes) :
      encodedTags (tag :: tags) ++ more = tag.head .tag ++ (encodedTags tags ++ more) := by
    simp [encodedTags]
  -- A tag and another token differ in their major types.
  have hmajor (tag : Argument) (token : Token) (left right : Bytes) :
      tag.head .tag ++ left ≠ token.encoded ++ right := by
    intro hbytes
    have hread := tag.read_head .tag left
    rw [hbytes, Token.encoded, List.append_assoc, token.read_head] at hread
    exact token.major_read_ne_tag (congrArg Head.major (Except.ok.inj hread))
  induction tags generalizing others with
  | nil =>
    cases others with
    | nil =>
      obtain ⟨htoken, hrest⟩ := Token.encoded_append_inj hfirst hsecond hsame
      exact ⟨rfl, htoken, hrest⟩
    | cons tag others =>
      rw [hcons] at hsame
      exact absurd hsame.symm (hmajor tag first _ _)
  | cons tag tags ih =>
    cases others with
    | nil =>
      rw [hcons] at hsame
      exact absurd hsame (hmajor tag second _ _)
    | cons counterpart others =>
      rw [hcons, hcons] at hsame
      have hread := tag.read_head .tag (encodedTags tags ++ (first.encoded ++ rest))
      rw [hsame, counterpart.read_head] at hread
      obtain rfl := Argument.eq_of_read (Except.ok.inj hread)
      obtain ⟨rfl, htoken, hrest⟩ := ih (List.append_cancel_left hsame)
      exact ⟨rfl, htoken, hrest⟩

/-! ### Nodes -/

namespace Node

mutual

/-- Bytes start with at most one node. -/
theorem encoded_append_inj : {first second : Node} → {level other : Nat} →
    first.Regular level → second.Regular other → {left right : Bytes} →
    first.encoded ++ left = second.encoded ++ right → first = second ∧ left = right
  | mk tags token members, mk others counterpart nodes, _, _, ⟨hfits, hholds, hmembers⟩,
      ⟨hotherFits, hotherHolds, hnodes⟩, left, right, hsame => by
    simp only [encoded, List.append_assoc] at hsame
    obtain ⟨rfl, rfl, hbehind⟩ := opening_append_inj (hfits.mono (Nat.zero_le _))
      (hotherFits.mono (Nat.zero_le _)) hsame
    cases token with
    | leaf atom =>
      obtain ⟨rfl, hrest⟩ :=
        encodedAll_append_inj hmembers hnodes (.inl (hholds.trans hotherHolds.symm)) hbehind
      exact ⟨rfl, hrest⟩
    | definite isMap count =>
      obtain ⟨rfl, hrest⟩ :=
        encodedAll_append_inj hmembers hnodes (.inl (hholds.trans hotherHolds.symm)) hbehind
      exact ⟨rfl, hrest⟩
    | indefinite isMap =>
      obtain ⟨rfl, hrest⟩ :=
        encodedAll_append_inj hmembers hnodes (.inr ⟨⟨left, rfl⟩, right, rfl⟩) hbehind
      exact ⟨rfl, (List.cons.inj hrest).2⟩

/-- Bytes start with at most one list of nodes of a given length, or in front of a break. -/
theorem encodedAll_append_inj : {first second : List Node} → {level other : Nat} →
    AllRegular level first → AllRegular other second → {left right : Bytes} →
    (first.length = second.length ∨
      (∃ more, left = breakByte :: more) ∧ ∃ more, right = breakByte :: more) →
    encodedAll first ++ left = encodedAll second ++ right → first = second ∧ left = right
  | [], [], _, _, _, _, _, _, _, hsame => ⟨rfl, hsame⟩
  | [], node :: rest, _, _, _, _, left, right, hends, hsame => by
    rcases hends with hlength | ⟨⟨more, rfl⟩, _⟩
    · cases hlength
    · obtain ⟨initial, behind, hnode, hinitial⟩ := node.exists_cons_encoded
      simp only [encodedAll, hnode, List.nil_append, List.cons_append, List.cons.injEq] at hsame
      exact absurd hsame.1.symm hinitial
  | node :: rest, [], _, _, _, _, left, right, hends, hsame => by
    rcases hends with hlength | ⟨_, more, rfl⟩
    · cases hlength
    · obtain ⟨initial, behind, hnode, hinitial⟩ := node.exists_cons_encoded
      simp only [encodedAll, hnode, List.nil_append, List.cons_append, List.cons.injEq] at hsame
      exact absurd hsame.1 hinitial
  | node :: rest, counterpart :: others, _, _, ⟨hnode, hrest⟩, ⟨hcounterpart, hothers⟩, left,
      right, hends, hsame => by
    simp only [encodedAll, List.append_assoc] at hsame
    obtain ⟨rfl, hbehind⟩ := encoded_append_inj hnode hcounterpart hsame
    have hends : rest.length = others.length ∨
        (∃ more, left = breakByte :: more) ∧ ∃ more, right = breakByte :: more := by
      simpa using hends
    obtain ⟨rfl, hleft⟩ := encodedAll_append_inj hrest hothers hends hbehind
    exact ⟨rfl, hleft⟩

end

/-- A byte string is the encoding of at most one node. -/
theorem encoded_inj {first second : Node} {level other : Nat} (hfirst : first.Regular level)
    (hsecond : second.Regular other) (hsame : first.encoded = second.encoded) : first = second :=
  (encoded_append_inj hfirst hsecond (congrArg (· ++ []) hsame)).1

end Node

end Cose.Cbor
