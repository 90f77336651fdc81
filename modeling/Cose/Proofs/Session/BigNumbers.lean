import Cose.Proofs.Cbor.Encoder.Refinement
import Cose.Proofs.Header.Spelling
import Cose.Proofs.Magnitude
import Cose.Proofs.Session.Script

/-!
# Big numbers keep their value

An integer of any length, given by a sign and a magnitude, is written in one of four forms
(`IntegerForm`): as a plain integer where the rules prefer that and 64 bits are enough, or as a byte
string under one of two tags. Which form it is depends on the integer alone, not on the leading
zeros of the magnitude or the sign of zero (`Outline.integerForm_bigNumber`), and each form is read
back as the integer it stands for (`IntegerForm.exists_leaf`). So are the mantissas of decimal
fractions and bigfloats, which are written the same way. A session refuses an integer only where the
encoding would be too long (`Encoder.finish_appendBigNumber_eq_ok_iff`), and whatever bytes it
finishes with are read back as the integer (`Encoder.readsInteger_of_finish`).
-/

set_option autoImplicit false
set_option relaxedAutoImplicit false

namespace Cose

open Cbor Node

/-- The integer with a sign and a magnitude. Negative zero is zero. -/
def Magnitude.signed (negative : Bool) (magnitude : Bytes) : Int :=
  if negative then -(ofBigEndian magnitude : Int) else ofBigEndian magnitude

/-- Below zero, what is written counts down from minus one. -/
theorem Magnitude.signed_of_strip_ne_nil {magnitude : Bytes} (hsome : strip magnitude ≠ []) :
    signed true magnitude = -1 - (ofBigEndian (decrement (strip magnitude)) : Int) := by
  obtain ⟨hvalue, _⟩ := ofBigEndian_decrement (isStripped_strip magnitude) hsome
  rw [ofBigEndian_strip] at hvalue
  rw [signed, if_pos rfl]
  omega

/-- Without a sign, or without a magnitude, what is written is the number itself. -/
theorem Magnitude.signed_of_not_negative {negative : Bool} {magnitude : Bytes}
    (hpositive : ¬(negative = true ∧ strip magnitude ≠ [])) :
    signed negative magnitude = ofBigEndian (strip magnitude) := by
  have hzero := ofBigEndian_eq_zero_iff (isStripped_strip magnitude)
  rw [ofBigEndian_strip] at hzero ⊢
  rw [signed]
  split
  next hnegative =>
    rw [hzero.2 (not_not.1 fun hsome ↦ hpositive ⟨hnegative, hsome⟩)]
    rfl
  next => rfl

namespace Cbor

/-! ### Integers that items stand for -/

/-- The integer that an item stands for: a plain one, or the content of a byte string under the
single tag of a big number. -/
def Item.bigInteger? (item : Item) : Option Int :=
  match item.tags, item.value with
  | [], .unsigned n => some n.toNat
  | [], .negative n => some (-1 - n.toNat)
  | [tag], .bytes content =>
    if tag = Encoder.positiveBigTag then some (ofBigEndian content)
    else if tag = Encoder.negativeBigTag then some (-1 - ofBigEndian content)
    else none
  | _, _ => none

/-- Whether an item is an integer as some rules write it: it stands for the integer, is a plain
integer if and only if the rules prefer that and 64 bits are enough, and has no leading zero byte
otherwise. -/
structure Item.IsInteger (rules : Rules) (number : Int) (item : Item) : Prop where
  bigInteger?_eq : item.bigInteger? = some number
  plain_iff : item.tags = [] ↔
    rules.preferredBigNumbers = true ∧ -2 ^ 64 ≤ number ∧ number < 2 ^ 64
  isStripped : ∀ content, item.value = .bytes content → Magnitude.IsStripped content

namespace Item

variable {rules : Rules} {number : Int} {item : Item}

/-- An item without tags that 64 bits are enough for. -/
theorem isInteger_of_plain (hpreferred : rules.preferredBigNumbers = true)
    (hlower : -2 ^ 64 ≤ number) (hupper : number < 2 ^ 64) (htags : item.tags = [])
    (hnumber : item.bigInteger? = some number) : item.IsInteger rules number where
  bigInteger?_eq := hnumber
  plain_iff := iff_of_true htags ⟨hpreferred, hlower, hupper⟩
  isStripped := fun content hvalue ↦ by
    rw [bigInteger?, htags, hvalue] at hnumber
    cases hnumber

/-- A byte string under a tag that stands for a number outside of 64 bits. -/
theorem isInteger_of_big {content : Bytes} (hstripped : Magnitude.IsStripped content)
    (hlarge : rules.preferredBigNumbers = true → ¬(-2 ^ 64 ≤ number ∧ number < 2 ^ 64))
    {tag : UInt64} (htags : item.tags = [tag]) (hvalue : item.value = .bytes content)
    (hnumber : item.bigInteger? = some number) : item.IsInteger rules number where
  bigInteger?_eq := hnumber
  plain_iff := iff_of_false (by simp [htags]) fun hplain ↦ hlarge hplain.1 hplain.2
  isStripped := fun other hother ↦ by
    rw [hvalue] at hother
    cases hother
    exact hstripped

end Item

/-! ### The forms of an integer -/

/-- How an integer is written by some rules. -/
inductive IntegerForm (rules : Rules) : Int → Outline → Prop where
  | unsigned (hpreferred : rules.preferredBigNumbers = true) (n : UInt64) :
      IntegerForm rules n.toNat (.scalar (.unsigned n))
  | negative (hpreferred : rules.preferredBigNumbers = true) (n : UInt64) :
      IntegerForm rules (-1 - n.toNat) (.scalar (.negative n))
  | positiveBig {content : Bytes} (hstripped : Magnitude.IsStripped content)
      (hlarge : rules.preferredBigNumbers = true → 2 ^ 64 ≤ ofBigEndian content) :
      IntegerForm rules (ofBigEndian content)
        (.tag Encoder.positiveBigTag (.scalar (.bytes content)))
  | negativeBig {content : Bytes} (hstripped : Magnitude.IsStripped content)
      (hlarge : rules.preferredBigNumbers = true → 2 ^ 64 ≤ ofBigEndian content) :
      IntegerForm rules (-1 - ofBigEndian content)
        (.tag Encoder.negativeBigTag (.scalar (.bytes content)))

/-- A byte string under a tag that is not too long is a leaf. -/
theorem exists_encoded_taggedBytes {rules : Rules} {tag : UInt64} {content : Bytes}
    (hlength : ((Outline.tag tag (.scalar (.bytes content))).encoded rules).length ≤
      maxEncodedLength) :
    ∃ hcontent, (Node.mk [.shortest tag] (.leaf (.ofBytes content hcontent)) []).encoded =
      (Outline.tag tag (.scalar (.bytes content))).encoded rules := by
  change (shortestHead .tag tag ++ (shortestHead .bytes _ ++ content)).length ≤ _ at hlength
  rw [List.length_append, List.length_append] at hlength
  have hbound : maxEncodedLength < 2 ^ 64 := by decide
  have hcontent : content.length < 2 ^ 64 := by omega
  refine ⟨hcontent, ?_⟩
  simp [Node.encoded, encodedTags, Token.encoded, Token.head, Token.content, Token.closing,
    encodedAll, Outline.encoded, Scalar.encoded, shortestHead, Leaf.ofBytes, Leaf.argument,
    Leaf.major, Leaf.content]

namespace IntegerForm

variable {rules : Rules} {number : Int} {outline : Outline}

theorem admissible (hform : IntegerForm rules number outline) (depth : Nat) :
    outline.Admissible rules depth := by
  cases hform <;> trivial

/-- A form that is not too long is a leaf with its tags, and an item that is delivered for it is the
integer. -/
theorem exists_leaf (hform : IntegerForm rules number outline)
    (hlength : (outline.encoded rules).length ≤ maxEncodedLength) :
    ∃ tags atom, tags.length ≤ maxTags ∧
      (Node.mk tags (.leaf atom) []).encoded = outline.encoded rules ∧
      ∀ item : Item, item.value = atom.value → item.tags = tags.map (·.number) →
        item.IsInteger rules number := by
  cases hform with
  | unsigned hpreferred n =>
    refine ⟨[], .unsigned (.shortest n), Nat.zero_le _,
      (encoded_leaf _).trans (List.append_nil _), fun item hvalue htags ↦ ?_⟩
    have hword := n.toNat_lt
    exact Item.isInteger_of_plain hpreferred (by omega) (by omega) htags
      (by rw [Item.bigInteger?, htags, hvalue]; rfl)
  | negative hpreferred n =>
    refine ⟨[], .negative (.shortest n), Nat.zero_le _,
      (encoded_leaf _).trans (List.append_nil _), fun item hvalue htags ↦ ?_⟩
    have hword := n.toNat_lt
    exact Item.isInteger_of_plain hpreferred (by omega) (by omega) htags
      (by rw [Item.bigInteger?, htags, hvalue]; rfl)
  | positiveBig hstripped hlarge =>
    obtain ⟨hcontent, hencoded⟩ := exists_encoded_taggedBytes hlength
    refine ⟨_, _, by decide, hencoded, fun item hvalue htags ↦ ?_⟩
    refine Item.isInteger_of_big hstripped (fun hpreferred ↦ ?_) htags hvalue
      (by rw [Item.bigInteger?, htags, hvalue]; rfl)
    have hbeyond := hlarge hpreferred
    omega
  | negativeBig hstripped hlarge =>
    obtain ⟨hcontent, hencoded⟩ := exists_encoded_taggedBytes hlength
    refine ⟨_, _, by decide, hencoded, fun item hvalue htags ↦ ?_⟩
    refine Item.isInteger_of_big hstripped (fun hpreferred ↦ ?_) htags hvalue
      (by rw [Item.bigInteger?, htags, hvalue]; rfl)
    have hbeyond := hlarge hpreferred
    omega

end IntegerForm

namespace Outline

/-- The outline that an integer of any length is written as. -/
def bigNumber (rules : Rules) (negative : Bool) (magnitude : Bytes) : Outline :=
  let magnitude := Magnitude.strip magnitude
  if negative ∧ magnitude ≠ [] then
    let content := Magnitude.decrement magnitude
    if rules.preferredBigNumbers ∧ content.length ≤ 8 then
      .scalar (.negative (UInt64.ofNat (ofBigEndian content)))
    else .tag Encoder.negativeBigTag (.scalar (.bytes content))
  else
    match if rules.preferredBigNumbers then Magnitude.toUInt64? magnitude else none with
    | some n => .scalar (.unsigned n)
    | none => .tag Encoder.positiveBigTag (.scalar (.bytes magnitude))

theorem operations_bigNumber (rules : Rules) (negative : Bool) (magnitude : Bytes) :
    (bigNumber rules negative magnitude).operations =
      bigNumberOperations rules negative magnitude := by
  unfold bigNumber bigNumberOperations
  dsimp only
  split
  · split <;> rfl
  · cases if rules.preferredBigNumbers then
      Magnitude.toUInt64? (Magnitude.strip magnitude) else none <;> rfl

/-- The form that an integer is written in depends on the integer alone. -/
theorem integerForm_bigNumber (rules : Rules) (negative : Bool) (magnitude : Bytes) :
    IntegerForm rules (Magnitude.signed negative magnitude)
      (bigNumber rules negative magnitude) := by
  have hstripped := Magnitude.isStripped_strip magnitude
  have hword : (256 : Nat) ^ 8 = 2 ^ 64 := rfl
  unfold bigNumber
  dsimp only
  split
  next hnegative =>
    obtain ⟨hsign, hsome⟩ := hnegative
    obtain ⟨_, hminimal⟩ := Magnitude.ofBigEndian_decrement hstripped hsome
    have hlength := Magnitude.length_le_iff hminimal 8
    rw [hword] at hlength
    rw [hsign, Magnitude.signed_of_strip_ne_nil hsome]
    split
    next hplain =>
      have hform := IntegerForm.negative hplain.1
        (UInt64.ofNat (ofBigEndian (Magnitude.decrement (Magnitude.strip magnitude))))
      rwa [UInt64.toNat_ofNat_of_lt' (hlength.1 hplain.2)] at hform
    next hplain =>
      refine .negativeBig hminimal fun hpreferred ↦ Nat.not_lt.1 fun hlt ↦ ?_
      exact hplain ⟨hpreferred, hlength.2 hlt⟩
  next hpositive =>
    rw [Magnitude.signed_of_not_negative hpositive]
    split
    next n hplain =>
      obtain ⟨hpreferred, hn⟩ := Option.ite_none_right_eq_some.1 hplain
      rw [(Magnitude.toUInt64?_eq_some_iff _ n).1 hn]
      exact .unsigned hpreferred n
    next hplain =>
      refine .positiveBig hstripped fun hpreferred ↦ Nat.not_lt.1 fun hlt ↦ ?_
      rw [if_pos hpreferred] at hplain
      have hfits := (Magnitude.toUInt64?_eq_some_iff (Magnitude.strip magnitude)
        (UInt64.ofNat (ofBigEndian (Magnitude.strip magnitude)))).2
          (UInt64.toNat_ofNat_of_lt' hlt).symm
      rw [hplain] at hfits
      cases hfits

/-- The outline of a tagged pair of an exponent and a mantissa of any length. -/
def scaled (rules : Rules) (tag : UInt64) (negative : Bool) (magnitude : Bytes)
    (exponent : Int64) : Outline :=
  .tag tag (.container .array [.scalar (.int exponent), bigNumber rules negative magnitude])

theorem operations_scaled (rules : Rules) (tag : UInt64) (negative : Bool) (magnitude : Bytes)
    (exponent : Int64) :
    (scaled rules tag negative magnitude exponent).operations =
      Call.scaledOperations rules tag (.big negative magnitude) exponent := by
  simp [scaled, operations, operationsAll, Call.scaledOperations, operations_bigNumber]

theorem admissible_scaled (rules : Rules) (tag : UInt64) (negative : Bool) (magnitude : Bytes)
    (exponent : Int64) : (scaled rules tag negative magnitude exponent).Admissible rules 0 := by
  refine ⟨by decide, ?_, ⟨?_, ?_, ?_⟩, trivial,
    (integerForm_bigNumber rules negative magnitude).admissible 1, trivial⟩
  · intro hindefinite
    cases hindefinite
  · rintro limit ⟨⟩
    exact (by decide : 2 ≤ maxItems)
  · intro hmap
    cases hmap
  · intro hmap
    cases hmap

end Outline

/-! ### Reading integers back -/

/-- Whether bytes are one item that is an integer as some rules write it. -/
def ReadsInteger (rules : Rules) (number : Int) (bytes : Bytes) : Prop :=
  ∃ item after last, Decoder.next (.ofBytes bytes) = .ok item after ∧
    item.IsInteger rules number ∧ Decoder.finish after = .ok () last

/-- Whether bytes are a pair under one tag, of an exponent without tags and of an integer as some
rules write it. -/
def ReadsScaled (rules : Rules) (tag : UInt64) (exponent : Int64) (number : Int)
    (bytes : Bytes) : Prop :=
  ∃ pair first second inside between after last,
    Decoder.next (.ofBytes bytes) = .ok pair inside ∧
    pair.value = .array (some 2) ∧ pair.tags = [tag] ∧
    Decoder.next inside = .ok first between ∧
    first.toInt64 = .ok exponent ∧ first.tags = [] ∧
    Decoder.next between = .ok second after ∧
    second.IsInteger rules number ∧ Decoder.finish after = .ok () last

theorem readsInteger_of_form {rules : Rules} {number : Int} {outline : Outline}
    (hform : IntegerForm rules number outline)
    (hlength : (outline.encoded rules).length ≤ maxEncodedLength) :
    ReadsInteger rules number (outline.encoded rules) := by
  obtain ⟨tags, atom, htags, hencoded, hitem⟩ := hform.exists_leaf hlength
  have hnode : (Node.mk tags (.leaf atom) []).WellFormed 0 := ⟨htags, trivial, rfl, trivial⟩
  let start : Decoder := .ofBytes (outline.encoded rules)
  have hrest : start.rest = (Node.mk tags (.leaf atom) []).encoded ++ [] := by
    rw [List.append_nil, hencoded]
    rfl
  obtain ⟨last, hlast⟩ :=
    Decoder.finish_of_reaches (Decoder.reaches_inside_leaf start tags atom [])
  exact ⟨_, _, last, Decoder.next_of_node (.refl start) (Decoder.ready_top _ 0) hnode hrest,
    hitem _ rfl rfl, hlast⟩

theorem readsScaled_of_form {rules : Rules} {number : Int} {outline : Outline}
    (hform : IntegerForm rules number outline) (tag : UInt64) (exponent : Int64)
    (hlength : ((Outline.tag tag (.container .array [.scalar (.int exponent), outline])).encoded
      rules).length ≤ maxEncodedLength) :
    ReadsScaled rules tag exponent number
      ((Outline.tag tag (.container .array [.scalar (.int exponent), outline])).encoded rules) := by
  have hbytes : (Outline.tag tag (.container .array [.scalar (.int exponent), outline])).encoded
      rules = shortestHead .tag tag ++ (shortestHead .array 2 ++
        ((Scalar.int exponent).encoded rules ++ outline.encoded rules)) := by
    simp [Outline.encoded, Outline.encodedEach, Container.enclose]
  have hmantissa : (outline.encoded rules).length ≤ maxEncodedLength := by
    rw [hbytes] at hlength
    simp only [List.length_append] at hlength
    omega
  obtain ⟨tags, atom, htags, hencoded, hitem⟩ := hform.exists_leaf hmantissa
  let members : List Node := [leaf (intLeaf exponent), .mk tags (.leaf atom) []]
  let node : Node := .mk [.shortest tag] (.counting false 2) members
  have hnode : node.WellFormed 0 :=
    ⟨(by decide : 1 ≤ maxTags), fits_counting false (by decide) (by decide),
      holds_counting (by decide) rfl,
      wellFormed_leaf 1 _, ⟨htags, trivial, rfl, trivial⟩, trivial⟩
  have hwhole : node.encoded = (Outline.tag tag (.container .array
      [.scalar (.int exponent), outline])).encoded rules := by
    rw [hbytes, ← hencoded, ← encoded_intLeaf]
    simp only [node, members, encoded_counting, encodedAll, List.append_nil]
    simp [encodedTags, shortestHead, containerMajor]
  obtain ⟨pair, inside, hpair, hvalue, hnumbers, _, hfaces⟩ :=
    Decoder.next_top (Decoder.opensLevel_definite false (.shortest 2)) hnode
  obtain ⟨first, between, hfirst, hexponent, hplain, hbetween⟩ := hfaces.next_leaf
  obtain ⟨second, after, hsecond, hinteger, hsigned, hafter⟩ := hbetween.next_leaf
  obtain ⟨last, hlast⟩ := Decoder.finish_of_reaches hafter.reaches
  rw [← hwhole]
  exact ⟨pair, first, second, inside, between, after, last, hpair, hvalue, hnumbers, hfirst,
    toInt64_of_intLeaf hexponent, hplain, hsecond, hitem second hinteger hsigned, hlast⟩

/-! ### Whole sessions -/

namespace Encoder

section Finished

variable (rules : Rules) (negative : Bool) (magnitude : Bytes)

/-- An integer of any length is written unless it is too long for an encoding. -/
theorem finish_appendBigNumber_eq_ok_iff {bytes : Bytes} :
    ((growable rules).appendBigNumber negative magnitude).finish = .ok bytes ↔
      (Outline.bigNumber rules negative magnitude).encoded rules = bytes ∧
        bytes.length ≤ maxEncodedLength := by
  have hadmissible := (Outline.integerForm_bigNumber rules negative magnitude).admissible 0
  have hoperations := Outline.operations_bigNumber rules negative magnitude
  rw [appendBigNumber_eq]
  show ((growable rules).perform (bigNumberOperations rules negative magnitude)).finish = _ ↔ _
  rw [← hoperations, finish_perform_outline_eq_ok_iff]
  exact and_iff_right hadmissible

/-- So is a tagged pair with a mantissa of any length. -/
theorem finish_appendScaled_eq_ok_iff (tag : UInt64) (exponent : Int64) {bytes : Bytes} :
    ((growable rules).appendScaled tag (.big negative magnitude) exponent).finish = .ok bytes ↔
      (Outline.scaled rules tag negative magnitude exponent).encoded rules = bytes ∧
        bytes.length ≤ maxEncodedLength := by
  have hadmissible := Outline.admissible_scaled rules tag negative magnitude exponent
  have hoperations := Outline.operations_scaled rules tag negative magnitude exponent
  rw [Call.appendScaled_eq_perform]
  show ((growable rules).perform (Call.scaledOperations rules tag (.big negative magnitude)
    exponent)).finish = _ ↔ _
  rw [← hoperations, finish_perform_outline_eq_ok_iff]
  exact and_iff_right hadmissible

variable {rules negative magnitude}

/-- The bytes that a session finishes with are read back as the integer. -/
theorem readsInteger_of_finish {bytes : Bytes}
    (hfinish : ((growable rules).appendBigNumber negative magnitude).finish = .ok bytes) :
    ReadsInteger rules (Magnitude.signed negative magnitude) bytes := by
  obtain ⟨rfl, hlength⟩ := (finish_appendBigNumber_eq_ok_iff rules negative magnitude).1 hfinish
  exact readsInteger_of_form (Outline.integerForm_bigNumber rules negative magnitude) hlength

/-- The bytes that a session finishes with are read back as the exponent and the mantissa. -/
theorem readsScaled_of_finish {tag : UInt64} {exponent : Int64} {bytes : Bytes}
    (hfinish : ((growable rules).appendScaled tag (.big negative magnitude) exponent).finish =
      .ok bytes) :
    ReadsScaled rules tag exponent (Magnitude.signed negative magnitude) bytes := by
  obtain ⟨rfl, hlength⟩ :=
    (finish_appendScaled_eq_ok_iff rules negative magnitude tag exponent).1 hfinish
  exact readsScaled_of_form (Outline.integerForm_bigNumber rules negative magnitude) tag exponent
    hlength

end Finished

/-- An integer of any length, given by a sign and a magnitude that may have leading zeros, is
written and read back as that integer, alone and as the mantissa of a decimal fraction or a
bigfloat, wherever the encoding is not too long; and whatever bytes a session finishes with are
read back so. -/
theorem bigNumbers_keep_value (rules : Rules) (negative : Bool) (magnitude : Bytes)
    (exponent : Int64) :
    (((Outline.bigNumber rules negative magnitude).encoded rules).length ≤ maxEncodedLength →
      ((growable rules).appendBigNumber negative magnitude).finish =
          .ok ((Outline.bigNumber rules negative magnitude).encoded rules) ∧
        ReadsInteger rules (Magnitude.signed negative magnitude)
          ((Outline.bigNumber rules negative magnitude).encoded rules)) ∧
    (((Outline.scaled rules decimalFractionTag negative magnitude exponent).encoded
        rules).length ≤ maxEncodedLength →
      ((growable rules).appendDecimalFraction (.big negative magnitude) exponent).finish =
          .ok ((Outline.scaled rules decimalFractionTag negative magnitude exponent).encoded
            rules) ∧
        ReadsScaled rules decimalFractionTag exponent (Magnitude.signed negative magnitude)
          ((Outline.scaled rules decimalFractionTag negative magnitude exponent).encoded rules)) ∧
    (((Outline.scaled rules bigfloatTag negative magnitude exponent).encoded rules).length ≤
        maxEncodedLength →
      ((growable rules).appendBigfloat (.big negative magnitude) exponent).finish =
          .ok ((Outline.scaled rules bigfloatTag negative magnitude exponent).encoded rules) ∧
        ReadsScaled rules bigfloatTag exponent (Magnitude.signed negative magnitude)
          ((Outline.scaled rules bigfloatTag negative magnitude exponent).encoded rules)) ∧
    ∀ bytes : Bytes,
      (((growable rules).appendBigNumber negative magnitude).finish = .ok bytes →
        ReadsInteger rules (Magnitude.signed negative magnitude) bytes) ∧
      (((growable rules).appendDecimalFraction (.big negative magnitude) exponent).finish =
          .ok bytes →
        ReadsScaled rules decimalFractionTag exponent (Magnitude.signed negative magnitude)
          bytes) ∧
      (((growable rules).appendBigfloat (.big negative magnitude) exponent).finish = .ok bytes →
        ReadsScaled rules bigfloatTag exponent (Magnitude.signed negative magnitude) bytes) := by
  have hscaled (tag : UInt64)
      (hlength : ((Outline.scaled rules tag negative magnitude exponent).encoded rules).length ≤
        maxEncodedLength) :
      ((growable rules).appendScaled tag (.big negative magnitude) exponent).finish =
          .ok ((Outline.scaled rules tag negative magnitude exponent).encoded rules) ∧
        ReadsScaled rules tag exponent (Magnitude.signed negative magnitude)
          ((Outline.scaled rules tag negative magnitude exponent).encoded rules) := by
    have hfinish :=
      (finish_appendScaled_eq_ok_iff rules negative magnitude tag exponent).2 ⟨rfl, hlength⟩
    exact ⟨hfinish, readsScaled_of_finish hfinish⟩
  refine ⟨fun hlength ↦ ?_, hscaled decimalFractionTag, hscaled bigfloatTag, fun bytes ↦
    ⟨readsInteger_of_finish, readsScaled_of_finish, readsScaled_of_finish⟩⟩
  have hfinish := (finish_appendBigNumber_eq_ok_iff rules negative magnitude).2 ⟨rfl, hlength⟩
  exact ⟨hfinish, readsInteger_of_finish hfinish⟩

/-- The least integer that has a plain form, given with a leading zero: its magnitude takes nine
bytes and its content eight. -/
theorem bigNumbers_keep_value_least :
    let magnitude : Bytes := [0, 1, 0, 0, 0, 0, 0, 0, 0, 0]
    let plain : Bytes := [0x3b, 0xff, 0xff, 0xff, 0xff, 0xff, 0xff, 0xff, 0xff]
    (((growable .preferred).appendBigNumber true magnitude).finish = .ok plain ∧
        ReadsInteger .preferred (-2 ^ 64) plain) ∧
      (((growable .preferred).appendDecimalFraction (.big true magnitude) (-2)).finish =
          .ok ([0xc4, 0x82, 0x21] ++ plain) ∧
        ReadsScaled .preferred decimalFractionTag (-2) (-2 ^ 64) ([0xc4, 0x82, 0x21] ++ plain)) ∧
      ((growable .preferred).appendBigfloat (.big true magnitude) (-2)).finish =
          .ok ([0xc5, 0x82, 0x21] ++ plain) ∧
        ReadsScaled .preferred bigfloatTag (-2) (-2 ^ 64) ([0xc5, 0x82, 0x21] ++ plain) := by
  intro magnitude plain
  have hvalue : Magnitude.signed true magnitude = -2 ^ 64 := by decide
  have hplain : (Outline.bigNumber .preferred true magnitude).encoded .preferred = plain := by
    decide
  have hdecimal : (Outline.scaled .preferred decimalFractionTag true magnitude (-2)).encoded
      .preferred = [0xc4, 0x82, 0x21] ++ plain := by decide
  have hbigfloat : (Outline.scaled .preferred bigfloatTag true magnitude (-2)).encoded
      .preferred = [0xc5, 0x82, 0x21] ++ plain := by decide
  have hkept := bigNumbers_keep_value .preferred true magnitude (-2)
  rw [hvalue, hplain, hdecimal, hbigfloat] at hkept
  obtain ⟨hnumber, hfraction, hfloat, hread⟩ := hkept
  have hplainFinish := (hnumber (by decide)).1
  have hdecimalFinish := (hfraction (by decide)).1
  have hbigfloatFinish := (hfloat (by decide)).1
  exact ⟨⟨hplainFinish, (hread _).1 hplainFinish⟩,
    ⟨hdecimalFinish, (hread _).2.1 hdecimalFinish⟩,
    ⟨hbigfloatFinish, (hread _).2.2 hbigfloatFinish⟩⟩

end Encoder

end Cbor

end Cose
