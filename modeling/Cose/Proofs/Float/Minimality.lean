import Mathlib.Tactic.Common
import Cose.Proofs.Float.Narrowing

/-!
# Narrowing finds every narrow number

Narrowing gives back whatever was widened (`Fields.narrow?_widen`), so it misses no number that a
narrow format holds. The precision that a number is reduced to is therefore the narrowest one that
holds it, and the only one: `Double.reduce_eq_iff`.
-/

set_option autoImplicit false
set_option relaxedAutoImplicit false

namespace Cose.Float

namespace Fields

variable {narrow wide : Format} {fields : Fields}

/-! ### What was widened is narrowed again -/

/-- The exponents of a narrow format lie inside those of a wide one. -/
theorem Within.bias_le (hwithin : Within narrow wide) : narrow.bias ≤ wide.bias := by
  have hscale : narrow.bias - 1 + narrow.fractionBits < wide.bias := hwithin.subnormalScale_lt
  omega

/-- The fraction of a subnormal number is the significand of the normal number that it is widened
to, but for the zeros behind it. -/
theorem significand_of_log2 (wide : Format) {fraction : Nat} (hfraction : fraction ≠ 0)
    (hlog : fraction.log2 ≤ wide.fractionBits) (negative : Bool) (exponent : Nat) :
    Fields.significand wide ⟨negative, exponent,
        (fraction - 2 ^ fraction.log2) * 2 ^ (wide.fractionBits - fraction.log2)⟩ =
      fraction * 2 ^ (wide.fractionBits - fraction.log2) := by
  have hleading : 2 ^ fraction.log2 ≤ fraction := Nat.log2_self_le hfraction
  have hpow : 2 ^ wide.fractionBits =
      2 ^ fraction.log2 * 2 ^ (wide.fractionBits - fraction.log2) := by
    rw [← Nat.pow_add, Nat.add_sub_cancel' hlog]
  rw [significand, hpow, ← Nat.add_mul, Nat.add_sub_cancel' hleading]

/-- A subnormal number of the narrow format comes back from the normal number it is widened to. -/
theorem narrow?_widen_subnormal (hwithin : Within narrow wide) (hfit : fields.Fit narrow)
    (hexponent : fields.exponent = 0) (hfraction : fields.fraction ≠ 0) :
    (fields.widen narrow wide).narrow? wide narrow = some fields := by
  obtain ⟨negative, exponent, fraction⟩ := fields
  obtain rfl : exponent = 0 := hexponent
  replace hfraction : fraction ≠ 0 := hfraction
  have hlog : fraction.log2 < narrow.fractionBits := (Nat.log2_lt hfraction).2 hfit.fraction_lt
  have hbits := hwithin.fractionBits_lt
  have hscale := hwithin.subnormalScale_lt
  have hbias := hwithin.bias_pos
  have hdefinition : narrow.subnormalScale = narrow.bias - 1 + narrow.fractionBits := rfl
  have hnarrowTop : (0 : Nat) ≠ narrow.topExponent := by
    rw [hwithin.narrow_top]
    omega
  have hwideTop : fraction.log2 + wide.bias - narrow.subnormalScale ≠ wide.topExponent := by
    rw [hwithin.wide_top]
    omega
  have hpositive : fraction.log2 + wide.bias - narrow.subnormalScale ≠ 0 := by omega
  have hunbiased : ((fraction.log2 + wide.bias - narrow.subnormalScale : Nat) : Int) - wide.bias =
      fraction.log2 - narrow.subnormalScale := by omega
  have hnormal : ¬(1 - (narrow.bias : Int) ≤ fraction.log2 - narrow.subnormalScale ∧
      (fraction.log2 : Int) - narrow.subnormalScale ≤ narrow.bias) := by omega
  have hsubnormal : -(narrow.subnormalScale : Int) ≤ fraction.log2 - narrow.subnormalScale ∧
      (fraction.log2 : Int) - narrow.subnormalScale < 1 - (narrow.bias : Int) := by omega
  have hdropped : ((wide.fractionBits : Int) - narrow.subnormalScale -
      (fraction.log2 - narrow.subnormalScale)).toNat = wide.fractionBits - fraction.log2 := by omega
  have hsignificand := significand_of_log2 wide hfraction (by omega) negative
    (fraction.log2 + wide.bias - narrow.subnormalScale)
  simp only [widen, narrow?, unbiased, if_neg hnarrowTop, if_neg hfraction, if_true,
    if_neg hwideTop, if_neg hpositive, hunbiased, if_neg hnormal, if_pos hsubnormal, hdropped,
    hsignificand, Nat.mul_mod_left, Nat.mul_div_cancel _ (Nat.two_pow_pos _)]

/-- What was widened is narrowed to what it was. -/
theorem narrow?_widen (hwithin : Within narrow wide) (hfit : fields.Fit narrow) :
    (fields.widen narrow wide).narrow? wide narrow = some fields := by
  by_cases hsubnormal : fields.exponent = 0 ∧ fields.fraction ≠ 0
  · exact narrow?_widen_subnormal hwithin hfit hsubnormal.1 hsubnormal.2
  obtain ⟨negative, exponent, fraction⟩ := fields
  have hexponent : exponent < 2 ^ narrow.exponentBits := hfit.exponent_lt
  rw [← topExponent_succ, hwithin.narrow_top] at hexponent
  have hle := hwithin.bias_le
  by_cases htop : exponent = narrow.topExponent
  · simp only [widen, narrow?, htop, if_true, Nat.mul_mod_left,
      Nat.mul_div_cancel _ (Nat.two_pow_pos _)]
  · by_cases hzero : exponent = 0
    · obtain rfl : fraction = 0 := by
        by_contra hfraction
        exact hsubnormal ⟨hzero, hfraction⟩
      have hwideTop : (0 : Nat) ≠ wide.topExponent := by
        rw [hwithin.wide_top]
        omega
      subst hzero
      simp only [widen, narrow?, if_neg htop, if_true, if_neg hwideTop]
    · rw [hwithin.narrow_top] at htop
      have hwideTop : exponent + wide.bias - narrow.bias ≠ wide.topExponent := by
        rw [hwithin.wide_top]
        omega
      have hpositive : exponent + wide.bias - narrow.bias ≠ 0 := by omega
      have hunbiased : ((exponent + wide.bias - narrow.bias : Nat) : Int) - wide.bias =
          exponent - narrow.bias := by omega
      have hnormal : 1 - (narrow.bias : Int) ≤ exponent - narrow.bias ∧
          (exponent : Int) - narrow.bias ≤ narrow.bias := by omega
      have hback : ((exponent : Int) - narrow.bias + narrow.bias).toNat = exponent := by omega
      have htop : exponent ≠ narrow.topExponent := by rwa [hwithin.narrow_top]
      simp only [widen, narrow?, unbiased, if_neg htop, if_neg hzero, if_neg hwideTop,
        if_neg hpositive, hunbiased, if_pos hnormal, hback, Nat.mul_mod_left, if_true,
        Nat.mul_div_cancel _ (Nat.two_pow_pos _)]

/-- Zeros behind a fraction make it one of a wide format. -/
theorem shift_lt {fraction bits more : Nat} (hfraction : fraction < 2 ^ bits)
    (hbits : bits ≤ more) :
    fraction * 2 ^ (more - bits) < 2 ^ more := by
  calc
    fraction * 2 ^ (more - bits) < 2 ^ bits * 2 ^ (more - bits) :=
      Nat.mul_lt_mul_of_pos_right hfraction (Nat.two_pow_pos _)
    _ = 2 ^ more := by rw [← Nat.pow_add, Nat.add_sub_cancel' hbits]

/-- What was widened fits the wide format. -/
theorem fit_widen (hwithin : Within narrow wide) (hfit : fields.Fit narrow) :
    (fields.widen narrow wide).Fit wide := by
  have hexponent := hfit.exponent_lt
  rw [← topExponent_succ, hwithin.narrow_top] at hexponent
  have hle := hwithin.bias_le
  have hscale := hwithin.subnormalScale_lt
  have hdefinition : narrow.subnormalScale = narrow.bias - 1 + narrow.fractionBits := rfl
  have hbits := hwithin.fractionBits_lt
  have hshift := shift_lt hfit.fraction_lt hbits.le
  have hwide : ∀ exponent ≤ 2 * wide.bias + 1, exponent < 2 ^ wide.exponentBits := by
    intro exponent hexponent
    rw [← topExponent_succ, hwithin.wide_top]
    omega
  unfold widen
  dsimp only
  split_ifs with htop hzero hfraction
  · exact ⟨hwide _ hwithin.wide_top.le, hshift⟩
  · exact ⟨hwide 0 (Nat.zero_le _), Nat.two_pow_pos _⟩
  · have hlog : fields.fraction.log2 < narrow.fractionBits :=
      (Nat.log2_lt hfraction).2 hfit.fraction_lt
    have hnext : fields.fraction < 2 ^ (fields.fraction.log2 + 1) := Nat.lt_log2_self
    rw [Nat.pow_succ] at hnext
    have hstored : fields.fraction.log2 + wide.bias - narrow.subnormalScale ≤
        2 * wide.bias + 1 := by omega
    have hlower : fields.fraction - 2 ^ fields.fraction.log2 < 2 ^ fields.fraction.log2 := by omega
    exact ⟨hwide _ hstored, shift_lt hlower (by omega)⟩
  · rw [hwithin.narrow_top] at htop
    have hstored : fields.exponent + wide.bias - narrow.bias ≤ 2 * wide.bias + 1 := by omega
    exact ⟨hwide _ hstored, hshift⟩

end Fields

/-! ### The narrowest precision -/

theorem Half.ofFields_fields (number : Half) : Half.ofFields number.fields = number := by
  rw [Half.ofFields, Half.fields, Format.pack_unpack number.bits.toNat_lt, UInt16.ofNat_toNat]

theorem Single.ofFields_fields (number : Single) : Single.ofFields number.fields = number := by
  rw [Single.ofFields, Single.fields, Format.pack_unpack number.bits.toNat_lt, UInt32.ofNat_toNat]

theorem Double.fields_ofFields {fields : Fields} (hfit : fields.Fit Format.double) :
    (Double.ofFields fields).fields = fields := by
  have hlt : Format.double.pack fields < 2 ^ 64 := Format.pack_lt hfit
  rw [Double.fields, Double.ofFields, UInt64.toNat_ofNat', Nat.mod_eq_of_lt hlt,
    Format.unpack_pack hfit]

theorem Half.narrow?_toDouble (number : Half) :
    number.toDouble.fields.narrow? Format.double Format.half = some number.fields := by
  have hfit : number.fields.Fit Format.half := Format.fit_unpack _ _
  rw [Half.toDouble, Double.fields_ofFields (Fields.fit_widen Fields.half_within_double hfit),
    Fields.narrow?_widen Fields.half_within_double hfit]

theorem Single.narrow?_toDouble (number : Single) :
    number.toDouble.fields.narrow? Format.double Format.single = some number.fields := by
  have hfit : number.fields.Fit Format.single := Format.fit_unpack _ _
  rw [Single.toDouble, Double.fields_ofFields (Fields.fit_widen Fields.single_within_double hfit),
    Fields.narrow?_widen Fields.single_within_double hfit]

theorem Half.toDouble_injective : Function.Injective Half.toDouble := by
  intro first second hsame
  have hfirst := first.narrow?_toDouble
  rw [hsame, second.narrow?_toDouble] at hfirst
  rw [← first.ofFields_fields, ← second.ofFields_fields, Option.some.inj hfirst]

theorem Single.toDouble_injective : Function.Injective Single.toDouble := by
  intro first second hsame
  have hfirst := first.narrow?_toDouble
  rw [hsame, second.narrow?_toDouble] at hfirst
  rw [← first.ofFields_fields, ← second.ofFields_fields, Option.some.inj hfirst]

/-- Whether no narrower precision holds the number. -/
def Reduced.IsNarrowest : Reduced → Prop
  | half _ => True
  | single number => ∀ other : Half, other.toDouble ≠ number.toDouble
  | double number =>
    (∀ other : Half, other.toDouble ≠ number) ∧ ∀ other : Single, other.toDouble ≠ number

/-- No narrower precision holds what a number was reduced to. -/
theorem Double.isNarrowest_reduce (number : Double) : number.reduce.IsNarrowest := by
  have hkept := number.toDouble_reduce
  unfold reduce at hkept ⊢
  split
  · trivial
  next hhalf =>
    have hnoHalf (other : Half) : other.toDouble ≠ number := by
      rintro rfl
      rw [other.narrow?_toDouble] at hhalf
      cases hhalf
    rw [hhalf] at hkept
    split
    next narrowed hsingle =>
      rw [hsingle] at hkept
      intro other hother
      exact hnoHalf other (hother.trans hkept)
    next hsingle =>
      refine ⟨hnoHalf, ?_⟩
      rintro other rfl
      rw [other.narrow?_toDouble] at hsingle
      cases hsingle

/-- A number has one form in the narrowest precision that holds it. -/
theorem Reduced.IsNarrowest.unique {first second : Reduced} (hfirst : first.IsNarrowest)
    (hsecond : second.IsNarrowest) (hsame : first.toDouble = second.toDouble) : first = second := by
  cases first with
  | half number =>
    cases second with
    | half other => rw [Half.toDouble_injective hsame]
    | single other => exact absurd hsame (hsecond number)
    | double other => exact absurd hsame (hsecond.1 number)
  | single number =>
    cases second with
    | half other => exact absurd hsame.symm (hfirst other)
    | single other => rw [Single.toDouble_injective hsame]
    | double other => exact absurd hsame (hsecond.2 number)
  | double number =>
    cases second with
    | half other => exact absurd hsame.symm (hfirst.1 other)
    | single other => exact absurd hsame.symm (hfirst.2 other)
    | double other => exact congrArg double hsame

/-- A number is reduced to the narrowest precision that holds it. -/
theorem Double.reduce_eq_iff {number : Double} {reduced : Reduced} :
    number.reduce = reduced ↔ reduced.toDouble = number ∧ reduced.IsNarrowest := by
  constructor
  · rintro rfl
    exact ⟨number.toDouble_reduce, number.isNarrowest_reduce⟩
  · rintro ⟨rfl, hnarrowest⟩
    exact (isNarrowest_reduce _).unique hnarrowest (toDouble_reduce _)

end Cose.Float
