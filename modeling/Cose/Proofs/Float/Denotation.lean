import Mathlib.Algebra.Field.Rat
import Mathlib.Algebra.Order.Field.Basic
import Mathlib.Tactic.FieldSimp
import Mathlib.Tactic.NormNum
import Mathlib.Tactic.Positivity
import Cose.Proofs.Float.Minimality

/-!
# What bit patterns denote

`Fields.datum` is what the fields of a pattern stand for in a format: a rational number with its
sign, an infinity, or a NaN, whose payload is read from the left. Every finite number is a whole
number of units of its format, the least positive number that the format has (`Fields.units`), so
numbers of two formats are compared without fractions (`Fields.magnitude_eq_iff`).

Widening keeps the datum (`Fields.datum_widen`). A number is therefore reduced without loss, to the
narrowest precision that holds it: `Double.reduce_lossless_and_minimal`.
-/

set_option autoImplicit false
set_option relaxedAutoImplicit false

namespace Cose.Float

/-- What a bit pattern stands for. The two zeros are told apart by their sign. -/
inductive Datum where
  | finite (negative : Bool) (magnitude : ℚ)
  | infinite (negative : Bool)
  /-- Not a number. The payload is the stored fraction as a part of one, so that payloads of
  different widths are aligned at the left. -/
  | nan (negative : Bool) (payload : ℚ)
deriving DecidableEq

namespace Fields

/-- The absolute value of a finite number. -/
def magnitude (format : Format) (fields : Fields) : ℚ :=
  if fields.exponent = 0 then
    fields.fraction / (2 : ℚ) ^ format.fractionBits * (2 : ℚ) ^ (1 - (format.bias : ℤ))
  else
    (1 + fields.fraction / (2 : ℚ) ^ format.fractionBits) *
      (2 : ℚ) ^ ((fields.exponent : ℤ) - format.bias)

/-- What fields stand for in a format. -/
def datum (format : Format) (fields : Fields) : Datum :=
  if fields.exponent = format.topExponent then
    if fields.fraction = 0 then .infinite fields.negative
    else .nan fields.negative (fields.fraction / (2 : ℚ) ^ format.fractionBits)
  else .finite fields.negative (fields.magnitude format)

/-! ### Units -/

/-- The absolute value of a finite number as a number of units, each the least positive number of
the format. -/
def units (format : Format) (fields : Fields) : Nat :=
  if fields.exponent = 0 then fields.fraction
  else fields.significand format * 2 ^ (fields.exponent - 1)

theorem magnitude_eq_units {format : Format} (hbias : 0 < format.bias) (fields : Fields) :
    fields.magnitude format = (fields.units format : ℚ) / (2 : ℚ) ^ format.subnormalScale := by
  obtain ⟨least, hleast⟩ : ∃ least, format.bias = least + 1 := ⟨format.bias - 1, by omega⟩
  have hscale : format.subnormalScale = least + format.fractionBits := by
    rw [Format.subnormalScale, hleast, Nat.add_sub_cancel]
  have hlow : (2 : ℚ) ^ (1 - (format.bias : ℤ)) = 1 / (2 : ℚ) ^ least := by
    rw [hleast, Nat.cast_succ, sub_add_cancel_right, zpow_neg, zpow_natCast, one_div]
  rw [magnitude, units, hscale, pow_add]
  split
  next hzero =>
    rw [hlow]
    field_simp
  next hnormal =>
    obtain ⟨exponent, hexponent⟩ := Nat.exists_eq_succ_of_ne_zero hnormal
    have hhigh : (2 : ℚ) ^ ((fields.exponent : ℤ) - format.bias) =
        (2 : ℚ) ^ exponent / (2 : ℚ) ^ least := by
      rw [hexponent, hleast, Nat.cast_succ, Nat.cast_succ, add_sub_add_right_eq_sub,
        zpow_sub₀ two_ne_zero, zpow_natCast, zpow_natCast]
    rw [hhigh, hexponent, Nat.succ_sub_one, significand]
    push_cast
    field_simp

/-- Two numbers are equal if and only if they are as many units, brought to one scale. -/
theorem magnitude_eq_iff {format other : Format} (hbias : 0 < format.bias)
    (hother : 0 < other.bias) (first second : Fields) :
    first.magnitude format = second.magnitude other ↔
      first.units format * 2 ^ other.subnormalScale =
        second.units other * 2 ^ format.subnormalScale := by
  rw [magnitude_eq_units hbias, magnitude_eq_units hother,
    div_eq_div_iff (by positivity) (by positivity)]
  norm_cast

/-! ### Widening -/

section Widening

variable {narrow wide : Format} {fields : Fields}

/-- The exponents of normal numbers stay below the top, and those of widened ones too. -/
theorem widen_exponent_ne_top (hwithin : Within narrow wide) (hfit : fields.Fit narrow)
    (htop : fields.exponent ≠ narrow.topExponent) :
    (fields.widen narrow wide).exponent ≠ wide.topExponent := by
  have hexponent := hfit.exponent_lt
  rw [← topExponent_succ, hwithin.narrow_top] at hexponent
  have hle := hwithin.bias_le
  have hscale := hwithin.subnormalScale_lt
  have hdefinition : narrow.subnormalScale = narrow.bias - 1 + narrow.fractionBits := rfl
  have hwideTop := hwithin.wide_top
  unfold widen
  dsimp only
  rw [if_neg htop]
  rw [hwithin.narrow_top] at htop
  split_ifs with hzero hfraction
  · change 0 ≠ _
    omega
  · have hlog : fields.fraction.log2 < narrow.fractionBits :=
      (Nat.log2_lt hfraction).2 hfit.fraction_lt
    change fields.fraction.log2 + wide.bias - narrow.subnormalScale ≠ _
    omega
  · change fields.exponent + wide.bias - narrow.bias ≠ _
    omega

/-- The units of the wide format are that much smaller. -/
theorem units_widen (hwithin : Within narrow wide) (hfit : fields.Fit narrow)
    (htop : fields.exponent ≠ narrow.topExponent) :
    (fields.widen narrow wide).units wide * 2 ^ narrow.subnormalScale =
      fields.units narrow * 2 ^ wide.subnormalScale := by
  have hle := hwithin.bias_le
  have hscale := hwithin.subnormalScale_lt
  have hbits := hwithin.fractionBits_lt
  have hbias := hwithin.bias_pos
  have hnarrowScale : narrow.subnormalScale = narrow.bias - 1 + narrow.fractionBits := rfl
  have hwideScale : wide.subnormalScale = wide.bias - 1 + wide.fractionBits := rfl
  by_cases hzero : fields.exponent = 0
  · rw [hzero] at htop
    by_cases hfraction : fields.fraction = 0
    · simp [units, widen, htop, hzero, hfraction]
    · have hlog : fields.fraction.log2 < narrow.fractionBits :=
        (Nat.log2_lt hfraction).2 hfit.fraction_lt
      have hpositive : fields.fraction.log2 + wide.bias - narrow.subnormalScale ≠ 0 := by omega
      have hexponents : wide.fractionBits - fields.fraction.log2 +
          (fields.fraction.log2 + wide.bias - narrow.subnormalScale - 1) +
          narrow.subnormalScale = wide.subnormalScale := by omega
      simp only [units, widen, htop, hzero, hfraction, hpositive, if_true, if_false]
      rw [significand_of_log2 wide hfraction (by omega), Nat.mul_assoc, Nat.mul_assoc,
        ← Nat.pow_add, ← Nat.pow_add, ← Nat.add_assoc, hexponents]
  · have hpositive : fields.exponent + wide.bias - narrow.bias ≠ 0 := by omega
    have hexponents : wide.fractionBits - narrow.fractionBits +
        (fields.exponent + wide.bias - narrow.bias - 1) + narrow.subnormalScale =
        fields.exponent - 1 + wide.subnormalScale := by omega
    have hpow : 2 ^ wide.fractionBits =
        2 ^ narrow.fractionBits * 2 ^ (wide.fractionBits - narrow.fractionBits) := by
      rw [← Nat.pow_add, Nat.add_sub_cancel' hbits.le]
    simp only [units, widen, htop, hzero, hpositive, if_false, significand]
    rw [hpow, ← Nat.add_mul, Nat.mul_assoc, Nat.mul_assoc, Nat.mul_assoc, ← Nat.pow_add,
      ← Nat.pow_add, ← Nat.pow_add, ← Nat.add_assoc, hexponents]

theorem widen_negative (narrow wide : Format) (fields : Fields) :
    (fields.widen narrow wide).negative = fields.negative := by
  unfold widen
  dsimp only
  split_ifs <;> rfl

/-- Widened fields stand for what they stood for. -/
theorem datum_widen (hwithin : Within narrow wide) (hfit : fields.Fit narrow) :
    (fields.widen narrow wide).datum wide = fields.datum narrow := by
  by_cases htop : fields.exponent = narrow.topExponent
  · have hbits : (2 : ℚ) ^ wide.fractionBits =
        (2 : ℚ) ^ narrow.fractionBits * (2 : ℚ) ^ (wide.fractionBits - narrow.fractionBits) := by
      rw [← pow_add, Nat.add_sub_cancel' hwithin.fractionBits_lt.le]
    have hpayload : ((fields.fraction * 2 ^ (wide.fractionBits - narrow.fractionBits) : Nat) : ℚ) /
        (2 : ℚ) ^ wide.fractionBits = fields.fraction / (2 : ℚ) ^ narrow.fractionBits := by
      rw [hbits]
      push_cast
      field_simp
    have hzero : fields.fraction * 2 ^ (wide.fractionBits - narrow.fractionBits) = 0 ↔
        fields.fraction = 0 := by
      rw [Nat.mul_eq_zero]
      exact or_iff_left (Nat.ne_of_gt (Nat.two_pow_pos _))
    simp only [datum, widen, htop, if_true, hzero, hpayload]
  · have hwideBias : 0 < wide.bias := Nat.lt_of_le_of_lt (Nat.zero_le _) hwithin.subnormalScale_lt
    rw [datum, datum, if_neg (widen_exponent_ne_top hwithin hfit htop), if_neg htop,
      widen_negative, (magnitude_eq_iff hwideBias hwithin.bias_pos _ _).2
        (units_widen hwithin hfit htop)]

end Widening

end Fields

/-! ### The precisions -/

/-- What a half precision number stands for. -/
def Half.datum (number : Half) : Datum := number.fields.datum Format.half

/-- What a single precision number stands for. -/
def Single.datum (number : Single) : Datum := number.fields.datum Format.single

/-- What a double precision number stands for. -/
def Double.datum (number : Double) : Datum := number.fields.datum Format.double

theorem Half.datum_toDouble (number : Half) : number.toDouble.datum = number.datum := by
  have hfit : number.fields.Fit Format.half := Format.fit_unpack _ _
  rw [Double.datum, Half.toDouble,
    Double.fields_ofFields (Fields.fit_widen Fields.half_within_double hfit),
    Fields.datum_widen Fields.half_within_double hfit, Half.datum]

theorem Single.datum_toDouble (number : Single) : number.toDouble.datum = number.datum := by
  have hfit : number.fields.Fit Format.single := Format.fit_unpack _ _
  rw [Double.datum, Single.toDouble,
    Double.fields_ofFields (Fields.fit_widen Fields.single_within_double hfit),
    Fields.datum_widen Fields.single_within_double hfit, Single.datum]

/-- Both widenings keep what a number stands for: its sign, its exact value, an infinity, or the
payload of a NaN. With them a double precision number is reduced without loss and as far as
possible: to the half precision number that widens to it, if there is one, otherwise to the single
precision number that does, and otherwise not at all. -/
theorem Double.reduce_lossless_and_minimal :
    (∀ number : Half, number.toDouble.datum = number.datum) ∧
    (∀ number : Single, number.toDouble.datum = number.datum) ∧
    ∀ number : Double,
      (∀ half : Half, number.reduce = .half half ↔ half.toDouble = number) ∧
      (∀ single : Single, number.reduce = .single single ↔
        (∀ half : Half, half.toDouble ≠ number) ∧ single.toDouble = number) ∧
      ∀ double : Double, number.reduce = .double double ↔
        (∀ half : Half, half.toDouble ≠ number) ∧ (∀ single : Single, single.toDouble ≠ number) ∧
          double = number := by
  refine ⟨Half.datum_toDouble, Single.datum_toDouble, fun number ↦ ⟨fun half ↦ ?_, fun single ↦ ?_,
    fun double ↦ ?_⟩⟩
  · rw [reduce_eq_iff]
    exact and_iff_left trivial
  · rw [reduce_eq_iff]
    constructor
    · rintro ⟨rfl, hnarrowest⟩
      exact ⟨hnarrowest, rfl⟩
    · rintro ⟨hnarrowest, rfl⟩
      exact ⟨rfl, hnarrowest⟩
  · rw [reduce_eq_iff]
    constructor
    · rintro ⟨rfl, hhalf, hsingle⟩
      exact ⟨hhalf, hsingle, rfl⟩
    · rintro ⟨hhalf, hsingle, rfl⟩
      exact ⟨rfl, hhalf, hsingle⟩

end Cose.Float
