import Mathlib.Algebra.Order.Field.Power
import Mathlib.Tactic.Linarith
import Cose.Proofs.Float.Denotation

/-!
# Numbers by their value

`Datum.numeric` forgets the sign of a zero and all about a NaN but that it is none, so that numbers
of different precisions, and integers, can be compared by their value alone. Apart from zeros and
NaNs a double precision number is told by its value (`Double.eq_of_numeric_eq`).

A finite number is an integer if and only if it is that many times the units that make one
(`Fields.numeric_eq_finite_iff`). From this `Double.wholeNumber?` finds exactly the integers between
`-2 ^ 64` and `2 ^ 64 - 1` (`Double.wholeNumber?_eq_some_iff`). A single precision number is reduced
like the double precision number that it widens to (`Single.reduce_eq`).
-/

set_option autoImplicit false
set_option relaxedAutoImplicit false

namespace Cose.Float

/-- The value of a number: a rational number, an infinity, or none. -/
inductive Numeric where
  | finite (value : ℚ)
  | infinite (negative : Bool)
  | nan
deriving DecidableEq

namespace Datum

/-- The value of what a bit pattern stands for. -/
def numeric : Datum → Numeric
  | finite negative magnitude => .finite (if negative then -magnitude else magnitude)
  | infinite negative => .infinite negative
  | nan _ _ => .nan

/-- Whether the magnitude of a finite number is an absolute value. -/
def Proper : Datum → Prop
  | finite _ magnitude => 0 ≤ magnitude
  | _ => True

/-- Apart from zeros and NaNs, what has the same value is the same. -/
theorem eq_of_numeric_eq {first second : Datum} (hfirst : first.Proper) (hsecond : second.Proper)
    (hnan : first.numeric ≠ .nan) (hzero : first.numeric ≠ .finite 0)
    (hsame : first.numeric = second.numeric) : first = second := by
  cases first with
  | nan negative payload => exact absurd rfl hnan
  | infinite negative =>
    cases second with
    | infinite other => rw [Numeric.infinite.inj hsame]
    | finite other magnitude => cases hsame
    | nan other payload => cases hsame
  | finite negative magnitude =>
    cases second with
    | infinite other => cases hsame
    | nan other payload => cases hsame
    | finite other size =>
      have hvalue := Numeric.finite.inj hsame
      have hpositive : magnitude ≠ 0 := by
        rintro rfl
        exact hzero (by simp [numeric])
      replace hfirst : 0 < magnitude := lt_of_le_of_ne hfirst hpositive.symm
      replace hsecond : 0 ≤ size := hsecond
      cases negative <;> cases other <;>
        simp only [if_true, if_false, Bool.false_eq_true, neg_inj] at hvalue
      · rw [hvalue]
      · linarith
      · linarith
      · rw [hvalue]

end Datum

namespace Fields

variable {format : Format} {first second fields : Fields}

/-! ### Numbers are told by their units -/

/-- A greater exponent outweighs every fraction. -/
theorem units_lt_of_exponent_lt (hfit : first.Fit format)
    (hless : first.exponent < second.exponent) : first.units format < second.units format := by
  have hfraction := hfit.fraction_lt
  obtain ⟨exponent, hexponent⟩ := Nat.exists_eq_succ_of_ne_zero (Nat.ne_zero_of_lt hless)
  have hbelow : first.units format < 2 ^ format.fractionBits * 2 ^ exponent := by
    unfold units
    split
    · exact Nat.lt_of_lt_of_le hfraction (Nat.le_mul_of_pos_right _ (Nat.two_pow_pos _))
    next hnormal =>
      have hpower : 2 ^ (first.exponent - 1) * 2 ≤ 2 ^ exponent := by
        rw [← Nat.pow_succ]
        exact Nat.pow_le_pow_right (by decide) (by omega)
      have hsignificand : first.significand format < 2 * 2 ^ format.fractionBits := by
        rw [significand]
        omega
      calc
        first.significand format * 2 ^ (first.exponent - 1) <
            2 * 2 ^ format.fractionBits * 2 ^ (first.exponent - 1) :=
          Nat.mul_lt_mul_of_pos_right hsignificand (Nat.two_pow_pos _)
        _ = 2 ^ format.fractionBits * (2 ^ (first.exponent - 1) * 2) := by ring
        _ ≤ 2 ^ format.fractionBits * 2 ^ exponent := Nat.mul_le_mul_left _ hpower
  refine Nat.lt_of_lt_of_le hbelow ?_
  rw [units, hexponent, if_neg (Nat.succ_ne_zero _), Nat.succ_sub_one, significand]
  exact Nat.mul_le_mul_right _ (Nat.le_add_right _ _)

theorem eq_of_units_eq (hfirst : first.Fit format) (hsecond : second.Fit format)
    (hsign : first.negative = second.negative)
    (hunits : first.units format = second.units format) : first = second := by
  have hexponent : first.exponent = second.exponent := by
    rcases Nat.lt_trichotomy first.exponent second.exponent with hless | hsame | hmore
    · exact absurd hunits (Nat.ne_of_lt (units_lt_of_exponent_lt hfirst hless))
    · exact hsame
    · exact absurd hunits (Nat.ne_of_gt (units_lt_of_exponent_lt hsecond hmore))
  obtain ⟨negative, exponent, fraction⟩ := first
  obtain ⟨otherNegative, otherExponent, otherFraction⟩ := second
  obtain rfl : exponent = otherExponent := hexponent
  obtain rfl : negative = otherNegative := hsign
  simp only [units, significand] at hunits
  split at hunits
  · rw [hunits]
  · have hsame := Nat.eq_of_mul_eq_mul_right (Nat.two_pow_pos _) hunits
    rw [Nat.add_left_cancel hsame]

theorem magnitude_nonneg (format : Format) (fields : Fields) : 0 ≤ fields.magnitude format := by
  unfold magnitude
  split <;> positivity

/-- What fields stand for determines them. -/
theorem eq_of_datum_eq (hbias : 0 < format.bias) (hfirst : first.Fit format)
    (hsecond : second.Fit format) (hdatum : first.datum format = second.datum format) :
    first = second := by
  unfold datum at hdatum
  by_cases htop : first.exponent = format.topExponent
  · by_cases hother : second.exponent = format.topExponent
    · rw [if_pos htop, if_pos hother] at hdatum
      obtain ⟨hsign, hfraction⟩ :
          first.negative = second.negative ∧ first.fraction = second.fraction := by
        split_ifs at hdatum with hzero hnone
        · exact ⟨Datum.infinite.inj hdatum, hzero.trans hnone.symm⟩
        · obtain ⟨hsign, hpayload⟩ := Datum.nan.inj hdatum
          rw [div_left_inj' (by positivity)] at hpayload
          exact ⟨hsign, by exact_mod_cast hpayload⟩
      cases first
      cases second
      simp_all
    · rw [if_pos htop, if_neg hother] at hdatum
      split at hdatum <;> cases hdatum
  · by_cases hother : second.exponent = format.topExponent
    · rw [if_neg htop, if_pos hother] at hdatum
      split at hdatum <;> cases hdatum
    · rw [if_neg htop, if_neg hother] at hdatum
      obtain ⟨hsign, hmagnitude⟩ := Datum.finite.inj hdatum
      have hunits := (magnitude_eq_iff hbias hbias first second).1 hmagnitude
      exact eq_of_units_eq hfirst hsecond hsign
        (Nat.eq_of_mul_eq_mul_right (Nat.two_pow_pos _) hunits)

/-- Finite numbers stand for absolute values. -/
theorem proper_datum (format : Format) (fields : Fields) : (fields.datum format).Proper := by
  unfold datum
  split_ifs
  · trivial
  · trivial
  · exact magnitude_nonneg format fields

theorem isNaN_iff (format : Format) (fields : Fields) :
    fields.isNaN format = true ↔ (fields.datum format).numeric = .nan := by
  unfold isNaN datum
  split_ifs <;> simp_all [Datum.numeric]

theorem half_within_single : Within Format.half Format.single := by constructor <;> decide

/-! ### Integers -/

/-- A finite number as a number of units with its sign. -/
def signedUnits (format : Format) (fields : Fields) : ℤ :=
  if fields.negative then -(fields.units format : ℤ) else fields.units format

/-- A finite number is an integer if and only if it is that many times the units of one. -/
theorem numeric_eq_finite_iff (hbias : 0 < format.bias)
    (htop : fields.exponent ≠ format.topExponent) (number : ℤ) :
    (fields.datum format).numeric = .finite number ↔
      fields.signedUnits format = number * (2 ^ format.subnormalScale : Nat) := by
  have hvalue : (fields.datum format).numeric =
      .finite ((fields.signedUnits format : ℚ) / (2 : ℚ) ^ format.subnormalScale) := by
    rw [datum, if_neg htop, Datum.numeric, magnitude_eq_units hbias, signedUnits]
    split
    · push_cast
      rw [neg_div]
    · push_cast
      rfl
  rw [hvalue, Numeric.finite.injEq, div_eq_iff (by positivity)]
  norm_cast

/-- Below one there are less units than make one. -/
theorem units_lt_of_exponent_lt_bias (hfit : fields.Fit format)
    (hless : fields.exponent < format.bias) :
    fields.units format < 2 ^ format.subnormalScale := by
  have hone : (Fields.mk false format.bias 0).units format = 2 ^ format.subnormalScale := by
    rw [units, if_neg (Nat.ne_zero_of_lt hless), significand, Nat.add_zero, ← Nat.pow_add,
      Nat.add_comm, Format.subnormalScale]
  rw [← hone]
  exact units_lt_of_exponent_lt hfit hless

theorem natAbs_signedUnits (format : Format) (fields : Fields) :
    (fields.signedUnits format).natAbs = fields.units format := by
  unfold signedUnits
  split
  · rw [Int.natAbs_neg, Int.natAbs_natCast]
  · exact Int.natAbs_natCast _

theorem units_eq_of_signedUnits_eq {number : ℤ} {one : Nat}
    (hnumber : fields.signedUnits format = number * one) :
    fields.units format = number.natAbs * one := by
  rw [← natAbs_signedUnits, hnumber, Int.natAbs_mul, Int.natAbs_natCast]

/-- Below one only zero is an integer. -/
theorem signedUnits_eq_iff_of_lt_bias (hfit : fields.Fit format)
    (hless : fields.exponent < format.bias) (number : ℤ) :
    fields.signedUnits format = number * (2 ^ format.subnormalScale : Nat) ↔
      fields.units format = 0 ∧ number = 0 := by
  have hunits := units_lt_of_exponent_lt_bias hfit hless
  generalize 2 ^ format.subnormalScale = one at hunits ⊢
  constructor
  · intro hnumber
    have hmultiple := units_eq_of_signedUnits_eq hnumber
    have hnone : number.natAbs = 0 := by
      by_contra hsome
      have hleast := Nat.le_mul_of_pos_left one (Nat.pos_of_ne_zero hsome)
      omega
    rw [hnone, Nat.zero_mul] at hmultiple
    exact ⟨hmultiple, Int.natAbs_eq_zero.1 hnone⟩
  · rintro ⟨hnone, rfl⟩
    rw [signedUnits, hnone]
    simp

theorem units_eq_zero_iff :
    fields.units format = 0 ↔ fields.exponent = 0 ∧ fields.fraction = 0 := by
  unfold units
  split
  next hzero => simp [hzero]
  next hnormal =>
    have hpositive : fields.significand format * 2 ^ (fields.exponent - 1) ≠ 0 :=
      Nat.mul_ne_zero (Nat.ne_of_gt (Nat.add_pos_left (Nat.two_pow_pos _) _))
        (Nat.ne_of_gt (Nat.two_pow_pos _))
    exact iff_of_false hpositive fun hzero ↦ hnormal hzero.1

end Fields

namespace WholeNumber

/-- The integer that a whole number is. -/
def value : WholeNumber → ℤ
  | unsigned n => n.toNat
  | negative n => -1 - n.toNat

theorem value_injective : Function.Injective value := by
  intro first second hsame
  cases first with
  | unsigned n =>
    cases second with
    | unsigned other => rw [UInt64.toNat_inj.1 (Int.ofNat_inj.1 hsame)]
    | negative other =>
      simp only [value] at hsame
      omega
  | negative n =>
    cases second with
    | unsigned other =>
      simp only [value] at hsame
      omega
    | negative other =>
      have hn : n.toNat = other.toNat := by
        simp only [value] at hsame
        omega
      rw [UInt64.toNat_inj.1 hn]

/-- The whole numbers are the integers from `-2 ^ 64` to `2 ^ 64 - 1`. -/
theorem exists_value_eq_iff {integer : ℤ} :
    (∃ whole : WholeNumber, whole.value = integer) ↔ -2 ^ 64 ≤ integer ∧ integer < 2 ^ 64 := by
  constructor
  · rintro ⟨n | n, rfl⟩
    all_goals
      have hn := n.toNat_lt
      simp only [value]
      omega
  · rintro ⟨hlower, hupper⟩
    cases integer with
    | ofNat n =>
      have hn : n < 2 ^ 64 := by
        rw [Int.ofNat_eq_natCast] at hupper
        omega
      exact ⟨.unsigned (UInt64.ofNat n), congrArg Nat.cast (UInt64.toNat_ofNat_of_lt' hn)⟩
    | negSucc n =>
      have hn : n < 2 ^ 64 := by omega
      refine ⟨.negative (UInt64.ofNat n), ?_⟩
      rw [value, UInt64.toNat_ofNat_of_lt' hn, Int.negSucc_eq]
      omega

/-- The integer with a sign and an absolute value, where 64 bits are enough for it. -/
def ofMagnitude? (isNegative : Bool) (magnitude : Nat) : Option WholeNumber :=
  if isNegative then
    if magnitude ≤ 2 ^ 64 then some (.negative (UInt64.ofNat (magnitude - 1))) else none
  else
    if magnitude < 2 ^ 64 then some (.unsigned (UInt64.ofNat magnitude)) else none

theorem ofMagnitude?_eq_some_iff {isNegative : Bool} {magnitude : Nat} (hpositive : 0 < magnitude)
    (whole : WholeNumber) :
    ofMagnitude? isNegative magnitude = some whole ↔
      (if isNegative then -(magnitude : ℤ) else magnitude) = whole.value := by
  have hword (small : Nat) (hsmall : small < 2 ^ 64) : (UInt64.ofNat small).toNat = small :=
    UInt64.toNat_ofNat_of_lt' hsmall
  have hvalue (other : WholeNumber) : some other = some whole ↔ other.value = whole.value := by
    rw [Option.some.injEq]
    exact value_injective.eq_iff.symm
  have hrange : -2 ^ 64 ≤ whole.value ∧ whole.value < 2 ^ 64 := exists_value_eq_iff.1 ⟨whole, rfl⟩
  unfold ofMagnitude?
  split_ifs with hnegative hsmall hsmall
  · rw [hvalue, value, hword _ (by omega)]
    omega
  · exact iff_of_false (by simp) (by omega)
  · rw [hvalue, value, hword _ hsmall]
  · exact iff_of_false (by simp) (by omega)

end WholeNumber

namespace Double

/-- The absolute value of a number that is not below one is found if it is an integer. -/
theorem wholeMagnitude?_eq_some_iff {fields : Fields}
    (hbias : Format.double.bias ≤ fields.exponent) (magnitude : Nat) :
    wholeMagnitude? fields (fields.exponent - Format.double.bias) = some magnitude ↔
      fields.units Format.double = magnitude * 2 ^ Format.double.subnormalScale := by
  obtain ⟨exponent, hexponent⟩ := Nat.exists_eq_add_of_le hbias
  have hpositive : 0 < Format.double.bias := by decide
  have hnormal : fields.exponent ≠ 0 := by omega
  have hunits : fields.units Format.double =
      fields.significand Format.double * 2 ^ exponent * 2 ^ (Format.double.bias - 1) := by
    rw [Fields.units, if_neg hnormal, Nat.mul_assoc, ← Nat.pow_add, hexponent]
    congr 2
    omega
  have hscale : 2 ^ Format.double.subnormalScale =
      2 ^ Format.double.fractionBits * 2 ^ (Format.double.bias - 1) := by
    rw [← Nat.pow_add, Nat.add_comm, Format.subnormalScale]
  rw [hunits, hscale, ← Nat.mul_assoc, Nat.mul_left_inj (Nat.ne_of_gt (Nat.two_pow_pos _)),
    hexponent, Nat.add_sub_cancel_left, wholeMagnitude?]
  generalize fields.significand Format.double = significand
  generalize Format.double.fractionBits = fractionBits
  dsimp only
  split
  next hle =>
    have hsplit : 2 ^ exponent = 2 ^ (exponent - fractionBits) * 2 ^ fractionBits := by
      rw [← Nat.pow_add, Nat.sub_add_cancel hle]
    rw [Option.some.injEq, hsplit, ← Nat.mul_assoc,
      Nat.mul_left_inj (Nat.ne_of_gt (Nat.two_pow_pos _))]
  next hless =>
    have hsplit : 2 ^ fractionBits = 2 ^ (fractionBits - exponent) * 2 ^ exponent := by
      rw [← Nat.pow_add, Nat.sub_add_cancel (by omega)]
    rw [hsplit, ← Nat.mul_assoc, Nat.mul_left_inj (Nat.ne_of_gt (Nat.two_pow_pos _)),
      Option.ite_none_right_eq_some, Option.some.injEq]
    have hpower := Nat.two_pow_pos (fractionBits - exponent)
    constructor
    · rintro ⟨hzero, rfl⟩
      exact (Nat.div_mul_cancel (Nat.dvd_of_mod_eq_zero hzero)).symm
    · rintro rfl
      exact ⟨Nat.mul_mod_left _ _, Nat.mul_div_cancel _ hpower⟩

/-- Below one only zero is an integer. -/
theorem wholeNumber?_of_lt_bias {number : Double}
    (hsmall : number.fields.exponent < Format.double.bias) :
    number.wholeNumber? =
      if number.fields.units Format.double = 0 then some (.unsigned 0) else none := by
  have hbias : Format.double.bias < Format.double.topExponent := by decide
  have htop : number.fields.exponent ≠ Format.double.topExponent := by omega
  rw [wholeNumber?]
  by_cases hzero : number.fields.exponent = 0
  · simp only [hzero, Fields.units_eq_zero_iff, if_true, true_and]
  · simp only [hzero, htop, hsmall, Fields.units_eq_zero_iff, if_true, if_false, false_and]

/-- Any other number is an integer if its absolute value is, and 64 bits have to be enough. -/
theorem wholeNumber?_of_bias_le {number : Double}
    (hlarge : Format.double.bias ≤ number.fields.exponent)
    (htop : number.fields.exponent ≠ Format.double.topExponent) :
    number.wholeNumber? =
      (wholeMagnitude? number.fields (number.fields.exponent - Format.double.bias)).bind
        (WholeNumber.ofMagnitude? number.fields.negative) := by
  have hbias : 0 < Format.double.bias := by decide
  rw [wholeNumber?, if_neg (by omega), if_neg htop, if_neg (by omega)]
  cases wholeMagnitude? number.fields (number.fields.exponent - Format.double.bias) <;> rfl

/-- A number is found to be an integer if and only if its value is that integer. -/
theorem wholeNumber?_eq_some_iff (number : Double) (whole : WholeNumber) :
    number.wholeNumber? = some whole ↔ number.datum.numeric = .finite whole.value := by
  have hfit : number.fields.Fit Format.double := Format.fit_unpack _ _
  have hpositive : 0 < Format.double.bias := by decide
  have hbiasTop : Format.double.bias < Format.double.topExponent := by decide
  unfold datum
  by_cases htop : number.fields.exponent = Format.double.topExponent
  · have hnormal : number.fields.exponent ≠ 0 := by omega
    rw [wholeNumber?, if_neg hnormal, if_pos htop, Fields.datum, if_pos htop]
    split <;> simp [Datum.numeric]
  rw [Fields.numeric_eq_finite_iff hpositive htop]
  by_cases hsmall : number.fields.exponent < Format.double.bias
  · rw [wholeNumber?_of_lt_bias hsmall, Fields.signedUnits_eq_iff_of_lt_bias hfit hsmall,
      Option.ite_none_right_eq_some, Option.some.injEq,
      eq_comm (a := WholeNumber.unsigned 0), ← WholeNumber.value_injective.eq_iff]
    rfl
  · have hlarge := Nat.not_lt.1 hsmall
    have hfound := wholeMagnitude?_eq_some_iff hlarge
    rw [wholeNumber?_of_bias_le hlarge htop]
    have hone : 0 < 2 ^ Format.double.subnormalScale := Nat.two_pow_pos _
    generalize 2 ^ Format.double.subnormalScale = one at hone hfound ⊢
    cases hmagnitude : wholeMagnitude? number.fields
        (number.fields.exponent - Format.double.bias) with
    | none =>
      refine iff_of_false (by simp) fun hwhole ↦ ?_
      have hsome := (hfound _).2 (Fields.units_eq_of_signedUnits_eq hwhole)
      rw [hmagnitude] at hsome
      cases hsome
    | some magnitude =>
      have hunits := (hfound magnitude).1 hmagnitude
      have hmagnitudePositive : 0 < magnitude := by
        refine Nat.pos_of_ne_zero fun hzero ↦ ?_
        rw [hzero, Nat.zero_mul, Fields.units_eq_zero_iff] at hunits
        omega
      have hsigned : number.fields.signedUnits Format.double =
          (if number.fields.negative then -(magnitude : ℤ) else magnitude) * one := by
        rw [Fields.signedUnits, hunits]
        split <;> push_cast <;> ring
      rw [hsigned, mul_left_inj' (by omega : (one : ℤ) ≠ 0), Option.bind_some]
      exact WholeNumber.ofMagnitude?_eq_some_iff hmagnitudePositive whole

/-- A pattern is told by what it stands for. -/
theorem datum_injective : Function.Injective datum := by
  intro first second hsame
  have hfirst : first.fields.Fit Format.double := Format.fit_unpack _ _
  have hsecond : second.fields.Fit Format.double := Format.fit_unpack _ _
  rw [← first.ofFields_fields, ← second.ofFields_fields,
    Fields.eq_of_datum_eq (by decide) hfirst hsecond hsame]

/-- Apart from zeros and NaNs a pattern is told by its value. -/
theorem eq_of_numeric_eq {first second : Double} (hnan : first.datum.numeric ≠ .nan)
    (hzero : first.datum.numeric ≠ .finite 0)
    (hsame : first.datum.numeric = second.datum.numeric) : first = second :=
  datum_injective (Datum.eq_of_numeric_eq (Fields.proper_datum _ _) (Fields.proper_datum _ _)
    hnan hzero hsame)

theorem isNaN_iff (number : Double) : number.isNaN = true ↔ number.datum.numeric = .nan :=
  Fields.isNaN_iff Format.double number.fields

end Double

/-! ### Single precision -/

namespace Single

theorem isNaN_iff (number : Single) : number.isNaN = true ↔ number.datum.numeric = .nan :=
  Fields.isNaN_iff Format.single number.fields

/-- A number that is widened is a NaN if and only if it was one. -/
theorem isNaN_toDouble (number : Single) : number.toDouble.isNaN = number.isNaN := by
  rw [Bool.eq_iff_iff, Double.isNaN_iff, isNaN_iff, datum_toDouble]

/-- The half precision number that a number is narrowed to stands for the same. -/
theorem datum_of_narrow? {number : Single} {narrowed : Fields}
    (hnarrow : number.fields.narrow? Format.single Format.half = some narrowed) :
    (Half.ofFields narrowed).datum = number.datum := by
  have hnumber : number.fields.Fit Format.single := Format.fit_unpack _ _
  obtain ⟨hwiden, hfit⟩ := Fields.widen_of_narrow? Fields.half_within_single hnumber hnarrow
  rw [Half.datum, Half.fields_ofFields hfit, ← Fields.datum_widen Fields.half_within_single hfit,
    hwiden, datum]

/-- A number that stands for the same as a half precision number is narrowed. -/
theorem narrow?_of_datum_eq {number : Single} {half : Half} (hdatum : half.datum = number.datum) :
    number.fields.narrow? Format.single Format.half = some half.fields := by
  have hfit : half.fields.Fit Format.half := Format.fit_unpack _ _
  have hnumber : number.fields.Fit Format.single := Format.fit_unpack _ _
  rw [Half.datum, ← Fields.datum_widen Fields.half_within_single hfit] at hdatum
  rw [← Fields.eq_of_datum_eq (by decide) (Fields.fit_widen Fields.half_within_single hfit)
    hnumber hdatum, Fields.narrow?_widen Fields.half_within_single hfit]

/-- A single precision number is reduced like the double precision number that it widens to. -/
theorem reduce_eq (number : Single) : number.reduce = number.toDouble.reduce := by
  symm
  rw [Double.reduce_eq_iff, reduce]
  split
  next narrowed hnarrow =>
    refine ⟨Double.datum_injective ?_, trivial⟩
    rw [Reduced.toDouble, Half.datum_toDouble, datum_toDouble, datum_of_narrow? hnarrow]
  next hnone =>
    refine ⟨rfl, fun half hsame ↦ ?_⟩
    have hdatum := congrArg Double.datum hsame
    rw [Half.datum_toDouble, datum_toDouble] at hdatum
    rw [narrow?_of_datum_eq hdatum] at hnone
    cases hnone

end Single

end Cose.Float
