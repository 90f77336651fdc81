import Mathlib.Tactic.Common
import Mathlib.Tactic.Ring
import Cose.Float.Precision

/-!
# Narrowing loses nothing

The fields of a bit pattern and the pattern determine each other (`Format.pack_unpack`,
`Format.unpack_pack`). Where the fields of a wide format are narrowed, widening the result gives
them back: `Fields.widen_of_narrow?` for any format within another, and
`Double.toDouble_reduce` for the precisions, signed zeros, subnormal numbers and the payloads of
NaNs included.
-/

set_option autoImplicit false
set_option relaxedAutoImplicit false

namespace Cose.Float

/-! ### Fields and bit patterns -/

/-- Fields that stand in a pattern of a format. -/
structure Fields.Fit (format : Format) (fields : Fields) : Prop where
  exponent_lt : fields.exponent < 2 ^ format.exponentBits
  fraction_lt : fields.fraction < 2 ^ format.fractionBits

namespace Format

/-- The number of bits of a pattern. -/
def size (format : Format) : Nat := 1 + format.exponentBits + format.fractionBits

theorem fit_unpack (format : Format) (bits : Nat) : (format.unpack bits).Fit format where
  exponent_lt := Nat.mod_lt _ (Nat.two_pow_pos _)
  fraction_lt := Nat.mod_lt _ (Nat.two_pow_pos _)

/-- The exponent and the fraction together stay below the sign. -/
theorem lower_lt {format : Format} {fields : Fields} (hfit : fields.Fit format) :
    fields.exponent * 2 ^ format.fractionBits + fields.fraction <
      2 ^ (format.exponentBits + format.fractionBits) := by
  obtain ⟨hexponent, hfraction⟩ := hfit
  have hscaled : (fields.exponent + 1) * 2 ^ format.fractionBits ≤
      2 ^ format.exponentBits * 2 ^ format.fractionBits :=
    Nat.mul_le_mul_right _ hexponent
  rw [Nat.add_mul, Nat.one_mul] at hscaled
  rw [Nat.pow_add]
  omega

theorem pack_lt {format : Format} {fields : Fields} (hfit : fields.Fit format) :
    format.pack fields < 2 ^ format.size := by
  have hlower := lower_lt hfit
  have hsize : 2 ^ format.size = 2 * 2 ^ (format.exponentBits + format.fractionBits) := by
    rw [size, Nat.add_assoc, Nat.pow_add, Nat.pow_one]
  unfold pack
  split_ifs <;> omega

/-- Fields are read back from the pattern they make. -/
theorem unpack_pack {format : Format} {fields : Fields} (hfit : fields.Fit format) :
    format.unpack (format.pack fields) = fields := by
  have hlower := lower_lt hfit
  obtain ⟨hexponent, hfraction⟩ := hfit
  have hpow : 2 ^ (format.exponentBits + format.fractionBits) =
      2 ^ format.fractionBits * 2 ^ format.exponentBits := by
    rw [Nat.add_comm, Nat.pow_add]
  obtain ⟨negative, exponent, fraction⟩ := fields
  dsimp only at hlower hexponent hfraction
  have hsplit (sign : Nat) :
      (sign * 2 ^ (format.exponentBits + format.fractionBits) +
        (exponent * 2 ^ format.fractionBits + fraction)) / 2 ^ format.fractionBits =
      sign * 2 ^ format.exponentBits + exponent := by
    have hfactor : sign * 2 ^ (format.exponentBits + format.fractionBits) +
        (exponent * 2 ^ format.fractionBits + fraction) =
        2 ^ format.fractionBits * (sign * 2 ^ format.exponentBits + exponent) + fraction := by
      rw [hpow, Nat.mul_add, Nat.mul_left_comm, Nat.mul_comm exponent, Nat.add_assoc]
    rw [hfactor, Nat.mul_add_div (Nat.two_pow_pos _), Nat.div_eq_of_lt hfraction, Nat.add_zero]
  have hsign (sign : Nat) :
      (sign * 2 ^ (format.exponentBits + format.fractionBits) +
        (exponent * 2 ^ format.fractionBits + fraction)) /
        2 ^ (format.exponentBits + format.fractionBits) = sign := by
    rw [Nat.mul_comm, Nat.mul_add_div (Nat.two_pow_pos _), Nat.div_eq_of_lt hlower, Nat.add_zero]
  have hlow (sign : Nat) :
      (sign * 2 ^ (format.exponentBits + format.fractionBits) +
        (exponent * 2 ^ format.fractionBits + fraction)) % 2 ^ format.fractionBits = fraction := by
    rw [hpow, Nat.mul_left_comm, Nat.mul_comm exponent, ← Nat.add_assoc, ← Nat.mul_add,
      Nat.mul_add_mod, Nat.mod_eq_of_lt hfraction]
  have hmiddle (sign : Nat) : (sign * 2 ^ format.exponentBits + exponent) %
      2 ^ format.exponentBits = exponent := by
    rw [Nat.mul_comm, Nat.mul_add_mod, Nat.mod_eq_of_lt hexponent]
  have hpack : format.pack ⟨negative, exponent, fraction⟩ =
      negative.toNat * 2 ^ (format.exponentBits + format.fractionBits) +
        (exponent * 2 ^ format.fractionBits + fraction) := by
    cases negative <;> simp [pack, Nat.add_assoc]
  rw [hpack, unpack, hsign, hsplit, hlow, hmiddle]
  cases negative <;> rfl

/-- A pattern is made of its fields. -/
theorem pack_unpack {format : Format} {bits : Nat} (hbits : bits < 2 ^ format.size) :
    format.pack (format.unpack bits) = bits := by
  have hsize : 2 ^ format.size = 2 ^ (format.exponentBits + format.fractionBits) * 2 := by
    rw [size, Nat.add_assoc, Nat.pow_add, Nat.pow_one, Nat.mul_comm]
  have hsign : bits / 2 ^ (format.exponentBits + format.fractionBits) < 2 :=
    Nat.div_lt_of_lt_mul (hsize ▸ hbits)
  have hpow : 2 ^ (format.exponentBits + format.fractionBits) =
      2 ^ format.fractionBits * 2 ^ format.exponentBits := by
    rw [Nat.add_comm, Nat.pow_add]
  have hupper : bits / 2 ^ format.fractionBits / 2 ^ format.exponentBits =
      bits / 2 ^ (format.exponentBits + format.fractionBits) := by
    rw [Nat.div_div_eq_div_mul, hpow]
  have hfraction := Nat.div_add_mod bits (2 ^ format.fractionBits)
  have hexponent := Nat.div_add_mod (bits / 2 ^ format.fractionBits) (2 ^ format.exponentBits)
  rw [hupper] at hexponent
  have hsum : bits / 2 ^ (format.exponentBits + format.fractionBits) *
      2 ^ (format.exponentBits + format.fractionBits) +
      bits / 2 ^ format.fractionBits % 2 ^ format.exponentBits * 2 ^ format.fractionBits +
      bits % 2 ^ format.fractionBits = bits :=
    calc
      _ = 2 ^ format.fractionBits * (2 ^ format.exponentBits *
            (bits / 2 ^ (format.exponentBits + format.fractionBits)) +
            bits / 2 ^ format.fractionBits % 2 ^ format.exponentBits) +
            bits % 2 ^ format.fractionBits := by rw [hpow]; ring
      _ = bits := by rw [hexponent, hfraction]
  have hcases := Nat.le_one_iff_eq_zero_or_eq_one.1 (Nat.lt_succ_iff.1 hsign)
  unfold pack unpack
  rcases hcases with hzero | hone
  · rw [hzero] at hsum ⊢
    simpa using hsum
  · rw [hone] at hsum ⊢
    simpa using hsum

end Format

namespace Fields

/-! ### Narrowing and widening of fields -/

/-- A format all of whose numbers are zeros, normal numbers, infinities or NaNs of a wide one. -/
structure Within (narrow wide : Format) : Prop where
  fractionBits_lt : narrow.fractionBits < wide.fractionBits
  subnormalScale_lt : narrow.subnormalScale < wide.bias
  bias_pos : 0 < narrow.bias
  narrow_top : narrow.topExponent = 2 * narrow.bias + 1
  wide_top : wide.topExponent = 2 * wide.bias + 1

theorem half_within_double : Within Format.half Format.double := by constructor <;> decide

theorem single_within_double : Within Format.single Format.double := by constructor <;> decide

/-- A number that is split at one of its bits: the leading one stays where it is. -/
theorem log2_two_pow_add {top lower : Nat} (hlower : lower < 2 ^ top) :
    (2 ^ top + lower).log2 = top := by
  have hne : 2 ^ top + lower ≠ 0 := by
    have hpos := Nat.two_pow_pos top
    omega
  rw [Nat.log2_eq_iff hne, Nat.pow_succ]
  omega

/-- Shifting the significand of a normal number down by bits that are all zero. -/
theorem significand_shift {wide : Format} {fields : Fields} {dropped : Nat}
    (hdropped : dropped ≤ wide.fractionBits) (hfraction : fields.fraction < 2 ^ wide.fractionBits)
    (hzero : fields.significand wide % 2 ^ dropped = 0) :
    ∃ lower, fields.significand wide / 2 ^ dropped = 2 ^ (wide.fractionBits - dropped) + lower ∧
      lower < 2 ^ (wide.fractionBits - dropped) ∧ lower * 2 ^ dropped = fields.fraction := by
  have hpow : 2 ^ wide.fractionBits = 2 ^ (wide.fractionBits - dropped) * 2 ^ dropped := by
    rw [← Nat.pow_add, Nat.sub_add_cancel hdropped]
  unfold significand at hzero ⊢
  rw [hpow, Nat.mul_add_mod_self_right] at hzero
  obtain ⟨lower, hlower⟩ := Nat.dvd_of_mod_eq_zero hzero
  refine ⟨lower, ?_, ?_, by rw [hlower, Nat.mul_comm]⟩
  · rw [hpow, hlower, Nat.mul_comm _ (2 ^ dropped), ← Nat.mul_add,
      Nat.mul_div_cancel_left _ (Nat.two_pow_pos dropped)]
  · rw [hlower, hpow, Nat.mul_comm] at hfraction
    exact Nat.lt_of_mul_lt_mul_right hfraction

theorem topExponent_succ (format : Format) :
    format.topExponent + 1 = 2 ^ format.exponentBits :=
  Nat.sub_add_cancel (Nat.two_pow_pos _)

/-- A fraction that loses only zeros is given back by the shift the other way. -/
theorem fraction_shift {narrow wide : Format} (hwithin : Within narrow wide) {fraction : Nat}
    (hfraction : fraction < 2 ^ wide.fractionBits)
    (hzero : fraction % 2 ^ (wide.fractionBits - narrow.fractionBits) = 0) :
    fraction / 2 ^ (wide.fractionBits - narrow.fractionBits) *
        2 ^ (wide.fractionBits - narrow.fractionBits) = fraction ∧
      fraction / 2 ^ (wide.fractionBits - narrow.fractionBits) < 2 ^ narrow.fractionBits := by
  refine ⟨Nat.div_mul_cancel (Nat.dvd_of_mod_eq_zero hzero), ?_⟩
  rw [Nat.div_lt_iff_lt_mul (Nat.two_pow_pos _), ← Nat.pow_add,
    Nat.add_sub_cancel' hwithin.fractionBits_lt.le]
  exact hfraction

/-- A normal number of the wide format that is subnormal in the narrow one. -/
theorem widen_subnormal {narrow wide : Format} (hwithin : Within narrow wide) {fields : Fields}
    (hfit : fields.Fit wide) {dropped : Nat}
    (hexponent : fields.exponent + dropped + narrow.subnormalScale =
      wide.fractionBits + wide.bias)
    (hdropped : dropped ≤ wide.fractionBits)
    (hlarge : wide.fractionBits - narrow.fractionBits < dropped)
    (hzero : fields.significand wide % 2 ^ dropped = 0) :
    widen narrow wide ⟨fields.negative, 0, fields.significand wide / 2 ^ dropped⟩ = fields ∧
      Fit narrow ⟨fields.negative, 0, fields.significand wide / 2 ^ dropped⟩ := by
  obtain ⟨lower, hshift, hlower, hfraction⟩ :=
    significand_shift hdropped hfit.fraction_lt hzero
  have hbits := hwithin.fractionBits_lt
  have hscale := hwithin.subnormalScale_lt
  have hpos := Nat.two_pow_pos (wide.fractionBits - dropped)
  have hnonzero : fields.significand wide / 2 ^ dropped ≠ 0 := by omega
  have htop : (0 : Nat) ≠ narrow.topExponent := by
    rw [hwithin.narrow_top]
    omega
  constructor
  · unfold widen
    rw [if_neg htop, if_pos rfl, if_neg hnonzero]
    simp only [hshift, log2_two_pow_add hlower, Nat.add_sub_cancel_left]
    have hback : wide.fractionBits - (wide.fractionBits - dropped) = dropped := by omega
    have hstored : wide.fractionBits - dropped + wide.bias - narrow.subnormalScale =
        fields.exponent := by omega
    rw [hback, hfraction, hstored]
  · refine ⟨Nat.two_pow_pos _, ?_⟩
    have hle : 2 ^ (wide.fractionBits - dropped + 1) ≤ 2 ^ narrow.fractionBits :=
      Nat.pow_le_pow_right (by decide) (by omega)
    rw [Nat.pow_succ] at hle
    dsimp only
    omega

/-- What was narrowed is widened to what it was, and fits the narrow format. -/
theorem widen_of_narrow? {narrow wide : Format} (hwithin : Within narrow wide)
    {fields narrowed : Fields} (hfit : fields.Fit wide)
    (hnarrow : fields.narrow? wide narrow = some narrowed) :
    narrowed.widen narrow wide = fields ∧ narrowed.Fit narrow := by
  have hnarrowTop := topExponent_succ narrow
  have hwideTop := topExponent_succ wide
  rw [hwithin.narrow_top] at hnarrowTop
  rw [hwithin.wide_top] at hwideTop
  have hbias := hwithin.bias_pos
  have hscale := hwithin.subnormalScale_lt
  have hbits := hwithin.fractionBits_lt
  have hexponentLt := hfit.exponent_lt
  have hdefinition : narrow.subnormalScale = narrow.bias - 1 + narrow.fractionBits := rfl
  have hunbiased : fields.unbiased wide = (fields.exponent : Int) - wide.bias := rfl
  unfold narrow? at hnarrow
  dsimp only at hnarrow
  split_ifs at hnarrow with htop hpayload hzero hfraction hnormal hlow hsubnormal hlow
  -- What is left: an infinity or no number, a zero, a normal number and a subnormal one.
  · obtain ⟨hback, hlt⟩ := fraction_shift hwithin hfit.fraction_lt hpayload
    cases hnarrow
    refine ⟨?_, by dsimp only; rw [hwithin.narrow_top]; omega, hlt⟩
    simp only [widen, if_true, hback, ← htop]
  · cases hnarrow
    refine ⟨?_, Nat.two_pow_pos _, Nat.two_pow_pos _⟩
    have hne : (0 : Nat) ≠ narrow.topExponent := by
      rw [hwithin.narrow_top]
      omega
    rw [widen, if_neg hne, if_pos rfl, if_pos rfl]
    exact congrArg₂ (Fields.mk fields.negative) hzero.symm hfraction.symm
  · obtain ⟨hback, hlt⟩ := fraction_shift hwithin hfit.fraction_lt hlow
    cases hnarrow
    have hstored : (fields.unbiased wide + narrow.bias).toNat + wide.bias =
        fields.exponent + narrow.bias := by omega
    refine ⟨?_, by dsimp only; omega, hlt⟩
    have hne : (fields.unbiased wide + narrow.bias).toNat ≠ narrow.topExponent := by
      rw [hwithin.narrow_top]
      omega
    have hpos : (fields.unbiased wide + narrow.bias).toNat ≠ 0 := by omega
    simp only [widen, if_neg hne, if_neg hpos, hback, hstored, Nat.add_sub_cancel]
  · cases hnarrow
    exact widen_subnormal hwithin hfit (by omega) (by omega) (by omega) hlow

end Fields

/-! ### The precisions -/

theorem Half.fields_ofFields {fields : Fields} (hfit : fields.Fit Format.half) :
    (Half.ofFields fields).fields = fields := by
  have hlt : Format.half.pack fields < 2 ^ 16 := Format.pack_lt hfit
  rw [Half.fields, Half.ofFields, UInt16.toNat_ofNat', Nat.mod_eq_of_lt hlt,
    Format.unpack_pack hfit]

theorem Single.fields_ofFields {fields : Fields} (hfit : fields.Fit Format.single) :
    (Single.ofFields fields).fields = fields := by
  have hlt : Format.single.pack fields < 2 ^ 32 := Format.pack_lt hfit
  rw [Single.fields, Single.ofFields, UInt32.toNat_ofNat', Nat.mod_eq_of_lt hlt,
    Format.unpack_pack hfit]

theorem Double.ofFields_fields (number : Double) : Double.ofFields number.fields = number := by
  rw [Double.ofFields, Double.fields, Format.pack_unpack number.bits.toNat_lt, UInt64.ofNat_toNat]

/-- The double precision number that a number of any precision denotes. -/
def Reduced.toDouble : Reduced → Double
  | half number => number.toDouble
  | single number => number.toDouble
  | double number => number

/-- A double precision number keeps every bit in the precision it is reduced to. -/
theorem Double.toDouble_reduce (number : Double) : number.reduce.toDouble = number := by
  have hfit : number.fields.Fit Format.double := Format.fit_unpack _ _
  unfold Double.reduce
  split
  next narrowed hnarrow =>
    obtain ⟨hwiden, hnarrowed⟩ := Fields.widen_of_narrow? Fields.half_within_double hfit hnarrow
    rw [Reduced.toDouble, Half.toDouble, Half.fields_ofFields hnarrowed, hwiden, ofFields_fields]
  next =>
    split
    next narrowed hnarrow =>
      obtain ⟨hwiden, hnarrowed⟩ :=
        Fields.widen_of_narrow? Fields.single_within_double hfit hnarrow
      rw [Reduced.toDouble, Single.toDouble, Single.fields_ofFields hnarrowed, hwiden,
        ofFields_fields]
    next => rfl

end Cose.Float
