import Mathlib.Tactic.Common
import Cose.Proofs.Float.Numeric

/-!
# Whole numbers in machine words

`Double.wholeNumber?` computes with numbers of any size. A machine finds the same integer with the
words it has: the exponent is a signed word of 64 bits, shifts are by words of 32 bits, and the
absolute value is a word of 128 bits. `Double.wholeNumberInWords?` does so, and has no result if a
difference, a conversion or a shift leaves its word. This never happens, since the exponent lies in
a window before anything is shifted (`Double.wholeNumberInWords?_eq`), and the integer is the exact
value of the number, for all bit patterns: `Double.wholeNumber?_exact`.
-/

set_option autoImplicit false
set_option relaxedAutoImplicit false

namespace Cose.Float

/-! ### Operations on words -/

namespace Word

/-- A number as a word without sign, `none` if it has no room there. -/
def convert? (size : Nat) (number : ℤ) : Option Nat :=
  if 0 ≤ number ∧ number < 2 ^ size then some number.toNat else none

/-- The difference of two words without sign, `none` if it is negative. -/
def subtract? (first second : Nat) : Option Nat :=
  if second ≤ first then some (first - second) else none

/-- The difference of two signed words of 64 bits, `none` if it has no room in one. -/
def subtractSigned? (first second : ℤ) : Option ℤ :=
  if -2 ^ 63 ≤ first - second ∧ first - second < 2 ^ 63 then some (first - second) else none

/-- A word with zeros behind it, `none` if there are as many as the word has bits, or if the result
has no room in a word. -/
def shiftLeft? (size word count : Nat) : Option Nat :=
  if count < size ∧ word <<< count < 2 ^ size then some (word <<< count) else none

/-- A word without its last bits, `none` if these are as many as the word has. -/
def shiftRight? (size word count : Nat) : Option Nat :=
  if count < size then some (word >>> count) else none

/-- Whether the last bits of a word of 64 bits are zeros. -/
def lowBitsClear? (word count : Nat) : Option Bool :=
  if count = 0 then some true
  else if count < 64 then do
    let power ← shiftLeft? 64 1 count
    let mask ← subtract? power 1
    return word &&& mask == 0
  else some false

theorem convert?_eq {size number : Nat} (hnumber : number < 2 ^ size) :
    convert? size number = some number := by
  have hroom : 0 ≤ (number : ℤ) ∧ (number : ℤ) < 2 ^ size := ⟨by omega, by exact_mod_cast hnumber⟩
  rw [convert?, if_pos hroom, Int.toNat_natCast]

theorem convert?_eq_none {size number : Nat} (hnumber : 2 ^ size ≤ number) :
    convert? size number = none := by
  refine if_neg fun hroom ↦ ?_
  have hless : number < 2 ^ size := by exact_mod_cast hroom.2
  omega

theorem subtract?_eq {first second : Nat} (hle : second ≤ first) :
    subtract? first second = some (first - second) := if_pos hle

theorem shiftLeft?_eq {size word count : Nat} (hcount : count < size)
    (hroom : word * 2 ^ count < 2 ^ size) :
    shiftLeft? size word count = some (word * 2 ^ count) := by
  rw [shiftLeft?, Nat.shiftLeft_eq, if_pos ⟨hcount, hroom⟩]

theorem shiftRight?_eq {size word count : Nat} (hcount : count < size) :
    shiftRight? size word count = some (word / 2 ^ count) := by
  rw [shiftRight?, if_pos hcount, Nat.shiftRight_eq_div_pow]

theorem lowBitsClear?_eq {word count : Nat} (hcount : count < 64) :
    lowBitsClear? word count = some (word % 2 ^ count == 0) := by
  unfold lowBitsClear?
  split
  next hzero => rw [hzero, Nat.pow_zero, Nat.mod_one, beq_self_eq_true]
  next hpositive =>
    have hpower : 1 * 2 ^ count < 2 ^ 64 := by
      rw [Nat.one_mul]
      exact Nat.pow_lt_pow_right (by decide) hcount
    simp only [shiftLeft?_eq hcount hpower, Nat.one_mul, subtract?_eq (Nat.two_pow_pos count),
      Option.bind_eq_bind, Option.bind_some, Nat.and_two_pow_sub_one_eq_mod]
    rfl

end Word

open Word

/-! ### Whole numbers -/

namespace Double

/-- The absolute value of a normal number, if it is an integer, from the fraction and from the
exponent where this is not negative. The outer `none` is for a word that is left. -/
def wholeMagnitudeInWords? (fraction : Nat) (exponent : ℤ) : Option (Option Nat) := do
  let significand := fraction ||| 1 <<< 52
  let count ← convert? 32 exponent
  if 52 ≤ exponent then
    let shift ← subtract? count 52
    let magnitude ← shiftLeft? 128 significand shift
    return some magnitude
  else
    let fractionBits ← subtract? 52 count
    if ← lowBitsClear? fraction fractionBits then
      let magnitude ← shiftRight? 128 significand fractionBits
      return some magnitude
    else return none

/-- The integer with a sign and an absolute value that is not zero, where 64 bits are enough. -/
def ofMagnitudeInWords? (isNegative : Bool) (magnitude : Nat) : Option (Option WholeNumber) :=
  if isNegative then do
    let n ← subtract? magnitude 1
    return (convert? 64 n).map fun n ↦ .negative (UInt64.ofNat n)
  else
    return (convert? 64 magnitude).map fun n ↦ .unsigned (UInt64.ofNat n)

/-- The integer that a number with certain fields is, if it is one. The outer `none` is for a word
that is left. -/
def wholeNumberOfFieldsInWords? (fields : Fields) : Option (Option WholeNumber) :=
  if fields.exponent = 0 then
    return if fields.fraction = 0 then some (.unsigned 0) else none
  else if fields.exponent = 2 ^ 11 - 1 then
    return none
  else do
    let exponent ← subtractSigned? fields.exponent 1023
    if 0 ≤ exponent ∧ exponent ≤ 64 then
      match ← wholeMagnitudeInWords? fields.fraction exponent with
      | none => return none
      | some magnitude => ofMagnitudeInWords? fields.negative magnitude
    else return none

/-- The fields of a number, taken out of its word by shifts and masks. -/
def fieldsInWords (number : Double) : Fields where
  negative := number.bits.toNat >>> 63 == 1
  exponent := number.bits.toNat >>> 52 &&& (2 ^ 11 - 1)
  fraction := number.bits.toNat &&& (1 <<< 52 - 1)

/-- The integer that a number is, found in machine words. The outer `none` is for a word that is
left. -/
def wholeNumberInWords? (number : Double) : Option (Option WholeNumber) :=
  wholeNumberOfFieldsInWords? number.fieldsInWords

theorem fieldsInWords_eq (number : Double) : number.fieldsInWords = number.fields := by
  have hsign : number.bits.toNat >>> 63 < 2 := by
    have hbits := number.bits.toNat_lt
    rw [Nat.shiftRight_eq_div_pow]
    omega
  rw [fieldsInWords, Nat.shiftLeft_eq, Nat.one_mul, Nat.and_two_pow_sub_one_eq_mod,
    Nat.and_two_pow_sub_one_eq_mod, ← Nat.mod_eq_of_lt hsign, Nat.shiftRight_eq_div_pow,
    Nat.shiftRight_eq_div_pow]
  rfl

section Magnitude

variable {fields : Fields} {exponent : Nat}

/-- The leading one of a significand stands before the fraction. -/
theorem or_eq_significand (hfit : fields.Fit Format.double) :
    fields.fraction ||| 1 <<< 52 = fields.significand Format.double := by
  have hor := Nat.two_pow_add_eq_or_of_lt hfit.fraction_lt 1
  rw [Nat.mul_one] at hor
  rw [Nat.or_comm]
  exact hor.symm

theorem significand_lt (hfit : fields.Fit Format.double) :
    fields.significand Format.double < 2 ^ 53 := by
  have hfraction : fields.fraction < 2 ^ 52 := hfit.fraction_lt
  have hsignificand : fields.significand Format.double = 2 ^ 52 + fields.fraction := rfl
  omega

/-- In the window of the exponent no word is left, and the absolute value is found. -/
theorem wholeMagnitudeInWords?_eq (hfit : fields.Fit Format.double) (hexponent : exponent ≤ 64) :
    wholeMagnitudeInWords? fields.fraction exponent = some (wholeMagnitude? fields exponent) := by
  have hcount : exponent < 2 ^ 32 := by omega
  have hbits : Format.double.fractionBits = 52 := rfl
  simp only [wholeMagnitudeInWords?, wholeMagnitude?, or_eq_significand hfit, convert?_eq hcount,
    hbits, Option.bind_eq_bind, Option.bind_some, Nat.ofNat_le_cast]
  split
  next hle =>
    have hroom : fields.significand Format.double * 2 ^ (exponent - 52) < 2 ^ 128 := by
      calc
        _ < 2 ^ 53 * 2 ^ (exponent - 52) :=
          Nat.mul_lt_mul_of_pos_right (significand_lt hfit) (Nat.two_pow_pos _)
        _ ≤ 2 ^ 53 * 2 ^ 12 := Nat.mul_le_mul_left _ (Nat.pow_le_pow_right (by decide) (by omega))
        _ < 2 ^ 128 := by decide
    rw [subtract?_eq hle, Option.bind_some, shiftLeft?_eq (by omega) hroom]
    rfl
  next hless =>
    -- The leading one is no bit of the fraction, so it may be left out of the test.
    have hleading : fields.significand Format.double % 2 ^ (52 - exponent) =
        fields.fraction % 2 ^ (52 - exponent) := by
      have hsplit : 2 ^ 52 = 2 ^ (52 - exponent) * 2 ^ exponent := by
        rw [← Nat.pow_add, Nat.sub_add_cancel (by omega)]
      change (2 ^ 52 + fields.fraction) % _ = _
      rw [hsplit, Nat.mul_add_mod]
    rw [subtract?_eq (by omega), Option.bind_some, lowBitsClear?_eq (by omega), Option.bind_some,
      shiftRight?_eq (by omega), hleading]
    by_cases hclear : fields.fraction % 2 ^ (52 - exponent) = 0
    · simp only [hclear, beq_self_eq_true, if_true]
      rfl
    · simp only [beq_iff_eq, hclear, if_false]
      rfl

/-- Past the window the absolute value is too great for an integer of either sign. -/
theorem ofMagnitude?_of_large (hexponent : 64 < exponent) (isNegative : Bool) :
    (wholeMagnitude? fields exponent).bind (WholeNumber.ofMagnitude? isNegative) = none := by
  have hlarge : 2 ^ 64 < fields.significand Format.double * 2 ^ (exponent - 52) :=
    calc
      2 ^ 64 < 2 ^ 52 * 2 ^ 13 := by decide
      _ ≤ fields.significand Format.double * 2 ^ (exponent - 52) :=
        Nat.mul_le_mul (Nat.le_add_right _ _) (Nat.pow_le_pow_right (by decide) (by omega))
  have hbits : Format.double.fractionBits = 52 := rfl
  rw [wholeMagnitude?, hbits, if_pos (by omega), Option.bind_some, WholeNumber.ofMagnitude?,
    if_neg (Nat.not_le.2 hlarge), if_neg (Nat.not_lt.2 hlarge.le), ite_self]

/-- A number that is not below one has an absolute value that is not zero. -/
theorem wholeMagnitude?_pos {magnitude : Nat}
    (hmagnitude : wholeMagnitude? fields exponent = some magnitude) : 0 < magnitude := by
  have hpositive : 0 < fields.significand Format.double :=
    Nat.add_pos_left (Nat.two_pow_pos _) _
  unfold wholeMagnitude? at hmagnitude
  dsimp only at hmagnitude
  split at hmagnitude
  · cases hmagnitude
    exact Nat.mul_pos hpositive (Nat.two_pow_pos _)
  · rw [Option.ite_none_right_eq_some, Option.some.injEq] at hmagnitude
    obtain ⟨hdivides, rfl⟩ := hmagnitude
    exact Nat.div_pos (Nat.le_of_dvd hpositive (Nat.dvd_of_mod_eq_zero hdivides))
      (Nat.two_pow_pos _)

/-- No word is left where the sign is applied, and 64 bits are enough in the same cases. -/
theorem ofMagnitudeInWords?_eq {magnitude : Nat} (hpositive : 0 < magnitude) (isNegative : Bool) :
    ofMagnitudeInWords? isNegative magnitude =
      some (WholeNumber.ofMagnitude? isNegative magnitude) := by
  unfold ofMagnitudeInWords? WholeNumber.ofMagnitude?
  cases isNegative with
  | false =>
    simp only [Bool.false_eq_true, if_false]
    split
    next hroom => rw [convert?_eq hroom]; rfl
    next hlarge => rw [convert?_eq_none (Nat.not_lt.1 hlarge)]; rfl
  | true =>
    simp only [if_true, subtract?_eq (Nat.succ_le_of_lt hpositive), Option.bind_eq_bind,
      Option.bind_some]
    split
    next hroom => rw [convert?_eq (by omega)]; rfl
    next hlarge => rw [convert?_eq_none (by omega)]; rfl

end Magnitude

/-- No word is left, and the integer that is found in words is the one of the number. -/
theorem wholeNumberInWords?_eq (number : Double) :
    number.wholeNumberInWords? = some number.wholeNumber? := by
  have hfit : number.fields.Fit Format.double := Format.fit_unpack _ _
  have hexponent : number.fields.exponent < 2 ^ 11 := hfit.exponent_lt
  have hbias : Format.double.bias = 1023 := by decide
  have htopExponent : Format.double.topExponent = 2 ^ 11 - 1 := by decide
  rw [wholeNumberInWords?, fieldsInWords_eq, wholeNumberOfFieldsInWords?, ← htopExponent]
  by_cases hzero : number.fields.exponent = 0
  · simp only [wholeNumber?, hzero, if_true]
    rfl
  by_cases htop : number.fields.exponent = Format.double.topExponent
  · simp only [wholeNumber?, if_neg hzero, if_pos htop]
    rfl
  have hunbiased : subtractSigned? number.fields.exponent 1023 =
      some ((number.fields.exponent : ℤ) - 1023) := if_pos (by omega)
  rw [if_neg hzero, if_neg htop, hunbiased, Option.bind_eq_bind, Option.bind_some]
  by_cases hsmall : number.fields.exponent < Format.double.bias
  · rw [if_neg (by omega), wholeNumber?, if_neg hzero, if_neg htop, if_pos hsmall]
    rfl
  · rw [wholeNumber?_of_bias_le (Nat.not_lt.1 hsmall) htop, hbias]
    rw [hbias] at hsmall
    have hcast : (number.fields.exponent : ℤ) - 1023 =
        (number.fields.exponent - 1023 : Nat) := by omega
    rw [hcast]
    by_cases hwindow : number.fields.exponent - 1023 ≤ 64
    · rw [if_pos (by omega), wholeMagnitudeInWords?_eq hfit hwindow, Option.bind_eq_bind,
        Option.bind_some]
      cases hmagnitude : wholeMagnitude? number.fields (number.fields.exponent - 1023) with
      | none => rfl
      | some magnitude =>
        exact ofMagnitudeInWords?_eq (wholeMagnitude?_pos hmagnitude) number.fields.negative
    · rw [if_neg (by omega), ofMagnitude?_of_large (by omega)]
      rfl

/-- The integer that is found for a number is its exact value, for all bit patterns: any integer
from `0` to `2 ^ 64 - 1`, either zero being `0`, and any from `-2 ^ 64` to `-1`. None is found for
exactly the numbers that are no integer of this range. No word is left on the way. -/
theorem wholeNumber?_exact (number : Double) :
    (∀ n : UInt64, number.wholeNumber? = some (.unsigned n) ↔
      number.datum.numeric = .finite n.toNat) ∧
    (∀ n : UInt64, number.wholeNumber? = some (.negative n) ↔
      number.datum.numeric = .finite (-1 - n.toNat)) ∧
    (number.wholeNumber? = none ↔
      ¬∃ value : ℤ, -2 ^ 64 ≤ value ∧ value < 2 ^ 64 ∧ number.datum.numeric = .finite value) ∧
    number.wholeNumberInWords? = some number.wholeNumber? := by
  refine ⟨fun n ↦ ?_, fun n ↦ ?_, ?_, number.wholeNumberInWords?_eq⟩
  · rw [wholeNumber?_eq_some_iff]
    rfl
  · rw [wholeNumber?_eq_some_iff, WholeNumber.value]
    push_cast
    rfl
  · rw [Option.eq_none_iff_forall_ne_some, not_exists]
    constructor
    · rintro hnone value ⟨hlower, hupper, hvalue⟩
      obtain ⟨whole, rfl⟩ := WholeNumber.exists_value_eq_iff.2 ⟨hlower, hupper⟩
      exact hnone whole ((number.wholeNumber?_eq_some_iff whole).2 hvalue)
    · intro hnone whole hwhole
      obtain ⟨hlower, hupper⟩ := WholeNumber.exists_value_eq_iff.1 ⟨whole, rfl⟩
      exact hnone whole.value ⟨hlower, hupper, (number.wholeNumber?_eq_some_iff whole).1 hwhole⟩

/-- The range is not symmetric: `2 ^ 64` is no integer of it, and `-2 ^ 64` is. -/
example : (Double.mk 0x43f0000000000000).wholeNumber? = none ∧
    (Double.mk 0xc3f0000000000000).wholeNumber? = some (.negative 0xffffffffffffffff) := by decide

end Double

end Cose.Float
