import Mathlib.Tactic.Common
import Cose.Magnitude

/-!
# The values of magnitudes

A magnitude without leading zeros is told by its number: its first byte weighs as much as its
length allows (`Magnitude.isStripped_cons_iff`), so its length can be read off its number
(`Magnitude.length_le_iff`). Stripping keeps the number. Subtracting one runs a borrow from the last
byte upwards, and what the bytes and the borrow stand for together is one less at every byte
(`Magnitude.ofBigEndian_borrowOne`); that the difference has no leading zero then follows from its
number alone (`Magnitude.ofBigEndian_decrement`).
-/

set_option autoImplicit false
set_option relaxedAutoImplicit false

namespace Cose

theorem ofBigEndian_cons_zero (rest : Bytes) : ofBigEndian (0 :: rest) = ofBigEndian rest := by
  rw [ofBigEndian_cons]
  simp

/-- A first byte that is not zero weighs at least as much as any number of the length behind it. -/
theorem pow_le_ofBigEndian_cons {first : UInt8} (hfirst : first ≠ 0) (rest : Bytes) :
    256 ^ rest.length ≤ ofBigEndian (first :: rest) := by
  have hpositive : 1 ≤ first.toNat := by
    rw [Nat.one_le_iff_ne_zero]
    exact fun hzero ↦ hfirst (UInt8.toNat_inj.1 hzero)
  have hscaled := Nat.mul_le_mul_right (256 ^ rest.length) hpositive
  rw [ofBigEndian_cons]
  omega

namespace Magnitude

/-! ### Leading zeros -/

/-- Whether a magnitude has no leading zero byte. -/
def IsStripped (magnitude : Bytes) : Prop := magnitude.head? ≠ some 0

/-- A magnitude has no leading zero if and only if its number needs all of its bytes. -/
theorem isStripped_cons_iff (first : UInt8) (rest : Bytes) :
    IsStripped (first :: rest) ↔ 256 ^ rest.length ≤ ofBigEndian (first :: rest) := by
  constructor
  · intro hstripped
    exact pow_le_ofBigEndian_cons (fun hzero ↦ hstripped (congrArg some hzero)) rest
  · intro hle hzero
    obtain rfl : first = 0 := Option.some.inj hzero
    rw [ofBigEndian_cons_zero] at hle
    exact absurd (ofBigEndian_lt rest) (Nat.not_lt.2 hle)

/-- The length of a magnitude without leading zeros is bounded like its number. -/
theorem length_le_iff {magnitude : Bytes} (hstripped : IsStripped magnitude) (width : Nat) :
    magnitude.length ≤ width ↔ ofBigEndian magnitude < 256 ^ width := by
  constructor
  · intro hlength
    exact Nat.lt_of_lt_of_le (ofBigEndian_lt magnitude)
      (Nat.pow_le_pow_right (by decide) hlength)
  · intro hlt
    cases magnitude with
    | nil => exact Nat.zero_le _
    | cons first rest =>
      have hle := (isStripped_cons_iff first rest).1 hstripped
      have hshorter : rest.length < width :=
        (Nat.pow_lt_pow_iff_right (by decide)).1 (Nat.lt_of_le_of_lt hle hlt)
      exact hshorter

theorem isStripped_strip (magnitude : Bytes) : IsStripped (strip magnitude) := by
  intro hzero
  have hfirst := List.head?_dropWhile_not (· == 0) magnitude
  rw [strip] at hzero
  rw [hzero] at hfirst
  simp at hfirst

/-- Leading zeros do not count. -/
@[simp]
theorem ofBigEndian_strip (magnitude : Bytes) :
    ofBigEndian (strip magnitude) = ofBigEndian magnitude := by
  induction magnitude with
  | nil => rfl
  | cons first rest ih =>
    by_cases hzero : first = 0
    · subst hzero
      rw [ofBigEndian_cons_zero, ← ih]
      rfl
    · rw [strip, List.dropWhile_cons_of_neg (by simpa using hzero)]

/-- The empty magnitude is the only one for zero that has no leading zero. -/
theorem ofBigEndian_eq_zero_iff {magnitude : Bytes} (hstripped : IsStripped magnitude) :
    ofBigEndian magnitude = 0 ↔ magnitude = [] := by
  have hlength := length_le_iff hstripped 0
  rwa [Nat.le_zero, List.length_eq_zero_iff, Nat.pow_zero, Nat.lt_one_iff, Iff.comm] at hlength

/-- A magnitude fits in 64 bits if and only if its number does, and is then that number. -/
theorem toUInt64?_eq_some_iff (magnitude : Bytes) (number : UInt64) :
    toUInt64? magnitude = some number ↔ ofBigEndian magnitude = number.toNat := by
  have hlength := length_le_iff (isStripped_strip magnitude) 8
  have hword : (256 : Nat) ^ 8 = UInt64.size := rfl
  rw [ofBigEndian_strip, hword] at hlength
  simp only [toUInt64?, hlength, ofBigEndian_strip, Option.ite_none_right_eq_some,
    Option.some.injEq]
  constructor
  · rintro ⟨hlt, rfl⟩
    exact (UInt64.toNat_ofNat_of_lt' hlt).symm
  · intro hnumber
    exact ⟨hnumber ▸ number.toNat_lt_size, by rw [hnumber, UInt64.ofNat_toNat]⟩

/-! ### Subtracting one -/

theorem borrowOne_cons (byte : UInt8) (rest : Bytes) :
    borrowOne (byte :: rest) =
      if (borrowOne rest).2 then ((byte - 1) :: (borrowOne rest).1, byte == 0)
      else (byte :: (borrowOne rest).1, false) := rfl

@[simp]
theorem length_borrowOne (bytes : Bytes) : (borrowOne bytes).1.length = bytes.length := by
  induction bytes with
  | nil => rfl
  | cons byte rest ih =>
    rw [borrowOne_cons]
    split <;> simp [ih]

/-- The borrow that leaves the first byte weighs as much as a byte in front of it, and with it the
difference is one less. -/
theorem ofBigEndian_borrowOne (bytes : Bytes) :
    ofBigEndian (borrowOne bytes).1 + 1 =
      ofBigEndian bytes + if (borrowOne bytes).2 then 256 ^ bytes.length else 0 := by
  induction bytes with
  | nil => rfl
  | cons byte rest ih =>
    rw [borrowOne_cons, ofBigEndian_cons]
    by_cases hborrow : (borrowOne rest).2 = true
    · simp only [hborrow, if_true] at ih ⊢
      rw [ofBigEndian_cons, length_borrowOne, Nat.add_assoc, ih]
      by_cases hzero : byte = 0
      · subst hzero
        simp only [BEq.rfl, if_true, List.length_cons, Nat.pow_succ]
        have hwrapped : (0 - 1 : UInt8).toNat = 255 := rfl
        have hnothing : (0 : UInt8).toNat = 0 := rfl
        rw [hwrapped, hnothing]
        omega
      · have hpositive : 1 ≤ byte.toNat :=
          Nat.one_le_iff_ne_zero.2 fun hnothing ↦ hzero (UInt8.toNat_inj.1 hnothing)
        have hless : (byte - 1).toNat = byte.toNat - 1 :=
          UInt8.toNat_sub_of_le byte 1 (UInt8.le_iff_toNat_le.2 hpositive)
        have hscaled := Nat.sub_mul byte.toNat 1 (256 ^ rest.length)
        have hle := Nat.mul_le_mul_right (256 ^ rest.length) hpositive
        simp only [beq_iff_eq, hzero, if_false, hless]
        omega
    · simp only [hborrow, if_false, Bool.false_eq_true] at ih ⊢
      rw [ofBigEndian_cons, length_borrowOne]
      omega

/-- A magnitude that is not zero leaves no borrow. -/
theorem ofBigEndian_borrowOne_of_pos {bytes : Bytes} (hpositive : 0 < ofBigEndian bytes) :
    ofBigEndian (borrowOne bytes).1 + 1 = ofBigEndian bytes := by
  have hvalue := ofBigEndian_borrowOne bytes
  have hlt := ofBigEndian_lt (borrowOne bytes).1
  rw [length_borrowOne] at hlt
  split at hvalue <;> omega

theorem all_zero_iff (bytes : Bytes) : bytes.all (· == 0) = true ↔ ofBigEndian bytes = 0 := by
  induction bytes with
  | nil => simp
  | cons byte rest ih =>
    have hpower : 0 < 256 ^ rest.length := Nat.pow_pos (by decide)
    have hbyte : byte = 0 ↔ byte.toNat * 256 ^ rest.length = 0 := by
      rw [Nat.mul_eq_zero, ← UInt8.toNat_inj]
      exact ⟨.inl, fun hzero ↦ hzero.resolve_right (Nat.ne_of_gt hpower)⟩
    rw [List.all_cons, Bool.and_eq_true, ih, beq_iff_eq, hbyte, ofBigEndian_cons,
      Nat.add_eq_zero_iff]

/-- One followed by zeros is the least number of its length. -/
theorem ofBigEndian_eq_pow_iff (first : UInt8) (rest : Bytes) :
    ofBigEndian (first :: rest) = 256 ^ rest.length ↔ first = 1 ∧ rest.all (· == 0) = true := by
  have hlt := ofBigEndian_lt rest
  rw [all_zero_iff, ofBigEndian_cons, ← UInt8.toNat_inj]
  change _ ↔ first.toNat = 1 ∧ _
  constructor
  · intro hvalue
    have hone : first.toNat = 1 := by
      by_contra hother
      rcases Nat.lt_or_gt_of_ne hother with hless | hmore
      · rw [Nat.lt_one_iff.1 hless] at hvalue
        omega
      · have hscaled := Nat.mul_le_mul_right (256 ^ rest.length) (Nat.succ_le_of_lt hmore)
        omega
    rw [hone] at hvalue
    exact ⟨hone, by omega⟩
  · rintro ⟨hone, hzero⟩
    rw [hone, hzero]
    omega

/-- What subtracting one makes of a magnitude without leading zeros: the difference, without its
first byte where the magnitude is one followed by zeros. -/
theorem decrement_cons (first : UInt8) (rest : Bytes) :
    decrement (first :: rest) =
      if ofBigEndian (first :: rest) = 256 ^ rest.length then (borrowOne (first :: rest)).1.tail
      else (borrowOne (first :: rest)).1 := by
  simp only [decrement, decrementedLength, ofBigEndian_eq_pow_iff, List.length_cons]
  split
  · rw [Nat.add_sub_cancel_left, List.drop_one]
  · rw [Nat.sub_self, List.drop_zero]

/-- Subtracting one from a magnitude without leading zeros gives one, for the number less one. -/
theorem ofBigEndian_decrement {magnitude : Bytes} (hstripped : IsStripped magnitude)
    (hpositive : magnitude ≠ []) :
    ofBigEndian (decrement magnitude) + 1 = ofBigEndian magnitude ∧
      IsStripped (decrement magnitude) := by
  obtain ⟨first, rest, rfl⟩ := List.exists_cons_of_ne_nil hpositive
  have hleast := (isStripped_cons_iff first rest).1 hstripped
  have hpower : 0 < 256 ^ rest.length := Nat.pow_pos (by decide)
  have hvalue := ofBigEndian_borrowOne_of_pos (Nat.lt_of_lt_of_le hpower hleast)
  have hlength := length_borrowOne (first :: rest)
  obtain ⟨head, tail, hdifference⟩ :=
    List.exists_cons_of_length_eq_add_one (hlength.trans List.length_cons)
  rw [hdifference] at hvalue hlength
  have htail : tail.length = rest.length := Nat.succ.inj hlength
  rw [decrement_cons, hdifference]
  split
  next hone =>
    rw [hone] at hvalue
    have hzero : head = 0 := by
      by_contra hother
      have hweight := pow_le_ofBigEndian_cons hother tail
      rw [htail] at hweight
      omega
    rw [hzero, ofBigEndian_cons_zero] at hvalue
    refine ⟨by rw [hone]; exact hvalue, ?_⟩
    cases tail with
    | nil => simp [IsStripped]
    | cons second more =>
      rw [List.tail_cons, isStripped_cons_iff]
      rw [← htail, List.length_cons, Nat.pow_succ] at hvalue
      have hfewer : 0 < 256 ^ more.length := Nat.pow_pos (by decide)
      omega
  next hmore =>
    refine ⟨hvalue, (isStripped_cons_iff head tail).2 ?_⟩
    rw [htail]
    omega

end Magnitude

end Cose
