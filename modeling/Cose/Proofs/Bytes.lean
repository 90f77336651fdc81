import Mathlib.Tactic.Common
import Cose.Bytes

/-!
# Big-endian forms are unique

`ofBigEndian_bigEndian` reads a written number back. `bigEndian_ofBigEndian` is the other
direction: a byte string is the only form of its number in its own length. So a number of fixed
width and its digits determine each other.
-/

set_option autoImplicit false
set_option relaxedAutoImplicit false

namespace Cose

/-- Writing a number looks only at its remainder modulo the numbers that fit. -/
theorem bigEndian_mod (width number : Nat) :
    bigEndian width (number % 256 ^ width) = bigEndian width number := by
  induction width generalizing number with
  | zero => rfl
  | succ width ih =>
    have hfirst : UInt8.ofNat (number % 256 ^ (width + 1) / 256 ^ width) =
        UInt8.ofNat (number / 256 ^ width) := by
      rw [Nat.pow_succ, Nat.mod_mul_right_div_self]
      exact UInt8.ofNat_mod_size
    have hlower : number % 256 ^ (width + 1) % 256 ^ width = number % 256 ^ width :=
      Nat.mod_mod_of_dvd number (Nat.pow_dvd_pow 256 (Nat.le_succ width))
    rw [bigEndian, bigEndian, hfirst, ← ih (number % 256 ^ (width + 1)), hlower, ih number]

/-- A byte string is the big-endian form of its number in its own length. -/
theorem bigEndian_ofBigEndian (digits : Bytes) :
    bigEndian digits.length (ofBigEndian digits) = digits := by
  induction digits with
  | nil => rfl
  | cons byte rest ih =>
    have hlt := ofBigEndian_lt rest
    have hpos : 0 < 256 ^ rest.length := Nat.pow_pos (by decide)
    have hfirst : (byte.toNat * 256 ^ rest.length + ofBigEndian rest) / 256 ^ rest.length =
        byte.toNat := by
      rw [Nat.mul_comm, Nat.mul_add_div hpos, Nat.div_eq_of_lt hlt, Nat.add_zero]
    have hlower : (byte.toNat * 256 ^ rest.length + ofBigEndian rest) % 256 ^ rest.length =
        ofBigEndian rest := by
      rw [Nat.mul_comm, Nat.mul_add_mod, Nat.mod_eq_of_lt hlt]
    rw [ofBigEndian_cons, List.length_cons, bigEndian, hfirst, UInt8.ofNat_toNat,
      ← bigEndian_mod rest.length, hlower, ih]

end Cose
