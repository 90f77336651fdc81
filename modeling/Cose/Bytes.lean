/-!
# Byte strings and their big-endian values

A byte string is a list of bytes, first byte first. `reaches` asks for a least length without
measuring the whole list. `ofBigEndian` reads one as a number and
`bigEndian` writes a number into a fixed count of bytes, dropping what does not fit.
`ofBigEndian_bigEndian` is the law between them: a number survives up to its remainder modulo
`256 ^ width`.
-/

set_option autoImplicit false
set_option relaxedAutoImplicit false

namespace Cose

-- In this library `2 ^ n` is the core power of numbers, also in a module that sees the power of
-- monoids. The default decides where the exponent is a numeral.
attribute [scoped instance (high)] instPowNat
attribute [default_instance (high + 1)] instPowNat

/-- Whether a list has at least a given number of members, found by walking no further than that
number. -/
def reaches {α : Type} : (count : Nat) → List α → Bool
  | 0, _ => true
  | _ + 1, [] => false
  | count + 1, _ :: rest => reaches count rest

@[simp]
theorem reaches_eq_true_iff {α : Type} (count : Nat) (list : List α) :
    reaches count list = true ↔ count ≤ list.length := by
  fun_induction reaches count list <;> simp_all

/-- A string of bytes, first byte first. -/
abbrev Bytes := List UInt8

/-- The number whose big-endian digits, to the base 256, are the given bytes. -/
def ofBigEndian (bytes : Bytes) : Nat :=
  bytes.foldl (fun value byte ↦ value * 256 + byte.toNat) 0

/-- The `width` low-order bytes of a number, most significant byte first. -/
def bigEndian : (width : Nat) → (number : Nat) → Bytes
  | 0, _ => []
  | width + 1, number => UInt8.ofNat (number / 256 ^ width) :: bigEndian width number

@[simp]
theorem length_bigEndian (width number : Nat) : (bigEndian width number).length = width := by
  induction width with
  | zero => rfl
  | succ width ih => simp [bigEndian, ih]

@[simp]
theorem ofBigEndian_nil : ofBigEndian [] = 0 := rfl

/-- Reading from an accumulated value weighs that value by the length of what follows. -/
theorem foldl_bigEndian (bytes : Bytes) (value : Nat) :
    bytes.foldl (fun value byte ↦ value * 256 + byte.toNat) value =
      value * 256 ^ bytes.length + ofBigEndian bytes := by
  induction bytes generalizing value with
  | nil => simp
  | cons byte rest ih =>
    have hzero := ih byte.toNat
    simp only [ofBigEndian, List.foldl_cons, Nat.zero_mul, Nat.zero_add] at hzero ⊢
    rw [ih, hzero, List.length_cons, Nat.pow_succ, ofBigEndian, Nat.add_mul, Nat.mul_assoc,
      Nat.mul_comm 256, Nat.add_assoc]

theorem ofBigEndian_cons (byte : UInt8) (rest : Bytes) :
    ofBigEndian (byte :: rest) = byte.toNat * 256 ^ rest.length + ofBigEndian rest := by
  rw [ofBigEndian, List.foldl_cons, foldl_bigEndian]
  simp

theorem ofBigEndian_append (left right : Bytes) :
    ofBigEndian (left ++ right) = ofBigEndian left * 256 ^ right.length + ofBigEndian right := by
  rw [ofBigEndian, List.foldl_append, foldl_bigEndian]
  rfl

/-- A byte string denotes a number below 256 to its length. -/
theorem ofBigEndian_lt (bytes : Bytes) : ofBigEndian bytes < 256 ^ bytes.length := by
  induction bytes with
  | nil => simp
  | cons byte rest ih =>
    rw [ofBigEndian_cons, List.length_cons, Nat.pow_succ]
    have hbyte : byte.toNat + 1 ≤ 256 := byte.toNat_lt
    have hscaled := Nat.mul_le_mul_right (256 ^ rest.length) hbyte
    rw [Nat.add_mul, Nat.one_mul, Nat.mul_comm 256] at hscaled
    omega

/-- Writing a number and reading it back keeps its remainder modulo the numbers that fit. -/
theorem ofBigEndian_bigEndian (width number : Nat) :
    ofBigEndian (bigEndian width number) = number % 256 ^ width := by
  induction width with
  | zero => simp [bigEndian, Nat.mod_one]
  | succ width ih =>
    have hbyte : (UInt8.ofNat (number / 256 ^ width)).toNat = number / 256 ^ width % 256 := by simp
    rw [bigEndian, ofBigEndian_cons, ih, length_bigEndian, hbyte, Nat.pow_succ, Nat.mod_mul,
      Nat.mul_comm (256 ^ width), Nat.add_comm]

end Cose
