import Cose.Bytes

/-!
# Magnitudes of big numbers

The magnitude of a big number is a byte string, read as a big-endian number of any length. A
negative number `-1 - n` carries `n`, so writing the negative of a magnitude subtracts one from it
and reading adds one. Either step may change the length by one byte.
-/

set_option autoImplicit false
set_option relaxedAutoImplicit false

namespace Cose.Magnitude

/-- A magnitude without its leading zero bytes. Zero is the empty byte string. -/
def strip (magnitude : Bytes) : Bytes := magnitude.dropWhile (· == 0)

/-- The value of a magnitude, if it fits in 64 bits. Leading zeros do not count. -/
def toUInt64? (magnitude : Bytes) : Option UInt64 :=
  let stripped := strip magnitude
  if stripped.length ≤ 8 then some (UInt64.ofNat (ofBigEndian stripped)) else none

/-- The length of a magnitude less one, without leading zeros. One followed by zeros loses a byte.
Assumes: the magnitude is not zero and has no leading zero. -/
def decrementedLength : (magnitude : Bytes) → Nat
  | [] => 0
  | first :: rest =>
    if first = 1 ∧ rest.all (· == 0) then rest.length else rest.length + 1

/-- Subtract one from a byte string of fixed length, and say whether the difference wrapped around
zero. The borrow runs from the last byte upwards. -/
def borrowOne (bytes : Bytes) : Bytes × Bool :=
  bytes.foldr
    (fun byte lower ↦
      if lower.2 then ((byte - 1) :: lower.1, byte == 0) else (byte :: lower.1, false))
    ([], true)

/-- A magnitude less one, without leading zeros. Assumes: the magnitude is not zero and has no
leading zero. -/
def decrement (magnitude : Bytes) : Bytes :=
  (borrowOne magnitude).1.drop (magnitude.length - decrementedLength magnitude)

/-- Add one to a byte string of fixed length, and say whether the sum wrapped around to zero. The
carry runs from the last byte upwards. -/
def carryOne (bytes : Bytes) : Bytes × Bool :=
  bytes.foldr
    (fun byte lower ↦
      if lower.2 then ((byte + 1) :: lower.1, byte == 255) else (byte :: lower.1, false))
    ([], true)

/-- A magnitude plus one, without leading zeros. -/
def increment (magnitude : Bytes) : Bytes :=
  let sum := carryOne (strip magnitude)
  if sum.2 then 1 :: sum.1 else sum.1

end Cose.Magnitude
