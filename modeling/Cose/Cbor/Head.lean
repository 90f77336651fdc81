import Cose.Bytes
import Cose.Cbor.Basic
import Cose.Cbor.Error

/-!
# Heads of items

Every item starts with a head: a major type and an argument below `2 ^ 64`. The argument sits in
the first byte when it is small, and otherwise in one, two, four or eight bytes that follow.
`encodeHead` writes a head in the shortest form, or in a wider one on request, and `Head.read`
reads a head of any width. `Head.length_of_read` bounds what a read head takes from the input.
-/

set_option autoImplicit false
set_option relaxedAutoImplicit false

namespace Cose.Cbor

/-- The number of bytes that follow the first byte of a head: the fewest that hold the argument,
but no fewer than a given number of them asks for. -/
def argumentWidth (argument : UInt64) (minWidth : Nat) : Nat :=
  if minWidth = 0 ∧ argument.toNat < 24 then 0
  else if minWidth ≤ 1 ∧ argument.toNat < 2 ^ 8 then 1
  else if minWidth ≤ 2 ∧ argument.toNat < 2 ^ 16 then 2
  else if minWidth ≤ 4 ∧ argument.toNat < 2 ^ 32 then 4
  else 8

/-- The additional information that announces an argument of one, two, four or eight bytes. -/
def widthInfo (width : Nat) : Nat :=
  if width = 1 then 24 else if width = 2 then 25 else if width = 4 then 26 else 27

/-- The head of an item. The argument takes the shortest form that has at least `minWidth` bytes
after the first; zero lets it live in the first byte. -/
def encodeHead (major : Major) (argument : UInt64) (minWidth : Nat) : Bytes :=
  let width := argumentWidth argument minWidth
  if width = 0 then
    [UInt8.ofNat (major.code * 32 + argument.toNat)]
  else
    UInt8.ofNat (major.code * 32 + widthInfo width) :: bigEndian width argument.toNat

/-- A head as it was read. -/
structure Head where
  major : Major
  /-- The argument, zero for an indefinite length. -/
  argument : UInt64
  /-- The low five bits of the first byte. -/
  info : Nat
  /-- The number of bytes of the head. -/
  length : Nat
  /-- Whether the head announces an indefinite length, or is a break. -/
  isIndefinite : Bool
deriving DecidableEq, Repr

/-- How many bytes of argument follow a first byte with the given additional information, if it
announces a definite argument at all. -/
def widthOfInfo? (info : Nat) : Option Nat :=
  if info < 24 then some 0
  else if info = 24 then some 1
  else if info = 25 then some 2
  else if info = 26 then some 4
  else if info = 27 then some 8
  else none

namespace Head

/-- Read the head at the start of a byte string. Integers and tags have no indefinite form, and
three values of the additional information are reserved. -/
def read : Bytes → Except DecodeError Head
  | [] => .error .hitEnd
  | initial :: rest =>
    let major := Major.ofInitialByte initial
    let info := initial.toNat % 32
    match widthOfInfo? info with
    | some width =>
      if width = 0 then
        .ok ⟨major, UInt64.ofNat info, info, 1, false⟩
      else
        let digits := rest.take width
        if digits.length = width then
          .ok ⟨major, UInt64.ofNat (ofBigEndian digits), info, 1 + width, false⟩
        else
          .error .hitEnd
    | none =>
      if info = indefiniteInfo then
        match major with
        | .unsigned | .negative | .tag => .error .notWellFormed
        | _ => .ok ⟨major, 0, info, 1, true⟩
      else
        .error .notWellFormed

/-- A head that was read is not empty and lies inside the input. -/
theorem length_of_read {bytes : Bytes} {head : Head} (hread : read bytes = .ok head) :
    0 < head.length ∧ head.length ≤ bytes.length := by
  cases bytes with
  | nil => simp [read] at hread
  | cons initial rest =>
    simp only [read] at hread
    split at hread
    · split at hread
      · cases hread
        simp
      · split at hread
        next hdigits =>
          cases hread
          rw [List.length_take] at hdigits
          simp only [List.length_cons]
          omega
        next => simp at hread
    · split at hread
      · split at hread
        · simp at hread
        · simp at hread
        · simp at hread
        · cases hread
          simp
      · simp at hread

end Head

end Cose.Cbor
