import Mathlib.Tactic.Common
import Cose.Cbor.Head
import Cose.Proofs.Bytes

/-!
# Arguments and the heads they make

The head of an item of definite length is determined by a major type, a number, and the width that
the number is written in. `Argument` is a number with a width that holds it, and `Argument.head`
is the head itself. `Argument.shortest` takes the narrowest width, and `encodeHead_zero` says that
the encoder writes exactly that one; `encodeHead_eq_head` covers the heads of a forced width.

`Argument.read_head` reads every such head back, in front of any bytes, and `Head.cases_of_read`
is the converse: what was read is a head of this form or the one byte that announces an indefinite
length. The two together make reading and writing of heads inverse to each other.
-/

set_option autoImplicit false
set_option relaxedAutoImplicit false

namespace Cose.Cbor

/-! ### Widths -/

/-- Where the argument of a head stands: in the first byte, or in the bytes that follow it. -/
inductive Width where
  | initial
  | one
  | two
  | four
  | eight
deriving DecidableEq, Repr

namespace Width

/-- The number of bytes that follow the first byte. -/
def size : Width → Nat
  | initial => 0
  | one => 1
  | two => 2
  | four => 4
  | eight => 8

/-- The numbers of a width lie below this bound. -/
def bound : Width → Nat
  | initial => 24
  | one => 2 ^ 8
  | two => 2 ^ 16
  | four => 2 ^ 32
  | eight => 2 ^ 64

/-- The additional information in the first byte of a head with a given number. -/
def info : Width → Nat → Nat
  | initial, number => number
  | one, _ => 24
  | two, _ => 25
  | four, _ => 26
  | eight, _ => 27

/-- A number that a width holds is not cut when it is written in that many bytes. -/
theorem lt_pow_size {width : Width} {number : Nat} (hwidth : width ≠ initial)
    (hnumber : number < width.bound) : number < 256 ^ width.size := by
  cases width <;> simp_all [bound, size]

/-- Every additional information of a definite head is below 28. -/
theorem info_lt {width : Width} {number : Nat} (hnumber : number < width.bound) :
    width.info number < 28 := by
  cases width <;> simp_all [bound, info]
  omega

/-- The additional information tells the width. -/
theorem widthOfInfo?_info {width : Width} {number : Nat} (hnumber : number < width.bound) :
    widthOfInfo? (width.info number) = some width.size := by
  cases width <;> simp_all [bound, info, widthOfInfo?, size]

end Width

/-! ### Arguments and their heads -/

/-- The argument of a head of definite length: a number, and a width that holds it. -/
@[ext]
structure Argument where
  width : Width
  number : UInt64
  lt_bound : number.toNat < width.bound

namespace Argument

/-- The number of an argument as a natural number. -/
def toNat (argument : Argument) : Nat := argument.number.toNat

/-- The additional information in the first byte. -/
def info (argument : Argument) : Nat := argument.width.info argument.number.toNat

/-- The head of a major type with an argument. -/
def head (argument : Argument) (major : Major) : Bytes :=
  UInt8.ofNat (major.code * 32 + argument.info) ::
    bigEndian argument.width.size argument.number.toNat

/-- The narrowest width that holds a number. -/
def narrowest (number : UInt64) : Width :=
  if number.toNat < 24 then .initial
  else if number.toNat < 2 ^ 8 then .one
  else if number.toNat < 2 ^ 16 then .two
  else if number.toNat < 2 ^ 32 then .four
  else .eight

/-- A number in the narrowest width that holds it. -/
def shortest (number : UInt64) : Argument where
  width := narrowest number
  number := number
  lt_bound := by
    have hlt := number.toNat_lt
    unfold narrowest
    split_ifs <;> simp_all [Width.bound]

/-- A number in four bytes or fewer, given by a word of that size. -/
def ofWord16 (number : UInt16) : Argument where
  width := .two
  number := number.toUInt64
  lt_bound := by simpa [Width.bound] using number.toNat_lt

/-- A word of 32 bits in its full width. -/
def ofWord32 (number : UInt32) : Argument where
  width := .four
  number := number.toUInt64
  lt_bound := by simpa [Width.bound] using number.toNat_lt

/-- A word of 64 bits in its full width. -/
def ofWord64 (number : UInt64) : Argument where
  width := .eight
  number := number
  lt_bound := by simpa [Width.bound] using number.toNat_lt

/-- A number in the narrowest width that holds it, by that width. -/
theorem eq_shortest {argument : Argument} (hwidth : argument.width = narrowest argument.number) :
    argument = shortest argument.number := Argument.ext hwidth rfl

@[simp]
theorem number_shortest (number : UInt64) : (shortest number).number = number := rfl

@[simp]
theorem length_head (argument : Argument) (major : Major) :
    (argument.head major).length = argument.width.size + 1 := by
  simp [head]

/-- The first byte of a head holds the major type and the additional information. -/
theorem toNat_initial (argument : Argument) (major : Major) :
    (UInt8.ofNat (major.code * 32 + argument.info)).toNat = major.code * 32 + argument.info := by
  have hcode := major.code_lt
  have hinfo := Width.info_lt argument.lt_bound
  rw [UInt8.toNat_ofNat', Nat.mod_eq_of_lt]
  unfold info
  omega

end Argument

/-! ### The heads that the encoder writes -/

namespace Argument

theorem widthInfo_size {width : Width} (number : Nat) (hwidth : width ≠ .initial) :
    widthInfo width.size = width.info number := by
  cases width <;> simp_all [widthInfo, Width.size, Width.info]

/-- The bytes after the first one are as many as the width of an argument says. -/
theorem encodeHead_eq_head (major : Major) (argument : Argument) (minWidth : Nat)
    (hwidth : argumentWidth argument.number minWidth = argument.width.size) :
    encodeHead major argument.number minWidth = argument.head major := by
  unfold encodeHead head info
  rw [hwidth]
  by_cases hinitial : argument.width = .initial
  · simp [hinitial, Width.size, Width.info, bigEndian]
  · have hsize : argument.width.size ≠ 0 := by
      cases hcase : argument.width <;> simp_all [Width.size]
    simp [hsize, widthInfo_size argument.number.toNat hinitial]

/-- A session without a forced width writes the narrowest head. -/
theorem encodeHead_zero (major : Major) (number : UInt64) :
    encodeHead major number 0 = (shortest number).head major := by
  refine encodeHead_eq_head major (shortest number) 0 ?_
  change argumentWidth number 0 = (narrowest number).size
  simp only [argumentWidth, narrowest, Nat.zero_le, true_and, apply_ite Width.size]
  rfl

theorem encodeHead_word16 (major : Major) (number : UInt16) :
    encodeHead major number.toUInt64 2 = (ofWord16 number).head major := by
  refine encodeHead_eq_head major (ofWord16 number) 2 ?_
  have hlt := number.toNat_lt
  simp [ofWord16, argumentWidth, Width.size, hlt]

theorem encodeHead_word32 (major : Major) (number : UInt32) :
    encodeHead major number.toUInt64 4 = (ofWord32 number).head major := by
  refine encodeHead_eq_head major (ofWord32 number) 4 ?_
  have hlt := number.toNat_lt
  simp [ofWord32, argumentWidth, Width.size, hlt]

theorem encodeHead_word64 (major : Major) (number : UInt64) :
    encodeHead major number 8 = (ofWord64 number).head major := by
  refine encodeHead_eq_head major (ofWord64 number) 8 ?_
  simp [ofWord64, argumentWidth, Width.size]

end Argument

/-! ### Reading heads back -/

/-- The byte that announces an item of indefinite length, and for simple values the break. -/
def indefiniteHead (major : Major) : UInt8 := UInt8.ofNat (major.code * 32 + indefiniteInfo)

/-- The major types that have no indefinite form. -/
def Major.IsAlwaysDefinite (major : Major) : Prop :=
  major = .unsigned ∨ major = .negative ∨ major = .tag

instance (major : Major) : Decidable major.IsAlwaysDefinite :=
  inferInstanceAs (Decidable (_ ∨ _ ∨ _))

theorem toNat_indefiniteHead (major : Major) :
    (indefiniteHead major).toNat = major.code * 32 + 31 := by
  cases major <;> decide

/-- What is read from the head of an argument. -/
def Argument.read (argument : Argument) (major : Major) : Head where
  major := major
  argument := argument.number
  info := argument.info
  length := argument.width.size + 1
  isIndefinite := false

/-- What is read from the head of an indefinite length. -/
def indefiniteRead (major : Major) : Head := ⟨major, 0, indefiniteInfo, 1, true⟩

theorem ofInitialByte_of_toNat {initial : UInt8} {major : Major} {info : Nat}
    (hinitial : initial.toNat = major.code * 32 + info) (hinfo : info < 32) :
    Major.ofInitialByte initial = major ∧ initial.toNat % 32 = info := by
  have hdiv : initial.toNat / 32 = major.code := by omega
  have hmod : initial.toNat % 32 = info := by omega
  exact ⟨by rw [Major.ofInitialByte, hdiv, Major.ofCode_code], hmod⟩

/-- A head is read back from in front of any bytes. -/
theorem Argument.read_head (argument : Argument) (major : Major) (rest : Bytes) :
    Head.read (argument.head major ++ rest) = .ok (argument.read major) := by
  have hinfo := Width.info_lt argument.lt_bound
  obtain ⟨hmajor, hmod⟩ := ofInitialByte_of_toNat (argument.toNat_initial major)
    (Nat.lt_trans hinfo (by decide))
  rw [Argument.head, List.cons_append, Head.read]
  simp only [hmajor, hmod]
  rw [Argument.info, Width.widthOfInfo?_info argument.lt_bound]
  by_cases hwidth : argument.width = .initial
  · simp [hwidth, Width.size, Width.info, Argument.read, Argument.info]
  · have hsize : argument.width.size ≠ 0 := by
      cases hcase : argument.width <;> simp_all [Width.size]
    have hnumber := ofBigEndian_bigEndian argument.width.size argument.number.toNat
    rw [Nat.mod_eq_of_lt (Width.lt_pow_size hwidth argument.lt_bound)] at hnumber
    simp [hsize, List.take_left', hnumber, Argument.read, Argument.info, Nat.add_comm]

/-- The byte of an indefinite length is read back where the major type has that form. -/
theorem read_indefiniteHead {major : Major} (hmajor : ¬major.IsAlwaysDefinite) (rest : Bytes) :
    Head.read (indefiniteHead major :: rest) = .ok (indefiniteRead major) := by
  obtain ⟨hread, hmod⟩ := ofInitialByte_of_toNat (toNat_indefiniteHead major) (by decide)
  rw [Head.read]
  simp only [hread, hmod]
  cases major <;> simp_all [Major.IsAlwaysDefinite, widthOfInfo?, indefiniteInfo, indefiniteRead]

/-- The width with a given additional information. -/
def Width.ofInfo? (info : Nat) : Option Width :=
  if info < 24 then some .initial
  else if info = 24 then some .one
  else if info = 25 then some .two
  else if info = 26 then some .four
  else if info = 27 then some .eight
  else none

theorem widthOfInfo?_eq_map (info : Nat) :
    widthOfInfo? info = (Width.ofInfo? info).map Width.size := by
  unfold widthOfInfo? Width.ofInfo?
  split_ifs <;> rfl

theorem Major.code_ofCode {code : Nat} (hcode : code < 8) : (Major.ofCode code).code = code := by
  match code, hcode with
  | 0, _ | 1, _ | 2, _ | 3, _ | 4, _ | 5, _ | 6, _ | 7, _ => rfl

/-- A byte splits into a major type and additional information. -/
theorem code_ofInitialByte (initial : UInt8) :
    initial = UInt8.ofNat ((Major.ofInitialByte initial).code * 32 + initial.toNat % 32) := by
  have hlt := initial.toNat_lt
  have hcode : (Major.ofInitialByte initial).code = initial.toNat / 32 := by
    have hrange : initial.toNat / 32 < 8 := by omega
    rw [Major.ofInitialByte, Major.code_ofCode hrange]
  rw [hcode, Nat.div_add_mod' initial.toNat 32, UInt8.ofNat_toNat]

theorem Width.info_of_ofInfo? {info : Nat} {width : Width}
    (hwidth : Width.ofInfo? info = some width) (number : Nat) :
    width.info number = if width = .initial then number else info := by
  unfold Width.ofInfo? at hwidth
  split_ifs at hwidth <;> cases hwidth <;> simp_all [Width.info]

theorem Width.eq_initial_of_ofInfo? {info : Nat} {width : Width}
    (hwidth : Width.ofInfo? info = some width) : width = .initial ↔ info < 24 := by
  unfold Width.ofInfo? at hwidth
  split_ifs at hwidth <;> cases hwidth <;> simp_all

/-- Digits of the length of a width denote a number of that width. -/
theorem ofBigEndian_lt_bound {width : Width} {digits : Bytes} (hwidth : width ≠ .initial)
    (hdigits : digits.length = width.size) : ofBigEndian digits < width.bound := by
  have hlt := ofBigEndian_lt digits
  rw [hdigits] at hlt
  cases width <;> simp_all [Width.size, Width.bound]

/-- A head whose argument stands in the first byte. -/
theorem head_of_initial {initial : UInt8} (hinfo : initial.toNat % 32 < 24) :
    ∃ argument : Argument, [initial] = argument.head (Major.ofInitialByte initial) ∧
      argument.info = initial.toNat % 32 ∧ argument.width = .initial := by
  have hnumber : (UInt64.ofNat (initial.toNat % 32)).toNat = initial.toNat % 32 := by
    rw [UInt64.toNat_ofNat', Nat.mod_eq_of_lt]
    omega
  refine ⟨⟨.initial, UInt64.ofNat (initial.toNat % 32), by rwa [hnumber]⟩, ?_, ?_, rfl⟩
  · simp only [Argument.head, Argument.info, Width.info, Width.size, bigEndian, hnumber]
    rw [← code_ofInitialByte]
  · simp only [Argument.info, Width.info, hnumber]

/-- A head whose argument stands in the bytes behind the first. -/
theorem head_of_digits {initial : UInt8} {width : Width} {digits : Bytes}
    (hwidth : Width.ofInfo? (initial.toNat % 32) = some width) (hinitial : width ≠ .initial)
    (hdigits : digits.length = width.size) :
    ∃ argument : Argument, initial :: digits = argument.head (Major.ofInitialByte initial) ∧
      argument.info = initial.toNat % 32 ∧ argument.width = width ∧
      argument.number = UInt64.ofNat (ofBigEndian digits) := by
  have hlt := ofBigEndian_lt_bound hinitial hdigits
  have hnumber : (UInt64.ofNat (ofBigEndian digits)).toNat = ofBigEndian digits := by
    rw [UInt64.toNat_ofNat', Nat.mod_eq_of_lt]
    cases width <;> simp_all [Width.bound] <;> omega
  have hinfo (number : Nat) : width.info number = initial.toNat % 32 := by
    rw [Width.info_of_ofInfo? hwidth, if_neg hinitial]
  refine ⟨⟨width, UInt64.ofNat (ofBigEndian digits), by rwa [hnumber]⟩, ?_, hinfo _, rfl, rfl⟩
  simp only [Argument.head, Argument.info, hinfo, hnumber]
  rw [← code_ofInitialByte, ← hdigits, bigEndian_ofBigEndian]

/-- What was read as a head is the head of an argument, or the byte of an indefinite length. -/
theorem Head.cases_of_read {bytes : Bytes} {head : Head} (hread : Head.read bytes = .ok head) :
    (∃ (argument : Argument) (rest : Bytes), bytes = argument.head head.major ++ rest ∧
      head = argument.read head.major) ∨
    (∃ rest : Bytes, bytes = indefiniteHead head.major :: rest ∧
      ¬head.major.IsAlwaysDefinite ∧ head = indefiniteRead head.major) := by
  cases bytes with
  | nil => simp [Head.read] at hread
  | cons initial rest =>
    rw [Head.read] at hread
    simp only [widthOfInfo?_eq_map] at hread
    cases hwidth : Width.ofInfo? (initial.toNat % 32) with
    | some width =>
      left
      simp only [hwidth, Option.map_some] at hread
      by_cases hsize : width = .initial
      · have hinfo := (Width.eq_initial_of_ofInfo? hwidth).1 hsize
        obtain ⟨argument, hhead, hargument, hwidth⟩ := head_of_initial hinfo
        simp only [hsize, Width.size, if_true, Except.ok.injEq] at hread
        subst hread
        refine ⟨argument, rest, by rw [← hhead]; rfl, ?_⟩
        have hnumber : argument.number = UInt64.ofNat (initial.toNat % 32) := by
          rw [← hargument, Argument.info, hwidth, Width.info, UInt64.ofNat_toNat]
        simp [Argument.read, hargument, hwidth, hnumber, Width.size]
      · have hpositive : width.size ≠ 0 := by
          cases width <;> simp_all [Width.size]
        rw [if_neg hpositive] at hread
        split at hread
        next hdigits =>
          obtain ⟨argument, hhead, hargument, hargumentWidth, hnumber⟩ :=
            head_of_digits hwidth hsize hdigits
          cases hread
          refine ⟨argument, rest.drop width.size, ?_, ?_⟩
          · rw [← hhead, List.cons_append, List.take_append_drop]
          · simp [Argument.read, hargument, hargumentWidth, hnumber, Nat.add_comm]
        next => simp at hread
    | none =>
      right
      simp only [hwidth, Option.map_none] at hread
      split at hread
      next hinfo =>
        have hdefinite : ¬(Major.ofInitialByte initial).IsAlwaysDefinite := by
          rintro (hmajor | hmajor | hmajor) <;> simp [hmajor] at hread
        have hhead : head = indefiniteRead (Major.ofInitialByte initial) := by
          rw [indefiniteRead, ← hinfo]
          split at hread
          · simp at hread
          · simp at hread
          · simp at hread
          · exact (Except.ok.inj hread).symm
        have hinitial : initial = indefiniteHead (Major.ofInitialByte initial) := by
          rw [indefiniteHead, ← hinfo]
          exact code_ofInitialByte initial
        subst hhead
        exact ⟨rest, congrArg (· :: rest) hinitial, hdefinite, rfl⟩
      next => simp at hread

end Cose.Cbor
