import Cose.Proofs.Bytes
import Cose.Proofs.Magnitude

/-!
# The numbers before and after a magnitude

A number has one big-endian form without leading zeros (`Magnitude.IsForm.unique`), so a magnitude
that counts up or down is told by its number alone. A carry runs from the last byte upwards like a
borrow, and what the bytes and the carry stand for together is one more at every byte
(`Magnitude.ofBigEndian_carryOne`).

The difference is written into storage of its own length, which may be a byte shorter than the
magnitude. `Magnitude.decrementInto?` walks down the magnitude and looks at every position that it
reads or writes; whatever the storage held before, it then holds the last bytes of the difference
(`Magnitude.decrementInto?_eq`), and nothing is written outside of it.

`Magnitude.neighbours_exact` is what the arithmetic comes to.
-/

set_option autoImplicit false
set_option relaxedAutoImplicit false

namespace Cose.Magnitude

/-! ### Forms of numbers -/

/-- Whether a magnitude is the form of a number without leading zeros. -/
structure IsForm (number : Nat) (magnitude : Bytes) : Prop where
  ofBigEndian_eq : ofBigEndian magnitude = number
  isStripped : IsStripped magnitude

instance (number : Nat) (magnitude : Bytes) : Decidable (IsForm number magnitude) :=
  decidable_of_iff (ofBigEndian magnitude = number ∧ magnitude.head? ≠ some 0)
    ⟨fun hform ↦ ⟨hform.1, hform.2⟩, fun hform ↦ ⟨hform.1, hform.2⟩⟩

/-- A number has one form. -/
theorem IsForm.unique {number : Nat} {first second : Bytes} (hfirst : IsForm number first)
    (hsecond : IsForm number second) : first = second := by
  have hnumber : ofBigEndian first = ofBigEndian second :=
    hfirst.ofBigEndian_eq.trans hsecond.ofBigEndian_eq.symm
  have hshorter : first.length ≤ second.length :=
    (length_le_iff hfirst.isStripped second.length).2 (hnumber ▸ ofBigEndian_lt second)
  have hlonger : second.length ≤ first.length :=
    (length_le_iff hsecond.isStripped first.length).2 (hnumber ▸ ofBigEndian_lt first)
  rw [← bigEndian_ofBigEndian first, ← bigEndian_ofBigEndian second, hnumber,
    Nat.le_antisymm hshorter hlonger]

/-! ### Adding one -/

theorem carryOne_cons (byte : UInt8) (rest : Bytes) :
    carryOne (byte :: rest) =
      if (carryOne rest).2 then ((byte + 1) :: (carryOne rest).1, byte == 255)
      else (byte :: (carryOne rest).1, false) := rfl

@[simp]
theorem length_carryOne (bytes : Bytes) : (carryOne bytes).1.length = bytes.length := by
  induction bytes with
  | nil => rfl
  | cons byte rest ih =>
    rw [carryOne_cons]
    split <;> simp [ih]

/-- The carry that leaves the first byte weighs as much as a byte in front of it, and with it the
sum is one more. -/
theorem ofBigEndian_carryOne (bytes : Bytes) :
    (ofBigEndian (carryOne bytes).1 + if (carryOne bytes).2 then 256 ^ bytes.length else 0) =
      ofBigEndian bytes + 1 := by
  induction bytes with
  | nil => rfl
  | cons byte rest ih =>
    rw [carryOne_cons, ofBigEndian_cons]
    by_cases hcarry : (carryOne rest).2 = true
    · simp only [hcarry, if_true] at ih ⊢
      rw [ofBigEndian_cons, length_carryOne]
      by_cases hfull : byte = 255
      · subst hfull
        have hwrapped : (255 + 1 : UInt8).toNat = 0 := rfl
        have hlargest : (255 : UInt8).toNat = 255 := rfl
        simp only [BEq.rfl, if_true, List.length_cons, Nat.pow_succ, hwrapped, hlargest]
        omega
      · have hsmaller : byte.toNat < 255 := by
          have hbyte := byte.toNat_lt
          have hother : byte.toNat ≠ 255 := fun hlargest ↦ hfull (UInt8.toNat_inj.1 hlargest)
          omega
        have hmore : (byte + 1).toNat = byte.toNat + 1 := by
          rw [UInt8.toNat_add, Nat.mod_eq_of_lt]
          · rfl
          · exact Nat.succ_lt_succ hsmaller
        simp only [beq_iff_eq, hfull, if_false, hmore, Nat.add_mul]
        omega
    · simp only [hcarry, if_false, Bool.false_eq_true] at ih ⊢
      rw [ofBigEndian_cons, length_carryOne]
      omega

/-- Adding one gives the form of the number behind, whatever zeros are in front. -/
theorem isForm_increment (magnitude : Bytes) :
    IsForm (ofBigEndian magnitude + 1) (increment magnitude) := by
  have hsum := ofBigEndian_carryOne (strip magnitude)
  have hlength := length_carryOne (strip magnitude)
  rw [ofBigEndian_strip] at hsum
  by_cases hcarry : (carryOne (strip magnitude)).2 = true
  · have hincrement : increment magnitude = 1 :: (carryOne (strip magnitude)).1 := by
      simp only [increment, hcarry, if_true]
    rw [if_pos hcarry] at hsum
    rw [hincrement]
    refine ⟨?_, by simp [IsStripped]⟩
    have hone : (1 : UInt8).toNat = 1 := rfl
    rw [ofBigEndian_cons, hlength, hone, Nat.one_mul, Nat.add_comm]
    exact hsum
  · have hincrement : increment magnitude = (carryOne (strip magnitude)).1 := by
      simp only [increment, hcarry, if_false, Bool.false_eq_true]
    rw [if_neg hcarry, Nat.add_zero] at hsum
    rw [hincrement]
    refine ⟨hsum, ?_⟩
    -- The sum is as long as the magnitude and larger, so it needs all of its bytes as well.
    cases hstripped : strip magnitude with
    | nil => exact absurd (by rw [hstripped]; rfl) hcarry
    | cons first rest =>
      have hleast := (isStripped_cons_iff first rest).1 (hstripped ▸ isStripped_strip magnitude)
      rw [← hstripped, ofBigEndian_strip] at hleast
      rw [hstripped] at hsum hlength
      obtain ⟨head, tail, hsplit⟩ :=
        List.exists_cons_of_length_eq_add_one (hlength.trans List.length_cons)
      rw [hsplit] at hsum hlength ⊢
      rw [isStripped_cons_iff, Nat.succ.inj hlength, hsum]
      omega

example : IsForm 256 (increment [0, 255]) := by decide

/-! ### Subtracting one into storage -/

/-- Walk down the positions of a magnitude below a given one, with the borrow so far, and write each
byte of the difference into storage, where the first positions of the magnitude have no place. No
position outside of the magnitude or of the storage may be looked at. -/
def borrowDown? (magnitude : Bytes) (dropped : Nat) :
    (position : Nat) → (borrow : Bool) → (storage : Bytes) → Option Bytes
  | 0, _, storage => some storage
  | position + 1, borrow, storage =>
    match magnitude[position]? with
    | none => none
    | some byte =>
      let digit := if borrow then byte - 1 else byte
      let borrow := borrow && byte == 0
      if position < dropped then borrowDown? magnitude dropped position borrow storage
      else if position - dropped < storage.length then
        borrowDown? magnitude dropped position borrow (storage.set (position - dropped) digit)
      else none

/-- Write a magnitude less one into storage that is no longer than the magnitude. -/
def decrementInto? (magnitude storage : Bytes) : Option Bytes :=
  if storage.length ≤ magnitude.length then
    borrowDown? magnitude (magnitude.length - storage.length) magnitude.length true storage
  else none

theorem drop_borrowOne (bytes : Bytes) (position : Nat) :
    (borrowOne bytes).1.drop position = (borrowOne (bytes.drop position)).1 := by
  induction bytes generalizing position with
  | nil => simp [borrowOne]
  | cons byte rest ih =>
    cases position with
    | zero => rfl
    | succ position =>
      rw [List.drop_succ_cons, ← ih position, borrowOne_cons]
      split <;> rfl

/-- The difference from a position on: the digit that stands there, and the difference behind it. -/
theorem borrowOne_drop {magnitude : Bytes} {position : Nat} {byte : UInt8}
    (hbyte : magnitude[position]? = some byte) :
    borrowOne (magnitude.drop position) =
      ((if (borrowOne (magnitude.drop (position + 1))).2 then byte - 1 else byte) ::
        (borrowOne (magnitude.drop (position + 1))).1,
        (borrowOne (magnitude.drop (position + 1))).2 && byte == 0) := by
  obtain ⟨hlt, rfl⟩ := List.getElem?_eq_some_iff.1 hbyte
  rw [List.drop_eq_getElem_cons hlt, borrowOne_cons]
  cases (borrowOne (magnitude.drop (position + 1))).2 <;> rfl

/-- What the storage holds behind a position is the difference; walking on down completes it. -/
theorem borrowDown?_eq {magnitude storage : Bytes} {dropped position : Nat}
    (hposition : position ≤ magnitude.length)
    (hlength : storage.length + dropped = magnitude.length)
    (hstorage : storage.drop (position - dropped) =
      ((borrowOne magnitude).1.drop dropped).drop (position - dropped)) :
    borrowDown? magnitude dropped position (borrowOne (magnitude.drop position)).2 storage =
      some ((borrowOne magnitude).1.drop dropped) := by
  induction position generalizing storage with
  | zero =>
    rw [Nat.zero_sub, List.drop_zero, List.drop_zero] at hstorage
    rw [borrowDown?, hstorage]
  | succ position ih =>
    have hbyte : magnitude[position]? = some magnitude[position] :=
      List.getElem?_eq_getElem hposition
    have hbehind := borrowOne_drop hbyte
    have hborrow := congrArg Prod.snd hbehind
    have hdigits := congrArg Prod.fst hbehind
    rw [← drop_borrowOne, ← drop_borrowOne] at hdigits
    have hcontinue {next : Bytes} (hnext : next.length + dropped = magnitude.length)
        (hholds : next.drop (position - dropped) =
          ((borrowOne magnitude).1.drop dropped).drop (position - dropped)) :
        borrowDown? magnitude dropped position (borrowOne (magnitude.drop position)).2 next =
          some ((borrowOne magnitude).1.drop dropped) :=
      ih (Nat.le_of_succ_le hposition) hnext hholds
    rw [hborrow] at hcontinue
    simp only [borrowDown?, hbyte]
    by_cases hfront : position < dropped
    · rw [if_pos hfront]
      refine hcontinue hlength ?_
      have hsame : position - dropped = position + 1 - dropped := by omega
      rw [hsame]
      exact hstorage
    · have hplace : position - dropped < storage.length := by omega
      rw [if_neg hfront, if_pos hplace]
      refine hcontinue (by rwa [List.length_set]) ?_
      have hback : dropped + (position - dropped) = position := by omega
      have hnext : position + 1 - dropped = position - dropped + 1 := by omega
      rw [List.drop_drop, hback, hdigits]
      rw [hnext, List.drop_drop, ← Nat.add_assoc, hback] at hstorage
      rw [← hstorage, List.drop_set, if_neg (Nat.lt_irrefl _), Nat.sub_self,
        List.drop_eq_getElem_cons hplace, List.set_cons_zero]

/-- Whatever the storage holds before, it holds the last bytes of the difference then. -/
theorem decrementInto?_eq {magnitude storage : Bytes}
    (hlength : storage.length ≤ magnitude.length) :
    decrementInto? magnitude storage =
      some ((borrowOne magnitude).1.drop (magnitude.length - storage.length)) := by
  have hborrow : (borrowOne (magnitude.drop magnitude.length)).2 = true := by
    rw [List.drop_length]
    rfl
  rw [decrementInto?, if_pos hlength, ← hborrow]
  refine borrowDown?_eq (Nat.le_refl _) (by omega) ?_
  rw [Nat.sub_sub_self hlength, List.drop_length, List.drop_drop, List.drop_eq_nil_of_le]
  rw [length_borrowOne]
  omega

theorem decrementedLength_le (magnitude : Bytes) :
    decrementedLength magnitude ≤ magnitude.length := by
  cases magnitude with
  | nil => exact Nat.le_refl _
  | cons first rest =>
    rw [decrementedLength, List.length_cons]
    split
    · exact Nat.le_succ _
    · exact Nat.le_refl _

@[simp]
theorem length_decrement (magnitude : Bytes) :
    (decrement magnitude).length = decrementedLength magnitude := by
  rw [decrement, List.length_drop, length_borrowOne, Nat.sub_sub_self]
  exact decrementedLength_le magnitude

/-- Storage of the length of the difference takes all of it. -/
theorem decrementInto?_eq_decrement {magnitude storage : Bytes}
    (hlength : storage.length = decrementedLength magnitude) :
    decrementInto? magnitude storage = some (decrement magnitude) := by
  rw [decrementInto?_eq (hlength ▸ decrementedLength_le magnitude), hlength]
  rfl

/-- Subtracting one gives the form of the number in front. -/
theorem isForm_decrement {magnitude : Bytes} (hstripped : IsStripped magnitude)
    (hpositive : magnitude ≠ []) : IsForm (ofBigEndian magnitude - 1) (decrement magnitude) := by
  obtain ⟨hvalue, hform⟩ := ofBigEndian_decrement hstripped hpositive
  refine ⟨?_, hform⟩
  rw [← hvalue, Nat.add_sub_cancel]

/-- Adding one undoes subtracting one. -/
theorem increment_decrement {magnitude : Bytes} (hstripped : IsStripped magnitude)
    (hpositive : magnitude ≠ []) : increment (decrement magnitude) = magnitude := by
  obtain ⟨hvalue, _⟩ := ofBigEndian_decrement hstripped hpositive
  have hforward := isForm_increment (decrement magnitude)
  rw [hvalue] at hforward
  exact hforward.unique ⟨rfl, hstripped⟩

/-! ### Words -/

/-- Zeros in front of a magnitude do not count for its word. -/
theorem toUInt64?_replicate_append (zeros : Nat) (magnitude : Bytes) :
    toUInt64? (List.replicate zeros 0 ++ magnitude) = toUInt64? magnitude := by
  have hsame : strip (List.replicate zeros 0 ++ magnitude) = strip magnitude := by
    induction zeros with
    | zero => rfl
    | succ zeros ih =>
      rw [List.replicate_succ, List.cons_append]
      exact ih
  rw [toUInt64?, hsame]
  rfl

/-- A magnitude has a word if and only if its number fits in one. -/
theorem isSome_toUInt64?_iff (magnitude : Bytes) :
    (toUInt64? magnitude).isSome = true ↔ ofBigEndian magnitude < 2 ^ 64 := by
  rw [Option.isSome_iff_exists]
  constructor
  · intro hword
    obtain ⟨word, hword⟩ := hword
    rw [(toUInt64?_eq_some_iff magnitude word).1 hword]
    exact word.toNat_lt
  · intro hlt
    exact ⟨_, (toUInt64?_eq_some_iff magnitude _).2 (UInt64.toNat_ofNat_of_lt' hlt).symm⟩

/-! ### Magnitudes of any length -/

/-- Arithmetic on magnitudes is exact, however long they are. Subtracting one from a magnitude that
has no leading zero and is not zero fills storage of the foretold length, whatever that held before,
with the form of the number in front; that is nothing for the number one, and adding one gives the
magnitude back. Adding one gives the form of the number behind. A magnitude has a word, its number,
exactly if that fits in 64 bits, and zeros in front do not count. -/
theorem neighbours_exact :
    (∀ {magnitude : Bytes}, magnitude ≠ [] → IsStripped magnitude →
      (decrement magnitude).length = decrementedLength magnitude ∧
      (∀ {storage : Bytes}, storage.length = decrementedLength magnitude →
        decrementInto? magnitude storage = some (decrement magnitude)) ∧
      IsForm (ofBigEndian magnitude - 1) (decrement magnitude) ∧
      (ofBigEndian magnitude = 1 → decrement magnitude = []) ∧
      increment (decrement magnitude) = magnitude) ∧
    (∀ number : Bytes, IsForm (ofBigEndian number + 1) (increment number)) ∧
    ∀ number : Bytes,
      (∀ word : UInt64, toUInt64? number = some word ↔ ofBigEndian number = word.toNat) ∧
      ((toUInt64? number).isSome = true ↔ ofBigEndian number < 2 ^ 64) ∧
      ∀ zeros : Nat, toUInt64? (List.replicate zeros 0 ++ number) = toUInt64? number := by
  refine ⟨fun {magnitude} hpositive hstripped ↦ ?_, isForm_increment, fun number ↦ ?_⟩
  · have hform := isForm_decrement hstripped hpositive
    refine ⟨length_decrement magnitude, decrementInto?_eq_decrement, hform, fun hone ↦ ?_,
      increment_decrement hstripped hpositive⟩
    rw [hone] at hform
    exact (ofBigEndian_eq_zero_iff hform.isStripped).1 hform.ofBigEndian_eq
  · exact ⟨toUInt64?_eq_some_iff number, isSome_toUInt64?_iff number,
      fun zeros ↦ toUInt64?_replicate_append zeros number⟩

/-- The least number of three bytes: the storage is a byte shorter, and the carry brings the byte
back. -/
theorem neighbours_exact_shorter :
    decrementInto? [1, 0, 0] [7, 7] = some (decrement [1, 0, 0]) ∧
      IsForm 65535 (decrement [1, 0, 0]) ∧ increment (decrement [1, 0, 0]) = [1, 0, 0] := by
  have hstripped : IsStripped [1, 0, 0] := by simp [IsStripped]
  obtain ⟨_, hstorage, hform, _, hback⟩ := neighbours_exact.1 (List.cons_ne_nil 1 [0, 0]) hstripped
  exact ⟨hstorage rfl, hform, hback⟩

end Cose.Magnitude
