import Cose.Proofs.Cbor.Decoder.Settling
import Cose.Proofs.Cbor.Encoder.Success
import Cose.Proofs.Cbor.Uniqueness
import Cose.Proofs.Header.Spelling

/-!
# Heads are read back, and the encoder's are the shortest

Every head that the encoder writes, with a forced width or without, is the head of an argument
(`Argument.exists_encodeHead`), and so is every head of definite length that is read. A number in a
given width is never shorter than in its narrowest one, and as long only in that one
(`Argument.size_narrowest_le`, `Argument.eq_shortest`), so among the byte strings that start with
the head of a number the encoder's is the shortest, and the only one of its length.

Signed integers are heads without anything behind them, of one of two major types, so they are read
back with their sign wherever a session has room for them (`Encoder.finish_appendInt`).
-/

set_option autoImplicit false
set_option relaxedAutoImplicit false

namespace Cose.Cbor

/-! ### Heads of forced width -/

/-- The encoder writes the head of an argument in a width that is as wide as asked for. -/
theorem Argument.exists_encodeHead (major : Major) (number : UInt64) (minWidth : Nat) :
    ∃ argument : Argument, argument.number = number ∧
      encodeHead major number minWidth = argument.head major := by
  have hwidth : ∃ width : Width, number.toNat < width.bound ∧
      argumentWidth number minWidth = width.size := by
    unfold argumentWidth
    split_ifs with hinitial hone htwo hfour
    · exact ⟨.initial, hinitial.2, rfl⟩
    · exact ⟨.one, hone.2, rfl⟩
    · exact ⟨.two, htwo.2, rfl⟩
    · exact ⟨.four, hfour.2, rfl⟩
    · exact ⟨.eight, number.toNat_lt, rfl⟩
  obtain ⟨width, hbound, hsize⟩ := hwidth
  let argument : Argument := ⟨width, number, hbound⟩
  exact ⟨argument, rfl, encodeHead_eq_head major argument minWidth hsize⟩

/-- Whatever is behind it, a head is read back with its length, whether a width was forced or
not. -/
theorem read_encodeHead (major : Major) (number : UInt64) (minWidth : Nat) (suffix : Bytes) :
    ∃ head, Head.read (encodeHead major number minWidth ++ suffix) = .ok head ∧
      head.major = major ∧ head.argument = number ∧ head.isIndefinite = false ∧
      head.length = (encodeHead major number minWidth).length := by
  obtain ⟨argument, hnumber, hhead⟩ := Argument.exists_encodeHead major number minWidth
  rw [hhead, Argument.length_head]
  exact ⟨_, argument.read_head major suffix, rfl, hnumber, rfl, rfl⟩

/-! ### Shortest heads -/

/-- Whether a byte string starts with a head of definite length, of a major type with a number. -/
def StartsWithHead (major : Major) (number : UInt64) (bytes : Bytes) : Prop :=
  ∃ head, Head.read bytes = .ok head ∧ head.major = major ∧ head.argument = number ∧
    head.isIndefinite = false

/-- What starts with a head of definite length starts with the head of an argument. -/
theorem StartsWithHead.exists_argument {major : Major} {number : UInt64} {bytes : Bytes}
    (hstarts : StartsWithHead major number bytes) :
    ∃ (argument : Argument) (rest : Bytes), argument.number = number ∧
      bytes = argument.head major ++ rest := by
  obtain ⟨head, hread, hmajor, hnumber, hdefinite⟩ := hstarts
  rcases Head.cases_of_read hread with ⟨argument, rest, hbytes, hhead⟩ | ⟨rest, _, _, hhead⟩
  · rw [hhead] at hnumber
    rw [hmajor] at hbytes
    exact ⟨argument, rest, hnumber, hbytes⟩
  · rw [hhead] at hdefinite
    cases hdefinite

/-- No width that holds a number is narrower than its narrowest one. -/
theorem Argument.size_narrowest_le (argument : Argument) :
    (narrowest argument.number).size ≤ argument.width.size := by
  obtain ⟨width, number, hbound⟩ := argument
  cases width <;> simp only [Width.bound] at hbound <;> unfold narrowest <;> split_ifs <;>
    simp only [Width.size] <;> omega

/-- What starts with the head of a number is no shorter than the encoder's head, and as long only if
it is that. -/
theorem StartsWithHead.length_le {major : Major} {number : UInt64} {bytes : Bytes}
    (hstarts : StartsWithHead major number bytes) :
    (encodeHead major number 0).length ≤ bytes.length ∧
      (bytes.length = (encodeHead major number 0).length → bytes = encodeHead major number 0) := by
  obtain ⟨argument, rest, rfl, rfl⟩ := hstarts.exists_argument
  have hnarrow := argument.size_narrowest_le
  have hshortest : (encodeHead major argument.number 0).length =
      (Argument.narrowest argument.number).size + 1 := by
    rw [Argument.encodeHead_zero, Argument.length_head]
    rfl
  rw [hshortest, List.length_append, Argument.length_head]
  refine ⟨by omega, fun hlength ↦ ?_⟩
  have hrest : rest = [] := List.length_eq_zero_iff.1 (by omega)
  have hwidth : argument.width = Argument.narrowest argument.number :=
    Width.size_injective (by omega)
  rw [hrest, List.append_nil, Argument.encodeHead_zero, ← Argument.eq_shortest hwidth]

/-! ### Signed integers -/

/-- Whether a byte string is one item without tags that is a signed integer. -/
def ReadsInt64 (number : Int64) (bytes : Bytes) : Prop :=
  ∃ item after last, Decoder.next (.ofBytes bytes) = .ok item after ∧
    item.toInt64 = .ok number ∧ item.tags = [] ∧ Decoder.finish after = .ok () last

/-- The leaf of a number alone is read as the number. -/
theorem readsInt64_intLeaf (number : Int64) :
    ReadsInt64 number (Node.leaf (intLeaf number)).encoded := by
  let start : Decoder := .ofBytes (Node.leaf (intLeaf number)).encoded
  have hrest : start.rest = (Node.leaf (intLeaf number)).encoded ++ [] :=
    (List.append_nil _).symm
  have hnext := Decoder.next_of_node (.refl start) (Decoder.ready_top _ 0)
    (Node.wellFormed_leaf start.depth (intLeaf number)) hrest
  obtain ⟨last, hlast⟩ :=
    Decoder.finish_of_reaches (Decoder.reaches_inside_leaf start [] (intLeaf number) [])
  exact ⟨_, _, last, hnext, toInt64_of_intLeaf rfl, rfl, hlast⟩

namespace Encoder

/-- An integer is appended as one head, of a major type that tells its sign. -/
theorem exists_head_int (rules : Rules) (number : Int64) :
    ∃ major n, (∀ encoder : Encoder, encoder.appendInt number = encoder.appendHead major n 0) ∧
      (Scalar.int number).encoded rules = encodeHead major n 0 := by
  cases hnumber : number.toInt with
  | ofNat n =>
    refine ⟨.unsigned, UInt64.ofNat n, fun encoder ↦ ?_, ?_⟩
    · simp only [appendInt, hnumber]
      rfl
    · rw [Argument.encodeHead_zero]
      simp only [Scalar.encoded, hnumber]
      rfl
  | negSucc n =>
    refine ⟨.negative, UInt64.ofNat n, fun encoder ↦ ?_, ?_⟩
    · simp only [appendInt, hnumber]
      rfl
    · rw [Argument.encodeHead_zero]
      simp only [Scalar.encoded, hnumber]
      rfl

theorem length_int_le (rules : Rules) (number : Int64) :
    ((Scalar.int number).encoded rules).length ≤ 9 := by
  obtain ⟨major, n, _, hencoded⟩ := exists_head_int rules number
  rw [hencoded, Argument.encodeHead_zero, Argument.length_head]
  cases (Argument.shortest n).width <;> decide

/-- In a new session that has room for it an integer is written at once. -/
theorem appendInt_ofOutput {output : Output} {rules : Rules} {number : Int64}
    (hfits : output.refusal? ((Scalar.int number).encoded rules).length = none) :
    (ofOutput output rules).appendInt number =
      ofOutput (output.push ((Scalar.int number).encoded rules)) rules := by
  obtain ⟨major, n, happend, hencoded⟩ := exists_head_int rules number
  rw [hencoded] at hfits
  rw [happend, hencoded]
  change (ofOutput output rules).write (encodeHead major n 0) = _
  rw [write_of_fits rfl hfits]
  rfl

/-- A new session over a region finishes with the head of the integer, if that fits in the region. A
growing region has room for it, and a session that only computes a length computes that of the
head. -/
theorem finish_appendInt (rules : Rules) (number : Int64) :
    let bytes := (Scalar.int number).encoded rules
    ((growable rules).appendInt number).finish = .ok bytes ∧
      (∀ capacity, bytes.length ≤ capacity →
        ((fixed capacity rules).appendInt number).finish = .ok bytes) ∧
      ((sizeOnly rules).appendInt number).finishSize = .ok bytes.length := by
  intro bytes
  have hlength : bytes.length ≤ 9 := length_int_le rules number
  have hshort : ¬0 + bytes.length > maxEncodedLength := by
    have hlimit : 9 ≤ maxEncodedLength := by decide
    omega
  refine ⟨?_, fun capacity hcapacity ↦ ?_, ?_⟩
  · have hfits : (Output.growable #[] []).refusal? bytes.length = none := by
      rw [Output.refusal?]
      exact if_neg hshort
    rw [growable, appendInt_ofOutput hfits]
    simp [finish, ofOutput, incompleteness?, depth, Output.push, Output.storage, bytes]
  · have hfits : (Output.fixed #[] (List.replicate capacity 0)).refusal? bytes.length = none := by
      have hroom : reaches bytes.length (List.replicate capacity (0 : UInt8)) = true := by
        rw [reaches_eq_true_iff, List.length_replicate]
        exact hcapacity
      rw [Output.refusal?, if_neg (by exact hshort)]
      simp only [hroom, if_true]
    rw [fixed, appendInt_ofOutput hfits]
    simp [finish, ofOutput, incompleteness?, depth, Output.push, Output.contents, bytes]
  · have hfits : (Output.sizeOnly 0).refusal? bytes.length = none := by
      rw [Output.refusal?]
      exact if_neg hshort
    rw [sizeOnly, appendInt_ofOutput hfits]
    simp [finishSize, ofOutput, incompleteness?, depth, length, Output.push, Output.length, bytes]

end Encoder

/-! ### Heads and integers together -/

/-- Heads are read back, and the encoder's are the shortest. In front of any bytes a head is read
back with its major type, its number and its length, whatever width was asked for. Without a forced
width no shorter byte string starts with a head of the same major type and number, and none of the
same length but the head itself. So a signed integer that is appended to a new session is read back
from the bytes, which are nothing else than that one item. -/
theorem heads_exact :
    (∀ (major : Major) (number : UInt64) (minWidth : Nat) (suffix : Bytes), ∃ head,
      Head.read (encodeHead major number minWidth ++ suffix) = .ok head ∧ head.major = major ∧
        head.argument = number ∧ head.isIndefinite = false ∧
        head.length = (encodeHead major number minWidth).length) ∧
    (∀ {major : Major} {number : UInt64} {bytes : Bytes}, StartsWithHead major number bytes →
      (encodeHead major number 0).length ≤ bytes.length ∧
        (bytes.length = (encodeHead major number 0).length →
          bytes = encodeHead major number 0)) ∧
    ∀ (rules : Rules) (number : Int64),
      let bytes := (Scalar.int number).encoded rules
      ReadsInt64 number bytes ∧
        ((Encoder.growable rules).appendInt number).finish = .ok bytes ∧
        (∀ capacity, bytes.length ≤ capacity →
          ((Encoder.fixed capacity rules).appendInt number).finish = .ok bytes) ∧
        ((Encoder.sizeOnly rules).appendInt number).finishSize = .ok bytes.length := by
  refine ⟨read_encodeHead, StartsWithHead.length_le, fun rules number ↦ ?_⟩
  have hreads := readsInt64_intLeaf number
  rw [encoded_intLeaf rules] at hreads
  exact ⟨hreads, Encoder.finish_appendInt rules number⟩

/-- A number below 24 in a byte of its own is longer than the encoder's head, and the least integer
of 64 bits fits in a region of nine bytes. -/
theorem heads_exact_wide :
    let least : Bytes := [0x3b, 0x7f, 0xff, 0xff, 0xff, 0xff, 0xff, 0xff, 0xff]
    StartsWithHead .negative 5 [0x38, 0x05] ∧
      (encodeHead .negative 5 0).length ≤ [0x38, 0x05].length ∧ ReadsInt64 Int64.minValue least ∧
      ((Encoder.fixed 9 .dcbor).appendInt Int64.minValue).finish = .ok least := by
  intro least
  obtain ⟨_, hshortest, hintegers⟩ := heads_exact
  have hstarts : StartsWithHead .negative 5 [0x38, 0x05] := ⟨_, rfl, rfl, rfl, rfl⟩
  have hleast : (Scalar.int Int64.minValue).encoded .dcbor = least := by decide
  obtain ⟨hreads, _, hfixed, _⟩ := hintegers .dcbor Int64.minValue
  rw [hleast] at hreads hfixed
  exact ⟨hstarts, (hshortest hstarts).1, hreads, hfixed 9 (by decide)⟩

end Cose.Cbor
