import Mathlib.Tactic.Common
import Cose.Cbor.Decoder.Basic

/-!
# Text strings and their bytes

A text string is written as its UTF-8 bytes, and a byte string is taken for a text when it is
valid UTF-8. `Decoder.text?_eq_some_iff` says that the two are inverse to each other, so nothing
that is read as text is changed when it is written again.
-/

set_option autoImplicit false
set_option relaxedAutoImplicit false

namespace Cose.Cbor

/-- Walking a byte array from a position lists what was collected and then the bytes ahead. -/
theorem toList_loop (bytes : ByteArray) (position : Nat) (collected : Bytes) :
    ByteArray.toList.loop bytes position collected =
      collected.reverse ++ bytes.data.toList.drop position := by
  fun_induction ByteArray.toList.loop bytes position collected with
  | case1 position collected hposition ih =>
    have hlt : position < bytes.data.toList.length := hposition
    have hget : bytes.get! position = bytes.data.toList[position] := by
      change bytes.data[position]! = _
      simp [getElem!_pos bytes.data position hposition]
    rw [ih, List.drop_eq_getElem_cons hlt, hget]
    simp
  | case2 position collected hposition =>
    have hle : bytes.data.toList.length ≤ position := Nat.le_of_not_lt hposition
    simp [List.drop_eq_nil_of_le hle]

@[simp]
theorem toList_eq_toList_data (bytes : ByteArray) : bytes.toList = bytes.data.toList := by
  rw [ByteArray.toList, toList_loop]
  rfl

@[simp]
theorem length_toUTF8 (content : String) :
    content.toUTF8.toList.length = content.utf8ByteSize := by
  rw [toList_eq_toList_data]
  rfl

/-- A byte string is taken for a text exactly if it is what the text is written as. -/
theorem Decoder.text?_eq_some_iff {bytes : Bytes} {content : String} :
    Decoder.text? bytes = some content ↔ bytes = content.toUTF8.toList := by
  rw [toList_eq_toList_data, Decoder.text?, String.fromUTF8?]
  constructor
  · intro htext
    split_ifs at htext with hvalid
    rw [← Option.some.inj htext]
    rfl
  · rintro rfl
    have hvalid : ByteArray.IsValidUTF8 ⟨content.toUTF8.data.toList.toArray⟩ := by
      simpa using content.isValidUTF8
    rw [dif_pos hvalid, Option.some.injEq, ← String.toByteArray_inj]
    change (⟨content.toUTF8.data.toList.toArray⟩ : ByteArray) = content.toUTF8
    simp

end Cose.Cbor
