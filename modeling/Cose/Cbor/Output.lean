import Cose.Bytes
import Cose.Cbor.Basic
import Cose.Cbor.Error

/-!
# Outputs of encoding sessions

An output is a region of fixed capacity, a region that grows, or a mere count of bytes. The two
regions consist of the bytes written so far and of the bytes that the storage holds beyond them:
the free part of a fixed region, and in a growable one what was reserved for a caller to fill.
`Output.storage` is the two together and `Output.contents` the first alone.

`Output.refusal?` decides whether more bytes fit; the operations that add bytes are used after it
agreed. Each operation is described by what it does to the contents (`contents_push`,
`contents_insert`).
-/

set_option autoImplicit false
set_option relaxedAutoImplicit false

namespace Cose.Cbor

/-- Where the bytes of a session go. -/
inductive Output where
  /-- Only the number of bytes is kept. -/
  | sizeOnly (count : Nat)
  /-- A region of fixed capacity: the bytes written and the rest of the region. -/
  | fixed (written : Array UInt8) (beyond : Bytes)
  /-- A growing region: the bytes written and the bytes held beyond them. -/
  | growable (written : Array UInt8) (beyond : Bytes)
deriving Repr

namespace Output

/-- The number of bytes written. -/
def length : Output → Nat
  | sizeOnly count => count
  | fixed written _ => written.size
  | growable written _ => written.size

/-- Whether only the number of bytes is kept. -/
def isSizeOnly : Output → Bool
  | sizeOnly _ => true
  | fixed _ _ => false
  | growable _ _ => false

/-- The bytes written, nothing if only their number is kept. -/
def contents : Output → Bytes
  | sizeOnly _ => []
  | fixed written _ => written.toList
  | growable written _ => written.toList

/-- All bytes of the storage, the written ones first. -/
def storage : Output → Bytes
  | sizeOnly _ => []
  | fixed written beyond => written.toList ++ beyond
  | growable written beyond => written.toList ++ beyond

/-- Why a number of further bytes cannot be written, if they cannot. The limit on the length of an
encoding is looked at before the capacity. -/
def refusal? (output : Output) (count : Nat) : Option EncodeError :=
  if output.length + count > maxEncodedLength then some .bufferTooLarge
  else
    match output with
    | fixed _ beyond => if reaches count beyond then none else some .bufferTooSmall
    | sizeOnly _ => none
    | growable _ _ => none

/-- Write bytes at the end. Bytes held beyond it are overwritten in a fixed region and given up in
a growing one. -/
def push : Output → Bytes → Output
  | sizeOnly count, data => sizeOnly (count + data.length)
  | fixed written beyond, data => fixed (written ++ data) (beyond.drop data.length)
  | growable written _, data => growable (written ++ data) []

/-- Put bytes into an array at a position, moving what follows along. -/
def insertBytes (written : Array UInt8) (position : Nat) (data : Bytes) : Array UInt8 :=
  let moved := written.extract position written.size
  written.shrink position ++ data ++ moved

/-- Insert bytes at a position, moving what follows along. -/
def insert : Output → (position : Nat) → Bytes → Output
  | sizeOnly count, _, data => sizeOnly (count + data.length)
  | fixed written beyond, position, data =>
    fixed (insertBytes written position data) (beyond.drop data.length)
  | growable written _, position, data => growable (insertBytes written position data) []

/-- Hold a number of bytes beyond the end, zero where the region grows, and start them with given
content as far as it fits. -/
def reserve : Output → (capacity : Nat) → (content : Bytes) → Output
  | sizeOnly count, _, _ => sizeOnly count
  | fixed written beyond, capacity, content =>
    let initial := content.take capacity
    fixed written (initial ++ beyond.drop initial.length)
  | growable written _, capacity, content =>
    let initial := content.take capacity
    growable written (initial ++ List.replicate (capacity - initial.length) 0)

/-- Move the end to a position of the storage. A fixed region keeps what lies beyond; a growing
one gives it up, and fills up with zeros if it holds too little. -/
def endAt : Output → (position : Nat) → Output
  | sizeOnly _, position => sizeOnly position
  | fixed written beyond, position =>
    let extra := position - written.size
    let dropped := written.extract position written.size
    fixed (written.shrink position ++ beyond.take extra) (dropped.toList ++ beyond.drop extra)
  | growable written beyond, position =>
    let kept := beyond.take (position - written.size)
    let missing := position - written.size - kept.length
    growable (written.shrink position ++ kept ++ List.replicate missing (0 : UInt8)) []

/-- The bytes written from a position on. -/
def contentsFrom : Output → (position : Nat) → Bytes
  | sizeOnly _, _ => []
  | fixed written _, position => (written.extract position written.size).toList
  | growable written _, position => (written.extract position written.size).toList

/-- Replace the bytes written from a position on by as many others. -/
def replaceFrom : Output → (position : Nat) → Bytes → Output
  | sizeOnly count, _, _ => sizeOnly count
  | fixed written beyond, position, data => fixed (written.shrink position ++ data) beyond
  | growable written beyond, position, data => growable (written.shrink position ++ data) beyond

theorem toList_insertBytes (written : Array UInt8) (position : Nat) (data : Bytes) :
    (insertBytes written position data).toList =
      written.toList.take position ++ data ++ written.toList.drop position := by
  simp [insertBytes, List.take_of_length_le]

@[simp]
theorem length_push (output : Output) (data : Bytes) :
    (output.push data).length = output.length + data.length := by
  cases output <;> simp [push, length, ← Array.length_toList, Array.toList_appendList]

@[simp]
theorem length_insert (output : Output) (position : Nat) (data : Bytes) :
    (output.insert position data).length = output.length + data.length := by
  cases output with
  | sizeOnly count => rfl
  | _ written beyond =>
    simp only [insert, length, ← Array.length_toList, toList_insertBytes, List.length_append,
      List.length_take, List.length_drop]
    omega

theorem length_replaceFrom (output : Output) {position : Nat} {data : Bytes}
    (hdata : data.length = (output.contentsFrom position).length) :
    (output.replaceFrom position data).length = output.length := by
  cases output with
  | sizeOnly count => rfl
  | _ written beyond =>
    simp only [contentsFrom, Array.length_toList, Array.size_extract] at hdata
    simp only [replaceFrom, length, ← Array.length_toList, Array.toList_appendList,
      List.length_append, Array.toList_shrink, List.length_take]
    rw [Array.length_toList]
    omega

theorem contents_push (output : Output) (data : Bytes) (hbytes : output.isSizeOnly = false) :
    (output.push data).contents = output.contents ++ data := by
  cases output <;> simp_all [push, contents, isSizeOnly]

theorem contents_insert (output : Output) (position : Nat) (data : Bytes)
    (hbytes : output.isSizeOnly = false) :
    (output.insert position data).contents =
      output.contents.take position ++ data ++ output.contents.drop position := by
  cases output <;> simp_all [insert, contents, isSizeOnly, toList_insertBytes]

end Output

end Cose.Cbor
