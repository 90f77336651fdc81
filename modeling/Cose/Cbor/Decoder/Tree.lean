import Cose.Cbor.Decoder.Reading
import Cose.Cbor.Value

/-!
# Generic values from a cursor

`Reading.nextValue` reads one item with all its members as a generic value. The recursion is on
the nesting that is left: no container stands deeper than the levels that a cursor can open.
-/

set_option autoImplicit false
set_option relaxedAutoImplicit false

namespace Cose.Cbor.Reading

variable {ε : Type} [CursorError ε]

/-- The value of an item that was just read, with its members, which stand at most `nesting`
levels deeper. Undefined and unassigned simple values are no generic values. -/
def valueOf : (nesting : Nat) → Item → Reading ε Value
  | nesting, item => do
    let content ←
      match item.value with
      | .unsigned n => pure (.unsigned n)
      | .negative n => pure (.negative n)
      | .bytes content => pure (.bytes content)
      | .text content => pure (.text content)
      | .float number => pure (.float number)
      | .bool truth => pure (.bool truth)
      | .null => pure .null
      | .undefined => fail (CursorError.ofDecode .unexpectedType)
      | .simple _ => fail (CursorError.ofDecode .unexpectedType)
      | .array _ =>
        match nesting with
        | 0 => fail (CursorError.ofDecode .nestingTooDeep)
        | nesting + 1 => do
          let members ← foldBelow item.level [] fun (members : List Value) member ↦ do
            return (← valueOf nesting member) :: members
          pure (.array members.reverse)
      | .map _ =>
        match nesting with
        | 0 => fail (CursorError.ofDecode .nestingTooDeep)
        | nesting + 1 => do
          let entries ← foldBelow item.level [] fun (entries : List (Value × Value)) member ↦ do
            let label ← valueOf nesting member
            let value ← valueOf nesting (← next)
            return (label, value) :: entries
          pure (.map entries.reverse)
    return item.tags.foldr Value.tag content

/-- The next item as a generic value. -/
def nextValue : Reading ε Value := do
  let item ← next
  valueOf maxNesting item

end Cose.Cbor.Reading
