import Cose.Cbor.Decoder.Forward

/-!
# Readings

A reading is a cursor operation together with the proof that it only moves forward. Readings are
composed like other effectful programs, so whatever is built from them moves forward too, and no
caller has to prove it again. `Reading.foldBelow` is the one loop over items: it visits the items
below a nesting level, and ends because each of them takes at least one byte.
-/

set_option autoImplicit false
set_option relaxedAutoImplicit false

namespace Cose.Cbor

/-- The failures that a reading may have: those of decoding, perhaps among others. -/
class CursorError (ε : Type) where
  ofDecode : DecodeError → ε

instance : CursorError DecodeError := ⟨id⟩

/-- A cursor operation that only moves forward. -/
structure Reading (ε α : Type) where
  run : EStateM ε Decoder α
  forward : Forward run

namespace Reading

variable {ε α β : Type}

instance : Monad (Reading ε) where
  pure result := ⟨pure result, .pure result⟩
  bind reading following :=
    ⟨reading.run >>= fun result ↦ (following result).run,
      .bind reading.forward fun result ↦ (following result).forward⟩

/-- Fail without moving. -/
def fail (cause : ε) : Reading ε α := ⟨throw cause, .throw cause⟩

/-- Succeed or fail as a computation without a cursor did. -/
def ofExcept (result : Except ε α) : Reading ε α :=
  match result with
  | .ok result => pure result
  | .error cause => fail cause

/-- A decoding operation with its failures among those of the reading. -/
def ofCursor [CursorError ε] (operation : Cursor α) (hforward : Forward operation) :
    Reading ε α :=
  ⟨EStateM.adaptExcept CursorError.ofDecode operation, hforward.adaptExcept _⟩

/-- The next item. -/
def next [CursorError ε] : Reading ε Item := ofCursor Decoder.next Decoder.forward_next

/-- Leave finished containers down to a least depth. -/
def ascendTo [CursorError ε] (minDepth : Nat) : Reading ε Unit :=
  ofCursor (Decoder.ascendTo minDepth) (Decoder.forward_ascendTo minDepth)

/-- Check that the input was read to its end and no container is open. -/
def finish [CursorError ε] : Reading ε Unit := ofCursor Decoder.finish Decoder.forward_finish

/-- The cursor as it stands. -/
def cursor : Reading ε Decoder := ⟨get, .get⟩

/-- Read another encoding from its start with a cursor of its own. -/
def within (input : Bytes) (reading : Reading ε α) : Reading ε α where
  run decoder :=
    match reading.run (.ofBytes input) with
    | .ok result _ => .ok result decoder
    | .error cause _ => .error cause decoder
  forward decoder := by
    have hunmoved := Decoder.Advances.refl decoder
    dsimp only
    split <;> exact hunmoved

/-- Visit the items below a nesting level from a given cursor on. -/
def runBelow [CursorError ε] (level : Nat) (visit : β → Item → Reading ε β) (initial : β)
    (decoder : Decoder) : EStateM.Result ε Decoder β :=
  if decoder.nextLevel > level then
    match _hnext : Decoder.next decoder with
    | .error cause after => .error (CursorError.ofDecode cause) after
    | .ok item middle =>
      match _hvisit : (visit initial item).run middle with
      | .error cause after => .error cause after
      | .ok visited after => runBelow level visit visited after
  else .ok initial decoder
termination_by decoder.rest.length
decreasing_by
  have hnext := Decoder.length_of_next _hnext
  have hvisit := (visit initial item).forward middle
  rw [_hvisit] at hvisit
  exact Nat.lt_of_le_of_lt hvisit.length_le hnext

theorem advances_runBelow [CursorError ε] (level : Nat) (visit : β → Item → Reading ε β)
    (result : β) (decoder : Decoder) :
    decoder.Advances (reached (runBelow level visit result decoder)) := by
  fun_induction runBelow level visit result decoder with
  | case1 result decoder _ cause after hnext =>
    have hadvances := Decoder.forward_next decoder
    rw [hnext] at hadvances
    exact hadvances
  | case2 result decoder _ item middle hnext cause after hvisit =>
    have hadvances := Decoder.forward_next decoder
    rw [hnext] at hadvances
    have hvisited := (visit result item).forward middle
    rw [hvisit] at hvisited
    exact hadvances.trans hvisited
  | case3 result decoder _ item middle hnext visited after hvisit ih =>
    have hadvances := Decoder.forward_next decoder
    rw [hnext] at hadvances
    have hvisited := (visit result item).forward middle
    rw [hvisit] at hvisited
    exact (hadvances.trans hvisited).trans ih
  | case4 result decoder => exact .refl decoder

/-- Visit the items below a nesting level in order, as long as the next item stands below it.
A visit may itself read on, for instance the members of the item it is given. -/
def foldBelow [CursorError ε] (level : Nat) (initial : β) (visit : β → Item → Reading ε β) :
    Reading ε β :=
  ⟨runBelow level visit initial, advances_runBelow level visit initial⟩

/-- Read past the members of the item that was read last, if it is a container. -/
def skip [CursorError ε] (item : Item) : Reading ε Unit := do
  foldBelow item.level () fun _ _ ↦ pure ()
  ascendTo item.level

/-- The next item and the bytes that it takes with all its members. -/
def nextRaw [CursorError ε] : Reading ε (Item × Bytes) := do
  ascendTo 0
  let before ← cursor
  let item ← next
  skip item
  let after ← cursor
  return (item, before.rest.take (after.position - before.position))

/-- What a reading makes of an encoding from its start. -/
def decode (reading : Reading ε α) (input : Bytes) : Except ε α :=
  match reading.run (.ofBytes input) with
  | .ok result _ => .ok result
  | .error cause _ => .error cause

end Reading

end Cose.Cbor
