import Mathlib.Tactic.Common
import Cose.Proofs.Cbor.Decoder.Nesting
import Cose.Proofs.Cbor.Decoder.Soundness

/-!
# Whatever is done with a cursor

A cursor may be moved on in any order, with an item that is no longer the last one to be skipped,
and after failures as well (`Move`). `Decoder.progresses_and_sound` says what can be relied on then.

Wherever a cursor stands, no move takes it back. The next item is counted only where one is to
come, so that no counter falls below zero: `Decoder.nextChecked` asks before it counts, and is no
different. An item takes at least one byte, so a loop over items has no more rounds than there are
bytes ahead, and one more in which it is over (`Reading.roundsBelow_eq_some`); and no value is
nested deeper than the nesting that it is read with allows. A cursor that started over an input
stands in it, with no more levels open than may be.
-/

set_option autoImplicit false
set_option relaxedAutoImplicit false

namespace Cose.Cbor

/-! ### Counting members -/

namespace Decoder

/-- Count one more member of the innermost container, unless none is to come there. -/
def countChecked : EStateM (Option DecodeError) Decoder PUnit := fun decoder ↦
  if decoder.levels.head?.map Level.pending = some (.items 0) then .error none decoder
  else .ok () decoder.countMember

/-- Read the next item, with a check of the counter of the innermost container where it is to be
decremented. -/
def nextChecked : EStateM (Option DecodeError) Decoder Item := do
  .adaptExcept some (ascendTo 0)
  let start ← get
  if start.depth = 0 ∧ start.rest = [] then throw (some .noMoreItems)
  let (tags, head) ← .adaptExcept some (taggedHead maxTags)
  countChecked
  let value ← .adaptExcept some (value head)
  let reached ← get
  return ⟨value, start.depth, reached.nextLevel, tags⟩

/-- Where the innermost container has members to come, the check passes. -/
theorem countChecked_of_innermostOpen {decoder : Decoder} {rest : Bytes}
    (hopen : InnermostOpen decoder.levels rest) :
    countChecked decoder = .ok () decoder.countMember := by
  obtain ⟨ahead, position, levels⟩ := decoder
  cases levels with
  | nil => rfl
  | cons level outer => exact if_neg fun hcount ↦ hopen.1 (Option.some.inj hcount)

/-- The counter is never decremented where it is zero: leaving the complete containers first leaves
one that is not, and tags and heads do not change that. -/
theorem nextChecked_eq_next (decoder : Decoder) :
    nextChecked decoder = EStateM.adaptExcept some next decoder := by
  rw [nextChecked, next, adaptExcept_bind]
  refine bind_congr_of_ok fun _ start hstart ↦ ?_
  have hopen := (demands_leave (of_adaptExcept_eq_ok hstart) []).2
  rw [adaptExcept_bind]
  refine bind_congr_of_ok fun _ _ hget ↦ ?_
  cases hget
  split
  · rfl
  · rw [adaptExcept_bind]
    refine bind_congr_of_ok ?_
    rintro ⟨tags, head⟩ middle htagged
    obtain ⟨_, _, _, _, _, _, _, hmiddle⟩ := tags_of_taggedHead (of_adaptExcept_eq_ok htagged)
    have hlevels : middle.levels = start.levels := by rw [hmiddle]
    rw [← hlevels] at hopen
    have hcounted := countChecked_of_innermostOpen hopen
    dsimp only
    rw [bind_of_ok hcounted, adaptExcept_bind, adaptExcept_bind]
    rfl

/-! ### Progress -/

theorem Advances.position_le {before after : Decoder} (hadvances : before.Advances after) :
    before.position ≤ after.position := by
  obtain ⟨count, _, _, hposition⟩ := hadvances
  rw [hposition]
  exact Nat.le_add_right _ _

/-- An item that was delivered moves the position by at least one. -/
theorem position_lt_of_next {before after : Decoder} {item : Item}
    (hnext : next before = .ok item after) : before.position < after.position := by
  have hlength := length_of_next hnext
  have hadvances := forward_next before
  rw [hnext] at hadvances
  obtain ⟨count, _, hrest, hposition⟩ := hadvances
  simp only [reached] at hrest hposition
  rw [hrest, List.length_drop] at hlength
  omega

end Decoder

/-! ### Loops -/

namespace Reading

variable {ε β : Type} [CursorError ε]

/-- Visit the items below a nesting level, in a limited number of rounds, each of which begins with
a look at the level of the next item. -/
def roundsBelow (level : Nat) (visit : β → Item → Reading ε β) :
    (rounds : Nat) → β → Decoder → Option (EStateM.Result ε Decoder β)
  | 0, _, _ => none
  | rounds + 1, state, decoder =>
    if decoder.nextLevel > level then
      match Decoder.next decoder with
      | .error cause after => some (.error (CursorError.ofDecode cause) after)
      | .ok item middle =>
        match (visit state item).run middle with
        | .error cause after => some (.error cause after)
        | .ok visited after => roundsBelow level visit rounds visited after
    else some (.ok state decoder)

/-- A loop is over within one round more than there are bytes ahead. -/
theorem roundsBelow_eq_some {rounds level : Nat} (visit : β → Item → Reading ε β) (state : β)
    {decoder : Decoder} (hrounds : decoder.rest.length < rounds) :
    roundsBelow level visit rounds state decoder = some (runBelow level visit state decoder) := by
  induction rounds generalizing state decoder with
  | zero => exact absurd hrounds (Nat.not_lt_zero _)
  | succ rounds ih =>
    rw [roundsBelow]
    split
    next hlevel =>
      split
      next cause after hnext => rw [runBelow_of_next_error hlevel hnext]
      next item middle hnext =>
        split
        next cause after hvisit => rw [runBelow_of_visit_error hlevel hnext hvisit]
        next visited after hvisit =>
          have hlength := Decoder.length_of_next hnext
          have hforward := (visit state item).forward middle
          rw [hvisit] at hforward
          have hafter : after.rest.length ≤ middle.rest.length := hforward.length_le
          rw [runBelow_of_visit hlevel hnext hvisit]
          exact ih visited (by omega)
    next hlevel => rw [runBelow, if_neg hlevel]

end Reading

/-! ### Moves -/

/-- What can be done with a cursor. -/
inductive Move where
  | next
  | nextRaw
  | nextValue
  /-- Skip the members of an item, whenever it was read. -/
  | skip (item : Item)
  /-- Look at the nesting level of the next item. -/
  | peek
  | finish

namespace Move

/-- The cursor behind a move, whether that succeeds or fails. -/
def apply (decoder : Decoder) : Move → Decoder
  | next => reached (decoder.next)
  | nextRaw => reached ((Reading.nextRaw : Reading DecodeError (Item × Bytes)).run decoder)
  | nextValue => reached ((Reading.nextValue : Reading DecodeError Value).run decoder)
  | skip item => reached ((Reading.skip item : Reading DecodeError Unit).run decoder)
  | peek => decoder
  | finish => reached (decoder.finish)

/-- The cursor behind moves, one after the other. -/
def applyAll (decoder : Decoder) (moves : List Move) : Decoder := moves.foldl apply decoder

end Move

namespace Decoder

variable {input : Bytes} {decoder : Decoder}

/-- A move goes forward. -/
theorem advances_apply (decoder : Decoder) (move : Move) :
    decoder.Advances (move.apply decoder) := by
  cases move with
  | next => exact forward_next decoder
  | nextRaw => exact Reading.nextRaw.forward decoder
  | nextValue => exact Reading.nextValue.forward decoder
  | skip item => exact (Reading.skip item).forward decoder
  | peek => exact .refl decoder
  | finish => exact forward_finish decoder

theorem nested_apply (hnested : decoder.Nested) (move : Move) : (move.apply decoder).Nested := by
  cases move with
  | next => exact nested_next decoder hnested
  | nextRaw => exact Keeps.nextRaw nested_next nested_ascendTo decoder hnested
  | nextValue => exact Keeps.nextValue nested_next decoder hnested
  | skip item => exact Keeps.skip nested_next nested_ascendTo item decoder hnested
  | peek => exact hnested
  | finish => exact nested_finish decoder hnested

/-- Whatever is done with a sound cursor, it stays sound. -/
theorem Sound.applyAll (hsound : Sound input decoder) (moves : List Move) :
    Sound input (Move.applyAll decoder moves) := by
  induction moves generalizing decoder with
  | nil => exact hsound
  | cons move moves ih =>
    exact ih (hsound.of_advances (advances_apply decoder move) (nested_apply hsound.toNested move))

/-- What can be relied on when a cursor is moved on, wherever it stands. -/
structure Progresses (decoder : Decoder) : Prop where
  /-- No move goes back, whether it succeeds or fails. -/
  position_le_apply : ∀ move : Move, decoder.position ≤ (move.apply decoder).position
  /-- The counter of the innermost level is at least one whenever it is decremented. -/
  nextChecked_eq : nextChecked decoder = EStateM.adaptExcept some next decoder
  /-- An item takes at least one byte. -/
  position_lt : ∀ {item : Item} {after : Decoder}, next decoder = .ok item after →
    decoder.position < after.position
  /-- Every loop over items ends, whatever its visits read: the loop that skips members, those that
  collect the members of a value, and those over the entries of a header and its critical labels. -/
  loops_end : ∀ {ε β : Type} [CursorError ε] (level : Nat) (visit : β → Item → Reading ε β)
    (initial : β), Reading.roundsBelow level visit (decoder.rest.length + 1) initial decoder =
      some (Reading.runBelow level visit initial decoder)
  /-- A value that is read may nest as deep as it does: no nesting is used up before the limit on
  open levels is met. -/
  values_end : ∀ {ε : Type} [CursorError ε] {item : Item} {after : Decoder} {nesting : Nat},
    next decoder = .ok item after → maxNesting ≤ nesting →
      (Reading.valueOf nesting item : Reading ε Value).run after =
        (Reading.valueOf maxNesting item).run after

/-- Every cursor progresses, and one that starts over an input is sound wherever moves lead it,
those that fail included. -/
theorem progresses_and_sound :
    (∀ decoder : Decoder, decoder.Progresses) ∧
      ∀ (input : Bytes) (moves : List Move), Sound input (Move.applyAll (ofBytes input) moves) := by
  refine ⟨fun decoder ↦ ?_, fun input moves ↦ (sound_ofBytes input).applyAll moves⟩
  exact {
    position_le_apply := fun move ↦ (advances_apply decoder move).position_le
    nextChecked_eq := nextChecked_eq_next decoder
    position_lt := position_lt_of_next
    loops_end := fun _ visit initial ↦
      Reading.roundsBelow_eq_some visit initial (Nat.lt_succ_self _)
    values_end := fun hnext hnesting ↦ Reading.valueOf_of_maxNesting_le hnesting hnext }

/-- A map that breaks off behind a label stops every move, and the cursor stays before the break. -/
example : Move.applyAll (ofBytes [0xbf, 0x01, 0xff]) [.next, .next, .next, .finish, .peek, .next] =
    ⟨[0xff], 2, [⟨.untilBreak, true, 1⟩]⟩ := by decide

end Decoder

end Cose.Cbor
