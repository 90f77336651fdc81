import Cose.Proofs.Cbor.Decoder.Nesting
import Cose.Proofs.Cbor.Decoder.Whole
import Cose.Proofs.Cbor.Uniqueness

/-!
# Raw items stand for themselves

What `Reading.nextRaw` captures at a cursor is the encoding of the node ahead, and of nothing else
(`Reading.captures_of_run_nextRaw`): neither the containers that are open around the node nor the
place where it stands leave a trace in the captured bytes. A node may be taken out of all containers
(`Node.WellFormed.mono`), so a new cursor over the bytes delivers it at the top, and since bytes
start with at most one node, both cursors read the same generic value from it, or none
(`Reading.nextValue_iff`).
-/

set_option autoImplicit false
set_option relaxedAutoImplicit false

namespace Cose.Cbor

open Node

/-! ### Nodes further out -/

namespace Node

mutual

/-- A node may stand further out. -/
theorem WellFormed.mono {outer level : Nat} (houter : outer ≤ level) :
    (node : Node) → node.WellFormed level → node.WellFormed outer
  | mk _ _ members, ⟨htags, hfits, hholds, hmembers⟩ =>
    ⟨htags, hfits.mono houter, hholds,
      AllWellFormed.mono (Nat.succ_le_succ houter) members hmembers⟩

theorem AllWellFormed.mono {outer level : Nat} (houter : outer ≤ level) :
    (nodes : List Node) → AllWellFormed level nodes → AllWellFormed outer nodes
  | [], _ => trivial
  | node :: rest, ⟨hnode, hrest⟩ =>
    ⟨WellFormed.mono houter node hnode, AllWellFormed.mono houter rest hrest⟩

end

end Node

/-! ### Cursors that have left finished containers -/

namespace Decoder

/-- A cursor settles to what it is once it has left all finished containers. -/
theorem settles_of_ascendTo {decoder start : Decoder}
    (hstart : ascendTo 0 decoder = .ok () start) : decoder.Settles start := by
  obtain ⟨rest, position, levels⟩ := decoder
  change leave 0 rest position levels = .ok () start at hstart
  fun_induction leave 0 rest position levels with
  | case3 position level outer _ rest hpending ih =>
    have hends : level.Ends 0 := by simp [Level.Ends, hpending]
    have hclosed := settles_of_ends hends rest position outer
    rw [show level.closing = [] by simp [Level.closing, hpending]] at hclosed
    exact hclosed.trans (ih hstart)
  | case6 => cases hstart
  | case7 position level outer _ after hpending heven ih =>
    have hends : level.Ends 0 := by simpa [Level.Ends, hpending] using heven
    have hclosed := settles_of_ends hends after position outer
    rw [show level.closing = [breakByte] by simp [Level.closing, hpending]] at hclosed
    exact hclosed.trans (ih hstart)
  | _ =>
    cases hstart
    exact .refl _

/-- Once it has left them it asks for an item. -/
theorem ready_of_ascendTo {decoder start : Decoder}
    (hstart : ascendTo 0 decoder = .ok () start) : start.Ready where
  ascendTo_eq := (agrees_of_ascendTo hstart).ascendTo_eq.symm.trans hstart
  nextLevel_eq := openLevels_of_innermostOpen (demands_leave hstart []).2

end Decoder

namespace Reading

open Decoder

variable {ε : Type} [CursorError ε]

/-! ### What is captured -/

/-- Whether an item and raw bytes are what a node ahead of a cursor is read as, and another cursor
is the one right behind it: no level is closed but those that the node opens. -/
structure Captures (decoder : Decoder) (node : Node) (item : Item) (raw : Bytes)
    (start after : Decoder) : Prop where
  ascendTo_eq : Decoder.ascendTo 0 decoder = .ok () start
  wellFormed : node.WellFormed start.depth
  rest_eq : start.rest = node.encoded ++ after.rest
  item_eq : item = start.itemOf node after.rest
  raw_eq : raw = node.encoded
  position_eq : after.position = start.position + raw.length
  levels_eq : after.levels = countedLevels start.levels

/-- Whatever is read raw is a node. -/
theorem captures_of_run_nextRaw {decoder after : Decoder} {item : Item} {raw : Bytes}
    (hrun : (nextRaw : Reading ε (Item × Bytes)).run decoder = .ok (item, raw) after) :
    ∃ start node, Captures decoder node item raw start after := by
  obtain ⟨_, start, hascend, hread⟩ := of_run_bind hrun
  have hstart := of_run_ofCursor hascend
  obtain ⟨_, _, hcursor, hread⟩ := of_run_bind hread
  cases hcursor
  obtain ⟨delivered, middle, hnext, hread⟩ := of_run_bind hread
  obtain ⟨_, last, hskip, _⟩ := of_run_bind hread
  obtain ⟨node, ⟨other, rest, _, hother, hnode, hrest, _⟩, _, _⟩ :=
    exists_delivers_of_skip (of_run_next hnext) hskip
  rw [(ready_of_ascendTo hstart).ascendTo_eq] at hother
  cases hother
  have hexact := run_nextRaw_eq (ε := ε) (settles_of_ascendTo hstart) (ready_of_ascendTo hstart)
    hnode hrest
  rw [hexact] at hrun
  cases hrun
  exact ⟨start, node, hstart, hnode, hrest, rfl, rfl, rfl, rfl⟩

/-- The values that a cursor reads from a node ahead are the generic values of the node. -/
theorem nextValue_iff {decoder start : Decoder}
    (hstart : Decoder.ascendTo 0 decoder = .ok () start) {node : Node}
    (hnode : node.WellFormed start.depth) {rest : Bytes} (hrest : start.rest = node.encoded ++ rest)
    (value : Value) :
    (∃ after, (nextValue : Reading ε Value).run decoder = .ok value after) ↔
      node.value? = some value := by
  constructor
  · rintro ⟨after, hrun⟩
    obtain ⟨item, middle, hnext, hread⟩ := of_run_bind hrun
    obtain ⟨found, ⟨⟨other, more, _, hother, hfound, hmore, _⟩, _, _⟩, hvalue⟩ :=
      recovers ε maxNesting (of_run_next hnext) hread
    rw [hstart] at hother
    cases hother
    obtain ⟨rfl, _⟩ := encoded_append_inj hnode.regular hfound.regular (hrest.symm.trans hmore)
    exact hvalue
  · intro hvalue
    have hready := ready_of_ascendTo hstart
    obtain ⟨after, hread, _⟩ := readsNode ε node hvalue maxNesting start rest hready hnode
      (Nat.le_add_right _ _) hrest
    have hnext := next_of_node (settles_of_ascendTo hstart) hready hnode hrest
    exact ⟨after, run_bind (run_next hnext) hread⟩

/-- What is captured does not depend on where it was captured. Wherever an item is read raw, a
cursor of its own over the bytes reads the same item, now at the top, with the same bytes, and is
then at the end; the two cursors have the same generic values to read. The cursor that captured the
bytes stands directly behind them, at the level of the item: the containers that were open when the
item was asked for are open still, with one more member counted in the innermost. -/
theorem nextRaw_free_of_context {decoder after : Decoder} {item : Item} {raw : Bytes}
    (hrun : (nextRaw : Reading ε (Item × Bytes)).run decoder = .ok (item, raw) after) :
    (∃ alone behind last,
      (nextRaw : Reading ε (Item × Bytes)).run (ofBytes raw) = .ok (alone, raw) behind ∧
        alone.value = item.value ∧ alone.tags = item.tags ∧ alone.level = 0 ∧
        (finish : Reading ε Unit).run behind = .ok () last) ∧
      (∀ value, (∃ behind, (nextValue : Reading ε Value).run decoder = .ok value behind) ↔
        ∃ behind, (nextValue : Reading ε Value).run (ofBytes raw) = .ok value behind) ∧
      after.depth = item.level ∧
      ∃ start, Decoder.ascendTo 0 decoder = .ok () start ∧ start.rest = raw ++ after.rest ∧
        after.position = start.position + raw.length ∧
        after.levels = countedLevels start.levels := by
  obtain ⟨start, node, hstart, hnode, hrest, rfl, rfl, hposition, hlevels⟩ :=
    captures_of_run_nextRaw hrun
  have htop : node.WellFormed (ofBytes node.encoded).depth :=
    Node.WellFormed.mono (Nat.zero_le _) node hnode
  have hwhole : (ofBytes node.encoded).rest = node.encoded ++ [] := (List.append_nil _).symm
  have halone := run_nextRaw_eq (ε := ε) (.refl (ofBytes node.encoded)) (ready_top _ 0) htop hwhole
  obtain ⟨last, hlast⟩ :=
    finish_of_reaches ⟨(ofBytes node.encoded).position + node.encoded.length, .refl _⟩
  refine ⟨⟨_, _, last, halone, ?_, ?_, ?_, run_finish hlast⟩, fun value ↦ ?_, ?_, start, hstart,
    hrest, hposition, hlevels⟩
  · cases node
    rfl
  · cases node
    rfl
  · cases node
    rfl
  · exact (nextValue_iff hstart hnode hrest value).trans
      (nextValue_iff (ready_top node.encoded 0).ascendTo_eq htop hwhole value).symm
  · rw [depth, hlevels, length_countedLevels]
    cases node
    rfl

/-- Behind the only member of an array without a length, which is the first member of another, the
next raw item is a tagged array that holds a map, all of indefinite length. The break of the array
that is complete does not belong to the item, and neither does the break of the outer one. -/
theorem nextRaw_free_of_context_inside :
    (nextRaw : Reading DecodeError (Item × Bytes)).run
        ⟨[0xff, 0xc1, 0x9f, 0x01, 0xbf, 0x02, 0x03, 0xff, 0xff, 0xff], 3,
          [⟨.untilBreak, false, 1⟩, ⟨.untilBreak, false, 1⟩]⟩ =
      .ok (⟨.array none, 1, 2, [1]⟩, [0xc1, 0x9f, 0x01, 0xbf, 0x02, 0x03, 0xff, 0xff])
        ⟨[0xff], 12, [⟨.untilBreak, false, 2⟩]⟩ ∧
      ∃ alone behind last,
        (nextRaw : Reading DecodeError (Item × Bytes)).run
            (ofBytes [0xc1, 0x9f, 0x01, 0xbf, 0x02, 0x03, 0xff, 0xff]) =
          .ok (alone, [0xc1, 0x9f, 0x01, 0xbf, 0x02, 0x03, 0xff, 0xff]) behind ∧
        alone.value = .array none ∧ alone.tags = [1] ∧ alone.level = 0 ∧
        (finish : Reading DecodeError Unit).run behind = .ok () last := by
  have hrun : (nextRaw : Reading DecodeError (Item × Bytes)).run
        ⟨[0xff, 0xc1, 0x9f, 0x01, 0xbf, 0x02, 0x03, 0xff, 0xff, 0xff], 3,
          [⟨.untilBreak, false, 1⟩, ⟨.untilBreak, false, 1⟩]⟩ =
      .ok (⟨.array none, 1, 2, [1]⟩, [0xc1, 0x9f, 0x01, 0xbf, 0x02, 0x03, 0xff, 0xff])
        ⟨[0xff], 12, [⟨.untilBreak, false, 2⟩]⟩ := by with_unfolding_all rfl
  exact ⟨hrun, (nextRaw_free_of_context hrun).1⟩

end Reading

end Cose.Cbor
