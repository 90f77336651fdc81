import Mathlib.Tactic.Common
import Cose.Cbor.Extent
import Cose.Cbor.MapOrder
import Cose.Proofs.Cbor.Grammar
import Cose.Proofs.Cbor.Text

/-!
# The extent of a node

The scan for the extent of an item agrees with the grammar: over the bytes of a regular node, in
front of any others, it takes exactly the node (`itemLength?_encoded`). Regular nodes keep the
limits on nesting and counts but may carry any number of tags. So the body of a map that consists
of nodes splits into its entries (`splitEntries_encodedEntries`).
-/

set_option autoImplicit false
set_option relaxedAutoImplicit false

namespace Cose.Cbor

/-! ### Regular nodes -/

/-- A token may stand further out. -/
theorem Token.Fits.mono {outer level : Nat} (houter : outer ≤ level) {token : Token}
    (hfits : token.Fits level) : token.Fits outer := by
  cases token with
  | leaf atom => trivial
  | definite isMap count => exact ⟨Nat.lt_of_le_of_lt houter hfits.1, hfits.2⟩
  | indefinite isMap => exact Nat.lt_of_le_of_lt houter hfits

namespace Node

mutual

/-- Whether a node keeps the rules of the format and the limits of the library at a level, except
for the limit on tags. -/
def Regular : (level : Nat) → Node → Prop
  | level, mk _ token members =>
    token.Fits level ∧ token.Holds members.length ∧ AllRegular (level + 1) members

/-- Whether all nodes of a list are regular at a level. -/
def AllRegular : (level : Nat) → List Node → Prop
  | _, [] => True
  | level, node :: rest => node.Regular level ∧ AllRegular level rest

end

mutual

/-- A node may stand further out. -/
theorem Regular.mono {outer level : Nat} (houter : outer ≤ level) :
    (node : Node) → node.Regular level → node.Regular outer
  | mk _ _ members, ⟨hfits, hholds, hmembers⟩ =>
    ⟨hfits.mono houter, hholds, AllRegular.mono (Nat.succ_le_succ houter) members hmembers⟩

theorem AllRegular.mono {outer level : Nat} (houter : outer ≤ level) :
    (nodes : List Node) → AllRegular level nodes → AllRegular outer nodes
  | [], _ => trivial
  | node :: rest, ⟨hnode, hrest⟩ =>
    ⟨Regular.mono houter node hnode, AllRegular.mono houter rest hrest⟩

end

mutual

/-- The limit on tags is one more rule than those of a regular node. -/
theorem WellFormed.regular : (node : Node) → {level : Nat} → node.WellFormed level →
    node.Regular level
  | mk _ _ members, _, ⟨_, hfits, hholds, hmembers⟩ =>
    ⟨hfits, hholds, AllWellFormed.allRegular members hmembers⟩

theorem AllWellFormed.allRegular : (nodes : List Node) → {level : Nat} →
    AllWellFormed level nodes → AllRegular level nodes
  | [], _, _ => trivial
  | node :: rest, _, ⟨hnode, hrest⟩ =>
    ⟨WellFormed.regular node hnode, AllWellFormed.allRegular rest hrest⟩

end

end Node

namespace Scan

open Node

/-! ### One head -/

/-- A scan goes on with the bytes behind the head that it takes. -/
theorem finish?_of_step? {bytes more : Bytes} {taken length : Nat} {level : Pending}
    {outer levels : List Pending} (hlevel : level ≠ .items 0)
    (hfirst : ∃ first rest, bytes = first :: rest ∧ first ≠ breakByte)
    (hstep : step? bytes taken level outer = some ⟨more, taken + length, levels⟩) :
    finish? ⟨bytes, taken, level :: outer⟩ = finish? ⟨more, taken + length, levels⟩ := by
  obtain ⟨first, rest, rfl, hbreak⟩ := hfirst
  rw [finish?, if_neg hbreak]
  · split
    next hnone => simp [hnone] at hstep
    next next hnext =>
      rw [hnext] at hstep
      rw [Option.some.inj hstep]
  · exact hlevel

/-- A tag leaves its item to come. -/
theorem finish?_tags (tags : List Argument) {level : Pending} (hlevel : level ≠ .items 0)
    (rest : Bytes) (taken : Nat) (outer : List Pending) :
    finish? ⟨encodedTags tags ++ rest, taken, level :: outer⟩ =
      finish? ⟨rest, taken + (encodedTags tags).length, level :: outer⟩ := by
  induction tags generalizing taken with
  | nil => simp [encodedTags]
  | cons tag tags ih =>
    have hbytes : encodedTags (tag :: tags) ++ rest =
        tag.head .tag ++ (encodedTags tags ++ rest) := by
      simp [encodedTags]
    have hstep : step? (tag.head .tag ++ (encodedTags tags ++ rest)) taken level outer =
        some ⟨encodedTags tags ++ rest, taken + (tag.head .tag).length, level :: outer⟩ := by
      simp [step?, tag.read_head .tag, Argument.read, advance]
    obtain ⟨first, more, hhead, hfirst⟩ := tag.exists_cons_head .tag
    rw [hbytes, finish?_of_step? hlevel ⟨first, more ++ _, by rw [hhead]; rfl, hfirst⟩ hstep, ih]
    simp [encodedTags, Nat.add_assoc]

/-- The levels that are open once a token was scanned. -/
def enter (token : Token) (levels : List Pending) : List Pending :=
  match token with
  | .leaf _ => levels
  | .definite isMap count =>
    let members := if isMap then 2 * count.number.toNat else count.number.toNat
    if members = 0 then levels else .items members :: levels
  | .indefinite _ => .untilBreak :: levels

/-- The head of an array or map of definite length opens a level, unless it has no members. -/
theorem step?_definite {bytes : Bytes} {head : Head} {members taken : Nat} {level : Pending}
    {outer : List Pending} (hread : Head.read bytes = .ok head)
    (hmajor : head.major = .array ∨ head.major = .map)
    (hpending : Pending.ofHead? head = some (.items members)) (hnest : outer.length < maxNesting) :
    step? bytes taken level outer = some (advance bytes taken head.length
      (if members = 0 then level.pred :: outer else .items members :: level.pred :: outer)) := by
  rw [step?, hread]
  rcases hmajor with hmajor | hmajor <;>
  · simp only [hmajor, hpending]
    cases members with
    | zero => rfl
    | succ members => simp [Nat.not_le.2 hnest]

theorem step?_token {token : Token} {outer : List Pending} (hfits : token.Fits outer.length)
    (level : Pending) (rest : Bytes) (taken : Nat) :
    step? (token.encoded ++ rest) taken level outer =
      some ⟨rest, taken + token.encoded.length, enter token (level.pred :: outer)⟩ := by
  cases token with
  | leaf atom =>
    have hbytes : (Token.leaf atom).encoded ++ rest =
        atom.argument.head atom.major ++ (atom.content ++ rest) := by
      simp [Token.encoded, Token.head, Token.content]
    rw [hbytes, step?, atom.argument.read_head atom.major]
    cases atom with
    | bytes length content hlength =>
      simp [Leaf.major, Leaf.argument, Leaf.content, Argument.read, hlength, advance, enter,
        Token.encoded, Token.head, Token.content, List.drop_append]
    | text length content hlength =>
      have hcontent : content.utf8ByteSize = content.toUTF8.toList.length :=
        (length_toUTF8 content).symm
      simp only [Leaf.major, Leaf.argument, Leaf.content, Argument.read, hlength, hcontent]
      simp [advance, enter, Token.encoded, Token.head, Token.content, Leaf.major, Leaf.argument,
        Leaf.content, List.drop_append]
    | _ =>
      simp [Leaf.major, Leaf.content, Argument.read, advance, enter, Token.encoded, Token.head,
        Token.content]
  | definite isMap count =>
    obtain ⟨hlevel, hcount⟩ := hfits
    have hsmall : count.number.toNat ≤ 65534 := hcount
    have hbytes : (Token.definite isMap count).encoded ++ rest =
        count.head (containerMajor isMap) ++ rest := by
      simp [Token.encoded, Token.head, Token.content]
    have hpending : Pending.ofHead? (count.read (containerMajor isMap)) =
        some (.items (if isMap then 2 * count.number.toNat else count.number.toNat)) := by
      have hlt : count.number.toNat < 2 ^ 63 := by omega
      have hne : count.number.toNat ≠ 2 ^ 64 - 1 := by omega
      cases isMap
      · simp only [Pending.ofHead?, Argument.read, containerMajor, Bool.false_eq_true, if_false]
        rw [if_neg (by decide), if_neg hne]
      · simp only [Pending.ofHead?, Argument.read, containerMajor, Bool.false_eq_true, if_false,
          if_true]
        rw [if_pos hlt]
    have hcontainer : (count.read (containerMajor isMap)).major = .array ∨
        (count.read (containerMajor isMap)).major = .map := by
      cases isMap
      · exact .inl rfl
      · exact .inr rfl
    rw [hbytes, step?_definite (count.read_head _ rest) hcontainer hpending hlevel]
    cases isMap <;>
      simp [advance, Argument.read, enter, Token.encoded, Token.head, Token.content]
  | indefinite isMap =>
    have hnest : ¬outer.length ≥ maxNesting := Nat.not_le.2 hfits
    have hbytes : (Token.indefinite isMap).encoded ++ rest =
        indefiniteHead (containerMajor isMap) :: rest := by
      simp [Token.encoded, Token.head, Token.content]
    have hdefinite : ¬(containerMajor isMap).IsAlwaysDefinite := by cases isMap <;> decide
    rw [hbytes, step?, read_indefiniteHead hdefinite]
    cases isMap <;>
      simp [indefiniteRead, containerMajor, Pending.ofHead?, hnest, advance, enter, Token.encoded,
        Token.head, Token.content]

/-! ### Whole nodes -/

/-- What a level expects behind a number of items. -/
def remaining (level : Pending) (items : Nat) : Pending :=
  match level with
  | .items count => .items (count - items)
  | .untilBreak => .untilBreak

/-- Whether a level expects at least a number of items. -/
def Expects (level : Pending) (items : Nat) : Prop :=
  match level with
  | .items count => items ≤ count
  | .untilBreak => True

theorem ne_items_zero_of_expects {level : Pending} {items : Nat}
    (hexpects : Expects level (items + 1)) : level ≠ .items 0 := by
  rintro rfl
  exact absurd hexpects (Nat.not_succ_le_zero items)

theorem expects_pred {level : Pending} {items : Nat} (hexpects : Expects level (items + 1)) :
    Expects level.pred items ∧ remaining level.pred items = remaining level (items + 1) := by
  cases level with
  | items count =>
    refine ⟨Nat.le_sub_of_add_le hexpects, ?_⟩
    simp only [Pending.pred, remaining, Nat.sub_sub, Nat.add_comm]
  | untilBreak => exact ⟨trivial, rfl⟩

theorem finish?_items_zero (rest : Bytes) (taken : Nat) (outer : List Pending) :
    finish? ⟨rest, taken, .items 0 :: outer⟩ = finish? ⟨rest, taken, outer⟩ := by
  rw [finish?]

theorem finish?_break (rest : Bytes) (taken : Nat) (outer : List Pending) :
    finish? ⟨breakByte :: rest, taken, .untilBreak :: outer⟩ =
      finish? ⟨rest, taken + 1, outer⟩ := by
  rw [finish?, if_pos rfl, if_pos rfl]
  simp

mutual

/-- Over a node the scan takes the node and leaves one item fewer to come. -/
theorem finish?_node (node : Node) {level : Pending} (hlevel : level ≠ .items 0)
    (outer : List Pending) (hregular : node.Regular outer.length) (rest : Bytes) (taken : Nat) :
    finish? ⟨node.encoded ++ rest, taken, level :: outer⟩ =
      finish? ⟨rest, taken + node.encoded.length, level.pred :: outer⟩ := by
  obtain ⟨tags, token, members⟩ := node
  obtain ⟨hfits, hholds, hmembers⟩ := hregular
  have hbytes : (Node.mk tags token members).encoded ++ rest =
      encodedTags tags ++ (token.encoded ++ (encodedAll members ++ (token.closing ++ rest))) := by
    simp [encoded]
  have hlength : (Node.mk tags token members).encoded.length =
      (encodedTags tags).length + token.encoded.length + (encodedAll members).length +
        token.closing.length := by
    simp [encoded, Nat.add_assoc]
  obtain ⟨first, more, hopening, hfirst⟩ := exists_cons_opening [] token
  have htoken : ∃ first more', token.encoded ++ (encodedAll members ++ (token.closing ++ rest)) =
      first :: more' ∧ first ≠ breakByte := by
    refine ⟨first, more ++ (encodedAll members ++ (token.closing ++ rest)), ?_, hfirst⟩
    rw [← List.cons_append, ← hopening]
    rfl
  rw [hbytes, hlength, finish?_tags tags hlevel, finish?_of_step? hlevel htoken
    (step?_token hfits level _ _)]
  cases token with
  | leaf atom =>
    cases List.length_eq_zero_iff.1 hholds
    simp [enter, encodedAll, Token.closing, Nat.add_assoc]
  | definite isMap count =>
    simp only [Token.Holds] at hholds
    simp only [enter, ← hholds, Token.closing, List.nil_append, List.length_nil, Nat.add_zero]
    by_cases hempty : members.length = 0
    · cases List.length_eq_zero_iff.1 hempty
      simp [encodedAll, Nat.add_assoc]
    · have hexpects : Expects (.items members.length) members.length := Nat.le_refl _
      rw [if_neg hempty, finish?_nodes members hexpects (level.pred :: outer) hmembers rest]
      simp [remaining, finish?_items_zero, Nat.add_assoc]
  | indefinite isMap =>
    simp only [enter, Token.closing, List.cons_append, List.nil_append, List.length_singleton]
    have hexpects : Expects .untilBreak members.length := trivial
    rw [finish?_nodes members hexpects (level.pred :: outer) hmembers]
    simp [remaining, finish?_break, Nat.add_assoc]

/-- Over nodes the scan takes the nodes and leaves as many items fewer to come. -/
theorem finish?_nodes (nodes : List Node) {level : Pending} (hlevel : Expects level nodes.length)
    (outer : List Pending) (hregular : AllRegular outer.length nodes) (rest : Bytes)
    (taken : Nat) :
    finish? ⟨encodedAll nodes ++ rest, taken, level :: outer⟩ =
      finish? ⟨rest, taken + (encodedAll nodes).length,
        remaining level nodes.length :: outer⟩ := by
  cases nodes with
  | nil => cases level <;> simp [encodedAll, remaining]
  | cons node nodes =>
    obtain ⟨hnode, hnodes⟩ := hregular
    obtain ⟨hpred, hremaining⟩ := expects_pred hlevel
    rw [encodedAll, List.append_assoc, finish?_node node (ne_items_zero_of_expects hlevel) outer
      hnode, finish?_nodes nodes hpred outer hnodes, hremaining]
    simp [Nat.add_assoc]

end

end Scan

/-- The extent of a regular node is found in front of any bytes. -/
theorem itemLength?_encoded {node : Node} (hregular : node.Regular 0) (rest : Bytes) :
    itemLength? (node.encoded ++ rest) = some node.encoded.length := by
  rw [itemLength?, Scan.finish?_node node (by simp) [] hregular]
  simp [Pending.pred, Scan.finish?]

/-! ### Bodies of maps -/

/-- Whether bytes are those of a node that is regular at a level. -/
def IsNode (level : Nat) (bytes : Bytes) : Prop :=
  ∃ node : Node, node.Regular level ∧ node.encoded = bytes

/-- An entry of nodes: its label and its value are each the bytes of one. -/
def Entry.OfNodes (level : Nat) (entry : Entry) : Prop :=
  IsNode level entry.label ∧ IsNode level entry.value

theorem first?_encoded {entry : Entry} (hentry : entry.OfNodes 0) (rest : Bytes) :
    Entry.first? (entry.encoded ++ rest) = some entry := by
  obtain ⟨label, value⟩ := entry
  obtain ⟨⟨first, hfirst, rfl⟩, ⟨second, hsecond, rfl⟩⟩ := hentry
  simp only [Entry.first?, Entry.encoded, List.append_assoc, itemLength?_encoded hfirst,
    List.drop_left, itemLength?_encoded hsecond, List.take_left]

/-- A body that consists of entries of nodes splits into these. -/
theorem splitEntries_encodedEntries {entries : List Entry}
    (hentries : ∀ entry ∈ entries, entry.OfNodes 0) :
    splitEntries (encodedEntries entries) = (entries, []) := by
  induction entries with
  | nil =>
    have hnone : Entry.first? [] = none := by
      simp [Entry.first?, itemLength?, Scan.finish?]
    change splitEntries [] = ([], [])
    rw [splitEntries]
    split
    · rfl
    next found hsome => simp [hnone] at hsome
  | cons entry entries ih =>
    obtain ⟨hentry, hentries⟩ := List.forall_mem_cons.1 hentries
    have hbytes : encodedEntries (entry :: entries) = entry.encoded ++ encodedEntries entries := by
      simp [encodedEntries]
    have hfirst := first?_encoded hentry (encodedEntries entries)
    rw [hbytes, splitEntries]
    split
    next hnone => simp [hfirst] at hnone
    next found hsome =>
      rw [hfirst] at hsome
      cases hsome
      simp [ih hentries]

end Cose.Cbor
