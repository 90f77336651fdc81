import Mathlib.Tactic.Common
import Cose.Cbor.Decoder.Reading
import Cose.Proofs.Cbor.Decoder.Acceptance

/-!
# Cursors that have not left finished containers yet

A container that is complete is left when the next item is asked for. Until then a cursor behind
its last member and a cursor behind the container differ, but they deliver the same from there on:
the one settles to the other (`Decoder.Settles`).

`Decoder.next_of_node` says what is delivered when a well-formed node stands ahead of a cursor.
`Decoder.Faces` says of a cursor inside a container which nodes are still to come; it is entered
with the container (`Decoder.faces_inside`), kept by reading a member (`Decoder.Faces.exists_start`)
and left behind the last one (`Decoder.Faces.reaches`). Readings of nodes are assembled from these.
-/

set_option autoImplicit false
set_option relaxedAutoImplicit false

namespace Cose.Cbor

open Node

/-! ### Levels with more members counted -/

/-- A level once a number of further members was read. -/
def Level.counted (level : Level) (members : Nat) : Level where
  pending :=
    match level.pending with
    | .items count => .items (count - members)
    | .untilBreak => .untilBreak
  isMap := level.isMap
  seen := level.seen + members

namespace Level

theorem closing_counted (level : Level) (members : Nat) :
    (level.counted members).closing = level.closing := by
  obtain ⟨_ | _, isMap, seen⟩ := level <;> rfl

theorem Ends.counted {level : Level} {first second : Nat} (hends : level.Ends (first + second)) :
    (level.counted first).Ends second := by
  obtain ⟨count | _, isMap, seen⟩ := level
  · have hcount : first + second = count := hends
    change second = count - first
    omega
  · intro hmap
    change (seen + first + second) % 2 = 0
    rw [Nat.add_assoc]
    exact hends hmap

end Level

namespace Decoder

theorem countedLevels_cons (level : Level) (outer : List Level) :
    countedLevels (level :: outer) = level.counted 1 :: outer := by
  obtain ⟨_ | _, isMap, seen⟩ := level <;> rfl

/-! ### Settling -/

theorem openLevels_le_length (levels : List Level) (rest : Bytes) :
    openLevels levels rest ≤ levels.length := by
  fun_induction openLevels levels rest with
  | case1 => exact Nat.le_refl _
  | case2 => exact Nat.le_trans ‹_› (Nat.le_succ _)
  | case5 => exact Nat.le_trans ‹_› (Nat.le_succ _)
  | _ => exact Nat.le_refl _

/-- At the least depth nothing is left. -/
theorem leave_length (ahead : Bytes) (position : Nat) (levels : List Level) :
    leave levels.length ahead position levels = .ok () ⟨ahead, position, levels⟩ := by
  cases levels with
  | nil => rfl
  | cons level outer => simp only [leave, List.length_cons, Nat.le_refl, if_true]

/-- A cursor settles to another if the two differ only in finished containers that the first has
not left yet. -/
structure Settles (decoder target : Decoder) : Prop where
  depth_le : target.depth ≤ decoder.depth
  nextLevel_eq : decoder.nextLevel = target.nextLevel
  ascendTo_eq : ∀ minDepth ≤ target.depth, ascendTo minDepth decoder = ascendTo minDepth target

namespace Settles

theorem refl (decoder : Decoder) : decoder.Settles decoder := ⟨Nat.le_refl _, rfl, fun _ _ ↦ rfl⟩

theorem trans {first second third : Decoder} (hleft : first.Settles second)
    (hright : second.Settles third) : first.Settles third where
  depth_le := Nat.le_trans hright.depth_le hleft.depth_le
  nextLevel_eq := hleft.nextLevel_eq.trans hright.nextLevel_eq
  ascendTo_eq := fun minDepth hdepth ↦
    (hleft.ascendTo_eq minDepth (Nat.le_trans hdepth hright.depth_le)).trans
      (hright.ascendTo_eq minDepth hdepth)

/-- The next item is the same. -/
theorem next_eq {decoder target : Decoder} (hsettles : decoder.Settles target) :
    next decoder = next target := by
  have hascend := hsettles.ascendTo_eq 0 (Nat.zero_le _)
  change EStateM.bind _ _ decoder = EStateM.bind _ _ target
  unfold EStateM.bind
  rw [hascend]

theorem finish_eq {decoder target : Decoder} (hsettles : decoder.Settles target) :
    finish decoder = finish target := by
  have hascend := hsettles.ascendTo_eq 0 (Nat.zero_le _)
  change EStateM.bind _ _ decoder = EStateM.bind _ _ target
  unfold EStateM.bind
  rw [hascend]

end Settles

/-- Whether a cursor settles to one with given bytes ahead and given open levels. -/
def Reaches (decoder : Decoder) (rest : Bytes) (levels : List Level) : Prop :=
  ∃ position, decoder.Settles ⟨rest, position, levels⟩

/-- Behind its last member a container is as good as left, with its break if it has one. -/
theorem settles_of_ends {level : Level} (hends : level.Ends 0) (rest : Bytes) (position : Nat)
    (outer : List Level) :
    Settles ⟨level.closing ++ rest, position, level :: outer⟩
      ⟨rest, position + level.closing.length, outer⟩ := by
  have hinside {minDepth : Nat} (hdepth : minDepth ≤ outer.length) :
      ¬outer.length + 1 ≤ minDepth := Nat.not_le.2 (Nat.lt_succ_of_le hdepth)
  obtain ⟨count | _, isMap, seen⟩ := level
  · obtain rfl : 0 = count := hends
    refine ⟨Nat.le_succ _, ?_, fun minDepth hdepth ↦ ?_⟩
    · simp [nextLevel, Level.closing, openLevels]
    · simp [ascendTo, Level.closing, leave, hinside hdepth]
  · have hwhole : ¬(isMap = true ∧ seen % 2 = 1) := by
      rintro ⟨hmap, hodd⟩
      have heven : (seen + 0) % 2 = 0 := hends hmap
      omega
    refine ⟨Nat.le_succ _, ?_, fun minDepth hdepth ↦ ?_⟩
    · simp [nextLevel, Level.closing, openLevels]
    · simp only [ascendTo, Level.closing, List.cons_append, List.nil_append, leave,
        hinside hdepth, if_false, if_true, hwhole, List.length_singleton]

/-- Where nothing is ahead and no container is open, a cursor can be finished. -/
theorem finish_of_reaches {decoder : Decoder} (hreaches : decoder.Reaches [] []) :
    ∃ last, finish decoder = .ok () last := by
  obtain ⟨position, hsettles⟩ := hreaches
  rw [hsettles.finish_eq]
  exact ⟨⟨[], position, []⟩, rfl⟩

/-! ### Nodes ahead of a cursor -/

/-- Whether a cursor has left all finished containers, so that it asks for an item. -/
structure Ready (start : Decoder) : Prop where
  ascendTo_eq : ascendTo 0 start = .ok () start
  nextLevel_eq : start.nextLevel = start.depth

theorem ready_top (rest : Bytes) (position : Nat) : Ready ⟨rest, position, []⟩ := ⟨rfl, rfl⟩

/-- A cursor asks for an item while its innermost level has members to come. -/
theorem ready_of_member {level : Level} {members : Nat} (hends : level.Ends (members + 1))
    (node : Node) (rest : Bytes) (position : Nat) (outer : List Level) :
    Ready ⟨node.encoded ++ rest, position, level :: outer⟩ := by
  obtain ⟨first, more, hencoded, hfirst⟩ := node.exists_cons_encoded
  have hinside : ¬outer.length + 1 ≤ 0 := Nat.not_succ_le_zero _
  obtain ⟨count | _, isMap, seen⟩ := level
  · obtain rfl : members + 1 = count := hends
    refine ⟨?_, ?_⟩
    · simp [ascendTo, leave]
    · simp [nextLevel, openLevels, depth]
  · refine ⟨?_, ?_⟩
    · simp [ascendTo, hencoded, leave, hfirst]
    · simp [nextLevel, hencoded, openLevels, hfirst, depth]

/-- The item that a node ahead of a cursor is delivered as. -/
def itemOf (start : Decoder) (node : Node) (rest : Bytes) : Item :=
  match node with
  | .mk tags token members =>
    start.delivered tags token (encodedAll members ++ token.closing ++ rest)

/-- The cursor inside a node that stood ahead of another, where its members begin. -/
def inside (start : Decoder) (node : Node) (rest : Bytes) : Decoder :=
  match node with
  | .mk tags token members => start.behind tags token (encodedAll members ++ token.closing ++ rest)

/-- A well-formed node ahead of a cursor is entered with the next item. -/
theorem next_of_node {decoder start : Decoder} (hsettles : decoder.Settles start)
    (hready : start.Ready) {node : Node} (hnode : node.WellFormed start.depth) {rest : Bytes}
    (hrest : start.rest = node.encoded ++ rest) :
    next decoder = .ok (start.itemOf node rest) (start.inside node rest) := by
  obtain ⟨tags, token, members⟩ := node
  obtain ⟨htags, hfits, _, _⟩ := hnode
  rw [hsettles.next_eq]
  refine next_of_opening hready.ascendTo_eq htags hfits ?_
  rw [hrest, encoded]
  simp only [List.append_assoc]

/-- Behind a node that has nothing inside the cursor is behind the node. -/
theorem reaches_inside_leaf (start : Decoder) (tags : List Argument) (atom : Leaf) (rest : Bytes) :
    (start.inside (.mk tags (.leaf atom) []) rest).Reaches rest (countedLevels start.levels) :=
  ⟨start.position + (encodedTags tags ++ (Token.leaf atom).encoded).length, .refl _⟩

/-! ### Members ahead of a cursor -/

/-- A token that opens a level for its members. -/
structure OpensLevel (token : Token) (isMap : Bool) (level : Level) : Prop where
  value_eq : ∃ count?, token.value = if isMap then .map count? else .array count?
  enter_eq : ∀ levels, token.enter levels = level :: levels
  closing_eq : token.closing = level.closing
  depth_lt : ∀ depth, token.Fits depth → depth < maxNesting
  ends : ∀ members, token.Holds members → level.Ends members

theorem opensLevel_definite (isMap : Bool) (count : Argument) :
    OpensLevel (.definite isMap count) isMap
      ⟨.items (if isMap then 2 * count.number.toNat else count.number.toNat), isMap, 0⟩ where
  value_eq := ⟨some count.number, rfl⟩
  enter_eq := fun _ ↦ rfl
  closing_eq := rfl
  depth_lt := fun _ hfits ↦ hfits.1
  ends := fun _ hholds ↦ hholds

theorem opensLevel_indefinite (isMap : Bool) :
    OpensLevel (.indefinite isMap) isMap ⟨.untilBreak, isMap, 0⟩ where
  value_eq := ⟨none, rfl⟩
  enter_eq := fun _ ↦ rfl
  closing_eq := rfl
  depth_lt := fun _ hfits ↦ hfits
  ends := fun members hholds hmap ↦ by
    change (0 + members) % 2 = 0
    rw [Nat.zero_add]
    exact hholds hmap

/-- Whether a cursor stands inside a container with given levels around it, before given members
and the bytes behind the container. -/
def Faces (decoder : Decoder) (outer : List Level) (nodes : List Node) (rest : Bytes) : Prop :=
  ∃ level : Level, level.Ends nodes.length ∧ AllWellFormed (outer.length + 1) nodes ∧
    decoder.Reaches (encodedAll nodes ++ (level.closing ++ rest)) (level :: outer)

/-- A cursor that enters a container faces all its members. -/
theorem faces_inside {start : Decoder} {tags : List Argument} {token : Token} {isMap : Bool}
    {level : Level} (hopens : OpensLevel token isMap level) {members : List Node}
    (hnode : (Node.mk tags token members).WellFormed start.depth) (rest : Bytes) :
    (start.inside (.mk tags token members) rest).Faces (countedLevels start.levels) members
      rest := by
  obtain ⟨_, _, hholds, hmembers⟩ := hnode
  refine ⟨level, hopens.ends _ hholds, by rwa [length_countedLevels], ?_⟩
  refine ⟨start.position + (encodedTags tags ++ token.encoded).length, ?_⟩
  rw [inside, behind, hopens.enter_eq, hopens.closing_eq, List.append_assoc]
  exact .refl _

namespace Faces

variable {decoder : Decoder} {outer : List Level} {rest : Bytes}

/-- Behind the last member the container is as good as left. -/
theorem reaches (hfaces : decoder.Faces outer [] rest) : decoder.Reaches rest outer := by
  obtain ⟨level, hends, _, position, hsettles⟩ := hfaces
  exact ⟨_, hsettles.trans (settles_of_ends hends rest position outer)⟩

/-- Before a member the cursor settles to one that asks for an item, and whoever has read the
member faces the others. -/
theorem exists_start {node : Node} {nodes : List Node}
    (hfaces : decoder.Faces outer (node :: nodes) rest) :
    ∃ (start : Decoder) (more : Bytes), decoder.Settles start ∧ start.Ready ∧
      start.depth = outer.length + 1 ∧ node.WellFormed start.depth ∧
      start.rest = node.encoded ++ more ∧
      ∀ after : Decoder, after.Reaches more (countedLevels start.levels) →
        after.Faces outer nodes rest := by
  obtain ⟨level, hends, ⟨hnode, hnodes⟩, position, hsettles⟩ := hfaces
  let more := encodedAll nodes ++ (level.closing ++ rest)
  rw [encodedAll, List.append_assoc] at hsettles
  refine ⟨⟨node.encoded ++ more, position, level :: outer⟩, more, hsettles,
    ready_of_member hends node more position outer, rfl, hnode, rfl, fun after hafter ↦ ?_⟩
  have hcounted : (level.counted 1).Ends nodes.length := by
    refine Level.Ends.counted ?_
    rwa [Nat.add_comm]
  refine ⟨level.counted 1, hcounted, hnodes, ?_⟩
  rw [level.closing_counted]
  rwa [countedLevels_cons] at hafter

/-- A leaf ahead is read at once. -/
theorem next_leaf {tags : List Argument} {atom : Leaf} {nodes : List Node}
    (hfaces : decoder.Faces outer (.mk tags (.leaf atom) [] :: nodes) rest) :
    ∃ (item : Item) (after : Decoder), next decoder = .ok item after ∧
      item.value = atom.value ∧ item.tags = tags.map (·.number) ∧
      after.Faces outer nodes rest := by
  obtain ⟨start, more, hsettles, hready, _, hnode, hrest, hothers⟩ := hfaces.exists_start
  exact ⟨_, _, next_of_node hsettles hready hnode hrest, rfl, rfl,
    hothers _ (reaches_inside_leaf start tags atom more)⟩

/-- A container ahead is entered, and whoever has read its members faces what follows it. -/
theorem next_container {tags : List Argument} {token : Token} {isMap : Bool} {level : Level}
    (hopens : OpensLevel token isMap level) {members nodes : List Node}
    (hfaces : decoder.Faces outer (.mk tags token members :: nodes) rest) :
    ∃ (item : Item) (after : Decoder) (inner : List Level) (more : Bytes),
      next decoder = .ok item after ∧ item.value = token.value ∧
      item.tags = tags.map (·.number) ∧ item.level = inner.length ∧
      after.Faces inner members more ∧
      ∀ last : Decoder, last.Reaches more inner → last.Faces outer nodes rest := by
  obtain ⟨start, more, hsettles, hready, _, hnode, hrest, hothers⟩ := hfaces.exists_start
  exact ⟨_, _, countedLevels start.levels, more, next_of_node hsettles hready hnode hrest, rfl, rfl,
    (length_countedLevels start.levels).symm, faces_inside hopens hnode more, hothers⟩

end Faces

/-- A container that is the whole input is entered, and all its members are to come. -/
theorem next_top {tags : List Argument} {token : Token} {isMap : Bool} {level : Level}
    (hopens : OpensLevel token isMap level) {members : List Node}
    (hnode : (Node.mk tags token members).WellFormed 0) :
    ∃ (item : Item) (after : Decoder),
      next (ofBytes (Node.mk tags token members).encoded) = .ok item after ∧
      item.value = token.value ∧ item.tags = tags.map (·.number) ∧ item.level = 0 ∧
      after.Faces [] members [] := by
  let start : Decoder := ofBytes (Node.mk tags token members).encoded
  have hrest : start.rest = (Node.mk tags token members).encoded ++ [] := (List.append_nil _).symm
  have hstart : (Node.mk tags token members).WellFormed start.depth := hnode
  have hnext := next_of_node (.refl start) (ready_top _ 0) hstart hrest
  have hfaces : (start.inside (.mk tags token members) []).Faces [] members [] :=
    faces_inside hopens hstart []
  exact ⟨_, _, hnext, rfl, rfl, rfl, hfaces⟩

end Decoder

/-! ### Sequences of readings -/

namespace Reading

open Decoder

variable {ε α β : Type}

/-- Two readings one after the other succeed if both do. -/
theorem run_bind {reading : Reading ε α} {following : α → Reading ε β} {first : α} {result : β}
    {before middle after : Decoder} (hfirst : reading.run before = .ok first middle)
    (hfollowing : (following first).run middle = .ok result after) :
    (reading >>= following).run before = .ok result after :=
  bind_eq_ok_iff.2 ⟨first, middle, hfirst, hfollowing⟩

theorem run_ofExcept {result : Except ε α} {value : α} (hresult : result = .ok value)
    (decoder : Decoder) : (ofExcept result).run decoder = .ok value decoder := by
  rw [hresult]
  rfl

/-- What is read from another encoding leaves the cursor where it stands. -/
theorem run_within {input : Bytes} {reading : Reading ε α} {result : α} {after : Decoder}
    (hrun : reading.run (ofBytes input) = .ok result after) (decoder : Decoder) :
    (within input reading).run decoder = .ok result decoder := by
  simp only [within, hrun]

theorem decode_eq_ok {reading : Reading ε α} {input : Bytes} {result : α} {after : Decoder}
    (hrun : reading.run (ofBytes input) = .ok result after) :
    decode reading input = .ok result := by
  rw [decode, hrun]

variable [CursorError ε]

theorem run_next {decoder after : Decoder} {item : Item}
    (hnext : Decoder.next decoder = .ok item after) :
    (next : Reading ε Item).run decoder = .ok item after := by
  change EStateM.adaptExcept CursorError.ofDecode Decoder.next decoder = _
  unfold EStateM.adaptExcept
  rw [hnext]

theorem run_ascendTo {minDepth : Nat} {decoder after : Decoder}
    (hascend : Decoder.ascendTo minDepth decoder = .ok () after) :
    (ascendTo minDepth : Reading ε Unit).run decoder = .ok () after := by
  change EStateM.adaptExcept CursorError.ofDecode (Decoder.ascendTo minDepth) decoder = _
  unfold EStateM.adaptExcept
  rw [hascend]

theorem run_finish {decoder after : Decoder} (hfinish : Decoder.finish decoder = .ok () after) :
    (finish : Reading ε Unit).run decoder = .ok () after := by
  change EStateM.adaptExcept CursorError.ofDecode Decoder.finish decoder = _
  unfold EStateM.adaptExcept
  rw [hfinish]

/-! ### Loops over members -/

variable {visit : β → Item → Reading ε β}

section Rounds

variable {level : Nat} {state : β} {before middle after : Decoder}
  (hlevel : before.nextLevel > level)
include hlevel

/-- A loop ends with the failure to deliver an item. -/
theorem runBelow_of_next_error {cause : DecodeError}
    (hnext : Decoder.next before = .error cause after) :
    runBelow level visit state before = .error (CursorError.ofDecode cause) after := by
  rw [runBelow, if_pos hlevel]
  split
  next found _ hfound =>
    cases hnext.symm.trans hfound
    rfl
  next hfound => cases hnext.symm.trans hfound

variable {item : Item} (hnext : Decoder.next before = .ok item middle)
include hnext

/-- A loop ends with the failure of a visit. -/
theorem runBelow_of_visit_error {cause : ε}
    (hvisit : (visit state item).run middle = .error cause after) :
    runBelow level visit state before = .error cause after := by
  rw [runBelow, if_pos hlevel]
  split
  next hfound => cases hnext.symm.trans hfound
  next hfound =>
    cases hnext.symm.trans hfound
    split
    next hfoundVisit =>
      cases hvisit.symm.trans hfoundVisit
      rfl
    next hfoundVisit => cases hvisit.symm.trans hfoundVisit

/-- A loop goes on from where a visit ends. -/
theorem runBelow_of_visit {visited : β}
    (hvisit : (visit state item).run middle = .ok visited after) :
    runBelow level visit state before = runBelow level visit visited after := by
  rw [runBelow, if_pos hlevel]
  split
  next hfound => cases hnext.symm.trans hfound
  next hfound =>
    cases hnext.symm.trans hfound
    split
    next hfoundVisit => cases hvisit.symm.trans hfoundVisit
    next hfoundVisit =>
      cases hvisit.symm.trans hfoundVisit
      rfl

end Rounds

/-- A loop visits the node ahead and goes on from where the visit ends. -/
theorem runBelow_of_node {bound : Nat} {initial visited : β} {decoder start after : Decoder}
    (hsettles : decoder.Settles start) (hready : start.Ready) (hbound : bound < start.depth)
    {node : Node} (hnode : node.WellFormed start.depth) {rest : Bytes}
    (hrest : start.rest = node.encoded ++ rest)
    (hvisit : (visit initial (start.itemOf node rest)).run (start.inside node rest) =
      .ok visited after) :
    runBelow bound visit initial decoder = runBelow bound visit visited after := by
  have hlevel : decoder.nextLevel > bound := by
    rw [hsettles.nextLevel_eq, hready.nextLevel_eq]
    exact hbound
  exact runBelow_of_visit hlevel (next_of_node hsettles hready hnode hrest) hvisit

/-- The same inside a container, for a visit of the item that comes next. -/
theorem runBelow_of_faces {initial visited : β} {decoder middle after : Decoder}
    {outer : List Level} {node : Node} {nodes : List Node} {rest : Bytes} {item : Item}
    (hfaces : decoder.Faces outer (node :: nodes) rest)
    (hnext : Decoder.next decoder = .ok item middle)
    (hvisit : (visit initial item).run middle = .ok visited after) :
    runBelow outer.length visit initial decoder = runBelow outer.length visit visited after := by
  obtain ⟨start, more, hsettles, hready, hdepth, hnode, hrest, _⟩ := hfaces.exists_start
  rw [next_of_node hsettles hready hnode hrest] at hnext
  cases hnext
  exact runBelow_of_node hsettles hready (Nat.le_of_eq hdepth.symm) hnode hrest hvisit

/-- A loop ends where the members have come to an end. -/
theorem runBelow_of_reaches {initial : β} {decoder : Decoder} {rest : Bytes} {outer : List Level}
    (hreaches : decoder.Reaches rest outer) :
    runBelow outer.length visit initial decoder = .ok initial decoder := by
  obtain ⟨position, hsettles⟩ := hreaches
  have hlevel : ¬decoder.nextLevel > outer.length := by
    rw [hsettles.nextLevel_eq]
    exact Nat.not_lt.2 (openLevels_le_length outer rest)
  rw [runBelow, if_neg hlevel]

end Reading

end Cose.Cbor
