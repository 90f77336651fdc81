import Cose.Proofs.Cbor.Decoder.Capture
import Cose.Proofs.Cbor.Extent
import Cose.Proofs.Cbor.Scanning

/-!
# Both parsers find the same end

The encoder and the cursor each find the end of an item on their own. The cursor enters every
container, also an empty one, and leaves it late, when the next item is asked for. The scan of the
encoder enters no empty container and leaves a level as soon as it is complete. It holds one counter
for each level, in which the largest number stands for an indefinite length, and it counts a tag as
an item before it takes that back (`Scan.countItems?`).

No counter is mistaken for an indefinite length on the way down or up, so the counters stand for the
items to come (`Scan.countItems?_eq`). What a cursor reads raw is a node, and over a node the scan
takes exactly the node: both end at the same place (`boundaries_exact`). The scan alone goes on
where the cursor fails, at text that is not UTF-8, at any number of tags, and at a map without a
length that ends behind a label.
-/

set_option autoImplicit false
set_option relaxedAutoImplicit false

namespace Cose.Cbor

/-! ### Counters -/

/-- The counter of a level of indefinite length. -/
def endless : UInt64 := 0xffffffffffffffff

/-- One item fewer, unless the length is indefinite. -/
def countDown (counter : UInt64) : UInt64 :=
  if counter = endless then counter else counter - 1

/-- One item more, unless the length is indefinite. -/
def countUp (counter : UInt64) : UInt64 :=
  if counter = endless then counter else counter + 1

/-- The counter for the members of an array or map. The members of a map are counted one by one, and
there must be a number for them. -/
def Head.memberCounter? (head : Head) : Option UInt64 :=
  if head.isIndefinite then some endless
  else if head.major = .map then
    if head.argument.toNat * 2 < 2 ^ 64 then some (head.argument * 2) else none
  else some head.argument

namespace Pending

/-- The counter that stands for the items to come at a level. -/
def counter : Pending → UInt64
  | items count => UInt64.ofNat count
  | untilBreak => endless

/-- Whether a counter can stand for the items to come, and for nothing else. -/
def IsCountable : Pending → Prop
  | items count => count < 2 ^ 64 - 1
  | untilBreak => True

theorem toNat_counter {count : Nat} (hcount : (items count).IsCountable) :
    (items count).counter.toNat = count :=
  UInt64.toNat_ofNat_of_lt' (Nat.lt_of_lt_of_le hcount (Nat.sub_le _ _))

theorem counter_items_ne_endless {count : Nat} (hcount : (items count).IsCountable) :
    (items count).counter ≠ endless := by
  intro hendless
  have hvalue := (toNat_counter hcount).symm.trans (congrArg UInt64.toNat hendless)
  exact Nat.ne_of_lt hcount hvalue

theorem counter_eq_endless_iff {level : Pending} (hlevel : level.IsCountable) :
    level.counter = endless ↔ level = untilBreak := by
  cases level with
  | items count =>
    exact ⟨fun hendless ↦ absurd hendless (counter_items_ne_endless hlevel),
      fun hbreak ↦ by cases hbreak⟩
  | untilBreak => exact ⟨fun _ ↦ rfl, fun _ ↦ rfl⟩

theorem counter_eq_zero_iff {level : Pending} (hlevel : level.IsCountable) :
    level.counter = 0 ↔ level = items 0 := by
  cases level with
  | items count =>
    rw [← UInt64.toNat_inj, toNat_counter hlevel]
    exact ⟨fun hzero ↦ congrArg items hzero, fun hzero ↦ items.inj hzero⟩
  | untilBreak =>
    exact ⟨fun hzero ↦ absurd hzero (by decide), fun hitems ↦ by cases hitems⟩

theorem IsCountable.pred {level : Pending} (hlevel : level.IsCountable) :
    level.pred.IsCountable := by
  cases level with
  | items count => exact Nat.lt_of_le_of_lt (Nat.sub_le _ _) hlevel
  | untilBreak => trivial

/-- Counting down is one item fewer. -/
theorem countDown_counter {level : Pending} (hlevel : level.IsCountable)
    (hopen : level ≠ items 0) : countDown level.counter = level.pred.counter := by
  cases level with
  | items count =>
    have hpositive : 0 < count := Nat.pos_of_ne_zero fun hzero ↦ hopen (congrArg items hzero)
    have hone : (1 : UInt64) ≤ (items count).counter := by
      rw [UInt64.le_iff_toNat_le, toNat_counter hlevel]
      exact hpositive
    have hfewer : (items (count - 1)).counter.toNat = count - 1 := toNat_counter hlevel.pred
    rw [countDown, if_neg (counter_items_ne_endless hlevel), pred, ← UInt64.toNat_inj,
      UInt64.toNat_sub_of_le _ _ hone, toNat_counter hlevel, hfewer]
    rfl
  | untilBreak => rfl

/-- Counting up takes back one item fewer. -/
theorem countUp_counter_pred {level : Pending} (hlevel : level.IsCountable)
    (hopen : level ≠ items 0) : countUp level.pred.counter = level.counter := by
  cases level with
  | items count =>
    have hpositive : 0 < count := Nat.pos_of_ne_zero fun hzero ↦ hopen (congrArg items hzero)
    have hcount : count < 2 ^ 64 - 1 := hlevel
    have hfewer : (items (count - 1)).counter.toNat = count - 1 := toNat_counter hlevel.pred
    rw [pred, countUp, if_neg (counter_items_ne_endless hlevel.pred), ← UInt64.toNat_inj,
      UInt64.toNat_add, hfewer, toNat_counter hlevel]
    change (count - 1 + 1) % 2 ^ 64 = count
    omega
  | untilBreak => rfl

theorem isCountable_of_ofHead? {head : Head} {members : Pending}
    (hmembers : ofHead? head = some members) : members.IsCountable := by
  have hargument := head.argument.toNat_lt
  unfold ofHead? at hmembers
  split_ifs at hmembers with hindefinite hmap hsmall hlargest <;> cases hmembers
  · trivial
  · change 2 * head.argument.toNat < 2 ^ 64 - 1
    omega
  · trivial
  · change head.argument.toNat < 2 ^ 64 - 1
    omega

end Pending

/-- The counter for the members stands for what the head announces. -/
theorem Head.memberCounter?_eq (head : Head) :
    head.memberCounter? = (Pending.ofHead? head).map Pending.counter := by
  unfold Head.memberCounter? Pending.ofHead?
  by_cases hindefinite : head.isIndefinite
  · rw [if_pos hindefinite, if_pos hindefinite]
    rfl
  rw [if_neg hindefinite, if_neg hindefinite]
  by_cases hmap : head.major = .map
  · rw [if_pos hmap, if_pos hmap]
    by_cases hsmall : head.argument.toNat < 2 ^ 63
    · rw [if_pos hsmall, if_pos (by omega)]
      refine congrArg some (UInt64.toNat_inj.1 ?_)
      change _ = (UInt64.ofNat (2 * head.argument.toNat)).toNat
      rw [UInt64.toNat_mul, UInt64.toNat_ofNat', Nat.mul_comm]
      rfl
    · rw [if_neg hsmall, if_neg (by omega)]
      rfl
  rw [if_neg hmap, if_neg hmap]
  by_cases hlargest : head.argument.toNat = 2 ^ 64 - 1
  · rw [if_pos hlargest]
    exact congrArg some (UInt64.toNat_inj.1 hlargest)
  · rw [if_neg hlargest]
    exact congrArg some UInt64.ofNat_toNat.symm

/-! ### The scan with counters -/

namespace Scan

/-- Take an item for the head at the position, and find out how many bytes of content stand behind
the head and what is to come then. A container that is not empty opens a level, if there is room for
one, and a tag has its item still to come. -/
def settle? (head : Head) (behind : Bytes) (counter : UInt64) (outer : List UInt64) :
    Option (Nat × UInt64 × List UInt64) :=
  let fewer := countDown counter
  match head.major with
  | .bytes | .text =>
    if head.isIndefinite then none
    else if reaches head.argument.toNat behind then some (head.argument.toNat, fewer, outer)
    else none
  | .array | .map =>
    match head.memberCounter? with
    | none => none
    | some members =>
      if members = 0 then some (0, fewer, outer)
      else if outer.length ≥ maxNesting then none
      else some (0, members, fewer :: outer)
  | .tag => some (0, countUp fewer, outer)
  | .unsigned | .negative | .simple => some (0, fewer, outer)

/-- Scan until no item is to come, with a counter for the innermost level and one for each level
around it. Only a level of indefinite length inside another one takes a break. -/
def countItems? (rest : Bytes) (taken : Nat) (counter : UInt64) (outer : List UInt64) :
    Option Nat :=
  if counter = 0 then
    match outer with
    | [] => some taken
    | around :: outer => countItems? rest taken around outer
  else
    match rest with
    | [] => none
    | first :: rest =>
      if first = breakByte then
        if outer = [] ∨ counter ≠ endless then none else countItems? rest (taken + 1) 0 outer
      else
        match _hread : Head.read (first :: rest) with
        | .error _ => none
        | .ok head =>
          match settle? head ((first :: rest).drop head.length) counter outer with
          | none => none
          | some (content, counter, outer) =>
            countItems? ((first :: rest).drop (head.length + content))
              (taken + (head.length + content)) counter outer
termination_by (rest.length, outer.length)
decreasing_by
  · exact Prod.Lex.right _ (Nat.lt_succ_self _)
  · exact Prod.Lex.left _ _ (Nat.lt_succ_self _)
  · have hhead := Head.length_of_read _hread
    refine Prod.Lex.left _ _ ?_
    simp only [List.length_drop, List.length_cons] at hhead ⊢
    omega

/-- The counters of levels. -/
def counters (levels : List Pending) : List UInt64 := levels.map Pending.counter

/-- Whether the counters of levels stand for nothing else, with a number of items to come at the
outermost level. -/
def AreCountable (levels : List Pending) : Prop :=
  (∀ level ∈ levels, level.IsCountable) ∧ levels.getLast? ≠ some .untilBreak

namespace AreCountable

variable {level : Pending} {outer : List Pending}

theorem tail (hlevels : AreCountable (level :: outer)) : AreCountable outer := by
  refine ⟨(List.forall_mem_cons.1 hlevels.1).2, fun hlast ↦ hlevels.2 ?_⟩
  rw [List.getLast?_cons, hlast]
  rfl

theorem ne_nil (hlevels : AreCountable (.untilBreak :: outer)) : outer ≠ [] := by
  rintro rfl
  exact hlevels.2 rfl

theorem pred (hlevels : AreCountable (level :: outer)) : AreCountable (level.pred :: outer) := by
  obtain ⟨hlevel, houter⟩ := List.forall_mem_cons.1 hlevels.1
  refine ⟨List.forall_mem_cons.2 ⟨hlevel.pred, houter⟩, fun hlast ↦ hlevels.2 ?_⟩
  cases level with
  | items count =>
    cases outer with
    | nil => cases hlast
    | cons around outer => exact hlast
  | untilBreak => exact hlast

theorem counter_ne_zero (hlevels : AreCountable (level :: outer)) (hopen : level ≠ .items 0) :
    level.counter ≠ 0 := by
  intro hzero
  have hlevel := (List.forall_mem_cons.1 hlevels.1).1
  exact hopen ((Pending.counter_eq_zero_iff hlevel).1 hzero)

theorem push (hlevels : AreCountable (level :: outer)) {members : Pending}
    (hmembers : members.IsCountable) : AreCountable (members :: level :: outer) :=
  ⟨List.forall_mem_cons.2 ⟨hmembers, hlevels.1⟩, hlevels.2⟩

end AreCountable

/-- A level that is complete is left. -/
theorem countItems?_counters_cons (rest : Bytes) (taken : Nat) (level : Pending)
    (outer : List Pending) :
    countItems? rest taken 0 (counters (level :: outer)) =
      countItems? rest taken level.counter (counters outer) := by
  rw [countItems?.eq_def, if_pos rfl]
  rfl

/-- Whether both forms of the scan refuse a head, or both move over the same bytes, to the counters
of the same levels. -/
def SettlesAlike (head : Head) (rest : Bytes) (taken : Nat) (level : Pending)
    (outer : List Pending) : Prop :=
  (step? rest taken level outer = none ∧
    settle? head (rest.drop head.length) level.counter (counters outer) = none) ∨
  ∃ content next around,
    step? rest taken level outer =
        some (advance rest taken (head.length + content) (next :: around)) ∧
      settle? head (rest.drop head.length) level.counter (counters outer) =
        some (content, next.counter, counters around) ∧
      AreCountable (next :: around)

section Steps

variable {rest : Bytes} {head : Head} (hread : Head.read rest = .ok head) (taken : Nat)
  {level : Pending} {outer : List Pending} (hlevels : AreCountable (level :: outer))
  (hopen : level ≠ .items 0)

include hread hlevels hopen

theorem settlesAlike_string (hmajor : head.major = .bytes ∨ head.major = .text) :
    SettlesAlike head rest taken level outer := by
  have hfewer := Pending.countDown_counter (List.forall_mem_cons.1 hlevels.1).1 hopen
  have hreaches : reaches head.argument.toNat (rest.drop head.length) =
      reaches (head.length + head.argument.toNat) rest := by
    have hhead := Head.length_of_read hread
    rw [Bool.eq_iff_iff, reaches_eq_true_iff, reaches_eq_true_iff, List.length_drop]
    omega
  by_cases hindefinite : head.isIndefinite
  · left
    rcases hmajor with hmajor | hmajor <;> simp [step?, settle?, hread, hmajor, hindefinite]
  by_cases hinside : reaches (head.length + head.argument.toNat) rest
  · right
    refine ⟨head.argument.toNat, level.pred, outer, ?_, ?_, hlevels.pred⟩
    · rcases hmajor with hmajor | hmajor <;> simp [step?, hread, hmajor, hindefinite, hinside]
    · rcases hmajor with hmajor | hmajor <;>
        simp [settle?, hmajor, hindefinite, hreaches, hinside, hfewer]
  · left
    rcases hmajor with hmajor | hmajor <;>
      simp [step?, settle?, hread, hmajor, hindefinite, hreaches, hinside]

theorem settlesAlike_container (hmajor : head.major = .array ∨ head.major = .map) :
    SettlesAlike head rest taken level outer := by
  have hfewer := Pending.countDown_counter (List.forall_mem_cons.1 hlevels.1).1 hopen
  have hcounter := head.memberCounter?_eq
  cases hmembers : Pending.ofHead? head with
  | none =>
    rw [hmembers] at hcounter
    left
    rcases hmajor with hmajor | hmajor <;>
      simp [step?, settle?, hread, hmajor, hmembers, hcounter]
  | some members =>
    have hcountable := Pending.isCountable_of_ofHead? hmembers
    have hzero := Pending.counter_eq_zero_iff hcountable
    rw [hmembers] at hcounter
    by_cases hempty : members = .items 0
    · right
      refine ⟨0, level.pred, outer, ?_, ?_, hlevels.pred⟩
      · rcases hmajor with hmajor | hmajor <;> simp [step?, hread, hmajor, hmembers, hempty]
      · rcases hmajor with hmajor | hmajor <;>
          simp [settle?, hmajor, hcounter, hzero.2 hempty, hfewer]
    by_cases hdepth : outer.length ≥ maxNesting
    · left
      rcases hmajor with hmajor | hmajor <;>
        simp [step?, settle?, hread, hmajor, hmembers, hcounter, hzero, hempty, hdepth, counters]
    · right
      refine ⟨0, members, level.pred :: outer, ?_, ?_, hlevels.pred.push hcountable⟩
      · rcases hmajor with hmajor | hmajor <;> simp [step?, hread, hmajor, hmembers, hdepth]
      · rcases hmajor with hmajor | hmajor <;>
          simp [settle?, hmajor, hcounter, hzero, hempty, hdepth, hfewer, counters]

/-- Behind a head both forms agree. -/
theorem settlesAlike : SettlesAlike head rest taken level outer := by
  have hlevel := (List.forall_mem_cons.1 hlevels.1).1
  have hfewer := Pending.countDown_counter hlevel hopen
  cases hmajor : head.major with
  | bytes => exact settlesAlike_string hread taken hlevels hopen (.inl hmajor)
  | text => exact settlesAlike_string hread taken hlevels hopen (.inr hmajor)
  | array => exact settlesAlike_container hread taken hlevels hopen (.inl hmajor)
  | map => exact settlesAlike_container hread taken hlevels hopen (.inr hmajor)
  | tag =>
    right
    refine ⟨0, level, outer, ?_, ?_, hlevels⟩
    · simp [step?, hread, hmajor]
    · simp [settle?, hmajor, hfewer, Pending.countUp_counter_pred hlevel hopen]
  | unsigned | negative | simple =>
    right
    refine ⟨0, level.pred, outer, ?_, ?_, hlevels.pred⟩
    · simp [step?, hread, hmajor]
    · simp [settle?, hmajor, hfewer]

end Steps

/-- Both forms of the scan end at the same place. The scan with counters is one level ahead: the
counter of a level that a break closed is still there, and zero. -/
theorem countItems?_eq (scan : Scan) (hlevels : AreCountable scan.levels) :
    countItems? scan.rest scan.taken 0 (counters scan.levels) = finish? scan := by
  fun_induction finish? scan with
  | case1 rest taken => rw [counters, List.map_nil, countItems?.eq_def, if_pos rfl]
  | case2 rest taken outer ih =>
    exact (countItems?_counters_cons rest taken (.items 0) outer).trans (ih hlevels.tail)
  | case3 taken level outer hopen =>
    rw [countItems?_counters_cons, countItems?.eq_def, if_neg (hlevels.counter_ne_zero hopen)]
  | case4 rest taken outer hopen ih =>
    have hinside : counters outer ≠ [] := by
      rw [counters, ne_eq, List.map_eq_nil_iff]
      exact hlevels.ne_nil
    have hgoes : ¬(counters outer = [] ∨ Pending.untilBreak.counter ≠ endless) := by
      rintro (houter | hcounter)
      · exact hinside houter
      · exact hcounter rfl
    rw [countItems?_counters_cons, countItems?.eq_def, if_neg (hlevels.counter_ne_zero hopen)]
    dsimp only
    rw [if_pos rfl, if_neg hgoes]
    exact ih hlevels.tail
  | case5 rest taken level outer hopen hbreak =>
    have hlevel := (List.forall_mem_cons.1 hlevels.1).1
    have hcounter : level.counter ≠ endless :=
      fun hendless ↦ hbreak ((Pending.counter_eq_endless_iff hlevel).1 hendless)
    rw [countItems?_counters_cons, countItems?.eq_def, if_neg (hlevels.counter_ne_zero hopen)]
    dsimp only
    rw [if_pos rfl, if_pos (.inr hcounter)]
  | case6 first rest taken level outer hopen hbreak hstep =>
    rw [countItems?_counters_cons, countItems?.eq_def, if_neg (hlevels.counter_ne_zero hopen)]
    dsimp only
    rw [if_neg hbreak]
    split
    · rfl
    next head hread =>
      rcases settlesAlike hread taken hlevels hopen with ⟨_, hsettle⟩ | ⟨_, _, _, hsome, _⟩
      · rw [hsettle]
      · rw [hstep] at hsome
        cases hsome
  | case7 first rest taken level outer hopen hbreak next hstep ih =>
    rw [countItems?_counters_cons, countItems?.eq_def, if_neg (hlevels.counter_ne_zero hopen)]
    dsimp only
    rw [if_neg hbreak]
    split
    next cause hread =>
      rw [step?, hread] at hstep
      cases hstep
    next head hread =>
      rcases settlesAlike hread taken hlevels hopen with
        ⟨hnone, _⟩ | ⟨content, inner, around, hsome, hsettle, hafter⟩
      · rw [hstep] at hnone
        cases hnone
      · rw [hstep] at hsome
        cases hsome
        rw [hsettle]
        exact (countItems?_counters_cons _ _ inner around).symm.trans (ih hafter)

end Scan

/-- The number of bytes of the item at the start of a byte string, found with counters. -/
def countedLength? (bytes : Bytes) : Option Nat := Scan.countItems? bytes 0 1 []

theorem countedLength?_eq (bytes : Bytes) : countedLength? bytes = itemLength? bytes := by
  have hlevels : Scan.AreCountable [.items 1] :=
    ⟨List.forall_mem_singleton.2 (by decide : 1 < 2 ^ 64 - 1), by decide⟩
  exact (Scan.countItems?_counters_cons bytes 0 (.items 1) []).symm.trans
    (Scan.countItems?_eq ⟨bytes, 0, [.items 1]⟩ hlevels)

/-! ### Where an item ends -/

variable {ε : Type} [CursorError ε]

/-- What a new cursor reads raw is what the scan takes. -/
theorem itemLength?_of_run_nextRaw {bytes raw : Bytes} {item : Item} {after : Decoder}
    (hrun : (Reading.nextRaw : Reading ε (Item × Bytes)).run (.ofBytes bytes) =
      .ok (item, raw) after) :
    itemLength? bytes = some raw.length ∧ bytes = raw ++ after.rest := by
  obtain ⟨start, node, hcaptures⟩ := Reading.captures_of_run_nextRaw hrun
  have htop : Decoder.ascendTo 0 (.ofBytes bytes) = .ok () (.ofBytes bytes) :=
    (Decoder.ready_top bytes 0).ascendTo_eq
  have hstart : start = .ofBytes bytes := by
    have hsame := hcaptures.ascendTo_eq.symm.trans htop
    cases hsame
    rfl
  subst hstart
  have hbytes : bytes = node.encoded ++ after.rest := hcaptures.rest_eq
  rw [hcaptures.raw_eq]
  refine ⟨?_, hbytes⟩
  rw [hbytes]
  exact itemLength?_encoded (Node.WellFormed.regular node hcaptures.wellFormed) after.rest

/-- The encoder and the cursor agree on where an item ends. Whenever a new cursor reads an item raw,
the scan finds as many bytes as the item has, also with its counters; and the end that the scan
finds, in whatever bytes, it finds in the bytes in front of it alone, with anything behind them. -/
theorem boundaries_exact (bytes : Bytes) :
    countedLength? bytes = itemLength? bytes ∧
      (∀ {item raw after}, (Reading.nextRaw : Reading ε (Item × Bytes)).run (.ofBytes bytes) =
          .ok (item, raw) after →
        itemLength? bytes = some raw.length ∧ bytes = raw ++ after.rest) ∧
      ∀ {length}, itemLength? bytes = some length →
        length ≤ bytes.length ∧
          ∀ suffix, itemLength? (bytes.take length ++ suffix) = some length :=
  ⟨countedLength?_eq bytes, itemLength?_of_run_nextRaw, fun hlength ↦
    ⟨(bounds_of_itemLength? hlength).2, itemLength?_take_append hlength⟩⟩

/-- A tagged map without a length holds a definite array, in which an array is empty and a tag leads
to a byte string with the byte of a break, and an array without a length that holds an empty map. A
break that ends nothing follows, and a reserved head. -/
theorem boundaries_exact_nested :
    itemLength? [0xc1, 0xbf, 0x01, 0x82, 0x80, 0xc2, 0x41, 0xff, 0x02, 0x9f, 0xa0, 0xff, 0xff,
        0xff, 0x1c] = some 13 ∧
      ∀ suffix, itemLength? ([0xc1, 0xbf, 0x01, 0x82, 0x80, 0xc2, 0x41, 0xff, 0x02, 0x9f, 0xa0,
        0xff, 0xff] ++ suffix) = some 13 := by
  have hrun : (Reading.nextRaw : Reading DecodeError (Item × Bytes)).run
        (.ofBytes [0xc1, 0xbf, 0x01, 0x82, 0x80, 0xc2, 0x41, 0xff, 0x02, 0x9f, 0xa0, 0xff, 0xff,
          0xff, 0x1c]) =
      .ok (⟨.map none, 0, 1, [1]⟩, [0xc1, 0xbf, 0x01, 0x82, 0x80, 0xc2, 0x41, 0xff, 0x02, 0x9f,
          0xa0, 0xff, 0xff]) ⟨[0xff, 0x1c], 13, []⟩ := by with_unfolding_all rfl
  have hlength := ((boundaries_exact (ε := DecodeError) _).2.1 hrun).1
  exact ⟨hlength, ((boundaries_exact (ε := DecodeError) _).2.2 hlength).2⟩

end Cose.Cbor
