import Mathlib.Tactic.Common
import Cose.Proofs.Cbor.Argument
import Cose.Proofs.Cbor.MapOrder

/-!
# Scans see no further than they go

The scan for the end of an item depends on the bytes of the item alone: whatever is put behind them,
it ends at the same place (`itemLength?_take_append`). So an entry of a map is found again wherever
it is moved to.

The scan keeps the items still to come at each level in an array with room for one level more than
may be nested. `Scan.walk?` is the scan with a look at the index of the innermost level, at the
counts and at the position in each round, and `Scan.walk?_eq` says that they are in range.
-/

set_option autoImplicit false
set_option relaxedAutoImplicit false

namespace Cose.Cbor

/-! ### What lies behind an item does not matter -/

/-- A head is read from its own bytes. -/
theorem Head.read_take_append {bytes : Bytes} {head : Head} (hread : Head.read bytes = .ok head)
    {count : Nat} (hcount : head.length ≤ count) (more : Bytes) :
    Head.read (bytes.take count ++ more) = .ok head := by
  rcases Head.cases_of_read hread with ⟨argument, rest, rfl, hhead⟩ | ⟨rest, rfl, hdefinite, hhead⟩
  · have hlength : head.length = (argument.head head.major).length := by
      rw [hhead, Argument.length_head]
      rfl
    rw [List.take_append, List.take_of_length_le (hlength ▸ hcount), List.append_assoc,
      Argument.read_head, ← hhead]
  · obtain ⟨fewer, rfl⟩ : ∃ fewer, count = fewer + 1 := by
      refine ⟨count - 1, ?_⟩
      rw [hhead] at hcount
      simp only [indefiniteRead] at hcount
      omega
    rw [List.take_succ_cons, List.cons_append, read_indefiniteHead hdefinite, ← hhead]

namespace Scan

/-- Whether a step of a scan moves over bytes that it depends on alone, whatever is behind them. -/
def StepsLocally (rest : Bytes) (taken : Nat) (level : Pending) (outer : List Pending)
    (next : Scan) : Prop :=
  ∃ moved levels, moved ≤ rest.length ∧ next = advance rest taken moved levels ∧
    ∀ count, moved ≤ count → ∀ more, step? (rest.take count ++ more) taken level outer =
      some (advance (rest.take count ++ more) taken moved levels)

theorem stepsLocally {rest : Bytes} {taken : Nat} {level : Pending} {outer : List Pending}
    {next : Scan} (hstep : step? rest taken level outer = some next) :
    StepsLocally rest taken level outer next := by
  cases hread : Head.read rest with
  | error cause =>
    rw [step?, hread] at hstep
    cases hstep
  | ok head =>
    have hhead := Head.length_of_read hread
    -- Where the head alone decides on the step, the step ends with the head.
    have hplain (levels : List Pending) (hsame : ∀ bytes, Head.read bytes = .ok head →
        step? bytes taken level outer = some (advance bytes taken head.length levels)) :
        StepsLocally rest taken level outer next :=
      ⟨head.length, levels, hhead.2, Option.some.inj (hstep.symm.trans (hsame rest hread)),
        fun count hcount more ↦ hsame _ (Head.read_take_append hread hcount more)⟩
    -- A string ends with its content.
    have hstring (hmajor : head.major = .bytes ∨ head.major = .text) :
        StepsLocally rest taken level outer next := by
      have hsame {bytes : Bytes} (hbytes : Head.read bytes = .ok head) :
          step? bytes taken level outer =
            if head.isIndefinite then none
            else if reaches (head.length + head.argument.toNat) bytes then
              some (advance bytes taken (head.length + head.argument.toNat) (level.pred :: outer))
            else none := by
        rcases hmajor with hmajor | hmajor <;> simp only [step?, hbytes, hmajor]
      rw [hsame hread] at hstep
      split at hstep
      · cases hstep
      next hdefinite =>
        split at hstep
        next hreaches =>
          have hlength := (reaches_eq_true_iff _ _).1 hreaches
          refine ⟨_, _, hlength, (Option.some.inj hstep).symm, fun count hcount more ↦ ?_⟩
          rw [hsame (Head.read_take_append hread (Nat.le_of_add_right_le hcount) more),
            if_neg hdefinite, if_pos]
          rw [reaches_eq_true_iff, List.length_append, List.length_take]
          omega
        · cases hstep
    cases hmajor : head.major with
    | bytes => exact hstring (.inl hmajor)
    | text => exact hstring (.inr hmajor)
    | tag => exact hplain (level :: outer) fun bytes hbytes ↦ by simp only [step?, hbytes, hmajor]
    | unsigned | negative | simple =>
      exact hplain (level.pred :: outer) fun bytes hbytes ↦ by simp only [step?, hbytes, hmajor]
    | array | map =>
      simp only [step?, hread, hmajor] at hstep
      split at hstep
      · cases hstep
      next hmembers =>
        exact hplain (level.pred :: outer) fun bytes hbytes ↦ by
          simp only [step?, hbytes, hmajor, hmembers]
      next members hempty hmembers =>
        split at hstep
        · cases hstep
        next hdepth =>
          exact hplain (members :: level.pred :: outer) fun bytes hbytes ↦ by
            simp only [step?, hbytes, hmajor, hmembers, if_neg hdepth]

/-- A scan sees no further than to its end. -/
theorem finish?_take_append {scan : Scan} {length : Nat} (hfinish : finish? scan = some length)
    (more : Bytes) :
    finish? ⟨scan.rest.take (length - scan.taken) ++ more, scan.taken, scan.levels⟩ =
      some length := by
  fun_induction finish? scan with
  | case1 rest taken => rw [finish?]; exact hfinish
  | case2 rest taken outer ih =>
    rw [finish?]
    exact ih hfinish
  | case3 => simp at hfinish
  | case4 rest taken outer _ ih =>
    have hbounds := bounds_of_finish? hfinish
    have hrest := ih hfinish
    dsimp only at hbounds hrest ⊢
    rw [show length - taken = length - (taken + 1) + 1 by omega, List.take_succ_cons,
      List.cons_append, finish?, if_pos rfl, if_pos rfl]
    · exact hrest
    · exact fun hzero ↦ by cases hzero
  | case5 => simp at hfinish
  | case6 => simp at hfinish
  | case7 first rest taken level outer hlevel hbreak next hstep ih =>
    have hrest := ih hfinish
    obtain ⟨moved, levels, hmoved, rfl, hlocal⟩ := stepsLocally hstep
    obtain ⟨hle, _⟩ := bounds_of_finish? hfinish
    have hpositive := length_of_step? hstep
    dsimp only [advance] at hrest hle hpositive ⊢
    rw [List.length_drop] at hpositive
    have hcount : moved ≤ length - taken := by omega
    have hdropped : ((first :: rest).take (length - taken) ++ more).drop moved =
        ((first :: rest).drop moved).take (length - (taken + moved)) ++ more := by
      rw [List.drop_append_of_le_length (by rw [List.length_take]; omega), List.drop_take,
        Nat.sub_add_eq]
    have hnext := hlocal (length - taken) hcount more
    rw [advance, hdropped] at hnext
    rw [show length - taken = length - taken - 1 + 1 by omega, List.take_succ_cons,
      List.cons_append] at hnext ⊢
    rw [finish?, if_neg hbreak]
    · split
      next hnone => rw [hnext] at hnone; cases hnone
      next step hsome =>
        rw [hnext] at hsome
        cases hsome
        exact hrest
    · exact hlevel

end Scan

/-- An item is scanned the same whatever is behind it. -/
theorem itemLength?_take_append {bytes : Bytes} {length : Nat}
    (hlength : itemLength? bytes = some length) (more : Bytes) :
    itemLength? (bytes.take length ++ more) = some length :=
  Scan.finish?_take_append hlength more

/-- An entry is found the same whatever is behind it. -/
theorem Entry.first?_encoded_append {bytes : Bytes} {entry : Entry}
    (hfirst : Entry.first? bytes = some entry) (more : Bytes) :
    Entry.first? (entry.encoded ++ more) = some entry := by
  unfold Entry.first? at hfirst
  split at hfirst
  · cases hfirst
  next labelLength hlabel =>
    dsimp only at hfirst
    split at hfirst
    · cases hfirst
    next valueLength hvalue =>
      cases hfirst
      have hbounds := bounds_of_itemLength? hlabel
      have hlabelBytes : (bytes.take labelLength).length = labelLength := by
        rw [List.length_take]
        omega
      have hvalueBytes :
          ((bytes.drop labelLength).take valueLength).length = valueLength := by
        have hbounds := bounds_of_itemLength? hvalue
        rw [List.length_take]
        omega
      have hlabelAgain := itemLength?_take_append hlabel
        ((bytes.drop labelLength).take valueLength ++ more)
      have hvalueAgain := itemLength?_take_append hvalue more
      rw [Entry.encoded, List.append_assoc]
      simp only [Entry.first?, hlabelAgain]
      rw [List.drop_left' hlabelBytes, List.take_left' hlabelBytes]
      simp only [hvalueAgain]
      rw [List.take_left' hvalueBytes]

/-! ### Scans in range -/

/-- Whether a count of items fits in 64 bits. -/
def Pending.IsWord : Pending → Prop
  | items count => count < 2 ^ 64
  | untilBreak => True

instance : DecidablePred Pending.IsWord
  | .items count => inferInstanceAs (Decidable (count < 2 ^ 64))
  | .untilBreak => inferInstanceAs (Decidable True)

theorem Pending.IsWord.pred {level : Pending} (hlevel : level.IsWord) : level.pred.IsWord := by
  cases level with
  | items count => exact Nat.lt_of_le_of_lt (Nat.sub_le _ _) hlevel
  | untilBreak => trivial

theorem Pending.isWord_of_ofHead? {head : Head} {members : Pending}
    (hmembers : Pending.ofHead? head = some members) : members.IsWord := by
  unfold Pending.ofHead? at hmembers
  split_ifs at hmembers with hindefinite hmap hsmall hlargest
  · cases hmembers
    trivial
  · cases hmembers
    change 2 * head.argument.toNat < 2 ^ 64
    omega
  · cases hmembers
    trivial
  · cases hmembers
    exact head.argument.toNat_lt

namespace Scan

/-- Whether the numbers of a scan over given bytes are in range: the index of the innermost level,
where there is room for one level more than may be nested, the items to come, and the position. -/
def InRange (size : Nat) (scan : Scan) : Prop :=
  scan.levels.length ≤ maxNesting + 1 ∧ (∀ level ∈ scan.levels, level.IsWord) ∧
    scan.taken + scan.rest.length = size

instance (size : Nat) : DecidablePred (InRange size) := fun _ ↦
  inferInstanceAs (Decidable (_ ∧ _ ∧ _))

/-- Scan as `finish?` does, and look at the numbers of each round. -/
def walk? (size : Nat) (scan : Scan) : Option (Option Nat) :=
  if InRange size scan then
    match scan with
    | ⟨_, taken, []⟩ => some (some taken)
    | ⟨rest, taken, .items 0 :: outer⟩ => walk? size ⟨rest, taken, outer⟩
    | ⟨[], _, _ :: _⟩ => some none
    | ⟨first :: rest, taken, level :: outer⟩ =>
      if first = breakByte then
        if level = .untilBreak then walk? size ⟨rest, taken + 1, outer⟩ else some none
      else
        match _hstep : step? (first :: rest) taken level outer with
        | none => some none
        | some next => walk? size next
  else none
termination_by (scan.rest.length, scan.levels.length)
decreasing_by
  · exact Prod.Lex.right _ (Nat.lt_succ_self _)
  · exact Prod.Lex.left _ _ (Nat.lt_succ_self _)
  · exact Prod.Lex.left _ _ (length_of_step? _hstep)

/-- What is open after a step: the levels from before, with one item fewer to come unless a tag was
scanned, and the level of a container. -/
theorem levels_of_step? {rest : Bytes} {taken : Nat} {level : Pending} {outer : List Pending}
    {next : Scan} (hstep : step? rest taken level outer = some next) :
    next.levels = level :: outer ∨ next.levels = level.pred :: outer ∨
      ∃ members, members.IsWord ∧ outer.length < maxNesting ∧
        next.levels = members :: level.pred :: outer := by
  unfold step? at hstep
  split at hstep
  · cases hstep
  · split at hstep
    case h_1 | h_2 =>
      dsimp only at hstep
      split_ifs at hstep
      cases hstep
      exact .inr (.inl rfl)
    case h_3 | h_4 =>
      split at hstep
      · cases hstep
      · cases hstep
        exact .inr (.inl rfl)
      next members hempty hmembers =>
        split_ifs at hstep with hdepth
        cases hstep
        exact .inr (.inr ⟨members, Pending.isWord_of_ofHead? hmembers,
          Nat.lt_of_not_ge hdepth, rfl⟩)
    case h_5 =>
      cases hstep
      exact .inl rfl
    all_goals
      cases hstep
      exact .inr (.inl rfl)

theorem InRange.step {size : Nat} {rest : Bytes} {taken : Nat} {level : Pending}
    {outer : List Pending} {next : Scan} (hrange : InRange size ⟨rest, taken, level :: outer⟩)
    (hstep : step? rest taken level outer = some next) : InRange size next := by
  obtain ⟨hdepth, hwords, hposition⟩ := hrange
  obtain ⟨hlevel, houter⟩ := List.forall_mem_cons.1 hwords
  have hlevels : next.levels.length ≤ maxNesting + 1 ∧ ∀ level ∈ next.levels, level.IsWord := by
    rcases levels_of_step? hstep with hopen | hopen | ⟨members, hmembers, hroom, hopen⟩
    · rw [hopen]
      exact ⟨hdepth, hwords⟩
    · rw [hopen]
      exact ⟨hdepth, List.forall_mem_cons.2 ⟨hlevel.pred, houter⟩⟩
    · rw [hopen]
      exact ⟨Nat.add_le_add_right hroom 1,
        List.forall_mem_cons.2 ⟨hmembers, List.forall_mem_cons.2 ⟨hlevel.pred, houter⟩⟩⟩
  refine ⟨hlevels.1, hlevels.2, ?_⟩
  obtain ⟨moved, levels, _, hmoved, rfl⟩ := exists_advance_of_step? hstep
  dsimp only [advance] at hposition ⊢
  rw [List.length_drop]
  omega

theorem walk?_eq {size : Nat} {scan : Scan} (hrange : InRange size scan) :
    walk? size scan = some (finish? scan) := by
  fun_induction finish? scan with
  | case1 rest taken => rw [walk?, if_pos hrange]
  | case2 rest taken outer ih =>
    rw [walk?, if_pos hrange]
    obtain ⟨hdepth, hwords, hposition⟩ := hrange
    exact ih ⟨Nat.le_of_succ_le hdepth, (List.forall_mem_cons.1 hwords).2, hposition⟩
  | case3 taken level outer hlevel =>
    rw [walk?, if_pos hrange]
    exact hlevel
  | case4 rest taken outer hlevel ih =>
    rw [walk?, if_pos hrange, if_pos rfl, if_pos rfl]
    · obtain ⟨hdepth, hwords, hposition⟩ := hrange
      refine ih ⟨Nat.le_of_succ_le hdepth, (List.forall_mem_cons.1 hwords).2, ?_⟩
      rw [← hposition, List.length_cons]
      dsimp only
      omega
    · exact hlevel
  | case5 rest taken level outer hlevel hbreak =>
    rw [walk?, if_pos hrange, if_pos rfl, if_neg hbreak]
    exact hlevel
  | case6 first rest taken level outer hlevel hbreak hstep =>
    rw [walk?, if_pos hrange, if_neg hbreak]
    · split
      · rfl
      next next hnext =>
        rw [hstep] at hnext
        cases hnext
    · exact hlevel
  | case7 first rest taken level outer hlevel hbreak next hstep ih =>
    rw [walk?, if_pos hrange, if_neg hbreak]
    · split
      next hnext =>
        rw [hstep] at hnext
        cases hnext
      next found hnext =>
        rw [hstep] at hnext
        cases hnext
        exact ih (hrange.step hstep)
    · exact hlevel

end Scan

/-- The number of bytes of the item at the start of a byte string, found with a look at the numbers
of the scan. -/
def itemExtent? (bytes : Bytes) : Option (Option Nat) :=
  Scan.walk? bytes.length ⟨bytes, 0, [.items 1]⟩

theorem itemExtent?_eq (bytes : Bytes) : itemExtent? bytes = some (itemLength? bytes) :=
  Scan.walk?_eq ⟨Nat.le_add_left 1 maxNesting, List.forall_mem_singleton.2 (by decide),
    Nat.zero_add _⟩

end Cose.Cbor
