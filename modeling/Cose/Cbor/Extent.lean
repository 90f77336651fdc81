import Cose.Cbor.Head
import Cose.Cbor.Pending

/-!
# The extent of an encoded item

`itemLength?` finds how many bytes the item at the start of a byte string takes, members and
tagged content included, without building anything. The scan keeps, for each open level, how many
items are still to come; it accepts any count of tags, and looks into neither text nor simple
values.
-/

set_option autoImplicit false
set_option relaxedAutoImplicit false

namespace Cose.Cbor

namespace Pending

/-- The items announced by the head of an array, or of a map with two items to a pair. A count of
items that does not fit in 64 bits is refused, and the largest one says the same as an indefinite
length. -/
def ofHead? (head : Head) : Option Pending :=
  if head.isIndefinite then some untilBreak
  else if head.major = .map then
    if head.argument.toNat < 2 ^ 63 then some (items (2 * head.argument.toNat)) else none
  else if head.argument.toNat = 2 ^ 64 - 1 then some untilBreak
  else some (items head.argument.toNat)

end Pending

/-- What is left to scan: the bytes ahead, the number of bytes behind, and the open levels with
the innermost first. -/
structure Scan where
  rest : Bytes
  taken : Nat
  levels : List Pending

namespace Scan

/-- Move over some bytes and set the open levels. -/
def advance (rest : Bytes) (taken count : Nat) (levels : List Pending) : Scan :=
  ⟨rest.drop count, taken + count, levels⟩

/-- Scan one head, and the content of the string that it announces. A tag leaves its item to come,
an empty container opens no level, and at most `maxNesting` levels may be open. -/
def step? (rest : Bytes) (taken : Nat) (level : Pending) (outer : List Pending) : Option Scan :=
  match Head.read rest with
  | .error _ => none
  | .ok head =>
    match head.major with
    | .bytes | .text =>
      let length := head.length + head.argument.toNat
      if head.isIndefinite then none
      else if reaches length rest then some (advance rest taken length (level.pred :: outer))
      else none
    | .array | .map =>
      match Pending.ofHead? head with
      | none => none
      | some (.items 0) => some (advance rest taken head.length (level.pred :: outer))
      | some members =>
        if outer.length ≥ maxNesting then none
        else some (advance rest taken head.length (members :: level.pred :: outer))
    | .tag => some (advance rest taken head.length (level :: outer))
    | .unsigned | .negative | .simple =>
      some (advance rest taken head.length (level.pred :: outer))

/-- Every step moves over a byte string that is not empty and lies inside the input. -/
theorem exists_advance_of_step? {rest : Bytes} {taken : Nat} {level : Pending}
    {outer : List Pending} {next : Scan} (hstep : step? rest taken level outer = some next) :
    ∃ count levels, 0 < count ∧ count ≤ rest.length ∧ next = advance rest taken count levels := by
  unfold step? at hstep
  split at hstep
  · simp at hstep
  next head hread =>
    obtain ⟨hpos, hle⟩ := Head.length_of_read hread
    split at hstep
    · dsimp only at hstep
      split at hstep
      · simp at hstep
      · split at hstep
        next hreaches =>
          cases hstep
          exact ⟨_, _, by omega, (reaches_eq_true_iff _ _).1 hreaches, rfl⟩
        next => simp at hstep
    · dsimp only at hstep
      split at hstep
      · simp at hstep
      · split at hstep
        next hreaches =>
          cases hstep
          exact ⟨_, _, by omega, (reaches_eq_true_iff _ _).1 hreaches, rfl⟩
        next => simp at hstep
    · split at hstep
      · simp at hstep
      · cases hstep
        exact ⟨_, _, hpos, hle, rfl⟩
      · split at hstep
        · simp at hstep
        · cases hstep
          exact ⟨_, _, hpos, hle, rfl⟩
    · split at hstep
      · simp at hstep
      · cases hstep
        exact ⟨_, _, hpos, hle, rfl⟩
      · split at hstep
        · simp at hstep
        · cases hstep
          exact ⟨_, _, hpos, hle, rfl⟩
    all_goals
      cases hstep
      exact ⟨_, _, hpos, hle, rfl⟩

theorem length_of_step? {rest : Bytes} {taken : Nat} {level : Pending} {outer : List Pending}
    {next : Scan} (hstep : step? rest taken level outer = some next) :
    next.rest.length < rest.length := by
  obtain ⟨count, levels, hpos, hle, rfl⟩ := exists_advance_of_step? hstep
  simp only [advance, List.length_drop]
  omega

/-- Scan until no level has items to come, and return the number of bytes behind. A level whose
items are complete closes by itself, and one of indefinite length closes at a break. -/
def finish? (scan : Scan) : Option Nat :=
  match scan with
  | ⟨_, taken, []⟩ => some taken
  | ⟨rest, taken, .items 0 :: outer⟩ => finish? ⟨rest, taken, outer⟩
  | ⟨[], _, _ :: _⟩ => none
  | ⟨first :: rest, taken, level :: outer⟩ =>
    if first = breakByte then
      if level = .untilBreak then finish? ⟨rest, taken + 1, outer⟩ else none
    else
      match _hstep : step? (first :: rest) taken level outer with
      | none => none
      | some next => finish? next
termination_by (scan.rest.length, scan.levels.length)
decreasing_by
  · exact Prod.Lex.right _ (Nat.lt_succ_self _)
  · exact Prod.Lex.left _ _ (Nat.lt_succ_self _)
  · exact Prod.Lex.left _ _ (length_of_step? _hstep)

/-- A scan that ends has moved forward, and not beyond the input. -/
theorem bounds_of_finish? {scan : Scan} {length : Nat} (hfinish : finish? scan = some length) :
    scan.taken ≤ length ∧ length ≤ scan.taken + scan.rest.length := by
  fun_induction finish? scan with
  | case1 rest taken =>
    cases hfinish
    simp
  | case2 rest taken outer ih => exact ih hfinish
  | case3 => simp at hfinish
  | case4 rest taken outer _ ih =>
    have hbounds := ih hfinish
    simp only [List.length_cons] at hbounds ⊢
    omega
  | case5 => simp at hfinish
  | case6 => simp at hfinish
  | case7 first rest taken level outer hlevel hbreak next hstep ih =>
    have hbounds := ih hfinish
    obtain ⟨count, levels, hpos, hle, rfl⟩ := exists_advance_of_step? hstep
    simp only [advance, List.length_drop] at hbounds ⊢
    omega

end Scan

/-- The number of bytes of the item at the start of a byte string, or `none` if it has none that
can be scanned. -/
def itemLength? (bytes : Bytes) : Option Nat := Scan.finish? ⟨bytes, 0, [.items 1]⟩

/-- An item that can be scanned is not empty and lies inside the input. -/
theorem bounds_of_itemLength? {bytes : Bytes} {length : Nat}
    (hlength : itemLength? bytes = some length) : 0 < length ∧ length ≤ bytes.length := by
  have hbounds := Scan.bounds_of_finish? hlength
  refine ⟨?_, by simpa using hbounds.2⟩
  cases bytes with
  | nil => simp [itemLength?, Scan.finish?] at hlength
  | cons first rest =>
    rw [itemLength?, Scan.finish?] at hlength
    · split at hlength
      · simp at hlength
      · split at hlength
        · simp at hlength
        next next hstep =>
          obtain ⟨count, levels, hpos, hle, rfl⟩ := Scan.exists_advance_of_step? hstep
          have hnext := (Scan.bounds_of_finish? hlength).1
          simp only [Scan.advance] at hnext
          omega
    · simp

end Cose.Cbor
