import Mathlib.Tactic.Common
import Cose.Proofs.Cbor.Scanning

/-!
# Maps put in order in place

`sortEntries` splits the body of a map into its entries once. An encoder has no room for that: it
keeps to the bytes of the body, finds each entry by its position when it comes to it, and exchanges
two neighbours by rotating the bytes of both. `sortInPlace?` does so, and takes every position,
range and sum from where it is used: the result is `none` if one of them is out of range, or if the
passes do not come to an end within bounds. That never happens, and the bytes left are those of
`sortEntries` (`sortInPlace?_eq`), for any bytes at all as the body.
-/

set_option autoImplicit false
set_option relaxedAutoImplicit false

namespace Cose.Cbor

/-! ### Numbers and ranges -/

/-- The sum of two numbers of 64 bits, `none` if it does not fit. -/
def sum? (first second : Nat) : Option Nat :=
  if first + second < 2 ^ 64 then some (first + second) else none

/-- The difference of two numbers, `none` if it is negative. -/
def difference? (first second : Nat) : Option Nat :=
  if second ≤ first then some (first - second) else none

/-- The bytes between two positions, `none` if these are not both inside, in order. -/
def slice? (bytes : Bytes) (start stop : Nat) : Option Bytes :=
  if start ≤ stop ∧ stop ≤ bytes.length then some ((bytes.take stop).drop start) else none

theorem sum?_eq {first second : Nat} (hsum : first + second < 2 ^ 64) :
    sum? first second = some (first + second) := if_pos hsum

theorem difference?_eq {first second : Nat} (hle : second ≤ first) :
    difference? first second = some (first - second) := if_pos hle

theorem slice?_eq {bytes : Bytes} {start stop : Nat} (hstart : start ≤ stop)
    (hstop : stop ≤ bytes.length) : slice? bytes start stop = some ((bytes.take stop).drop start) :=
  if_pos ⟨hstart, hstop⟩

theorem slice?_middle {front middle back : Bytes} {start stop : Nat}
    (hstart : start = front.length) (hstop : stop = front.length + middle.length) :
    slice? (front ++ (middle ++ back)) start stop = some middle := by
  subst hstart hstop
  rw [slice?_eq (Nat.le_add_right _ _) (by simp)]
  simp [List.take_append]

theorem slice?_drop {bytes : Bytes} {start : Nat} (hstart : start ≤ bytes.length) :
    slice? bytes start bytes.length = some (bytes.drop start) := by
  rw [slice?_eq hstart (Nat.le_refl _), List.take_length]

/-! ### Entries by their position -/

/-- The lengths of the label and of the whole of an entry. -/
def Entry.lengths (entry : Entry) : Nat × Nat := (entry.label.length, entry.encoded.length)

/-- The lengths of the label and of the whole of the entry at a position, if there is an entry. -/
def entryExtent? (body : Bytes) (position : Nat) : Option (Option (Nat × Nat)) := do
  let ahead ← slice? body position body.length
  match ← itemExtent? ahead with
  | none => return none
  | some labelLength =>
    let afterLabel ← slice? ahead labelLength ahead.length
    match ← itemExtent? afterLabel with
    | none => return none
    | some valueLength =>
      let length ← sum? labelLength valueLength
      return some (labelLength, length)

/-- Move the first bytes of a range, a given number of them, behind its others. -/
def rotate? (body : Bytes) (start stop count : Nat) : Option Bytes := do
  let range ← slice? body start stop
  let moved ← slice? range 0 count
  let others ← slice? range count range.length
  return body.take start ++ (others ++ moved) ++ body.drop stop

/-- One pass over the entries of a map in place, with the position of the entry that is carried, the
lengths of its label and of all of it, and whether entries were exchanged before. It ends with
whether any were exchanged at all, or with the reason why it stopped. -/
def passInPlace? : (rounds : Nat) → (body : Bytes) → (position labelLength length : Nat) →
    (swapped : Bool) → Option (Bytes × Except EncodeError Bool)
  | 0, _, _, _, _, _ => none
  | rounds + 1, body, position, labelLength, length, swapped => do
    let next ← sum? position length
    if next < body.length then
      match ← entryExtent? body next with
      | none => return (body, .error .unsupported)
      | some (nextLabelLength, nextLength) =>
        let label ← slice? body position (← sum? position labelLength)
        let nextLabel ← slice? body next (← sum? next nextLabelLength)
        if label < nextLabel then
          passInPlace? rounds body next nextLabelLength nextLength swapped
        else if label = nextLabel then
          return (body, .error .duplicateLabel)
        else
          let exchanged ← rotate? body position (← sum? next nextLength) length
          passInPlace? rounds exchanged (← sum? position nextLength) labelLength length true
    else return (body, .ok swapped)

/-- Put the entries of the body of a map in order in place, pass after pass. -/
def sortInPlace? : (passes : Nat) → (body : Bytes) → Option (Bytes × Option EncodeError)
  | 0, _ => none
  | passes + 1, body =>
    if body = [] then some ([], none)
    else do
      match ← entryExtent? body 0 with
      | none => return (body, some .unsupported)
      | some (labelLength, length) =>
        match ← passInPlace? body.length body 0 labelLength length false with
        | (passed, .error cause) => return (passed, some cause)
        | (passed, .ok true) => sortInPlace? passes passed
        | (passed, .ok false) => return (passed, none)

theorem entryExtent?_eq {body : Bytes} (hsize : body.length < 2 ^ 64) {position : Nat}
    (hposition : position ≤ body.length) :
    entryExtent? body position = some ((Entry.first? (body.drop position)).map Entry.lengths) := by
  have hahead : (body.drop position).length ≤ body.length := by
    rw [List.length_drop]
    omega
  simp only [entryExtent?, slice?_drop hposition, itemExtent?_eq, Entry.first?, Option.bind_eq_bind,
    Option.bind_some]
  cases hlabel : itemLength? (body.drop position) with
  | none => rfl
  | some labelLength =>
    have hlabelBounds := bounds_of_itemLength? hlabel
    simp only [slice?_drop hlabelBounds.2, Option.bind_some]
    cases hvalue : itemLength? ((body.drop position).drop labelLength) with
    | none => rfl
    | some valueLength =>
      have hvalueBounds := bounds_of_itemLength? hvalue
      rw [List.length_drop] at hvalueBounds
      have hlengths : Entry.lengths ⟨(body.drop position).take labelLength,
          ((body.drop position).drop labelLength).take valueLength⟩ =
            (labelLength, labelLength + valueLength) := by
        have hlabelTaken := List.length_take_of_le hlabelBounds.2
        have hvalueTaken := List.length_take_of_le (hvalueBounds.2.trans_eq List.length_drop.symm)
        rw [Entry.lengths, Entry.encoded, List.length_append, hlabelTaken, hvalueTaken]
      have hsum := sum?_eq (show labelLength + valueLength < 2 ^ 64 by omega)
      simp only [hsum, Option.bind_some, Option.map_some, hlengths]
      rfl

/-- Two neighbours are exchanged by moving the first behind the second. -/
theorem rotate?_eq (front first second back : Bytes) :
    rotate? (front ++ (first ++ (second ++ back))) front.length
      (front.length + first.length + second.length) first.length =
        some (front ++ (second ++ (first ++ back))) := by
  have hrange : slice? (front ++ (first ++ (second ++ back))) front.length
      (front.length + first.length + second.length) = some (first ++ second) := by
    rw [← List.append_assoc first]
    exact slice?_middle rfl (by rw [List.length_append, Nat.add_assoc])
  have hmoved : slice? ([] ++ (first ++ second)) 0 first.length = some first :=
    slice?_middle rfl (Nat.zero_add _).symm
  rw [List.nil_append] at hmoved
  have hothers : slice? (first ++ second) first.length (first ++ second).length = some second := by
    rw [slice?_drop (by simp), List.drop_left]
  have hback : (front ++ (first ++ (second ++ back))).drop
      (front.length + first.length + second.length) = back := by
    rw [← List.append_assoc, ← List.append_assoc, List.drop_left' (by simp [Nat.add_assoc])]
  simp only [rotate?, hrange, hmoved, hothers, hback, Option.bind_eq_bind, Option.bind_some,
    List.take_left]
  simp

/-! ### Passes in place -/

/-- Where bytes do not start with an entry, there is none to split off. -/
theorem splitEntries_of_none {body : Bytes} (hnone : Entry.first? body = none) :
    splitEntries body = ([], body) := by
  rw [splitEntries]
  split
  · rfl
  next entry hsome =>
    rw [hnone] at hsome
    cases hsome

theorem splitEntries_of_some {body : Bytes} {entry : Entry}
    (hsome : Entry.first? body = some entry) :
    splitEntries body = (entry :: (splitEntries (body.drop entry.encoded.length)).1,
      (splitEntries (body.drop entry.encoded.length)).2) := by
  rw [splitEntries]
  split
  next hnone =>
    rw [hsome] at hnone
    cases hnone
  next found hfound =>
    rw [hsome] at hfound
    cases hfound
    rfl

/-- How a pass ends that leaves bytes behind that are no entry. -/
def Pass.ending (pass : Pass) (swapped : Bool) (tail : Bytes) : Except EncodeError Bool :=
  if pass.duplicate then .error .duplicateLabel
  else if tail = [] then .ok (swapped || pass.swapped)
  else .error .unsupported

theorem entryExtent?_behind {front carried behind : Bytes}
    (hsize : (front ++ (carried ++ behind)).length < 2 ^ 64) :
    entryExtent? (front ++ (carried ++ behind)) (front.length + carried.length) =
      some ((Entry.first? behind).map Entry.lengths) := by
  have hdrop : (front ++ (carried ++ behind)).drop (front.length + carried.length) = behind := by
    rw [← List.append_assoc, List.drop_left' (by simp)]
  have hextent := entryExtent?_eq hsize
    (show front.length + carried.length ≤ (front ++ (carried ++ behind)).length by simp)
  rwa [hdrop] at hextent

section Rounds

variable {rounds : Nat} {front behind : Bytes} {carried entry : Entry} {swapped : Bool}

/-- A pass ends where no entry is behind the one that is carried. -/
theorem passInPlace?_of_none (hsize : (front ++ (carried.encoded ++ behind)).length < 2 ^ 64)
    (hnone : Entry.first? behind = none) :
    passInPlace? (rounds + 1) (front ++ (carried.encoded ++ behind)) front.length
        carried.label.length carried.encoded.length swapped =
      some (front ++ (carried.encoded ++ behind),
        if behind = [] then .ok swapped else .error .unsupported) := by
  have hlength : (front ++ (carried.encoded ++ behind)).length =
      front.length + carried.encoded.length + behind.length := by
    simp [Nat.add_assoc]
  have hnext := sum?_eq (show front.length + carried.encoded.length < 2 ^ 64 by omega)
  simp only [passInPlace?, hnext, hlength, Option.bind_eq_bind, Option.bind_some,
    entryExtent?_behind hsize, hnone]
  by_cases hbehind : behind = []
  · simp [hbehind]
  · rw [if_pos (Nat.lt_add_of_pos_right (List.length_pos_iff.2 hbehind))]
    simp [hbehind]

/-- A round of a pass carries on the next entry, or finds that its label is the same, or moves it in
front of the one that is carried. -/
theorem passInPlace?_of_first?
    (hsize : (front ++ (carried.encoded ++ (entry.encoded ++ behind))).length < 2 ^ 64)
    (hfirst : Entry.first? (entry.encoded ++ behind) = some entry) :
    passInPlace? (rounds + 1) (front ++ (carried.encoded ++ (entry.encoded ++ behind)))
        front.length carried.label.length carried.encoded.length swapped =
      if carried.label < entry.label then
        passInPlace? rounds (front ++ carried.encoded ++ (entry.encoded ++ behind))
          (front ++ carried.encoded).length entry.label.length entry.encoded.length swapped
      else if carried.label = entry.label then
        some (front ++ (carried.encoded ++ (entry.encoded ++ behind)), .error .duplicateLabel)
      else
        passInPlace? rounds (front ++ entry.encoded ++ (carried.encoded ++ behind))
          (front ++ entry.encoded).length carried.label.length carried.encoded.length true := by
  have hentry := (Entry.length_of_first? hfirst).1
  have hextent := entryExtent?_behind hsize
  rw [hfirst, Option.map_some, Entry.lengths] at hextent
  have hlabel : slice? (front ++ (carried.encoded ++ (entry.encoded ++ behind))) front.length
      (front.length + carried.label.length) = some carried.label := by
    rw [Entry.encoded, List.append_assoc carried.label]
    exact slice?_middle rfl rfl
  have hnextLabel : slice? (front ++ (carried.encoded ++ (entry.encoded ++ behind)))
      (front.length + carried.encoded.length)
      (front.length + carried.encoded.length + entry.label.length) = some entry.label := by
    rw [← List.append_assoc, show entry.encoded = entry.label ++ entry.value from rfl,
      List.append_assoc entry.label]
    exact slice?_middle (List.length_append).symm (by rw [List.length_append])
  simp only [List.length_append, Entry.encoded] at hsize hentry
  have hsums : sum? front.length carried.encoded.length =
        some (front.length + carried.encoded.length) ∧
      sum? front.length carried.label.length = some (front.length + carried.label.length) ∧
      sum? (front.length + carried.encoded.length) entry.label.length =
        some (front.length + carried.encoded.length + entry.label.length) ∧
      sum? (front.length + carried.encoded.length) entry.encoded.length =
        some (front.length + carried.encoded.length + entry.encoded.length) ∧
      sum? front.length entry.encoded.length = some (front.length + entry.encoded.length) := by
    simp only [Entry.encoded, List.length_append]
    refine ⟨sum?_eq ?_, sum?_eq ?_, sum?_eq ?_, sum?_eq ?_, sum?_eq ?_⟩ <;> omega
  obtain ⟨hnext, hlabelStop, hnextLabelStop, hnextStop, hexchanged⟩ := hsums
  simp only [passInPlace?, hnext, hextent, hlabelStop, hnextLabelStop, hnextStop, hexchanged,
    hlabel, hnextLabel, rotate?_eq, Option.bind_eq_bind, Option.bind_some]
  rw [if_pos (by simp [Entry.encoded]; omega)]
  simp only [List.length_append, List.append_assoc]
  rfl

end Rounds

/-- A pass in place, with an entry carried behind a front part of the body, does what a pass over
the list of the entries behind it does. -/
theorem passInPlace?_eq {rounds : Nat} {front behind : Bytes} {carried : Entry} {swapped : Bool}
    (hsize : (front ++ (carried.encoded ++ behind)).length < 2 ^ 64)
    (hrounds : (splitEntries behind).1.length < rounds) :
    passInPlace? rounds (front ++ (carried.encoded ++ behind)) front.length carried.label.length
        carried.encoded.length swapped =
      let pass := Pass.carry carried (splitEntries behind).1
      some (front ++ (encodedEntries pass.entries ++ (splitEntries behind).2),
        pass.ending swapped (splitEntries behind).2) := by
  induction rounds generalizing front behind carried swapped with
  | zero => exact absurd hrounds (Nat.not_lt_zero _)
  | succ rounds ih =>
    cases hfirst : Entry.first? behind with
    | none =>
      rw [splitEntries_of_none hfirst, passInPlace?_of_none hsize hfirst]
      simp [Pass.carry, Pass.ending, encodedEntries]
    | some entry =>
      obtain ⟨rest, rfl⟩ := prefix_of_first? hfirst
      have hsplit := splitEntries_of_some hfirst
      rw [List.drop_left] at hsplit
      rw [hsplit] at hrounds ⊢
      have hfits : (splitEntries rest).1.length < rounds := Nat.lt_of_succ_lt_succ hrounds
      rw [passInPlace?_of_first? hsize hfirst]
      simp only [List.length_append] at hsize
      dsimp only [Pass.carry]
      split
      · -- The next entry is carried from here on.
        rw [@ih (front ++ carried.encoded) rest entry swapped
          (by simp only [List.length_append]; omega) hfits]
        simp [Pass.ending, encodedEntries]
      · split
        · have hbytes : encodedEntries (carried :: entry :: (splitEntries rest).1) ++
              (splitEntries rest).2 = carried.encoded ++ (entry.encoded ++ rest) := by
            simp only [encodedEntries, List.flatMap_cons, List.append_assoc]
            rw [← encodedEntries, encodedEntries_splitEntries]
          rw [hbytes]
          rfl
        · -- The next entry moves in front of the one that is carried.
          rw [@ih (front ++ entry.encoded) rest carried true
            (by simp only [List.length_append]; omega) hfits]
          simp [Pass.ending, encodedEntries]

/-! ### Sorting in place -/

/-- Whether an entry is found at the start of bytes whatever is behind it. -/
def Entry.StandsAlone (entry : Entry) : Prop :=
  ∀ more, Entry.first? (entry.encoded ++ more) = some entry

theorem standsAlone_of_mem_splitEntries {body : Bytes} :
    ∀ entry ∈ (splitEntries body).1, entry.StandsAlone := by
  fun_induction splitEntries body with
  | case1 => exact fun _ hmem ↦ (by cases hmem)
  | case2 body entry hfirst entries tail hsplit ih =>
    rw [hsplit] at ih
    exact List.forall_mem_cons.2 ⟨Entry.first?_encoded_append hfirst, ih⟩

theorem length_splitEntries_le (body : Bytes) : (splitEntries body).1.length ≤ body.length := by
  fun_induction splitEntries body with
  | case1 => exact Nat.zero_le _
  | case2 body entry hfirst entries tail hsplit ih =>
    have hbounds := Entry.length_of_first? hfirst
    rw [hsplit, List.length_drop] at ih
    rw [List.length_cons]
    dsimp only at ih
    omega

/-- Entries that stand alone are found in what they are put together to. -/
theorem splitEntries_of_standsAlone {entries : List Entry}
    (halone : ∀ entry ∈ entries, entry.StandsAlone) :
    splitEntries (encodedEntries entries) = (entries, []) := by
  induction entries with
  | nil =>
    refine splitEntries_of_none ?_
    simp [encodedEntries, Entry.first?, itemLength?, Scan.finish?]
  | cons entry entries ih =>
    obtain ⟨hentry, hrest⟩ := List.forall_mem_cons.1 halone
    have hbytes : encodedEntries (entry :: entries) = entry.encoded ++ encodedEntries entries := by
      rw [encodedEntries, List.flatMap_cons, ← encodedEntries]
    rw [hbytes, splitEntries_of_some (hentry _), List.drop_left, ih hrest]

/-- What follows on a pass in place over a whole body. -/
theorem sortInPlace?_succ {body tail : Bytes} (hsize : body.length < 2 ^ 64) {first : Entry}
    {rest : List Entry} (hsplit : splitEntries body = (first :: rest, tail)) (passes : Nat) :
    sortInPlace? (passes + 1) body =
      let pass := Pass.run (first :: rest)
      match pass.ending false tail with
      | .error cause => some (encodedEntries pass.entries ++ tail, some cause)
      | .ok true => sortInPlace? passes (encodedEntries pass.entries ++ tail)
      | .ok false => some (encodedEntries pass.entries ++ tail, none) := by
  cases hfirst : Entry.first? body with
  | none =>
    rw [splitEntries_of_none hfirst] at hsplit
    cases hsplit
  | some entry =>
    have hpositive := (Entry.length_of_first? hfirst).1
    obtain ⟨behind, rfl⟩ := prefix_of_first? hfirst
    have hbehind := splitEntries_of_some hfirst
    rw [List.drop_left, hsplit] at hbehind
    cases hbehind
    have hbody : first.encoded ++ behind ≠ [] :=
      List.append_ne_nil_of_left_ne_nil (List.length_pos_iff.1 hpositive) _
    have hextent := entryExtent?_eq hsize (Nat.zero_le _)
    rw [List.drop_zero, hfirst, Option.map_some, Entry.lengths] at hextent
    have hrounds : (splitEntries behind).1.length < (first.encoded ++ behind).length := by
      have hlength := length_splitEntries_le behind
      rw [List.length_append]
      omega
    have hpass := @passInPlace?_eq _ [] behind first false hsize hrounds
    rw [List.nil_append, List.length_nil] at hpass
    simp only [sortInPlace?, if_neg hbody, hextent, hpass, Option.bind_eq_bind, Option.bind_some,
      List.nil_append, Pass.run]
    rcases (Pass.carry first (splitEntries behind).1).ending false (splitEntries behind).2 with
      cause | _ | _ <;> rfl

/-- Sorting in place comes to an end where the passes over the list of entries leave them in order,
or stop at two equal labels. -/
theorem sortInPlace?_settle {passes rounds : Nat} {entries : List Entry}
    (halone : ∀ entry ∈ entries, entry.StandsAlone)
    (hsize : (encodedEntries entries).length < 2 ^ 64) (hrounds : passes < rounds)
    (hsettled : (settle passes entries).2 = none →
      (settle passes entries).1.Pairwise Entry.Before) :
    sortInPlace? rounds (encodedEntries entries) =
      some ((settle passes entries).map encodedEntries id) := by
  induction passes generalizing rounds entries with
  | zero =>
    obtain ⟨more, rfl⟩ := Nat.exists_eq_add_of_lt hrounds
    cases entries with
    | nil => rfl
    | cons first rest =>
      have hrun : Pass.run (first :: rest) = ⟨first :: rest, false, false⟩ :=
        Pass.carry_of_pairwise (hsettled rfl)
      rw [sortInPlace?_succ hsize (splitEntries_of_standsAlone halone), hrun]
      simp [Pass.ending, settle]
  | succ passes ih =>
    obtain ⟨more, rfl⟩ := Nat.exists_eq_add_of_lt hrounds
    cases entries with
    | nil => rfl
    | cons first rest =>
      rw [sortInPlace?_succ hsize (splitEntries_of_standsAlone halone)]
      have hperm := Pass.perm_run (first :: rest)
      rw [settle] at hsettled ⊢
      dsimp only at hsettled ⊢
      generalize Pass.run (first :: rest) = pass at *
      obtain ⟨arranged, swapped, duplicate⟩ := pass
      cases duplicate with
      | true => simp [Pass.ending]
      | false =>
        cases swapped with
        | false => simp [Pass.ending]
        | true =>
          simp only [Bool.false_eq_true, if_false, if_true] at hsettled
          have hnext := @ih (passes + 1 + more) arranged
            (fun entry hmem ↦ halone entry (hperm.mem_iff.1 hmem))
            ((length_encodedEntries_of_perm hperm).trans_lt hsize) (by omega) hsettled
          simpa [Pass.ending] using hnext

/-- Entries are put in order in place with every number in range, whatever the body consists of, and
the bytes are those that `sortEntries` leaves. Not more passes than the body has bytes are made. -/
theorem sortInPlace?_of_lt {body : Bytes} (hsize : body.length < 2 ^ 64) {passes : Nat}
    (hpasses : body.length < passes) : sortInPlace? passes body = some (sortEntries body) := by
  have hwhole := encodedEntries_splitEntries body
  have halone := @standsAlone_of_mem_splitEntries body
  have hrounds := length_splitEntries_le body
  unfold sortEntries
  cases hsplit : splitEntries body with
  | mk entries tail =>
    rw [hsplit] at hwhole halone hrounds
    dsimp only at hwhole halone hrounds ⊢
    cases tail with
    | nil =>
      rw [List.append_nil] at hwhole
      subst hwhole
      have hsettled : (settle entries.length entries).2 = none →
          (settle entries.length entries).1.Pairwise Entry.Before := by
        have houtcome := settle_cases (Nat.le_refl entries.length) .nil
          fun _ _ _ hmem ↦ by cases hmem
        rw [List.append_nil] at houtcome
        rcases houtcome with ⟨arranged, hresult, hpairwise, _⟩ | ⟨arranged, hresult, _⟩ <;>
          rw [hresult]
        · exact fun _ ↦ hpairwise
        · exact fun hnone ↦ by cases hnone
      rw [sortInPlace?_settle halone hsize (hrounds.trans_lt hpasses) hsettled]
      rfl
    | cons byte others =>
      obtain ⟨more, rfl⟩ := Nat.exists_eq_add_of_lt hpasses
      cases entries with
      | nil =>
        have hnone : Entry.first? body = none := by
          cases hfirst : Entry.first? body with
          | none => rfl
          | some entry =>
            rw [splitEntries_of_some hfirst] at hsplit
            cases hsplit
        have hbody : body ≠ [] := by
          rw [← hwhole]
          exact List.append_ne_nil_of_right_ne_nil _ (List.cons_ne_nil _ _)
        have hextent := entryExtent?_eq hsize (Nat.zero_le _)
        rw [List.drop_zero, hnone] at hextent
        simp only [sortInPlace?, if_neg hbody, hextent, Option.bind_eq_bind, Option.bind_some]
        simp [← hwhole, Pass.run]
      | cons first rest =>
        rw [sortInPlace?_succ hsize hsplit]
        cases hduplicate : (Pass.run (first :: rest)).duplicate <;> simp [Pass.ending, hduplicate]

theorem sortInPlace?_eq {body : Bytes} (hsize : body.length < 2 ^ 64) :
    sortInPlace? (body.length + 1) body = some (sortEntries body) :=
  sortInPlace?_of_lt hsize (Nat.lt_succ_self _)

end Cose.Cbor
