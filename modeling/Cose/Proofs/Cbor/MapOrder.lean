import Mathlib.Data.List.Sort
import Cose.Cbor.MapOrder

/-!
# Putting the entries of a map in order

`settle` exchanges neighbours, pass after pass. A pass that meets no equal labels carries the
greatest label to the end, in front of what earlier passes left there (`exists_init_of_carry`,
`carry_append`). So as many passes as there are entries leave them in strictly increasing order,
whatever the order they came in, and two equal labels meet at some point, wherever they stand:
`settle_eq_sorted` and `settle_of_not_distinct`.

`Entry.sorted` is the arrangement by an insertion sort, which is what `settle` is compared with.
-/

set_option autoImplicit false
set_option relaxedAutoImplicit false

namespace Cose.Cbor

/-! ### The order of labels -/

namespace Entry

/-- One entry stands before another if its label is less, byte by byte. -/
def Before (left right : Entry) : Prop := left.label < right.label

theorem Before.trans {first second third : Entry} (hleft : first.Before second)
    (hright : second.Before third) : first.Before third :=
  List.lt_trans hleft hright

theorem not_before_self (entry : Entry) : ¬entry.Before entry := List.lt_irrefl entry.label

/-- Labels that are neither less nor equal are greater. -/
theorem before_of_not {left right : Entry} (hless : ¬left.label < right.label)
    (hequal : left.label ≠ right.label) : right.Before left :=
  Std.lt_of_le_of_ne (List.not_lt.1 hless) (Ne.symm hequal)

/-- The labels of some entries are pairwise distinct. -/
def Distinct (entries : List Entry) : Prop := (entries.map label).Nodup

/-- Entries in order of their labels. -/
def sorted (entries : List Entry) : List Entry :=
  entries.insertionSort fun left right ↦ left.label ≤ right.label

theorem perm_sorted (entries : List Entry) : (sorted entries).Perm entries :=
  List.perm_insertionSort _ entries

theorem distinct_of_pairwise {entries : List Entry} (hpairwise : entries.Pairwise Before) :
    Distinct entries := by
  rw [Distinct, List.Nodup, List.pairwise_map]
  refine hpairwise.imp fun hbefore hequal ↦ ?_
  rw [Before, hequal] at hbefore
  exact List.lt_irrefl _ hbefore

/-- Distinct labels in weakly increasing order are in strictly increasing order. -/
theorem pairwise_sorted {entries : List Entry} (hdistinct : Distinct entries) :
    (sorted entries).Pairwise Before := by
  have : Std.Total fun left right : Entry ↦ left.label ≤ right.label :=
    ⟨fun left right ↦ List.le_total left.label right.label⟩
  have : IsTrans Entry fun left right ↦ left.label ≤ right.label :=
    ⟨fun _ _ _ hleft hright ↦ List.le_trans hleft hright⟩
  have hweak := List.pairwise_insertionSort (fun left right : Entry ↦ left.label ≤ right.label)
    entries
  have hsorted : Distinct (sorted entries) :=
    ((perm_sorted entries).map label).nodup_iff.2 hdistinct
  rw [Distinct, List.Nodup, List.pairwise_map] at hsorted
  exact hweak.imp₂ (fun _ _ hle hne ↦ Std.lt_of_le_of_ne hle hne) hsorted

/-- There is only one arrangement in strictly increasing order. -/
theorem eq_sorted {entries arranged : List Entry} (hperm : arranged.Perm entries)
    (hpairwise : arranged.Pairwise Before) : arranged = sorted entries := by
  have hdistinct : Distinct entries :=
    (hperm.map label).nodup_iff.1 (distinct_of_pairwise hpairwise)
  refine List.Perm.eq_of_pairwise ?_ hpairwise (pairwise_sorted hdistinct)
    (hperm.trans (perm_sorted entries).symm)
  exact fun left right _ _ hleft hright ↦ absurd (hleft.trans hright) (not_before_self left)

end Entry

/-! ### One pass -/

namespace Pass

open Entry

/-- A pass changes only the order. -/
theorem perm_carry (carried : Entry) (rest : List Entry) :
    (carry carried rest).entries.Perm (carried :: rest) := by
  induction rest generalizing carried with
  | nil => exact .refl _
  | cons next rest ih =>
    unfold carry
    split_ifs
    · exact (ih next).cons carried
    · exact .refl _
    · exact ((ih carried).cons next).trans (.swap carried next rest)

/-- A pass that stops early met two equal labels. -/
theorem not_distinct_of_carry {carried : Entry} {rest : List Entry}
    (hduplicate : (carry carried rest).duplicate = true) : ¬Distinct (carried :: rest) := by
  induction rest generalizing carried with
  | nil => simp [carry] at hduplicate
  | cons next rest ih =>
    unfold carry at hduplicate
    split_ifs at hduplicate with hless hequal
    · exact fun hdistinct ↦ ih hduplicate (List.nodup_cons.1 hdistinct).2
    · intro hdistinct
      exact (List.nodup_cons.1 hdistinct).1 (by simp [hequal])
    · intro hdistinct
      have hswapped : Distinct (next :: carried :: rest) :=
        ((List.Perm.swap next carried rest).map label).nodup_iff.1 hdistinct
      exact ih hduplicate (List.nodup_cons.1 hswapped).2

/-- A pass to the end leaves the greatest label last. -/
theorem exists_init_of_carry {carried : Entry} {rest : List Entry}
    (hduplicate : (carry carried rest).duplicate = false) :
    ∃ init last, (carry carried rest).entries = init ++ [last] ∧ init.length = rest.length ∧
      (∀ entry ∈ init, entry.Before last) ∧ (carried = last ∨ carried.Before last) := by
  induction rest generalizing carried with
  | nil => exact ⟨[], carried, rfl, rfl, by simp, .inl rfl⟩
  | cons next rest ih =>
    unfold carry at hduplicate ⊢
    split_ifs at hduplicate ⊢ with hless hequal
    · obtain ⟨init, last, hentries, hlength, hinit, hnext⟩ := ih hduplicate
      have hcarried : carried.Before last := by
        rcases hnext with rfl | hbefore
        · exact hless
        · exact Before.trans hless hbefore
      refine ⟨carried :: init, last, by simp [hentries], by simp [hlength], ?_, .inr hcarried⟩
      exact List.forall_mem_cons.2 ⟨hcarried, hinit⟩
    · obtain ⟨init, last, hentries, hlength, hinit, hcarried⟩ := ih hduplicate
      have hgreater := before_of_not hless hequal
      have hnext : next.Before last := by
        rcases hcarried with rfl | hbefore
        · exact hgreater
        · exact hgreater.trans hbefore
      refine ⟨next :: init, last, by simp [hentries], by simp [hlength], ?_, hcarried⟩
      exact List.forall_mem_cons.2 ⟨hnext, hinit⟩

/-- A pass that exchanges nothing finds strictly increasing labels, and leaves them. -/
theorem pairwise_of_carry {carried : Entry} {rest : List Entry}
    (hduplicate : (carry carried rest).duplicate = false)
    (hswapped : (carry carried rest).swapped = false) :
    (carried :: rest).Pairwise Before ∧ (carry carried rest).entries = carried :: rest := by
  induction rest generalizing carried with
  | nil => exact ⟨List.pairwise_singleton _ _, rfl⟩
  | cons next rest ih =>
    unfold carry at hduplicate hswapped ⊢
    split_ifs at hduplicate hswapped ⊢ with hless
    obtain ⟨hpairwise, hentries⟩ := ih hduplicate hswapped
    refine ⟨List.pairwise_cons.2 ⟨?_, hpairwise⟩, by simp [hentries]⟩
    refine List.forall_mem_cons.2 ⟨hless, fun entry hentry ↦ ?_⟩
    exact Before.trans hless (List.rel_of_pairwise_cons hpairwise hentry)

/-- Over strictly increasing labels a pass moves nothing. -/
theorem carry_of_pairwise {carried : Entry} {rest : List Entry}
    (hpairwise : (carried :: rest).Pairwise Before) :
    carry carried rest = ⟨carried :: rest, false, false⟩ := by
  induction rest generalizing carried with
  | nil => rfl
  | cons next rest ih =>
    obtain ⟨hcarried, hrest⟩ := List.pairwise_cons.1 hpairwise
    have hless : carried.label < next.label := hcarried next List.mem_cons_self
    rw [carry, if_pos hless, ih hrest]

/-- A pass leaves what earlier passes put at the end where it is. -/
theorem carry_append {carried : Entry} {front : List Entry} {back : List Entry}
    (hduplicate : (carry carried front).duplicate = false) (hback : back.Pairwise Before)
    (hbefore : ∀ entry ∈ carried :: front, ∀ later ∈ back, entry.Before later) :
    carry carried (front ++ back) =
      { carry carried front with entries := (carry carried front).entries ++ back } := by
  induction front generalizing carried with
  | nil =>
    have hpairwise : (carried :: back).Pairwise Before :=
      List.pairwise_cons.2 ⟨hbefore carried List.mem_cons_self, hback⟩
    rw [List.nil_append, carry_of_pairwise hpairwise]
    rfl
  | cons next front ih =>
    rw [List.cons_append]
    unfold carry at hduplicate ⊢
    split_ifs at hduplicate ⊢ with hless hequal
    · rw [ih hduplicate fun entry hentry ↦ hbefore entry (List.mem_cons_of_mem _ hentry)]
      rfl
    · rw [ih hduplicate fun entry hentry ↦ hbefore entry (by
        rcases List.mem_cons.1 hentry with rfl | hfront
        · exact List.mem_cons_self
        · exact List.mem_cons_of_mem _ (List.mem_cons_of_mem _ hfront))]
      rfl

theorem duplicate_carry_append {carried : Entry} {front back : List Entry}
    (hduplicate : (carry carried front).duplicate = true) :
    (carry carried (front ++ back)).duplicate = true := by
  induction front generalizing carried with
  | nil => simp [carry] at hduplicate
  | cons next front ih =>
    rw [List.cons_append]
    unfold carry at hduplicate ⊢
    split_ifs at hduplicate ⊢ with hless hequal
    · exact ih hduplicate
    · rfl
    · exact ih hduplicate

end Pass

/-! ### All passes -/

open Entry

/-- Each pass puts one more entry in its place at the end, so passes over the entries in front of
those arrange them all or meet two equal labels. -/
theorem settle_cases {passes : Nat} {front back : List Entry} (hlength : front.length ≤ passes)
    (hback : back.Pairwise Before)
    (hbefore : ∀ entry ∈ front, ∀ later ∈ back, entry.Before later) :
    (∃ arranged, settle passes (front ++ back) = (arranged, none) ∧
      arranged.Pairwise Before ∧ arranged.Perm (front ++ back)) ∨
    (∃ arranged, settle passes (front ++ back) = (arranged, some .duplicateLabel) ∧
      ¬Distinct (front ++ back)) := by
  -- A pass moves the last entry of what it carries from `front` to `back`.
  induction passes generalizing front back with
  | zero =>
    cases List.length_eq_zero_iff.1 (Nat.le_zero.1 hlength)
    exact .inl ⟨back, rfl, hback, .refl _⟩
  | succ passes ih =>
    cases front with
    | nil =>
      left
      cases back with
      | nil => exact ⟨[], rfl, .nil, .refl _⟩
      | cons first back =>
        refine ⟨first :: back, ?_, hback, .refl _⟩
        simp [settle, Pass.run, Pass.carry_of_pairwise hback]
    | cons first front =>
      have hrun : Pass.run (first :: front ++ back) = Pass.carry first (front ++ back) := rfl
      cases hduplicate : (Pass.carry first front).duplicate with
      | true =>
        have hmet : (Pass.carry first (front ++ back)).duplicate = true :=
          Pass.duplicate_carry_append hduplicate
        refine .inr ⟨(Pass.carry first (front ++ back)).entries, ?_,
          Pass.not_distinct_of_carry hmet⟩
        rw [settle, hrun]
        simp [hmet]
      | false =>
        have happend := Pass.carry_append hduplicate hback hbefore
        obtain ⟨init, last, hentries, hinitLength, hinit, _⟩ :=
          Pass.exists_init_of_carry hduplicate
        have hperm := Pass.perm_carry first front
        rw [hentries] at hperm
        have hwhole : (init ++ last :: back).Perm (first :: front ++ back) := by
          simpa using hperm.append_right back
        have hpass : (Pass.carry first (front ++ back)).entries = init ++ last :: back := by
          simp [happend, hentries]
        have hclear : (Pass.carry first (front ++ back)).duplicate = false := by
          simp [happend, hduplicate]
        cases hswapped : (Pass.carry first (front ++ back)).swapped with
        | false =>
          obtain ⟨hpairwise, hsame⟩ := Pass.pairwise_of_carry hclear hswapped
          refine .inl ⟨first :: (front ++ back), ?_, hpairwise, .refl _⟩
          rw [settle, hrun]
          simp [hclear, hswapped, hsame]
        | true =>
          have hsettle : settle (passes + 1) (first :: front ++ back) =
              settle passes (init ++ last :: back) := by
            rw [settle, hrun]
            simp [hclear, hswapped, hpass]
          have hlast : ∀ later ∈ back, last.Before later :=
            hbefore last (hperm.mem_iff.1 (by simp))
          have hlater : ∀ entry ∈ init, ∀ later ∈ last :: back, entry.Before later := by
            intro entry hentry
            refine List.forall_mem_cons.2 ⟨hinit entry hentry, fun later hmem ↦ ?_⟩
            exact (hinit entry hentry).trans (hlast later hmem)
          rw [hsettle]
          obtain ⟨arranged, hresult, hpairwise, harranged⟩ | ⟨arranged, hresult, hequal⟩ :=
            ih (by simpa [hinitLength] using hlength) (List.pairwise_cons.2 ⟨hlast, hback⟩) hlater
          · exact .inl ⟨arranged, hresult, hpairwise, harranged.trans hwhole⟩
          · refine .inr ⟨arranged, hresult, fun hdistinct ↦ hequal ?_⟩
            exact (hwhole.map label).nodup_iff.2 hdistinct

/-- Passes stop early only at two equal labels. -/
theorem cause_of_settle {passes : Nat} {entries : List Entry} {cause : EncodeError}
    (hfailure : (settle passes entries).2 = some cause) : cause = .duplicateLabel := by
  induction passes generalizing entries with
  | zero => cases hfailure
  | succ passes ih =>
    unfold settle at hfailure
    dsimp only at hfailure
    split_ifs at hfailure
    · exact (Option.some.inj hfailure).symm
    · exact ih hfailure

/-- The entries of a map cannot be put in order if two labels are equal or the body does not split
into whole entries. -/
theorem cause_of_sortEntries {body : Bytes} {cause : EncodeError}
    (hfailure : (sortEntries body).2 = some cause) :
    cause = .duplicateLabel ∨ cause = .unsupported := by
  unfold sortEntries at hfailure
  cases htail : (splitEntries body).2.isEmpty with
  | true =>
    simp only [htail, if_true] at hfailure
    exact .inl (cause_of_settle hfailure)
  | false =>
    simp only [htail, Bool.false_eq_true, if_false, Option.some.injEq] at hfailure
    split at hfailure
    · exact .inl hfailure.symm
    · exact .inr hfailure.symm

/-- Entries with distinct labels are put in order. -/
theorem settle_eq_sorted {entries : List Entry} (hdistinct : Distinct entries) :
    settle entries.length entries = (sorted entries, none) := by
  obtain ⟨arranged, hresult, hpairwise, hperm⟩ | ⟨_, _, hequal⟩ :=
    settle_cases (Nat.le_refl entries.length) .nil (fun _ _ _ hmem ↦ by cases hmem)
  · rw [List.append_nil] at hresult hperm
    rw [hresult, eq_sorted hperm hpairwise]
  · rw [List.append_nil] at hequal
    exact absurd hdistinct hequal

/-- Two equal labels are found wherever they stand. -/
theorem settle_of_not_distinct {entries : List Entry} (hequal : ¬Distinct entries) :
    ∃ arranged, settle entries.length entries = (arranged, some .duplicateLabel) := by
  obtain ⟨arranged, hresult, hpairwise, hperm⟩ | ⟨arranged, hresult, _⟩ :=
    settle_cases (Nat.le_refl entries.length) .nil (fun _ _ _ hmem ↦ by cases hmem)
  · rw [List.append_nil] at hperm
    exact absurd ((hperm.map label).nodup_iff.1 (distinct_of_pairwise hpairwise)) hequal
  · rw [List.append_nil] at hresult
    exact ⟨arranged, hresult⟩

/-! ### Length -/

/-- The entry at the start of a byte string is an initial part of it. -/
theorem prefix_of_first? {bytes : Bytes} {entry : Entry} (hfirst : first? bytes = some entry) :
    entry.encoded <+: bytes := by
  unfold first? at hfirst
  split at hfirst
  · simp at hfirst
  next labelLength hlabel =>
    dsimp only at hfirst
    split at hfirst
    · simp at hfirst
    next valueLength hvalue =>
      cases hfirst
      rw [Entry.encoded, ← List.take_add]
      exact List.take_prefix _ _

/-- The whole entries of a body and its tail are the body. -/
theorem encodedEntries_splitEntries (body : Bytes) :
    encodedEntries (splitEntries body).1 ++ (splitEntries body).2 = body := by
  fun_induction splitEntries body with
  | case1 body hnone => rfl
  | case2 body entry hfirst entries tail hsplit ih =>
    rw [hsplit] at ih
    have hwhole := List.prefix_iff_eq_append.1 (prefix_of_first? hfirst)
    rw [← ih] at hwhole
    rw [encodedEntries, List.flatMap_cons, List.append_assoc]
    exact hwhole

theorem Pass.perm_run (entries : List Entry) : (Pass.run entries).entries.Perm entries := by
  cases entries with
  | nil => exact .refl _
  | cons first rest => exact Pass.perm_carry first rest

/-- However many passes are made, and whatever they meet, they change only the order. -/
theorem perm_settle (passes : Nat) (entries : List Entry) :
    (settle passes entries).1.Perm entries := by
  induction passes generalizing entries with
  | zero => exact .refl _
  | succ passes ih =>
    have hrun := Pass.perm_run entries
    unfold settle
    dsimp only
    split_ifs
    · exact hrun
    · exact (ih _).trans hrun
    · exact hrun

theorem length_encodedEntries_of_perm {left right : List Entry} (hperm : left.Perm right) :
    (encodedEntries left).length = (encodedEntries right).length :=
  (hperm.flatMap_right Entry.encoded).length_eq

/-- A body keeps its length, even where its entries cannot be put in order. -/
theorem length_sortEntries (body : Bytes) : (sortEntries body).1.length = body.length := by
  have hsplit := congrArg List.length (encodedEntries_splitEntries body)
  rw [List.length_append] at hsplit
  unfold sortEntries
  cases htail : (splitEntries body).2.isEmpty with
  | true =>
    rw [List.isEmpty_iff] at htail
    rw [htail, List.length_nil, Nat.add_zero] at hsplit
    simp only [htail, List.isEmpty_nil, if_true]
    rw [length_encodedEntries_of_perm (perm_settle _ _)]
    exact hsplit
  | false =>
    simp only [htail, Bool.false_eq_true, if_false, List.length_append]
    rw [length_encodedEntries_of_perm (Pass.perm_run _)]
    exact hsplit

end Cose.Cbor
