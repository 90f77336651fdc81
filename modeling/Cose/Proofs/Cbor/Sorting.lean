import Mathlib.Tactic.Common
import Cose.Proofs.Cbor.InPlace

/-!
# What sorting in place does to a map

The loop that puts the entries of a map in order in place has no bound on its passes. It ends all
the same, whatever the bytes are (`sortsInPlace`). Where the bytes are labels and values, each one
item and nothing between them, it ends with the same entries in strictly increasing order of their
labels, or with two of its labels that are equal: `sortsInPlace_exactly`.
-/

set_option autoImplicit false
set_option relaxedAutoImplicit false

namespace Cose.Cbor

/-! ### Bodies of whole entries -/

/-- Whether the label and the value of an entry are one item each. -/
structure Entry.IsWhole (entry : Entry) : Prop where
  label : itemLength? entry.label = some entry.label.length
  value : itemLength? entry.value = some entry.value.length

theorem Entry.IsWhole.standsAlone {entry : Entry} (hwhole : entry.IsWhole) :
    entry.StandsAlone := by
  intro more
  have hlabel := itemLength?_take_append hwhole.label (entry.value ++ more)
  have hvalue := itemLength?_take_append hwhole.value more
  rw [List.take_length] at hlabel hvalue
  simp only [encoded, List.append_assoc, first?, hlabel, List.drop_left, List.take_left, hvalue]

/-- An entry is found as two items. -/
theorem Entry.isWhole_of_first? {bytes : Bytes} {entry : Entry}
    (hfirst : first? bytes = some entry) : entry.IsWhole := by
  have hitem {bytes : Bytes} {length : Nat} (hlength : itemLength? bytes = some length) :
      itemLength? (bytes.take length) = some (bytes.take length).length := by
    have halone := itemLength?_take_append hlength []
    rw [List.append_nil] at halone
    rw [halone, List.length_take_of_le (bounds_of_itemLength? hlength).2]
  unfold first? at hfirst
  split at hfirst
  · cases hfirst
  next labelLength hlabel =>
    dsimp only at hfirst
    split at hfirst
    · cases hfirst
    next valueLength hvalue =>
      cases hfirst
      exact ⟨hitem hlabel, hitem hvalue⟩

theorem isWhole_of_mem_splitEntries {body : Bytes} :
    ∀ entry ∈ (splitEntries body).1, entry.IsWhole := by
  fun_induction splitEntries body with
  | case1 => exact fun _ hmem ↦ (by cases hmem)
  | case2 body entry hfirst entries tail hsplit ih =>
    rw [hsplit] at ih
    exact List.forall_mem_cons.2 ⟨Entry.isWhole_of_first? hfirst, ih⟩

/-- A body splits into certain entries without a tail if and only if it consists of them and both
parts of each are one item. -/
theorem splitEntries_eq_iff {body : Bytes} {entries : List Entry} :
    splitEntries body = (entries, []) ↔
      (∀ entry ∈ entries, entry.IsWhole) ∧ body = encodedEntries entries := by
  constructor
  · intro hsplit
    have hwhole := @isWhole_of_mem_splitEntries body
    have hbytes := encodedEntries_splitEntries body
    rw [hsplit] at hwhole hbytes
    rw [List.append_nil] at hbytes
    exact ⟨hwhole, hbytes.symm⟩
  · rintro ⟨hwhole, rfl⟩
    exact splitEntries_of_standsAlone fun entry hmem ↦ (hwhole entry hmem).standsAlone

/-! ### The outcome of sorting -/

/-- Whether sorting a body in place comes to an end with certain bytes and a certain failure, if
any: it does with every number of passes from some number on. -/
def SortsInPlace (body : Bytes) (outcome : Bytes × Option EncodeError) : Prop :=
  ∃ enough, ∀ passes, enough ≤ passes → sortInPlace? passes body = some outcome

variable {body : Bytes}

theorem SortsInPlace.unique {first second : Bytes × Option EncodeError}
    (hfirst : SortsInPlace body first) (hsecond : SortsInPlace body second) : first = second := by
  obtain ⟨enough, hends⟩ := hfirst
  obtain ⟨others, hothers⟩ := hsecond
  have hsame := hends (enough + others) (Nat.le_add_right _ _)
  rw [hothers (enough + others) (Nat.le_add_left _ _)] at hsame
  exact (Option.some.inj hsame).symm

/-- Sorting in place ends for every body, with every number in range. -/
theorem sortsInPlace (hsize : body.length < 2 ^ 64) : SortsInPlace body (sortEntries body) :=
  ⟨body.length + 1, fun _ ↦ sortInPlace?_of_lt hsize⟩

/-- Sorting in place ends for every body of bytes, with no position, range or sum out of range. If
the body consists of entries whose labels and values are one item each, it succeeds exactly if the
labels are pairwise distinct. Then the same entries are left in strictly increasing order of their
labels, byte by byte. Two equal labels are found wherever they stand, and no entry is lost. -/
theorem sortsInPlace_exactly (hsize : body.length < 2 ^ 64) :
    SortsInPlace body (sortEntries body) ∧
    ∀ entries : List Entry, (∀ entry ∈ entries, entry.IsWhole) → body = encodedEntries entries →
      ((∃ left, SortsInPlace body (left, none)) ↔ Entry.Distinct entries) ∧
      (Entry.Distinct entries → ∃ arranged : List Entry, arranged.Perm entries ∧
        arranged.Pairwise Entry.Before ∧ SortsInPlace body (encodedEntries arranged, none)) ∧
      (¬Entry.Distinct entries → ∃ reached : List Entry, reached.Perm entries ∧
        SortsInPlace body (encodedEntries reached, some .duplicateLabel)) := by
  refine ⟨sortsInPlace hsize, fun entries hwhole hbody ↦ ?_⟩
  have hends : SortsInPlace body ((settle entries.length entries).map encodedEntries id) := by
    have hsorts := sortsInPlace hsize
    rw [sortEntries, splitEntries_eq_iff.2 ⟨hwhole, hbody⟩] at hsorts
    exact hsorts
  have harranged (hdistinct : Entry.Distinct entries) :
      SortsInPlace body (encodedEntries (Entry.sorted entries), none) := by
    rwa [settle_eq_sorted hdistinct] at hends
  have hrefused (hequal : ¬Entry.Distinct entries) : ∃ reached : List Entry,
      reached.Perm entries ∧ SortsInPlace body (encodedEntries reached, some .duplicateLabel) := by
    obtain ⟨reached, hsettled⟩ := settle_of_not_distinct hequal
    have hperm := perm_settle entries.length entries
    rw [hsettled] at hends hperm
    exact ⟨reached, hperm, hends⟩
  refine ⟨⟨fun ⟨left, hsorts⟩ ↦ ?_, fun hdistinct ↦ ⟨_, harranged hdistinct⟩⟩,
    fun hdistinct ↦ ⟨_, Entry.perm_sorted entries, Entry.pairwise_sorted hdistinct,
      harranged hdistinct⟩, hrefused⟩
  by_contra hequal
  obtain ⟨reached, _, hduplicate⟩ := hrefused hequal
  cases congrArg Prod.snd (hsorts.unique hduplicate)

/-- Three entries in decreasing order, with labels and values of several lengths, and the same with
the first of them again behind the others. -/
theorem sortsInPlace_exactly_decreasing :
    let text : Entry := ⟨[0x62, 0x61, 0x62], [0x82, 0x01, 0xf5]⟩
    let negative : Entry := ⟨[0x20], [0x41, 0x00]⟩
    let positive : Entry := ⟨[0x18, 0x64], [0xc1, 0xa0]⟩
    SortsInPlace (encodedEntries [text, negative, positive])
        (encodedEntries [positive, negative, text], none) ∧
      ∃ reached : List Entry, reached.Perm [text, negative, positive, text] ∧
        SortsInPlace (encodedEntries [text, negative, positive, text])
          (encodedEntries reached, some .duplicateLabel) := by
  intro text negative positive
  have htext : text.IsWhole := ⟨by cbv, by cbv⟩
  have hnegative : negative.IsWhole := ⟨by cbv, by cbv⟩
  have hpositive : positive.IsWhole := ⟨by cbv, by cbv⟩
  have hincreasing : [positive, negative, text].Pairwise Entry.Before := by
    unfold Entry.Before
    decide
  have hdistinct : Entry.Distinct [text, negative, positive] := by
    unfold Entry.Distinct
    decide
  have hequal : ¬Entry.Distinct [text, negative, positive, text] := by
    unfold Entry.Distinct
    decide
  have hsize : (encodedEntries [text, negative, positive]).length < 2 ^ 64 := by decide
  have hsizeRepeated : (encodedEntries [text, negative, positive, text]).length < 2 ^ 64 := by
    decide
  obtain ⟨_, hsorts, _⟩ := (sortsInPlace_exactly hsize).2 [text, negative, positive]
    (by simp [htext, hnegative, hpositive]) rfl
  obtain ⟨_, _, hrefused⟩ := (sortsInPlace_exactly hsizeRepeated).2
    [text, negative, positive, text] (by simp [htext, hnegative, hpositive]) rfl
  obtain ⟨arranged, hperm, hpairwise, hends⟩ := hsorts hdistinct
  rw [Entry.eq_sorted hperm hpairwise, ← Entry.eq_sorted (by decide) hincreasing] at hends
  exact ⟨hends, hrefused hequal⟩

end Cose.Cbor
