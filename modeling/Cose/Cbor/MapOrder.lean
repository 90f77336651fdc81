import Cose.Cbor.Extent

/-!
# Order of map entries

Deterministic encoding puts the entries of a map in bytewise order of their encoded labels. The
body of a map is split into its entries by the extent of each item, and the entries are put in
order by exchanging neighbours, pass after pass. A pass that meets two equal labels side by side
stops there, and a body that does not split into whole entries fails at the end of its first
pass; either way the arrangement reached so far is kept, because the body of a failed session
remains visible.
-/

set_option autoImplicit false
set_option relaxedAutoImplicit false

namespace Cose.Cbor

/-- An encoded entry of a map: a label and a value, each one item. -/
structure Entry where
  label : Bytes
  value : Bytes
deriving DecidableEq, Repr

namespace Entry

/-- The bytes of an entry. -/
def encoded (entry : Entry) : Bytes := entry.label ++ entry.value

/-- The entry at the start of a byte string. -/
def first? (bytes : Bytes) : Option Entry :=
  match itemLength? bytes with
  | none => none
  | some labelLength =>
    let afterLabel := bytes.drop labelLength
    match itemLength? afterLabel with
    | none => none
    | some valueLength => some ⟨bytes.take labelLength, afterLabel.take valueLength⟩

/-- The entry at the start of a byte string is a nonempty initial part of it. -/
theorem length_of_first? {bytes : Bytes} {entry : Entry} (hfirst : first? bytes = some entry) :
    0 < entry.encoded.length ∧ entry.encoded.length ≤ bytes.length := by
  unfold first? at hfirst
  split at hfirst
  · simp at hfirst
  next labelLength hlabel =>
    dsimp only at hfirst
    split at hfirst
    · simp at hfirst
    next valueLength hvalue =>
      cases hfirst
      have hlabelBounds := bounds_of_itemLength? hlabel
      have hvalueBounds := bounds_of_itemLength? hvalue
      simp only [encoded, List.length_append, List.length_take, List.length_drop] at *
      omega

end Entry

/-- The whole entries at the start of the body of a map, and the tail that is no entry. -/
def splitEntries (body : Bytes) : List Entry × Bytes :=
  match _hfirst : Entry.first? body with
  | none => ([], body)
  | some entry =>
    let (entries, tail) := splitEntries (body.drop entry.encoded.length)
    (entry :: entries, tail)
termination_by body.length
decreasing_by
  have hlength := Entry.length_of_first? _hfirst
  rw [List.length_drop]
  omega

/-- What one pass over the entries of a map leaves. -/
structure Pass where
  entries : List Entry
  /-- Whether two entries were exchanged. -/
  swapped : Bool
  /-- Whether the pass stopped at two equal labels. -/
  duplicate : Bool
deriving DecidableEq, Repr

namespace Pass

/-- Carry an entry along a list of entries, leaving it before the first entry with a greater
label and carrying that one on. -/
def carry (carried : Entry) : List Entry → Pass
  | [] => ⟨[carried], false, false⟩
  | next :: rest =>
    if carried.label < next.label then
      let pass := carry next rest
      { pass with entries := carried :: pass.entries }
    else if carried.label = next.label then
      ⟨carried :: next :: rest, false, true⟩
    else
      let pass := carry carried rest
      { pass with entries := next :: pass.entries, swapped := true }

/-- One pass over all entries. -/
def run : List Entry → Pass
  | [] => ⟨[], false, false⟩
  | first :: rest => carry first rest

end Pass

/-- Pass over the entries until nothing is exchanged, or two equal labels meet. As many passes as
there are entries are enough. -/
def settle : (passes : Nat) → List Entry → List Entry × Option EncodeError
  | 0, entries => (entries, none)
  | passes + 1, entries =>
    let pass := Pass.run entries
    if pass.duplicate then (pass.entries, some .duplicateLabel)
    else if pass.swapped then settle passes pass.entries
    else (pass.entries, none)

/-- The bytes of a list of entries. -/
def encodedEntries (entries : List Entry) : Bytes := entries.flatMap Entry.encoded

/-- Put the entries of an encoded map body in order. The second component says why that failed,
and the first is then the arrangement that was reached. -/
def sortEntries (body : Bytes) : Bytes × Option EncodeError :=
  let (entries, tail) := splitEntries body
  if tail.isEmpty then
    let (sorted, failure) := settle entries.length entries
    (encodedEntries sorted, failure)
  else
    let pass := Pass.run entries
    (encodedEntries pass.entries ++ tail,
      some (if pass.duplicate then .duplicateLabel else .unsupported))

end Cose.Cbor
