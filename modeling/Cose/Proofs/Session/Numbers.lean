import Mathlib.Tactic.NormNum
import Cose.Proofs.Cbor.Encoder.Labels
import Cose.Proofs.Cbor.Uniqueness
import Cose.Proofs.Float.Numeric
import Cose.Proofs.Session.Capacity

/-!
# Numbers have one encoding

By rules that unify numbers, a number is written as a leaf that depends on its value alone, not on
whether it came as an integer or as a floating point number, or in which precision
(`Number.exists_leaf`). A leaf tells the value back (`NumberLeaf.numeric?_eq`), so two numbers have
the same encoding if and only if they have the same value, alone and as labels of a map:
`Number.dcbor_same_bytes_iff_same_value`.
-/

set_option autoImplicit false
set_option relaxedAutoImplicit false

namespace Cose

open Cose.Float (Numeric WholeNumber)

namespace Cbor

/-- The rules that write numbers of the same value alike. -/
structure Rules.UnifiesNumbers (rules : Rules) : Prop where
  floatsToInts_eq : rules.floatsToInts = true
  canonicalNaN_eq : rules.canonicalNaN = true
  reduceFloats_eq : rules.reduceFloats = true

theorem Rules.unifiesNumbers_dcbor : Rules.dcbor.UnifiesNumbers := ⟨rfl, rfl, rfl⟩

/-! ### Numbers and their values -/

/-- A number in one of the forms in which it may be appended. -/
inductive Number where
  | int (number : Int64)
  | unsigned (number : UInt64)
  /-- The integer `-1 - number`. -/
  | negative (number : UInt64)
  | double (number : Float.Double)
  | single (number : Float.Single)
deriving DecidableEq, Repr

namespace Number

/-- The scalar that a number is appended as. -/
def scalar : Number → Scalar
  | int number => .int number
  | unsigned number => .unsigned number
  | negative number => .negative number
  | double number => .double number
  | single number => .single number

/-- The value of a number. It is the same for both zeros, and for all NaNs. -/
def numeric : Number → Numeric
  | int number => .finite number.toInt
  | unsigned number => .finite number.toNat
  | negative number => .finite (-1 - number.toNat)
  | double number => number.datum.numeric
  | single number => number.datum.numeric

/-- An integer between `-2 ^ 64` and `2 ^ 64 - 1`. -/
def ofInt : ℤ → Number
  | .ofNat n => unsigned (UInt64.ofNat n)
  | .negSucc n => negative (UInt64.ofNat n)

theorem numeric_ofInt {value : ℤ} (hlower : -2 ^ 64 ≤ value) (hupper : value < 2 ^ 64) :
    (ofInt value).numeric = .finite value := by
  cases value with
  | ofNat n =>
    have hn : n < 2 ^ 64 := by
      rw [Int.ofNat_eq_natCast] at hupper
      omega
    rw [ofInt, numeric, UInt64.toNat_ofNat_of_lt' hn]
    rfl
  | negSucc n =>
    have hn : n < 2 ^ 64 := by omega
    rw [ofInt, numeric, UInt64.toNat_ofNat_of_lt' hn, Int.negSucc_eq]
    congr 1
    push_cast
    ring

end Number

/-! ### The leaf of a value -/

/-- The value of an item, if it is a number. -/
def ItemValue.numeric? : ItemValue → Option Numeric
  | unsigned n => some (.finite n.toNat)
  | negative n => some (.finite (-1 - n.toNat))
  | float number => some number.datum.numeric
  | _ => none

/-- The leaf of an integer. -/
def wholeLeaf : WholeNumber → Leaf
  | .unsigned n => .unsigned (.shortest n)
  | .negative n => .negative (.shortest n)

/-- The leaf that a value is written as: an integer where 64 bits are enough for it, one NaN for
all, and otherwise the narrowest precision. -/
inductive NumberLeaf : Numeric → Leaf → Prop where
  | whole (number : WholeNumber) : NumberLeaf (.finite number.value) (wholeLeaf number)
  | nan : NumberLeaf .nan (.half Float.Half.quietNaN)
  | reduced (number : Float.Double) (hwhole : number.wholeNumber? = none)
      (hnan : number.isNaN = false) : NumberLeaf number.datum.numeric (reducedLeaf number.reduce)

namespace NumberLeaf

variable {numeric other : Numeric} {first second : Leaf}

theorem isNaN_quietNaN : Float.Half.quietNaN.toDouble.isNaN = true := by decide

theorem unsigned (n : UInt64) : NumberLeaf (.finite n.toNat) (.unsigned (.shortest n)) :=
  .whole (.unsigned n)

theorem negative (n : UInt64) : NumberLeaf (.finite (-1 - n.toNat)) (.negative (.shortest n)) := by
  have hleaf : NumberLeaf (.finite ((-1 - n.toNat : ℤ) : ℚ)) (.negative (.shortest n)) :=
    .whole (.negative n)
  push_cast at hleaf
  exact hleaf

/-- The value is read back from the leaf. -/
theorem numeric?_eq (hfirst : NumberLeaf numeric first) : first.value.numeric? = some numeric := by
  cases hfirst with
  | whole number =>
    cases number with
    | unsigned n => rfl
    | negative n =>
      change some (Numeric.finite (-1 - n.toNat)) = some (.finite ((-1 - n.toNat : ℤ) : ℚ))
      push_cast
      rfl
  | nan =>
    change some Float.Half.quietNaN.toDouble.datum.numeric = some .nan
    rw [(Float.Double.isNaN_iff _).1 isNaN_quietNaN]
  | reduced number hwhole hnan =>
    rw [value_reducedLeaf, Float.Double.toDouble_reduce]
    rfl

/-- A value has one leaf. -/
theorem unique (hfirst : NumberLeaf numeric first) (hsecond : NumberLeaf numeric second) :
    first = second := by
  have hwholeOf (whole : WholeNumber) (number : Float.Double)
      (hsame : number.datum.numeric = .finite whole.value) : number.wholeNumber? ≠ none := by
    rw [(Float.Double.wholeNumber?_eq_some_iff number whole).2 hsame]
    exact Option.some_ne_none _
  have hnotNaN (number : Float.Double) (hnan : number.isNaN = false) :
      number.datum.numeric ≠ .nan := by
    rw [Ne, ← Float.Double.isNaN_iff, hnan]
    exact Bool.false_ne_true
  cases hfirst with
  | whole whole =>
    generalize hnumeric : Numeric.finite whole.value = numeric at hsecond
    cases hsecond with
    | whole found =>
      rw [Float.WholeNumber.value_injective (Int.cast_injective (Numeric.finite.inj hnumeric))]
    | nan => cases hnumeric
    | reduced number hwhole hnan => exact absurd hwhole (hwholeOf whole number hnumeric.symm)
  | nan =>
    generalize hnumeric : Numeric.nan = numeric at hsecond
    cases hsecond with
    | whole found => cases hnumeric
    | nan => rfl
    | reduced number hwhole hnan => exact absurd hnumeric.symm (hnotNaN number hnan)
  | reduced number hwhole hnan =>
    generalize hnumeric : number.datum.numeric = numeric at hsecond
    cases hsecond with
    | whole found => exact absurd hwhole (hwholeOf found number hnumeric)
    | nan => exact absurd hnumeric (hnotNaN number hnan)
    | reduced found hfound hproper =>
      have hzero : number.datum.numeric ≠ .finite 0 := fun hzero ↦
        hwholeOf (.unsigned 0) number (by simpa [WholeNumber.value] using hzero) hwhole
      rw [Float.Double.eq_of_numeric_eq (hnotNaN number hnan) hzero hnumeric]

/-- Two values have leaves with the same bytes if and only if they are the same. -/
theorem encoded_eq_iff (hfirst : NumberLeaf numeric first) (hsecond : NumberLeaf other second) :
    (Node.leaf first).encoded = (Node.leaf second).encoded ↔ numeric = other := by
  constructor
  · intro hbytes
    have hnode := Node.encoded_inj (Node.wellFormed_leaf 0 first).regular
      (Node.wellFormed_leaf 0 second).regular hbytes
    obtain rfl : first = second := by
      cases hnode
      rfl
    exact Option.some.inj (hfirst.numeric?_eq.symm.trans hsecond.numeric?_eq)
  · rintro rfl
    rw [hfirst.unique hsecond]

/-- The leaf of a number is nothing but its head. -/
theorem encoded_eq_head (hfirst : NumberLeaf numeric first) :
    (Node.leaf first).encoded = first.argument.head first.major := by
  have hcontent : first.content = [] := by
    cases hfirst with
    | whole number => cases number <;> rfl
    | nan => rfl
    | reduced number hwhole hnan => exact content_reducedLeaf _
  rw [Node.encoded_leaf, hcontent, List.append_nil]

end NumberLeaf

/-! ### Numbers are written by their value -/

namespace Number

variable {rules : Rules}

/-- A floating point number, in the precision in which it was reduced, is written by its value. -/
theorem exists_leaf_floatBytes (hrules : rules.UnifiesNumbers) (number : Float.Double)
    (full : Float.Reduced) :
    ∃ atom, NumberLeaf number.datum.numeric atom ∧ (Node.leaf atom).encoded =
      floatBytes rules number.wholeNumber? number.isNaN number.reduce full := by
  simp only [floatBytes, hrules.floatsToInts_eq, hrules.canonicalNaN_eq, hrules.reduceFloats_eq,
    if_true, Bool.and_true]
  split
  next whole hwhole =>
    have hatom := NumberLeaf.whole whole
    rw [← (Float.Double.wholeNumber?_eq_some_iff number whole).1 hwhole] at hatom
    refine ⟨_, hatom, hatom.encoded_eq_head.trans ?_⟩
    cases whole <;> rfl
  next hwhole =>
    split
    next hnan =>
      have hatom := NumberLeaf.nan
      rw [← (Float.Double.isNaN_iff number).1 hnan] at hatom
      exact ⟨_, hatom, hatom.encoded_eq_head⟩
    next hnan =>
      have hatom := NumberLeaf.reduced number hwhole (Bool.eq_false_of_not_eq_true hnan)
      exact ⟨_, hatom, hatom.encoded_eq_head.trans (reducedBytes_eq _).symm⟩

/-- A signed integer of 64 bits is written like the same integer in another form. -/
theorem encoded_int (rules : Rules) (number : Int64) :
    (int number).scalar.encoded rules = (ofInt number.toInt).scalar.encoded rules := by
  simp only [scalar, Scalar.encoded]
  cases number.toInt <;> rfl

theorem numeric_int (number : Int64) : (int number).numeric = (ofInt number.toInt).numeric := by
  have hlower := number.le_toInt
  have hupper := number.toInt_lt
  exact (numeric_ofInt (by omega) (by omega)).symm

/-- Every number is written by its value. -/
theorem exists_leaf (hrules : rules.UnifiesNumbers) (number : Number) :
    ∃ atom, NumberLeaf number.numeric atom ∧
      (Node.leaf atom).encoded = number.scalar.encoded rules := by
  have hunsigned (n : UInt64) : ∃ atom, NumberLeaf (unsigned n).numeric atom ∧
      (Node.leaf atom).encoded = (unsigned n).scalar.encoded rules :=
    ⟨_, .unsigned n, (NumberLeaf.unsigned n).encoded_eq_head⟩
  have hnegative (n : UInt64) : ∃ atom, NumberLeaf (negative n).numeric atom ∧
      (Node.leaf atom).encoded = (negative n).scalar.encoded rules :=
    ⟨_, .negative n, (NumberLeaf.negative n).encoded_eq_head⟩
  cases number with
  | int number =>
    rw [numeric_int, encoded_int]
    cases number.toInt with
    | ofNat n => exact hunsigned _
    | negSucc n => exact hnegative _
  | unsigned n => exact hunsigned n
  | negative n => exact hnegative n
  | double number => exact exists_leaf_floatBytes hrules number (.double number)
  | single number =>
    have hleaf := exists_leaf_floatBytes hrules number.toDouble (.single number)
    rwa [Float.Single.datum_toDouble, Float.Single.isNaN_toDouble,
      ← Float.Single.reduce_eq] at hleaf

/-- Two numbers have the same bytes if and only if they have the same value. -/
theorem encoded_eq_iff (hrules : rules.UnifiesNumbers) (first second : Number) :
    first.scalar.encoded rules = second.scalar.encoded rules ↔
      first.numeric = second.numeric := by
  obtain ⟨atom, hatom, hfirst⟩ := first.exists_leaf hrules
  obtain ⟨other, hother, hsecond⟩ := second.exists_leaf hrules
  rw [← hfirst, ← hsecond]
  exact hatom.encoded_eq_iff hother

/-! ### Numbers in sessions -/

theorem length_encoded_le (hrules : rules.UnifiesNumbers) (number : Number) :
    (number.scalar.encoded rules).length ≤ 9 := by
  obtain ⟨atom, hatom, hencoded⟩ := number.exists_leaf hrules
  rw [← hencoded, hatom.encoded_eq_head, Argument.length_head]
  cases atom.argument.width <;> decide

/-- Whether a number that is appended to a session and nothing else gives some bytes, wherever there
is room for them. -/
structure Yields (rules : Rules) (number : Number) (bytes : Bytes) : Prop where
  growable_eq : (number.scalar.append (.growable rules)).finish = .ok bytes
  fixed_eq : ∀ storage : Bytes,
    (number.scalar.append (.ofOutput (.fixed #[] storage) rules)).finish =
      if bytes.length ≤ storage.length then .ok bytes else .error .bufferTooSmall

theorem yields_encoded (hrules : rules.UnifiesNumbers) (number : Number) :
    number.Yields rules (number.scalar.encoded rules) := by
  have hlength := number.length_encoded_le hrules
  have hmaximum : 9 ≤ maxEncodedLength := by decide
  have hallowed : (Outline.scalar number.scalar).Admissible rules 0 := by
    cases number <;> trivial
  have hgrowable : ((Encoder.growable rules).perform [.scalar number.scalar]).finish =
      .ok (number.scalar.encoded rules) :=
    Encoder.finish_perform_outline hallowed (Nat.le_trans hlength hmaximum)
  have htraceable : Session.Traceable .bounded (modify fun encoder ↦
    encoder.perform [.scalar number.scalar] : Session PUnit) := .perform _
  exact ⟨hgrowable, htraceable.finish_fixed rules hgrowable⟩

/-- A number as a member of another item. -/
def outline (number : Number) : Outline := .scalar number.scalar

/-- Two labels have equal bytes if they have the same value. -/
theorem not_nodup_encodedLabels (hrules : rules.UnifiesNumbers) {first second : Number}
    (hsame : first.numeric = second.numeric) {entries : List (Outline × Outline)}
    (hlabels : [first.outline, second.outline].Sublist (entries.map Prod.fst)) :
    ¬(Outline.encodedLabels rules entries).Nodup := by
  have hbytes : first.outline.encoded rules = second.outline.encoded rules :=
    (encoded_eq_iff hrules first second).2 hsame
  have hsublist := hlabels.map (Outline.encoded rules)
  rw [List.map_cons, List.map_cons, hbytes] at hsublist
  exact fun hnodup ↦ List.nodup_iff_sublist.1 hnodup _ hsublist

/-- Labels of different values have different bytes. -/
theorem nodup_encodedLabels_iff (hrules : rules.UnifiesNumbers) {labels : List Number}
    {entries : List (Outline × Outline)}
    (hlabels : entries.map Prod.fst = labels.map outline) :
    (Outline.encodedLabels rules entries).Nodup ↔ (labels.map numeric).Nodup := by
  rw [Outline.encodedLabels, hlabels, List.map_map]
  simp only [List.Nodup, List.pairwise_map, Function.comp, outline, Outline.encoded, Ne,
    encoded_eq_iff hrules]

/-- With the deterministic rules that unify numbers, two numbers are written alike if and only if
they have the same value. So a floating point number that is an integer between `-2 ^ 64` and
`2 ^ 64 - 1` is written as this integer. As labels of a map, wherever it stands in a session, two
numbers of the same value are refused as equal whatever the other labels are, and numbers of
different values never are. -/
theorem dcbor_same_bytes_iff_same_value :
    (∀ first second : Number, ∃ bytes other, first.Yields .dcbor bytes ∧
      second.Yields .dcbor other ∧ (bytes = other ↔ first.numeric = second.numeric)) ∧
    (∀ (number : Number) (value : ℤ), -2 ^ 64 ≤ value → value < 2 ^ 64 →
      number.numeric = .finite value →
        ∃ bytes, number.Yields .dcbor bytes ∧ (ofInt value).Yields .dcbor bytes) ∧
    ∀ (before : List Operation) (entries : List (Outline × Outline)),
      (Encoder.opened .dcbor before .map (Outline.ofEntries entries)).error = none →
        (∀ first second : Number, first.numeric = second.numeric →
          [first.outline, second.outline].Sublist (entries.map Prod.fst) →
            (Encoder.opened .dcbor before .map (Outline.ofEntries entries)).closeMap.error =
              some .duplicateLabel) ∧
        ∀ labels : List Number, entries.map Prod.fst = labels.map outline →
          ((Encoder.opened .dcbor before .map (Outline.ofEntries entries)).closeMap.error =
              some .duplicateLabel ↔
            ¬(labels.map numeric).Nodup) := by
  have hrules := Rules.unifiesNumbers_dcbor
  refine ⟨fun first second ↦ ⟨_, _, first.yields_encoded hrules, second.yields_encoded hrules,
    encoded_eq_iff hrules first second⟩, fun number value hlower hupper hnumber ↦ ?_,
    fun before entries hlive ↦ ?_⟩
  · have hsame := (encoded_eq_iff hrules number (ofInt value)).2
      (hnumber.trans (numeric_ofInt hlower hupper).symm)
    exact ⟨_, number.yields_encoded hrules, hsame ▸ (ofInt value).yields_encoded hrules⟩
  · have hrefused := Encoder.error_closeMap_opened_iff rfl hlive
    refine ⟨fun first second hsame hlabels ↦ ?_, fun labels hlabels ↦ ?_⟩
    · exact hrefused.2 (not_nodup_encodedLabels hrules hsame hlabels)
    · rw [hrefused, nodup_encodedLabels_iff hrules hlabels]

/-- The least integer as a floating point number, and a map with the same label twice: once as a
floating point number and once as an integer. -/
theorem dcbor_same_bytes_iff_same_value_wide :
    let least : Number := .double ⟨0xc3f0000000000000⟩
    let floating : Number := .double ⟨0x43e0000000000000⟩
    let integer : Number := .unsigned 0x8000000000000000
    let null : Outline := .scalar (.simple simpleNull)
    let entries : List (Outline × Outline) :=
      [(floating.outline, null), (.scalar (.text "a"), null), (integer.outline, null)]
    (∃ bytes, least.Yields .dcbor bytes ∧ (ofInt (-2 ^ 64)).Yields .dcbor bytes) ∧
      floating.numeric = integer.numeric ∧
      (Encoder.opened .dcbor [.opening .array] .map (Outline.ofEntries entries)).error = none ∧
      (Encoder.opened .dcbor [.opening .array] .map
        (Outline.ofEntries entries)).closeMap.error = some .duplicateLabel := by
  intro least floating integer null entries
  have hleast : least.numeric = .finite (-2 ^ 64 : ℤ) :=
    (Float.Double.wholeNumber?_eq_some_iff ⟨0xc3f0000000000000⟩ (.negative 0xffffffffffffffff)).1
      (by decide)
  have hsame : floating.numeric = integer.numeric :=
    (Float.Double.wholeNumber?_eq_some_iff ⟨0x43e0000000000000⟩ (.unsigned 0x8000000000000000)).1
      (by decide)
  have hlive : (Encoder.opened .dcbor [.opening .array] .map
      (Outline.ofEntries entries)).error = none := by decide +kernel
  obtain ⟨_, hintegers, hmaps⟩ := dcbor_same_bytes_iff_same_value
  exact ⟨hintegers least (-2 ^ 64) (by decide) (by decide) hleast, hsame, hlive,
    (hmaps [.opening .array] entries hlive).1 floating integer hsame (by simp [entries])⟩

end Number

end Cbor

end Cose
