import Mathlib.Tactic.Common
import Cose.Message.Basic
import Cose.Proofs.Cbor.Encoder.Refinement
import Cose.Proofs.Header.Buckets

/-!
# Messages as they are written

A message array is written around items that come from elsewhere: the encoded headers and what the
message adds to them. `Encoder.Appends` says which items an operation appends, and
`finish_of_appendMessage` what a fresh session holds once a message was appended without failure.
-/

set_option autoImplicit false
set_option relaxedAutoImplicit false

namespace Cose

open Cbor

namespace Cbor.Encoder

variable {rules : Rules}

/-! ### Operations that append items -/

/-- Whether an operation appends given items to the innermost open container, unless it fails, and
leaves a session that failed as it is. -/
structure Appends (rules : Rules) (append : Encoder → Encoder) (items : List Bytes) : Prop where
  around_eq : ∀ base kind members frames, ¬(append (around rules base kind members frames)).Failed →
    append (around rules base kind members frames) =
      around rules base kind (members ++ items) frames
  of_failed : ∀ encoder : Encoder, encoder.Failed → append encoder = encoder

/-- An operation that writes one item wherever it does not fail appends the item. -/
theorem appends_singleton {append : Encoder → Encoder} {item : Bytes}
    (hlive : ∀ contents frames, (append (live rules contents frames false)).Failed ∨
      append (live rules contents frames false) =
        live rules (contents ++ item) (counted frames) false)
    (hfailed : ∀ encoder : Encoder, encoder.Failed → append encoder = encoder) :
    Appends rules append [item] where
  around_eq := by
    intro base kind members frames hsession
    have hwritten := (hlive _ _).resolve_left hsession
    rw [around, hwritten, around]
    simp [counted]
  of_failed := hfailed

theorem appends_scalar (rules : Rules) (value : Scalar) :
    Appends rules value.append [value.encoded rules] := by
  refine appends_singleton (fun contents frames ↦ ?_) fun encoder hfailed ↦
    append_of_failed hfailed value
  by_cases hpermitted : value.Allowed rules ∧ HasRoom frames ∧
      (contents ++ value.encoded rules).length ≤ maxEncodedLength
  · exact .inr (append_live hpermitted.1 hpermitted.2.1 hpermitted.2.2)
  · exact .inl (failed_append_live hpermitted)

theorem appends_encoded (rules : Rules) (item : Bytes) :
    Appends rules (·.appendEncoded item) [item] := by
  refine appends_singleton (fun contents frames ↦ ?_) fun encoder hfailed ↦ ?_
  · by_cases hroom : HasRoom frames
    · rw [appendEncoded, beginItem_live hroom]
      by_cases hfits : contents.length + item.length ≤ maxEncodedLength
      · exact .inr (write_live hfits)
      · exact .inl (failed_write_live (Nat.not_le.1 hfits))
    · have hfailed : (live rules contents frames false).beginItem.Failed :=
        failed_beginItem_live hroom
      exact .inl (failed_write_of_fails hfailed item)
  · exact appendEncoded_of_failed hfailed item

/-- Operations one after the other append the items of both. -/
theorem Appends.comp {first second : Encoder → Encoder} {front back : List Bytes}
    (hfirst : Appends rules first front) (hsecond : Appends rules second back) :
    Appends rules (fun encoder ↦ second (first encoder)) (front ++ back) where
  around_eq := by
    intro base kind members frames hsession
    have hbetween : ¬(first (around rules base kind members frames)).Failed := fun hfailed ↦
      hsession (by rwa [hsecond.of_failed _ hfailed])
    have hfront := hfirst.around_eq base kind members frames hbetween
    rw [hfront] at hsession ⊢
    rw [hsecond.around_eq base kind (members ++ front) frames hsession, List.append_assoc]
  of_failed := fun encoder hfailed ↦ by rw [hfirst.of_failed _ hfailed, hsecond.of_failed _ hfailed]

/-! ### A whole array -/

/-- An array that was opened, filled and closed without failure is one item. -/
theorem closeArray_of_appends {append : Encoder → Encoder} {items : List Bytes}
    (happends : Appends rules append items) {base : Bytes} {tagPending : Bool}
    (hsession : ¬(append (live rules base [] tagPending).openArray).closeArray.Failed) :
    (append (live rules base [] tagPending).openArray).closeArray =
        live rules (base ++ Container.array.enclose rules items) [] false ∧
      (base ++ Container.array.enclose rules items).length ≤ maxEncodedLength := by
  let opened := (live rules base [] tagPending).openArray
  have hclosing {encoder : Encoder} (hfailed : encoder.Failed) : encoder.closeArray = encoder :=
    apply_of_failed hfailed (.closing .array)
  -- A failure is kept to the end, so none has happened at any point before.
  have hfilled : ¬(append opened).Failed := fun hfailed ↦
    hsession (by rwa [hclosing hfailed])
  have hopens : Opens rules base [] .array := by
    refine not_not.1 fun hcloses ↦ hfilled ?_
    have hfailed : opened.Failed := failed_openNest_live hcloses
    rwa [happends.of_failed _ hfailed]
  have hopened : opened = around rules base .array [] [] := by
    refine (openNest_live hopens).trans ?_
    simp [around, counted, Container.nest]
  have happended := happends.around_eq base .array [] [] (by rwa [← hopened])
  rw [← hopened, List.nil_append] at happended
  change ¬(append opened).closeArray.Failed at hsession
  change (append opened).closeArray = _ ∧ _
  rw [happended, closeArray_around] at hsession
  rw [happended, closeArray_around, Container.enclose, ← List.append_assoc]
  have hfits : (base ++ shortestHead .array (UInt64.ofNat items.length) ++
      items.flatten).length ≤ maxEncodedLength :=
    Nat.not_lt.1 fun hfull ↦ hsession (failed_insert_live hfull)
  exact ⟨insert_live hfits, hfits⟩

end Cbor.Encoder

open Encoder

/-! ### Messages -/

/-- The head of the tag of a message, if it carries one. -/
def tagHead (tag? : Option MessageTag) : Bytes :=
  tag?.elim [] fun tag ↦ shortestHead .tag tag.number

/-- The bytes of a message array: its tag, the headers and the items behind them. -/
def messageBytes (rules : Rules) (tag? : Option MessageTag) (headers : HeaderItems)
    (items : List Bytes) : Bytes :=
  tagHead tag? ++
    Container.array.enclose rules (headers.protectedItem :: headers.unprotectedItem :: items)

/-- In a fresh session there is room for a tag. -/
theorem exists_live_tagHead (rules : Rules) (tag? : Option MessageTag) :
    ∃ tagPending, tag?.elim (growable rules) (fun tag ↦ (growable rules).addTag tag.number) =
      live rules (tagHead tag?) [] tagPending := by
  cases tag? with
  | none => exact ⟨false, rfl⟩
  | some tag =>
    have htakes : TakesTags [] := fun _ hmem ↦ by cases hmem
    have hhead : ([] : Bytes).length + (shortestHead .tag tag.number).length ≤
        maxEncodedLength := by
      rw [List.length_nil, Nat.zero_add, shortestHead, Argument.length_head]
      cases (Argument.shortest tag.number).width <;> decide
    refine ⟨true, (addTag_live htakes tag.number).trans ?_⟩
    rw [write_live hhead]
    rfl

/-- A message that was appended to a fresh session without failure is what the session is finished
with. -/
theorem finish_of_appendMessage {rules : Rules} {tag? : Option MessageTag} {headers : HeaderItems}
    {appendRest : Encoder → Encoder} {items : List Bytes}
    (happends : Appends rules appendRest items) {after : Encoder} {result : Unit}
    (hrun : appendMessage tag? headers appendRest (.growable rules) = .ok result after) :
    after.finish = .ok (messageBytes rules tag? headers items) ∧
      (messageBytes rules tag? headers items).length ≤ maxEncodedLength := by
  obtain ⟨_, filled, hfilled, hchecked⟩ := bind_eq_ok_iff.1 hrun
  obtain ⟨rfl, hlive⟩ := check_eq_ok hchecked
  let append := fun encoder : Encoder ↦ appendRest
    ((encoder.appendEncoded headers.protectedItem).appendEncoded headers.unprotectedItem)
  have hitems : Appends rules append
      (headers.protectedItem :: headers.unprotectedItem :: items) :=
    ((appends_encoded rules headers.protectedItem).comp
      (appends_encoded rules headers.unprotectedItem)).comp happends
  obtain ⟨tagPending, htagged⟩ := exists_live_tagHead rules tag?
  have hwhole : after =
      (append (live rules (tagHead tag?) [] tagPending).openArray).closeArray := by
    rw [← htagged]
    cases hfilled
    cases tag? <;> rfl
  rw [hwhole] at hlive
  obtain ⟨hclosed, hfits⟩ := closeArray_of_appends hitems hlive
  rw [hwhole, hclosed]
  exact ⟨finish_live _, hfits⟩

end Cose
