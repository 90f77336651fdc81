import Mathlib.Tactic.Common
import Cose.Proofs.Cbor.Encoder.Success

/-!
# Items that are written in parts

An item may be written in parts: a head and its content, a tag and what is tagged, an array that is
opened, filled and closed. What comes of it is what comes of the whole item appended at once, in any
session and over any output. Where one of the two fails the other does, though maybe with another
failure and more bytes written; so the two are compared by `Encoder.Agrees`.
-/

set_option autoImplicit false
set_option relaxedAutoImplicit false

namespace Cose.Cbor

/-! ### Outputs -/

namespace Output

variable {output : Output}

theorem push_push (output : Output) (first second : Bytes) :
    (output.push first).push second = output.push (first ++ second) := by
  have happended (written : Array UInt8) :
      written ++ first ++ second = written ++ (first ++ second) := by
    rw [← Array.toList_inj]
    simp
  cases output <;> simp [push, Nat.add_assoc, List.drop_drop, happended]

/-- Bytes may be put in front of others that were written before. -/
theorem insert_push (output : Output) (back data : Bytes) :
    (output.push back).insert output.length data = output.push (data ++ back) := by
  have hinserted (written : Array UInt8) :
      insertBytes (written ++ back) written.size data = written ++ (data ++ back) := by
    rw [← Array.toList_inj, toList_insertBytes]
    simp
  cases output with
  | sizeOnly count => simp [push, insert, Nat.add_assoc, Nat.add_comm]
  | fixed written beyond =>
    simp [push, insert, length, hinserted, List.drop_drop, Nat.add_comm]
  | growable written beyond => simp [push, insert, length, hinserted]

theorem refusal?_mono {count fewer : Nat} (hfits : output.refusal? count = none)
    (hfewer : fewer ≤ count) : output.refusal? fewer = none := by
  rw [refusal?_eq_none_iff] at hfits ⊢
  exact hfits.mono (Nat.add_le_add_left hfewer _)

/-- Behind bytes that fit, more bytes fit if they all do together. -/
theorem refusal?_push {first : Bytes} (hfits : output.refusal? first.length = none) (count : Nat) :
    (output.push first).refusal? count = none ↔
      output.refusal? (first.length + count) = none := by
  have hcapacity := capacity?_push ((refusal?_eq_none_iff _ _).1 hfits)
  rw [refusal?_eq_none_iff, refusal?_eq_none_iff, hcapacity, length_push, Nat.add_assoc]

end Output

namespace Encoder

/-! ### Sessions that agree -/

/-- Whether two sessions are the same, or both failed. -/
def Agrees (first second : Encoder) : Prop :=
  first.error = none ∨ second.error = none → first = second

namespace Agrees

variable {first second third : Encoder}

theorem refl (encoder : Encoder) : Agrees encoder encoder := fun _ ↦ rfl

theorem trans (hfirst : Agrees first second) (hsecond : Agrees second third) :
    Agrees first third := by
  rintro (hlive | hlive)
  · obtain rfl := hfirst (.inl hlive)
    exact hsecond (.inl hlive)
  · obtain rfl := hsecond (.inr hlive)
    exact hfirst (.inr hlive)

/-- What keeps failures keeps agreement. -/
theorem congr (hagrees : Agrees first second) {change : Encoder → Encoder}
    (hchange : ∀ encoder, (change encoder).error = none → encoder.error = none) :
    Agrees (change first) (change second) := by
  rintro (hlive | hlive)
  · rw [hagrees (.inl (hchange _ hlive))]
  · rw [hagrees (.inr (hchange _ hlive))]

/-- Two sessions agree if neither is without failure but under a condition that makes them equal. -/
theorem of_imp {condition : Prop} (hfirst : first.error = none → condition)
    (hsecond : second.error = none → condition) (hsame : condition → first = second) :
    Agrees first second :=
  fun hlive ↦ hsame (hlive.elim hfirst hsecond)

end Agrees

variable {encoder : Encoder}

theorem error_of_appendEncoded {item : Bytes} (hlive : (encoder.appendEncoded item).error = none) :
    encoder.error = none := (beginItem_of_live (write_of_live hlive).1).1

theorem error_of_foldl_appendEncoded {items : List Bytes}
    (hlive : (items.foldl appendEncoded encoder).error = none) : encoder.error = none := by
  induction items generalizing encoder with
  | nil => exact hlive
  | cons item rest ih => exact error_of_appendEncoded (ih hlive)

/-- Bytes are written one after the other or at once. -/
theorem agrees_write_write (first second : Bytes) :
    Agrees ((encoder.write first).write second) (encoder.write (first ++ second)) := by
  refine @Agrees.of_imp _ _ (encoder.error = none ∧
    encoder.output.refusal? (first ++ second).length = none) (fun hlive ↦ ?_) write_of_live ?_
  · obtain ⟨hbetween, hsecond⟩ := write_of_live hlive
    obtain ⟨hbefore, hfits⟩ := write_of_live hbetween
    rw [write_of_fits hbefore hfits] at hsecond
    rw [List.length_append]
    exact ⟨hbefore, (Output.refusal?_push hfits _).1 hsecond⟩
  · rintro ⟨hbefore, hfits⟩
    have hboth := hfits
    rw [List.length_append] at hboth
    have hfirst := Output.refusal?_mono hboth (Nat.le_add_right _ _)
    rw [write_of_fits hbefore hfits, write_of_fits hbefore hfirst]
    rw [@write_of_fits { encoder with output := encoder.output.push first } second hbefore
      ((Output.refusal?_push hfirst _).2 hboth), Output.push_push]

/-- The same of any number of parts. -/
theorem agrees_foldl_write (first : Bytes) (rest : List Bytes) :
    Agrees ((first :: rest).foldl write encoder) (encoder.write (first :: rest).flatten) := by
  induction rest generalizing encoder first with
  | nil =>
    rw [List.flatten_singleton]
    exact .refl _
  | cons second rest ih =>
    refine (ih second).trans ?_
    rw [List.flatten_cons]
    exact agrees_write_write first _

/-- A permitted scalar is appended as its encoding is. -/
theorem agrees_append {value : Scalar} (hallowed : value.Allowed encoder.rules) :
    Agrees (value.append encoder) (encoder.appendEncoded (value.encoded encoder.rules)) := by
  obtain ⟨first, rest, hparts⟩ : ∃ first rest, value.parts encoder.rules = first :: rest := by
    cases value <;> exact ⟨_, _, rfl⟩
  have hencoded : (value.parts encoder.rules).flatten = value.encoded encoder.rules := by
    cases value <;> simp [Scalar.parts, Scalar.encoded]
  rw [append_eq_parts hallowed, ← hencoded, hparts]
  exact agrees_foldl_write first rest

/-! ### Whole items -/

/-- What must hold for an encoded item to be appended. -/
structure Takes (encoder : Encoder) (item : Bytes) : Prop where
  error_eq : encoder.error = none
  hasRoom : HasRoom encoder.frames
  fits : encoder.output.refusal? item.length = none

theorem takes_of_live {item : Bytes} (hlive : (encoder.appendEncoded item).error = none) :
    encoder.Takes item := by
  obtain ⟨hbegun, hfits⟩ := write_of_live hlive
  obtain ⟨hbefore, hroom⟩ := beginItem_of_live hbegun
  rw [beginItem_of_hasRoom hbefore hroom] at hfits
  exact ⟨hbefore, hroom, hfits⟩

theorem Takes.appendEncoded_eq {item : Bytes} (htakes : encoder.Takes item) :
    encoder.appendEncoded item =
      { encoder with
        output := encoder.output.push item
        frames := counted encoder.frames
        tagPending := false } := by
  rw [appendEncoded, beginItem_of_hasRoom htakes.error_eq htakes.hasRoom]
  exact write_of_fits htakes.error_eq htakes.fits

theorem Takes.of_append {front back : Bytes} (htakes : encoder.Takes (front ++ back)) :
    encoder.Takes front where
  error_eq := htakes.error_eq
  hasRoom := htakes.hasRoom
  fits := Output.refusal?_mono htakes.fits (by simp)

/-- Where an item is taken, a tag is. -/
theorem HasRoom.takesTags {frames : List Frame} (hroom : HasRoom frames) : TakesTags frames := by
  intro frame hmem hkind
  obtain ⟨limit, hlimit, _⟩ := hroom frame hmem
  rw [hkind] at hlimit
  cases hlimit

theorem addTag_of_fits {tag : UInt64} (hlive : encoder.error = none)
    (htags : TakesTags encoder.frames)
    (hfits : encoder.output.refusal? (encodeHead .tag tag 0).length = none) :
    encoder.addTag tag =
      { encoder with
        output := encoder.output.push (encodeHead .tag tag 0)
        tagPending := true } := by
  rw [addTag_of_takesTags hlive htags, write_of_fits hlive hfits]

/-- To tag what comes next is not to open or close anything. -/
theorem frames_addTag (encoder : Encoder) (tag : UInt64) :
    (encoder.addTag tag).frames = encoder.frames := by
  unfold addTag proceed fail
  split
  · rfl
  · dsimp only
    split
    · split <;> rfl
    · exact frames_write encoder _

/-- A tag and an item behind it are one item. -/
theorem agrees_addTag (tag : UInt64) (item : Bytes) :
    Agrees ((encoder.addTag tag).appendEncoded item)
      (encoder.appendEncoded (encodeHead .tag tag 0 ++ item)) := by
  refine @Agrees.of_imp _ _ (encoder.Takes (encodeHead .tag tag 0 ++ item)) (fun hlive ↦ ?_)
    takes_of_live fun htakes ↦ ?_
  · have htagged := takes_of_live hlive
    obtain ⟨hwritten, htags⟩ := addTag_of_live htagged.error_eq
    obtain ⟨hbefore, hhead⟩ := write_of_live hwritten
    have hitem := htagged.fits
    have hroom := htagged.hasRoom
    rw [addTag_of_fits hbefore htags hhead] at hitem hroom
    refine ⟨hbefore, hroom, ?_⟩
    rw [List.length_append]
    exact (Output.refusal?_push hhead _).1 hitem
  · have hhead := htakes.of_append.fits
    have hitem := htakes.fits
    rw [List.length_append, ← Output.refusal?_push hhead] at hitem
    have htagged := addTag_of_fits htakes.error_eq htakes.hasRoom.takesTags hhead
    have hnext : (encoder.addTag tag).Takes item := by
      rw [htagged]
      exact ⟨htakes.error_eq, htakes.hasRoom, hitem⟩
    rw [hnext.appendEncoded_eq, htakes.appendEncoded_eq, htagged, ← Output.push_push]

/-! ### Arrays -/

/-- A session that is filling an array: some bytes were written in it, and a number of items is
counted. -/
def filling (encoder : Encoder) (done : Bytes) (count : Nat) : Encoder :=
  { encoder.appendEncoded done with
    frames := ⟨.array, encoder.length, count⟩ :: (encoder.appendEncoded done).frames }

theorem Takes.filling_eq {done : Bytes} (htakes : encoder.Takes done) (count : Nat) :
    encoder.filling done count =
      { encoder with
        output := encoder.output.push done
        frames := ⟨.array, encoder.length, count⟩ :: counted encoder.frames
        tagPending := false } := by
  rw [filling, htakes.appendEncoded_eq]

theorem agrees_openArray (hdepth : encoder.depth < maxNesting) :
    Agrees encoder.openArray (encoder.filling [] 0) := by
  refine @Agrees.of_imp _ _ (encoder.Takes [])
    (fun hlive ↦ takes_of_live (openNest_of_live hlive).1) takes_of_live fun htakes ↦ ?_
  have hbegins := beginItem_of_hasRoom htakes.error_eq htakes.hasRoom
  have hopens : encoder.beginItem.CanOpen .array := by
    refine ⟨?_, fun hindefinite ↦ by cases hindefinite⟩
    rwa [hbegins, depth, length_counted]
  have hwritten : encoder.beginItem.write (openingBytes .array) = _ := htakes.appendEncoded_eq
  have hlength : (encoder.output.push []).length = encoder.length := by simp [length]
  rw [openArray, openNest_of_canOpen (hbegins ▸ htakes.error_eq) hopens, hwritten,
    htakes.filling_eq, hbegins, ← hlength]
  rfl

/-- One more item comes into the array that is filled. -/
theorem agrees_appendEncoded_filling {count : Nat} (hcount : count < maxItems)
    (done item : Bytes) :
    Agrees ((encoder.filling done count).appendEncoded item)
      (encoder.filling (done ++ item) (count + 1)) := by
  refine @Agrees.of_imp _ _ (encoder.Takes (done ++ item)) (fun hlive ↦ ?_) takes_of_live
    fun htakes ↦ ?_
  · have hitem := takes_of_live hlive
    have hdone : encoder.Takes done := takes_of_live hitem.error_eq
    have hfits := hitem.fits
    rw [hdone.filling_eq, Output.refusal?_push hdone.fits] at hfits
    exact ⟨hdone.error_eq, hdone.hasRoom, by rwa [List.length_append]⟩
  · have hdone := htakes.of_append
    have hitem := htakes.fits
    rw [List.length_append, ← Output.refusal?_push hdone.fits] at hitem
    have hroom : HasRoom (⟨.array, encoder.length, count⟩ :: counted encoder.frames) := by
      rintro _ ⟨⟩
      exact ⟨maxItems, rfl, hcount⟩
    have hnext : (encoder.filling done count).Takes item := by
      rw [hdone.filling_eq]
      exact ⟨htakes.error_eq, hroom, hitem⟩
    rw [hnext.appendEncoded_eq, hdone.filling_eq, htakes.filling_eq, ← Output.push_push]
    rfl

theorem agrees_foldl_filling {items : List Bytes} {count : Nat}
    (hcount : count + items.length ≤ maxItems) (done : Bytes) :
    Agrees (items.foldl appendEncoded (encoder.filling done count))
      (encoder.filling (done ++ items.flatten) (count + items.length)) := by
  induction items generalizing count done with
  | nil =>
    rw [List.flatten_nil, List.append_nil]
    exact .refl _
  | cons item rest ih =>
    rw [List.length_cons] at hcount
    have hfirst := @agrees_appendEncoded_filling encoder count (by omega) done item
    have hothers := @ih (count + 1) (by omega) (done ++ item)
    rw [List.append_assoc, Nat.add_assoc, Nat.add_comm 1] at hothers
    refine Agrees.trans ?_ hothers
    exact @Agrees.congr _ _ hfirst (rest.foldl appendEncoded ·) fun _ ↦ error_of_foldl_appendEncoded

theorem error_of_closeArray (hlive : encoder.closeArray.error = none) : encoder.error = none := by
  rw [closeArray_eq] at hlive
  exact (closeBy_of_live hlive).1

/-- The head of the array comes in front of what was filled in. -/
theorem agrees_closeArray_filling (done : Bytes) (count : Nat) :
    Agrees (encoder.filling done count).closeArray
      (encoder.appendEncoded (encodeHead .array (UInt64.ofNat count) 0 ++ done)) := by
  let head := encodeHead .array (UInt64.ofNat count) 0
  let filled (output : Output) : Encoder :=
    { encoder with output := output, frames := counted encoder.frames, tagPending := false }
  have hclosed (hdone : encoder.Takes done) : (encoder.filling done count).closeArray =
      (filled (encoder.output.push done)).insert encoder.length head := by
    rw [closeArray_eq, hdone.filling_eq]
    exact @closeBy_of_frames _ _ completeArray ⟨.array, encoder.length, count⟩
      (counted encoder.frames) hdone.error_eq rfl rfl rfl
  have hboth (hfits : encoder.output.refusal? done.length = none) :
      (encoder.output.push done).refusal? head.length = none ↔
        encoder.output.refusal? (head ++ done).length = none := by
    rw [Output.refusal?_push hfits, List.length_append, Nat.add_comm]
  refine @Agrees.of_imp _ _ (encoder.Takes (head ++ done)) (fun hlive ↦ ?_) takes_of_live
    fun htakes ↦ ?_
  · have hfilled : (encoder.filling done count).error = none := error_of_closeArray hlive
    have hdone : encoder.Takes done := takes_of_live hfilled
    rw [hclosed hdone] at hlive
    exact ⟨hdone.error_eq, hdone.hasRoom, (hboth hdone.fits).1 (insert_of_live hlive).2⟩
  · have hfits : encoder.output.refusal? done.length = none :=
      Output.refusal?_mono htakes.fits (by simp)
    have hinserted := @insert_of_fits (filled (encoder.output.push done)) encoder.length head
      htakes.error_eq ((hboth hfits).2 htakes.fits)
    rw [hclosed ⟨htakes.error_eq, htakes.hasRoom, hfits⟩, hinserted, htakes.appendEncoded_eq]
    exact congrArg filled (Output.insert_push encoder.output done head)

/-- An array that is opened, filled with items and closed is one item. -/
theorem agrees_array {items : List Bytes} (hfew : items.length ≤ maxItems)
    (hdepth : encoder.depth < maxNesting) :
    Agrees (items.foldl appendEncoded encoder.openArray).closeArray
      (encoder.appendEncoded
        (encodeHead .array (UInt64.ofNat items.length) 0 ++ items.flatten)) := by
  have hopened := @Agrees.congr _ _ (agrees_openArray hdepth) (items.foldl appendEncoded ·)
    fun _ ↦ error_of_foldl_appendEncoded
  have hfilled := @agrees_foldl_filling encoder items 0 (by rwa [Nat.zero_add]) []
  rw [List.nil_append, Nat.zero_add] at hfilled
  exact ((hopened.trans hfilled).congr fun _ ↦ error_of_closeArray).trans
    (agrees_closeArray_filling items.flatten items.length)

end Encoder

end Cose.Cbor
