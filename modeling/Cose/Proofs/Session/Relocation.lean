import Mathlib.Tactic.Common
import Cose.Proofs.Cbor.Encoder.Success
import Cose.Proofs.Session.Script
import Cose.Proofs.Session.Soundness

/-!
# A session inside another

What is written inside a byte string that is open is written as in a session of its own, further
back in the output and with more items open. `Encoder.inside` puts a session there: its bytes behind
those in front of it, and the items that it has open inside the byte string, each start moved.
-/

set_option autoImplicit false
set_option relaxedAutoImplicit false

namespace Cose

open Cbor

namespace Cbor

/-! ### Outputs -/

namespace Output

/-- An output with more bytes in front of those written. -/
def behind (front : Array UInt8) : Output → Output
  | sizeOnly count => sizeOnly (front.size + count)
  | fixed written beyond => fixed (front ++ written) beyond
  | growable written beyond => growable (front ++ written) beyond

variable (front : Array UInt8) (output : Output)

theorem length_behind : (output.behind front).length = front.size + output.length := by
  cases output <;> simp [behind, length]

theorem isSizeOnly_behind : (output.behind front).isSizeOnly = output.isSizeOnly := by
  cases output <;> rfl

theorem append_behind (written : Array UInt8) (data : Bytes) :
    front ++ written ++ data = front ++ (written ++ data) := by
  rw [← Array.toList_inj]
  simp

theorem push_behind (data : Bytes) :
    (output.behind front).push data = (output.push data).behind front := by
  cases output <;> simp [behind, push, Nat.add_assoc, append_behind]

theorem shrink_behind (written : Array UInt8) (position : Nat) :
    (front ++ written).shrink (front.size + position) = front ++ written.shrink position := by
  rw [← Array.toList_inj, Array.toList_shrink, Array.toList_append, Array.toList_append,
    Array.toList_shrink, ← Array.length_toList, List.take_length_add_append]

theorem extract_behind (written : Array UInt8) (position : Nat) :
    (front ++ written).extract (front.size + position) (front ++ written).size =
      written.extract position written.size := by
  rw [← Array.toList_inj]
  simp

theorem insert_behind (position : Nat) (data : Bytes) :
    (output.behind front).insert (front.size + position) data =
      (output.insert position data).behind front := by
  cases output with
  | sizeOnly count => simp [behind, insert, Nat.add_assoc]
  | _ written beyond =>
    simp only [behind, insert, insertBytes, shrink_behind, extract_behind, append_behind,
      Array.append_assoc]

theorem reserve_behind (capacity : Nat) (content : Bytes) :
    (output.behind front).reserve capacity content =
      (output.reserve capacity content).behind front := by
  cases output <;> rfl

theorem endAt_behind (position : Nat) :
    (output.behind front).endAt (front.size + position) = (output.endAt position).behind front := by
  cases output with
  | sizeOnly count => rfl
  | _ written beyond =>
    have hextra : front.size + position - (front ++ written).size = position - written.size := by
      rw [Array.size_append]
      omega
    simp only [behind, endAt, hextra, shrink_behind, extract_behind, append_behind]

theorem contentsFrom_behind (position : Nat) :
    (output.behind front).contentsFrom (front.size + position) = output.contentsFrom position := by
  cases output with
  | sizeOnly count => rfl
  | _ written beyond => simp only [behind, contentsFrom, extract_behind]

theorem replaceFrom_behind (position : Nat) (data : Bytes) :
    (output.behind front).replaceFrom (front.size + position) data =
      (output.replaceFrom position data).behind front := by
  cases output with
  | sizeOnly count => rfl
  | _ written beyond =>
    simp only [behind, replaceFrom, shrink_behind, append_behind]

/-- Bytes that fit in an output fit in it further back, as long as the encoding may be so long. -/
theorem refusal?_behind {count : Nat} (hfits : output.refusal? count = none)
    (hlength : front.size + (output.length + count) ≤ maxEncodedLength) :
    (output.behind front).refusal? count = none := by
  have hadmits := (output.refusal?_eq_none_iff count).1 hfits
  rw [refusal?_eq_none_iff, length_behind, Nat.add_assoc]
  refine ⟨hlength, ?_⟩
  cases output with
  | fixed written beyond =>
    rintro _ ⟨⟩
    have hcapacity := hadmits.le_capacity _ rfl
    simp only [length] at hcapacity
    simp only [length, Array.size_append]
    omega
  | _ => exact fun _ hcapacity ↦ by cases hcapacity

end Output

/-! ### Sessions -/

/-- An open item that starts further back. -/
def Frame.moveBy (distance : Nat) (frame : Frame) : Frame :=
  { frame with start := distance + frame.start }

namespace Frame

variable (distance : Nat) (frame : Frame)

@[simp]
theorem start_moveBy : (frame.moveBy distance).start = distance + frame.start := rfl

@[simp]
theorem count_moveBy : (frame.moveBy distance).count = frame.count := rfl

end Frame

/-- Where a session stands inside another: the bytes in front of it, and the items that are open
around the byte string that holds it. -/
structure Place where
  front : Array UInt8
  outer : List Frame

/-- Whether an encoding of a given length is within the limit behind the bytes in front of it. -/
def Place.Fits (place : Place) (length : Nat) : Prop :=
  place.front.size + length ≤ maxEncodedLength

theorem Place.Fits.mono {place : Place} {length shorter : Nat} (hfits : place.Fits length)
    (hshorter : shorter ≤ length) : place.Fits shorter :=
  Nat.le_trans (Nat.add_le_add_left hshorter _) hfits

namespace Encoder

/-- A session at a place inside another, where the byte string that holds it counts some items. -/
def inside (place : Place) (items : Nat) (encoder : Encoder) : Encoder :=
  { encoder with
    output := encoder.output.behind place.front
    frames := encoder.frames.map (Frame.moveBy place.front.size) ++
      ⟨.wrap, place.front.size, items⟩ :: place.outer }

section Inside

variable {place : Place} {items : Nat} {encoder : Encoder}

theorem length_inside : (encoder.inside place items).length = place.front.size + encoder.length :=
  Output.length_behind place.front encoder.output

theorem depth_inside : (encoder.inside place items).depth =
    encoder.depth + 1 + place.outer.length := by
  simp [inside, depth]
  omega

theorem fail_inside (cause : EncodeError) :
    (encoder.inside place items).fail cause = (encoder.fail cause).inside place items := by
  obtain ⟨output, frames, error, rules, tagPending⟩ := encoder
  cases error <;> rfl

/-! #### Bytes -/

theorem write_inside {data : Bytes} (hlive : (encoder.write data).error = none)
    (hfits : place.Fits (encoder.write data).length) :
    (encoder.inside place items).write data = (encoder.write data).inside place items := by
  obtain ⟨hbefore, hroom⟩ := write_of_live hlive
  rw [write_of_fits hbefore hroom] at hfits ⊢
  rw [Place.Fits, length, Output.length_push] at hfits
  rw [@write_of_fits (encoder.inside place items) data hbefore
    (Output.refusal?_behind _ _ hroom hfits)]
  simp [inside, Output.push_behind]

theorem insert_inside {position : Nat} {data : Bytes}
    (hlive : (encoder.insert position data).error = none)
    (hfits : place.Fits (encoder.insert position data).length) :
    (encoder.inside place items).insert (place.front.size + position) data =
      (encoder.insert position data).inside place items := by
  obtain ⟨hbefore, hroom⟩ := insert_of_live hlive
  rw [insert_of_fits hbefore hroom] at hfits ⊢
  rw [Place.Fits, length, Output.length_insert] at hfits
  rw [@insert_of_fits (encoder.inside place items) _ data hbefore
    (Output.refusal?_behind _ _ hroom hfits)]
  simp [inside, Output.insert_behind]

theorem foldl_write_inside {parts : List Bytes} (hlive : (parts.foldl write encoder).error = none)
    (hfits : place.Fits (parts.foldl write encoder).length) :
    parts.foldl write (encoder.inside place items) =
      (parts.foldl write encoder).inside place items := by
  induction parts generalizing encoder with
  | nil => rfl
  | cons data rest ih =>
    have hrest := advances_foldl_write rest (encoder.write data)
    rw [List.foldl_cons, List.foldl_cons,
      write_inside (hrest.live hlive) (hfits.mono hrest.length_le)]
    exact ih hlive hfits

theorem sortMap_inside (start : Nat) :
    (encoder.inside place items).sortMap (place.front.size + start) =
      (encoder.sortMap start).inside place items := by
  have hcontents := Output.contentsFrom_behind place.front encoder.output start
  unfold sortMap
  rw [show (encoder.inside place items).output = encoder.output.behind place.front from rfl,
    Output.isSizeOnly_behind, hcontents]
  cases encoder.output.isSizeOnly with
  | true => rfl
  | false =>
    cases sortEntries (encoder.output.contentsFrom start) with
    | mk sorted failure? =>
      have hreplaced : { encoder.inside place items with
          output := (encoder.output.behind place.front).replaceFrom
            (place.front.size + start) sorted } =
          ({ encoder with output := encoder.output.replaceFrom start sorted } :
            Encoder).inside place items := by
        simp [inside, Output.replaceFrom_behind]
      cases failure? with
      | none => exact hreplaced
      | some cause =>
        simp only [Bool.false_eq_true, if_false]
        rw [hreplaced, fail_inside]

/-! #### Items -/

/-- The number of items that one more item adds to those around a session: none but itself, and
itself only if no item is open that it belongs to. -/
def topCount (encoder : Encoder) : Nat := if encoder.frames = [] then 1 else 0

theorem counted_inside :
    counted (encoder.inside place items).frames =
      (counted encoder.frames).map (Frame.moveBy place.front.size) ++
        ⟨.wrap, place.front.size, items + encoder.topCount⟩ :: place.outer := by
  cases hframes : encoder.frames <;> simp [inside, hframes, counted, topCount, Frame.moveBy]

/-- The byte string around a session takes one more item, as far as it counts. -/
theorem hasRoom_inside (hroom : HasRoom encoder.frames)
    (hitems : items + encoder.topCount < 2 ^ 64) : HasRoom (encoder.inside place items).frames := by
  cases hframes : encoder.frames with
  | nil =>
    simp only [inside, hframes, topCount, if_true] at hitems ⊢
    rintro _ ⟨⟩
    exact ⟨2 ^ 64 - 1, rfl, by dsimp only; omega⟩
  | cons frame outer =>
    rw [hframes] at hroom
    simp only [inside, hframes]
    rintro _ ⟨⟩
    exact hroom frame rfl

theorem beginItem_inside (hlive : encoder.beginItem.error = none)
    (hitems : items + encoder.topCount < 2 ^ 64) :
    (encoder.inside place items).beginItem =
      encoder.beginItem.inside place (items + encoder.topCount) := by
  obtain ⟨hbefore, hroom⟩ := beginItem_of_live hlive
  rw [beginItem_of_hasRoom hbefore hroom,
    @beginItem_of_hasRoom (encoder.inside place items) hbefore (hasRoom_inside hroom hitems),
    counted_inside]
  rfl

theorem appendEncoded_inside {item : Bytes} (hlive : (encoder.appendEncoded item).error = none)
    (hfits : place.Fits (encoder.appendEncoded item).length)
    (hitems : items + encoder.topCount < 2 ^ 64) :
    (encoder.inside place items).appendEncoded item =
      (encoder.appendEncoded item).inside place (items + encoder.topCount) := by
  have hbegun := (write_of_live hlive).1
  rw [appendEncoded, beginItem_inside hbegun hitems]
  exact write_inside hlive hfits

theorem append_inside {value : Scalar} (hlive : (value.append encoder).error = none)
    (hfits : place.Fits (value.append encoder).length)
    (hitems : items + encoder.topCount < 2 ^ 64) :
    value.append (encoder.inside place items) =
      (value.append encoder).inside place (items + encoder.topCount) := by
  by_cases hallowed : value.Allowed encoder.rules
  · have hparts := append_eq_parts hallowed
    rw [hparts] at hlive hfits ⊢
    have hbegun : encoder.beginItem.error = none := (advances_foldl_write _ _).live hlive
    rw [@append_eq_parts (encoder.inside place items) value hallowed,
      beginItem_inside hbegun hitems]
    exact foldl_write_inside hlive hfits
  · obtain ⟨cause, hrefused⟩ := exists_append_eq_fail hallowed
    rw [hrefused encoder rfl] at hlive
    exact absurd hlive (fail_error_ne_none _ _)

theorem addTag_inside {tag : UInt64} (hlive : (encoder.addTag tag).error = none)
    (hfits : place.Fits (encoder.addTag tag).length) :
    (encoder.inside place items).addTag tag = (encoder.addTag tag).inside place items := by
  obtain ⟨hwritten, htakes⟩ := addTag_of_live hlive
  have hbefore := (write_of_live hwritten).1
  have htag := addTag_of_takesTags hbefore htakes tag
  have htakesInside : TakesTags (encoder.inside place items).frames := by
    cases hframes : encoder.frames with
    | nil =>
      simp only [inside, hframes]
      rintro _ ⟨⟩
      intro hkind
      cases hkind
    | cons frame outer =>
      rw [hframes] at htakes
      simp only [inside, hframes]
      rintro _ ⟨⟩
      exact htakes frame rfl
  rw [htag] at hfits ⊢
  rw [@addTag_of_takesTags (encoder.inside place items) hbefore htakesInside,
    write_inside hwritten hfits]
  rfl

theorem openNest_inside {kind : Nest} (hlive : (encoder.openNest kind).error = none)
    (hfits : place.Fits (encoder.openNest kind).length)
    (hdepth : (encoder.openNest kind).depth + place.outer.length < maxNesting)
    (hitems : items + encoder.topCount < 2 ^ 64) :
    (encoder.inside place items).openNest kind =
      (encoder.openNest kind).inside place (items + encoder.topCount) := by
  obtain ⟨hwritten, hopens⟩ := openNest_of_live hlive
  have hbegun := (write_of_live hwritten).1
  have hopened := openNest_of_canOpen hbegun hopens
  rw [hopened] at hfits hdepth ⊢
  have hbegunInside := @beginItem_inside place items encoder hbegun hitems
  have hopensInside : (encoder.inside place items).beginItem.CanOpen kind := by
    rw [hbegunInside]
    refine ⟨?_, hopens.permitted⟩
    rw [depth_inside]
    exact hdepth
  rw [@openNest_of_canOpen (encoder.inside place items) kind (by rw [hbegunInside]; exact hbegun)
    hopensInside, hbegunInside, write_inside hwritten hfits]
  simp only [length_inside]
  simp [inside, Frame.moveBy]

/-! #### Closing -/

/-- To close an item is to complete it, further back. -/
theorem closeBy_inside {kind : Nest} {complete : Encoder → Frame → Encoder}
    (hlive : (encoder.closeBy kind complete).error = none)
    (hcomplete : ∀ (popped : Encoder) frame, encoder.closeBy kind complete = complete popped frame →
      complete (popped.inside place items) (frame.moveBy place.front.size) =
        (complete popped frame).inside place items) :
    (encoder.inside place items).closeBy kind complete =
      (encoder.closeBy kind complete).inside place items := by
  obtain ⟨hbefore, htag, frame, outer, hframes, hkind⟩ := closeBy_of_live hlive
  have hclosed := @closeBy_of_frames encoder _ complete _ _ hbefore htag hframes hkind
  have hmoved : (encoder.inside place items).frames = frame.moveBy place.front.size ::
      (outer.map (Frame.moveBy place.front.size) ++
        ⟨.wrap, place.front.size, items⟩ :: place.outer) := by
    simp [inside, hframes]
  rw [@closeBy_of_frames (encoder.inside place items) _ complete _ _ hbefore htag hmoved hkind,
    hclosed]
  exact hcomplete _ _ hclosed

theorem completeArray_inside {frame : Frame} (hlive : (encoder.completeArray frame).error = none)
    (hfits : place.Fits (encoder.completeArray frame).length) :
    (encoder.inside place items).completeArray (frame.moveBy place.front.size) =
      (encoder.completeArray frame).inside place items :=
  insert_inside hlive hfits

theorem completeIndefiniteArray_inside {frame : Frame}
    (hlive : (encoder.completeIndefiniteArray frame).error = none)
    (hfits : place.Fits (encoder.completeIndefiniteArray frame).length) :
    (encoder.inside place items).completeIndefiniteArray (frame.moveBy place.front.size) =
      (encoder.completeIndefiniteArray frame).inside place items :=
  write_inside hlive hfits

theorem completeMap_inside {frame : Frame} (hlive : (encoder.completeMap frame).error = none)
    (hfits : place.Fits (encoder.completeMap frame).length) :
    (encoder.inside place items).completeMap (frame.moveBy place.front.size) =
      (encoder.completeMap frame).inside place items := by
  have harranged : (encoder.inside place items).arrangeMap (place.front.size + frame.start) =
      (encoder.arrangeMap frame.start).inside place items := by
    unfold arrangeMap
    rw [show (encoder.inside place items).rules = encoder.rules from rfl, sortMap_inside]
    split <;> rfl
  unfold completeMap at hlive hfits ⊢
  simp only [Frame.start_moveBy, Frame.count_moveBy, harranged]
  split
  next heven =>
    rw [if_pos heven] at hlive hfits
    exact insert_inside hlive hfits
  · exact fail_inside _

theorem completeIndefiniteMap_inside {frame : Frame}
    (hlive : (encoder.completeIndefiniteMap frame).error = none)
    (hfits : place.Fits (encoder.completeIndefiniteMap frame).length) :
    (encoder.inside place items).completeIndefiniteMap (frame.moveBy place.front.size) =
      (encoder.completeIndefiniteMap frame).inside place items := by
  unfold completeIndefiniteMap at hlive hfits ⊢
  by_cases heven : frame.count % 2 = 0
  · have hmoved : (frame.moveBy place.front.size).count % 2 = 0 := heven
    rw [if_pos heven] at hlive hfits ⊢
    rw [if_pos hmoved]
    exact write_inside hlive hfits
  · rw [if_neg heven] at hlive
    exact absurd hlive (fail_error_ne_none _ _)

theorem completeWrap_inside {frame : Frame} (hlive : (encoder.completeWrap frame).error = none)
    (hfits : place.Fits (encoder.completeWrap frame).length) :
    (encoder.inside place items).completeWrap (frame.moveBy place.front.size) =
      (encoder.completeWrap frame).inside place items := by
  have hcontent : (encoder.inside place items).length - (place.front.size + frame.start) =
      encoder.length - frame.start := by
    rw [length_inside, Nat.add_sub_add_left]
  unfold completeWrap at hlive hfits ⊢
  simp only [Frame.start_moveBy, hcontent]
  exact insert_inside hlive hfits

theorem completeRegion_inside {used : Nat} {frame : Frame}
    (hlive : (encoder.completeRegion used frame).error = none)
    (hfits : place.Fits (encoder.completeRegion used frame).length) :
    (encoder.inside place items).completeRegion used (frame.moveBy place.front.size) =
      (encoder.completeRegion used frame).inside place items := by
  have hended : ({ encoder.inside place items with
      output := (encoder.inside place items).output.endAt
        (place.front.size + frame.start + used) } : Encoder) =
      ({ encoder with output := encoder.output.endAt (frame.start + used) } :
        Encoder).inside place items := by
    rw [Nat.add_assoc]
    simp only [inside, Output.endAt_behind]
  unfold completeRegion at hlive hfits ⊢
  simp only [Frame.start_moveBy, Frame.count_moveBy, hended]
  split
  · exact fail_inside _
  next hused =>
    rw [if_neg hused] at hlive hfits
    exact insert_inside hlive hfits

/-! #### Regions -/

/-- The length of an encoding, an open region counted by its capacity. -/
def extent (encoder : Encoder) : Nat :=
  match encoder.frames with
  | ⟨.region, start, capacity⟩ :: _ => max encoder.length (start + capacity)
  | _ => encoder.length

theorem length_le_extent (encoder : Encoder) : encoder.length ≤ encoder.extent := by
  unfold extent
  split
  · exact Nat.le_max_left _ _
  · exact Nat.le_refl _

/-- A region that was opened is held behind what was written when it was opened. -/
theorem openRegion_of_live {capacity : Nat} {content : Bytes}
    (hlive : (encoder.openRegion capacity content).2.error = none) :
    (encoder.openNest .region).error = none ∧
      (encoder.openNest .region).output.refusal? capacity = none := by
  rw [openRegion_eq] at hlive
  obtain ⟨hnoted, hroom⟩ := grow_of_live hlive
  have hopened := error_of_proceed hnoted
  rw [proceed_of_live hopened] at hroom
  exact ⟨hopened, hroom⟩

theorem openRegion_of_fits {capacity : Nat} {content : Bytes}
    (hopened : (encoder.openNest .region).error = none)
    (hroom : (encoder.openNest .region).output.refusal? capacity = none) :
    (encoder.openRegion capacity content).2 =
      { (encoder.openNest .region).setCapacity capacity with
        output := (encoder.openNest .region).output.reserve capacity content } := by
  rw [openRegion_eq]
  dsimp only
  rw [proceed_of_live hopened]
  exact grow_of_fits hopened hroom

theorem setCapacity_inside {frame : Frame} {outer : List Frame}
    (hframes : encoder.frames = frame :: outer) (capacity : Nat) :
    (encoder.inside place items).setCapacity capacity =
      (encoder.setCapacity capacity).inside place items := by
  simp [setCapacity, inside, hframes, Frame.moveBy]

theorem openRegion_inside {capacity : Nat} {content : Bytes}
    (hlive : (encoder.openRegion capacity content).2.error = none)
    (hfits : place.Fits (encoder.openRegion capacity content).2.extent)
    (hdepth : (encoder.openRegion capacity content).2.depth + place.outer.length < maxNesting)
    (hitems : items + encoder.topCount < 2 ^ 64) :
    ((encoder.inside place items).openRegion capacity content).2 =
      (encoder.openRegion capacity content).2.inside place (items + encoder.topCount) := by
  obtain ⟨hopened, hroom⟩ := openRegion_of_live hlive
  obtain ⟨outer, hframes⟩ := frames_openNest_region hopened
  have hregion := @openRegion_of_fits encoder capacity content hopened hroom
  rw [hregion] at hfits hdepth ⊢
  simp only [extent, setCapacity, hframes, length, Output.length_reserve] at hfits
  have hdepthOpened : (encoder.openNest .region).depth + place.outer.length < maxNesting := by
    simpa [depth, setCapacity, hframes] using hdepth
  have hinside := openNest_inside hopened (hfits.mono (Nat.le_max_left _ _)) hdepthOpened hitems
  have hroomInside : ((encoder.inside place items).openNest .region).output.refusal? capacity =
      none := by
    rw [hinside]
    exact Output.refusal?_behind _ _ hroom (hfits.mono (Nat.le_max_right _ _))
  rw [openRegion_of_fits (by rw [hinside]; exact hopened) hroomInside, hinside,
    setCapacity_inside hframes]
  simp only [inside, Output.reserve_behind]

end Inside

end Encoder

/-- What a session may reach at a place: its encoding, an open region counted by its capacity, is
not too long behind the bytes in front of it, and its items are not too deep in those around it. -/
structure Place.Holds (place : Place) (reached : Encoder) : Prop where
  fits : place.Fits reached.extent
  depth_lt : reached.depth + place.outer.length < maxNesting

end Cbor

/-! ### Steps -/

namespace Step

open Encoder

/-- Whether a step appends an item to those that are open. -/
def appendsItem : Step → Bool
  | operation (.scalar _) => true
  | operation (.opening _) => true
  | encoded _ => true
  | openRegion _ _ => true
  | _ => false

/-- The number of items that a step adds to those around a session. -/
def topCount (encoder : Encoder) (step : Step) : Nat :=
  if step.appendsItem then encoder.topCount else 0

/-- The number of items that steps add to those around a session. -/
def topCounts (encoder : Encoder) : List Step → Nat
  | [] => 0
  | step :: rest => step.topCount encoder + topCounts (step.apply encoder) rest

variable {place : Place} {items : Nat} {encoder : Encoder}

/-- A step that succeeds does the same further back. -/
theorem apply_inside {step : Step} (hlive : (step.apply encoder).error = none)
    (hholds : place.Holds (step.apply encoder))
    (hitems : items + step.topCount encoder < 2 ^ 64) :
    step.apply (encoder.inside place items) =
      (step.apply encoder).inside place (items + step.topCount encoder) := by
  have hfits : place.Fits (step.apply encoder).length :=
    hholds.fits.mono (length_le_extent _)
  cases step with
  | operation operation =>
    cases operation with
    | scalar value => exact append_inside hlive hfits hitems
    | tag number => exact addTag_inside hlive hfits
    | opening kind => cases kind <;> exact openNest_inside hlive hfits hholds.depth_lt hitems
    | closing kind =>
      cases kind with
      | array =>
        simp only [Step.apply, Operation.apply, closeArray_eq] at hlive hfits ⊢
        exact closeBy_inside hlive fun popped frame hclosed ↦
          completeArray_inside (hclosed ▸ hlive) (hclosed ▸ hfits)
      | map =>
        simp only [Step.apply, Operation.apply, closeMap_eq] at hlive hfits ⊢
        exact closeBy_inside hlive fun popped frame hclosed ↦
          completeMap_inside (hclosed ▸ hlive) (hclosed ▸ hfits)
      | indefiniteArray =>
        simp only [Step.apply, Operation.apply, closeArrayIndefinite_eq] at hlive hfits ⊢
        exact closeBy_inside hlive fun popped frame hclosed ↦
          completeIndefiniteArray_inside (hclosed ▸ hlive) (hclosed ▸ hfits)
      | indefiniteMap =>
        simp only [Step.apply, Operation.apply, closeMapIndefinite_eq] at hlive hfits ⊢
        exact closeBy_inside hlive fun popped frame hclosed ↦
          completeIndefiniteMap_inside (hclosed ▸ hlive) (hclosed ▸ hfits)
      | wrap =>
        simp only [Step.apply, Operation.apply, snd_closeWrap] at hlive hfits ⊢
        exact closeBy_inside hlive fun popped frame hclosed ↦
          completeWrap_inside (hclosed ▸ hlive) (hclosed ▸ hfits)
  | raw data => exact write_inside hlive hfits
  | encoded item => exact appendEncoded_inside hlive hfits hitems
  | openRegion capacity content => exact openRegion_inside hlive hholds.fits hholds.depth_lt hitems
  | closeRegion used =>
    simp only [Step.apply, closeRegion_eq] at hlive hfits ⊢
    exact closeBy_inside hlive fun popped frame hclosed ↦
      completeRegion_inside (hclosed ▸ hlive) (hclosed ▸ hfits)

/-- Steps that succeed do the same further back, if each session passed is held there. -/
theorem applyAll_inside {steps : List Step} (hlive : (applyAll encoder steps).error = none)
    (hholds : ∀ reached ∈ steps.scanl apply encoder, place.Holds reached)
    (hitems : items + topCounts encoder steps < 2 ^ 64) :
    applyAll (encoder.inside place items) steps =
      (applyAll encoder steps).inside place (items + topCounts encoder steps) := by
  induction steps generalizing encoder items with
  | nil => rfl
  | cons step rest ih =>
    have hfirst : (step.apply encoder).error = none := by
      refine not_not.1 fun hfailed ↦ hfailed ?_
      have hstays := applyAll_of_failed hfailed rest
      rwa [← hstays]
    rw [List.scanl_cons] at hholds
    have hrest := (List.forall_mem_cons.1 hholds).2
    have hnext : place.Holds (step.apply encoder) := hrest _ (by cases rest <;> simp)
    rw [topCounts] at hitems
    rw [applyAll, List.foldl_cons, apply_inside hfirst hnext (by omega), topCounts,
      ← Nat.add_assoc]
    exact ih hlive hrest (by omega)

end Step

end Cose
