import Mathlib.Tactic.Common
import Cose.Proofs.Cbor.InPlace
import Cose.Proofs.Session.Soundness

/-!
# Steps with every number in range

The steps of a session once more, with a look at each position, range, index, sum and difference
where it is used: the open items stand in an array of fixed size, bytes are moved between ranges of
the storage, and maps are put in order in place. The result is `none` if a number is out of range.

In a session that is reached in steps that never happens, and what is done is what the step does
(`Encoder.Reaches.checked`).
-/

set_option autoImplicit false
set_option relaxedAutoImplicit false

namespace Cose

open Cbor

namespace Cbor

/-- Look that two positions of a storage of a given size are in order and inside it. -/
def checkRange? (size start stop : Nat) : Option Unit :=
  if start ≤ stop ∧ stop ≤ size then some () else none

theorem checkRange?_eq {size start stop : Nat} (hstart : start ≤ stop) (hstop : stop ≤ size) :
    checkRange? size start stop = some () := if_pos ⟨hstart, hstop⟩

theorem maxEncodedLength_lt : maxEncodedLength < 2 ^ 64 := by decide

/-! ### Outputs -/

namespace Output

/-- The size of the storage once there is room up to a position. A growing storage is resized. -/
def sizeWithRoom (output : Output) (stop : Nat) : Nat :=
  match output with
  | fixed _ _ => output.storage.length
  | _ => stop

/-- Write bytes into the room behind the end. -/
def push? (output : Output) (data : Bytes) : Option Output := do
  let stop ← sum? output.length data.length
  checkRange? (output.sizeWithRoom stop) output.length stop
  return output.push data

/-- Insert bytes: make room behind the end, move what follows on the position there, and write the
bytes to the position. -/
def insert? (output : Output) (position : Nat) (data : Bytes) : Option Output := do
  let stop ← sum? output.length data.length
  let size := output.sizeWithRoom stop
  checkRange? size output.length stop
  checkRange? size position output.length
  let target ← sum? position data.length
  let targetStop ← sum? target (← difference? output.length position)
  checkRange? size target targetStop
  checkRange? size position target
  return output.insert position data

/-- Hold bytes behind the end. -/
def reserve? (output : Output) (capacity : Nat) (content : Bytes) : Option Output := do
  let stop ← sum? output.length capacity
  checkRange? (output.sizeWithRoom stop) output.length stop
  return output.reserve capacity content

variable {output : Output}

/-- Where an output admits a length, its storage has room up to it. -/
theorem le_sizeWithRoom {stop : Nat} (hadmits : Admits output.capacity? stop) :
    stop ≤ output.sizeWithRoom stop := by
  cases output with
  | fixed written beyond =>
    have hfits := hadmits.le_capacity _ rfl
    simpa [sizeWithRoom, storage] using hfits
  | _ => exact Nat.le_refl _

theorem push?_eq {data : Bytes} (hadmits : Admits output.capacity? (output.length + data.length)) :
    output.push? data = some (output.push data) := by
  have hlimit := Nat.lt_of_le_of_lt hadmits.le_limit maxEncodedLength_lt
  simp only [push?, sum?_eq hlimit, checkRange?_eq (Nat.le_add_right _ _) (le_sizeWithRoom hadmits),
    Option.bind_eq_bind, Option.bind_some]
  rfl

theorem insert?_eq {position : Nat} {data : Bytes}
    (hadmits : Admits output.capacity? (output.length + data.length))
    (hposition : position ≤ output.length) :
    output.insert? position data = some (output.insert position data) := by
  have hlimit := Nat.lt_of_le_of_lt hadmits.le_limit maxEncodedLength_lt
  have hroom := le_sizeWithRoom hadmits
  have hend : position + data.length + (output.length - position) =
      output.length + data.length := by omega
  simp only [insert?, sum?_eq hlimit, checkRange?_eq (Nat.le_add_right _ _) hroom,
    checkRange?_eq hposition (Nat.le_of_add_right_le hroom),
    sum?_eq (show position + data.length < 2 ^ 64 by omega), difference?_eq hposition,
    sum?_eq (hend.trans_lt hlimit), hend, checkRange?_eq (Nat.le_add_right position data.length)
      (Nat.le_trans (Nat.add_le_add_right hposition _) hroom),
    checkRange?_eq (Nat.add_le_add_right hposition data.length) hroom, Option.bind_eq_bind,
    Option.bind_some]
  rfl

theorem reserve?_eq {capacity : Nat} (hadmits : Admits output.capacity? (output.length + capacity))
    (content : Bytes) :
    output.reserve? capacity content = some (output.reserve capacity content) := by
  have hlimit := Nat.lt_of_le_of_lt hadmits.le_limit maxEncodedLength_lt
  simp only [reserve?, sum?_eq hlimit,
    checkRange?_eq (Nat.le_add_right _ _) (le_sizeWithRoom hadmits), Option.bind_eq_bind,
    Option.bind_some]
  rfl

/-- What is written from a position on stands in the storage between the position and the end. -/
theorem slice?_storage (hbytes : output.isSizeOnly = false) {start : Nat}
    (hstart : start ≤ output.length) :
    slice? output.storage start output.length = some (output.contentsFrom start) := by
  cases output with
  | sizeOnly _ => cases hbytes
  | _ written beyond =>
    rw [slice?_eq hstart (by simp [storage, length])]
    simp [storage, length, contentsFrom, List.take_of_length_le]

theorem length_contentsFrom_le (output : Output) (start : Nat) :
    (output.contentsFrom start).length ≤ output.length := by
  cases output <;> simp [contentsFrom, length]

end Output

/-! ### Operations -/

namespace Encoder

/-- Change a session that has not failed. -/
def proceed? (encoder : Encoder) (change : Encoder → Option Encoder) : Option Encoder :=
  match encoder.error with
  | some _ => some encoder
  | none => change encoder

/-- Let the output grow by a number of bytes if they fit. -/
def grow? (encoder : Encoder) (count : Nat) (change : Output → Option Output) : Option Encoder :=
  encoder.proceed? fun encoder ↦
    match encoder.output.refusal? count with
    | some cause => some (encoder.fail cause)
    | none => do
      let output ← change encoder.output
      return { encoder with output := output }

/-- Write bytes at the end of the output. -/
def write? (encoder : Encoder) (data : Bytes) : Option Encoder :=
  encoder.grow? data.length (·.push? data)

/-- Insert bytes at a position of the output. -/
def insert? (encoder : Encoder) (position : Nat) (data : Bytes) : Option Encoder :=
  encoder.grow? data.length (·.insert? position data)

/-- The place of the innermost open item in the array of the open items. -/
def innermostIndex? (encoder : Encoder) : Option Nat := do
  let index ← difference? encoder.depth 1
  if index < maxNesting then some index else none

/-- Count one more item in the innermost open item. -/
def beginItem? (encoder : Encoder) : Option Encoder :=
  encoder.proceed? fun encoder ↦
    let encoder := { encoder with tagPending := false }
    match encoder.frames with
    | [] => some encoder
    | frame :: outer => do
      let _ ← encoder.innermostIndex?
      match frame.kind.limit? with
      | none => return encoder.fail .notAllowed
      | some limit =>
        if frame.count ≥ limit then return encoder.fail .arrayTooLong
        else
          let count ← sum? frame.count 1
          return { encoder with frames := { frame with count := count } :: outer }

/-- Append one complete item that is already encoded. -/
def appendEncoded? (encoder : Encoder) (item : Bytes) : Option Encoder := do
  let begun ← encoder.beginItem?
  begun.write? item

/-- Append a scalar, part by part. -/
def append? (encoder : Encoder) (value : Scalar) : Option Encoder :=
  if value.Allowed encoder.rules then do
    let begun ← encoder.beginItem?
    (value.parts encoder.rules).foldlM write? begun
  else some (value.append encoder)

/-- Append a tag number. -/
def addTag? (encoder : Encoder) (tag : UInt64) : Option Encoder :=
  encoder.proceed? fun encoder ↦ do
    if encoder.depth > 0 then
      let _ ← encoder.innermostIndex?
    match encoder.frames.head? with
    | some ⟨.region, _, _⟩ => return encoder.fail .notAllowed
    | _ =>
      let written ← encoder.write? (encodeHead .tag tag 0)
      return { written with tagPending := true }

/-- Open an item, which takes the first free place in the array of the open items. -/
def openNest? (encoder : Encoder) (kind : Nest) : Option Encoder := do
  let begun ← encoder.beginItem?
  begun.proceed? fun encoder ↦
    if encoder.depth ≥ maxNesting then some (encoder.fail .nestingTooDeep)
    else if isIndefinite kind ∧ encoder.rules.allowIndefinite = false then
      some (encoder.fail .notAllowed)
    else do
      let encoder ← encoder.write? (openingBytes kind)
      if encoder.depth < maxNesting then
        return { encoder with frames := ⟨kind, encoder.length, 0⟩ :: encoder.frames }
      else none

/-- Close the innermost open item. -/
def pop? (encoder : Encoder) (kind : Nest) : Option (Option Frame × Encoder) :=
  match encoder.error with
  | some _ => some (none, encoder)
  | none =>
    if encoder.tagPending then some (none, encoder.fail .unsupported)
    else
      match encoder.frames with
      | [] => some (none, encoder.fail .tooManyCloses)
      | frame :: outer => do
        let _ ← encoder.innermostIndex?
        if frame.kind = kind then return (some frame, { encoder with frames := outer })
        else return (none, encoder.fail .closeMismatch)

/-- Close the innermost open item, of a given kind, and complete it. -/
def closeBy? (encoder : Encoder) (kind : Nest) (complete : Encoder → Frame → Option Encoder) :
    Option Encoder := do
  match ← encoder.pop? kind with
  | (none, popped) => return popped
  | (some frame, popped) => complete popped frame

/-- Complete an array by its head. -/
def completeArray? (encoder : Encoder) (frame : Frame) : Option Encoder :=
  encoder.insert? frame.start (encodeHead .array (UInt64.ofNat frame.count) 0)

/-- Put the entries of the map whose body starts at a position in order, in place. -/
def sortMap? (encoder : Encoder) (start : Nat) : Option Encoder :=
  if encoder.output.isSizeOnly then some encoder
  else do
    let body ← slice? encoder.output.storage start encoder.length
    let (sorted, failure?) ← sortInPlace? (body.length + 1) body
    let encoder := { encoder with output := encoder.output.replaceFrom start sorted }
    match failure? with
    | none => return encoder
    | some cause => return encoder.fail cause

/-- Complete a map by its head. -/
def completeMap? (encoder : Encoder) (frame : Frame) : Option Encoder :=
  if frame.count % 2 = 0 then do
    let arranged ← if encoder.rules.sortMaps then encoder.sortMap? frame.start else some encoder
    arranged.insert? frame.start (encodeHead .map (UInt64.ofNat (frame.count / 2)) 0)
  else some (encoder.fail .incompleteMapPair)

/-- Complete an array of indefinite length. -/
def completeIndefiniteArray? (encoder : Encoder) (_ : Frame) : Option Encoder :=
  encoder.write? [breakByte]

/-- Complete a map of indefinite length. -/
def completeIndefiniteMap? (encoder : Encoder) (frame : Frame) : Option Encoder :=
  if frame.count % 2 = 0 then encoder.write? [breakByte]
  else some (encoder.fail .incompleteMapPair)

/-- Complete a byte string by its head, with the position behind the head for the caller. -/
def completeWrap? (encoder : Encoder) (frame : Frame) : Option Encoder := do
  let size ← difference? encoder.length frame.start
  let head := encodeHead .bytes (UInt64.ofNat size) 0
  let completed ← encoder.insert? frame.start head
  if completed.error.isNone then
    let _ ← sum? frame.start head.length
  return completed

/-- Complete a region by its head, the bytes used of it being known. -/
def completeRegion? (used : Nat) (encoder : Encoder) (frame : Frame) : Option Encoder :=
  if used > frame.count then some (encoder.fail .bufferTooSmall)
  else do
    let stop ← sum? frame.start used
    ({ encoder with output := encoder.output.endAt stop } : Encoder).insert? frame.start
      (encodeHead .bytes (UInt64.ofNat used) 0)

/-- Open a region. -/
def openRegion? (encoder : Encoder) (capacity : Nat) (content : Bytes) : Option Encoder := do
  let opened ← encoder.openNest? .region
  opened.proceed? fun opened ↦ do
    let _ ← opened.innermostIndex?
    (opened.setCapacity capacity).grow? capacity (·.reserve? capacity content)

/-! ### Every number is in range -/

section

variable {capacity? : Option Nat} {encoder : Encoder}

theorem proceed?_eq {change? : Encoder → Option Encoder} {change : Encoder → Encoder}
    (hchange : encoder.error = none → change? encoder = some (change encoder)) :
    encoder.proceed? change? = some (encoder.proceed change) := by
  unfold proceed? proceed
  cases herror : encoder.error with
  | some cause => rfl
  | none => exact hchange herror

theorem grow?_eq {count : Nat} {change? : Output → Option Output} {change : Output → Output}
    (hchange : Admits encoder.output.capacity? (encoder.output.length + count) →
      change? encoder.output = some (change encoder.output)) :
    encoder.grow? count change? = some (encoder.grow count change) := by
  refine proceed?_eq fun _ ↦ ?_
  cases hrefusal : encoder.output.refusal? count with
  | some cause => rfl
  | none =>
    dsimp only
    rw [hchange ((encoder.output.refusal?_eq_none_iff count).1 hrefusal)]
    rfl

theorem write?_eq (encoder : Encoder) (data : Bytes) :
    encoder.write? data = some (encoder.write data) := by
  rw [write_eq_grow]
  exact grow?_eq Output.push?_eq

theorem foldlM_write?_eq (parts : List Bytes) (encoder : Encoder) :
    parts.foldlM write? encoder = some (parts.foldl write encoder) := by
  induction parts generalizing encoder with
  | nil => rfl
  | cons part rest ih =>
    rw [List.foldlM_cons, write?_eq]
    exact ih (encoder.write part)

theorem insert?_eq {position : Nat} (hposition : position ≤ encoder.length) (data : Bytes) :
    encoder.insert? position data = some (encoder.insert position data) := by
  rw [insert_eq_grow]
  exact grow?_eq (Output.insert?_eq · hposition)

theorem innermostIndex?_eq {frame : Frame} {outer : List Frame}
    (hframes : encoder.frames = frame :: outer) (hdepth : encoder.depth ≤ maxNesting) :
    encoder.innermostIndex? = some outer.length := by
  have hlength : encoder.depth = outer.length + 1 := by rw [depth, hframes, List.length_cons]
  simp only [innermostIndex?, hlength, difference?_eq (Nat.le_add_left 1 _), Option.bind_eq_bind,
    Option.bind_some, Nat.add_sub_cancel]
  exact if_pos (by omega)

/-- No count reaches the limit of 64 bits. -/
theorem sum?_count {frame : Frame} {limit : Nat} (hlimit : frame.kind.limit? = some limit)
    (hroom : ¬frame.count ≥ limit) : sum? frame.count 1 = some (frame.count + 1) := by
  have hword : limit < 2 ^ 64 := by
    cases hkind : frame.kind <;> rw [hkind] at hlimit <;> cases hlimit <;> decide
  exact sum?_eq (by omega)

/-- The position behind a head that starts in an encoding. -/
theorem sum?_head {start : Nat} (hstart : start ≤ maxEncodedLength) (major : Major)
    (argument : UInt64) :
    sum? start (encodeHead major argument 0).length =
      some (start + (encodeHead major argument 0).length) := by
  rw [Argument.encodeHead_zero, Argument.length_head]
  have hwidth : (Argument.shortest argument).width.size ≤ 8 := by
    cases (Argument.shortest argument).width <;> decide
  have hlimit := maxEncodedLength_lt
  exact sum?_eq (by simp only [maxEncodedLength] at hstart; omega)

namespace Sound

variable (hsound : Sound capacity? encoder)
include hsound

theorem beginItem?_eq : encoder.beginItem? = some encoder.beginItem := by
  refine proceed?_eq fun _ ↦ ?_
  have hdepth : ({ encoder with tagPending := false } : Encoder).depth ≤ maxNesting :=
    hsound.stacked.depth_le
  dsimp only
  cases hframes : encoder.frames with
  | nil => rfl
  | cons frame outer =>
    have hindex :=
      @innermostIndex?_eq { encoder with tagPending := false } frame outer hframes hdepth
    rw [hframes] at hindex
    simp only [hindex, Option.bind_eq_bind, Option.bind_some]
    cases hlimit : frame.kind.limit? with
    | none => rfl
    | some limit =>
      by_cases hroom : frame.count ≥ limit
      · simp only [if_pos hroom]
        rfl
      · simp only [if_neg hroom, sum?_count hlimit hroom, Option.bind_some]
        rfl

theorem appendEncoded?_eq (item : Bytes) :
    encoder.appendEncoded? item = some (encoder.appendEncoded item) := by
  simp only [appendEncoded?, hsound.beginItem?_eq, Option.bind_eq_bind, Option.bind_some,
    write?_eq]
  rfl

theorem append?_eq (value : Scalar) : encoder.append? value = some (value.append encoder) := by
  unfold append?
  split
  next hallowed =>
    rw [append_eq_parts hallowed, hsound.beginItem?_eq]
    exact foldlM_write?_eq _ _
  · rfl

theorem addTag?_eq (tag : UInt64) : encoder.addTag? tag = some (encoder.addTag tag) := by
  refine proceed?_eq fun _ ↦ ?_
  cases hframes : encoder.frames with
  | nil =>
    simp [depth, hframes, write?_eq]
  | cons frame outer =>
    obtain ⟨kind, start, count⟩ := frame
    have hindex := innermostIndex?_eq hframes hsound.stacked.depth_le
    cases kind <;> simp [depth, hframes, hindex, write?_eq]

theorem openNest?_eq (kind : Nest) : encoder.openNest? kind = some (encoder.openNest kind) := by
  simp only [openNest?, hsound.beginItem?_eq, Option.bind_eq_bind, Option.bind_some]
  refine proceed?_eq fun _ ↦ ?_
  by_cases hdepth : encoder.beginItem.depth ≥ maxNesting
  · simp only [if_pos hdepth]
  · by_cases hrefused : isIndefinite kind = true ∧ encoder.beginItem.rules.allowIndefinite = false
    · simp only [if_neg hdepth, if_pos hrefused]
    · have hplace : (encoder.beginItem.write (openingBytes kind)).depth < maxNesting := by
        rw [depth, frames_write]
        exact Nat.lt_of_not_ge hdepth
      simp only [if_neg hdepth, if_neg hrefused, write?_eq, Option.bind_some, if_pos hplace]
      rfl

/-- The innermost open item is closed with its place in range, and completed in range. -/
theorem closeBy?_eq {kind : Nest} {complete? : Encoder → Frame → Option Encoder}
    {complete : Encoder → Frame → Encoder}
    (hcomplete : ∀ frame outer, encoder.error = none → encoder.frames = frame :: outer →
      frame.kind = kind → complete? { encoder with frames := outer } frame =
        some (complete { encoder with frames := outer } frame)) :
    encoder.closeBy? kind complete? = some (encoder.closeBy kind complete) := by
  unfold closeBy? Encoder.closeBy pop? pop
  cases hlive : encoder.error with
  | some cause => rfl
  | none =>
    cases hpending : encoder.tagPending with
    | true => rfl
    | false =>
      cases hframes : encoder.frames with
      | nil => rfl
      | cons frame outer =>
        have hindex := innermostIndex?_eq hframes hsound.stacked.depth_le
        simp only [hindex, Option.bind_eq_bind, Option.bind_some]
        by_cases hkind : frame.kind = kind
        · have hcompleted := hcomplete frame outer hlive hframes hkind
          rw [hlive, hpending] at hcompleted
          simp only [if_pos hkind, Bool.false_eq_true, if_false]
          exact hcompleted
        · simp only [if_neg hkind, Bool.false_eq_true, if_false]
          rfl

/-- An item that is no region is completed in a sound session behind its start. -/
theorem closeNest?_eq {kind : Nest} (hkind : kind ≠ .region)
    {complete? : Encoder → Frame → Option Encoder} {complete : Encoder → Frame → Encoder}
    (hcomplete : ∀ (popped : Encoder) frame, Sound capacity? popped → frame.start ≤ popped.length →
      complete? popped frame = some (complete popped frame)) :
    encoder.closeBy? kind complete? = some (encoder.closeBy kind complete) :=
  hsound.closeBy?_eq fun frame outer hlive hframes hsame ↦ by
    refine hcomplete _ frame (hsound.closed hlive hframes (hsame ▸ hkind)) ?_
    exact hsound.stacked.start_le frame (hframes ▸ List.mem_cons_self)

theorem sortMap?_eq {start : Nat} (hstart : start ≤ encoder.length) :
    encoder.sortMap? start = some (encoder.sortMap start) := by
  unfold sortMap? Encoder.sortMap
  cases hsize : encoder.output.isSizeOnly with
  | true => rfl
  | false =>
    have hbody := Output.slice?_storage hsize hstart
    have hlength : (encoder.output.contentsFrom start).length < 2 ^ 64 :=
      Nat.lt_of_le_of_lt (Nat.le_trans (Output.length_contentsFrom_le _ _) hsound.length_le)
        maxEncodedLength_lt
    change slice? encoder.output.storage start encoder.length = _ at hbody
    simp only [Bool.false_eq_true, if_false, hbody, Option.bind_eq_bind, Option.bind_some,
      sortInPlace?_eq hlength]
    cases sortEntries (encoder.output.contentsFrom start) with
    | mk sorted failure? => cases failure? <;> rfl

theorem completeMap?_eq {frame : Frame} (hstart : frame.start ≤ encoder.length) :
    encoder.completeMap? frame = some (encoder.completeMap frame) := by
  unfold completeMap? Encoder.completeMap arrangeMap
  by_cases hwhole : frame.count % 2 = 0
  · simp only [if_pos hwhole]
    cases encoder.rules.sortMaps with
    | true =>
      have hlength := (encoder.advances_sortMap frame.start).length_le
      simp only [if_true, hsound.sortMap?_eq hstart, Option.bind_eq_bind, Option.bind_some]
      exact insert?_eq (Nat.le_trans hstart hlength) _
    | false => exact insert?_eq hstart _
  · simp only [if_neg hwhole]

theorem completeWrap?_eq {frame : Frame} (hstart : frame.start ≤ encoder.length) :
    encoder.completeWrap? frame = some (encoder.completeWrap frame) := by
  have hbehind := sum?_head (Nat.le_trans hstart hsound.length_le) .bytes
    (UInt64.ofNat (encoder.length - frame.start))
  simp only [completeWrap?, difference?_eq hstart, insert?_eq hstart, Option.bind_eq_bind,
    Option.bind_some, hbehind]
  split <;> rfl

theorem openRegion?_eq (capacity : Nat) (content : Bytes) :
    encoder.openRegion? capacity content = some (encoder.openRegion capacity content).2 := by
  have hopened := hsound.openNest .region
  simp only [openRegion_eq, openRegion?, hsound.openNest?_eq, Option.bind_eq_bind,
    Option.bind_some]
  cases hlive : (encoder.openNest .region).error with
  | some cause => simp only [proceed?, proceed, Encoder.reserve, Encoder.grow, hlive]
  | none =>
    obtain ⟨outer, hframes⟩ := frames_openNest_region hlive
    have hindex := innermostIndex?_eq hframes hopened.stacked.depth_le
    simp only [proceed?, proceed, hlive, hindex, Option.bind_some]
    exact grow?_eq fun hadmits ↦ Output.reserve?_eq hadmits content

theorem closeRegion?_eq (used : Nat) :
    encoder.closeBy? .region (completeRegion? used) = some (encoder.closeRegion used) := by
  rw [closeRegion_eq]
  refine hsound.closeBy?_eq fun frame outer hlive hframes hkind ↦ ?_
  unfold completeRegion? completeRegion
  by_cases hused : used > frame.count
  · simp only [if_pos hused]
  · obtain ⟨hadmits, hlength, _⟩ := hsound.ended hlive hframes hkind (Nat.le_of_not_gt hused)
    have hstop := sum?_eq (Nat.lt_of_le_of_lt hadmits.le_limit maxEncodedLength_lt)
    simp only [if_neg hused, hstop, Option.bind_eq_bind, Option.bind_some]
    exact insert?_eq ((Nat.le_add_right _ _).trans_eq hlength.symm) _

end Sound

end

end Encoder

/-- Apply an operation. -/
def Operation.apply? (encoder : Encoder) : Operation → Option Encoder
  | .scalar value => encoder.append? value
  | .tag number => encoder.addTag? number
  | .opening kind => encoder.openNest? kind.nest
  | .closing .array => encoder.closeBy? .array Encoder.completeArray?
  | .closing .map => encoder.closeBy? .map Encoder.completeMap?
  | .closing .indefiniteArray => encoder.closeBy? .indefiniteArray Encoder.completeIndefiniteArray?
  | .closing .indefiniteMap => encoder.closeBy? .indefiniteMap Encoder.completeIndefiniteMap?
  | .closing .wrap => encoder.closeBy? .wrap Encoder.completeWrap?

theorem Operation.apply?_eq {capacity? : Option Nat} {encoder : Encoder}
    (hsound : Encoder.Sound capacity? encoder) (operation : Operation) :
    operation.apply? encoder = some (operation.apply encoder) := by
  cases operation with
  | scalar value => exact hsound.append?_eq value
  | tag number => exact hsound.addTag?_eq number
  | opening kind => cases kind <;> exact hsound.openNest?_eq _
  | closing kind =>
    cases kind with
    | array =>
      rw [Operation.apply, Encoder.closeArray_eq]
      exact hsound.closeNest?_eq (by decide) fun _ _ _ hstart ↦ Encoder.insert?_eq hstart _
    | map =>
      rw [Operation.apply, Encoder.closeMap_eq]
      exact hsound.closeNest?_eq (by decide) fun _ _ hpopped hstart ↦ hpopped.completeMap?_eq hstart
    | indefiniteArray =>
      rw [Operation.apply, Encoder.closeArrayIndefinite_eq]
      exact hsound.closeNest?_eq (by decide) fun _ _ _ _ ↦ Encoder.write?_eq _ _
    | indefiniteMap =>
      rw [Operation.apply, Encoder.closeMapIndefinite_eq]
      refine hsound.closeNest?_eq (by decide) fun popped frame _ _ ↦ ?_
      unfold Encoder.completeIndefiniteMap? Encoder.completeIndefiniteMap
      split
      · exact popped.write?_eq _
      · rfl
    | wrap =>
      rw [Operation.apply, Encoder.snd_closeWrap]
      exact hsound.closeNest?_eq (by decide) fun _ _ hpopped hstart ↦
        hpopped.completeWrap?_eq hstart

end Cbor

/-! ### Steps -/

/-- Take a step with a look at every number: `none` if one is out of range. -/
def Step.apply? (encoder : Encoder) : Step → Option Encoder
  | operation step => step.apply? encoder
  | raw data => encoder.write? data
  | encoded item => encoder.appendEncoded? item
  | openRegion capacity content => encoder.openRegion? capacity content
  | closeRegion used => encoder.closeBy? .region (Encoder.completeRegion? used)

/-- In a sound session no step meets a number that is out of range. -/
theorem Step.apply?_eq {capacity? : Option Nat} {encoder : Encoder}
    (hsound : Encoder.Sound capacity? encoder) (step : Step) :
    step.apply? encoder = some (step.apply encoder) := by
  cases step with
  | operation operation => exact operation.apply?_eq hsound
  | raw data => exact encoder.write?_eq data
  | encoded item => exact hsound.appendEncoded?_eq item
  | openRegion capacity content => exact hsound.openRegion?_eq capacity content
  | closeRegion used => exact hsound.closeRegion?_eq used

/-! ### Sessions that are reached -/

namespace Cbor.Encoder

/-- Complete a session with a look at the range of its bytes. -/
def finish? (encoder : Encoder) : Option (Except EncodeError Bytes) :=
  match encoder.incompleteness? with
  | some cause => some (.error cause)
  | none =>
    match encoder.output with
    | .sizeOnly _ => some (.error .noOutputBuffer)
    | .fixed _ _ => (slice? encoder.output.storage 0 encoder.length).map .ok
    | .growable _ _ => some (.ok encoder.output.storage)

theorem finish?_eq (encoder : Encoder) : encoder.finish? = some encoder.finish := by
  unfold finish? finish
  cases encoder.incompleteness? with
  | some cause => rfl
  | none =>
    cases houtput : encoder.output with
    | fixed written beyond =>
      have hbytes := @Output.slice?_storage encoder.output (by rw [houtput]; rfl) 0 (Nat.zero_le _)
      simp only [length, houtput] at hbytes ⊢
      rw [hbytes]
      simp [Output.contentsFrom, Output.contents]
    | _ => rfl

/-- What can be relied on in a session over an output that may be of fixed capacity. -/
structure Intact (capacity? : Option Nat) (encoder : Encoder) : Prop where
  depth_le : encoder.depth ≤ maxNesting
  /-- No open item starts before one around it. -/
  starts : encoder.frames.Pairwise fun inner outer ↦ outer.start ≤ inner.start
  start_le : ∀ frame ∈ encoder.frames, frame.start ≤ encoder.length
  length_le : encoder.length ≤ maxEncodedLength
  length_le_capacity : ∀ capacity ∈ capacity?, encoder.length ≤ capacity
  count_le : ∀ frame ∈ encoder.frames, ∀ limit ∈ frame.kind.limit?, frame.count ≤ limit
  /-- A growing output holds the bytes written and no others, unless the session failed or a region
  is open. So these bytes can be viewed, and are those and as many as the session finishes with. -/
  whole : ∀ written beyond, encoder.error = none → TakesTags encoder.frames →
    encoder.output = .growable written beyond →
      encoder.output.storage.length = encoder.length ∧
      encoder.view? 0 encoder.length = some encoder.output.storage ∧
      encoder.finishSize = encoder.finish.map List.length
  /-- Whatever step is next, every number that it meets is in range. -/
  checked : ∀ step : Step, step.apply? encoder = some (step.apply encoder)
  finish_checked : encoder.finish? = some encoder.finish

/-- A growing output that ends with the bytes written. -/
theorem whole_of_growable {encoder : Encoder} {written : Array UInt8}
    (houtput : encoder.output = .growable written []) :
    encoder.output.storage.length = encoder.length ∧
      encoder.view? 0 encoder.length = some encoder.output.storage ∧
      encoder.finishSize = encoder.finish.map List.length := by
  refine ⟨?_, ?_, ?_⟩
  · simp [length, houtput, Output.storage, Output.length]
  · simp [view?, length, houtput, Output.storage, Output.length]
  · unfold finishSize finish
    cases encoder.incompleteness? with
    | some cause => rfl
    | none => simp [length, houtput, Output.storage, Output.length, Except.map]

theorem Sound.intact {capacity? : Option Nat} {encoder : Encoder}
    (hsound : Sound capacity? encoder) : Intact capacity? encoder where
  depth_le := hsound.stacked.depth_le
  starts := hsound.stacked.starts
  start_le := hsound.stacked.start_le
  length_le := hsound.length_le
  length_le_capacity := hsound.admits_length.le_capacity
  count_le := hsound.stacked.count_le
  whole written beyond hlive htakes houtput := by
    have hflush := hsound.isFlush hlive htakes
    rw [houtput] at hflush
    obtain rfl : beyond = [] := hflush
    exact whole_of_growable houtput
  checked step := step.apply?_eq hsound
  finish_checked := encoder.finish?_eq

/-- Whatever is done to a session from its start on, in steps or by calls, leaves it intact. -/
theorem intact_runAll {capacity? : Option Nat} {start encoder : Encoder}
    (hstarts : Starts capacity? start) (hreached : start.Reaches encoder) {calls : List Call}
    (hproper : ∀ call ∈ calls, call.Proper) : Intact capacity? (Call.runAll encoder calls).2 :=
  ((hreached.runAll hproper).sound hstarts).intact

/-- A session stays intact whose region is written over while it is open. -/
theorem intact_runAll_region :
    (growable .preferred).Reaches (growable .preferred) ∧
      Intact none (Call.runAll (growable .preferred)
        [.openRegion 3 [1, 2], .raw [7], .closeRegion 2]).2 :=
  ⟨.refl, intact_runAll (.growable .preferred) .refl (by simp [Call.Proper, Call.writers])⟩

end Cbor.Encoder

end Cose
