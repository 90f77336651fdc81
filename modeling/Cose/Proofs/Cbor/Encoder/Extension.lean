import Mathlib.Logic.Function.Iterate
import Cose.Proofs.Cbor.Encoder.Refinement

/-!
# Operations that write whole items

`Encoder.Extends` says that an operation writes given items into any session that has room for
them: the innermost open item takes them all, no more items are opened on the way than may be, and
the bytes fit. Scalars and items that are already encoded are written so, sequences of such
operations are such operations, and so is a container that is opened and closed around one
(`Encoder.extends_container`).
-/

set_option autoImplicit false
set_option relaxedAutoImplicit false

namespace Cose.Cbor.Encoder

/-! ### Room for several items -/

/-- Whether the innermost open item takes a number of items more. -/
def HasRoomFor (frames : List Frame) (count : Nat) : Prop :=
  ∀ frame ∈ frames.head?, ∃ limit, frame.kind.limit? = some limit ∧ frame.count + count ≤ limit

section Room

variable {frames : List Frame} {count : Nat}

theorem hasRoomFor_nil (count : Nat) : HasRoomFor [] count := fun _ hmem ↦ by cases hmem

theorem HasRoomFor.hasRoom (hroom : HasRoomFor frames (count + 1)) : HasRoom frames := by
  intro frame hmem
  obtain ⟨limit, hlimit, hcount⟩ := hroom frame hmem
  exact ⟨limit, hlimit, by omega⟩

theorem HasRoomFor.mono {fewer : Nat} (hfewer : fewer ≤ count) (hroom : HasRoomFor frames count) :
    HasRoomFor frames fewer := by
  intro frame hmem
  obtain ⟨limit, hlimit, hcount⟩ := hroom frame hmem
  exact ⟨limit, hlimit, by omega⟩

theorem HasRoomFor.counted (hroom : HasRoomFor frames (count + 1)) :
    HasRoomFor (counted frames) count := by
  cases frames with
  | nil => exact hasRoomFor_nil count
  | cons frame outer =>
    obtain ⟨limit, hlimit, hcount⟩ := hroom frame rfl
    rintro _ ⟨⟩
    refine ⟨limit, hlimit, ?_⟩
    change frame.count + 1 + count ≤ limit
    omega

/-- Items that were counted take up room. -/
theorem HasRoomFor.counted_iterate {front : Nat} (hroom : HasRoomFor frames (front + count)) :
    HasRoomFor (Encoder.counted^[front] frames) count := by
  induction front generalizing frames with
  | zero => rwa [Nat.zero_add] at hroom
  | succ front ih =>
    rw [Function.iterate_succ_apply]
    rw [Nat.succ_add] at hroom
    exact ih hroom.counted

theorem length_counted_iterate (front : Nat) (frames : List Frame) :
    (counted^[front] frames).length = frames.length := by
  induction front generalizing frames with
  | zero => rfl
  | succ front ih => rw [Function.iterate_succ_apply, ih, length_counted]

/-- The members of a container are counted in its own frame. -/
theorem counted_iterate_cons (front : Nat) (frame : Frame) (outer : List Frame) :
    counted^[front] (frame :: outer) = { frame with count := frame.count + front } :: outer := by
  induction front generalizing frame with
  | zero => rfl
  | succ front ih =>
    rw [Function.iterate_succ_apply, counted, ih, Nat.add_assoc, Nat.add_comm 1]

end Room

/-! ### Extending a session -/

/-- Whether an operation writes items into every session that has room for them, where `depth`
containers are opened one inside the other on the way. -/
def Extends (rules : Rules) (depth : Nat) (operation : Encoder → Encoder) (items : List Bytes) :
    Prop :=
  ∀ contents frames, HasRoomFor frames items.length → frames.length + depth ≤ maxNesting →
    (contents ++ items.flatten).length ≤ maxEncodedLength →
    operation (live rules contents frames false) =
      live rules (contents ++ items.flatten) (counted^[items.length] frames) false

variable {rules : Rules} {depth : Nat}

theorem extends_id (rules : Rules) (depth : Nat) : Extends rules depth id [] := by
  intro contents frames _ _ _
  rw [List.flatten_nil, List.append_nil]
  rfl

/-- Operations one after the other write the items of both. -/
theorem Extends.comp {first second : Encoder → Encoder} {front back : List Bytes}
    (hfirst : Extends rules depth first front) (hsecond : Extends rules depth second back) :
    Extends rules depth (fun encoder ↦ second (first encoder)) (front ++ back) := by
  intro contents frames hroom hnesting hfits
  rw [List.flatten_append, ← List.append_assoc] at hfits ⊢
  rw [List.length_append] at hroom ⊢
  have hfront : (contents ++ front.flatten).length ≤ maxEncodedLength := by
    have htotal := hfits
    rw [List.length_append] at htotal
    omega
  dsimp only
  rw [hfirst contents frames (hroom.mono (Nat.le_add_right _ _)) hnesting hfront,
    hsecond _ _ hroom.counted_iterate (by rwa [length_counted_iterate]) hfits,
    ← Function.iterate_add_apply, Nat.add_comm]

/-- An operation that writes one item wherever there is room writes it into every session. -/
theorem extends_singleton {operation : Encoder → Encoder} {item : Bytes}
    (hlive : ∀ contents frames, HasRoom frames → contents.length + item.length ≤ maxEncodedLength →
      operation (live rules contents frames false) =
        live rules (contents ++ item) (counted frames) false) :
    Extends rules depth operation [item] := by
  intro contents frames hroom _ hfits
  rw [List.flatten_singleton] at hfits ⊢
  rw [List.length_append] at hfits
  exact hlive contents frames hroom.hasRoom hfits

theorem extends_scalar {value : Scalar} (hallowed : value.Allowed rules) :
    Extends rules depth value.append [value.encoded rules] :=
  extends_singleton fun contents frames hroom hfits ↦
    append_live hallowed hroom (by rwa [List.length_append])

theorem extends_encoded (rules : Rules) (depth : Nat) (item : Bytes) :
    Extends rules depth (·.appendEncoded item) [item] :=
  extends_singleton fun contents frames hroom hfits ↦ by
    rw [appendEncoded, beginItem_live hroom, write_live hfits]

/-- Scalars that are appended one after the other. -/
theorem extends_scalars {values : List Scalar} (hallowed : ∀ value ∈ values, value.Allowed rules) :
    Extends rules depth (fun encoder ↦ values.foldl Scalar.append encoder)
      (values.map (Scalar.encoded rules)) := by
  induction values with
  | nil => exact extends_id rules depth
  | cons value rest ih =>
    obtain ⟨hvalue, hrest⟩ := List.forall_mem_cons.1 hallowed
    exact (extends_scalar hvalue).comp (ih hrest)

/-! ### Containers -/

/-- Inside a container that was opened its members are written. -/
theorem Extends.around_eq {kind : Container} {operation : Encoder → Encoder} {items : List Bytes}
    (hextends : Extends rules depth operation items)
    (hfew : ∀ limit ∈ kind.nest.limit?, items.length ≤ limit) {contents : Bytes}
    {frames : List Frame} (hroom : HasRoom frames) (hallowed : kind.Allowed rules)
    (hnesting : frames.length + (depth + 1) ≤ maxNesting)
    (hfits : (contents ++ openingBytes kind.nest ++ items.flatten).length ≤ maxEncodedLength) :
    operation ((live rules contents frames false).openNest kind.nest) =
      around rules contents kind items (counted frames) := by
  have hopens : Opens rules contents frames kind.nest := by
    refine ⟨hroom, by omega, hallowed, ?_⟩
    rw [List.length_append] at hfits
    omega
  have hinside : HasRoomFor
      (⟨kind.nest, (contents ++ openingBytes kind.nest).length, 0⟩ :: counted frames)
      items.length := by
    rintro _ ⟨⟩
    have hsome : ∃ limit, kind.nest.limit? = some limit := by
      cases kind <;> exact ⟨_, rfl⟩
    obtain ⟨limit, hlimit⟩ := hsome
    exact ⟨limit, hlimit, by rw [Nat.zero_add]; exact hfew limit hlimit⟩
  have hdepth : (⟨kind.nest, (contents ++ openingBytes kind.nest).length, 0⟩ ::
      counted frames).length + depth ≤ maxNesting := by
    rw [List.length_cons, length_counted]
    omega
  rw [openNest_live hopens, hextends _ _ hinside hdepth hfits, counted_iterate_cons, Nat.zero_add]
  rfl

/-- A container that is opened and closed around items is an item. -/
theorem extends_container {kind : Container} {operation : Encoder → Encoder} {items : List Bytes}
    (hextends : Extends rules depth operation items)
    (hfew : ∀ limit ∈ kind.nest.limit?, items.length ≤ limit) (hallowed : kind.Allowed rules)
    (htakes : kind.Takes rules items) (hnodes : ∀ bytes ∈ items, IsNode 0 bytes) :
    Extends rules (depth + 1)
      (fun encoder ↦ (Operation.closing kind).apply (operation (encoder.openNest kind.nest)))
      [kind.enclose rules items] := by
  intro contents frames hroom hnesting hfits
  rw [List.flatten_singleton] at hfits ⊢
  have hinner := Container.length_le_enclose htakes
  have hinside : (contents ++ openingBytes kind.nest ++ items.flatten).length ≤
      maxEncodedLength := by
    simp only [List.length_append] at hfits ⊢
    omega
  dsimp only
  rw [hextends.around_eq hfew hroom.hasRoom hallowed hnesting hinside,
    closing_around htakes hnodes hfits]
  rfl

end Cose.Cbor.Encoder
