import Cose.Cbor.Decoder.Basic

/-!
# Cursors only move forward

`Decoder.Advances` relates a cursor to the cursors that come of it by reading some of the bytes
ahead, and `Forward` says of an operation that it leaves every cursor, whether it succeeds or
fails, at such a cursor. The operations of the decoder are forward, and sequences of forward
operations are. `Decoder.length_of_next` adds that an item that was delivered took at least one
byte, which is why loops over items end.
-/

set_option autoImplicit false
set_option relaxedAutoImplicit false

namespace Cose.Cbor

/-- The second cursor comes of the first by reading some of the bytes ahead. -/
def Decoder.Advances (before after : Decoder) : Prop :=
  ∃ count, count ≤ before.rest.length ∧ after.rest = before.rest.drop count ∧
    after.position = before.position + count

namespace Decoder.Advances

theorem refl (decoder : Decoder) : decoder.Advances decoder := ⟨0, by simp⟩

theorem trans {first second third : Decoder} (hleft : first.Advances second)
    (hright : second.Advances third) : first.Advances third := by
  obtain ⟨left, hleftLe, hleftRest, hleftPosition⟩ := hleft
  obtain ⟨right, hrightLe, hrightRest, hrightPosition⟩ := hright
  rw [hleftRest, List.length_drop] at hrightLe
  refine ⟨left + right, by omega, ?_, by omega⟩
  rw [hrightRest, hleftRest, List.drop_drop]

/-- What is ahead never grows. -/
theorem length_le {before after : Decoder} (hadvances : before.Advances after) :
    after.rest.length ≤ before.rest.length := by
  obtain ⟨count, _, hrest, _⟩ := hadvances
  rw [hrest, List.length_drop]
  omega

end Decoder.Advances

/-- The state that an operation leaves, whether it succeeds or fails. -/
def reached {ε σ α : Type} : EStateM.Result ε σ α → σ
  | .ok _ state => state
  | .error _ state => state

/-- A sequence of two operations succeeds when both do, one after the other. -/
theorem bind_eq_ok_iff {ε σ α β : Type} {operation : EStateM ε σ α} {following : α → EStateM ε σ β}
    {before after : σ} {result : β} :
    (operation >>= following) before = .ok result after ↔
      ∃ first middle, operation before = .ok first middle ∧
        following first middle = .ok result after := by
  change EStateM.bind operation following before = .ok result after ↔ _
  unfold EStateM.bind
  split
  next first middle hrun =>
    constructor
    · exact fun hfollowing ↦ ⟨first, middle, hrun, hfollowing⟩
    · rintro ⟨_, _, hfirst, hfollowing⟩
      rw [hrun] at hfirst
      cases hfirst
      exact hfollowing
  next cause middle hrun => simp [hrun]

/-- An operation is forward if every cursor comes out of it by reading some of the bytes ahead. -/
def Forward {ε α : Type} (operation : EStateM ε Decoder α) : Prop :=
  ∀ decoder : Decoder, decoder.Advances (reached (operation decoder))

namespace Forward

variable {ε α β : Type}

theorem pure (result : α) : Forward (Pure.pure result : EStateM ε Decoder α) := fun decoder ↦
  .refl decoder

theorem throw (cause : ε) : Forward (throwThe ε cause : EStateM ε Decoder α) := fun decoder ↦
  .refl decoder

theorem get : Forward (MonadState.get : EStateM ε Decoder Decoder) := fun decoder ↦ .refl decoder

theorem bind {operation : EStateM ε Decoder α} {following : α → EStateM ε Decoder β}
    (hoperation : Forward operation) (hfollowing : ∀ result, Forward (following result)) :
    Forward (operation >>= following) := by
  intro decoder
  have hfirst := hoperation decoder
  change decoder.Advances (reached (EStateM.bind operation following decoder))
  unfold EStateM.bind
  split
  next result middle hrun =>
    rw [hrun] at hfirst
    exact hfirst.trans (hfollowing result middle)
  next cause middle hrun =>
    rw [hrun] at hfirst
    exact hfirst

/-- Renaming the failures of an operation does not move the cursor. -/
theorem adaptExcept {ε' : Type} {operation : EStateM ε Decoder α} (hoperation : Forward operation)
    (rename : ε → ε') : Forward (EStateM.adaptExcept rename operation) := by
  intro decoder
  have hadvances := hoperation decoder
  unfold EStateM.adaptExcept
  split <;>
  · rename_i hrun
    rw [hrun] at hadvances
    exact hadvances

/-- Changing the levels alone moves over no bytes. -/
theorem modify {change : Decoder → Decoder} (hrest : ∀ decoder, (change decoder).rest = decoder.rest)
    (hposition : ∀ decoder, (change decoder).position = decoder.position) :
    Forward (modify change : EStateM ε Decoder PUnit) := fun decoder ↦
  ⟨0, Nat.zero_le _, hrest decoder, hposition decoder⟩

end Forward

namespace Decoder

theorem simpleValue_ne_noMoreItems (head : Head) : simpleValue head ≠ .error .noMoreItems := by
  unfold simpleValue
  repeat' split
  all_goals simp

/-- A property that a sequence of operations has if each of them does. Among the failures it need
not allow that there are no more items, which is reported only where an item is asked for. -/
structure Compositional (property : {α : Type} → Cursor α → Prop) : Prop where
  pure : ∀ {α : Type} (result : α), property (Pure.pure result)
  throw : ∀ {α : Type} {cause : DecodeError}, cause ≠ .noMoreItems →
    property (throwThe DecodeError cause : Cursor α)
  bind : ∀ {α β : Type} {operation : Cursor α} {following : α → Cursor β}, property operation →
    (∀ result, property (following result)) → property (operation >>= following)

namespace Compositional

variable {property : {α : Type} → Cursor α → Prop} (hproperty : Compositional property)
include hproperty

theorem taggedHead (hhead : property head) (allowed : Nat) : property (taggedHead allowed) := by
  induction allowed with
  | zero =>
    refine hproperty.bind hhead fun head ↦ ?_
    split
    · exact hproperty.throw (by decide)
    · exact hproperty.pure _
  | succ allowed ih =>
    refine hproperty.bind hhead fun head ↦ ?_
    split
    · exact hproperty.bind ih fun _ ↦ hproperty.pure _
    · exact hproperty.pure _

theorem value (htake : ∀ count, property (take count))
    (henter : ∀ count? isMap, property (enter count? isMap)) (head : Head) :
    property (value head) := by
  unfold Decoder.value
  dsimp only
  split
  · exact hproperty.pure _
  · exact hproperty.pure _
  · split
    · exact hproperty.throw (by decide)
    · exact hproperty.bind (htake _) fun _ ↦ hproperty.pure _
  · split
    · exact hproperty.throw (by decide)
    · refine hproperty.bind (htake _) fun content ↦ ?_
      split
      · exact hproperty.throw (by decide)
      · exact hproperty.pure _
  · exact hproperty.bind (henter _ _) fun _ ↦ hproperty.pure _
  · exact hproperty.bind (henter _ _) fun _ ↦ hproperty.pure _
  · exact hproperty.throw (by decide)
  · split
    next cause hvalue =>
      exact hproperty.throw fun hcause ↦ simpleValue_ne_noMoreItems head (hcause ▸ hvalue)
    · exact hproperty.pure _

end Compositional

theorem compositional_forward : Compositional fun operation ↦ Forward operation :=
  ⟨.pure, fun _ ↦ .throw _, .bind⟩

theorem advances_advance {decoder : Decoder} {count : Nat} (hcount : count ≤ decoder.rest.length) :
    decoder.Advances (decoder.advance count) := ⟨count, hcount, rfl, rfl⟩

theorem advances_leave (minDepth : Nat) (rest : Bytes) (position : Nat) (levels : List Level)
    (before : List Level) :
    Advances ⟨rest, position, before⟩ (reached (leave minDepth rest position levels)) := by
  fun_induction leave minDepth rest position levels with
  | case3 => assumption
  | case7 position level outer _ after _ _ ih =>
    exact Advances.trans ⟨1, by simp, by simp, rfl⟩ ih
  | _ => exact ⟨0, by simp [reached]⟩

theorem forward_ascendTo (minDepth : Nat) : Forward (ascendTo minDepth) := fun decoder ↦
  advances_leave minDepth decoder.rest decoder.position decoder.levels decoder.levels

theorem forward_take (count : Nat) : Forward (take count) := by
  intro decoder
  unfold take
  split
  next hreaches => exact advances_advance ((reaches_eq_true_iff _ _).1 hreaches)
  next => exact .refl decoder

theorem forward_enter (count? : Option UInt64) (isMap : Bool) : Forward (enter count? isMap) := by
  intro decoder
  unfold enter
  split
  · exact .refl decoder
  · split
    · exact ⟨0, by simp [reached]⟩
    · split
      · exact .refl decoder
      · exact ⟨0, by simp [reached]⟩

theorem forward_head : Forward head := by
  intro decoder
  unfold head
  split
  · exact .refl decoder
  next head hread => exact advances_advance (Head.length_of_read hread).2

theorem forward_taggedHead (allowed : Nat) : Forward (taggedHead allowed) :=
  compositional_forward.taggedHead forward_head allowed

theorem forward_value (head : Head) : Forward (value head) :=
  compositional_forward.value forward_take forward_enter head

theorem forward_countMember : Forward (modify countMember : Cursor PUnit) := by
  refine .modify (fun decoder ↦ ?_) fun decoder ↦ ?_ <;>
  · unfold countMember
    split <;> rfl

theorem forward_next : Forward next := by
  refine .bind (forward_ascendTo 0) fun _ ↦ .bind .get fun start ↦ ?_
  dsimp only
  split
  · exact .throw _
  · exact .bind (forward_taggedHead _) fun _ ↦ .bind forward_countMember fun _ ↦
      .bind (forward_value _) fun _ ↦ .bind .get fun _ ↦ .pure _

theorem forward_finish : Forward finish := by
  refine .bind (forward_ascendTo 0) fun _ ↦ .bind .get fun reached ↦ ?_
  dsimp only
  split
  · exact .throw _
  · split
    · exact .throw _
    · exact .pure _

/-- Reading the head of an item, with its tags, takes at least one byte. -/
theorem length_of_taggedHead {allowed : Nat} {decoder after : Decoder}
    {result : List UInt64 × Head} (hrun : taggedHead allowed decoder = .ok result after) :
    after.rest.length < decoder.rest.length := by
  have hhead : ∀ {first : Head} {middle : Decoder}, head decoder = .ok first middle →
      middle.rest.length < decoder.rest.length := by
    intro first middle hrun
    unfold head at hrun
    split at hrun
    · simp at hrun
    next read hread =>
      obtain ⟨hpos, hle⟩ := Head.length_of_read hread
      cases hrun
      simp only [advance, List.length_drop]
      omega
  cases allowed with
  | zero =>
    rw [taggedHead, bind_eq_ok_iff] at hrun
    obtain ⟨first, middle, hfirst, hrun⟩ := hrun
    have hlength := hhead hfirst
    split at hrun
    · cases hrun
    · cases hrun
      exact hlength
  | succ allowed =>
    rw [taggedHead, bind_eq_ok_iff] at hrun
    obtain ⟨first, middle, hfirst, hrun⟩ := hrun
    have hlength := hhead hfirst
    split at hrun
    · rw [bind_eq_ok_iff] at hrun
      obtain ⟨following, last, hfollowing, hrun⟩ := hrun
      have hforward := forward_taggedHead allowed middle
      rw [hfollowing] at hforward
      cases hrun
      exact Nat.lt_of_le_of_lt hforward.length_le hlength
    · cases hrun
      exact hlength

/-- An item that was delivered took at least one byte. -/
theorem length_of_next {decoder after : Decoder} {item : Item}
    (hrun : next decoder = .ok item after) : after.rest.length < decoder.rest.length := by
  rw [next, bind_eq_ok_iff] at hrun
  obtain ⟨_, start, hascend, hrun⟩ := hrun
  have hstart := forward_ascendTo 0 decoder
  rw [hascend] at hstart
  rw [bind_eq_ok_iff] at hrun
  obtain ⟨_, _, hget, hrun⟩ := hrun
  cases hget
  split at hrun
  · cases hrun
  · rw [bind_eq_ok_iff] at hrun
    obtain ⟨⟨tags, head⟩, middle, htagged, hrun⟩ := hrun
    have hmiddle := length_of_taggedHead htagged
    have hremaining := (Forward.bind forward_countMember fun _ ↦
      .bind (forward_value head) fun value ↦ .bind .get fun reached : Decoder ↦
        .pure (Item.mk value start.depth reached.nextLevel tags)) middle
    dsimp only at hrun hremaining
    rw [hrun] at hremaining
    have hlast := hremaining.length_le
    have hfirst := hstart.length_le
    simp only [reached] at hlast hfirst
    omega

end Decoder

end Cose.Cbor
