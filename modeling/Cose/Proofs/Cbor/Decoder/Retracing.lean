import Mathlib.Tactic.Common
import Cose.Proofs.Cbor.Decoder.Settling

/-!
# What a successful reading went through

The readings are inverted here one by one: from a run that succeeded come the runs of its parts. A
loop that succeeded keeps whatever each of its visits keeps (`Reading.runBelow_induction`).
-/

set_option autoImplicit false
set_option relaxedAutoImplicit false

namespace Cose.Cbor

/-! ### Operations in sequence -/

section Running

variable {ε ε' σ α β : Type} {operation : EStateM ε σ α} {following other : α → EStateM ε σ β}
  {before : σ}

/-- What follows an operation matters only where that succeeds. -/
theorem bind_congr_of_ok (hsame : ∀ first middle, operation before = .ok first middle →
      following first middle = other first middle) :
    (operation >>= following) before = (operation >>= other) before := by
  change EStateM.bind operation following before = EStateM.bind operation other before
  unfold EStateM.bind
  split
  next first middle hrun => exact hsame first middle hrun
  next => rfl

theorem bind_of_ok {first : α} {middle : σ} (hrun : operation before = .ok first middle) :
    (operation >>= following) before = following first middle := by
  change EStateM.bind operation following before = _
  rw [EStateM.bind, hrun]

theorem adaptExcept_bind (rename : ε → ε') (operation : EStateM ε σ α)
    (following : α → EStateM ε σ β) :
    EStateM.adaptExcept rename (operation >>= following) =
      EStateM.adaptExcept rename operation >>= fun first ↦
        EStateM.adaptExcept rename (following first) := by
  funext before
  change EStateM.adaptExcept rename (EStateM.bind operation following) before =
    EStateM.bind (EStateM.adaptExcept rename operation) _ before
  simp only [EStateM.adaptExcept, EStateM.bind]
  cases operation before <;> rfl

theorem of_adaptExcept_eq_ok {rename : ε → ε'} {first : α} {middle : σ}
    (hrun : EStateM.adaptExcept rename operation before = .ok first middle) :
    operation before = .ok first middle := by
  unfold EStateM.adaptExcept at hrun
  split at hrun
  · cases hrun
  next hoperation =>
    cases hrun
    exact hoperation

end Running

/-! ### Readings in sequence -/

namespace Reading

variable {ε α β : Type}

theorem of_run_bind {reading : Reading ε α} {following : α → Reading ε β} {result : β}
    {before after : Decoder} (hrun : (reading >>= following).run before = .ok result after) :
    ∃ first middle, reading.run before = .ok first middle ∧
      (following first).run middle = .ok result after :=
  bind_eq_ok_iff.1 hrun

theorem of_run_pure {value result : α} {before after : Decoder}
    (hrun : (pure value : Reading ε α).run before = .ok result after) :
    value = result ∧ before = after := by
  cases hrun
  exact ⟨rfl, rfl⟩

theorem run_fail_ne {cause : ε} {result : α} {before after : Decoder} :
    (fail cause : Reading ε α).run before ≠ .ok result after := by
  intro hrun
  cases hrun

/-- Behind a failure nothing is read. -/
theorem run_fail_bind_ne {cause : ε} {following : α → Reading ε β} {result : β}
    {before after : Decoder} : (fail cause >>= following).run before ≠ .ok result after := by
  intro hrun
  obtain ⟨_, _, hfail, _⟩ := of_run_bind hrun
  exact run_fail_ne hfail

theorem of_run_ofExcept {computed : Except ε α} {result : α} {before after : Decoder}
    (hrun : (ofExcept computed).run before = .ok result after) :
    computed = .ok result ∧ before = after := by
  cases computed with
  | error cause => exact absurd hrun run_fail_ne
  | ok value =>
    obtain ⟨rfl, rfl⟩ := of_run_pure hrun
    exact ⟨rfl, rfl⟩

theorem of_run_within {input : Bytes} {reading : Reading ε α} {result : α}
    {before after : Decoder} (hrun : (within input reading).run before = .ok result after) :
    (∃ last, reading.run (.ofBytes input) = .ok result last) ∧ before = after := by
  dsimp only [within] at hrun
  split at hrun
  next result last hinner =>
    cases hrun
    exact ⟨⟨last, hinner⟩, rfl⟩
  next => cases hrun

/-- Behind a reading that succeeds, what follows it goes on from where it ends. -/
theorem run_bind_ok {reading : Reading ε α} {following : α → Reading ε β} {first : α}
    {before middle : Decoder} (hfirst : reading.run before = .ok first middle) :
    (reading >>= following).run before = (following first).run middle :=
  bind_of_ok hfirst

theorem run_bind_error {reading : Reading ε α} {following : α → Reading ε β} {cause : ε}
    {before after : Decoder} (hfirst : reading.run before = .error cause after) :
    (reading >>= following).run before = .error cause after := by
  change EStateM.bind reading.run _ before = _
  rw [EStateM.bind, hfirst]

/-- What follows does not tell apart two readings that run alike. -/
theorem run_bind_congr {reading other : Reading ε α} {following : α → Reading ε β}
    {before : Decoder} (hsame : reading.run before = other.run before) :
    (reading >>= following).run before = (other >>= following).run before := by
  change EStateM.bind reading.run _ before = EStateM.bind other.run _ before
  rw [EStateM.bind, EStateM.bind, hsame]

theorem exists_run_of_decode {reading : Reading ε α} {input : Bytes} {result : α}
    (hdecode : decode reading input = .ok result) :
    ∃ after, reading.run (.ofBytes input) = .ok result after := by
  unfold decode at hdecode
  split at hdecode
  next after hrun =>
    cases hdecode
    exact ⟨after, hrun⟩
  · cases hdecode

variable [CursorError ε]

theorem of_run_ofCursor {operation : Cursor α} {hforward : Forward operation} {result : α}
    {before after : Decoder}
    (hrun : (ofCursor operation hforward : Reading ε α).run before = .ok result after) :
    operation before = .ok result after :=
  of_adaptExcept_eq_ok hrun

theorem of_run_next {item : Item} {before after : Decoder}
    (hrun : (next : Reading ε Item).run before = .ok item after) :
    Decoder.next before = .ok item after :=
  of_run_ofCursor hrun

theorem of_run_finish {before after : Decoder}
    (hrun : (finish : Reading ε Unit).run before = .ok () after) :
    Decoder.finish before = .ok () after :=
  of_run_ofCursor hrun

/-! ### Loops over members -/

variable {visit : β → Item → Reading ε β}

/-- What holds at the start of a loop and is kept by every visit holds at its end, where the next
item does not belong to the loop. -/
theorem runBelow_induction (invariant : β → Decoder → Prop) {level : Nat}
    (hvisit : ∀ {state visited : β} {item : Item} {before middle after : Decoder},
      invariant state before → before.nextLevel > level →
      Decoder.next before = .ok item middle →
      (visit state item).run middle = .ok visited after → invariant visited after)
    {initial result : β} {before after : Decoder} (hinitial : invariant initial before)
    (hrun : runBelow level visit initial before = .ok result after) :
    invariant result after ∧ ¬after.nextLevel > level := by
  fun_induction runBelow level visit initial before with
  | case1 => cases hrun
  | case2 => cases hrun
  | case3 state decoder hlevel item middle hnext visited between hrunVisit ih =>
    exact ih (hvisit hinitial hlevel hnext hrunVisit) hrun
  | case4 state decoder hlevel =>
    cases hrun
    exact ⟨hinitial, hlevel⟩

end Reading

end Cose.Cbor
