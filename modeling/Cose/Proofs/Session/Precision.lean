import Mathlib.Tactic.Common
import Cose.Proofs.Float.Numeric
import Cose.Proofs.Session.Steps

/-!
# The precision in which a number comes

A single precision number is reduced like the double precision number that it widens to. So where
the rules of a session reduce floating point numbers, the one is written exactly like the other.
No call changes the rules of a session, and runs that differ in such numbers alone stay together to
their end: `Call.runAll_of_widens`.
-/

set_option autoImplicit false
set_option relaxedAutoImplicit false

namespace Cose

open Cbor

/-- A single precision number is appended like the double precision number that it widens to, by
rules that reduce floating point numbers. -/
theorem Cbor.Encoder.appendSingle_eq_appendDouble {encoder : Encoder}
    (hreduces : encoder.rules.reduceFloats = true) (number : Float.Single) :
    encoder.appendSingle number = encoder.appendDouble number.toDouble := by
  simp only [appendSingle, appendDouble, number.isNaN_toDouble, ← number.reduce_eq, hreduces,
    if_true]

namespace Call

/-- No call changes the rules of a session. -/
theorem rules_run {call : Call} (hproper : call.Proper) (encoder : Encoder) :
    (call.run encoder).2.rules = encoder.rules := by
  obtain ⟨_, htraced⟩ := traceable_heard hproper.permits_full
  exact htraced.rules_eq encoder

/-- Calls that differ at most in the precision in which a floating point number comes. -/
inductive Widens : Call → Call → Prop where
  | same (call : Call) : Widens call call
  | single (number : Float.Single) :
    Widens (.operation (.scalar (.single number))) (.operation (.scalar (.double number.toDouble)))

section Widens

variable {encoder : Encoder} (hreduces : encoder.rules.reduceFloats = true)
include hreduces

theorem Widens.run_eq {call other : Call} (hwidens : Widens call other) :
    other.run encoder = call.run encoder := by
  cases hwidens with
  | same => rfl
  | single number =>
    exact congrArg (Answer.done, ·) (Encoder.appendSingle_eq_appendDouble hreduces number).symm

/-- Runs that differ at most in the precision in which floating point numbers come are told the same
and leave the same session. -/
theorem runAll_of_widens {calls others : List Call} (hwidens : List.Forall₂ Widens calls others)
    (hproper : ∀ call ∈ calls, call.Proper) :
    runAll encoder others = runAll encoder calls := by
  induction hwidens generalizing encoder with
  | nil => rfl
  | @cons call other _ _ hcall _ ih =>
    obtain ⟨hfirst, hrest⟩ := List.forall_mem_cons.1 hproper
    have hafter : (call.run encoder).2.rules.reduceFloats = true := by
      rw [call.rules_run hfirst, hreduces]
    simp only [runAll, hcall.run_eq hreduces, ih hafter hrest]

end Widens

end Call

/-- Both reductions agree: a single precision number is reduced to the same precision and the same
bits as the double precision number that it widens to. So in every session whose rules reduce
floating point numbers, whatever was done in it before, appending the one leaves the same session as
appending the other, and no later call can tell which it was. -/
theorem appendSingle_agrees_with_appendDouble :
    (∀ number : Float.Single, number.reduce = number.toDouble.reduce) ∧
    ∀ encoder : Encoder, encoder.rules.reduceFloats = true →
      (∀ number : Float.Single,
        encoder.appendSingle number = encoder.appendDouble number.toDouble) ∧
      ∀ calls others : List Call, List.Forall₂ Call.Widens calls others →
        (∀ call ∈ calls, call.Proper) →
          Call.runAll encoder others = Call.runAll encoder calls :=
  ⟨Float.Single.reduce_eq, fun _ hreduces ↦ ⟨Encoder.appendSingle_eq_appendDouble hreduces,
    fun _ _ ↦ Call.runAll_of_widens hreduces⟩⟩

/-- A number that is subnormal in half precision, a signalling NaN with a payload, and the least
number of single precision, in an array. -/
theorem appendSingle_agrees_with_appendDouble_subnormal :
    let encoder := Encoder.growable .coreDeterministic
    let numbers : List Float.Single := [⟨0x33800000⟩, ⟨0xffa02000⟩, ⟨0x00000001⟩]
    let run (scalars : List Scalar) := Call.runAll encoder <|
      .operation (.opening .array) :: scalars.map (.operation ∘ .scalar) ++
        [.operation (.closing .array)]
    encoder.rules.reduceFloats = true ∧
      run (numbers.map fun number ↦ .double number.toDouble) = run (numbers.map .single) ∧
      (run (numbers.map .single)).2.finish = .ok [0x83, 0xf9, 0x00, 0x01, 0xf9, 0xfd, 0x01, 0xfa,
        0x00, 0x00, 0x00, 0x01] := by
  intro encoder numbers run
  refine ⟨rfl, ?_, by decide +kernel⟩
  refine (appendSingle_agrees_with_appendDouble.2 encoder rfl).2 _ _ ?_ ?_
  · refine .cons (.same _) (.cons (.single _) (.cons (.single _) (.cons (.single _) ?_)))
    exact .cons (.same _) .nil
  · simp [numbers, Call.Proper, Call.writers]

end Cose
