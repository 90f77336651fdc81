import Mathlib.Tactic.Common
import Cose.Proofs.Session.Steps

/-!
# Failures stay

The first failure of an encoding session is its last word. To be a certain failed session is a
property that every step keeps (`Outlook.keeps_of_failed`), so every call and every program made of
calls keeps it. A call that would have told something refuses: a message or its
headers are written with success only into a session that has not failed afterwards.
`Call.runAll_of_error` says so of whole runs.
-/

set_option autoImplicit false
set_option relaxedAutoImplicit false

namespace Cose

open Cbor

/-- Each step leaves a failed session as it is. -/
theorem Outlook.keeps_of_failed {encoder : Encoder} (hfailed : encoder.Failed) :
    Outlook.full.Keeps (· = encoder) := by
  rintro step - _ rfl
  cases step with
  | operation operation => exact Encoder.apply_of_failed hfailed operation
  | raw data => exact Encoder.write_of_failed hfailed data
  | encoded item => exact Encoder.appendEncoded_of_failed hfailed item
  | openRegion capacity content =>
    exact congrArg Prod.snd (Encoder.openRegion_of_failed hfailed capacity content)
  | closeRegion used => exact Encoder.closeRegion_of_failed hfailed used

/-! ### Success means that the session has not failed -/

/-- Whether a program has success only if the session has not failed after it. -/
def Session.SucceedsLive {α : Type} (program : Session α) : Prop :=
  ∀ encoder value after, program encoder = .ok value after → ¬after.Failed

theorem succeedsLive_bind {α β : Type} {first : Session α} {next : α → Session β}
    (hnext : ∀ value, (next value).SucceedsLive) : (first >>= next).SucceedsLive := by
  intro encoder result after hrun
  obtain ⟨value, middle, _, hfollowing⟩ := bind_eq_ok_iff.1 hrun
  exact hnext value middle result after hfollowing

/-- What only returns something behind a program does not matter. -/
theorem succeedsLive_of_first {α β : Type} {first : Session α} {next : α → Session β}
    (hfirst : first.SucceedsLive)
    (hnext : ∀ value middle result after, next value middle = .ok result after → after = middle) :
    (first >>= next).SucceedsLive := by
  intro encoder result after hrun
  obtain ⟨value, middle, hbefore, hfollowing⟩ := bind_eq_ok_iff.1 hrun
  rw [hnext value middle result after hfollowing]
  exact hfirst encoder value middle hbefore

theorem succeedsLive_check : Session.check.SucceedsLive := by
  intro encoder value after hrun
  obtain ⟨rfl, hlive⟩ := check_eq_ok hrun
  exact hlive

theorem succeedsLive_encodeHeaders (parameters : List Parameter) :
    (encodeHeaders parameters).SucceedsLive := by
  rcases encodeHeaders_cases parameters with ⟨cause, hrejected⟩ | hwritten
  · intro encoder span after hrun
    rw [hrejected] at hrun
    cases hrun
  · rw [hwritten]
    unfold encodeBuckets
    refine succeedsLive_bind fun _ ↦ succeedsLive_bind fun _ ↦ succeedsLive_bind fun _ ↦ ?_
    refine succeedsLive_bind fun span? ↦ succeedsLive_bind fun _ ↦ succeedsLive_bind fun _ ↦ ?_
    refine succeedsLive_bind fun _ ↦ succeedsLive_of_first succeedsLive_check ?_
    intro _ middle span after hreturn
    cases span? with
    | none => cases hreturn
    | some found =>
      cases hreturn
      rfl

theorem succeedsLive_appendMessage (tag? : Option MessageTag) (headers : HeaderItems)
    (appendRest : Encoder → Encoder) :
    (appendMessage tag? headers appendRest).SucceedsLive :=
  succeedsLive_bind fun _ ↦ succeedsLive_check

theorem succeedsLive_encodeStamped {ι : Type} (tag : MessageTag) (message : Message)
    (inputs : Bytes → ι) (stamp : ι → Except Error Bytes) :
    Session.SucceedsLive (encodeStamped (m := Id) tag message inputs stamp) := by
  intro encoder value after hrun
  rcases encodeStamped_cases tag message inputs stamp encoder.rules with
    ⟨cause, hrefused⟩ | ⟨headers, result, hwritten⟩
  · rw [hrefused encoder rfl] at hrun
    cases hrun
  · rw [hwritten encoder rfl] at hrun
    exact succeedsLive_appendMessage _ headers _ encoder value after hrun

theorem succeedsLive_encodeEncrypt0 (message : Message)
    (encrypt : (plaintext aad : Bytes) → Except Error Bytes) :
    Session.SucceedsLive (encodeEncrypt0 (m := Id) message encrypt) := by
  intro encoder value after hrun
  rcases encodeEncrypt0_cases message encrypt encoder.rules with
    ⟨cause, hrefused⟩ | ⟨headers, ciphertext, hwritten⟩
  · rw [hrefused encoder rfl] at hrun
    cases hrun
  · rw [hwritten encoder rfl] at hrun
    refine succeedsLive_of_first (succeedsLive_appendMessage _ headers _) ?_ _ value after hrun
    intro _ middle result after hreturn
    cases hreturn
    rfl

/-! ### Calls and runs -/

section Runs

variable {encoder : Encoder}

/-- A program that has success only on a session that has not failed fails on one that it leaves
failed. -/
theorem exists_error_of_failed {α : Type} {program : Session α} (hlive : program.SucceedsLive)
    (hfailed : (Session.outcome (program encoder)).2.Failed) :
    ∃ cause, (Session.outcome (program encoder)).1 = .error cause := by
  cases hrun : program encoder with
  | error cause after => exact ⟨cause, rfl⟩
  | ok value after =>
    rw [hrun] at hfailed
    exact absurd hfailed (hlive encoder value after hrun)

/-- Every call leaves a failed session as it is. -/
theorem Call.run_of_failed (hfailed : encoder.Failed) {call : Call} (hproper : call.Proper) :
    (call.run encoder).2 = encoder :=
  Call.run_keeps (Outlook.keeps_of_failed hfailed) hproper.permits_full rfl

/-- Every call on a failed session is refused. -/
theorem Call.isRefusal_of_failed (hfailed : encoder.Failed) {call : Call}
    (hproper : call.Proper) : (call.run encoder).1.IsRefusal := by
  have hafter : (call.run encoder).2.Failed := by rwa [call.run_of_failed hfailed hproper]
  cases call with
  | closeWrap includeHead => exact congrArg Prod.fst (Encoder.closeWrap_of_failed hfailed _)
  | closeWrapBytes includeHead =>
    exact congrArg Prod.fst (Encoder.closeWrapBytes_of_failed hfailed _)
  | openRegion capacity content =>
    exact congrArg Prod.fst (Encoder.openRegion_of_failed hfailed _ _)
  | headers parameters =>
    exact exists_error_of_failed (succeedsLive_encodeHeaders parameters) hafter
  | sign1 message sign =>
    have hlive := succeedsLive_encodeStamped .sign1 message
      (⟨·, none, message.externalAad, message.payload⟩) sign
    exact exists_error_of_failed hlive hafter
  | mac0 message authenticate =>
    have hlive := succeedsLive_encodeStamped .mac0 message
      (⟨.mac0, ·, message.externalAad, message.payload⟩) authenticate
    exact exists_error_of_failed hlive hafter
  | encrypt0 message encrypt =>
    exact exists_error_of_failed (succeedsLive_encodeEncrypt0 message encrypt) hafter
  | _ => trivial

theorem Call.runAll_of_failed (hfailed : encoder.Failed) {calls : List Call}
    (hproper : ∀ call ∈ calls, call.Proper) :
    Call.runAll encoder calls = (calls.map fun call ↦ (call.run encoder).1, encoder) := by
  induction calls with
  | nil => rfl
  | cons call rest ih =>
    obtain ⟨hcall, hrest⟩ := List.forall_mem_cons.1 hproper
    have hafter := call.run_of_failed hfailed hcall
    simp only [runAll, hafter, ih hrest, List.map_cons]
    rfl

/-- The first failure of a session stays. Whatever is called afterwards leaves the session exactly
as it is, with its failure, its length and its bytes, and is refused, and the session is finished
with that failure. -/
theorem Call.runAll_of_error {cause : EncodeError} (herror : encoder.error = some cause)
    {calls : List Call} (hproper : ∀ call ∈ calls, call.Proper) :
    ∃ answers, Call.runAll encoder calls = (answers, encoder) ∧
      answers.length = calls.length ∧ (∀ answer ∈ answers, answer.IsRefusal) ∧
      encoder.finish = .error cause ∧ encoder.finishSize = .error cause := by
  have hfailed : encoder.Failed := by
    rw [Encoder.Failed, herror]
    exact Option.some_ne_none cause
  refine ⟨_, Call.runAll_of_failed hfailed hproper, List.length_map _, ?_,
    Encoder.finish_of_error herror⟩
  intro answer hmem
  obtain ⟨call, hcall, rfl⟩ := List.mem_map.1 hmem
  exact call.isRefusal_of_failed hfailed (hproper call hcall)

end Runs

/-- A program that writes the label of its parameter and the number zero, by two calls. -/
def zeroWriter : ParameterWriter := fun label _ _ ↦ do
  let _ ← (Call.operation (.scalar (.int label))).program
  let _ ← (Call.raw [0]).program
  return

theorem madeOfCalls_zeroWriter (label : Int64) (isProtected isCritical : Bool) :
    (zeroWriter label isProtected isCritical).MadeOfCalls :=
  .bind (.call _ nofun) fun _ ↦ .bind (.call _ nofun) fun _ ↦ .pure ()

/-- A session in which an array was closed that was not open, and five further calls. -/
theorem Call.runAll_of_error_closeArray :
    let encoder := (Encoder.growable .preferred).closeArray
    let message : Message := ⟨[.kid [7]], [], [1, 2], false, true⟩
    let calls : List Call :=
      [.value (.array [.null, .unsigned 1]), .openRegion 4 [1, 2], .closeWrapBytes true,
        .headers [⟨9, true, true, .written zeroWriter⟩], .sign1 message fun _ ↦ .ok [3]]
    encoder.error = some .tooManyCloses ∧
      ∃ answers, Call.runAll encoder calls = (answers, encoder) ∧ answers.length = 5 ∧
        (∀ answer ∈ answers, answer.IsRefusal) ∧ encoder.finish = .error .tooManyCloses ∧
        encoder.finishSize = .error .tooManyCloses := by
  intro encoder message calls
  have hproper : ∀ call ∈ calls, call.Proper := by
    simp [calls, Call.Proper, Call.writers, Parameter.writer?, madeOfCalls_zeroWriter]
  exact ⟨rfl, Call.runAll_of_error rfl hproper⟩

end Cose
