import Mathlib.Data.List.Nodup
import Cose.Header.Decode

/-!
# Marking the critical parameters

Where no two parameters have the same label, marking the listed labels marks exactly the parameters
that have one of them, and succeeds if and only if all listed labels are there
(`CriticalLabels.mark_eq_ok_iff`).
-/

set_option autoImplicit false
set_option relaxedAutoImplicit false

namespace Cose

/-- A parameter, marked as critical if its label is listed. -/
def Parameter.markListed (labels : List Int64) (parameter : Parameter) : Parameter :=
  if parameter.label ∈ labels then parameter.markCritical else parameter

namespace Parameter

@[simp]
theorem label_markListed (labels : List Int64) (parameter : Parameter) :
    (parameter.markListed labels).label = parameter.label := by
  unfold markListed
  split <;> rfl

@[simp]
theorem isProtected_markListed (labels : List Int64) (parameter : Parameter) :
    (parameter.markListed labels).isProtected = parameter.isProtected := by
  unfold markListed
  split <;> rfl

theorem isCritical_markListed (labels : List Int64) {parameter : Parameter}
    (hplain : parameter.isCritical = false) :
    (parameter.markListed labels).isCritical = true ↔ parameter.label ∈ labels := by
  unfold markListed
  split
  next hmem => exact iff_of_true rfl hmem
  next hmem => exact iff_of_false (by rw [hplain]; exact Bool.false_ne_true) hmem

theorem markListed_singleton {label : Int64} {parameter : Parameter}
    (hlabel : parameter.label = label) :
    parameter.markListed [label] = parameter.markCritical := if_pos (List.mem_singleton.2 hlabel)

theorem markListed_singleton_of_ne {label : Int64} {parameter : Parameter}
    (hlabel : parameter.label ≠ label) : parameter.markListed [label] = parameter :=
  if_neg fun hmem ↦ hlabel (List.mem_singleton.1 hmem)

theorem markListed_cons (label : Int64) (labels : List Int64) (parameter : Parameter) :
    parameter.markListed (label :: labels) =
      (parameter.markListed [label]).markListed labels := by
  by_cases hfirst : parameter.label = label
  · rw [markListed_singleton hfirst, markListed, if_pos (List.mem_cons.2 (.inl hfirst)), markListed]
    split <;> rfl
  · rw [markListed_singleton_of_ne hfirst, markListed, markListed]
    simp only [List.mem_cons, hfirst, false_or]

theorem map_markListed_cons (label : Int64) (labels : List Int64) (parameters : List Parameter) :
    parameters.map (·.markListed (label :: labels)) =
      (parameters.map (·.markListed [label])).map (·.markListed labels) := by
  rw [List.map_map]
  exact List.map_congr_left fun parameter _ ↦ markListed_cons label labels parameter

theorem map_label_markListed (labels : List Int64) (parameters : List Parameter) :
    (parameters.map (·.markListed labels)).map (·.label) = parameters.map (·.label) := by
  simp

end Parameter

/-- Where labels are distinct, the one parameter with a label is marked. -/
theorem markCritical?_eq_some_iff {label : Int64} {parameters marked : List Parameter}
    (hnodup : (parameters.map (·.label)).Nodup) :
    markCritical? label parameters = some marked ↔
      label ∈ parameters.map (·.label) ∧ marked = parameters.map (·.markListed [label]) := by
  induction parameters generalizing marked with
  | nil => simp [markCritical?]
  | cons parameter rest ih =>
    obtain ⟨hnew, hothers⟩ := List.nodup_cons.1 hnodup
    rw [markCritical?]
    split
    next hfirst =>
      have hrest : rest.map (·.markListed [label]) = rest := by
        refine (List.map_congr_left fun other hmem ↦ ?_).trans rest.map_id
        refine Parameter.markListed_singleton_of_ne fun hother ↦ hnew ?_
        exact List.mem_map.2 ⟨other, hmem, hother.trans hfirst.symm⟩
      rw [List.map_cons, List.map_cons, hrest, Parameter.markListed_singleton hfirst,
        Option.some.injEq, hfirst]
      exact ⟨fun hequal ↦ ⟨.head _, hequal.symm⟩, fun hboth ↦ hboth.2.symm⟩
    next hfirst =>
      have hmem : label ∈ (parameter :: rest).map (·.label) ↔ label ∈ rest.map (·.label) :=
        List.mem_cons.trans (or_iff_right fun hequal ↦ hfirst hequal.symm)
      rw [hmem, List.map_cons, Parameter.markListed_singleton_of_ne hfirst, Option.map_eq_some_iff]
      constructor
      · rintro ⟨others, hmarked, rfl⟩
        obtain ⟨hlabel, rfl⟩ := (ih hothers).1 hmarked
        exact ⟨hlabel, rfl⟩
      · rintro ⟨hlabel, rfl⟩
        exact ⟨_, (ih hothers).2 ⟨hlabel, rfl⟩, rfl⟩

/-- Listed labels are marked one after the other, which amounts to marking all of them at once. -/
theorem foldlM_markCritical?_eq_some_iff {labels : List Int64} {parameters marked : List Parameter}
    (hnodup : (parameters.map (·.label)).Nodup) :
    labels.foldlM (fun parameters label ↦ markCritical? label parameters) parameters =
        some marked ↔
      (∀ label ∈ labels, label ∈ parameters.map (·.label)) ∧
        marked = parameters.map (·.markListed labels) := by
  induction labels generalizing parameters with
  | nil => simp [Parameter.markListed, eq_comm]
  | cons label rest ih =>
    have hkept := Parameter.map_label_markListed [label] parameters
    have hkeptNodup : ((parameters.map (·.markListed [label])).map (·.label)).Nodup := by
      rwa [hkept]
    rw [List.foldlM_cons, Option.bind_eq_bind, Option.bind_eq_some_iff, List.forall_mem_cons]
    constructor
    · rintro ⟨_, hfirst, hothers⟩
      obtain ⟨hlabel, rfl⟩ := (markCritical?_eq_some_iff hnodup).1 hfirst
      obtain ⟨hlabels, rfl⟩ := (ih hkeptNodup).1 hothers
      rw [hkept] at hlabels
      exact ⟨⟨hlabel, hlabels⟩, (Parameter.map_markListed_cons _ _ _).symm⟩
    · rintro ⟨⟨hlabel, hlabels⟩, rfl⟩
      rw [← hkept] at hlabels
      exact ⟨_, (markCritical?_eq_some_iff hnodup).2 ⟨hlabel, rfl⟩,
        (ih hkeptNodup).2 ⟨hlabels, Parameter.map_markListed_cons _ _ _⟩⟩

/-- All listed labels are marked if and only if each of them was stored and no text label is
listed. -/
theorem CriticalLabels.mark_eq_ok_iff {critical : CriticalLabels}
    {parameters marked : List Parameter} (hnodup : (parameters.map (·.label)).Nodup) :
    critical.mark parameters = .ok marked ↔
      critical.hasText = false ∧ (∀ label ∈ critical.labels, label ∈ parameters.map (·.label)) ∧
        marked = parameters.map (·.markListed critical.labels) := by
  rw [← foldlM_markCritical?_eq_some_iff hnodup]
  unfold mark
  split
  next htext => simp [htext]
  next htext =>
    split
    next found hfound => simp [htext, hfound]
    next hfound => simp [hfound]

end Cose
