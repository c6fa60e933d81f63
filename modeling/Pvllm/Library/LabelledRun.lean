import Mathlib.Data.List.Basic

/-!
Runs of a labelled step relation.

A run is a sequence of steps with its labels, oldest first. `Run.invariant` is
the induction every invariant of a run goes by; the labels passed so far are
part of what the invariant may speak about. A run splits wherever its labels do.
-/

namespace Pvllm

variable {State Label : Type*} {Step : State → Label → State → Prop}

/-- From a state, through steps with the given labels, to a state. -/
inductive Run (Step : State → Label → State → Prop) (start : State) : List Label → State → Prop
  | nil : Run Step start [] start
  | snoc {labels : List Label} {state state' : State} {label : Label}
      (hrun : Run Step start labels state) (hstep : Step state label state') :
      Run Step start (labels ++ [label]) state'

namespace Run

variable {start middle final : State} {labels labels' : List Label}

/-- What holds at the start and is kept by every step holds after every run. -/
theorem invariant {P : List Label → State → Prop} (hinit : P [] start)
    (hkeep : ∀ labels state label state', Run Step start labels state → P labels state →
      Step state label state' → P (labels ++ [label]) state')
    (hrun : Run Step start labels final) : P labels final := by
  induction hrun with
  | nil => exact hinit
  | snoc hrun hstep ih => exact hkeep _ _ _ _ hrun ih hstep

/-- A run seen through a map that takes steps to steps. -/
theorem map {State' : Type*} {Step' : State' → Label → State' → Prop} (f : State → State')
    (hstep : ∀ state label state', Step state label state' → Step' (f state) label (f state'))
    (hrun : Run Step start labels final) : Run Step' (f start) labels (f final) := by
  induction hrun with
  | nil => exact .nil
  | snoc _ hlast ih => exact ih.snoc (hstep _ _ _ hlast)

/-- Two step relations that agree wherever an invariant of the one holds have the
same runs. -/
theorem congr_of_invariant {Step' : State → Label → State → Prop} {P : State → Prop}
    (hinit : P start) (hkeep : ∀ state label state', P state → Step' state label state' → P state')
    (hiff : ∀ state label state', P state → (Step state label state' ↔ Step' state label state')) :
    Run Step start labels final ↔ Run Step' start labels final := by
  constructor
  · intro hrun
    suffices h : Run Step' start labels final ∧ P final from h.1
    induction hrun with
    | nil => exact ⟨.nil, hinit⟩
    | snoc _ hstep ih =>
        have hstep' := (hiff _ _ _ ih.2).mp hstep
        exact ⟨ih.1.snoc hstep', hkeep _ _ _ ih.2 hstep'⟩
  · intro hrun
    suffices h : Run Step start labels final ∧ P final from h.1
    induction hrun with
    | nil => exact ⟨.nil, hinit⟩
    | snoc _ hstep ih =>
        exact ⟨ih.1.snoc ((hiff _ _ _ ih.2).mpr hstep), hkeep _ _ _ ih.2 hstep⟩

theorem append (hrun : Run Step start labels middle) (hrun' : Run Step middle labels' final) :
    Run Step start (labels ++ labels') final := by
  induction hrun' with
  | nil => rwa [List.append_nil]
  | snoc _ hstep ih =>
      rw [← List.append_assoc]
      exact ih.snoc hstep

/-- A run splits where its labels do. -/
theorem split (hrun : Run Step start (labels ++ labels') final) :
    ∃ middle, Run Step start labels middle ∧ Run Step middle labels' final := by
  generalize hall : labels ++ labels' = all at hrun
  induction hrun generalizing labels' with
  | nil =>
      obtain ⟨rfl, rfl⟩ := List.append_eq_nil_iff.mp hall
      exact ⟨start, .nil, .nil⟩
  | @snoc before state state' label hrun hstep ih =>
      rcases List.eq_nil_or_concat' labels' with rfl | ⟨labels', last, rfl⟩
      · rw [List.append_nil] at hall
        subst hall
        exact ⟨state', hrun.snoc hstep, .nil⟩
      · rw [← List.append_assoc] at hall
        obtain ⟨rfl, hlast⟩ := List.append_inj' hall rfl
        obtain ⟨middle, hfirst, hsecond⟩ := ih rfl
        obtain rfl := List.head_eq_of_cons_eq hlast
        exact ⟨middle, hfirst, hsecond.snoc hstep⟩

theorem eq_of_nil (hrun : Run Step start [] final) : final = start := by
  generalize hall : ([] : List Label) = all at hrun
  cases hrun with
  | nil => rfl
  | snoc _ _ => simp at hall

theorem single {label : Label} (hrun : Run Step start [label] final) : Step start label final := by
  generalize hall : [label] = all at hrun
  cases hrun with
  | nil => cases hall
  | @snoc before state _ last hrun hstep =>
      rw [← List.nil_append [label]] at hall
      obtain ⟨rfl, hlast⟩ := List.append_inj' hall rfl
      obtain rfl := List.head_eq_of_cons_eq hlast
      obtain rfl := eq_of_nil hrun
      exact hstep

end Run

end Pvllm
