/-
Forward simulation of one transition system by another.

A relation between the states of a concrete and an abstract system is a simulation
when every concrete step is matched by an abstract one.  Then every concrete run is
matched by an abstract run whose labels stand for the concrete steps one by one.
-/

import Libcdma.Foundation.Transition

namespace Libcdma.Transition

section Labels

variable {State Action Label : Type} (step : State → Action → Option State)
  (stands : State → Action → Label → Prop)

/-- The labels stand for the steps of a run, each in the state the step starts from. -/
def Labelled : State → List Action → List Label → Prop
  | _, [], [] => True
  | state, action :: actions, label :: labels =>
      stands state action label ∧ ∀ next ∈ step state action, Labelled next actions labels
  | _, _, _ => False

end Labels

theorem conforms_of_forall {State Action : Type} (step : State → Action → Option State)
    {condition : Action → Prop} {actions : List Action}
    (each : ∀ action ∈ actions, condition action) (state : State) :
    Conforms step (fun _ action => condition action) state actions := by
  induction actions generalizing state with
  | nil => trivial
  | cons action rest ih =>
      constructor
      · exact each action List.mem_cons_self
      · intro next _
        exact ih (fun other member => each other (List.mem_cons_of_mem _ member)) next

section Simulation

variable {State Action Spec Label : Type} (step : State → Action → Option State)
  (specStep : Spec → Label → Option Spec)

/-- Steps that meet a condition keep a relation to an abstract system that takes the
labelled steps alongside. -/
structure Simulates (condition : State → Action → Prop) (related : State → Spec → Prop)
    (stands : State → Action → Label → Prop) : Prop where
  matched : ∀ {state action next spec}, condition state action → related state spec →
    step state action = some next →
      ∃ label after, stands state action label ∧ specStep spec label = some after ∧
        related next after

variable {step specStep}

theorem Simulates.run {condition : State → Action → Prop} {related : State → Spec → Prop}
    {stands : State → Action → Label → Prop}
    (simulates : Simulates step specStep condition related stands) {state final : State}
    {spec : Spec} {actions : List Action} (conforms : Conforms step condition state actions)
    (start : related state spec) (ran : Transition.run step state actions = some final) :
    ∃ labels after, Labelled step stands state actions labels ∧
      Transition.run specStep spec labels = some after ∧ related final after := by
  induction actions generalizing state spec with
  | nil =>
      cases ran
      exact ⟨[], spec, trivial, rfl, start⟩
  | cons action rest ih =>
      obtain ⟨next, stepped, later⟩ := (run_cons_eq_some step).mp ran
      obtain ⟨label, after, stand, specStepped, kept⟩ :=
        simulates.matched conforms.1 start stepped
      obtain ⟨labels, last, labelled, specRan, reached⟩ :=
        ih (conforms.2 next stepped) kept later
      refine ⟨label :: labels, last, ?_, ?_, reached⟩
      · constructor
        · exact stand
        · intro other same
          cases stepped.symm.trans same
          exact labelled
      · exact (run_cons_eq_some specStep).mpr ⟨after, specStepped, specRan⟩

end Simulation

end Libcdma.Transition
