/-
Runs of a deterministic system under a list of actions.

An action that is not enabled has no successor.  An invariant is proved for one
step and inherited by whole runs, either outright or for the runs whose steps
all meet a condition on the state they start from.
-/

import Mathlib.Data.List.Basic

namespace Libcdma.Transition

variable {State Action : Type} (step : State → Action → Option State)

def run : State → List Action → Option State
  | state, [] => some state
  | state, action :: rest => (step state action).bind (fun next => run next rest)

/-- Every step of the run starts from a state that meets the condition. -/
def Conforms (condition : State → Action → Prop) : State → List Action → Prop
  | _, [] => True
  | state, action :: rest =>
      condition state action ∧ ∀ next ∈ step state action, Conforms condition next rest

def decidableConforms {condition : State → Action → Prop}
    [∀ state action, Decidable (condition state action)] :
    ∀ (state : State) (actions : List Action), Decidable (Conforms step condition state actions)
  | _, [] => instDecidableTrue
  | state, action :: rest =>
      have : ∀ next, Decidable (Conforms step condition next rest) :=
        fun next => decidableConforms next rest
      inferInstanceAs (Decidable (condition state action ∧
        ∀ next ∈ step state action, Conforms step condition next rest))

instance {condition : State → Action → Prop}
    [∀ state action, Decidable (condition state action)] (state : State)
    (actions : List Action) : Decidable (Conforms step condition state actions) :=
  decidableConforms step state actions

theorem run_cons_eq_some {state final : State} {action : Action} {rest : List Action} :
    run step state (action :: rest) = some final ↔
      ∃ next, step state action = some next ∧ run step next rest = some final := by
  simp only [run, Option.bind_eq_some_iff]

theorem run_append {state middle final : State} {first second : List Action}
    (before : run step state first = some middle) (after : run step middle second = some final) :
    run step state (first ++ second) = some final := by
  induction first generalizing state with
  | nil =>
      cases before
      exact after
  | cons action rest ih =>
      obtain ⟨next, stepped, later⟩ := (run_cons_eq_some step).mp before
      exact (run_cons_eq_some step).mpr ⟨next, stepped, ih later⟩

theorem run_invariant_of_conforms {condition : State → Action → Prop} {inv : State → Prop}
    (keeps : ∀ state action next, condition state action → inv state →
      step state action = some next → inv next)
    {state final : State} {actions : List Action}
    (conforms : Conforms step condition state actions) (start : inv state)
    (ran : run step state actions = some final) : inv final := by
  induction actions generalizing state with
  | nil =>
      cases ran
      exact start
  | cons action rest ih =>
      obtain ⟨next, stepped, later⟩ := (run_cons_eq_some step).mp ran
      exact ih (conforms.2 next stepped) (keeps state action next conforms.1 start stepped) later

theorem run_invariant {inv : State → Prop}
    (keeps : ∀ state action next, inv state → step state action = some next → inv next)
    {state final : State} {actions : List Action} (start : inv state)
    (ran : run step state actions = some final) : inv final := by
  induction actions generalizing state with
  | nil =>
      cases ran
      exact start
  | cons action rest ih =>
      obtain ⟨next, stepped, later⟩ := (run_cons_eq_some step).mp ran
      exact ih (keeps state action next start stepped) later

end Libcdma.Transition
