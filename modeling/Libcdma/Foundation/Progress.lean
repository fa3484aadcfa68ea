/-
Runs that get somewhere.

A gauge that counted actions raise and nothing lowers bounds how many of them a run
takes.  A rank that can be lowered from wherever the goal is not reached leads there.
-/

import Mathlib.Algebra.Order.Ring.Nat
import Libcdma.Foundation.Transition

namespace Libcdma.Transition

variable {State Action : Type} {step : State → Action → Option State} {inv : State → Prop}

theorem countP_cons_toNat (counted : Action → Bool) (action : Action) (rest : List Action) :
    (action :: rest).countP counted = rest.countP counted + (counted action).toNat := by
  rw [List.countP_cons]
  cases counted action <;> rfl

/-- The gauge pays for every counted action of the run. -/
theorem count_le_gauge {gauge : State → Nat} {counted : Action → Bool}
    (keeps : ∀ state action next, inv state → step state action = some next → inv next)
    (pays : ∀ state action next, inv state → step state action = some next →
      gauge state + (counted action).toNat ≤ gauge next)
    {state final : State} {actions : List Action} (start : inv state)
    (ran : run step state actions = some final) :
    gauge state + actions.countP counted ≤ gauge final := by
  induction actions generalizing state with
  | nil =>
      cases ran
      exact Nat.le_refl _
  | cons action rest ih =>
      obtain ⟨next, stepped, later⟩ := (run_cons_eq_some step).mp ran
      have paid := pays state action next start stepped
      have others := ih (keeps state action next start stepped) later
      rw [countP_cons_toNat]
      omega

/-- Every counted action is paid for by what was there or by the credit of an action. -/
theorem count_le_credit {rank : State → Nat} {counted : Action → Bool} {credit : Action → Nat}
    (keeps : ∀ state action next, inv state → step state action = some next → inv next)
    (pays : ∀ state action next, inv state → step state action = some next →
      rank next + (counted action).toNat ≤ rank state + credit action)
    {state final : State} {actions : List Action} (start : inv state)
    (ran : run step state actions = some final) :
    rank final + actions.countP counted ≤ rank state + (actions.map credit).sum := by
  induction actions generalizing state with
  | nil =>
      cases ran
      exact Nat.le_refl _
  | cons action rest ih =>
      obtain ⟨next, stepped, later⟩ := (run_cons_eq_some step).mp ran
      have paid := pays state action next start stepped
      have others := ih (keeps state action next start stepped) later
      rw [countP_cons_toNat, List.map_cons, List.sum_cons]
      omega

/-- As long as some stretch of actions of the kind brings the goal nearer, a run of such
actions reaches it. -/
theorem exists_run_reaching {goal : State → Prop} {kind : Action → Prop} {rank : State → Nat}
    (nearer : ∀ state, inv state → ¬goal state → ∃ actions next, (∀ action ∈ actions, kind action) ∧
      run step state actions = some next ∧ inv next ∧ rank next < rank state)
    {state : State} (start : inv state) :
    ∃ actions final, (∀ action ∈ actions, kind action) ∧ run step state actions = some final ∧
      inv final ∧ goal final := by
  generalize bound : rank state = count
  induction count using Nat.strongRecOn generalizing state with
  | ind count ih =>
      by_cases reached : goal state
      · exact ⟨[], state, fun _ listed => (List.not_mem_nil listed).elim, rfl, start, reached⟩
      · obtain ⟨before, next, own, ran, kept, less⟩ := nearer state start reached
        obtain ⟨after, final, kinds, later, ended⟩ := ih (rank next) (bound ▸ less) kept rfl
        refine ⟨before ++ after, final, ?_, run_append step ran later, ended⟩
        intro each listed
        rcases List.mem_append.mp listed with first | second
        · exact own each first
        · exact kinds each second

theorem run_single {state next : State} {action : Action} (stepped : step state action = some next) :
    run step state [action] = some next :=
  (run_cons_eq_some step).mpr ⟨next, stepped, rfl⟩

end Libcdma.Transition
