/-
Components that take turns on one store.

Every component has a place in the store.  A step is confined when it keeps the invariant
of the component that takes it and leaves the places of the others as they are.  What
holds of each component on its own then holds of all of them, in every order of steps.
-/

import Mathlib.Logic.Pairwise
import Libcdma.Foundation.Transition

namespace Libcdma.Lanes

open Transition

structure System (Name Lane Store : Type) where
  lane : Name → Lane
  store : Store

section Steps

variable {Name Lane Store Action Place : Type} [DecidableEq Name]
  (move : Lane → Store → Action → Option (Lane × Store))

def System.step (system : System Name Lane Store) :
    Name × Action → Option (System Name Lane Store)
  | (name, action) =>
      (move (system.lane name) system.store action).map fun (lane, store) =>
        { lane := Function.update system.lane name lane, store := store }

/-- Moves of a component at a place keep its invariant and the places apart from its own;
the invariant is about nothing else in the store. -/
structure Confined (kept : Place → Store → Store → Prop) (apart : Place → Place → Prop)
    (inv : Place → Lane → Store → Prop) : Prop where
  keeps : ∀ {place lane store action after left}, inv place lane store →
    move lane store action = some (after, left) → inv place after left
  within : ∀ {place other lane store action after left}, inv place lane store →
    move lane store action = some (after, left) → apart place other → kept other store left
  stable : ∀ {place lane store left}, inv place lane store → kept place store left →
    inv place lane left

variable {move} {kept : Place → Store → Store → Prop} {apart : Place → Place → Prop}
  {inv : Place → Lane → Store → Prop} {place : Name → Place}
  {system next : System Name Lane Store}

theorem Confined.step (confined : Confined move kept apart inv)
    (separate : Pairwise (fun name other => apart (place name) (place other)))
    (each : ∀ name, inv (place name) (system.lane name) system.store) {action : Name × Action}
    (stepped : system.step move action = some next) :
    ∀ name, inv (place name) (next.lane name) next.store := by
  obtain ⟨mover, action⟩ := action
  obtain ⟨⟨lane, store⟩, moved, same⟩ := Option.map_eq_some_iff.mp stepped
  subst same
  intro name
  by_cases own : name = mover
  · subst own
    simp only [Function.update_self]
    exact confined.keeps (each name) moved
  · simp only [Function.update_of_ne own]
    have untouched := confined.within (each mover) moved (separate (Ne.symm own))
    exact confined.stable (each name) untouched

theorem Confined.run (confined : Confined move kept apart inv)
    (separate : Pairwise (fun name other => apart (place name) (place other)))
    (each : ∀ name, inv (place name) (system.lane name) system.store)
    {actions : List (Name × Action)}
    (ran : Transition.run (System.step move) system actions = some next) :
    ∀ name, inv (place name) (next.lane name) next.store := by
  have keeps : ∀ (state : System Name Lane Store) (action : Name × Action)
      (after : System Name Lane Store),
      (∀ name, inv (place name) (state.lane name) state.store) →
      state.step move action = some after →
      ∀ name, inv (place name) (after.lane name) after.store := by
    intro state action after holds stepped
    exact confined.step separate holds stepped
  exact run_invariant (System.step move) keeps each ran

end Steps

end Libcdma.Lanes
