/-
A ledger inside a larger one.

A component that keeps its own ledger is part of a system when its resources are a part
of the system's: what the component does to its own ledger is then in order in the
larger ledger too, and leaves the rest of it alone.
-/

import Libcdma.Foundation.Ledger

namespace Libcdma.Ledger

variable {R S : Type} (inject : R → S)

def Entry.embed (entry : Entry R) : Entry S := ⟨inject entry.resource, entry.refs.map inject⟩

def Event.embed : Event R → Event S
  | .granted entry => .granted (entry.embed inject)
  | .pooled resource => .pooled (inject resource)
  | .handed resource => .handed (inject resource)
  | .used resource => .used (inject resource)
  | .released resource => .released (inject resource)

/-- No entry is one of the component's or refers to one of them. -/
def Apart (rest : List (Entry S)) : Prop :=
  ∀ entry ∈ rest, ∀ resource, entry.resource ≠ inject resource ∧ inject resource ∉ entry.refs

def within (rest : List (Entry S)) (ledger : List (Entry R)) : List (Entry S) :=
  ledger.map (Entry.embed inject) ++ rest

variable {inject} {rest : List (Entry S)}

theorem live_embed (ledger : List (Entry R)) :
    live (ledger.map (Entry.embed inject)) = (live ledger).map inject := by
  unfold live
  rw [List.map_map, List.map_map]
  rfl

theorem Sound.founded {ledger : List (Entry R)} (sound : Sound ledger) : Founded ledger := by
  induction ledger with
  | nil => trivial
  | cons entry older ih => exact ⟨sound.2.1, ih sound.2.2⟩

theorem Founded.embed {ledger : List (Entry R)} (founded : Founded ledger) :
    Founded (ledger.map (Entry.embed inject)) := by
  induction ledger with
  | nil => trivial
  | cons entry older ih =>
      constructor
      · intro ref refers
        obtain ⟨own, member, rfl⟩ := List.mem_map.mp refers
        rw [live_embed]
        exact List.mem_map_of_mem (founded.1 own member)
      · exact ih founded.2

theorem Apart.absent (apart : Apart inject rest) (resource : R) : inject resource ∉ live rest := by
  intro listed
  obtain ⟨entry, member, same⟩ := List.mem_map.mp listed
  exact (apart entry member resource).1 same

theorem mem_live_within (injective : Function.Injective inject) (apart : Apart inject rest)
    {ledger : List (Entry R)} {resource : R} :
    inject resource ∈ live (within inject rest ledger) ↔ resource ∈ live ledger := by
  unfold within
  rw [live_append, live_embed, List.mem_append, List.mem_map_of_injective injective]
  constructor
  · rintro (listed | other)
    · exact listed
    · exact absurd other (apart.absent resource)
  · exact Or.inl

theorem legal_embed (injective : Function.Injective inject) (apart : Apart inject rest)
    {ledger : List (Entry R)} {event : Event R} (legal : event.Legal ledger) :
    (event.embed inject).Legal (within inject rest ledger) := by
  have live : ∀ resource, inject resource ∈ live (within inject rest ledger) ↔
      resource ∈ live ledger := fun _ => mem_live_within injective apart
  cases event with
  | granted entry =>
      intro ref refers
      obtain ⟨own, member, rfl⟩ := List.mem_map.mp refers
      exact (live own).mpr (legal own member)
  | pooled resource => trivial
  | handed resource => exact fun listed => legal ((live resource).mp listed)
  | used resource => exact (live resource).mpr legal
  | released resource =>
      constructor
      · exact (live resource).mpr legal.1
      · intro entry member refers
        rcases List.mem_append.mp member with own | other
        · obtain ⟨original, listed, rfl⟩ := List.mem_map.mp own
          obtain ⟨ref, reference, same⟩ := List.mem_map.mp refers
          rw [injective same] at reference
          exact legal.2 original listed reference
        · exact (apart entry other resource).2 refers

theorem fresh_embed (injective : Function.Injective inject) (apart : Apart inject rest)
    {grants : Grants R} {larger : Grants S} (valid : ∀ resource, larger.valid (inject resource))
    (beside : ∀ resource other, larger.apart (inject resource) other)
    {ledger : List (Entry R)} {event : Event R} (fresh : event.Fresh grants ledger) :
    (event.embed inject).Fresh larger (within inject rest ledger) := by
  have new : ∀ resource, grants.Fresh ledger resource →
      larger.Fresh (within inject rest ledger) (inject resource) := by
    intro resource promised
    refine ⟨?_, valid resource, fun other _ => beside resource other⟩
    intro listed
    exact promised.1 ((mem_live_within injective apart).mp listed)
  cases event with
  | granted entry => exact new entry.resource fresh
  | pooled resource => exact new resource fresh
  | handed resource => trivial
  | used resource => trivial
  | released resource => trivial

section Events

variable [DecidableEq R] [DecidableEq S]

theorem apply_embed (injective : Function.Injective inject) (apart : Apart inject rest)
    (ledger : List (Entry R)) (event : Event R) :
    (event.embed inject).apply (within inject rest ledger) =
      within inject rest (event.apply ledger) := by
  cases event with
  | granted entry => rfl
  | pooled resource => rfl
  | handed resource => rfl
  | used resource => rfl
  | released resource =>
      have others : rest.filter (fun entry => entry.resource ≠ inject resource) = rest :=
        filter_absent (apart.absent resource)
      have own : (ledger.map (Entry.embed inject)).filter
            (fun entry => entry.resource ≠ inject resource) =
          (ledger.filter fun entry => entry.resource ≠ resource).map (Entry.embed inject) := by
        rw [List.filter_map]
        congr 1
        apply List.filter_congr
        intro entry _
        simp only [Function.comp, Entry.embed, injective.ne_iff]
      change (within inject rest ledger).filter _ = _
      unfold within
      rw [List.filter_append, others, own]
      rfl

theorem replay_embed (injective : Function.Injective inject) (apart : Apart inject rest)
    (events : List (Event R)) (ledger : List (Entry R)) :
    replay (events.map (Event.embed inject)) (within inject rest ledger) =
      within inject rest (replay events ledger) := by
  induction events generalizing ledger with
  | nil => rfl
  | cons event later ih =>
      rw [List.map_cons, replay, replay, apply_embed injective apart, ih]

theorem along_embed (injective : Function.Injective inject) (apart : Apart inject rest)
    {condition : List (Entry R) → Event R → Prop} {larger : List (Entry S) → Event S → Prop}
    (each : ∀ ledger event, condition ledger event →
      larger (within inject rest ledger) (event.embed inject))
    {events : List (Event R)} {ledger : List (Entry R)} (holds : Along condition events ledger) :
    Along larger (events.map (Event.embed inject)) (within inject rest ledger) := by
  induction events generalizing ledger with
  | nil => trivial
  | cons event later ih =>
      constructor
      · exact each ledger event holds.1
      · rw [apply_embed injective apart]
        exact ih holds.2

end Events

end Libcdma.Ledger
