/-
First-in first-out rings whose slots are validated by one lap bit.

The producer stamps each entry with the parity of its lap and the consumer
compares the stamp with the parity of its own lap; no shared index says how far
the producer has come.  One invariant over all slots suffices: every slot that
the producer will fill next still carries the opposite stamp.
-/

import Mathlib.Data.Nat.Bitwise
import Mathlib.Data.List.Basic
import Mathlib.Logic.Function.Basic
import Libcdma.Foundation.WrapCounter

namespace Libcdma.LapRing

open WrapCounter

variable {α : Type} {owner : α → Bool} {cnt : Nat} {slot : Nat → α}

/-- The stamp an entry of this index carries: set in even laps, clear in odd ones. -/
def lapOwner (cnt index : Nat) : Bool := index / cnt % 2 == 0

theorem lapOwner_add (positive : 0 < cnt) (index : Nat) :
    lapOwner cnt (index + cnt) = !lapOwner cnt index := by
  unfold lapOwner
  rw [Nat.add_div_right index positive]
  rcases Nat.mod_two_eq_zero_or_one (index / cnt) with even | odd
  · have next : (index / cnt + 1) % 2 = 1 := by omega
    simp [even, next]
  · have next : (index / cnt + 1) % 2 = 0 := by omega
    simp [odd, next]

theorem lapOwner_first {index : Nat} (first : index < cnt) : lapOwner cnt index = true := by
  simp [lapOwner, Nat.div_eq_of_lt first]

private theorem add_div_lap (first offset : Nat) (positive : 0 < cnt) :
    (first + offset) / cnt = (first % cnt + offset) / cnt + first / cnt := by
  have split := Nat.mod_add_div first cnt
  have regroup : first + offset = first % cnt + offset + cnt * (first / cnt) := by omega
  rw [regroup, Nat.add_mul_div_left _ _ positive]

theorem lapOwner_same_lap {first offset : Nat} (inside : first % cnt + offset < cnt) :
    lapOwner cnt (first + offset) = lapOwner cnt first := by
  unfold lapOwner
  rw [add_div_lap first offset (by omega), Nat.div_eq_of_lt inside, Nat.zero_add]

theorem lapOwner_next_lap {first offset : Nat} (past : cnt ≤ first % cnt + offset)
    (within : first % cnt + offset < cnt + cnt) :
    lapOwner cnt (first + offset) = !lapOwner cnt first := by
  have one : (first % cnt + offset) / cnt = 1 := Nat.div_eq_of_lt_le (by omega) (by omega)
  unfold lapOwner
  rw [add_div_lap first offset (by omega), one]
  rcases Nat.mod_two_eq_zero_or_one (first / cnt) with even | odd
  · have next : (1 + first / cnt) % 2 = 1 := by omega
    simp [even, next]
  · have next : (1 + first / cnt) % 2 = 0 := by omega
    simp [odd, next]

/-- Every slot to be filled in the coming lap carries the opposite stamp.  Slots
never written count as filled in the odd lap before the first one. -/
def Stamped (owner : α → Bool) (cnt : Nat) (slot : Nat → α) (written : Nat) : Prop :=
  ∀ index, written ≤ index → index < written + cnt →
    owner (slot (index % cnt)) = !lapOwner cnt index

theorem Stamped.blank (clear : ∀ index, index < cnt → owner (slot index) = false) :
    Stamped owner cnt slot 0 := by
  intro index _ within
  have first : index < cnt := by omega
  rw [Nat.mod_eq_of_lt first, clear index first, lapOwner_first first]
  rfl

theorem Stamped.of_written {written : Nat} (stamped : Stamped owner cnt slot written)
    {index : Nat} (done : index < written) (recent : written ≤ index + cnt) :
    owner (slot (index % cnt)) = lapOwner cnt index := by
  have positive : 0 < cnt := by omega
  have later := stamped (index + cnt) recent (by omega)
  rw [Nat.add_mod_right, lapOwner_add positive, Bool.not_not] at later
  exact later

theorem Stamped.congr {written : Nat} (stamped : Stamped owner cnt slot written)
    (positive : 0 < cnt) {other : Nat → α}
    (same : ∀ index, index < cnt → other index = slot index) :
    Stamped owner cnt other written := by
  intro index later within
  rw [same _ (Nat.mod_lt index positive)]
  exact stamped index later within

/-- The consumer's test at its own index decides whether an entry is pending. -/
theorem Stamped.valid_iff {written consumed : Nat}
    (stamped : Stamped owner cnt slot written)
    (ordered : consumed ≤ written) (room : written ≤ consumed + cnt) (positive : 0 < cnt) :
    owner (slot (consumed % cnt)) = lapOwner cnt consumed ↔ consumed < written := by
  constructor
  · intro valid
    by_contra caughtUp
    have stale := stamped consumed (by omega) (by omega)
    rw [valid] at stale
    cases h : lapOwner cnt consumed <;> simp [h] at stale
  · intro pending
    exact stamped.of_written pending room

theorem Stamped.write {written : Nat} (stamped : Stamped owner cnt slot written)
    {entry : α} (stamp : owner entry = lapOwner cnt written) :
    Stamped owner cnt (Function.update slot (written % cnt) entry) (written + 1) := by
  intro index later within
  by_cases wrapped : index = written + cnt
  · subst wrapped
    rw [Nat.add_mod_right, Function.update_self, stamp,
      lapOwner_add (by omega), Bool.not_not]
  · have different : index % cnt ≠ written % cnt := by
      intro same
      have := mod_eq_of_near written (by omega) (Nat.le_refl _)
        (by omega) (by omega) same
      omega
    rw [Function.update_of_ne different]
    exact stamped index (by omega) (by omega)

theorem lapOwner_add_laps (positive : 0 < cnt) (index laps : Nat) :
    lapOwner cnt (index + laps * cnt) = (lapOwner cnt index == (laps % 2 == 0)) := by
  induction laps with
  | zero => simp
  | succ laps ih =>
      rw [Nat.succ_mul, ← Nat.add_assoc, lapOwner_add positive, ih]
      rcases Nat.mod_two_eq_zero_or_one laps with even | odd
      · have next : (laps + 1) % 2 = 1 := by omega
        simp [even, next]
      · have next : (laps + 1) % 2 = 0 := by omega
        simp [odd, next]

/-- A slot that passes the test holds an entry of the consumer's lap parity, so
a consumer that has seen a prefix meets only entries after it. -/
theorem Stamped.later_of_valid {written seen : Nat} (stamped : Stamped owner cnt slot written)
    (positive : 0 < cnt) (behind : seen ≤ written)
    (valid : owner (slot (seen % cnt)) = lapOwner cnt seen) :
    ∃ laps, seen + laps * (2 * cnt) < written ∧ written ≤ seen + laps * (2 * cnt) + cnt := by
  obtain ⟨rounds, reach⟩ : ∃ rounds, rounds = (written - seen + (cnt - 1)) / cnt := ⟨_, rfl⟩
  have division := Nat.div_add_mod (written - seen + (cnt - 1)) cnt
  have remainder := Nat.mod_lt (written - seen + (cnt - 1)) positive
  rw [← reach, Nat.mul_comm] at division
  have stale := stamped (seen + rounds * cnt) (by omega) (by omega)
  rw [Nat.add_mul_mod_self_right, valid, lapOwner_add_laps positive] at stale
  have odd : rounds % 2 = 1 := by
    rcases Nat.mod_two_eq_zero_or_one rounds with even | odd
    · simp [even] at stale
    · exact odd
  have split : rounds * cnt = rounds / 2 * (2 * cnt) + cnt := by
    have halves : rounds = rounds / 2 * 2 + 1 := by omega
    rw [← Nat.mul_assoc, ← Nat.succ_mul]
    exact congrArg (· * cnt) halves
  exact ⟨rounds / 2, by omega, by omega⟩

def Recent (cnt : Nat) (slot : Nat → α) (entries : List α) : Prop :=
  ∀ index entry, entries[index]? = some entry → entries.length ≤ index + cnt →
    slot (index % cnt) = entry

theorem Recent.congr {entries : List α} (recent : Recent cnt slot entries) (positive : 0 < cnt)
    {other : Nat → α} (same : ∀ index, index < cnt → other index = slot index) :
    Recent cnt other entries := by
  intro index entry here near
  rw [same _ (Nat.mod_lt index positive)]
  exact recent index entry here near

theorem Recent.write {entries : List α} (recent : Recent cnt slot entries) (entry : α) :
    Recent cnt (Function.update slot (entries.length % cnt) entry) (entries ++ [entry]) := by
  intro index found here near
  rw [List.length_append, List.length_singleton] at near
  rcases Nat.lt_trichotomy index entries.length with before | last | beyond
  · rw [List.getElem?_append_left before] at here
    have different : index % cnt ≠ entries.length % cnt := by
      intro same
      have := mod_eq_of_near index (Nat.le_refl _) (by omega) (by omega) (by omega) same
      omega
    rw [Function.update_of_ne different]
    exact recent index found here (by omega)
  · subst last
    rw [List.getElem?_concat_length] at here
    rw [Function.update_self]
    exact Option.some.inj here
  · rw [List.getElem?_eq_none (by simp; omega)] at here
    cases here

/-! ### Consecutive slots -/

def window (slot : Nat → α) (cnt first : Nat) (count : Nat) : List α :=
  (List.range count).map (fun offset => slot ((first + offset) % cnt))

@[simp] theorem window_length (slot : Nat → α) (cnt first count : Nat) :
    (window slot cnt first count).length = count := by
  simp [window]

@[simp] theorem window_zero (slot : Nat → α) (cnt first : Nat) :
    window slot cnt first 0 = [] := rfl

theorem window_succ (slot : Nat → α) (cnt first count : Nat) :
    window slot cnt first (count + 1) =
      window slot cnt first count ++ [slot ((first + count) % cnt)] := by
  simp [window, List.range_succ]

theorem window_cons (slot : Nat → α) (cnt first count : Nat) :
    window slot cnt first (count + 1) =
      slot (first % cnt) :: window slot cnt (first + 1) count := by
  simp only [window, List.range_succ_eq_map, List.map_cons, List.map_map, Nat.add_zero]
  congr 1
  apply List.map_congr_left
  intro offset _
  simp only [Function.comp, Nat.succ_eq_add_one]
  congr 2
  omega

theorem window_append (slot : Nat → α) (cnt first left right : Nat) :
    window slot cnt first (left + right) =
      window slot cnt first left ++ window slot cnt (first + left) right := by
  simp only [window, List.range_add, List.map_append, List.map_map]
  congr 1
  apply List.map_congr_left
  intro offset _
  simp only [Function.comp]
  congr 2
  omega

theorem window_congr {slot other : Nat → α} {first count : Nat}
    (same : ∀ offset, offset < count →
      slot ((first + offset) % cnt) = other ((first + offset) % cnt)) :
    window slot cnt first count = window other cnt first count := by
  apply List.map_congr_left
  intro offset member
  exact same offset (List.mem_range.mp member)

theorem window_update_of_outside {first count index : Nat} (entry : α)
    (before : first + count ≤ index) (near : index < first + cnt) :
    window (Function.update slot (index % cnt) entry) cnt first count =
      window slot cnt first count := by
  apply window_congr
  intro offset within
  apply Function.update_of_ne
  intro same
  have := mod_eq_of_near first (by omega) (by omega) (by omega) near same
  omega

theorem window_write {written consumed : Nat} (entry : α)
    (ordered : consumed ≤ written) (room : written < consumed + cnt) :
    window (Function.update slot (written % cnt) entry) cnt consumed (written + 1 - consumed) =
      window slot cnt consumed (written - consumed) ++ [entry] := by
  have count : written + 1 - consumed = (written - consumed) + 1 := by omega
  have last : consumed + (written - consumed) = written := by omega
  rw [count, window_succ, last, Function.update_self,
    window_update_of_outside entry (by omega) room]

theorem window_consume {written consumed : Nat} (pending : consumed < written) :
    window slot cnt consumed (written - consumed) =
      slot (consumed % cnt) :: window slot cnt (consumed + 1) (written - (consumed + 1)) := by
  have count : written - consumed = (written - (consumed + 1)) + 1 := by omega
  rw [count, window_cons]

end Libcdma.LapRing
