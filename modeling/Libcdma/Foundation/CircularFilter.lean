/-
In-place filtering of a window of a ring, from its high end down.

Entries to drop are counted and every entry to keep is moved up by the count
reached so far, leaving the stamp of the slot it lands in.  As long as the
window and the initial count fit in the ring together, no entry is overwritten
before it is read, and the survivors end up packed against the high end.
-/

import Mathlib.Data.List.Basic
import Mathlib.Logic.Function.Basic
import Libcdma.Foundation.LapRing

namespace Libcdma.CircularFilter

open LapRing WrapCounter

/-- A one-bit field of an entry, with its update. -/
structure StampField (α : Type) where
  owner : α → Bool
  setOwner : Bool → α → α
  owner_set : ∀ bit entry, owner (setOwner bit entry) = bit
  set_set : ∀ bit other entry, setOwner bit (setOwner other entry) = setOwner bit entry

variable {α : Type} (field : StampField α) (dropped : α → Bool) (cnt first : Nat)

def StampField.payload (entry : α) : α := field.setOwner false entry

/-- Copy an entry over another one, which keeps its own stamp. -/
def StampField.move (source dest : α) : α := field.setOwner (field.owner dest) source

@[simp] theorem StampField.owner_move (source dest : α) :
    field.owner (field.move source dest) = field.owner dest :=
  field.owner_set _ _

@[simp] theorem StampField.payload_move (source dest : α) :
    field.payload (field.move source dest) = field.payload source :=
  field.set_set _ _ _

def compact : Nat → Nat → (Nat → α) → (Nat → α) × Nat
  | 0, freed, slot => (slot, freed)
  | offset + 1, freed, slot =>
      let source := slot ((first + offset) % cnt)
      if dropped source then compact offset (freed + 1) slot
      else if freed = 0 then compact offset 0 slot
      else
        let target := (first + offset + freed) % cnt
        compact offset freed (Function.update slot target (field.move source (slot target)))

def InWindow (low high index : Nat) : Prop :=
  ∃ offset, low ≤ offset ∧ offset < high ∧ index = (first + offset) % cnt

/-- What the loop has achieved after filtering `count` entries, the survivors
moved up by at least `freed`. -/
structure Filtered (count freed : Nat) (before : Nat → α) (after : (Nat → α) × Nat) : Prop where
  freed_eq : after.2 = freed + (window before cnt first count).countP dropped
  kept : (window after.1 cnt (first + after.2) (count + freed - after.2)).map field.payload =
    ((window before cnt first count).filter (fun entry => !dropped entry)).map field.payload
  outside : ∀ index, ¬InWindow cnt first after.2 (count + freed) index →
    after.1 index = before index

theorem Filtered.freed_le {count freed : Nat} {before : Nat → α} {after : (Nat → α) × Nat}
    (filtered : Filtered field dropped cnt first count freed before after) :
    after.2 ≤ count + freed := by
  have bound := List.countP_le_length (p := dropped) (l := window before cnt first count)
  rw [window_length] at bound
  have exact_count := filtered.freed_eq
  omega

private theorem not_inWindow {low high offset : Nat} (above : high ≤ offset)
    (inside : offset < cnt) :
    ¬InWindow cnt first low high ((first + offset) % cnt) := by
  rintro ⟨other, atLeast, below, same⟩
  have := mod_eq_of_near first (by omega) (by omega) (by omega) (by omega) same
  omega

private theorem owner_update_move (slot : Nat → α) (target : Nat) (source : α) (index : Nat) :
    field.owner (Function.update slot target (field.move source (slot target)) index) =
      field.owner (slot index) := by
  by_cases same : index = target
  · subst same
    rw [Function.update_self, field.owner_move]
  · rw [Function.update_of_ne same]

theorem compact_owners (count freed : Nat) (slot : Nat → α) (index : Nat) :
    field.owner ((compact field dropped cnt first count freed slot).1 index) =
      field.owner (slot index) := by
  induction count generalizing freed slot with
  | zero => rfl
  | succ offset ih =>
      rw [compact]
      split
      · exact ih _ _
      · split
        · exact ih _ _
        · rw [ih, owner_update_move]

theorem compact_freed_le (count freed : Nat) (slot : Nat → α) :
    (compact field dropped cnt first count freed slot).2 ≤ freed + count := by
  induction count generalizing freed slot with
  | zero => exact Nat.le_refl _
  | succ offset ih =>
      rw [compact]
      split
      · have := ih (freed + 1) slot
        omega
      · split
        · have := ih 0 slot
          omega
        · exact Nat.le_trans (ih freed _) (by omega)

private theorem Filtered.drop {offset freed : Nat} {slot : Nat → α}
    {after : (Nat → α) × Nat} (drops : dropped (slot ((first + offset) % cnt)) = true)
    (rest : Filtered field dropped cnt first offset (freed + 1) slot after) :
    Filtered field dropped cnt first (offset + 1) freed slot after := by
  have reach : offset + (freed + 1) = offset + 1 + freed := by omega
  constructor
  · rw [rest.freed_eq, window_succ, List.countP_append, List.countP_singleton, if_pos drops]
    omega
  · have kept := rest.kept
    rw [reach] at kept
    rw [kept, window_succ, List.filter_append]
    simp [drops]
  · intro index outside
    exact rest.outside index (by rwa [reach])

private theorem Filtered.stay {offset : Nat} {slot : Nat → α}
    {after : (Nat → α) × Nat} (fits : offset < cnt)
    (keeps : dropped (slot ((first + offset) % cnt)) = false)
    (rest : Filtered field dropped cnt first offset 0 slot after) :
    Filtered field dropped cnt first (offset + 1) 0 slot after := by
  have bound := rest.freed_le
  constructor
  · rw [rest.freed_eq, window_succ, List.countP_append, List.countP_singleton]
    simp [keeps]
  · have untouched : after.1 ((first + offset) % cnt) = slot ((first + offset) % cnt) :=
      rest.outside _ (not_inWindow cnt first (by omega) fits)
    have count : offset + 1 + 0 - after.2 = (offset + 0 - after.2) + 1 := by omega
    have last : first + after.2 + (offset + 0 - after.2) = first + offset := by omega
    rw [count, window_succ, last, List.map_append, rest.kept, untouched, window_succ,
      List.filter_append, List.map_append]
    simp [keeps]
  · intro index outside
    apply rest.outside index
    rintro ⟨other, atLeast, below, same⟩
    exact outside ⟨other, atLeast, by omega, same⟩

private theorem Filtered.lift {offset freed : Nat} {slot : Nat → α}
    {after : (Nat → α) × Nat} (fits : offset + 1 + freed ≤ cnt)
    (keeps : dropped (slot ((first + offset) % cnt)) = false)
    (rest : Filtered field dropped cnt first offset freed
      (Function.update slot ((first + offset + freed) % cnt)
        (field.move (slot ((first + offset) % cnt))
          (slot ((first + offset + freed) % cnt)))) after) :
    Filtered field dropped cnt first (offset + 1) freed slot after := by
  have bound := rest.freed_le
  have unread (entry : α) :
      window (Function.update slot ((first + offset + freed) % cnt) entry) cnt first offset =
        window slot cnt first offset :=
    window_update_of_outside entry (by omega) (by omega)
  constructor
  · rw [rest.freed_eq, unread, window_succ, List.countP_append, List.countP_singleton]
    simp [keeps]
  · have position : (first + offset + freed) % cnt = (first + (offset + freed)) % cnt := by
      rw [Nat.add_assoc]
    have landed := rest.outside ((first + offset + freed) % cnt) (by
      rw [position]
      exact not_inWindow cnt first (by omega) (by omega))
    rw [Function.update_self] at landed
    have count : offset + 1 + freed - after.2 = (offset + freed - after.2) + 1 := by omega
    have last : first + after.2 + (offset + freed - after.2) = first + offset + freed := by
      omega
    rw [count, window_succ, last, List.map_append, rest.kept, unread, landed, window_succ,
      List.filter_append, List.map_append]
    simp [keeps]
  · intro index outside
    rw [rest.outside index, Function.update_of_ne]
    · intro same
      exact outside ⟨offset + freed, by omega, by omega, by rw [same, Nat.add_assoc]⟩
    · rintro ⟨other, atLeast, below, same⟩
      exact outside ⟨other, atLeast, by omega, same⟩

theorem compact_filtered (count freed : Nat) (slot : Nat → α) (fits : count + freed ≤ cnt) :
    Filtered field dropped cnt first count freed slot
      (compact field dropped cnt first count freed slot) := by
  induction count generalizing freed slot with
  | zero =>
      exact ⟨by simp [compact], by simp [compact], fun _ _ => rfl⟩
  | succ offset ih =>
      cases choice : dropped (slot ((first + offset) % cnt)) with
      | true =>
          rw [compact, if_pos choice]
          exact Filtered.drop field dropped cnt first choice (ih (freed + 1) slot (by omega))
      | false =>
          rw [compact, if_neg (by simp [choice])]
          by_cases none_freed : freed = 0
          · subst none_freed
            rw [if_pos rfl]
            exact Filtered.stay field dropped cnt first (by omega) choice
              (ih 0 slot (by omega))
          · rw [if_neg none_freed]
            exact Filtered.lift field dropped cnt first fits choice
              (ih freed _ (by omega))

theorem compact_drops (offset count freed : Nat) (slot : Nat → α)
    (drops : ∀ index, offset ≤ index → index < offset + count →
      dropped (slot ((first + index) % cnt)) = true) :
    compact field dropped cnt first (offset + count) freed slot =
      compact field dropped cnt first offset (freed + count) slot := by
  induction count generalizing freed with
  | zero => rfl
  | succ count ih =>
      have top := drops (offset + count) (by omega) (by omega)
      rw [← Nat.add_assoc, compact, if_pos top, ih (freed + 1)
        (fun index low high => drops index low (by omega))]
      congr 1
      omega

/-- A pass over the whole ring that has already counted its first entry once,
because the scan ran on into the next lap.  The last survivor lands in the slot
of the first entry before that slot is read, and comes out in front. -/
theorem compact_wrapped (slot : Nat → α) {last : Nat} (later : 0 < last) (inside : last < cnt)
    (invariant : ∀ bit entry, dropped (field.setOwner bit entry) = dropped entry)
    (head : dropped (slot (first % cnt)) = true)
    (keeps : dropped (slot ((first + last) % cnt)) = false)
    (drops : ∀ index, last < index → index < cnt →
      dropped (slot ((first + index) % cnt)) = true) :
    let after := compact field dropped cnt first cnt 1 slot
    after.2 = (window slot cnt first cnt).countP dropped ∧
    (window after.1 cnt (first + after.2) (cnt - after.2)).map field.payload =
      field.payload (slot ((first + last) % cnt)) ::
        ((window slot cnt first last).filter (fun entry => !dropped entry)).map field.payload := by
  intro after
  let source := slot ((first + last) % cnt)
  let moved := Function.update slot (first % cnt) (field.move source (slot (first % cnt)))
  have tail : cnt = (last + 1) + (cnt - (last + 1)) := by omega
  have landing : (first + last + (cnt - last)) % cnt = first % cnt := by
    have whole : first + last + (cnt - last) = first + cnt := by omega
    rw [whole, Nat.add_mod_right]
  have reduced : after = compact field dropped cnt first last (cnt - last) moved := by
    have skipped := compact_drops field dropped cnt first (last + 1) (cnt - (last + 1)) 1 slot
      (fun index low high => drops index (by omega) (by omega))
    rw [← tail] at skipped
    have count : 1 + (cnt - (last + 1)) = cnt - last := by omega
    refine skipped.trans ?_
    rw [count, compact, if_neg (by simp [keeps]), if_neg (by omega)]
    simp only [landing]
    rfl
  have filtered := compact_filtered field dropped cnt first last (cnt - last) moved (by omega)
  rw [← reduced] at filtered
  have previous : last = (last - 1) + 1 := by omega
  have movedWindow : window moved cnt first last =
      field.move source (slot (first % cnt)) :: window slot cnt (first + 1) (last - 1) := by
    rw [previous, window_cons, Nat.add_sub_cancel]
    congr 1
    · exact Function.update_self _ _ _
    · apply window_congr
      intro offset within
      apply Function.update_of_ne
      intro same
      have := mod_eq_of_near first (by omega) (by omega) (by omega) (by omega) same
      omega
  have slotWindow : window slot cnt first last =
      slot (first % cnt) :: window slot cnt (first + 1) (last - 1) := by
    rw [previous, window_cons, Nat.add_sub_cancel]
  have headMoved : dropped (field.move source (slot (first % cnt))) = false := by
    unfold StampField.move
    rw [invariant]
    exact keeps
  have split : (window slot cnt first cnt).countP dropped =
      (cnt - last - 1) + (window slot cnt first last).countP dropped := by
    have whole : window slot cnt first cnt = window slot cnt first (last + (1 + (cnt - last - 1))) := by
      congr 1
      omega
    have top : (window slot cnt (first + (last + 1)) (cnt - last - 1)).countP dropped =
        cnt - last - 1 := by
      rw [List.countP_eq_length.mpr, window_length]
      intro entry member
      obtain ⟨offset, within, rfl⟩ := List.mem_map.mp member
      have bound := List.mem_range.mp within
      rw [Nat.add_assoc]
      exact drops _ (by omega) (by omega)
    have middle : (window slot cnt (first + last) 1).countP dropped = 0 := by
      rw [← Nat.zero_add 1, window_succ]
      simp [keeps]
    rw [whole, window_append, window_append, List.countP_append, List.countP_append, middle,
      Nat.add_assoc first last 1, top]
    omega
  refine ⟨?_, ?_⟩
  · rw [filtered.freed_eq, split, movedWindow, slotWindow, List.countP_cons_of_pos head,
      List.countP_cons_of_neg (by simp [headMoved])]
    omega
  · have kept := filtered.kept
    have reach : last + (cnt - last) = cnt := by omega
    rw [reach] at kept
    rw [kept, movedWindow, slotWindow, List.filter_cons_of_pos (by simp [headMoved]),
      List.filter_cons_of_neg (by simp [head]), List.map_cons, field.payload_move]

/-! ### Filtering more or less than the window meant -/

/-- The pass removed the dropped entries of this window and no others. -/
def Removes (count : Nat) (before : Nat → α) (after : (Nat → α) × Nat) : Prop :=
  after.2 = (window before cnt first count).countP dropped ∧
  (window after.1 cnt (first + after.2) (count - after.2)).map field.payload =
    ((window before cnt first count).filter (fun entry => !dropped entry)).map field.payload

private theorem countP_window_eq_zero {slot : Nat → α} {low high : Nat} (ordered : low ≤ high) :
    (window slot cnt (first + low) (high - low)).countP dropped = 0 ↔
      ∀ index, low ≤ index → index < high →
        dropped (slot ((first + index) % cnt)) = false := by
  rw [List.countP_eq_zero]
  constructor
  · intro none index above below
    have member : slot ((first + index) % cnt) ∈ window slot cnt (first + low) (high - low) := by
      apply List.mem_map.mpr
      refine ⟨index - low, List.mem_range.mpr (by omega), ?_⟩
      congr 2
      omega
    simpa using none _ member
  · intro none entry member
    obtain ⟨offset, within, rfl⟩ := List.mem_map.mp member
    have bound := List.mem_range.mp within
    rw [Nat.add_assoc, none _ (by omega) (by omega)]
    decide

private theorem filter_window_of_none {slot : Nat → α} {low count : Nat}
    (none : (window slot cnt (first + low) count).countP dropped = 0) :
    (window slot cnt (first + low) count).filter (fun entry => !dropped entry) =
      window slot cnt (first + low) count := by
  rw [List.filter_eq_self]
  intro entry member
  have := List.countP_eq_zero.mp none entry member
  simpa using this

private theorem window_split {slot : Nat → α} {low high : Nat} (ordered : low ≤ high) :
    window slot cnt first high =
      window slot cnt first low ++ window slot cnt (first + low) (high - low) := by
  rw [← window_append, Nat.add_sub_cancel' ordered]

/-- A pass that stops short of the window is right when nothing beyond is dropped. -/
theorem removes_short {count whole : Nat} (slot : Nat → α) (short : count ≤ whole)
    (fits : whole ≤ cnt) :
    Removes field dropped cnt first whole slot (compact field dropped cnt first count 0 slot) ↔
      ∀ index, count ≤ index → index < whole →
        dropped (slot ((first + index) % cnt)) = false := by
  have filtered := compact_filtered field dropped cnt first count 0 slot (by omega)
  generalize compact field dropped cnt first count 0 slot = after at filtered ⊢
  have bound := filtered.freed_le
  have total : (window slot cnt first whole).countP dropped =
      after.2 + (window slot cnt (first + count) (whole - count)).countP dropped := by
    rw [window_split cnt first short, List.countP_append, filtered.freed_eq, Nat.zero_add]
  rw [← countP_window_eq_zero dropped cnt first short]
  constructor
  · rintro ⟨removed, _⟩
    omega
  · intro none
    refine ⟨by omega, ?_⟩
    have kept := filtered.kept
    rw [Nat.add_zero] at kept
    have length : whole - after.2 = (count - after.2) + (whole - count) := by omega
    have rest : first + after.2 + (count - after.2) = first + count := by omega
    have untouched : window after.1 cnt (first + count) (whole - count) =
        window slot cnt (first + count) (whole - count) := by
      apply window_congr
      intro offset within
      rw [Nat.add_assoc]
      exact filtered.outside _ (not_inWindow cnt first (by omega) (by omega))
    rw [length, window_append, rest, List.map_append, kept, untouched,
      window_split cnt first short, List.filter_append, List.map_append,
      filter_window_of_none dropped cnt first none]

/-- A pass that runs past the window is right when it drops nothing there. -/
theorem removes_long {count whole : Nat} (slot : Nat → α) (long : whole ≤ count)
    (fits : count ≤ cnt) :
    Removes field dropped cnt first whole slot (compact field dropped cnt first count 0 slot) ↔
      ∀ index, whole ≤ index → index < count →
        dropped (slot ((first + index) % cnt)) = false := by
  have filtered := compact_filtered field dropped cnt first count 0 slot (by omega)
  generalize compact field dropped cnt first count 0 slot = after at filtered ⊢
  have total : after.2 = (window slot cnt first whole).countP dropped +
      (window slot cnt (first + whole) (count - whole)).countP dropped := by
    rw [filtered.freed_eq, Nat.zero_add, window_split cnt first long, List.countP_append]
  rw [← countP_window_eq_zero dropped cnt first long]
  constructor
  · rintro ⟨removed, _⟩
    omega
  · intro none
    have within := List.countP_le_length (p := dropped) (l := window slot cnt first whole)
    rw [window_length] at within
    refine ⟨by omega, ?_⟩
    have kept := filtered.kept
    have length : count + 0 - after.2 = (whole - after.2) + (count - whole) := by omega
    rw [length, window_append, window_split cnt first long, List.map_append, List.filter_append,
      List.map_append, filter_window_of_none dropped cnt first none] at kept
    exact (List.append_inj' kept (by simp)).1

private theorem take_rotated {entries front back : List α} {last : α}
    (split : entries ++ [last] = front ++ back) :
    (last :: entries).take front.length = front ↔ ∀ entry ∈ front, entry = last := by
  cases front with
  | nil => simp
  | cons head tail =>
      have lengths := congrArg List.length split
      simp only [List.length_append, List.length_cons, List.length_nil] at lengths
      have prefixes : entries.take tail.length = (head :: tail).take tail.length := by
        have cut := congrArg (List.take tail.length) split
        rw [List.take_append_of_le_length (by omega),
          List.take_append_of_le_length (by simp)] at cut
        exact cut
      rw [List.length_cons, List.take_succ_cons, prefixes]
      constructor
      · intro same
        have constant : ∀ index (inside : index < (head :: tail).length),
            (head :: tail)[index] = last := by
          intro index
          induction index with
          | zero =>
              intro _
              exact (List.cons.inj same).1.symm
          | succ index ih =>
              intro inside
              have shifted := congrArg (fun list => list[index + 1]?) same
              have below : index < tail.length := by
                rw [List.length_cons] at inside
                omega
              simp only [List.getElem?_cons_succ, List.getElem?_take, if_pos below] at shifted
              rw [List.getElem?_eq_getElem (by rw [List.length_cons]; omega),
                ih (by rw [List.length_cons]; omega), List.getElem?_eq_getElem below] at shifted
              exact (Option.some.inj shifted).symm
        intro entry member
        obtain ⟨index, inside, rfl⟩ := List.getElem_of_mem member
        exact constant index inside
      · intro constant
        have repeated := List.eq_replicate_of_mem constant
        rw [repeated, List.length_cons, List.take_replicate, ← List.replicate_succ]
        congr 1
        omega

private theorem all_or_last_failure (holds : Nat → Prop) [DecidablePred holds] (bound : Nat) :
    (∀ index, index < bound → holds index) ∨
      ∃ last, last < bound ∧ ¬holds last ∧ ∀ index, last < index → index < bound → holds index := by
  induction bound with
  | zero => exact .inl (fun _ inside => absurd inside (Nat.not_lt_zero _))
  | succ bound ih =>
      by_cases top : holds bound
      · rcases ih with all | ⟨last, inside, fails, above⟩
        · left
          intro index below
          rcases Nat.lt_succ_iff_lt_or_eq.mp below with less | rfl
          · exact all index less
          · exact top
        · right
          refine ⟨last, by omega, fails, fun index higher below => ?_⟩
          rcases Nat.lt_succ_iff_lt_or_eq.mp below with less | rfl
          · exact above index higher less
          · exact top
      · exact .inr ⟨bound, Nat.lt_succ_self _, top, fun index higher below => by omega⟩

private theorem filter_window_last {slot : Nat → α} {last : Nat} (inside : last < cnt)
    (keeps : dropped (slot ((first + last) % cnt)) = false)
    (drops : ∀ index, last < index → index < cnt →
      dropped (slot ((first + index) % cnt)) = true) :
    (window slot cnt first cnt).filter (fun entry => !dropped entry) =
      (window slot cnt first last).filter (fun entry => !dropped entry) ++
        [slot ((first + last) % cnt)] := by
  have rest : cnt - last = (cnt - (last + 1)) + 1 := by omega
  rw [window_split cnt first (Nat.le_of_lt inside), List.filter_append, rest, window_cons,
    List.filter_cons_of_pos (by simp [keeps])]
  congr 2
  rw [List.filter_eq_nil_iff]
  intro entry member
  obtain ⟨offset, within, rfl⟩ := List.mem_map.mp member
  have bound := List.mem_range.mp within
  have dropsHere := drops (last + 1 + offset) (by omega) (by omega)
  have place : first + last + 1 + offset = first + (last + 1 + offset) := by omega
  rw [place]
  simp [dropsHere]

private theorem alike_last_iff {slot : Nat → α} {last : Nat} (whole : Nat) (inside : last < cnt)
    (keeps : dropped (slot ((first + last) % cnt)) = false)
    (drops : ∀ index, last < index → index < cnt →
      dropped (slot ((first + index) % cnt)) = true) :
    (∃ other, other < cnt ∧ dropped (slot ((first + other) % cnt)) = false ∧
      (∀ index, other < index → index < cnt →
        dropped (slot ((first + index) % cnt)) = true) ∧
      ∀ index, index < whole → dropped (slot ((first + index) % cnt)) = false →
        field.payload (slot ((first + index) % cnt)) =
          field.payload (slot ((first + other) % cnt))) ↔
    ∀ entry ∈ ((window slot cnt first whole).filter (fun entry => !dropped entry)).map
      field.payload, entry = field.payload (slot ((first + last) % cnt)) := by
  constructor
  · rintro ⟨other, below, otherKeeps, otherDrops, alike⟩ entry member
    have same : other = last := by
      rcases Nat.lt_trichotomy other last with less | equal | more
      · rw [otherDrops last less inside] at keeps
        cases keeps
      · exact equal
      · rw [drops other more below] at otherKeeps
        cases otherKeeps
    subst same
    obtain ⟨source, survivor, rfl⟩ := List.mem_map.mp member
    obtain ⟨windowed, kept⟩ := List.mem_filter.mp survivor
    obtain ⟨offset, within, rfl⟩ := List.mem_map.mp windowed
    exact alike offset (List.mem_range.mp within) (by simpa using kept)
  · intro constant
    refine ⟨last, inside, keeps, drops, fun index below kept => constant _ ?_⟩
    apply List.mem_map_of_mem
    rw [List.mem_filter]
    exact ⟨List.mem_map_of_mem (List.mem_range.mpr below), by simp [kept]⟩

/-- The pass over the whole ring that counted its first entry twice is right for
a window only if the entries it keeps there cannot be told from the last survivor. -/
theorem removes_wrapped {whole : Nat} (slot : Nat → α) (fits : whole ≤ cnt)
    (invariant : ∀ bit entry, dropped (field.setOwner bit entry) = dropped entry)
    (head : dropped (slot (first % cnt)) = true) :
    Removes field dropped cnt first whole slot (compact field dropped cnt first cnt 1 slot) ↔
      (∀ index, whole ≤ index → index < cnt →
        dropped (slot ((first + index) % cnt)) = false) ∧
      ∃ last, last < cnt ∧ dropped (slot ((first + last) % cnt)) = false ∧
        (∀ index, last < index → index < cnt →
          dropped (slot ((first + index) % cnt)) = true) ∧
        ∀ index, index < whole → dropped (slot ((first + index) % cnt)) = false →
          field.payload (slot ((first + index) % cnt)) =
            field.payload (slot ((first + last) % cnt)) := by
  have front := List.countP_le_length (p := dropped) (l := window slot cnt first whole)
  rw [window_length] at front
  rcases all_or_last_failure (fun index => dropped (slot ((first + index) % cnt)) = true) cnt with
    all | ⟨last, inside, keeps, drops⟩
  · have skipped := compact_drops field dropped cnt first 0 cnt 1 slot
      (fun index _ below => all index (by omega))
    rw [Nat.zero_add] at skipped
    constructor
    · rintro ⟨removed, _⟩
      rw [skipped] at removed
      change 1 + cnt = _ at removed
      omega
    · rintro ⟨_, last, inside, keeps, _⟩
      rw [all last inside] at keeps
      cases keeps
  · rw [Bool.not_eq_true] at keeps
    have later : 0 < last := by
      rcases Nat.eq_zero_or_pos last with rfl | later
      · rw [Nat.add_zero, head] at keeps
        cases keeps
      · exact later
    obtain ⟨removedAll, kept⟩ :=
      compact_wrapped field dropped cnt first slot later inside invariant head keeps drops
    generalize compact field dropped cnt first cnt 1 slot = after at removedAll kept ⊢
    have total : after.2 = (window slot cnt first whole).countP dropped +
        (window slot cnt (first + whole) (cnt - whole)).countP dropped := by
      rw [removedAll, window_split cnt first fits, List.countP_append]
    rw [← countP_window_eq_zero dropped cnt first fits]
    have unique := alike_last_iff field dropped cnt first whole inside keeps drops
    have contents (none : (window slot cnt (first + whole) (cnt - whole)).countP dropped = 0) :
        (window after.1 cnt (first + after.2) (whole - after.2)).map field.payload =
          ((window slot cnt first whole).filter (fun entry => !dropped entry)).map
            field.payload ↔
        ∀ entry ∈ ((window slot cnt first whole).filter (fun entry => !dropped entry)).map
          field.payload, entry = field.payload (slot ((first + last) % cnt)) := by
      have survivors := congrArg (List.map field.payload)
        (filter_window_last dropped cnt first inside keeps drops)
      rw [window_split cnt first fits, List.filter_append, List.map_append, List.map_append,
        List.map_singleton] at survivors
      rw [← take_rotated survivors.symm, ← kept]
      have length : (((window slot cnt first whole).filter (fun entry => !dropped entry)).map
          field.payload).length = whole - after.2 := by
        have parts := List.length_eq_countP_add_countP dropped (l := window slot cnt first whole)
        have flip : (fun entry => decide ¬dropped entry = true) = fun entry => !dropped entry := by
          funext entry
          cases dropped entry <;> rfl
        rw [window_length, flip] at parts
        rw [List.length_map, ← List.countP_eq_length_filter]
        omega
      have split : cnt - after.2 = (whole - after.2) + (cnt - whole) := by omega
      rw [length, split, window_append, List.map_append, List.take_left' (by simp)]
    constructor
    · rintro ⟨removed, same⟩
      have none : (window slot cnt (first + whole) (cnt - whole)).countP dropped = 0 := by omega
      exact ⟨none, unique.mpr ((contents none).mp same)⟩
    · rintro ⟨none, constant⟩
      exact ⟨by omega, (contents none).mpr (unique.mp constant)⟩

end Libcdma.CircularFilter
