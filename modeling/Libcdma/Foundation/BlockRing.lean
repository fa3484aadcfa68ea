/-
Rings of fixed-size byte blocks.

A run of blocks is written in one piece, or in two when it crosses the end of
the ring, and read back block by block at the indices modulo the ring's length.
-/

import Libcdma.Foundation.ByteImage
import Libcdma.Foundation.WrapCounter

namespace Libcdma.BlockRing

open ByteImage WrapCounter

variable (base size cnt : Nat)

/-- The bytes of consecutive blocks, by free-running index. -/
def ringRead (memory : Bytes) (first count : Nat) : List UInt8 :=
  (List.range count).flatMap (fun k => load memory (base + (first + k) % cnt * size) size)

/-- Write blocks from a slot on: the tail up to the end of the ring, the head at its start. -/
def ringCopy (memory : Bytes) (slot : Nat) (source : Bytes) (tail head : Nat) : Bytes :=
  copy (copy memory (base + slot * size) source (tail * size)) base
    (fun offset => source (tail * size + offset)) (head * size)

theorem ringRead_add (memory : Bytes) (first left right : Nat) :
    ringRead base size cnt memory first (left + right) =
      ringRead base size cnt memory first left ++
        ringRead base size cnt memory (first + left) right := by
  simp only [ringRead, List.range_add, List.flatMap_append, List.flatMap_map, Nat.add_assoc]

theorem ringRead_congr {memory other : Bytes} {first count : Nat}
    (same : ∀ k, k < count → load memory (base + (first + k) % cnt * size) size =
      load other (base + (first + k) % cnt * size) size) :
    ringRead base size cnt memory first count = ringRead base size cnt other first count := by
  unfold ringRead
  rw [List.flatMap_congr]
  intro k member
  exact same k (List.mem_range.mp member)

theorem ringRead_inside {memory other : Bytes} (positive : 0 < cnt)
    (same : ∀ address, base ≤ address → address < base + cnt * size →
      memory address = other address) (first count : Nat) :
    ringRead base size cnt memory first count = ringRead base size cnt other first count := by
  apply ringRead_congr
  intro k _
  apply load_congr
  intro offset within
  have slot := Nat.mod_lt (first + k) positive
  have last := Nat.mul_le_mul_right size (Nat.succ_le_of_lt slot)
  rw [Nat.succ_mul] at last
  exact same _ (by omega) (by omega)

theorem ringRead_length (memory : Bytes) (first count : Nat) :
    (ringRead base size cnt memory first count).length = count * size := by
  simp [ringRead, List.length_flatMap]

theorem load_blocks (source : Bytes) (start count : Nat) :
    load source start (count * size) =
      (List.range count).flatMap (fun k => load source (start + k * size) size) := by
  induction count with
  | zero => simp [load]
  | succ count ih =>
      rw [Nat.succ_mul, load_append, ih, List.range_succ, List.flatMap_append,
        List.flatMap_singleton]

private theorem block_le (size : Nat) {slot other : Nat} (below : slot < other) :
    slot * size + size ≤ other * size := by
  rw [← Nat.succ_mul]
  exact Nat.mul_le_mul_right _ below

variable {base size cnt}

theorem load_ringCopy_inside {memory source : Bytes} {first tail head k : Nat}
    (inside : k < tail + head) (fits : tail + head ≤ cnt)
    (tail_le : tail ≤ cnt - first % cnt) (split : head ≠ 0 → tail = cnt - first % cnt) :
    load (ringCopy base size memory (first % cnt) source tail head)
        (base + (first + k) % cnt * size) size = load source (k * size) size := by
  have positive : 0 < cnt := by omega
  have slotBound := Nat.mod_lt first positive
  apply load_congr
  intro offset within
  unfold ringCopy
  by_cases inTail : k < tail
  · have slot : (first + k) % cnt = first % cnt + k :=
      add_mod_inside (by omega)
    have place : base + (first % cnt + k) * size + offset =
        base + first % cnt * size + (k * size + offset) := by
      rw [Nat.add_mul]
      omega
    have bound := block_le size inTail
    rw [slot, copy_outside, place, copy_inside _ _ (by omega)]
    right
    by_cases none : head = 0
    · rw [none]
      omega
    · have beyond : head ≤ first % cnt + k := by omega
      have := Nat.mul_le_mul_right size beyond
      omega
  · have wraps := split (by omega)
    have slot : (first + k) % cnt = k - tail := by
      rw [add_mod_wrapped (by omega) (by omega)]
      omega
    have past : k - tail < head := by omega
    have bound := block_le size past
    have source_eq : tail * size + ((k - tail) * size + offset) = k * size + offset := by
      rw [← Nat.add_assoc, ← Nat.add_mul]
      congr 2
      omega
    rw [slot, Nat.add_assoc, copy_inside _ _ (by omega), source_eq]

theorem ringCopy_outside {memory source : Bytes} {slot tail head address : Nat}
    (tail_fits : slot + tail ≤ cnt) (head_fits : head ≤ cnt)
    (outside : address < base ∨ base + cnt * size ≤ address) :
    ringCopy base size memory slot source tail head address = memory address := by
  have tailEnd := Nat.mul_le_mul_right size tail_fits
  have headEnd := Nat.mul_le_mul_right size head_fits
  rw [Nat.add_mul] at tailEnd
  unfold ringCopy
  rw [copy_outside _ _ (by omega), copy_outside _ _ (by omega)]

theorem load_ringCopy_outside {memory source : Bytes} {first tail head slot : Nat}
    (inRing : slot < cnt)
    (split : head ≠ 0 → tail = cnt - first % cnt)
    (other : ∀ k, k < tail + head → (first + k) % cnt ≠ slot) :
    load (ringCopy base size memory (first % cnt) source tail head)
        (base + slot * size) size = load memory (base + slot * size) size := by
  have positive : 0 < cnt := by omega
  have slotBound := Nat.mod_lt first positive
  have notHead : head ≤ slot := by
    by_contra inHead
    have wraps := split (by omega)
    apply other (tail + slot) (by omega)
    have lap : first % cnt + (tail + slot) = slot + cnt := by omega
    rw [← Nat.mod_add_mod, lap, Nat.add_mod_right, Nat.mod_eq_of_lt inRing]
  have notTail : slot < first % cnt ∨ first % cnt + tail ≤ slot := by
    by_contra inTail
    apply other (slot - first % cnt) (by omega)
    have place : first % cnt + (slot - first % cnt) = slot := by omega
    rw [← Nat.mod_add_mod, place, Nat.mod_eq_of_lt inRing]
  have above := Nat.mul_le_mul_right size notHead
  unfold ringCopy
  rw [load_copy_outside _ _ (.inr (by omega)), load_copy_outside]
  rcases notTail with before | after
  · have := block_le size before
    omega
  · have := Nat.mul_le_mul_right size after
    rw [Nat.add_mul] at this
    omega

theorem ringRead_ringCopy_inside (base size : Nat) (memory source : Bytes)
    {cnt first tail head : Nat}
    (fits : tail + head ≤ cnt) (tail_le : tail ≤ cnt - first % cnt)
    (split : head ≠ 0 → tail = cnt - first % cnt) :
    ringRead base size cnt (ringCopy base size memory (first % cnt) source tail head) first
        (tail + head) = load source 0 ((tail + head) * size) := by
  rw [load_blocks]
  unfold ringRead
  apply List.flatMap_congr
  intro k member
  rw [Nat.zero_add]
  exact load_ringCopy_inside (List.mem_range.mp member) fits tail_le split

/-- A window of blocks before the new ones that fits in the ring with them is left alone. -/
theorem ringRead_ringCopy_window {memory source : Bytes} {low count first tail head : Nat}
    (ordered : low + count ≤ first) (room : first + (tail + head) ≤ low + cnt)
    (split : head ≠ 0 → tail = cnt - first % cnt) :
    ringRead base size cnt (ringCopy base size memory (first % cnt) source tail head) low count =
      ringRead base size cnt memory low count := by
  apply ringRead_congr
  intro k within
  have positive : 0 < cnt := by omega
  apply load_ringCopy_outside (Nat.mod_lt _ positive) split
  intro other inside same
  have := mod_eq_of_near low (by omega) (by omega) (by omega) (by omega) same
  omega

theorem ringRead_ringCopy_before {memory source : Bytes} {low first tail head : Nat}
    (ordered : low ≤ first) (room : first + (tail + head) ≤ low + cnt)
    (split : head ≠ 0 → tail = cnt - first % cnt) :
    ringRead base size cnt (ringCopy base size memory (first % cnt) source tail head) low
        (first - low) = ringRead base size cnt memory low (first - low) :=
  ringRead_ringCopy_window (by omega) room split

end Libcdma.BlockRing
