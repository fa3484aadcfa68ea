/-
Sets of small numbers as bits of 64-bit words.

Number `n` is bit `n % 64` of word `n / 64`.  A search for the first set bit
skips the words that are zero and then looks at one word.
-/

import Mathlib.Data.Nat.Bitwise
import Mathlib.Data.List.Basic

namespace Libcdma.WordBitmap

/-- Whether a number is in the set; numbers past the last word are not. -/
def has (words : List UInt64) (n : Nat) : Bool :=
  (words.getD (n / 64) 0).toBitVec.getLsbD (n % 64)

def insert (words : List UInt64) (n : Nat) : List UInt64 :=
  words.set (n / 64) (words.getD (n / 64) 0 ||| (1 <<< UInt64.ofNat (n % 64)))

def remove (words : List UInt64) (n : Nat) : List UInt64 :=
  words.set (n / 64) (words.getD (n / 64) 0 &&& ~~~(1 <<< UInt64.ofNat (n % 64)))

def lowest (word : UInt64) : Option Nat :=
  (List.range 64).find? (fun bit => word.toBitVec.getLsbD bit)

def firstWord (words : List UInt64) : Nat → Nat → Nat
  | 0, index => index
  | left + 1, index =>
      if words.getD index 0 = 0 then firstWord words left (index + 1) else index

theorem getLsbD_single {bit : Nat} (inside : bit < 64) (other : Nat) :
    ((1 : UInt64) <<< UInt64.ofNat bit).toBitVec.getLsbD other = decide (other = bit) := by
  have amount : ((UInt64.ofNat bit).toBitVec % 64).toNat = bit := by
    rw [BitVec.toNat_umod]
    change bit % 2 ^ 64 % 64 = bit
    omega
  have one : (1 : UInt64).toBitVec = 1#64 := rfl
  rw [UInt64.toBitVec_shiftLeft, BitVec.shiftLeft_eq', amount, BitVec.getLsbD_shiftLeft, one,
    BitVec.getLsbD_one, Bool.eq_iff_iff]
  simp only [Bool.and_eq_true, decide_eq_true_eq, Bool.not_eq_true', decide_eq_false_iff_not]
  omega

theorem toNat_clear_low {shift : Nat} (bounded : shift < 64) (word : UInt64) :
    (word &&& ~~~(UInt64.ofNat (2 ^ shift) - 1)).toNat = word.toNat / 2 ^ shift * 2 ^ shift := by
  have power : 2 ^ shift < 2 ^ 64 := Nat.pow_lt_pow_right Nat.one_lt_two bounded
  have positive := Nat.two_pow_pos shift
  have size : (UInt64.ofNat (2 ^ shift)).toNat = 2 ^ shift := by
    rw [UInt64.toNat_ofNat', Nat.mod_eq_of_lt power]
  have mask : (UInt64.ofNat (2 ^ shift) - 1).toBitVec.toNat = 2 ^ shift - 1 := by
    change (UInt64.ofNat (2 ^ shift) - 1).toNat = _
    rw [UInt64.toNat_sub_of_le, size]
    · rfl
    · rw [UInt64.le_iff_toNat_le, size]
      exact positive
  apply Nat.eq_of_testBit_eq
  intro bit
  have maskBit : (UInt64.ofNat (2 ^ shift) - 1).toBitVec.getLsbD bit = decide (bit < shift) := by
    rw [← BitVec.testBit_toNat, mask, Nat.testBit_two_pow_sub_one]
  rw [← Nat.shiftRight_eq_div_pow, ← Nat.shiftLeft_eq, Nat.testBit_shiftLeft,
    Nat.testBit_shiftRight]
  change (word &&& ~~~(UInt64.ofNat (2 ^ shift) - 1)).toBitVec.getLsbD bit = _
  rw [UInt64.toBitVec_and, UInt64.toBitVec_not, BitVec.getLsbD_and, BitVec.getLsbD_not, maskBit]
  change (word.toNat.testBit bit && _) = _
  by_cases low : bit < shift
  · have notHigh : ¬bit ≥ shift := by omega
    simp [low, notHigh]
  · have sum : shift + (bit - shift) = bit := by omega
    rw [sum]
    by_cases inside : bit < 64
    · simp [low, inside, Nat.not_lt.mp low]
    · have clear : word.toNat.testBit bit = false :=
        Nat.testBit_lt_two_pow (Nat.lt_of_lt_of_le word.toNat_lt
          (Nat.pow_le_pow_right Nat.two_pos (Nat.not_lt.mp inside)))
      simp [clear]

private theorem has_set {words : List UInt64} {n : Nat} (inside : n / 64 < words.length)
    (word : UInt64) (m : Nat) :
    has (words.set (n / 64) word) m =
      if m / 64 = n / 64 then word.toBitVec.getLsbD (m % 64) else has words m := by
  unfold has
  by_cases same : m / 64 = n / 64
  · rw [if_pos same, same, List.getD_eq_getElem?_getD, List.getElem?_set_self inside,
      Option.getD_some]
  · rw [if_neg same, List.getD_eq_getElem?_getD, List.getElem?_set_ne (fun h => same h.symm),
      ← List.getD_eq_getElem?_getD]

theorem has_insert {words : List UInt64} {n : Nat} (inside : n / 64 < words.length) (m : Nat) :
    has (insert words n) m = (has words m || decide (m = n)) := by
  unfold insert
  rw [has_set inside]
  by_cases same : m / 64 = n / 64
  · have equal : m % 64 = n % 64 ↔ m = n := by omega
    rw [if_pos same, UInt64.toBitVec_or, BitVec.getLsbD_or,
      getLsbD_single (Nat.mod_lt n (by decide)), decide_eq_decide.mpr equal, ← same]
    rfl
  · have different : m ≠ n := fun equal => same (by rw [equal])
    rw [if_neg same, decide_eq_false different, Bool.or_false]

theorem has_remove {words : List UInt64} {n : Nat} (inside : n / 64 < words.length) (m : Nat) :
    has (remove words n) m = (has words m && !decide (m = n)) := by
  unfold remove
  rw [has_set inside]
  by_cases same : m / 64 = n / 64
  · have equal : m % 64 = n % 64 ↔ m = n := by omega
    have low : m % 64 < 64 := Nat.mod_lt m (by decide)
    rw [if_pos same, UInt64.toBitVec_and, UInt64.toBitVec_not, BitVec.getLsbD_and,
      BitVec.getLsbD_not, getLsbD_single (Nat.mod_lt n (by decide)),
      decide_eq_decide.mpr equal, decide_eq_true low, Bool.true_and, ← same]
    rfl
  · have different : m ≠ n := fun equal => same (by rw [equal])
    rw [if_neg same, decide_eq_false different, Bool.not_false, Bool.and_true]

theorem insert_length (words : List UInt64) (n : Nat) :
    (insert words n).length = words.length := List.length_set

theorem remove_length (words : List UInt64) (n : Nat) :
    (remove words n).length = words.length := List.length_set

theorem lowest_eq_none {word : UInt64} (empty : lowest word = none) : word = 0 := by
  unfold lowest at empty
  rw [List.find?_eq_none] at empty
  rw [← UInt64.toBitVec_inj]
  apply BitVec.eq_of_getLsbD_eq
  intro bit inside
  have clear := empty bit (List.mem_range.mpr inside)
  rw [Bool.not_eq_true] at clear
  rw [clear]
  exact (BitVec.getLsbD_zero).symm

theorem lowest_spec {word : UInt64} {bit : Nat} (found : lowest word = some bit) :
    bit < 64 ∧ word.toBitVec.getLsbD bit = true := by
  unfold lowest at found
  exact ⟨List.mem_range.mp (List.mem_of_find?_eq_some found), List.find?_some found⟩

theorem lowest_le {word : UInt64} {bit : Nat} (found : lowest word = some bit) {other : Nat}
    (set : word.toBitVec.getLsbD other = true) : bit ≤ other := by
  by_contra earlier
  unfold lowest at found
  have clear := (List.find?_range_eq_some.mp found).2.2 other (by omega)
  rw [set] at clear
  cases clear

theorem firstWord_ne_zero {words : List UInt64} {left index : Nat}
    (found : firstWord words left index < index + left) :
    words.getD (firstWord words left index) 0 ≠ 0 := by
  induction left generalizing index with
  | zero => exact absurd found (Nat.lt_irrefl _)
  | succ left ih =>
      rw [firstWord] at found ⊢
      split
      · rename_i zero
        rw [if_pos zero] at found
        exact ih (by omega)
      · rename_i some
        exact some

theorem firstWord_le {words : List UInt64} {left index other : Nat} (after : index ≤ other)
    (some : words.getD other 0 ≠ 0) : firstWord words left index ≤ other := by
  induction left generalizing index with
  | zero => exact after
  | succ left ih =>
      rw [firstWord]
      split
      · rename_i zero
        have apart : index ≠ other := by
          rintro rfl
          exact some zero
        exact ih (by omega)
      · exact after

/-- Skipping zero words and taking the lowest bit finds the least number of the set. -/
theorem least_of_has {words : List UInt64} {count n : Nat} (inside : n / 64 < count)
    (member : has words n = true) :
    ∃ bit, firstWord words count 0 < count ∧
      lowest (words.getD (firstWord words count 0) 0) = some bit ∧ bit < 64 ∧
      has words (firstWord words count 0 * 64 + bit) = true ∧
      firstWord words count 0 * 64 + bit ≤ n := by
  have some : words.getD (n / 64) 0 ≠ 0 := by
    intro zero
    rw [has, zero] at member
    exact absurd member (by simp)
  have near : firstWord words count 0 ≤ n / 64 := firstWord_le (Nat.zero_le _) some
  have inside : firstWord words count 0 < 0 + count := by omega
  have found := firstWord_ne_zero inside
  generalize firstWord words count 0 = first at near found ⊢
  cases lowest_eq : lowest (words.getD first 0) with
  | none => exact absurd (lowest_eq_none lowest_eq) found
  | some bit =>
      obtain ⟨low, set⟩ := lowest_spec lowest_eq
      have word : (first * 64 + bit) / 64 = first := by omega
      have place : (first * 64 + bit) % 64 = bit := by omega
      refine ⟨bit, by omega, rfl, low, by rw [has, word, place, set], ?_⟩
      by_cases same : first = n / 64
      · have member' : (words.getD first 0).toBitVec.getLsbD (n % 64) = true := by
          rw [same]
          exact member
        have := lowest_le lowest_eq member'
        omega
      · omega

end Libcdma.WordBitmap
