/-
Free-running 32-bit counters read against unbounded ones.

A ring index kept in a machine word is the residue of an unbounded count.  The
lemmas here transport sums, differences, masks and lap bits between the two, so
that the arguments about a ring run in natural numbers and never meet the wrap.
-/

import Mathlib.Data.Nat.Bitwise
import Mathlib.Data.Nat.ModEq
import Mathlib.Data.UInt

namespace Libcdma.WrapCounter

/-- The machine word that stands for an unbounded count. -/
def counter (count : Nat) : UInt32 := UInt32.ofNat count

@[simp] theorem toNat_counter (count : Nat) :
    (counter count).toNat = count % 2 ^ 32 := by
  simp [counter]

theorem toNat_counter_of_lt {count : Nat} (small : count < 2 ^ 32) :
    (counter count).toNat = count := by
  rw [toNat_counter, Nat.mod_eq_of_lt small]

theorem counter_toNat (word : UInt32) : counter word.toNat = word := by
  simp [counter]

theorem counter_add (left right : Nat) :
    counter left + counter right = counter (left + right) := by
  simp [counter]

theorem counter_succ (count : Nat) : counter count + 1 = counter (count + 1) :=
  counter_add count 1

theorem toNat_succ {word : UInt32} (small : word.toNat + 1 < 2 ^ 32) :
    (word + 1).toNat = word.toNat + 1 := by
  rw [UInt32.toNat_add, UInt32.toNat_one, Nat.mod_eq_of_lt small]

/-- A word below another one has a successor that does not wrap. -/
theorem toNat_succ_of_lt {word bound : UInt32} (below : word < bound) :
    (word + 1).toNat = word.toNat + 1 := by
  have bounded := bound.toNat_lt
  rw [UInt32.lt_iff_toNat_lt] at below
  exact toNat_succ (by omega)

theorem counter_sub {smaller larger : Nat} (ordered : smaller ≤ larger) :
    counter larger - counter smaller = counter (larger - smaller) := by
  have split : larger = (larger - smaller) + smaller := by omega
  have summed : counter larger = counter (larger - smaller) + counter smaller := by
    rw [counter_add, ← split]
  rw [summed]
  grind

theorem toNat_counter_sub {smaller larger : Nat} (ordered : smaller ≤ larger)
    (near : larger - smaller < 2 ^ 32) :
    (counter larger - counter smaller).toNat = larger - smaller := by
  rw [counter_sub ordered, toNat_counter_of_lt near]

theorem counter_eq_iff (left right : Nat) :
    counter left = counter right ↔ left % 2 ^ 32 = right % 2 ^ 32 := by
  rw [← UInt32.toNat_inj, toNat_counter, toNat_counter]

theorem counter_near_injective (base : Nat) {left right : Nat}
    (leftAbove : base ≤ left) (rightAbove : base ≤ right)
    (leftNear : left < base + 2 ^ 32) (rightNear : right < base + 2 ^ 32)
    (same : counter left = counter right) : left = right := by
  have residues := (counter_eq_iff left right).mp same
  omega

theorem toInt32_toInt_of_small {word : UInt32} (small : word.toNat < 2 ^ 31) :
    word.toInt32.toInt = word.toNat := by
  have reading : word.toInt32.toInt = word.toBitVec.toInt := rfl
  rw [reading, BitVec.toInt_eq_toNat_of_lt]
  · rfl
  · change 2 * word.toNat < 2 ^ 32
    omega

theorem toInt32_nonneg_iff (word : UInt32) : word.toInt32 ≥ 0 ↔ word.toNat < 2 ^ 31 := by
  have reading : word.toInt32.toInt = word.toBitVec.toInt := rfl
  have natural : word.toBitVec.toNat = word.toNat := rfl
  have bounded := word.toNat_lt
  change (0 : Int32) ≤ _ ↔ _
  rw [Int32.le_iff_toInt_le, reading, BitVec.toInt_eq_toNat_cond, natural, Int32.toInt_zero]
  split <;> omega

theorem lt_toInt32_toInt_iff (index : Nat) (word : UInt32) :
    (index : Int) < word.toInt32.toInt ↔ word.toNat < 2 ^ 31 ∧ index < word.toNat := by
  by_cases small : word.toNat < 2 ^ 31
  · rw [toInt32_toInt_of_small small, and_iff_right small]
    exact Int.ofNat_lt
  · have negative : ¬word.toInt32 ≥ 0 := fun sign => small ((toInt32_nonneg_iff word).mp sign)
    rw [ge_iff_le, Int32.le_iff_toInt_le, Int32.toInt_zero, Int.not_le] at negative
    constructor
    · intro above
      omega
    · exact fun above => absurd above.1 small

theorem toInt32_sub_nonneg_iff (left right : UInt32) :
    left.toInt32 - right.toInt32 ≥ 0 ↔ (left - right).toNat < 2 ^ 31 := by
  rw [← UInt32.toInt32_sub, toInt32_nonneg_iff]

/-! ### Masks and laps of a power-of-two ring -/

theorem mod_word_mod_pow {shift : Nat} (bounded : shift ≤ 32) (count : Nat) :
    count % 2 ^ 32 % 2 ^ shift = count % 2 ^ shift :=
  Nat.mod_mod_of_dvd count (Nat.pow_dvd_pow 2 bounded)

theorem toNat_and_mask {shift : Nat} (bounded : shift ≤ 32) (word : UInt32) :
    (word &&& counter (2 ^ shift - 1)).toNat = word.toNat % 2 ^ shift := by
  have small : 2 ^ shift - 1 < 2 ^ 32 := by
    have := Nat.pow_le_pow_right Nat.two_pos bounded
    have := Nat.two_pow_pos shift
    omega
  rw [UInt32.toNat_and, toNat_counter_of_lt small, Nat.and_two_pow_sub_one_eq_mod]

theorem toNat_counter_and_mask {shift : Nat} (bounded : shift ≤ 32) (count : Nat) :
    (counter count &&& counter (2 ^ shift - 1)).toNat = count % 2 ^ shift := by
  rw [toNat_and_mask bounded, toNat_counter, mod_word_mod_pow bounded]

/-- The offset of an index from a lower one, read off a word that shares only the
slot bits with it. -/
theorem toNat_low_sub_and_mask {shift smaller larger : Nat} {low : UInt32}
    (bounded : shift ≤ 32) (ordered : smaller ≤ larger)
    (same : low.toNat % 2 ^ shift = larger % 2 ^ shift) :
    ((low - counter smaller) &&& counter (2 ^ shift - 1)).toNat =
      (larger - smaller) % 2 ^ shift := by
  have near := Nat.mod_lt smaller (Nat.two_pow_pos 32)
  have laps := Nat.div_add_mod smaller (2 ^ 32)
  rw [toNat_and_mask bounded, UInt32.toNat_sub, toNat_counter, mod_word_mod_pow bounded]
  have shifted : 2 ^ 32 - smaller % 2 ^ 32 + low.toNat + smaller =
      low.toNat + 2 ^ 32 * (smaller / 2 ^ 32 + 1) := by omega
  have whole : 2 ^ shift ∣ 2 ^ 32 * (smaller / 2 ^ 32 + 1) :=
    Nat.dvd_trans (Nat.pow_dvd_pow 2 bounded) (Nat.dvd_mul_right _ _)
  apply Nat.ModEq.add_right_cancel' smaller
  rw [shifted, Nat.sub_add_cancel ordered]
  calc low.toNat + 2 ^ 32 * (smaller / 2 ^ 32 + 1)
      ≡ low.toNat + 0 [MOD 2 ^ shift] :=
        Nat.ModEq.add_left _ (Nat.modEq_zero_iff_dvd.mpr whole)
    _ ≡ larger [MOD 2 ^ shift] := same

theorem div_pow_mod_two_of_word {shift : Nat} (bounded : shift < 32) (count : Nat) :
    count % 2 ^ 32 / 2 ^ shift % 2 = count / 2 ^ shift % 2 := by
  have wide : 2 ^ 32 = 2 ^ shift * 2 ^ (32 - shift) := by
    rw [← Nat.pow_add]
    congr 1
    omega
  rw [wide, Nat.mod_mul_right_div_self]
  exact Nat.mod_mod_of_dvd _ (dvd_pow_self 2 (by omega))

/-- The bit just above the slot bits is the parity of the lap. -/
theorem toNat_lap_bit {shift : Nat} (bounded : shift < 32) (count : Nat) :
    ((counter count >>> counter shift) &&& 1).toNat = count / 2 ^ shift % 2 := by
  have shiftValue : (counter shift).toNat % 32 = shift := by
    rw [toNat_counter_of_lt (by omega), Nat.mod_eq_of_lt bounded]
  rw [UInt32.toNat_and, UInt32.toNat_shiftRight, shiftValue, toNat_counter,
    Nat.shiftRight_eq_div_pow, UInt32.toNat_one, Nat.and_one_is_mod,
    div_pow_mod_two_of_word bounded]

theorem add_mod_inside {modulus first count : Nat} (inside : first % modulus + count < modulus) :
    (first + count) % modulus = first % modulus + count := by
  rw [← Nat.mod_add_mod, Nat.mod_eq_of_lt inside]

theorem add_mod_wrapped {modulus first count : Nat} (past : modulus ≤ first % modulus + count)
    (within : first % modulus + count < modulus + modulus) :
    (first + count) % modulus = first % modulus + count - modulus := by
  rw [← Nat.mod_add_mod, Nat.mod_eq_sub_mod past, Nat.mod_eq_of_lt (by omega)]

theorem mod_eq_of_near {modulus : Nat} (base : Nat) {left right : Nat}
    (leftAbove : base ≤ left) (rightAbove : base ≤ right)
    (leftNear : left < base + modulus) (rightNear : right < base + modulus)
    (same : left % modulus = right % modulus) : left = right := by
  have leftSplit := Nat.div_add_mod left modulus
  have rightSplit := Nat.div_add_mod right modulus
  rcases Nat.lt_trichotomy (left / modulus) (right / modulus) with less | equal | more
  · have gap : modulus * (left / modulus) + modulus ≤ modulus * (right / modulus) := by
      rw [← Nat.mul_succ]
      exact Nat.mul_le_mul_left modulus less
    omega
  · rw [equal] at leftSplit
    omega
  · have gap : modulus * (right / modulus) + modulus ≤ modulus * (left / modulus) := by
      rw [← Nat.mul_succ]
      exact Nat.mul_le_mul_left modulus more
    omega

end Libcdma.WrapCounter
