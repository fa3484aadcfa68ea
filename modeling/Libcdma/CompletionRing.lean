/-
The completion ring as a queue: the device produces, polling consumes.

`cdma_u_get_next_cqe` sees one owner bit and the consumer's own lap.  The world
below interleaves productions of the device with the turns of poll calls in any
order; its ring invariant makes the bit test equivalent to the device being
ahead, so the consumed entries are always a prefix of the produced ones.
-/

import Libcdma.Foundation.LapRing
import Libcdma.Foundation.Transition
import Libcdma.Model.Jfc

namespace Libcdma

open WrapCounter LapRing

/-- A ring of `2 ^ shift` entries, `2 ^ stride` bytes apart. -/
structure CqGeometry (cq : CdmaUJettyQueue) (shift stride : Nat) : Prop where
  cnt_eq : cq.baseblkCnt = counter (2 ^ shift)
  mask_eq : cq.baseblkMask = cq.baseblkCnt - 1
  shift_eq : cq.baseblkShift = counter stride
  bytes_le : 2 ^ shift * 2 ^ stride ≤ 2 ^ 31

namespace CqGeometry

variable {cq : CdmaUJettyQueue} {shift stride : Nat}

theorem exponents (geometry : CqGeometry cq shift stride) : shift + stride ≤ 31 := by
  have bytes := geometry.bytes_le
  rw [← Nat.pow_add] at bytes
  exact (Nat.pow_le_pow_iff_right Nat.one_lt_two).mp bytes

theorem shift_lt (geometry : CqGeometry cq shift stride) : shift < 32 := by
  have := geometry.exponents
  omega

theorem stride_lt (geometry : CqGeometry cq shift stride) : stride < 32 := by
  have := geometry.exponents
  omega

theorem mask_counter (geometry : CqGeometry cq shift stride) :
    cq.baseblkMask = counter (2 ^ shift - 1) := by
  rw [geometry.mask_eq, geometry.cnt_eq]
  exact counter_sub (Nat.two_pow_pos shift)

theorem cnt_toNat (geometry : CqGeometry cq shift stride) :
    cq.baseblkCnt.toNat = 2 ^ shift := by
  rw [geometry.cnt_eq]
  exact toNat_counter_of_lt (Nat.pow_lt_pow_right Nat.one_lt_two geometry.shift_lt)

theorem setCi (geometry : CqGeometry cq shift stride) (ci : UInt32) :
    CqGeometry { cq with ci := ci } shift stride :=
  ⟨geometry.cnt_eq, geometry.mask_eq, geometry.shift_eq, geometry.bytes_le⟩

end CqGeometry

theorem toNat_one_shiftLeft {shift : Nat} (bounded : shift < 32) :
    ((1 : UInt32) <<< counter shift).toNat = 2 ^ shift := by
  have amount : (counter shift).toNat % 32 = shift := by
    rw [toNat_counter_of_lt (by omega), Nat.mod_eq_of_lt bounded]
  rw [UInt32.toNat_shiftLeft, amount, UInt32.toNat_one, Nat.one_shiftLeft]
  exact Nat.mod_eq_of_lt (Nat.pow_lt_pow_right Nat.one_lt_two bounded)

private theorem alignPower2From_pow {shift : Nat} (bounded : shift < 32) (fuel res : Nat)
    (below : res ≤ shift) (enough : shift < res + fuel) :
    alignPower2From (counter (2 ^ shift)) fuel (counter res) = counter shift := by
  induction fuel generalizing res with
  | zero => omega
  | succ fuel ih =>
      have larger : (counter (2 ^ shift)).toNat = 2 ^ shift :=
        toNat_counter_of_lt (Nat.pow_lt_pow_right Nat.one_lt_two bounded)
      have compare : (1 : UInt32) <<< counter res < counter (2 ^ shift) ↔ res < shift := by
        rw [UInt32.lt_iff_toNat_lt, toNat_one_shiftLeft (by omega), larger]
        exact Nat.pow_lt_pow_iff_right Nat.one_lt_two
      rw [alignPower2From]
      by_cases more : res < shift
      · rw [if_pos (compare.mpr more), counter_succ]
        exact ih (res + 1) (by omega) (by omega)
      · rw [if_neg (fun less => more (compare.mp less))]
        congr 1
        omega

theorem alignPower2_pow {shift : Nat} (bounded : shift < 32) :
    alignPower2 (counter (2 ^ shift)) = counter shift :=
  alignPower2From_pow bounded 32 0 (Nat.zero_le _) (by omega)

def CdmaUJettyQueue.slotAddress (cq : CdmaUJettyQueue) (slot : Nat) : Nat :=
  cq.qbuf + slot * 2 ^ cq.baseblkShift.toNat

theorem CdmaUJettyQueue.slotAddress_injective (cq : CdmaUJettyQueue) :
    Function.Injective cq.slotAddress := by
  intro left right same
  unfold slotAddress at same
  exact Nat.eq_of_mul_eq_mul_right (Nat.two_pow_pos _) (Nat.add_left_cancel same)

theorem cdmaUGetBufEntry_eq {cq : CdmaUJettyQueue} {shift : Nat}
    (mask : cq.baseblkMask = counter (2 ^ shift - 1)) (bounded : shift ≤ 32)
    (stride : cq.baseblkShift.toNat < 32) (n : UInt32) :
    cdmaUGetBufEntry cq n =
      cq.qbuf + n.toNat % 2 ^ shift * 2 ^ cq.baseblkShift.toNat % 2 ^ 32 := by
  have size := toNat_one_shiftLeft stride
  rw [counter_toNat] at size
  simp only [cdmaUGetBufEntry]
  rw [UInt32.toNat_mul, mask, toNat_and_mask bounded, size]

theorem cdmaUGetBufEntry_slot {cq : CdmaUJettyQueue} {shift : Nat}
    (mask : cq.baseblkMask = counter (2 ^ shift - 1)) (bounded : shift ≤ 32)
    (stride : cq.baseblkShift.toNat < 32)
    (bytes : 2 ^ shift * 2 ^ cq.baseblkShift.toNat ≤ 2 ^ 32) (index : Nat) :
    cdmaUGetBufEntry cq (counter index) = cq.slotAddress (index % 2 ^ shift) := by
  have slotBound := Nat.mod_lt index (Nat.two_pow_pos shift)
  have inside : index % 2 ^ shift * 2 ^ cq.baseblkShift.toNat < 2 ^ 32 := by
    have scaled : index % 2 ^ shift * 2 ^ cq.baseblkShift.toNat <
        2 ^ shift * 2 ^ cq.baseblkShift.toNat :=
      Nat.mul_lt_mul_of_pos_right slotBound (Nat.two_pow_pos _)
    omega
  rw [cdmaUGetBufEntry_eq mask bounded stride, toNat_counter, mod_word_mod_pow bounded,
    Nat.mod_eq_of_lt inside]
  rfl

theorem CqGeometry.stride_toNat {cq : CdmaUJettyQueue} {shift stride : Nat}
    (geometry : CqGeometry cq shift stride) : cq.baseblkShift.toNat = stride := by
  rw [geometry.shift_eq]
  exact toNat_counter_of_lt (Nat.lt_trans geometry.stride_lt (by decide))

theorem cdmaUGetBufEntry_counter {cq : CdmaUJettyQueue} {shift stride : Nat}
    (geometry : CqGeometry cq shift stride) (index : Nat) :
    cdmaUGetBufEntry cq (counter index) = cq.slotAddress (index % 2 ^ shift) := by
  have bytes := geometry.bytes_le
  have strideBound := geometry.stride_lt
  rw [← geometry.stride_toNat] at bytes strideBound
  exact cdmaUGetBufEntry_slot geometry.mask_counter (Nat.le_of_lt geometry.shift_lt)
    strideBound (by omega) index

/-- A ring whose entries are at addresses of their own.  Memory holds an entry at an
address whole, so slots are taken to have room for one: a stride of `2 ^ 6` or more. -/
structure CqSlots (cq : CdmaUJettyQueue) (shift : Nat) : Prop where
  cnt_eq : cq.baseblkCnt = counter (2 ^ shift)
  mask_eq : cq.baseblkMask = cq.baseblkCnt - 1
  stride_lt : cq.baseblkShift < 32
  distinct : ∀ left right : UInt32, left < cq.baseblkCnt → right < cq.baseblkCnt →
    cdmaUGetBufEntry cq left = cdmaUGetBufEntry cq right → left = right

namespace CqSlots

variable {cq : CdmaUJettyQueue} {shift : Nat}

theorem mask_counter (slots : CqSlots cq shift) :
    cq.baseblkMask = counter (2 ^ shift - 1) := by
  rw [slots.mask_eq, slots.cnt_eq]
  exact counter_sub (Nat.two_pow_pos shift)

theorem stride_toNat_lt (slots : CqSlots cq shift) : cq.baseblkShift.toNat < 32 :=
  UInt32.lt_iff_toNat_lt.mp slots.stride_lt

/-- Otherwise the product of some index and the entry size would wrap to zero. -/
theorem bytes_le (slots : CqSlots cq shift) (bounded : shift < 32) :
    2 ^ shift * 2 ^ cq.baseblkShift.toNat ≤ 2 ^ 32 := by
  have stride := slots.stride_toNat_lt
  rw [← Nat.pow_add]
  apply Nat.pow_le_pow_right Nat.two_pos
  by_contra wraps
  have whole : 2 ^ shift < 2 ^ 32 := Nat.pow_lt_pow_right Nat.one_lt_two bounded
  have part : 2 ^ (32 - cq.baseblkShift.toNat) < 2 ^ shift :=
    Nat.pow_lt_pow_right Nat.one_lt_two (by omega)
  have cnt : cq.baseblkCnt.toNat = 2 ^ shift := by
    rw [slots.cnt_eq, toNat_counter_of_lt whole]
  have index : (counter (2 ^ (32 - cq.baseblkShift.toNat))).toNat =
      2 ^ (32 - cq.baseblkShift.toNat) := toNat_counter_of_lt (by omega)
  have product : 2 ^ (32 - cq.baseblkShift.toNat) * 2 ^ cq.baseblkShift.toNat = 2 ^ 32 := by
    rw [← Nat.pow_add, Nat.sub_add_cancel (Nat.le_of_lt stride)]
  have same : cdmaUGetBufEntry cq (counter (2 ^ (32 - cq.baseblkShift.toNat))) =
      cdmaUGetBufEntry cq 0 := by
    rw [cdmaUGetBufEntry_eq slots.mask_counter (by omega) stride,
      cdmaUGetBufEntry_eq slots.mask_counter (by omega) stride, index, Nat.mod_eq_of_lt part,
      product, UInt32.toNat_zero, Nat.zero_mod, Nat.zero_mul]
    rfl
  have zero := slots.distinct _ 0 (by rw [UInt32.lt_iff_toNat_lt, index, cnt]; exact part)
    (by rw [UInt32.lt_iff_toNat_lt, cnt]; exact Nat.two_pow_pos shift) same
  have positive := Nat.two_pow_pos (32 - cq.baseblkShift.toNat)
  rw [zero, UInt32.toNat_zero] at index
  omega

theorem entry_eq (slots : CqSlots cq shift) (bounded : shift < 32) (index : Nat) :
    cdmaUGetBufEntry cq (counter index) = cq.slotAddress (index % 2 ^ shift) :=
  cdmaUGetBufEntry_slot slots.mask_counter (Nat.le_of_lt bounded) slots.stride_toNat_lt
    (slots.bytes_le bounded) index

end CqSlots

theorem CqGeometry.slots {cq : CdmaUJettyQueue} {shift stride : Nat}
    (geometry : CqGeometry cq shift stride) : CqSlots cq shift := by
  refine ⟨geometry.cnt_eq, geometry.mask_eq, ?_, fun left right leftBelow rightBelow same => ?_⟩
  · rw [UInt32.lt_iff_toNat_lt, geometry.stride_toNat]
    exact geometry.stride_lt
  · rw [UInt32.lt_iff_toNat_lt, geometry.cnt_toNat] at leftBelow rightBelow
    rw [← counter_toNat left, ← counter_toNat right, cdmaUGetBufEntry_counter geometry,
      cdmaUGetBufEntry_counter geometry, Nat.mod_eq_of_lt leftBelow,
      Nat.mod_eq_of_lt rightBelow] at same
    exact UInt32.toNat_inj.mp (cq.slotAddress_injective same)

def ringSlots (cq : CdmaUJettyQueue) (cqe : Nat → CdmaUJfcCqe) (slot : Nat) : CdmaUJfcCqe :=
  cqe (cq.slotAddress slot)

theorem ringSlots_update (cq : CdmaUJettyQueue) (cqe : Nat → CdmaUJfcCqe) (slot : Nat)
    (entry : CdmaUJfcCqe) :
    ringSlots cq (Function.update cqe (cq.slotAddress slot) entry) =
      Function.update (ringSlots cq cqe) slot entry := by
  funext other
  unfold ringSlots
  by_cases same : other = slot
  · subst same
    rw [Function.update_self, Function.update_self]
  · rw [Function.update_of_ne same, Function.update_of_ne]
    exact fun equal => same (cq.slotAddress_injective equal)

/-- The owner test compares the stamp of slot `n` with the lap of the consumer index. -/
theorem cdmaUGetNextCqe_counter {jfc : CdmaUJfc} {shift stride : Nat}
    (geometry : CqGeometry jfc.cq shift stride) (memory : Memory) {consumed : Nat}
    (ci_eq : jfc.cq.ci = counter consumed) (index : Nat) :
    cdmaUGetNextCqe jfc memory (counter index) =
      if (ringSlots jfc.cq memory.cqe (index % 2 ^ shift)).owner = lapOwner (2 ^ shift) consumed
      then some (jfc.cq.slotAddress (index % 2 ^ shift)) else none := by
  have lap : (jfc.cq.ci >>> alignPower2 jfc.cq.baseblkCnt) &&& cdmaJfcDbValidOwnerM =
      counter (consumed / 2 ^ shift % 2) := by
    rw [geometry.cnt_eq, alignPower2_pow geometry.shift_lt, ci_eq, ← UInt32.toNat_inj,
      toNat_counter_of_lt (by omega)]
    exact toNat_lap_bit geometry.shift_lt consumed
  unfold cdmaUGetNextCqe
  rw [cdmaUGetBufEntry_counter geometry, lap]
  change (if (ringSlots jfc.cq memory.cqe (index % 2 ^ shift)).owner.toUInt32 ^^^ _ = 0
    then none else _) = _
  unfold lapOwner
  rcases Nat.mod_two_eq_zero_or_one (consumed / 2 ^ shift) with even | odd
  · cases (ringSlots jfc.cq memory.cqe (index % 2 ^ shift)).owner <;>
      simp [even, counter, Bool.toUInt32]
  · cases (ringSlots jfc.cq memory.cqe (index % 2 ^ shift)).owner <;>
      simp [odd, counter, Bool.toUInt32]

/-! ### The ring invariant -/

/-- What the device has written and polling has consumed, read off the ring:
the entries written and not consumed are the window of slots from the consumer
index on, and every other slot carries a stamp of an earlier lap. -/
structure RingInv (shift stride : Nat) (cq : CdmaUJettyQueue) (cqe : Nat → CdmaUJfcCqe)
    (written consumed : List CdmaUJfcCqe) : Prop where
  geometry : CqGeometry cq shift stride
  ci_eq : cq.ci = counter consumed.length
  ordered : consumed.length ≤ written.length
  room : written.length ≤ consumed.length + 2 ^ shift
  stamped : Stamped CdmaUJfcCqe.owner (2 ^ shift) (ringSlots cq cqe) written.length
  pending : written = consumed ++
    window (ringSlots cq cqe) (2 ^ shift) consumed.length (written.length - consumed.length)

/-- The entry the device writes as its `index`-th, in the slot of that index. -/
def deviceEntry (cq : CdmaUJettyQueue) (index : Nat) (cqe : CdmaUJfcCqe) : CdmaUJfcCqe :=
  { cqe with owner := lapOwner cq.baseblkCnt.toNat index }

def deviceWrite (cq : CdmaUJettyQueue) (memory : Memory) (index : Nat) (cqe : CdmaUJfcCqe) :
    Memory :=
  memory.setCqe (cq.slotAddress (index % cq.baseblkCnt.toNat)) (deviceEntry cq index cqe)

namespace RingInv

variable {shift stride : Nat} {jfc : CdmaUJfc} {memory : Memory}
  {written consumed : List CdmaUJfcCqe}

theorem next_eq (inv : RingInv shift stride jfc.cq memory.cqe written consumed) :
    cdmaUGetNextCqe jfc memory jfc.cq.ci =
      if consumed.length < written.length
      then some (jfc.cq.slotAddress (consumed.length % 2 ^ shift)) else none := by
  have valid := inv.stamped.valid_iff inv.ordered inv.room (Nat.two_pow_pos shift)
  have found := cdmaUGetNextCqe_counter inv.geometry memory inv.ci_eq consumed.length
  rw [← inv.ci_eq] at found
  rw [found]
  exact if_congr valid rfl rfl

theorem written_eq (inv : RingInv shift stride jfc.cq memory.cqe written consumed)
    (behind : consumed.length < written.length) :
    written = consumed ++ memory.cqe (jfc.cq.slotAddress (consumed.length % 2 ^ shift)) ::
      window (ringSlots jfc.cq memory.cqe) (2 ^ shift) (consumed.length + 1)
        (written.length - (consumed.length + 1)) := by
  have split := inv.pending
  rw [window_consume behind] at split
  exact split

theorem produce (inv : RingInv shift stride jfc.cq memory.cqe written consumed)
    (free : written.length < consumed.length + 2 ^ shift) (cqe : CdmaUJfcCqe) :
    RingInv shift stride jfc.cq (deviceWrite jfc.cq memory written.length cqe).cqe
      (written ++ [deviceEntry jfc.cq written.length cqe]) consumed := by
  have slots : ringSlots jfc.cq (deviceWrite jfc.cq memory written.length cqe).cqe =
      Function.update (ringSlots jfc.cq memory.cqe) (written.length % 2 ^ shift)
        (deviceEntry jfc.cq written.length cqe) := by
    unfold deviceWrite
    rw [inv.geometry.cnt_toNat, Memory.setCqe_cqe, ringSlots_update]
  have stamp : (deviceEntry jfc.cq written.length cqe).owner =
      lapOwner (2 ^ shift) written.length := by
    unfold deviceEntry
    rw [inv.geometry.cnt_toNat]
  have ordered := inv.ordered
  refine ⟨inv.geometry, inv.ci_eq, ?_, ?_, ?_, ?_⟩
  · rw [List.length_append, List.length_singleton]
    omega
  · rw [List.length_append, List.length_singleton]
    omega
  · rw [List.length_append, List.length_singleton, slots]
    exact inv.stamped.write stamp
  · rw [List.length_append, List.length_singleton, slots, window_write _ ordered free,
      ← List.append_assoc, ← inv.pending]

theorem consume (inv : RingInv shift stride jfc.cq memory.cqe written consumed)
    (behind : consumed.length < written.length) :
    RingInv shift stride (jfc.setCi (jfc.cq.ci + 1)).cq memory.cqe written
      (consumed ++ [memory.cqe (jfc.cq.slotAddress (consumed.length % 2 ^ shift))]) := by
  have room := inv.room
  refine ⟨inv.geometry.setCi _, ?_, ?_, ?_, inv.stamped, ?_⟩
  · rw [List.length_append, List.length_singleton, ← counter_succ, ← inv.ci_eq]
    rfl
  · rw [List.length_append, List.length_singleton]
    omega
  · rw [List.length_append, List.length_singleton]
    omega
  · have split := inv.written_eq behind
    rw [List.length_append, List.length_singleton, List.append_assoc]
    exact split

end RingInv

end Libcdma
