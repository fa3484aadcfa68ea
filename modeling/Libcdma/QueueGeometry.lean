/-
Sizes of queue buffers.

The source rounds a count to a power of two, multiplies by the entry size, rounds
again, aligns to a page and divides.  While the product of the two ceilings fits
in 31 bits each machine value is the exact one, and the whole chain comes down
to one ceiling logarithm for the count and one for the entry size.
-/

import Mathlib.Data.Nat.Log
import Libcdma.Foundation.WordBitmap
import Libcdma.CompletionRing
import Libcdma.SendRing

namespace Libcdma

open WrapCounter WordBitmap

theorem clog_pow_mul {count : Nat} (positive : 0 < count) (shift : Nat) :
    Nat.clog 2 (2 ^ shift * count) = shift + Nat.clog 2 count := by
  apply le_antisymm
  · apply Nat.clog_le_of_le_pow
    rw [Nat.pow_add]
    exact Nat.mul_le_mul_left _ (Nat.le_pow_clog Nat.one_lt_two count)
  · have covers := Nat.le_pow_clog Nat.one_lt_two (2 ^ shift * count)
    have above : shift ≤ Nat.clog 2 (2 ^ shift * count) := by
      have least : 2 ^ shift ≤ 2 ^ shift * count := Nat.le_mul_of_pos_right _ positive
      exact (Nat.pow_le_pow_iff_right Nat.one_lt_two).mp (least.trans covers)
    obtain ⟨rest, split⟩ := Nat.exists_eq_add_of_le above
    rw [split, Nat.pow_add] at covers
    rw [split]
    exact Nat.add_le_add_left
      (Nat.clog_le_of_le_pow (Nat.le_of_mul_le_mul_left covers (Nat.two_pow_pos shift))) shift

theorem toNat_ilog64_pred {n : UInt64} (large : 1 < n.toNat) :
    (ilog64 (n - 1)).toNat = Nat.clog 2 n.toNat := by
  have pred : (n - 1).toNat = n.toNat - 1 :=
    UInt64.toNat_sub_of_le _ _ (UInt64.le_iff_toNat_le.mpr (Nat.le_of_lt large))
  have some : n - 1 ≠ 0 := by
    intro zero
    rw [zero] at pred
    change 0 = _ at pred
    omega
  have bits : (n.toNat - 1).log2 < 64 := by
    have bounded := n.toNat_lt
    exact (Nat.log2_lt (by omega)).mpr (by omega)
  unfold ilog64
  rw [if_neg some, pred, UInt64.toNat_ofNat', Nat.mod_eq_of_lt (by omega)]
  apply le_antisymm
  · by_contra less
    have below : Nat.clog 2 n.toNat ≤ (n.toNat - 1).log2 := by omega
    have covers := (Nat.clog_le_iff_le_pow Nat.one_lt_two).mp below
    have nonzero : n.toNat - 1 ≠ 0 := by omega
    have self := Nat.log2_self_le nonzero
    omega
  · apply Nat.clog_le_of_le_pow
    have above := Nat.lt_log2_self (n := n.toNat - 1)
    omega

theorem toNat_roundupPowOfTwo {n : UInt64} (positive : 0 < n.toNat)
    (small : n.toNat ≤ 2 ^ 63) : (roundupPowOfTwo n).toNat = 2 ^ Nat.clog 2 n.toNat := by
  unfold roundupPowOfTwo
  by_cases one : n = 1
  · rw [if_pos one, one]
    rfl
  · have large : 1 < n.toNat := by
      have different : n.toNat ≠ 1 := fun same => one (UInt64.toNat_inj.mp same)
      omega
    have amount := toNat_ilog64_pred large
    have bits : Nat.clog 2 n.toNat ≤ 63 := Nat.clog_le_of_le_pow small
    have shift : Nat.clog 2 n.toNat < 64 := Nat.lt_succ_of_le bits
    rw [if_neg one, UInt64.toNat_shiftLeft, amount, Nat.mod_eq_of_lt shift, UInt64.toNat_one,
      Nat.one_shiftLeft]
    exact Nat.mod_eq_of_lt (Nat.pow_lt_pow_right Nat.one_lt_two (by omega))

theorem roundupPowOfTwo_counter {n : UInt32} (positive : 0 < n.toNat)
    (small : n.toNat ≤ 2 ^ 31) :
    (roundupPowOfTwo n.toUInt64).toUInt32 = counter (2 ^ Nat.clog 2 n.toNat) := by
  have wide : n.toUInt64.toNat = n.toNat := UInt32.toNat_toUInt64 n
  rw [← UInt32.toNat_inj, UInt64.toNat_toUInt32,
    toNat_roundupPowOfTwo (by omega) (by omega), wide, toNat_counter]

theorem alignPower2_roundup {n : UInt32} (positive : 0 < n.toNat) (small : n.toNat ≤ 2 ^ 31) :
    alignPower2 (roundupPowOfTwo n.toUInt64).toUInt32 = counter (Nat.clog 2 n.toNat) := by
  have bits : Nat.clog 2 n.toNat ≤ 31 := Nat.clog_le_of_le_pow small
  rw [roundupPowOfTwo_counter positive small, alignPower2_pow (by omega)]

theorem align_pow {shift : Nat} (bounded : shift < 32) :
    (align ((1 : UInt32) <<< counter shift).toUInt64 cdmaHwPageSize.toUInt64).toUInt32 =
      counter (2 ^ max 12 shift) := by
  have value := toNat_one_shiftLeft bounded
  have sizes := Nat.pow_le_pow_right Nat.two_pos (Nat.le_of_lt_succ bounded)
  have sum : (((1 : UInt32) <<< counter shift).toUInt64 + 4096 - 1).toNat = 2 ^ shift + 4095 := by
    have shifted : ((1 : UInt32) <<< counter shift).toUInt64 + 4096 - 1 =
        ((1 : UInt32) <<< counter shift).toUInt64 + 4095 := by grind
    have small : 2 ^ shift + 4095 < 2 ^ 64 := by omega
    rw [shifted, UInt64.toNat_add, UInt32.toNat_toUInt64, value]
    exact Nat.mod_eq_of_lt small
  have low : 12 < 64 := by decide
  have masked := toNat_clear_low low (((1 : UInt32) <<< counter shift).toUInt64 + 4096 - 1)
  rw [sum] at masked
  have size : (2 ^ shift + 4095) / 2 ^ 12 * 2 ^ 12 = 2 ^ max 12 shift := by
    rcases Nat.le_total 12 shift with large | small
    · obtain ⟨rest, rfl⟩ := Nat.exists_eq_add_of_le large
      rw [Nat.max_eq_right large, Nat.pow_add]
      omega
    · have least := Nat.pow_le_pow_right Nat.two_pos small
      have positive := Nat.two_pow_pos shift
      rw [Nat.max_eq_left small]
      omega
  rw [← UInt32.toNat_inj, UInt64.toNat_toUInt32, toNat_counter, ← size]
  exact congrArg (· % 2 ^ 32) masked

theorem counter_pow_shiftRight {high low : Nat} (ordered : low ≤ high) (bounded : high < 32) :
    counter (2 ^ high) >>> counter low = counter (2 ^ (high - low)) := by
  have amount : (counter low).toNat % 32 = low := by
    rw [toNat_counter_of_lt (by omega), Nat.mod_eq_of_lt (by omega)]
  have whole : 2 ^ high < 2 ^ 32 := Nat.pow_lt_pow_right Nat.one_lt_two bounded
  have part : 2 ^ (high - low) < 2 ^ 32 := Nat.pow_lt_pow_right Nat.one_lt_two (by omega)
  rw [← UInt32.toNat_inj, UInt32.toNat_shiftRight, amount, toNat_counter_of_lt whole,
    toNat_counter_of_lt part, Nat.shiftRight_eq_div_pow, Nat.pow_div ordered (by decide)]

theorem bufferBytes_bounds {maxCnt entrySize : UInt32} (entry : 0 < entrySize.toNat)
    (fits : Nat.clog 2 maxCnt.toNat + Nat.clog 2 entrySize.toNat ≤ 31) :
    2 ^ Nat.clog 2 maxCnt.toNat * entrySize.toNat ≤ 2 ^ 31 ∧
      (counter (2 ^ Nat.clog 2 maxCnt.toNat) * entrySize).toNat =
        2 ^ Nat.clog 2 maxCnt.toNat * entrySize.toNat := by
  have bytes : 2 ^ Nat.clog 2 maxCnt.toNat * entrySize.toNat ≤ 2 ^ 31 := by
    apply (Nat.clog_le_iff_le_pow Nat.one_lt_two).mp
    rw [clog_pow_mul entry]
    exact fits
  refine ⟨bytes, ?_⟩
  rw [UInt32.toNat_mul, toNat_counter, Nat.mod_mul_mod]
  exact Nat.mod_eq_of_lt (by omega)

/-- What the machine arithmetic of a buffer comes to, for counts and entries
whose ceilings fit together in 31 bits. -/
theorem cdmaUQueueGeometry_eq (q : CdmaUJettyQueue) {maxCnt entrySize : UInt32}
    (some : 0 < maxCnt.toNat) (entry : 0 < entrySize.toNat) (byte : entrySize.toNat < 256)
    (fits : Nat.clog 2 maxCnt.toNat + Nat.clog 2 entrySize.toNat ≤ 31) :
    cdmaUQueueGeometry q maxCnt entrySize cdmaHwPageSize =
      { q with
        baseblkShift := counter (Nat.clog 2 entrySize.toNat)
        qbufSize := counter (2 ^ max 12 (Nat.clog 2 maxCnt.toNat + Nat.clog 2 entrySize.toNat))
        baseblkCnt := counter
          (2 ^ (max 12 (Nat.clog 2 maxCnt.toNat + Nat.clog 2 entrySize.toNat) -
            Nat.clog 2 entrySize.toNat))
        baseblkMask := counter
          (2 ^ (max 12 (Nat.clog 2 maxCnt.toNat + Nat.clog 2 entrySize.toNat) -
            Nat.clog 2 entrySize.toNat)) - 1 } := by
  have depth : Nat.clog 2 maxCnt.toNat ≤ 31 := by omega
  have small : entrySize.toNat ≤ 2 ^ 31 := by omega
  have shift : Nat.clog 2 maxCnt.toNat + Nat.clog 2 entrySize.toNat < 32 := by omega
  have count := roundupPowOfTwo_counter some ((Nat.clog_le_iff_le_pow Nat.one_lt_two).mp depth)
  have stride := alignPower2_roundup entry small
  obtain ⟨bytes, product⟩ := bufferBytes_bounds entry fits
  have buffer : alignPower2 (roundupPowOfTwo
      (counter (2 ^ Nat.clog 2 maxCnt.toNat) * entrySize).toUInt64).toUInt32 =
      counter (Nat.clog 2 maxCnt.toNat + Nat.clog 2 entrySize.toNat) := by
    rw [alignPower2_roundup, product, clog_pow_mul entry]
    · rw [product]
      exact Nat.mul_pos (Nat.two_pow_pos _) entry
    · rw [product]
      exact bytes
  unfold cdmaUQueueGeometry
  simp only [count, stride, buffer, align_pow shift]
  rw [counter_pow_shiftRight (by omega) (by omega)]

/-- A buffer of whole pages that holds a power of two of blocks, each the least
power of two that takes an entry, and in which every index finds a block by its
residue. -/
structure Blocked (q : CdmaUJettyQueue) (maxCnt entrySize : UInt32) : Prop where
  holds_entry : entrySize.toNat ≤ 2 ^ q.baseblkShift.toNat
  least : ∀ shift, entrySize.toNat ≤ 2 ^ shift → q.baseblkShift.toNat ≤ shift
  pow : ∃ shift, q.baseblkCnt.toNat = 2 ^ shift
  holds_all : maxCnt ≤ q.baseblkCnt
  mask_eq : q.baseblkMask = q.baseblkCnt - 1
  size_eq : q.qbufSize.toNat = q.baseblkCnt.toNat * 2 ^ q.baseblkShift.toNat
  pages : 4096 ∣ q.qbufSize.toNat
  address_eq : ∀ n, cdmaUGetBufEntry q n =
    q.qbuf + (n &&& q.baseblkMask).toNat * 2 ^ q.baseblkShift.toNat
  inside : ∀ n, cdmaUGetBufEntry q n + 2 ^ q.baseblkShift.toNat ≤ q.qbuf + q.qbufSize.toNat
  same_iff : ∀ left right, cdmaUGetBufEntry q left = cdmaUGetBufEntry q right ↔
    left.toNat ≡ right.toNat [MOD q.baseblkCnt.toNat]
  same_counter_iff : ∀ left right, cdmaUGetBufEntry q (counter left) =
      cdmaUGetBufEntry q (counter right) ↔ left ≡ right [MOD q.baseblkCnt.toNat]

theorem CqGeometry.entry_bounds {q : CdmaUJettyQueue} {shift stride : Nat}
    (geometry : CqGeometry q shift stride) (n : UInt32) :
    cdmaUGetBufEntry q n = q.qbuf + (n &&& q.baseblkMask).toNat * 2 ^ q.baseblkShift.toNat ∧
      cdmaUGetBufEntry q n + 2 ^ stride ≤ q.qbuf + 2 ^ (shift + stride) := by
  have slot : cdmaUGetBufEntry q n = q.qbuf + n.toNat % 2 ^ shift * 2 ^ stride := by
    rw [← counter_toNat n, cdmaUGetBufEntry_counter geometry, counter_toNat]
    unfold CdmaUJettyQueue.slotAddress
    rw [geometry.stride_toNat]
  have masked : (n &&& q.baseblkMask).toNat = n.toNat % 2 ^ shift := by
    rw [geometry.mask_counter, toNat_and_mask (Nat.le_of_lt geometry.shift_lt)]
  have below := Nat.mod_lt n.toNat (Nat.two_pow_pos shift)
  refine ⟨by rw [slot, masked, geometry.stride_toNat], ?_⟩
  rw [slot, Nat.add_assoc, Nat.pow_add, ← Nat.succ_mul]
  exact Nat.add_le_add_left (Nat.mul_le_mul_right _ below) _

theorem CqGeometry.entry_eq_iff {q : CdmaUJettyQueue} {shift stride : Nat}
    (geometry : CqGeometry q shift stride) (left right : Nat) :
    cdmaUGetBufEntry q (counter left) = cdmaUGetBufEntry q (counter right) ↔
      left ≡ right [MOD 2 ^ shift] := by
  rw [cdmaUGetBufEntry_counter geometry, cdmaUGetBufEntry_counter geometry]
  exact q.slotAddress_injective.eq_iff

theorem CqGeometry.blocked {q : CdmaUJettyQueue} {shift stride : Nat}
    (geometry : CqGeometry q shift stride) {maxCnt entrySize : UInt32}
    (size : q.qbufSize = counter (2 ^ (shift + stride))) (page : 12 ≤ shift + stride)
    (enough : maxCnt.toNat ≤ 2 ^ shift) (covers : entrySize.toNat ≤ 2 ^ stride)
    (least : ∀ other, entrySize.toNat ≤ 2 ^ other → stride ≤ other) :
    Blocked q maxCnt entrySize := by
  have sizeValue : q.qbufSize.toNat = 2 ^ (shift + stride) := by
    rw [size, toNat_counter_of_lt]
    exact Nat.pow_lt_pow_right Nat.one_lt_two (Nat.lt_succ_of_le geometry.exponents)
  constructor
  · rw [geometry.stride_toNat]
    exact covers
  · rw [geometry.stride_toNat]
    exact least
  · exact ⟨shift, geometry.cnt_toNat⟩
  · rw [UInt32.le_iff_toNat_le, geometry.cnt_toNat]
    exact enough
  · exact geometry.mask_eq
  · rw [sizeValue, geometry.cnt_toNat, geometry.stride_toNat, Nat.pow_add]
  · rw [sizeValue]
    exact Nat.pow_dvd_pow 2 page
  · exact fun n => (geometry.entry_bounds n).1
  · intro n
    rw [sizeValue, geometry.stride_toNat]
    exact (geometry.entry_bounds n).2
  · intro left right
    have same := geometry.entry_eq_iff left.toNat right.toNat
    rw [counter_toNat, counter_toNat] at same
    rw [geometry.cnt_toNat]
    exact same
  · intro left right
    rw [geometry.cnt_toNat]
    exact geometry.entry_eq_iff left right

/-- The machine arithmetic of a buffer that fits in 31 bits is exact. -/
theorem cdmaUAllocQueueBuf_blocked {env : QueueBufEnv} {memory after : Memory}
    {q made : CdmaUJettyQueue} {maxCnt entrySize : UInt32} {wridEn : Bool}
    (some : 0 < maxCnt) (entry : 0 < entrySize) (byte : entrySize < 256)
    (fits : (roundupPowOfTwo maxCnt.toUInt64).toNat *
      (roundupPowOfTwo entrySize.toUInt64).toNat ≤ 2 ^ 31)
    (allocated : cdmaUAllocQueueBuf env memory q maxCnt entrySize cdmaHwPageSize wridEn =
      .ok (made, after)) : Blocked made maxCnt entrySize := by
  rw [UInt32.lt_iff_toNat_lt] at some entry byte
  have exponents : Nat.clog 2 maxCnt.toNat + Nat.clog 2 entrySize.toNat ≤ 31 := by
    have bounded := maxCnt.toNat_lt
    rw [toNat_roundupPowOfTwo (by rw [UInt32.toNat_toUInt64]; exact some)
        (by rw [UInt32.toNat_toUInt64]; omega),
      toNat_roundupPowOfTwo (by rw [UInt32.toNat_toUInt64]; exact entry)
        (by rw [UInt32.toNat_toUInt64]; exact Nat.le_trans (Nat.le_of_lt byte) (by decide)),
      UInt32.toNat_toUInt64, UInt32.toNat_toUInt64, ← Nat.pow_add] at fits
    exact (Nat.pow_le_pow_iff_right Nat.one_lt_two).mp fits
  obtain ⟨wrid, buf, rfl, _⟩ := cdmaUAllocQueueBuf_ok allocated
  rw [cdmaUQueueGeometry_eq _ some entry byte exponents]
  have enough := Nat.le_pow_clog Nat.one_lt_two maxCnt.toNat
  have covers := Nat.le_pow_clog Nat.one_lt_two entrySize.toNat
  have least (shift : Nat) (reaches : entrySize.toNat ≤ 2 ^ shift) :
      Nat.clog 2 entrySize.toNat ≤ shift := Nat.clog_le_of_le_pow reaches
  generalize Nat.clog 2 maxCnt.toNat = count at exponents enough ⊢
  generalize Nat.clog 2 entrySize.toNat = stride at exponents covers least ⊢
  obtain ⟨shift, sum⟩ : ∃ shift, shift + stride = max 12 (count + stride) :=
    ⟨max 12 (count + stride) - stride, by omega⟩
  have room : maxCnt.toNat ≤ 2 ^ shift :=
    Nat.le_trans enough (Nat.pow_le_pow_right Nat.two_pos (by omega))
  have bytes : 2 ^ shift * 2 ^ stride ≤ 2 ^ 31 := by
    rw [← Nat.pow_add]
    exact Nat.pow_le_pow_right Nat.two_pos (by omega)
  rw [← sum, Nat.add_sub_cancel]
  exact CqGeometry.blocked ⟨rfl, rfl, rfl, bytes⟩ rfl (by omega) room covers least

def Memory.zeroed : Memory :=
  { byte := fun _ => 0, cqe := fun _ => .zeroed, queue := fun _ => .zeroed, word := fun _ => 0 }

/-- Three entries of 48 bytes fill a page with blocks of 64. -/
theorem cdmaUAllocQueueBuf_blocked_page :
    ∃ made after, cdmaUAllocQueueBuf ⟨none, some 8192⟩ .zeroed .zeroed 3 48
        cdmaHwPageSize false = .ok (made, after) ∧ Blocked made 3 48 :=
  ⟨_, _, rfl, cdmaUAllocQueueBuf_blocked (by decide) (by decide) (by decide) (by decide)
    (rfl : cdmaUAllocQueueBuf ⟨none, some 8192⟩ .zeroed .zeroed 3 48
      cdmaHwPageSize false = .ok (_, _))⟩

/-! ### Send queues -/

theorem toNat_cdmaSqCalWqebbNum {ctlLen sgeNum : UInt32} (header : 16 ≤ ctlLen.toNat)
    (short : ctlLen.toNat < 2 ^ 16) (few : sgeNum.toNat < 2 ^ 16) :
    (cdmaSqCalWqebbNum ctlLen sgeNum cdmaJfsWqebb).toNat =
      (ctlLen.toNat - 16 + sgeNum.toNat * 16) / 64 + 1 := by
  have shifted : ctlLen + (sgeNum - 1) * cdmaSgeSize = (ctlLen - 16) + sgeNum * 16 := by
    unfold cdmaSgeSize
    grind
  have less : (ctlLen - 16).toNat = ctlLen.toNat - 16 :=
    UInt32.toNat_sub_of_le _ _ (UInt32.le_iff_toNat_le.mpr header)
  have segments : (sgeNum * 16).toNat = sgeNum.toNat * 16 := by
    have bytes : sgeNum.toNat * 16 < 2 ^ 32 := by omega
    rw [UInt32.toNat_mul]
    exact Nat.mod_eq_of_lt bytes
  have total : (ctlLen - 16 + sgeNum * 16).toNat = ctlLen.toNat - 16 + sgeNum.toNat * 16 := by
    rw [UInt32.toNat_add, less, segments]
    exact Nat.mod_eq_of_lt (by omega)
  have blocks : (ctlLen.toNat - 16 + sgeNum.toNat * 16) / 64 + 1 < 2 ^ 32 := by omega
  unfold cdmaSqCalWqebbNum
  rw [shifted, UInt32.toNat_add, UInt32.toNat_div, total]
  exact Nat.mod_eq_of_lt blocks

theorem toNat_sqeBbCnt (cfg : DmaJfsCfg) :
    (sqeBbCnt cfg).toNat = min 4 ((64 + cfg.maxSge.toNat * 16) / 64 + 1) := by
  have segments := cfg.maxSge.toNat_lt
  have wide : cfg.maxSge.toUInt32.toNat = cfg.maxSge.toNat := UInt8.toNat_toUInt32 _
  have count : (cdmaSqCalWqebbNum sqeWriteNotifyCtlLen cfg.maxSge.toUInt32 cdmaJfsWqebb).toNat =
      (64 + cfg.maxSge.toNat * 16) / 64 + 1 := by
    rw [toNat_cdmaSqCalWqebbNum (by decide) (by decide) (by omega), wide]
    rfl
  unfold sqeBbCnt
  simp only
  split
  · rename_i more
    rw [gt_iff_lt, UInt32.lt_iff_toNat_lt, count] at more
    exact (Nat.min_eq_left (Nat.le_of_lt more)).symm
  · rename_i less
    rw [gt_iff_lt, UInt32.lt_iff_toNat_lt, count, Nat.not_lt] at less
    rw [count]
    exact (Nat.min_eq_right less).symm

theorem sqeBbCnt_bounds (cfg : DmaJfsCfg) :
    2 ≤ (sqeBbCnt cfg).toNat ∧ (sqeBbCnt cfg).toNat ≤ 4 := by
  rw [toNat_sqeBbCnt]
  omega

/-- The ring of a new send queue, when its blocks are at most `2 ^ 25`. -/
theorem cdmaUCreateSq_ring {lock : Bool} {env : QueueBufEnv} {memory after : Memory}
    {sq made : CdmaUJettyQueue} {cfg : DmaJfsCfg} (some : 0 < cfg.depth.toNat)
    (fits : (sqeBbCnt cfg).toNat * cfg.depth.toNat ≤ 2 ^ 25)
    (created : cdmaUCreateSq lock env memory sq cfg = .ok (made, after)) :
    SqAt (max 6 (Nat.clog 2 ((sqeBbCnt cfg).toNat * cfg.depth.toNat))) made 0 0 ∧
      made.maxSgeNum = cfg.maxSge.toUInt32 ∧ made.sqeBbCnt = sqeBbCnt cfg := by
  have bounds := sqeBbCnt_bounds cfg
  have blocks : 0 < (sqeBbCnt cfg).toNat * cfg.depth.toNat := Nat.mul_pos (by omega) some
  have product : (sqeBbCnt cfg * cfg.depth).toNat = (sqeBbCnt cfg).toNat * cfg.depth.toNat := by
    rw [UInt32.toNat_mul]
    exact Nat.mod_eq_of_lt (by omega)
  have ceiling : Nat.clog 2 ((sqeBbCnt cfg).toNat * cfg.depth.toNat) ≤ 25 :=
    Nat.clog_le_of_le_pow fits
  have depth : (roundupPowOfTwo (sqeBbCnt cfg * cfg.depth).toUInt64).toUInt32 =
      counter (2 ^ Nat.clog 2 ((sqeBbCnt cfg).toNat * cfg.depth.toNat)) := by
    rw [roundupPowOfTwo_counter, product]
    · rw [product]
      exact blocks
    · rw [product]
      omega
  have entry : Nat.clog 2 cdmaJfsWqebb.toNat = 6 := Nat.clog_pow 2 6 Nat.one_lt_two
  generalize Nat.clog 2 ((sqeBbCnt cfg).toNat * cfg.depth.toNat) = shift at ceiling depth ⊢
  have small : 2 ^ shift ≤ 2 ^ 25 := Nat.pow_le_pow_right Nat.two_pos ceiling
  have count : (counter (2 ^ shift)).toNat = 2 ^ shift := toNat_counter_of_lt (by omega)
  have shifts : Nat.clog 2 (counter (2 ^ shift)).toNat = shift := by
    rw [count, Nat.clog_pow _ _ Nat.one_lt_two]
  unfold cdmaUCreateSq at created
  cases lock with
  | false => cases created
  | true =>
      simp only [Bool.not_true, Bool.false_eq_true, if_false, depth] at created
      split at created
      · cases created
      · rename_i allocated
        cases created
        obtain ⟨wrid, buf, rfl, _⟩ := cdmaUAllocQueueBuf_ok allocated
        rw [cdmaUQueueGeometry_eq _ (by rw [count]; exact Nat.two_pow_pos _) (by decide)
          (by decide) (by rw [shifts, entry]; omega), shifts, entry]
        have bytes : 2 ^ max 12 (shift + 6) = 2 ^ max 6 shift * 64 := by
          rw [← Nat.pow_add 2 (max 6 shift) 6]
          congr 1
          omega
        have exponent : max 12 (shift + 6) - 6 = max 6 shift := by omega
        rw [bytes, exponent]
        exact ⟨⟨⟨rfl, rfl, rfl, rfl, by omega⟩, rfl, rfl, Nat.le_refl 0, Nat.zero_le _,
          by rw [Nat.zero_mod, Nat.zero_mul]; rfl⟩, rfl, rfl⟩

theorem cdmaUCreateJfs_ok {env : CreateJfsEnv} {memory after : Memory} {ctx : Option DmaContext}
    {cfg : DmaJfsCfg} {made : CdmaUJettyQueue}
    (created : cdmaUCreateJfs env memory ctx (some cfg) = (some made, after)) :
    ∃ dev tid sq id, ctx = some ⟨some dev, tid⟩ ∧ cdmaVerifyJfsParam dev.devCap cfg = none ∧
      cdmaUCreateSq env.lock env.queueBuf memory .zeroed cfg = .ok (sq, after) ∧
      made = { sq with idx := id } := by
  unfold cdmaUCreateJfs at created
  split at created
  · rename_i dev tid _ same
    cases same
    split at created
    · cases created
    · rename_i refused
      split at created
      · cases created
      · rename_i sq memory built
        split at created
        · rename_i id _ _
          cases created
          have admitted : cdmaVerifyJfsParam dev.devCap cfg = none := by
            rw [Bool.or_eq_true, not_or, Bool.not_eq_true, Option.isSome_eq_false_iff,
              Option.isNone_iff_eq_none] at refused
            exact refused.1
          exact ⟨dev, tid, sq, id, rfl, admitted, built, rfl⟩
        · cases created
  · cases created

theorem cdmaVerifyJfsParam_depth {cap : CdmaDeviceCap} {cfg : DmaJfsCfg}
    (admitted : cdmaVerifyJfsParam cap cfg = none) : 0 < cfg.depth.toNat := by
  unfold cdmaVerifyJfsParam at admitted
  split at admitted
  · cases admitted
  · rename_i valid
    apply Nat.pos_of_ne_zero
    intro none
    exact valid (.inl (UInt32.toNat_inj.mp none))

def sqShift (cfg : DmaJfsCfg) : Nat :=
  max 6 (Nat.clog 2 ((sqeBbCnt cfg).toNat * cfg.depth.toNat))

theorem cdmaUCreateJfs_ring {env : CreateJfsEnv} {memory after : Memory}
    {ctx : Option DmaContext} {cfg : DmaJfsCfg} {made : CdmaUJettyQueue}
    (fits : (sqeBbCnt cfg).toNat * cfg.depth.toNat ≤ 2 ^ 25)
    (created : cdmaUCreateJfs env memory ctx (some cfg) = (some made, after)) :
    SqAt (sqShift cfg) made 0 0 ∧ made.maxSgeNum = cfg.maxSge.toUInt32 := by
  obtain ⟨_, _, sq, id, _, admitted, built, rfl⟩ := cdmaUCreateJfs_ok created
  obtain ⟨ring, sges, _⟩ := cdmaUCreateSq_ring (cdmaVerifyJfsParam_depth admitted) fits built
  have geometry := ring.geometry
  exact ⟨⟨⟨geometry.cnt_eq, geometry.mask_eq, geometry.shift_eq, geometry.size_eq,
    geometry.small⟩, ring.ci_eq, ring.pi_eq, ring.ordered, ring.room, ring.curr_eq⟩, sges⟩

def CreateJfsEnv.granting : CreateJfsEnv :=
  { calloc := true, lock := true, queueBuf := { wrid := some fun _ => 0, buf := some 8192 }
    id := some 1, db := true }

def DmaContext.ofDepth (depth : UInt32) : DmaContext :=
  { dmaDev := some
      { fd := 3
        devCap := { maxJfcDepth := depth, maxJfsDepth := depth, maxJfsSge := 1, ceqCnt := 1 } }
    tid := 0 }

def DmaJfsCfg.ofDepth (depth : UInt32) : DmaJfsCfg :=
  { depth := depth, maxSge := 1, jfc := some 0 }

def CdmaUJettyQueue.depthTwo : CdmaUJettyQueue :=
  { qbuf := 8192, qbufSize := 4096, qbufCurr := 8192, pi := 0, ci := 0, idx := 1
    baseblkShift := 6, baseblkCnt := 64, baseblkMask := 63, wrid := fun _ => 0, sqeBbCnt := 2
    maxSgeNum := 1, flushFlag := false }

theorem cdmaUCreateJfs_depthTwo :
    cdmaUCreateJfs .granting .zeroed (some (.ofDepth 2)) (some (.ofDepth 2)) =
      (some .depthTwo, Memory.zeroed.mapFresh 8192 4096) := rfl

end Libcdma
