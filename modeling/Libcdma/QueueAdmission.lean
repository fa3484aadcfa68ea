/-
What admission leaves open about the sizes of a queue.

The only guard is the comparison with the device's capability.  Sizing is in
range, and the ring as large as asked for, exactly when the rounded count and the
rounded entry size together take at most 31 bits.
-/

import Libcdma.QueueGeometry

namespace Libcdma

open WrapCounter

/-- `roundup_pow_of_two`, stored in a 32-bit word, shifts by less than the width
and loses nothing. -/
structure RoundupInRange (n : UInt64) : Prop where
  shift : n = 1 ∨ (ilog64 (n - 1)).toNat < 64
  word : (roundupPowOfTwo n).toNat < 2 ^ 32

structure QueueBufInRange (maxCnt entrySize : UInt32) : Prop where
  count : RoundupInRange maxCnt.toUInt64
  product : (roundupPowOfTwo maxCnt.toUInt64).toUInt32.toNat * entrySize.toNat < 2 ^ 32
  size : RoundupInRange
    ((roundupPowOfTwo maxCnt.toUInt64).toUInt32 * entrySize).toUInt64
  entry : RoundupInRange entrySize.toUInt64
  sizeShift : (alignPower2 (roundupPowOfTwo
    ((roundupPowOfTwo maxCnt.toUInt64).toUInt32 * entrySize).toUInt64).toUInt32).toNat < 32
  entryShift : (alignPower2 (roundupPowOfTwo entrySize.toUInt64).toUInt32).toNat < 32

structure SqInRange (cfg : DmaJfsCfg) : Prop where
  segments : (cfg.maxSge.toUInt32 - 1).toNat * cdmaSgeSize.toNat < 2 ^ 32
  product : (sqeBbCnt cfg).toNat * cfg.depth.toNat < 2 ^ 32
  depth : RoundupInRange (sqeBbCnt cfg * cfg.depth).toUInt64
  buf : QueueBufInRange (roundupPowOfTwo (sqeBbCnt cfg * cfg.depth).toUInt64).toUInt32 cdmaJfsWqebb

def DmaJfcCfg.ringDepth (cfg : DmaJfcCfg) : UInt32 :=
  if cfg.depth < cdmaUMinJfcDepth then cdmaUMinJfcDepth else cfg.depth

/-- Nothing goes out of range, and an allocated ring has an entry for each block asked for. -/
structure SqSized (cfg : DmaJfsCfg) : Prop where
  range : SqInRange cfg
  ring : ∀ {lock : Bool} {env : QueueBufEnv} {memory after : Memory} {sq made : CdmaUJettyQueue},
    cdmaUCreateSq lock env memory sq cfg = .ok (made, after) →
    (sqeBbCnt cfg).toNat * cfg.depth.toNat ≤ made.baseblkCnt.toNat

structure JfcSized (cqeSize : UInt8) (cfg : DmaJfcCfg) : Prop where
  range : QueueBufInRange cfg.ringDepth cqeSize.toUInt32
  ring : ∀ {fuel : Nat} {env : CreateJfcEnv} {host after : Host} {jfc made : CdmaUJfc},
    host.ctx.cqeSize = cqeSize →
    cdmaUAllocJfcBuf fuel env host cfg jfc = some (.ok made, after) →
    max cfg.depth.toNat 64 ≤ made.cq.baseblkCnt.toNat

theorem roundupInRange_iff (n : UInt32) :
    RoundupInRange n.toUInt64 ↔ 0 < n.toNat ∧ n.toNat ≤ 2 ^ 31 := by
  have wide : n.toUInt64.toNat = n.toNat := UInt32.toNat_toUInt64 n
  have bounded := n.toNat_lt
  constructor
  · intro range
    have positive : 0 < n.toNat := by
      by_contra none
      have zero : n = 0 := UInt32.toNat_inj.mp (by rw [UInt32.toNat_zero]; omega)
      subst zero
      rcases range.shift with one | less
      · exact absurd one (by decide)
      · exact absurd less (by decide)
    have word := range.word
    rw [toNat_roundupPowOfTwo (by omega) (by omega), wide] at word
    have bits := (Nat.pow_lt_pow_iff_right Nat.one_lt_two).mp word
    exact ⟨positive, (Nat.clog_le_iff_le_pow Nat.one_lt_two).mp (Nat.le_of_lt_succ bits)⟩
  · rintro ⟨positive, small⟩
    have bits : Nat.clog 2 n.toNat ≤ 31 := Nat.clog_le_of_le_pow small
    constructor
    · rcases Nat.lt_or_ge 1 n.toNat with large | least
      · right
        rw [toNat_ilog64_pred (by omega), wide]
        omega
      · left
        rw [← UInt64.toNat_inj, wide, UInt64.toNat_one]
        omega
    · rw [toNat_roundupPowOfTwo (by omega) (by omega), wide]
      exact Nat.pow_lt_pow_right Nat.one_lt_two (by omega)

theorem queueBufInRange_iff (maxCnt : UInt32) {entrySize : UInt32} (entry : 0 < entrySize.toNat)
    (byte : entrySize.toNat < 256) :
    QueueBufInRange maxCnt entrySize ↔
      0 < maxCnt.toNat ∧ Nat.clog 2 maxCnt.toNat + Nat.clog 2 entrySize.toNat ≤ 31 := by
  have positive := Nat.mul_pos (Nat.two_pow_pos (Nat.clog 2 maxCnt.toNat)) entry
  constructor
  · intro range
    obtain ⟨some, small⟩ := (roundupInRange_iff maxCnt).mp range.count
    have bits : Nat.clog 2 maxCnt.toNat ≤ 31 := Nat.clog_le_of_le_pow small
    have powers := Nat.pow_le_pow_right Nat.two_pos bits
    have product := range.product
    have size := range.size
    rw [roundupPowOfTwo_counter some small, toNat_counter_of_lt (by omega)] at product
    rw [roundupPowOfTwo_counter some small, roundupInRange_iff, UInt32.toNat_mul,
      toNat_counter_of_lt (by omega), Nat.mod_eq_of_lt product] at size
    have both : Nat.clog 2 (2 ^ Nat.clog 2 maxCnt.toNat * entrySize.toNat) ≤ 31 :=
      Nat.clog_le_of_le_pow size.2
    rw [clog_pow_mul entry] at both
    exact ⟨some, both⟩
  · rintro ⟨some, both⟩
    have small : maxCnt.toNat ≤ 2 ^ 31 :=
      (Nat.clog_le_iff_le_pow Nat.one_lt_two).mp (by omega)
    have depth : Nat.clog 2 maxCnt.toNat ≤ 31 := by omega
    have powers := Nat.pow_le_pow_right Nat.two_pos depth
    obtain ⟨bytes, product⟩ := bufferBytes_bounds entry both
    have count := roundupPowOfTwo_counter some small
    constructor
    · exact (roundupInRange_iff _).mpr ⟨some, small⟩
    · rw [count, toNat_counter_of_lt (by omega)]
      omega
    · rw [count, roundupInRange_iff, product]
      exact ⟨positive, bytes⟩
    · exact (roundupInRange_iff _).mpr ⟨entry, by omega⟩
    · rw [count, alignPower2_roundup (by rw [product]; exact positive) (by rw [product]; exact bytes),
        product, clog_pow_mul entry, toNat_counter_of_lt (by omega)]
      omega
    · rw [alignPower2_roundup entry (by omega), toNat_counter_of_lt (by omega)]
      omega

theorem sqInRange_iff {cfg : DmaJfsCfg} (some : 0 < cfg.depth.toNat) :
    SqInRange cfg ↔
      0 < cfg.maxSge.toNat ∧ (sqeBbCnt cfg).toNat * cfg.depth.toNat ≤ 2 ^ 25 := by
  have least := (sqeBbCnt_bounds cfg).1
  have positive : 0 < (sqeBbCnt cfg).toNat * cfg.depth.toNat := Nat.mul_pos (by omega) some
  have entry : Nat.clog 2 cdmaJfsWqebb.toNat = 6 := Nat.clog_pow 2 6 Nat.one_lt_two
  have block : 0 < cdmaJfsWqebb.toNat := by decide
  have buf (maxCnt : UInt32) := queueBufInRange_iff maxCnt block (by decide)
  have segments : (cfg.maxSge.toUInt32 - 1).toNat * cdmaSgeSize.toNat < 2 ^ 32 ↔
      0 < cfg.maxSge.toNat := by
    have byte := cfg.maxSge.toNat_lt
    rw [UInt32.toNat_sub, UInt8.toNat_toUInt32]
    change (2 ^ 32 - 1 + cfg.maxSge.toNat) % 2 ^ 32 * 16 < 2 ^ 32 ↔ _
    omega
  have rounded (small : (sqeBbCnt cfg).toNat * cfg.depth.toNat ≤ 2 ^ 31) :
      (sqeBbCnt cfg * cfg.depth).toNat = (sqeBbCnt cfg).toNat * cfg.depth.toNat ∧
      (roundupPowOfTwo (sqeBbCnt cfg * cfg.depth).toUInt64).toUInt32.toNat =
        2 ^ Nat.clog 2 ((sqeBbCnt cfg).toNat * cfg.depth.toNat) := by
    have product : (sqeBbCnt cfg * cfg.depth).toNat =
        (sqeBbCnt cfg).toNat * cfg.depth.toNat := by
      rw [UInt32.toNat_mul]
      exact Nat.mod_eq_of_lt (by omega)
    have bits : Nat.clog 2 ((sqeBbCnt cfg).toNat * cfg.depth.toNat) ≤ 31 :=
      Nat.clog_le_of_le_pow small
    refine ⟨product, ?_⟩
    rw [roundupPowOfTwo_counter (by omega) (by omega), product, toNat_counter_of_lt]
    exact Nat.pow_lt_pow_right Nat.one_lt_two (by omega)
  constructor
  · intro range
    refine ⟨segments.mp range.segments, ?_⟩
    have product := range.product
    have depth := (roundupInRange_iff _).mp range.depth
    rw [UInt32.toNat_mul, Nat.mod_eq_of_lt product] at depth
    have fits := ((buf _).mp range.buf).2
    rw [(rounded depth.2).2, Nat.clog_pow _ _ Nat.one_lt_two, entry] at fits
    exact (Nat.clog_le_iff_le_pow Nat.one_lt_two).mp (by omega)
  · rintro ⟨someSge, small⟩
    obtain ⟨product, count⟩ := rounded (by omega)
    have bits : Nat.clog 2 ((sqeBbCnt cfg).toNat * cfg.depth.toNat) ≤ 25 :=
      Nat.clog_le_of_le_pow small
    constructor
    · exact segments.mpr someSge
    · omega
    · rw [roundupInRange_iff, product]
      omega
    · rw [buf, count, Nat.clog_pow _ _ Nat.one_lt_two, entry]
      exact ⟨Nat.two_pow_pos _, by omega⟩

theorem sqSized_iff {cap : CdmaDeviceCap} {cfg : DmaJfsCfg}
    (admitted : cdmaVerifyJfsParam cap cfg = none) :
    SqSized cfg ↔ 0 < cfg.maxSge.toNat ∧ (sqeBbCnt cfg).toNat * cfg.depth.toNat ≤ 2 ^ 25 := by
  have some := cdmaVerifyJfsParam_depth admitted
  constructor
  · intro sized
    exact (sqInRange_iff some).mp sized.range
  · intro fits
    refine ⟨(sqInRange_iff some).mpr fits, ?_⟩
    intro lock env memory after sq made created
    rw [(cdmaUCreateSq_ring some fits.2 created).1.geometry.cnt_toNat]
    exact (Nat.le_pow_clog Nat.one_lt_two _).trans
      (Nat.pow_le_pow_right Nat.two_pos (Nat.le_max_right _ _))

theorem toNat_ringDepth (cfg : DmaJfcCfg) : cfg.ringDepth.toNat = max cfg.depth.toNat 64 := by
  unfold DmaJfcCfg.ringDepth
  split
  · rename_i less
    rw [UInt32.lt_iff_toNat_lt] at less
    exact (Nat.max_eq_right (Nat.le_of_lt less)).symm
  · rename_i more
    rw [UInt32.lt_iff_toNat_lt, Nat.not_lt] at more
    exact (Nat.max_eq_left more).symm

theorem cdmaUAllocJfcBuf_ok {fuel : Nat} {env : CreateJfcEnv} {host after : Host}
    {cfg : DmaJfcCfg} {jfc made : CdmaUJfc}
    (allocated : cdmaUAllocJfcBuf fuel env host cfg jfc = some (.ok made, after)) :
    ∃ memory, cdmaUAllocQueueBuf env.queueBuf host.memory jfc.cq cfg.ringDepth
        host.ctx.cqeSize.toUInt32 cdmaHwPageSize false = .ok (made.cq, memory) ∧
      cdmaUAllocSwDb fuel env.dbPage { host with memory := memory } =
        some (some made.swDb, after) := by
  unfold cdmaUAllocJfcBuf at allocated
  have depth : (if cfg.depth < cdmaUMinJfcDepth then cdmaUMinJfcDepth else cfg.depth) =
      cfg.ringDepth := rfl
  simp only [depth] at allocated
  split at allocated
  · cases allocated
  · rename_i cq memory mapped
    split at allocated
    · cases allocated
    · cases allocated
    · rename_i doorbell
      cases allocated
      exact ⟨memory, mapped, doorbell⟩

theorem jfcSized_iff {cqeSize : UInt8} {cfg : DmaJfcCfg} (some : cqeSize ≠ 0) :
    JfcSized cqeSize cfg ↔
      Nat.clog 2 (max cfg.depth.toNat 64) + Nat.clog 2 cqeSize.toNat ≤ 31 := by
  have byte := cqeSize.toNat_lt
  have entry : 0 < cqeSize.toUInt32.toNat := by
    rw [UInt8.toNat_toUInt32]
    exact Nat.pos_of_ne_zero fun none => some (UInt8.toNat_inj.mp none)
  have small : cqeSize.toUInt32.toNat < 256 := by
    rw [UInt8.toNat_toUInt32]
    exact byte
  have range := queueBufInRange_iff cfg.ringDepth entry small
  rw [toNat_ringDepth, UInt8.toNat_toUInt32] at range
  constructor
  · intro sized
    exact (range.mp sized.range).2
  · intro fits
    refine ⟨range.mpr ⟨by omega, fits⟩, ?_⟩
    intro fuel env host after jfc made entries allocated
    obtain ⟨memory, mapped, _⟩ := cdmaUAllocJfcBuf_ok allocated
    obtain ⟨wrid, buf, made_eq, _⟩ := cdmaUAllocQueueBuf_ok mapped
    rw [entries] at made_eq
    rw [made_eq, cdmaUQueueGeometry_eq _ (by rw [toNat_ringDepth]; omega) entry small
      (by rw [toNat_ringDepth, UInt8.toNat_toUInt32]; exact fits), toNat_ringDepth,
      UInt8.toNat_toUInt32]
    have covers := Nat.le_pow_clog Nat.one_lt_two (max cfg.depth.toNat 64)
    generalize Nat.clog 2 (max cfg.depth.toNat 64) = count at fits covers
    generalize Nat.clog 2 cqeSize.toNat = stride at fits
    have cnt : 2 ^ (max 12 (count + stride) - stride) < 2 ^ 32 :=
      Nat.pow_lt_pow_right Nat.one_lt_two (by omega)
    change _ ≤ (counter (2 ^ (max 12 (count + stride) - stride))).toNat
    rw [toNat_counter_of_lt cnt]
    exact covers.trans (Nat.pow_le_pow_right Nat.two_pos (by omega))

/-- For an admitted send queue, and for any completion queue, the sizes come out
right exactly when they fit: `2 ^ 25` blocks, and 31 bits of count and entry. -/
theorem cdmaUAllocQueueBuf_sized {cap : CdmaDeviceCap} {jfsCfg : DmaJfsCfg}
    (admitted : cdmaVerifyJfsParam cap jfsCfg = none) (jfcCfg : DmaJfcCfg) {cqeSize : UInt8}
    (entry : cqeSize ≠ 0) :
    (SqSized jfsCfg ↔
      0 < jfsCfg.maxSge.toNat ∧ (sqeBbCnt jfsCfg).toNat * jfsCfg.depth.toNat ≤ 2 ^ 25) ∧
    (JfcSized cqeSize jfcCfg ↔
      Nat.clog 2 (max jfcCfg.depth.toNat 64) + Nat.clog 2 cqeSize.toNat ≤ 31) :=
  ⟨sqSized_iff admitted, jfcSized_iff entry⟩

theorem cdmaUAllocQueueBuf_sized_depthTwo :
    (SqSized (.ofDepth 2) ↔ 0 < (DmaJfsCfg.ofDepth 2).maxSge.toNat ∧
      (sqeBbCnt (.ofDepth 2)).toNat * (DmaJfsCfg.ofDepth 2).depth.toNat ≤ 2 ^ 25) ∧
    (JfcSized 64 { depth := 2, ceqn := 0, jfce := none, queueId := 0 } ↔
      Nat.clog 2 (max 2 64) + Nat.clog 2 64 ≤ 31) :=
  have admitted : cdmaVerifyJfsParam ⟨2, 2, 1, 1⟩ (.ofDepth 2) = none := by decide
  cdmaUAllocQueueBuf_sized admitted _ (by decide)

/-- A queue for 33554432 requests of two blocks gets a ring of 64 blocks. -/
theorem cdmaUCreateSq_wraps :
    cdmaVerifyJfsParam ⟨33554432, 33554432, 1, 1⟩ (.ofDepth 33554432) = none ∧
    (sqeBbCnt (.ofDepth 33554432)).toNat * (DmaJfsCfg.ofDepth 33554432).depth.toNat = 67108864 ∧
    ∃ made after, cdmaUCreateSq true CreateJfsEnv.granting.queueBuf .zeroed .zeroed
        (.ofDepth 33554432) = .ok (made, after) ∧ made.baseblkCnt = 64 :=
  ⟨by decide, by decide, _, _, rfl, by decide⟩

end Libcdma
