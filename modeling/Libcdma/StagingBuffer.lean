/-
The staging buffer of one request.

It holds four blocks.  Reads, notifications and atomic requests are limited by the
checks so that they fit; a plain write is limited by its queue alone, and fits
while it has at most thirteen segments that are not empty.
-/

import Libcdma.SendQueueSize

namespace Libcdma

open WrapCounter ByteImage

def DmaJfsWr.encodedEnd (wr : DmaJfsWr) : Nat :=
  match wr.opcode with
  | .writeNotify => 80 + wr.localSges.length * 16
  | .cas => 64 + wr.cas.src.len.toNat + wr.cas.src.len.toNat
  | .fadd => 64 + wr.faa.src.len.toNat
  | _ => 48 + wr.localSges.length * 16

/-- Whatever the buffer holds before, encoding writes within its four blocks, and
counts no more than four. -/
def DmaJfsWr.StaysInside (sq : CdmaUJettyQueue) (wr : DmaJfsWr) : Prop :=
  ∀ (memory : Bytes) (start tmp : TmpSq),
    cdmaSetSqe memory start sq wr (cdmaParseJfsOpcode wr.opcode) = .ok tmp →
    (∀ offset, maxSqeBbNum.toNat * 64 ≤ offset → tmp.bytes offset = start.bytes offset) ∧
      cdmaGetWqebbCnt wr tmp.ctl ≤ maxSqeBbNum

theorem store_beyond (raw : Bytes) {dest limit : Nat} {bytes : List UInt8}
    (within : dest + bytes.length ≤ limit) {offset : Nat} (beyond : limit ≤ offset) :
    store raw dest bytes offset = raw offset :=
  copy_outside raw _ (.inr (by omega))

/-- The segments that are laid out end where the next one would start. -/
theorem fillSges_beyond (sge : Nat → DmaSge) (left i offset : Nat) (raw : Bytes) (sgeNum : UInt32)
    {address : Nat}
    (beyond : offset + (((List.range' i left).map sge).filter (fun sge => sge.len ≠ 0)).length * 16
      ≤ address) :
    (fillSges sge left i offset raw sgeNum).1 address = raw address := by
  induction left generalizing i offset raw sgeNum with
  | zero => rfl
  | succ left ih =>
      rw [List.range'_succ, List.map_cons] at beyond
      rw [fillSges]
      by_cases empty : (sge i).len = 0
      · rw [List.filter_cons_of_neg (by simp [empty])] at beyond
        rw [if_pos empty]
        exact ih (i + 1) offset raw sgeNum beyond
      · rw [List.filter_cons_of_pos (by simp [empty]), List.length_cons] at beyond
        rw [if_neg empty, ih (i + 1) (offset + 16) _ _ (by omega)]
        exact store_beyond raw (by rw [DmaSge.wqeSge_length]) (by omega)

theorem TmpSq.fillSg_beyond (tmp : TmpSq) (sg : DmaSg) (offset : Nat) {address : Nat}
    (beyond : offset + sg.live.length * 16 ≤ address) :
    (tmp.fillSg sg offset).raw address = tmp.raw address := by
  rw [sg.live_eq] at beyond
  exact fillSges_beyond sg.sge sg.numSge.toNat 0 offset tmp.raw 0 beyond

section Encoding

variable {memory : Bytes} {sq : CdmaUJettyQueue} {wr : DmaJfsWr} {start tmp : TmpSq}

theorem cdmaSetSqe_beyond
    (built : cdmaSetSqe memory start sq wr (cdmaParseJfsOpcode wr.opcode) = .ok tmp)
    {offset : Nat} (header : 80 ≤ offset) (beyond : wr.encodedEnd ≤ offset) :
    tmp.raw offset = start.raw offset := by
  unfold DmaJfsWr.encodedEnd DmaJfsWr.localSges at beyond
  cases opcode : wr.opcode with
  | write =>
      simp only [opcode] at beyond built
      simp only [cdmaSetSqe, cdmaFillNormalSge, opcode, cdmaUFillWriteSqe, cdmaFillMultiSge,
        cdmaGetCtlLen, reduceCtorEq, if_false] at built
      cases built
      exact TmpSq.fillSg_beyond _ wr.rw.src 48 beyond
  | writeNotify =>
      simp only [opcode] at beyond built
      simp only [cdmaSetSqe, cdmaFillNormalSge, opcode, cdmaUFillWriteSqe, cdmaFillMultiSge,
        cdmaGetCtlLen, if_true] at built
      cases built
      change store (store (store _ 48 _) 56 _) 64 _ offset = _
      rw [store_beyond _ (by rw [leBytes_length]; decide) header,
        store_beyond _ (by rw [leBytes_length]; decide) header,
        store_beyond _ (by rw [tokenInfo_length]; decide) header]
      exact TmpSq.fillSg_beyond _ wr.rw.src 80 beyond
  | read =>
      simp only [opcode] at beyond built
      simp only [cdmaSetSqe, cdmaFillNormalSge, opcode, cdmaUFillReadSqe] at built
      cases built
      exact TmpSq.fillSg_beyond _ wr.rw.dst 48 beyond
  | cas =>
      simp only [opcode] at beyond built
      obtain ⟨_, raw⟩ := cdmaSetSqe_cas opcode built
      have length (word : UInt64) :=
        operandBytes_length memory word wr.cas.src.len
      rw [raw]
      simp only [atomicOperand_eq]
      rw [store_beyond _ (by rw [length]) (by omega), store_beyond _ (by rw [length]) (by omega),
        store_beyond _ (by rw [DmaSge.wqeSge_length]) (by omega)]
  | fadd =>
      simp only [opcode] at beyond built
      obtain ⟨_, raw⟩ := cdmaSetSqe_faa opcode built
      rw [raw, atomicOperand_eq]
      rw [store_beyond _ (by rw [operandBytes_length]) (by omega),
        store_beyond _ (by rw [DmaSge.wqeSge_length]) (by omega)]
  | swap => simp [opcode, cdmaSetSqe, cdmaFillNormalSge] at built
  | last => simp [opcode, cdmaSetSqe, cdmaFillNormalSge] at built
  | unlisted => simp [opcode, cdmaSetSqe, cdmaFillNormalSge] at built

/-- Thirteen segments after the short header and eleven after the long one fit. -/
theorem encodedEnd_le (valid : cdmaParseJfsOpcode wr.opcode ≠ .invalid)
    (built : cdmaSetSqe memory start sq wr (cdmaParseJfsOpcode wr.opcode) = .ok tmp)
    (few : wr.localSges.length ≤ 13) (notifies : wr.opcode = .writeNotify → wr.localSges.length ≤ 11) :
    wr.encodedEnd ≤ 256 := by
  unfold DmaJfsWr.encodedEnd
  cases opcode : wr.opcode with
  | write => exact Nat.add_le_add_left (Nat.mul_le_mul_right 16 few) 48
  | writeNotify => exact Nat.add_le_add_left (Nat.mul_le_mul_right 16 (notifies opcode)) 80
  | read => exact Nat.add_le_add_left (Nat.mul_le_mul_right 16 few) 48
  | cas =>
      rw [opcode] at built
      have small := cdmaCheckAtomicLen_le (cdmaSetSqe_cas opcode built).1
      simp only
      omega
  | fadd =>
      rw [opcode] at built
      have small := cdmaCheckAtomicLen_le (cdmaSetSqe_faa opcode built).1
      simp only
      omega
  | swap => exact absurd (by rw [opcode]; rfl) valid
  | last => exact absurd (by rw [opcode]; rfl) valid
  | unlisted => exact absurd (by rw [opcode]; rfl) valid

/-- A plain write aside, the checks leave at most thirteen segments. -/
theorem localSges_length_le_of_write (valid : cdmaParseJfsOpcode wr.opcode ≠ .invalid)
    (within : cdmaCheckSgeNum (cdmaParseJfsOpcode wr.opcode) sq wr = false)
    (plain : wr.opcode = .write → wr.rw.src.live.length ≤ 13) : wr.localSges.length ≤ 13 := by
  obtain ⟨_, reads, notifies⟩ := localSges_length_le valid within
  cases opcode : wr.opcode with
  | write =>
      rw [DmaJfsWr.localSges, opcode]
      exact plain opcode
  | writeNotify => exact Nat.le_trans (notifies opcode) (by decide)
  | read => exact Nat.le_trans (reads opcode) (by decide)
  | cas =>
      rw [DmaJfsWr.localSges, opcode]
      exact Nat.succ_pos 12
  | fadd =>
      rw [DmaJfsWr.localSges, opcode]
      exact Nat.succ_pos 12
  | swap => exact absurd (by rw [opcode]; rfl) valid
  | last => exact absurd (by rw [opcode]; rfl) valid
  | unlisted => exact absurd (by rw [opcode]; rfl) valid

end Encoding

/-- The encoding stays inside the staging buffer exactly when a plain write has at
most thirteen segments that are not empty. -/
theorem cdmaSetSqe_staysInside {sq : CdmaUJettyQueue} {wr : DmaJfsWr}
    (sges : sq.maxSgeNum.toNat ≤ 255) (valid : cdmaParseJfsOpcode wr.opcode ≠ .invalid)
    (within : cdmaCheckSgeNum (cdmaParseJfsOpcode wr.opcode) sq wr = false) :
    wr.StaysInside sq ↔ (wr.opcode = .write → wr.rw.src.live.length ≤ 13) := by
  obtain ⟨most, _, notifies⟩ := localSges_length_le valid within
  have few : wr.localSges.length < 256 := by omega
  constructor
  · intro inside write
    have locals : wr.localSges = wr.rw.src.live := by rw [DmaJfsWr.localSges, write]
    obtain ⟨tmp, built⟩ : ∃ tmp, cdmaSetSqe (fun _ => 0) .zeroed sq wr
        (cdmaParseJfsOpcode wr.opcode) = .ok tmp := by
      rw [cdmaSetSqe, cdmaFillNormalSge, write]
      exact ⟨_, rfl⟩
    have count := (inside _ _ _ built).2
    rw [UInt32.le_iff_toNat_le, toNat_cdmaGetWqebbCnt valid built few, locals,
      if_neg (by simp [write]), if_neg (by simp [write])] at count
    change _ ≤ 4 at count
    omega
  · intro plain memory start tmp built
    have thirteen := localSges_length_le_of_write valid within plain
    constructor
    · intro offset beyond
      change 256 ≤ offset at beyond
      unfold TmpSq.bytes
      rw [if_neg (by omega), if_neg (by omega)]
      exact cdmaSetSqe_beyond built (by omega)
        (Nat.le_trans (encodedEnd_le valid built thirteen notifies) beyond)
    · rw [UInt32.le_iff_toNat_le, toNat_cdmaGetWqebbCnt valid built few]
      change _ ≤ 4
      split
      · rename_i notify
        have eleven := notifies notify
        omega
      · split <;> omega

def writeOf (count : UInt32) : DmaJfsWr :=
  { writeOne with
    rw := { writeOne.rw with src := { sge := fun _ => segmentAt 65536, numSge := count } } }

def CdmaUJettyQueue.admitting (count : UInt32) : CdmaUJettyQueue :=
  { CdmaUJettyQueue.depthTwo with maxSgeNum := count }

theorem cdmaSetSqe_staysInside_thirteen :
    (writeOf 13).StaysInside (.admitting 13) ↔
      ((writeOf 13).opcode = .write → (writeOf 13).rw.src.live.length ≤ 13) :=
  cdmaSetSqe_staysInside (by decide) (by decide) (by decide)

/-- The fourteenth segment of a write goes to the byte after the buffer, and the
five blocks counted for it are clamped to four. -/
theorem cdmaSetSqe_overruns :
    cdmaCheckSgeNum .write (.admitting 14) (writeOf 14) = false ∧
    ∃ tmp, cdmaSetSqe (fun _ => 0) .zeroed (.admitting 14) (writeOf 14) .write = .ok tmp ∧
      tmp.bytes 256 = 64 ∧ TmpSq.zeroed.bytes 256 = 0 ∧ cdmaGetWqebbCnt (writeOf 14) tmp.ctl = 5 := by
  refine ⟨rfl, _, rfl, ?_, rfl, ?_⟩
  · decide +kernel
  · decide +kernel

end Libcdma
