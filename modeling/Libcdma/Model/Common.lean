/-
Size arithmetic and queue buffers (`cdma_u_common.h`, `cdma_u_common.c`).

Every quantity has the width it has in the source, so products and shifts wrap
here where they wrap there.
-/

import Libcdma.Model.Types

namespace Libcdma

/-- Bit length, by counting leading zeros; zero for zero. -/
def ilog64 (value : UInt64) : UInt64 :=
  if value = 0 then 0 else UInt64.ofNat (value.toNat.log2 + 1)

def roundupPowOfTwo (n : UInt64) : UInt64 :=
  if n = 1 then 1 else 1 <<< ilog64 (n - 1)

def align (val align : UInt64) : UInt64 :=
  (val + align - 1) &&& ~~~(align - 1)

/-- The search loop of `align_power2`; the fuel counts the shifts in range. -/
def alignPower2From (n : UInt32) : Nat → UInt32 → UInt32
  | 0, res => res
  | fuel + 1, res => if 1 <<< res < n then alignPower2From n fuel (res + 1) else res

def alignPower2 (n : UInt32) : UInt32 := alignPower2From n 32 0

def cdmaUpdatePtr (ptr : Nat) (inc : UInt32) (qbuf qbufEnd : Nat) : Nat :=
  if ptr + inc.toNat < qbufEnd then ptr + inc.toNat
  else qbuf + (ptr + inc.toNat - qbufEnd)

/-- A fresh anonymous mapping reads as zero, by whatever type it is read. -/
def Memory.mapFresh (memory : Memory) (buf size : Nat) : Memory :=
  { memory with
    byte := fun address =>
      if buf ≤ address ∧ address < buf + size then 0 else memory.byte address
    cqe := fun address =>
      if buf ≤ address ∧ address < buf + size then .zeroed else memory.cqe address
    word := fun address =>
      if buf ≤ address ∧ address < buf + size then 0 else memory.word address }

theorem Memory.mapFresh_word {memory : Memory} {address : Nat} (buf size : Nat)
    (zero : memory.word address = 0) : (memory.mapFresh buf size).word address = 0 := by
  change (if _ then 0 else memory.word address) = 0
  rw [zero, ite_self]

theorem Memory.mapFresh_cqe {memory : Memory} {address : Nat} (buf size : Nat)
    (clear : memory.cqe address = .zeroed) :
    (memory.mapFresh buf size).cqe address = .zeroed := by
  change (if _ then CdmaUJfcCqe.zeroed else memory.cqe address) = .zeroed
  rw [clear, ite_self]

/-- `answer` is the address that `mmap` gives out and `madvise` accepts. -/
def cdmaUAllocBuf (answer : Option Nat) (memory : Memory) (bufSize : UInt32) :
    Option (Nat × Memory) :=
  match answer with
  | none => none
  | some buf => some (buf, memory.mapFresh buf bufSize.toNat)

/-- What the allocator answers to a queue: the array of request contexts with
whatever it holds, and the address of a fresh mapping. -/
structure QueueBufEnv where
  wrid : Option (UInt32 → UInt64)
  buf : Option Nat

/-- The sizes `cdma_u_alloc_queue_buf` writes into the queue before it allocates. -/
def cdmaUQueueGeometry (q : CdmaUJettyQueue) (maxCnt entrySize pageSize : UInt32) :
    CdmaUJettyQueue :=
  let entryCnt := (roundupPowOfTwo maxCnt.toUInt64).toUInt32
  let bufShift := alignPower2 (roundupPowOfTwo (entryCnt * entrySize).toUInt64).toUInt32
  let baseblkShift := alignPower2 (roundupPowOfTwo entrySize.toUInt64).toUInt32
  let qbufSize := (align ((1 : UInt32) <<< bufShift).toUInt64 pageSize.toUInt64).toUInt32
  let baseblkCnt := qbufSize >>> baseblkShift
  { q with
    baseblkShift := baseblkShift
    qbufSize := qbufSize
    baseblkCnt := baseblkCnt
    baseblkMask := baseblkCnt - 1 }

def cdmaUAllocQueueBuf (env : QueueBufEnv) (memory : Memory) (q : CdmaUJettyQueue)
    (maxCnt entrySize pageSize : UInt32) (wridEn : Bool) :
    Except Errno (CdmaUJettyQueue × Memory) :=
  let q := cdmaUQueueGeometry q maxCnt entrySize pageSize
  match wridEn, env.wrid, cdmaUAllocBuf env.buf memory q.qbufSize with
  | true, none, _ => .error .enomem
  | _, _, none => .error .enomem
  | true, some wrid, some (buf, memory) =>
      .ok ({ q with wrid := wrid, qbuf := buf, qbufCurr := buf }, memory)
  | false, _, some (buf, memory) => .ok ({ q with qbuf := buf, qbufCurr := buf }, memory)

theorem cdmaUAllocQueueBuf_ok {env : QueueBufEnv} {memory after : Memory}
    {q made : CdmaUJettyQueue} {maxCnt entrySize pageSize : UInt32} {wridEn : Bool}
    (allocated : cdmaUAllocQueueBuf env memory q maxCnt entrySize pageSize wridEn =
      .ok (made, after)) :
    ∃ wrid buf, made =
      { cdmaUQueueGeometry q maxCnt entrySize pageSize with
        wrid := wrid, qbuf := buf, qbufCurr := buf } ∧
      after = memory.mapFresh buf
        (cdmaUQueueGeometry q maxCnt entrySize pageSize).qbufSize.toNat := by
  unfold cdmaUAllocQueueBuf cdmaUAllocBuf at allocated
  cases mapping : env.buf with
  | none => cases wridEn <;> cases wrid : env.wrid <;> simp [mapping, wrid] at allocated
  | some buf =>
      cases wridEn with
      | false =>
          simp only [mapping, Except.ok.injEq, Prod.mk.injEq] at allocated
          exact ⟨_, buf, allocated.1.symm, allocated.2.symm⟩
      | true =>
          cases answer : env.wrid with
          | none => simp [mapping, answer] at allocated
          | some wrid =>
              simp only [mapping, answer, Except.ok.injEq, Prod.mk.injEq] at allocated
              exact ⟨wrid, buf, allocated.1.symm, allocated.2.symm⟩

end Libcdma
