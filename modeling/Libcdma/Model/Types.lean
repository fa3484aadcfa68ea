/-
Data of the library: work requests, queue objects, completion entries and
completion records.

Bit fields of a C structure are bit vectors of their width, one-bit fields are
Booleans, pointers into the process are natural numbers, and a C union of
request bodies is the product of its members, of which a function reads the one
its opcode selects.  Reserved words and fields that no function reads are left
out, except in the completion entry, which is copied as a whole.
-/

import Mathlib.Logic.Function.Basic
import Libcdma.Foundation.ByteImage

namespace Libcdma

open ByteImage

def cdmaJfsWqebb : UInt32 := 64
def cdmaHwPageSize : UInt32 := 4096
def cdmaSgeSize : UInt32 := 16
def cdmaUMinJfcDepth : UInt32 := 64
def maxSqeBbNum : UInt32 := 4
def cdmaJfsMaxSgeRead : UInt32 := 6
def cdmaJfsMaxSgeNotify : UInt32 := 11
def sqeNormalCtlLen : UInt32 := 48
def sqeWriteNotifyCtlLen : UInt32 := 80
def cdmaAtomicLen4 : UInt32 := 4
def cdmaAtomicLen8 : UInt32 := 8
def cdmaAtomicLen16 : UInt32 := 16
def cdmaAtomicSgeNum : UInt32 := 1
def sqeNotifyTokenIdField : Nat := 48
def sqeNotifyAddrField : Nat := 56
def sqeAtomicDataField : Nat := 64
def cdmaJfcDbCiIdxM : UInt32 := 0x3fffff
def cdmaJfcDbValidOwnerM : UInt32 := 1
def cdmaSrcIdxShift : UInt32 := 16
def cdmaAddrShift : UInt64 := 32
def cdmaInterErr : Int := 1

/-- The error numbers the library returns, negated, from its integer functions. -/
inductive Errno where
  | einval
  | enomem
  | efault
  deriving DecidableEq, Repr

def Errno.value : Errno → Int
  | .einval => -22
  | .enomem => -12
  | .efault => -14

inductive DmaStatus where
  | ok
  | inval
  deriving DecidableEq, Repr

/-! ### Devices and contexts -/

structure CdmaDeviceCap where
  maxJfcDepth : UInt32
  maxJfsDepth : UInt32
  maxJfsSge : UInt32
  ceqCnt : UInt32

structure DmaDevice where
  fd : Int
  devCap : CdmaDeviceCap

/-- A pointer that may be NULL is an option. -/
structure DmaContext where
  dmaDev : Option DmaDevice
  tid : UInt32

/-! ### Segments and work requests -/

structure DmaSeg where
  sva : UInt64
  len : UInt64
  tid : UInt32
  tokenValue : UInt32
  tokenValueValid : Bool
  deriving DecidableEq, Repr

structure DmaSge where
  addr : UInt64
  len : UInt32
  seg : DmaSeg
  deriving DecidableEq, Repr

/-- A pointer to an array of elements and the count that goes with it. -/
structure DmaSg where
  sge : Nat → DmaSge
  numSge : UInt32

structure DmaRwWr where
  src : DmaSg
  dst : DmaSg
  targetHint : UInt8
  notifyData : UInt64
  notifyAddr : UInt64
  notifyTokenid : UInt32
  notifyTokenvalue : UInt32

/-- The data words hold addresses when the operands are longer than eight bytes. -/
structure DmaCasWr where
  dst : DmaSge
  src : DmaSge
  cmpData : UInt64
  swapData : UInt64

structure DmaFaaWr where
  dst : DmaSge
  src : DmaSge
  operand : UInt64

/-- `unlisted` stands for every integer that is not an enumerator. -/
inductive DmaWrOpcode where
  | write
  | writeNotify
  | read
  | cas
  | swap
  | fadd
  | last
  | unlisted
  deriving DecidableEq, Repr

structure DmaJfsWrFlag where
  placeOrder : BitVec 2
  compOrder : Bool
  fence : Bool
  solicitedEnable : Bool
  completeEnable : Bool
  deriving DecidableEq, Repr

structure DmaJfsWr where
  opcode : DmaWrOpcode
  flag : DmaJfsWrFlag
  userCtx : UInt64
  tpn : UInt32
  rmtEid : UInt32
  rw : DmaRwWr
  cas : DmaCasWr
  faa : DmaFaaWr

/-! ### Queue objects -/

structure CdmaUJettyQueue where
  qbuf : Nat
  qbufSize : UInt32
  qbufCurr : Nat
  pi : UInt32
  ci : UInt32
  idx : UInt32
  baseblkShift : UInt32
  baseblkCnt : UInt32
  baseblkMask : UInt32
  wrid : UInt32 → UInt64
  sqeBbCnt : UInt32
  maxSgeNum : UInt32
  flushFlag : Bool

def CdmaUJettyQueue.zeroed : CdmaUJettyQueue :=
  { qbuf := 0, qbufSize := 0, qbufCurr := 0, pi := 0, ci := 0, idx := 0, baseblkShift := 0
    baseblkCnt := 0, baseblkMask := 0, wrid := fun _ => 0, sqeBbCnt := 0, maxSgeNum := 0
    flushFlag := false }

structure CdmaUJfc where
  cq : CdmaUJettyQueue
  armSn : UInt32
  /-- address of the software doorbell word -/
  swDb : Nat

/-- `page` heads the list of software doorbell pages; zero is NULL. -/
structure CdmaUContext where
  pageSize : UInt32
  page : Nat
  cqeSize : UInt8
  dwqeEnable : UInt8

/-! ### Completion entries and records -/

structure CdmaUJfcCqe where
  sR : Bool
  isJetty : Bool
  owner : Bool
  inlineEn : Bool
  opcode : BitVec 3
  fd : Bool
  rsv : UInt8
  substatus : UInt8
  status : UInt8
  entryIdx : UInt16
  localNumL : UInt16
  localNumH : BitVec 4
  rmtIdx : BitVec 20
  rsv1 : UInt8
  tpn : BitVec 24
  rsv2 : UInt8
  byteCnt : UInt32
  userDataL : UInt32
  userDataH : UInt32
  rmtEid : Vector UInt32 4
  immDataL : UInt32
  immDataH : UInt32
  inlineData : Vector UInt32 3
  deriving DecidableEq

/-- An entry of a freshly mapped buffer. -/
def CdmaUJfcCqe.zeroed : CdmaUJfcCqe :=
  { sR := false, isJetty := false, owner := false, inlineEn := false, opcode := 0
    fd := false, rsv := 0, substatus := 0, status := 0, entryIdx := 0, localNumL := 0
    localNumH := 0, rmtIdx := 0, rsv1 := 0, tpn := 0, rsv2 := 0, byteCnt := 0
    userDataL := 0, userDataH := 0, rmtEid := Vector.replicate 4 0
    immDataL := 0, immDataH := 0, inlineData := Vector.replicate 3 0 }

inductive DmaCrStatus where
  | success
  | unsupportedOpcodeErr
  | locLenErr
  | locOperationErr
  | locAccessErr
  | remRespLenErr
  | remUnsupportedReqErr
  | remOperationErr
  | remAccessAbortErr
  | ackTimeoutErr
  | rnrRetryCntExcErr
  | wrFlushErr
  | wrSuspendDone
  | wrFlushErrDone
  | wrUnhandled
  | locDataPoison
  | remDataPoison
  deriving DecidableEq, Repr

structure DmaCrFlag where
  sR : Bool
  jetty : Bool
  suspendDone : Bool
  flushErrDone : Bool
  reserved : BitVec 4
  deriving DecidableEq, Repr

structure DmaCr where
  status : DmaCrStatus
  userCtx : UInt64
  opcode : UInt32
  flag : DmaCrFlag
  completionLen : UInt32
  localId : UInt32
  remoteId : UInt32
  tpn : UInt32
  deriving DecidableEq, Repr

inductive JfcPollState where
  | ok
  | empty
  | pollErr
  deriving DecidableEq, Repr

/-! ### Process memory -/

/-- The memory shared with the device, by the type of the object found at an
address.  Objects of different types do not overlap, and two completion entries
are at least one entry apart. -/
structure Memory where
  byte : Bytes
  cqe : Nat → CdmaUJfcCqe
  queue : UInt64 → CdmaUJettyQueue
  word : Nat → UInt32

def Memory.setCqe (memory : Memory) (address : Nat) (entry : CdmaUJfcCqe) : Memory :=
  { memory with cqe := Function.update memory.cqe address entry }

def Memory.setQueue (memory : Memory) (address : UInt64) (queue : CdmaUJettyQueue) : Memory :=
  { memory with queue := Function.update memory.queue address queue }

def Memory.setWord (memory : Memory) (address : Nat) (word : UInt32) : Memory :=
  { memory with word := Function.update memory.word address word }

@[simp] theorem Memory.setCqe_cqe (memory : Memory) (address : Nat) (entry : CdmaUJfcCqe) :
    (memory.setCqe address entry).cqe = Function.update memory.cqe address entry := rfl

@[simp] theorem Memory.setCqe_queue (memory : Memory) (address : Nat) (entry : CdmaUJfcCqe) :
    (memory.setCqe address entry).queue = memory.queue := rfl

@[simp] theorem Memory.setCqe_word (memory : Memory) (address : Nat) (entry : CdmaUJfcCqe) :
    (memory.setCqe address entry).word = memory.word := rfl

@[simp] theorem Memory.setQueue_cqe (memory : Memory) (address : UInt64)
    (queue : CdmaUJettyQueue) : (memory.setQueue address queue).cqe = memory.cqe := rfl

@[simp] theorem Memory.setQueue_queue (memory : Memory) (address : UInt64)
    (queue : CdmaUJettyQueue) :
    (memory.setQueue address queue).queue = Function.update memory.queue address queue := rfl

@[simp] theorem Memory.setQueue_word (memory : Memory) (address : UInt64)
    (queue : CdmaUJettyQueue) : (memory.setQueue address queue).word = memory.word := rfl

@[simp] theorem Memory.setQueue_byte (memory : Memory) (address : UInt64)
    (queue : CdmaUJettyQueue) : (memory.setQueue address queue).byte = memory.byte := rfl

@[simp] theorem Memory.setWord_cqe (memory : Memory) (address : Nat) (word : UInt32) :
    (memory.setWord address word).cqe = memory.cqe := rfl

@[simp] theorem Memory.setWord_queue (memory : Memory) (address : Nat) (word : UInt32) :
    (memory.setWord address word).queue = memory.queue := rfl

@[simp] theorem Memory.setWord_word (memory : Memory) (address : Nat) (word : UInt32) :
    (memory.setWord address word).word = Function.update memory.word address word := rfl

end Libcdma
