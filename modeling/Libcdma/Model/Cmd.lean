/-
The data requests of a queue (`cdma_u_cmd.c`, and their entries in `cdma_u_lib.c`).

A request names a remote and a local segment and becomes one work request with
one segment on each side.  A pointer argument that may be NULL is an option.
-/

import Libcdma.Model.Jfs

namespace Libcdma

structure QueueCfg where
  queueDepth : UInt32
  userCtx : UInt64
  rmtEid : UInt32
  eventMode : Bool

/-- A queue as its requests see it: `tp` is the number of its transport channel,
`jfs` the address of its send queue. -/
structure DmaQueue where
  cfg : QueueCfg
  tp : Option UInt32
  jfs : UInt64

structure RequestResult where
  status : DmaStatus
  memory : Memory
  announce : Option SqAnnounce

def cdmaRwCheck (rmtSeg localSeg : DmaSeg) : Option Errno :=
  if rmtSeg.len = 0 ∨ localSeg.len = 0 then some .einval
  else if rmtSeg.sva = 0 ∨ localSeg.sva = 0 then some .einval
  else none

/-- One side of `cdma_fill_sge`: the length is stored in 32 bits. -/
def cdmaFillSge (seg : DmaSeg) : DmaSge :=
  { addr := seg.sva, len := seg.len.toUInt32, seg := seg }

def DmaSeg.zeroed : DmaSeg := { sva := 0, len := 0, tid := 0, tokenValue := 0, tokenValueValid := false }

def DmaSge.zeroed : DmaSge := { addr := 0, len := 0, seg := .zeroed }

def DmaSg.zeroed : DmaSg := { sge := fun _ => .zeroed, numSge := 0 }

def DmaSg.single (sge : DmaSge) : DmaSg := { sge := fun _ => sge, numSge := 1 }

/-- `dma_jfs_wr_t wr = {.opcode = opcode}`. -/
def DmaJfsWr.zeroed (opcode : DmaWrOpcode) : DmaJfsWr :=
  { opcode := opcode
    flag := { placeOrder := 0, compOrder := false, fence := false, solicitedEnable := false
              completeEnable := false }
    userCtx := 0, tpn := 0, rmtEid := 0
    rw :=
      { src := .zeroed, dst := .zeroed, targetHint := 0, notifyData := 0, notifyAddr := 0
        notifyTokenid := 0, notifyTokenvalue := 0 }
    cas := { dst := .zeroed, src := .zeroed, cmpData := 0, swapData := 0 }
    faa := { dst := .zeroed, src := .zeroed, operand := 0 } }

def cdmaFillCommWr (wr : DmaJfsWr) (queue : DmaQueue) : DmaJfsWr :=
  { wr with
    flag := { wr.flag with completeEnable := true, fence := false }
    userCtx := queue.cfg.userCtx
    tpn := queue.tp.getD wr.tpn
    rmtEid := queue.cfg.rmtEid }

/-- The end of every request: post the one work request and turn its error into a status. -/
def cdmaPostRequest (ctx : CdmaUContext) (memory : Memory) (queue : DmaQueue) (wr : DmaJfsWr) :
    RequestResult :=
  let (memory, error, announce) := cdmaUPostJfsWr ctx memory queue.jfs [wr]
  ⟨if error.isSome then .inval else .ok, memory, announce⟩

/-- The two words are the operands, or their addresses when these are longer. -/
def cdmaCas (ctx : CdmaUContext) (memory : Memory) (queue : DmaQueue) (rmtSeg localSeg : DmaSeg)
    (cmp swap : UInt64) : RequestResult :=
  if (cdmaRwCheck rmtSeg localSeg).isSome then ⟨.inval, memory, none⟩
  else
    let wr := cdmaFillCommWr (.zeroed .cas) queue
    cdmaPostRequest ctx memory queue
      { wr with
        cas :=
          { dst := cdmaFillSge rmtSeg, src := cdmaFillSge localSeg, cmpData := cmp
            swapData := swap } }

def cdmaFaa (ctx : CdmaUContext) (memory : Memory) (queue : DmaQueue) (rmtSeg localSeg : DmaSeg)
    (operand : UInt64) : RequestResult :=
  if (cdmaRwCheck rmtSeg localSeg).isSome then ⟨.inval, memory, none⟩
  else
    let wr := cdmaFillCommWr (.zeroed .fadd) queue
    cdmaPostRequest ctx memory queue
      { wr with
        faa := { dst := cdmaFillSge rmtSeg, src := cdmaFillSge localSeg, operand := operand } }

def cdmaWrite (ctx : CdmaUContext) (memory : Memory) (queue : DmaQueue) (rmtSeg localSeg : DmaSeg)
    (notifySeg : Option DmaSeg) (notifyData : UInt64) : RequestResult :=
  if (cdmaRwCheck rmtSeg localSeg).isSome then ⟨.inval, memory, none⟩
  else
    let wr : DmaJfsWr :=
      match notifySeg with
      | none => .zeroed .write
      | some notifySeg =>
          let wr := DmaJfsWr.zeroed .writeNotify
          { wr with
            rw :=
              { wr.rw with
                notifyAddr := notifySeg.sva
                notifyData := notifyData
                notifyTokenid := notifySeg.tid
                notifyTokenvalue := notifySeg.tokenValue } }
    let wr := cdmaFillCommWr wr queue
    cdmaPostRequest ctx memory queue
      { wr with
        rw :=
          { wr.rw with
            src := .single (cdmaFillSge localSeg)
            dst := .single (cdmaFillSge rmtSeg) } }

def cdmaRead (ctx : CdmaUContext) (memory : Memory) (queue : DmaQueue)
    (rmtSeg localSeg : DmaSeg) : RequestResult :=
  if (cdmaRwCheck rmtSeg localSeg).isSome then ⟨.inval, memory, none⟩
  else
    let wr := cdmaFillCommWr (.zeroed .read) queue
    cdmaPostRequest ctx memory queue
      { wr with
        rw :=
          { wr.rw with
            src := .single (cdmaFillSge rmtSeg)
            dst := .single (cdmaFillSge localSeg) } }

/-! ### The entries of the library -/

def dmaWrite (ctx : CdmaUContext) (memory : Memory) (queue : Option DmaQueue)
    (rmtSeg localSeg : Option DmaSeg) : RequestResult :=
  match queue, rmtSeg, localSeg with
  | some queue, some rmtSeg, some localSeg => cdmaWrite ctx memory queue rmtSeg localSeg none 0
  | _, _, _ => ⟨.inval, memory, none⟩

def dmaRead (ctx : CdmaUContext) (memory : Memory) (queue : Option DmaQueue)
    (rmtSeg localSeg : Option DmaSeg) : RequestResult :=
  match queue, rmtSeg, localSeg with
  | some queue, some rmtSeg, some localSeg => cdmaRead ctx memory queue rmtSeg localSeg
  | _, _, _ => ⟨.inval, memory, none⟩

def dmaCas (ctx : CdmaUContext) (memory : Memory) (queue : Option DmaQueue)
    (rmtSeg localSeg : Option DmaSeg) (cmp swap : UInt64) : RequestResult :=
  match queue, rmtSeg, localSeg with
  | some queue, some rmtSeg, some localSeg => cdmaCas ctx memory queue rmtSeg localSeg cmp swap
  | _, _, _ => ⟨.inval, memory, none⟩

def dmaFaa (ctx : CdmaUContext) (memory : Memory) (queue : Option DmaQueue)
    (rmtSeg localSeg : Option DmaSeg) (add : UInt64) : RequestResult :=
  match queue, rmtSeg, localSeg with
  | some queue, some rmtSeg, some localSeg => cdmaFaa ctx memory queue rmtSeg localSeg add
  | _, _, _ => ⟨.inval, memory, none⟩

def dmaWriteWithNotify (ctx : CdmaUContext) (memory : Memory) (queue : Option DmaQueue)
    (rmtSeg localSeg notifySeg : Option DmaSeg) (notifyData : UInt64) : RequestResult :=
  match queue, rmtSeg, localSeg, notifySeg with
  | some queue, some rmtSeg, some localSeg, some notifySeg =>
      if notifySeg.sva = 0 ∨ notifySeg.len = 0 then ⟨.inval, memory, none⟩
      else cdmaWrite ctx memory queue rmtSeg localSeg (some notifySeg) notifyData
  | _, _, _, _ => ⟨.inval, memory, none⟩

end Libcdma
