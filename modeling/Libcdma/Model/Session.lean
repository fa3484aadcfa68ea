/-
Contexts and segments (`cdma_u_context.c`, `cdma_u_segment.c`, their entries in
`cdma_u_lib.c`, and the doorbell mapping of a context in `cdma_u_db.c`), down to the
resources that each constructor acquires and gives back on its error paths.

Here the structures of contexts and segments on the heap and the mutex of a context are
recorded too; of a queue, what `Model.Queue` records.  A resource that the
kernel or the memory unit keeps for an object is told apart by the object's address, so
that nothing is assumed about what they would do with the same request twice.
-/

import Libcdma.Model.Queue

namespace Libcdma

open Ledger

/-- What a process holds; what the queues of a context hold goes with that context. -/
inductive ProcessResource where
  | context (address : Nat)
  | pageMutex (context : Nat)
  | tid (tid : UInt32)
  | kernelContext (context : Nat) (fd : Int)
  | asyncFd (fd : Int)
  | jfcPage (page : Nat)
  | seg (address : Nat)
  | grant (seg : Nat) (tid : UInt32) (sva len : UInt64)
  | kernelSeg (fd : Int) (handle : UInt64)
  | inQueues (context : Nat) (resource : Resource)
  deriving DecidableEq

/-- What `sysconf` answers; `cdma_u_db.c` needs room for a doorbell in a page. -/
structure PageSize where
  value : UInt32
  power : ∃ shift, 6 ≤ shift ∧ shift < 32 ∧ value.toNat = 2 ^ shift

/-- The answer to `CDMA_CMD_CREATE_CTX`. -/
structure CreateContextOut where
  cqeSize : UInt8
  dwqeEnable : UInt8
  asyncFd : Int
  rsvBitmap : UInt32
  st64bEn : UInt8

structure ContextEnv where
  calloc : Option Nat
  mutex : Bool
  tid : Option UInt32
  kernel : Option CreateContextOut
  pageSize : PageSize
  page : Option Nat

structure SegEnv where
  calloc : Option Nat
  granted : Bool
  handle : Option UInt64

/-! ### Objects -/

inductive CdmaMmapType where
  | jfcPage
  | jettyDsqe
  deriving DecidableEq

structure HeldContext where
  address : Nat
  dev : DmaDevice
  tid : UInt32
  uCtx : CdmaUContext
  st64bEn : Bool
  asyncFd : Int
  dbType : CdmaMmapType
  db : CdmaUDoorbell

def HeldContext.dmaCtx (held : HeldContext) : DmaContext :=
  { dmaDev := some held.dev, tid := held.tid }

def HeldContext.zeroed (address : Nat) (dev : DmaDevice) : HeldContext :=
  { address := address, dev := dev, tid := 0
    uCtx := { pageSize := 0, page := 0, cqeSize := 0, dwqeEnable := 0 }
    st64bEn := false, asyncFd := 0, dbType := .jfcPage, db := ⟨0, none⟩ }

structure HeldSeg where
  address : Nat
  seg : DmaSeg
  handle : UInt64

structure DmaSegCfg where
  addr : UInt64
  len : UInt64
  tokenValue : UInt32
  tid : UInt32
  tokenValueValid : Bool

namespace Process

abbrev Call (α : Type) := Logged ProcessResource α

def grant (resource : ProcessResource) (refs : List ProcessResource) : Call Unit :=
  Logged.emit (.granted ⟨resource, refs⟩)

def use (resource : ProcessResource) : Call Unit := Logged.emit (.used resource)

def release (resource : ProcessResource) : Call Unit := Logged.emit (.released resource)

/-! ### The doorbell page of a context -/

def cdmaGetDsqeDbOffset (pageSize : UInt32) (dbType : CdmaMmapType) (id : UInt32) : UInt32 :=
  if dbType ≠ .jettyDsqe then 0 else Ladder.cdmaGetDsqeDbOffset pageSize id

def cdmaUAllocDb (page : Option Nat) (held : HeldContext) : Call (Option HeldContext) := do
  match page with
  | none => pure none
  | some page => do
      grant (.jfcPage page) [.kernelContext held.address held.dev.fd]
      let offset := cdmaGetDsqeDbOffset held.uCtx.pageSize held.dbType held.db.id
      pure (some { held with db := { held.db with addr := some (page + offset.toNat) } })

def cdmaUFreeDb (held : HeldContext) : Call HeldContext := do
  match held.db.addr with
  | none => pure held
  | some addr => do
      if addr = 0 then pure held
      else
        let offset := cdmaGetDsqeDbOffset held.uCtx.pageSize held.dbType held.db.id
        release (.jfcPage (addr - offset.toNat))
        pure { held with db := { held.db with addr := none } }

/-! ### Contexts -/

def cdmaCtxRspSt64bEn : UInt32 := 1

def cdmaUInitContext (pageSize : UInt32) (held : HeldContext) (info : CreateContextOut) :
    HeldContext :=
  { held with
    uCtx :=
      { held.uCtx with
        pageSize := pageSize, cqeSize := info.cqeSize, dwqeEnable := info.dwqeEnable }
    st64bEn := if info.rsvBitmap &&& cdmaCtxRspSt64bEn ≠ 0 then info.st64bEn ≠ 0 else false
    asyncFd := info.asyncFd
    dbType := .jfcPage
    db := { held.db with id := 0 } }

/-- The kernel's answer to a new context comes with a descriptor for its events. -/
def cdmaCreateKernelContext (env : ContextEnv) (held : HeldContext) :
    Call (Option HeldContext) := do
  match env.kernel with
  | none => pure none
  | some info => do
      grant (.kernelContext held.address held.dev.fd) [.context held.address]
      if 0 ≤ info.asyncFd then
        grant (.asyncFd info.asyncFd) [.kernelContext held.address held.dev.fd]
      pure (some (cdmaUInitContext env.pageSize.value held info))

/-- The descriptor is closed before the kernel is told. -/
def cdmaDeleteKernelContext (held : HeldContext) : Call HeldContext := do
  if 0 ≤ held.asyncFd then release (.asyncFd held.asyncFd)
  release (.kernelContext held.address held.dev.fd)
  pure { held with asyncFd := if 0 ≤ held.asyncFd then -1 else held.asyncFd }

/-! The labels of `cdma_create_context`. -/

def freeUCtx (held : HeldContext) : Call Unit := release (.context held.address)

def mutexDestroy (held : HeldContext) : Call Unit := do
  release (.pageMutex held.address)
  freeUCtx held

def freeTid (held : HeldContext) : Call Unit := do
  release (.tid held.tid)
  mutexDestroy held

def delKernelCtx (held : HeldContext) : Call Unit := do
  let held ← cdmaDeleteKernelContext held
  freeTid held

def cdmaCreateContext (env : ContextEnv) (dev : DmaDevice) : Call (Option HeldContext) := do
  match env.calloc with
  | none => pure none
  | some address => do
      grant (.context address) []
      let held := HeldContext.zeroed address dev
      if !env.mutex then
        freeUCtx held
        pure none
      else
        grant (.pageMutex address) [.context address]
        match env.tid with
        | none => do
            mutexDestroy held
            pure none
        | some tid => do
            grant (.tid tid) []
            let held := { held with tid := tid }
            match ← cdmaCreateKernelContext env held with
            | none => do
                freeTid held
                pure none
            | some held => do
                match ← cdmaUAllocDb env.page held with
                | none => do
                    delKernelCtx held
                    pure none
                | some held => pure (some held)

def cdmaDeleteContext (held : HeldContext) : Call Unit := do
  use (.context held.address)
  let held ← cdmaUFreeDb held
  let held ← cdmaDeleteKernelContext held
  release (.tid held.tid)
  release (.pageMutex held.address)
  release (.context held.address)

def dmaCreateContext (env : ContextEnv) (dev : Option DmaDevice) : Call (Option HeldContext) :=
  match dev with
  | none => pure none
  | some dev => cdmaCreateContext env dev

def dmaDeleteContext (held : Option HeldContext) : Call Unit :=
  match held with
  | none => pure ()
  | some held => cdmaDeleteContext held

/-! ### Segments -/

/-- Every field but the owner, which each caller fills in. -/
def cdmaFillSeg (tid : UInt32) (cfg : DmaSegCfg) : DmaSeg :=
  { sva := cfg.addr, len := cfg.len, tid := tid, tokenValue := cfg.tokenValue
    tokenValueValid := cfg.tokenValueValid }

def cdmaRegisterKernelSeg (handle : Option UInt64) (held : HeldContext) (address : Nat)
    (seg : DmaSeg) : Call (Option UInt64) := do
  match handle with
  | none => pure none
  | some handle => do
      grant (.kernelSeg held.dev.fd handle)
        [.kernelContext held.address held.dev.fd, .grant address seg.tid seg.sva seg.len]
      pure (some handle)

def cdmaRegisterSeg (env : SegEnv) (held : HeldContext) (cfg : DmaSegCfg) :
    Call (Option HeldSeg) := do
  match env.calloc with
  | none => pure none
  | some address => do
      grant (.seg address) []
      use (.context held.address)
      let seg := cdmaFillSeg held.tid cfg
      if !env.granted then
        release (.seg address)
        pure none
      else
        grant (.grant address seg.tid seg.sva seg.len) [.seg address, .tid seg.tid]
        match ← cdmaRegisterKernelSeg env.handle held address seg with
        | none => do
            release (.grant address seg.tid seg.sva seg.len)
            release (.seg address)
            pure none
        | some handle => pure (some ⟨address, seg, handle⟩)

def cdmaUnregisterKernelSeg (held : HeldContext) (seg : HeldSeg) : Call Unit := do
  use (.context held.address)
  use (.seg seg.address)
  release (.kernelSeg held.dev.fd seg.handle)

def cdmaUnregisterSeg (held : HeldContext) (seg : HeldSeg) : Call Unit := do
  cdmaUnregisterKernelSeg held seg
  release (.grant seg.address seg.seg.tid seg.seg.sva seg.seg.len)
  release (.seg seg.address)

/-- The owner is the one that the configuration names. -/
def cdmaImportSeg (calloc : Option Nat) (cfg : DmaSegCfg) : Call (Option HeldSeg) := do
  match calloc with
  | none => pure none
  | some address => do
      grant (.seg address) []
      pure (some ⟨address, cdmaFillSeg cfg.tid cfg, 0⟩)

def cdmaUnimportSeg (seg : HeldSeg) : Call Unit := release (.seg seg.address)

def dmaRegisterSeg (env : SegEnv) (held : Option HeldContext) (cfg : Option DmaSegCfg) :
    Call (Option HeldSeg) :=
  match held, cfg with
  | some held, some cfg =>
      if cfg.addr = 0 ∨ cfg.len = 0 then pure none else cdmaRegisterSeg env held cfg
  | _, _ => pure none

def dmaUnregisterSeg (held : Option HeldContext) (seg : Option HeldSeg) : Call Unit :=
  match held, seg with
  | some held, some seg => cdmaUnregisterSeg held seg
  | _, _ => pure ()

def dmaImportSeg (calloc : Option Nat) (cfg : Option DmaSegCfg) : Call (Option HeldSeg) :=
  match cfg with
  | none => pure none
  | some cfg => if cfg.addr = 0 ∨ cfg.len = 0 then pure none else cdmaImportSeg calloc cfg

def dmaUnimportSeg (seg : Option HeldSeg) : Call Unit :=
  match seg with
  | none => pure ()
  | some seg => cdmaUnimportSeg seg

end Process

end Libcdma
