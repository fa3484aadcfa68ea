/-
Creating and freeing queues (`cdma_u_queue.c`), down to the resources that each of
the constructors below it acquires and gives back on its error paths.

The constructors of `cdma_u_jfc.c` and `cdma_u_jfs.c` are given once more here, as
computations that record what they do to resources.  The queues' spinlocks and the
structures on the heap are not recorded, nor are the event mutex and condition of a
completion queue, which are initialised with it and never destroyed; a call of `calloc`
or of a lock's initialisation that fails still sends its caller down the error path.
-/

import Libcdma.Foundation.Ledger
import Libcdma.Model.Db
import Libcdma.Model.Event

namespace Libcdma

open Ledger

/-- A mapping goes by its address and size, which `munmap` has to be given again. -/
inductive Resource where
  | queue (handle : UInt64)
  | jfce (fd : Int)
  | jfc (id : UInt32)
  | ctp (tpn : UInt32)
  | jfs (id : UInt32)
  | mapping (buf size : Nat)
  | wrid (address : Nat)
  | swDb (db : Nat)
  | dsqe (page : Nat)
  deriving DecidableEq

structure MapEnv where
  mmap : Option Nat
  madvise : Bool

/-- `wrid` is the address and the contents of the array. -/
structure JettyBufEnv where
  wrid : Option (Nat × (UInt32 → UInt64))
  buf : MapEnv

structure JfceEnv where
  calloc : Bool
  answer : Option DmaJfce

structure JfcEnv where
  calloc : Bool
  lock : Bool
  queueBuf : JettyBufEnv
  dbPage : DbPageEnv
  id : Option UInt32

structure CtpEnv where
  calloc : Bool
  tpn : Option UInt32

structure JfsEnv where
  calloc : Bool
  lock : Bool
  queueBuf : JettyBufEnv
  id : Option UInt32
  db : Option Nat

structure QueueEnv where
  calloc : Bool
  handle : Option UInt64
  jfce : JfceEnv
  jfc : JfcEnv
  ctp : CtpEnv
  jfs : JfsEnv

/-! ### Objects -/

structure HeldQueue where
  queue : CdmaUJettyQueue
  wrid : Option Nat

/-- `addr` is NULL before the doorbell is mapped. -/
structure CdmaUDoorbell where
  id : UInt32
  addr : Option Nat

structure CdmaUJfs where
  sq : HeldQueue
  jfc : Option UInt32
  db : CdmaUDoorbell

/-- `struct dma_jfs_cfg` with the numbers that tie the queue to the kernel's other objects. -/
structure JfsCfg extends DmaJfsCfg where
  queueId : UInt32
  tpn : UInt32

structure CdmaUQueue where
  cfg : QueueCfg
  handle : UInt64
  jfce : DmaJfce
  jfc : CdmaUJfc
  tp : UInt32
  jfs : CdmaUJfs

def DmaContext.opened (ctx : DmaContext) : Bool :=
  match ctx.dmaDev with
  | none => false
  | some dev => decide (0 ≤ dev.fd)

namespace Ladder

abbrev Call (α : Type) := Logged Resource α

def grant (resource : Resource) (refs : List Resource) : Call Unit :=
  Logged.emit (.granted ⟨resource, refs⟩)

def release (resource : Resource) : Call Unit := Logged.emit (.released resource)

/-! ### Commands -/

/-- A create command: refused when the device is not open, else up to the kernel. -/
def cmdCreate {α : Type} (ctx : DmaContext) (answer : Option α) (entry : α → Entry Resource) :
    Call (Option α) := do
  match ctx.opened, answer with
  | true, some made => do
      Logged.emit (.granted (entry made))
      pure (some made)
  | _, _ => pure none

def cmdDelete (ctx : DmaContext) (resource : Resource) : Call (Option Errno) := do
  if ctx.opened then
    release resource
    pure none
  else pure (some .einval)

def cdmaUCmdCreateQueue (ctx : DmaContext) (handle : Option UInt64) : Call (Option UInt64) :=
  cmdCreate ctx handle fun handle => ⟨.queue handle, []⟩

def cdmaUCmdDeleteQueue (ctx : DmaContext) (handle : UInt64) : Call (Option Errno) :=
  cmdDelete ctx (.queue handle)

def cdmaCmdCreateJfce (ctx : DmaContext) (answer : Option DmaJfce) : Call (Option DmaJfce) :=
  cmdCreate ctx answer fun jfce => ⟨.jfce jfce.fd, []⟩

def cdmaCmdCreateCtp (ctx : DmaContext) (tpn : Option UInt32) (queueId : UInt32) :
    Call (Option UInt32) :=
  cmdCreate ctx tpn fun tpn => ⟨.ctp tpn, [.queue queueId.toUInt64]⟩

def cdmaCmdDeleteCtp (ctx : DmaContext) (tpn : UInt32) : Call (Option Errno) :=
  cmdDelete ctx (.ctp tpn)

def jfcRefs (cmd : CreateJfcCmd) : List Resource :=
  [.queue cmd.queueId.toUInt64, .mapping cmd.bufAddr cmd.bufLen.toNat, .swDb cmd.dbAddr] ++
    (cmd.jfce.map fun jfce => Resource.jfce jfce.fd).toList

def cdmaCmdCreateJfc (id : Option UInt32) (dev : DmaDevice) (tid : UInt32) (jfc : CdmaUJfc)
    (cfg : DmaJfcCfg) : Call (Option UInt32 × Option CreateJfcCmd) := do
  match Libcdma.cdmaCmdCreateJfc id dev tid jfc cfg with
  | (some id, some cmd) => do
      grant (.jfc id) (jfcRefs cmd)
      pure (some id, some cmd)
  | answer => pure answer

def cdmaCmdDeleteJfc (ctx : DmaContext) (id : UInt32) : Call (Option Errno) :=
  cmdDelete ctx (.jfc id)

def jfsRefs (sq : CdmaUJettyQueue) (cfg : JfsCfg) : List Resource :=
  [.queue cfg.queueId.toUInt64, .ctp cfg.tpn, .mapping sq.qbuf sq.qbufSize.toNat] ++
    (cfg.jfc.map Resource.jfc).toList

def cdmaUExecCreateJfsCmd (id : Option UInt32) (dev : DmaDevice) (sq : CdmaUJettyQueue)
    (cfg : JfsCfg) : Call (Option UInt32) := do
  match Libcdma.cdmaUExecCreateJfsCmd id dev cfg.toDmaJfsCfg with
  | none => pure none
  | some id => do
      grant (.jfs id) (jfsRefs sq cfg)
      pure (some id)

def cdmaUCmdDeleteJfs (ctx : DmaContext) (id : UInt32) : Call (Option Errno) :=
  cmdDelete ctx (.jfs id)

/-! ### Buffers -/

def cdmaUAllocBuf (env : MapEnv) (memory : Memory) (bufSize : UInt32) :
    Call (Option (Nat × Memory)) := do
  match env.mmap with
  | none => pure none
  | some buf => do
      grant (.mapping buf bufSize.toNat) []
      if env.madvise then pure (some (buf, memory.mapFresh buf bufSize.toNat))
      else
        release (.mapping buf bufSize.toNat)
        pure none

def cdmaUAllocQueueBuf (env : JettyBufEnv) (memory : Memory) (q : CdmaUJettyQueue)
    (maxCnt entrySize pageSize : UInt32) (wridEn : Bool) :
    Call (Except Errno (HeldQueue × Memory)) := do
  let q := cdmaUQueueGeometry q maxCnt entrySize pageSize
  match wridEn, env.wrid with
  | true, none => pure (.error .enomem)
  | true, some (wrid, contents) => do
      grant (.wrid wrid) []
      match ← cdmaUAllocBuf env.buf memory q.qbufSize with
      | none => do
          release (.wrid wrid)
          pure (.error .enomem)
      | some (buf, memory) =>
          let q := { q with wrid := contents, qbuf := buf, qbufCurr := buf }
          pure (.ok (⟨q, some wrid⟩, memory))
  | false, _ => do
      match ← cdmaUAllocBuf env.buf memory q.qbufSize with
      | none => pure (.error .enomem)
      | some (buf, memory) => pure (.ok (⟨{ q with qbuf := buf, qbufCurr := buf }, none⟩, memory))

def cdmaUFreeQueueBuf (q : HeldQueue) : Call Unit := do
  if q.queue.qbuf ≠ 0 then release (.mapping q.queue.qbuf q.queue.qbufSize.toNat)
  match q.wrid with
  | none => pure ()
  | some wrid => release (.wrid wrid)

/-! ### Doorbells -/

def cdmaAddDbPage (env : DbPageEnv) (host : Host) : Call (Option Nat × Host) := do
  match env.node, env.bitmap, env.buf with
  | some _, true, some buf => Logged.emit (.pooled (.mapping buf host.ctx.pageSize.toNat))
  | _, _, _ => pure ()
  pure (Libcdma.cdmaAddDbPage env host)

def cdmaUPickDbPage (fuel : Nat) (env : DbPageEnv) (host : Host) : Call (Option Nat × Host) := do
  let room := fun node => decide ((host.dbPage node).useCnt < (host.dbPage node).numDb)
  match NodeList.search 0 (fun node => (host.dbPage node).next) room fuel host.ctx.page with
  | none => Logged.running
  | some (some dbPage) => pure (some dbPage, host)
  | some none => cdmaAddDbPage env host

def cdmaUAllocSwDb (fuel : Nat) (env : DbPageEnv) (host : Host) : Call (Option Nat × Host) := do
  match ← cdmaUPickDbPage fuel env host with
  | (none, host) => pure (none, host)
  | (some dbPage, host) => do
      let page := host.dbPage dbPage
      let (_, npos, bitmap) := cdmaBitmapUseIdx page.bitmap page.bitmapCnt page.numDb 0
      let db := page.buf + (npos * cdmaDbSize).toNat
      Logged.emit (.handed (.swDb db))
      pure (some db, host.setDbPage dbPage { page with bitmap := bitmap, useCnt := page.useCnt + 1 })

/-- A doorbell that no page has is not given back. -/
def cdmaUFreeSwDb (fuel : Nat) (host : Host) (db : Nat) : Call Host := do
  let around := fun node => decide (dbPageStart host.ctx.pageSize db = (host.dbPage node).buf)
  match NodeList.search 0 (fun node => (host.dbPage node).next) around fuel host.ctx.page with
  | none => Logged.running
  | some none => pure host
  | some (some _) => do
      release (.swDb db)
      Logged.lift ((Libcdma.cdmaUFreeSwDb fuel host db).map Prod.fst)

def cdmaGetDsqeDbOffset (pageSize id : UInt32) : UInt32 :=
  (id + 1) % (pageSize / cdmaHwPageSize) * cdmaHwPageSize

def cdmaUAllocDb (env : Option Nat) (pageSize id : UInt32) : Call (Option Nat) := do
  match env with
  | none => pure none
  | some page => do
      grant (.dsqe page) []
      pure (some (page + (cdmaGetDsqeDbOffset pageSize id).toNat))

def cdmaUFreeDb (pageSize : UInt32) (db : CdmaUDoorbell) : Call Unit := do
  match db.addr with
  | none => pure ()
  | some addr => release (.dsqe (addr - (cdmaGetDsqeDbOffset pageSize db.id).toNat))

/-! ### Completion queues -/

def cdmaUCreateJfce (env : JfceEnv) (ctx : DmaContext) : Call (Option DmaJfce) := do
  if env.calloc then cdmaCmdCreateJfce ctx env.answer else pure none

def cdmaUDeleteJfce (jfce : Option DmaJfce) : Call DmaStatus := do
  match jfce with
  | none => pure .inval
  | some jfce => do
      if jfce.fd < 0 then pure .inval
      else
        release (.jfce jfce.fd)
        pure .ok

def cdmaUAllocJfcBuf (fuel : Nat) (env : JfcEnv) (host : Host) (cfg : DmaJfcCfg)
    (jfc : CdmaUJfc) : Call (Except Errno CdmaUJfc × Host) := do
  let depth := if cfg.depth < cdmaUMinJfcDepth then cdmaUMinJfcDepth else cfg.depth
  match ← cdmaUAllocQueueBuf env.queueBuf host.memory jfc.cq depth host.ctx.cqeSize.toUInt32
      cdmaHwPageSize false with
  | .error err => pure (.error err, host)
  | .ok (cq, memory) => do
      match ← cdmaUAllocSwDb fuel env.dbPage { host with memory := memory } with
      | (none, host) => do
          cdmaUFreeQueueBuf cq
          pure (.error .enomem, host)
      | (some swDb, host) => pure (.ok { jfc with cq := cq.queue, swDb := swDb }, host)

def cdmaUFreeJfcBuf (fuel : Nat) (host : Host) (jfc : CdmaUJfc) : Call Host := do
  let host ← cdmaUFreeSwDb fuel host jfc.swDb
  cdmaUFreeQueueBuf ⟨jfc.cq, none⟩
  pure host

def cdmaUCreateJfc (fuel : Nat) (env : JfcEnv) (host : Host) (ctx : Option DmaContext)
    (cfg : Option DmaJfcCfg) : Call CreateJfcResult := do
  match cdmaUCheckJfcCfg ctx cfg, ctx, cfg with
  | none, some { dmaDev := some dev, tid }, some cfg => do
      if !env.calloc || !env.lock then pure ⟨none, host, none⟩
      else
        match ← cdmaUAllocJfcBuf fuel env host cfg .zeroed with
        | (.error _, host) => pure ⟨none, host, none⟩
        | (.ok jfc, host) => do
            let (id, cmd) ← cdmaCmdCreateJfc env.id dev tid jfc cfg
            let received := cmd.map fun cmd => (cmd, host.memory)
            match id with
            | none => do
                let host ← cdmaUFreeJfcBuf fuel host jfc
                pure ⟨none, host, received⟩
            | some id =>
                let jfc := { jfc with cq := { jfc.cq with idx := id }, armSn := 1 }
                pure ⟨some jfc, host, received⟩
  | _, _, _ => pure ⟨none, host, none⟩

def cdmaUDeleteJfc (fuel : Nat) (host : Host) (ctx : DmaContext) (jfc : Option CdmaUJfc) :
    Call (DmaStatus × Host) := do
  match jfc with
  | none => pure (.inval, host)
  | some jfc => do
      let _ ← cdmaCmdDeleteJfc ctx jfc.cq.idx
      let host ← cdmaUFreeJfcBuf fuel host jfc
      pure (.ok, host)

def cdmaUCleanJfc (fuel : Nat) (jfc : CdmaUJfc) (memory : Memory) (jettyId : UInt32) :
    Call (CdmaUJfc × Memory) := do
  Logged.emit (.used (.mapping jfc.cq.qbuf jfc.cq.qbufSize.toNat))
  let (after, memory) ← Logged.lift (Libcdma.cdmaUCleanJfc fuel jfc memory jettyId)
  if after.cq.ci ≠ jfc.cq.ci then Logged.emit (.used (.swDb jfc.swDb))
  pure (after, memory)

def cdmaUCreateCtp (env : CtpEnv) (ctx : DmaContext) (queueId : UInt32) : Call (Option UInt32) := do
  if env.calloc then cdmaCmdCreateCtp ctx env.tpn queueId else pure none

def cdmaUDeleteCtp (ctx : DmaContext) (tp : UInt32) : Call (Option Errno) :=
  cdmaCmdDeleteCtp ctx tp

/-! ### Send queues -/

def cdmaUCreateSq (lock : Bool) (env : JettyBufEnv) (memory : Memory) (sq : CdmaUJettyQueue)
    (cfg : DmaJfsCfg) : Call (Except Errno (HeldQueue × Memory)) := do
  if !lock then pure (.error .einval)
  else
    let sq := { cdmaUInitSq sq with sqeBbCnt := sqeBbCnt cfg, maxSgeNum := cfg.maxSge.toUInt32 }
    let wqebbDepth := (roundupPowOfTwo (sqeBbCnt cfg * cfg.depth).toUInt64).toUInt32
    match ← cdmaUAllocQueueBuf env memory sq wqebbDepth cdmaJfsWqebb cdmaHwPageSize true with
    | .error _ => pure (.error .einval)
    | .ok made => pure (.ok made)

def cdmaUDeleteSq (sq : HeldQueue) : Call Unit := cdmaUFreeQueueBuf sq

def cdmaUCreateJfs (env : JfsEnv) (host : Host) (ctx : Option DmaContext) (cfg : Option JfsCfg) :
    Call (Option CdmaUJfs × Host) := do
  match ctx, cfg with
  | some { dmaDev := some dev, tid }, some cfg => do
      if (cdmaVerifyJfsParam dev.devCap cfg.toDmaJfsCfg).isSome || !env.calloc then
        pure (none, host)
      else
        match ← cdmaUCreateSq env.lock env.queueBuf host.memory .zeroed cfg.toDmaJfsCfg with
        | .error _ => pure (none, host)
        | .ok (sq, memory) => do
            let host := { host with memory := memory }
            match ← cdmaUExecCreateJfsCmd env.id dev sq.queue cfg with
            | none => do
                cdmaUDeleteSq sq
                pure (none, host)
            | some id => do
                match ← cdmaUAllocDb env.db host.ctx.pageSize id with
                | none => do
                    let _ ← cdmaUCmdDeleteJfs { dmaDev := some dev, tid := tid } id
                    cdmaUDeleteSq sq
                    pure (none, host)
                | some addr =>
                    let sq := { sq with queue := { sq.queue with idx := id } }
                    pure (some { sq := sq, jfc := cfg.jfc, db := ⟨id, some addr⟩ }, host)
  | _, _ => pure (none, host)

/-- The completion queue is the one that the send queue was created with. -/
def cdmaUDeleteJfs (fuel : Nat) (host : Host) (ctx : DmaContext) (jfs : Option CdmaUJfs)
    (jfc : CdmaUJfc) : Call (Option Errno × CdmaUJfc × Host) := do
  match jfs with
  | none => pure (some .einval, jfc, host)
  | some jfs => do
      let _ ← cdmaUCmdDeleteJfs ctx jfs.sq.queue.idx
      let (jfc, memory) ←
        if jfs.jfc.isSome then cdmaUCleanJfc fuel jfc host.memory jfs.sq.queue.idx
        else pure (jfc, host.memory)
      cdmaUFreeDb host.ctx.pageSize jfs.db
      cdmaUDeleteSq jfs.sq
      pure (none, jfc, { host with memory := memory })

/-! ### Queues -/

/-- The completion queue and the channel are filled in later. -/
def cdmaAssembleJfsCfg (dev : DmaDevice) (cfg : QueueCfg) (queueId : UInt32) : JfsCfg :=
  { depth := cfg.queueDepth, maxSge := dev.devCap.maxJfsSge.toUInt8, jfc := none
    queueId := queueId, tpn := 0 }

def cdmaAssembleJfcCfg (cfg : QueueCfg) (queueId : UInt32) : DmaJfcCfg :=
  { depth := cfg.queueDepth, ceqn := 0, jfce := none, queueId := queueId }

def cdmaUAllocJfcRes (fuel : Nat) (env : QueueEnv) (host : Host) (ctx : DmaContext)
    (cfg : QueueCfg) (jfcCfg : DmaJfcCfg) : Call (Except Errno (DmaJfce × CdmaUJfc) × Host) := do
  match ← cdmaUCreateJfce env.jfce ctx with
  | none => pure (.error .enomem, host)
  | some jfce => do
      let made ← cdmaUCreateJfc fuel env.jfc host (some ctx) (some { jfcCfg with jfce := some jfce })
      match made.jfc with
      | none => do
          let _ ← cdmaUDeleteJfce (some jfce)
          pure (.error .enomem, made.host)
      | some jfc => do
          if cfg.eventMode ∧ (cdmaURearmJfc (some jfc) false).1 ≠ .ok then
            let (_, host) ← cdmaUDeleteJfc fuel made.host ctx (some jfc)
            let _ ← cdmaUDeleteJfce (some jfce)
            pure (.error .efault, host)
          else pure (.ok (jfce, jfc), made.host)

def cdmaUFreeJfcRes (fuel : Nat) (host : Host) (ctx : DmaContext) (jfc : CdmaUJfc)
    (jfce : DmaJfce) : Call Host := do
  let (_, host) ← cdmaUDeleteJfc fuel host ctx (some jfc)
  let _ ← cdmaUDeleteJfce (some jfce)
  pure host

def cdmaUCreateQueue (fuel : Nat) (env : QueueEnv) (host : Host) (ctx : DmaContext)
    (cfg : QueueCfg) (handle : UInt64) : Call (Except Errno CdmaUQueue × Host) := do
  match ctx.dmaDev with
  | none => pure (.error .einval, host)
  | some dev => do
      let queueId := handle.toUInt32
      match ← cdmaUAllocJfcRes fuel env host ctx cfg (cdmaAssembleJfcCfg cfg queueId) with
      | (.error err, host) => pure (.error err, host)
      | (.ok (jfce, jfc), host) => do
          match ← cdmaUCreateCtp env.ctp ctx queueId with
          | none => do
              let host ← cdmaUFreeJfcRes fuel host ctx jfc jfce
              pure (.error .enomem, host)
          | some tp => do
              let jfsCfg := { cdmaAssembleJfsCfg dev cfg queueId with
                jfc := some jfc.cq.idx, tpn := tp }
              match ← cdmaUCreateJfs env.jfs host (some ctx) (some jfsCfg) with
              | (none, host) => do
                  let _ ← cdmaUDeleteCtp ctx tp
                  let host ← cdmaUFreeJfcRes fuel host ctx jfc jfce
                  pure (.error .enomem, host)
              | (some jfs, host) =>
                  pure (.ok { cfg := cfg, handle := handle, jfce := jfce, jfc := jfc, tp := tp
                              jfs := jfs }, host)

def cdmaUDeleteQueue (fuel : Nat) (host : Host) (ctx : DmaContext) (queue : CdmaUQueue) :
    Call Host := do
  let (_, jfc, host) ← cdmaUDeleteJfs fuel host ctx (some queue.jfs) queue.jfc
  let _ ← cdmaUDeleteCtp ctx queue.tp
  cdmaUFreeJfcRes fuel host ctx jfc queue.jfce

def cdmaAllocQueue (fuel : Nat) (env : QueueEnv) (host : Host) (ctx : DmaContext)
    (cfg : QueueCfg) : Call (Option CdmaUQueue × Host) := do
  if !env.calloc then pure (none, host)
  else
    match ← cdmaUCmdCreateQueue ctx env.handle with
    | none => pure (none, host)
    | some handle => do
        match ← cdmaUCreateQueue fuel env host ctx cfg handle with
        | (.error _, host) => do
            let _ ← cdmaUCmdDeleteQueue ctx handle
            pure (none, host)
        | (.ok queue, host) => pure (some queue, host)

def cdmaFreeQueue (fuel : Nat) (host : Host) (ctx : DmaContext) (queue : CdmaUQueue) :
    Call Host := do
  let host ← cdmaUDeleteQueue fuel host ctx queue
  let _ ← cdmaUCmdDeleteQueue ctx queue.handle
  pure host

def dmaAllocQueue (fuel : Nat) (env : QueueEnv) (host : Host) (ctx : Option DmaContext)
    (cfg : Option QueueCfg) : Call (Option CdmaUQueue × Host) :=
  match ctx, cfg with
  | some ctx, some cfg => cdmaAllocQueue fuel env host ctx cfg
  | _, _ => pure (none, host)

def dmaFreeQueue (fuel : Nat) (host : Host) (ctx : DmaContext) (queue : Option CdmaUQueue) :
    Call Host :=
  match queue with
  | none => pure host
  | some queue => cdmaFreeQueue fuel host ctx queue

end Ladder

end Libcdma
