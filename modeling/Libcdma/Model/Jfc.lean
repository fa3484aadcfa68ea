/-
Completion queues (`cdma_u_jfc.c`): finding the next entry, turning an entry
into a completion record, polling, removing the entries of one send queue, and
creating and deleting a queue.

A poll call holds the completion queue's lock but neither the device nor a
posting thread takes it, so the call is given one loop turn at a time: what
happens between two turns is left to the surrounding system.
-/

import Libcdma.Model.Db

namespace Libcdma

def cdmaUGetBufEntry (cq : CdmaUJettyQueue) (n : UInt32) : Nat :=
  let cqeIndex := n &&& cq.baseblkMask
  let cqeSize := (1 : UInt32) <<< cq.baseblkShift
  cq.qbuf + (cqeIndex * cqeSize).toNat

/-- The address of entry `n` when its owner bit says that the device wrote it.
The lap compared with is that of the consumer index, whatever `n` is. -/
def cdmaUGetNextCqe (jfc : CdmaUJfc) (memory : Memory) (n : UInt32) : Option Nat :=
  let cqe := cdmaUGetBufEntry jfc.cq n
  let validOwner := (jfc.cq.ci >>> alignPower2 jfc.cq.baseblkCnt) &&& cdmaJfcDbValidOwnerM
  if (memory.cqe cqe).owner.toUInt32 ^^^ validOwner = 0 then none else some cqe

/-- The send queue whose address the device echoed. -/
def CdmaUJfcCqe.userData (cqe : CdmaUJfcCqe) : UInt64 :=
  (cqe.userDataH.toUInt64 <<< cdmaAddrShift) ||| cqe.userDataL.toUInt64

def cdmaUUpdateJettyIdx (memory : Memory) (cqe : CdmaUJfcCqe) : Option (UInt64 × Memory) :=
  let queue := cqe.userData
  if queue = 0 then none
  else if cqe.fd then some (queue, memory)
  else
    let q := memory.queue queue
    let ci := q.ci + ((cqe.entryIdx.toUInt32 - q.ci) &&& q.baseblkMask)
    some (queue, memory.setQueue queue { q with ci := ci })

/-- Rows are indexed by status, columns by substatus. -/
def cdmaCqeStatusMap : List (List (Option DmaCrStatus)) :=
  [[some .success, none, none, none, none],
   [some .unsupportedOpcodeErr, none, none, none, none],
   [none, some .locLenErr, some .locAccessErr, some .remRespLenErr, some .locDataPoison],
   [none, some .remUnsupportedReqErr, some .remAccessAbortErr, none, some .remDataPoison],
   [some .rnrRetryCntExcErr, none, none, none, none],
   [some .ackTimeoutErr, none, none, none, none],
   [some .wrFlushErr, none, none, none, none]]

def cdmaGetCrStatus (srcStatus substatus : UInt8) : Option DmaCrStatus :=
  match cdmaCqeStatusMap[srcStatus.toNat]? with
  | none => none
  | some row => (row[substatus.toNat]?).getD none

structure ParseResult where
  memory : Memory
  cr : DmaCr
  state : JfcPollState

def cdmaUUpdateFlushCr (memory : Memory) (queue : UInt64) (cqe : CdmaUJfcCqe) (cr : DmaCr) :
    ParseResult :=
  match cdmaGetCrStatus cqe.status cqe.substatus with
  | none => ⟨memory, cr, .pollErr⟩
  | some status =>
      let q := memory.queue queue
      if cqe.fd then
        ⟨memory.setQueue queue { q with flushFlag := true },
          { cr with status := .wrFlushErrDone }, .ok⟩
      else
        ⟨memory.setQueue queue { q with ci := q.ci + 1 }, { cr with status := status }, .ok⟩

def CdmaUJfcCqe.localId (cqe : CdmaUJfcCqe) : UInt32 :=
  (UInt32.ofBitVec (cqe.localNumH.setWidth 32) <<< cdmaSrcIdxShift) ||| cqe.localNumL.toUInt32

/-- The fields of a record that are copied before the status is known. -/
def cdmaFillCr (q : CdmaUJettyQueue) (cqe : CdmaUJfcCqe) (cr : DmaCr) : DmaCr :=
  { cr with
    flag := { cr.flag with sR := cqe.sR, jetty := cqe.isJetty }
    completionLen := cqe.byteCnt
    tpn := UInt32.ofBitVec (cqe.tpn.setWidth 32)
    localId := cqe.localId
    remoteId := UInt32.ofBitVec (cqe.rmtIdx.setWidth 32)
    userCtx := q.wrid (q.ci &&& q.baseblkMask) }

def cdmaParseCqeForJfc (memory : Memory) (cqe : CdmaUJfcCqe) (cr : DmaCr) : ParseResult :=
  match cdmaUUpdateJettyIdx memory cqe with
  | none => ⟨memory, cr, .pollErr⟩
  | some (queue, memory) =>
      cdmaUUpdateFlushCr memory queue cqe (cdmaFillCr (memory.queue queue) cqe cr)

structure PollOneResult where
  jfc : CdmaUJfc
  memory : Memory
  cr : DmaCr
  state : JfcPollState

def CdmaUJfc.setCi (jfc : CdmaUJfc) (ci : UInt32) : CdmaUJfc :=
  { jfc with cq := { jfc.cq with ci := ci } }

def cdmaUPollOne (jfc : CdmaUJfc) (memory : Memory) (cr : DmaCr) : PollOneResult :=
  match cdmaUGetNextCqe jfc memory jfc.cq.ci with
  | none => ⟨jfc, memory, cr, .empty⟩
  | some cqe =>
      let jfc := jfc.setCi (jfc.cq.ci + 1)
      let parsed := cdmaParseCqeForJfc memory (memory.cqe cqe) cr
      if parsed.state ≠ .ok then ⟨jfc, parsed.memory, parsed.cr, .pollErr⟩
      else if parsed.cr.status = .wrFlushErrDone ∨ parsed.cr.status = .wrSuspendDone then
        ⟨jfc, parsed.memory, parsed.cr, .empty⟩
      else ⟨jfc, parsed.memory, parsed.cr, .ok⟩

/-! ### A poll call, turn by turn -/

structure PollCall where
  crCnt : UInt32
  npolled : UInt32
  cr : UInt32 → DmaCr

def PollCall.start (crCnt : UInt32) (cr : UInt32 → DmaCr) : PollCall :=
  { crCnt := crCnt, npolled := 0, cr := cr }

inductive PollTurn where
  | again (jfc : CdmaUJfc) (memory : Memory) (call : PollCall)
  | exit (jfc : CdmaUJfc) (memory : Memory) (call : PollCall) (value : Int)

/-- What follows the loop: publish the consumer index, then the return value. -/
def cdmaUPollJfcExit (jfc : CdmaUJfc) (memory : Memory) (call : PollCall)
    (ret : JfcPollState) : PollTurn :=
  let memory :=
    if call.npolled ≠ 0 then memory.setWord jfc.swDb (jfc.cq.ci &&& cdmaJfcDbCiIdxM) else memory
  .exit jfc memory call (if ret = .pollErr then -cdmaInterErr else call.npolled.toInt32.toInt)

def cdmaUPollJfcTurn (jfc : CdmaUJfc) (memory : Memory) (call : PollCall) : PollTurn :=
  if call.npolled < call.crCnt then
    let one := cdmaUPollOne jfc memory (call.cr call.npolled)
    let cr := Function.update call.cr call.npolled one.cr
    if one.state = .ok then
      .again one.jfc one.memory { call with npolled := call.npolled + 1, cr := cr }
    else cdmaUPollJfcExit one.jfc one.memory { call with cr := cr } one.state
  else cdmaUPollJfcExit jfc memory call .ok

structure PollResult where
  value : Int
  jfc : Option CdmaUJfc
  memory : Memory
  cr : UInt32 → DmaCr

def cdmaUPollJfcLoop : Nat → CdmaUJfc → Memory → PollCall → Option PollResult
  | 0, _, _, _ => none
  | fuel + 1, jfc, memory, call =>
      match cdmaUPollJfcTurn jfc memory call with
      | .again jfc memory call => cdmaUPollJfcLoop fuel jfc memory call
      | .exit jfc memory call value => some ⟨value, some jfc, memory, call.cr⟩

/-- A call takes at most one turn for each record and one to leave. -/
def cdmaUPollJfc (jfc : Option CdmaUJfc) (memory : Memory) (crCnt : UInt32)
    (cr : UInt32 → DmaCr) : Option PollResult :=
  match jfc with
  | none => some ⟨Errno.einval.value, none, memory, cr⟩
  | some jfc => cdmaUPollJfcLoop (crCnt.toNat + 1) jfc memory (.start crCnt cr)

/-! ### Removing the entries of one send queue -/

/-- The forward scan for the producer index.  No fuel left means that the loop
is still running. -/
def cdmaUCleanScan (jfc : CdmaUJfc) (memory : Memory) : Nat → UInt32 → Option UInt32
  | 0, _ => none
  | fuel + 1, pi =>
      match cdmaUGetNextCqe jfc memory pi with
      | none => some pi
      | some _ =>
          if pi > jfc.cq.ci + jfc.cq.baseblkCnt then some pi
          else cdmaUCleanScan jfc memory fuel (pi + 1)

/-- Structure assignment that keeps the owner bit of the destination. -/
def cdmaUMoveCqe (memory : Memory) (dest source : Nat) : Memory :=
  memory.setCqe dest { memory.cqe source with owner := (memory.cqe dest).owner }

def cdmaUCleanLoop (cq : CdmaUJettyQueue) (jettyId : UInt32) :
    Nat → UInt32 → UInt32 → Memory → Option (UInt32 × Memory)
  | 0, _, _, _ => none
  | fuel + 1, pi, nfreed, memory =>
      let pi := pi - 1
      if pi.toInt32 - cq.ci.toInt32 ≥ 0 then
        let cqe := cdmaUGetBufEntry cq pi
        if (memory.cqe cqe).localId = jettyId then
          cdmaUCleanLoop cq jettyId fuel pi (nfreed + 1) memory
        else if nfreed ≠ 0 then
          let dest := cdmaUGetBufEntry cq (pi + nfreed)
          cdmaUCleanLoop cq jettyId fuel pi nfreed (cdmaUMoveCqe memory dest cqe)
        else cdmaUCleanLoop cq jettyId fuel pi nfreed memory
      else some (nfreed, memory)

def cdmaUCleanJfc (fuel : Nat) (jfc : CdmaUJfc) (memory : Memory) (jettyId : UInt32) :
    Option (CdmaUJfc × Memory) :=
  match cdmaUCleanScan jfc memory fuel jfc.cq.ci with
  | none => none
  | some pi =>
      match cdmaUCleanLoop jfc.cq jettyId fuel pi 0 memory with
      | none => none
      | some (nfreed, memory) =>
          if nfreed ≠ 0 then
            let jfc := jfc.setCi (jfc.cq.ci + nfreed)
            some (jfc, memory.setWord jfc.swDb (jfc.cq.ci &&& cdmaJfcDbCiIdxM))
          else some (jfc, memory)

/-! ### Creating and deleting a queue -/

structure DmaJfce where
  fd : Int
  id : Int

structure DmaJfcCfg where
  depth : UInt32
  ceqn : UInt32
  jfce : Option DmaJfce
  queueId : UInt32

def cdmaUCheckJfcCfg (ctx : Option DmaContext) (cfg : Option DmaJfcCfg) : Option Errno :=
  match ctx, cfg with
  | some { dmaDev := some dev, .. }, some cfg =>
      let cap := dev.devCap
      if cfg.jfce.isNone then some .einval
      else if cfg.depth = 0 ∨ cfg.depth > cap.maxJfcDepth then some .einval
      else if cfg.ceqn ≥ cap.ceqCnt then some .einval
      else none
  | _, _ => some .einval

/-- `struct cdma_create_jfc_ucmd` and the arguments that go with it. -/
structure CreateJfcCmd where
  bufAddr : Nat
  dbAddr : Nat
  bufLen : UInt32
  tid : UInt32
  depth : UInt32
  jfce : Option DmaJfce
  ceqn : UInt32
  queueId : UInt32

/-- What the allocator and the kernel answer to a new completion queue; `id` is
the kernel's number for it, absent when the command fails. -/
structure CreateJfcEnv where
  calloc : Bool
  lock : Bool
  queueBuf : QueueBufEnv
  dbPage : DbPageEnv
  id : Option UInt32

structure CreateJfcResult where
  jfc : Option CdmaUJfc
  host : Host
  received : Option (CreateJfcCmd × Memory)

def CdmaUJfc.zeroed : CdmaUJfc := { cq := .zeroed, armSn := 0, swDb := 0 }

def cdmaUAllocJfcBuf (fuel : Nat) (env : CreateJfcEnv) (host : Host) (cfg : DmaJfcCfg)
    (jfc : CdmaUJfc) : Option (Except Errno CdmaUJfc × Host) :=
  let depth := if cfg.depth < cdmaUMinJfcDepth then cdmaUMinJfcDepth else cfg.depth
  match cdmaUAllocQueueBuf env.queueBuf host.memory jfc.cq depth host.ctx.cqeSize.toUInt32
      cdmaHwPageSize false with
  | .error err => some (.error err, host)
  | .ok (cq, memory) =>
      match cdmaUAllocSwDb fuel env.dbPage { host with memory := memory } with
      | none => none
      | some (none, host) => some (.error .enomem, host)
      | some (some swDb, host) => some (.ok { jfc with cq := cq, swDb := swDb }, host)

/-- The buffer is unmapped as well. -/
def cdmaUFreeJfcBuf (fuel : Nat) (host : Host) (jfc : CdmaUJfc) : Option Host :=
  (cdmaUFreeSwDb fuel host jfc.swDb).map Prod.fst

def cdmaCmdCreateJfc (id : Option UInt32) (dev : DmaDevice) (tid : UInt32) (jfc : CdmaUJfc)
    (cfg : DmaJfcCfg) : Option UInt32 × Option CreateJfcCmd :=
  if dev.fd < 0 then (none, none)
  else
    (id, some
      { bufAddr := jfc.cq.qbuf, dbAddr := jfc.swDb, bufLen := jfc.cq.qbufSize, tid := tid
        depth := cfg.depth, jfce := cfg.jfce, ceqn := cfg.ceqn, queueId := cfg.queueId })

def cdmaUCreateJfc (fuel : Nat) (env : CreateJfcEnv) (host : Host) (ctx : Option DmaContext)
    (cfg : Option DmaJfcCfg) : Option CreateJfcResult :=
  match cdmaUCheckJfcCfg ctx cfg, ctx, cfg with
  | none, some { dmaDev := some dev, tid }, some cfg =>
      if !env.calloc || !env.lock then some ⟨none, host, none⟩
      else
        match cdmaUAllocJfcBuf fuel env host cfg .zeroed with
        | none => none
        | some (.error _, host) => some ⟨none, host, none⟩
        | some (.ok jfc, host) =>
            let (id, cmd) := cdmaCmdCreateJfc env.id dev tid jfc cfg
            let received := cmd.map fun cmd => (cmd, host.memory)
            match id with
            | none => (cdmaUFreeJfcBuf fuel host jfc).map fun host => ⟨none, host, received⟩
            | some id =>
                let jfc := { jfc with cq := { jfc.cq with idx := id }, armSn := 1 }
                some ⟨some jfc, host, received⟩
  | _, _, _ => some ⟨none, host, none⟩

/-- The kernel is told to forget the queue first; its answer makes no difference. -/
def cdmaUDeleteJfc (fuel : Nat) (host : Host) (jfc : Option CdmaUJfc) : Option (DmaStatus × Host) :=
  match jfc with
  | none => some (.inval, host)
  | some jfc => (cdmaUFreeJfcBuf fuel host jfc).map fun host => (.ok, host)

end Libcdma
