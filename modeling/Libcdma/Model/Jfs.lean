/-
Send queues (`cdma_u_jfs.c`): encoding a work request, copying it into the ring,
and telling the device.

A request is built in a zeroed staging buffer.  Its first 48 bytes are the
control structure, kept here field by field; what follows is raw bytes, and as
in the source nothing stops the segment loop from writing past the buffer's end.
-/

import Libcdma.Model.Common

namespace Libcdma

open ByteImage

structure CdmaJfsSqeCtl where
  sqeBbIdx : BitVec 16
  placeOdr : BitVec 2
  compOrder : Bool
  fence : Bool
  se : Bool
  cqe : Bool
  inlineEn : Bool
  rsv : BitVec 5
  tokenEn : Bool
  rmtJettyType : BitVec 2
  owner : Bool
  targetHint : BitVec 8
  opcode : BitVec 8
  rsv1 : BitVec 6
  inlineMsgLen : BitVec 10
  tpn : BitVec 24
  sgeNum : BitVec 8
  toid : BitVec 20
  rsv2 : BitVec 12
  rmtEid : Vector (BitVec 32) 4
  rmtTokenValue : BitVec 32
  rsv3 : BitVec 32
  rmtAddrLOrTid : BitVec 32
  rmtAddrHOrTval : BitVec 32
  deriving DecidableEq

def CdmaJfsSqeCtl.zeroed : CdmaJfsSqeCtl :=
  { sqeBbIdx := 0, placeOdr := 0, compOrder := false, fence := false, se := false, cqe := false
    inlineEn := false, rsv := 0, tokenEn := false, rmtJettyType := 0, owner := false
    targetHint := 0, opcode := 0, rsv1 := 0, inlineMsgLen := 0, tpn := 0, sgeNum := 0, toid := 0
    rsv2 := 0, rmtEid := Vector.replicate 4 0, rmtTokenValue := 0, rsv3 := 0
    rmtAddrLOrTid := 0, rmtAddrHOrTval := 0 }

def flagField (flag : Bool) : Field := ⟨1, BitVec.ofBool flag⟩

def CdmaJfsSqeCtl.fields (ctl : CdmaJfsSqeCtl) : List Field :=
  [⟨16, ctl.sqeBbIdx⟩, ⟨2, ctl.placeOdr⟩, flagField ctl.compOrder, flagField ctl.fence,
    flagField ctl.se, flagField ctl.cqe, flagField ctl.inlineEn, ⟨5, ctl.rsv⟩,
    flagField ctl.tokenEn, ⟨2, ctl.rmtJettyType⟩, flagField ctl.owner,
    ⟨8, ctl.targetHint⟩, ⟨8, ctl.opcode⟩, ⟨6, ctl.rsv1⟩, ⟨10, ctl.inlineMsgLen⟩,
    ⟨24, ctl.tpn⟩, ⟨8, ctl.sgeNum⟩, ⟨20, ctl.toid⟩, ⟨12, ctl.rsv2⟩,
    ⟨32, ctl.rmtEid[0]⟩, ⟨32, ctl.rmtEid[1]⟩, ⟨32, ctl.rmtEid[2]⟩, ⟨32, ctl.rmtEid[3]⟩,
    ⟨32, ctl.rmtTokenValue⟩, ⟨32, ctl.rsv3⟩, ⟨32, ctl.rmtAddrLOrTid⟩,
    ⟨32, ctl.rmtAddrHOrTval⟩]

/-- `tmp_sq`: the control structure and the bytes after it, by offset. -/
structure TmpSq where
  ctl : CdmaJfsSqeCtl
  raw : Bytes

def TmpSq.zeroed : TmpSq := { ctl := .zeroed, raw := fun _ => 0 }

def TmpSq.bytes (tmp : TmpSq) (offset : Nat) : UInt8 :=
  if offset < 48 then (image 48 tmp.ctl.fields).getD offset 0 else tmp.raw offset

/-! ### Encoding -/

inductive CdmaJfsOpcode where
  | write
  | writeWithNotify
  | read
  | cas
  | faa
  | invalid
  deriving DecidableEq, Repr

def CdmaJfsOpcode.value : CdmaJfsOpcode → BitVec 8
  | .write => 0x03
  | .writeWithNotify => 0x05
  | .read => 0x06
  | .cas => 0x07
  | .faa => 0x0b
  | .invalid => 0x12

def cdmaParseJfsOpcode : DmaWrOpcode → CdmaJfsOpcode
  | .read => .read
  | .write => .write
  | .writeNotify => .writeWithNotify
  | .cas => .cas
  | .fadd => .faa
  | _ => .invalid

/-- True when the request has too many segments for its opcode or its queue. -/
def cdmaCheckSgeNum (opcode : CdmaJfsOpcode) (sq : CdmaUJettyQueue) (wr : DmaJfsWr) : Bool :=
  match opcode with
  | .cas | .faa => sq.maxSgeNum == 0
  | .read => wr.rw.dst.numSge > cdmaJfsMaxSgeRead || wr.rw.dst.numSge > sq.maxSgeNum
  | .writeWithNotify =>
      wr.rw.src.numSge > cdmaJfsMaxSgeNotify || wr.rw.src.numSge > sq.maxSgeNum
  | _ => wr.rw.src.numSge > sq.maxSgeNum

def cdmaGetCtlLen (opcode : DmaWrOpcode) : UInt32 :=
  if opcode = .writeNotify then sqeWriteNotifyCtlLen else sqeNormalCtlLen

/-- `struct cdma_wqe_sge`: length, token, address. -/
def DmaSge.wqeSge (sge : DmaSge) : List UInt8 :=
  leBytes 4 sge.len.toNat ++ leBytes 4 sge.seg.tid.toNat ++ leBytes 8 sge.addr.toNat

/-- The segment loop: skip the empty segments and lay the others out one after
another, counting them. -/
def fillSges (sge : Nat → DmaSge) : Nat → Nat → Nat → Bytes → UInt32 → Bytes × UInt32
  | 0, _, _, raw, sgeNum => (raw, sgeNum)
  | left + 1, i, offset, raw, sgeNum =>
      if (sge i).len = 0 then fillSges sge left (i + 1) offset raw sgeNum
      else fillSges sge left (i + 1) (offset + 16) (store raw offset (sge i).wqeSge) (sgeNum + 1)

def TmpSq.fillSg (tmp : TmpSq) (sg : DmaSg) (offset : Nat) : TmpSq :=
  let (raw, sgeNum) := fillSges sg.sge sg.numSge.toNat 0 offset tmp.raw 0
  { ctl := { tmp.ctl with sgeNum := sgeNum.toBitVec.setWidth 8 }, raw := raw }

def cdmaFillMultiSge (tmp : TmpSq) (wr : DmaJfsWr) (offset : Nat) : TmpSq :=
  tmp.fillSg wr.rw.src offset

/-- The remote side of a request, filled the same way for every opcode. -/
def CdmaJfsSqeCtl.fillRemote (ctl : CdmaJfsSqeCtl) (sge : DmaSge) : CdmaJfsSqeCtl :=
  { ctl with
    toid := sge.seg.tid.toBitVec.setWidth 20
    tokenEn := sge.seg.tokenValueValid
    rmtTokenValue := sge.seg.tokenValue.toBitVec
    rmtAddrLOrTid := sge.addr.toBitVec.setWidth 32
    rmtAddrHOrTval := (sge.addr >>> 32).toBitVec.setWidth 32 }

/-- `struct cdma_token_info`: a 20-bit token, 12 bits that keep what was there,
and the token's value. -/
def tokenInfo (raw : Bytes) (tokenId tokenValue : UInt32) : List UInt8 :=
  let rsv := bits (ofLe (load raw sqeNotifyTokenIdField 4)) 20 12
  image 4 [⟨20, tokenId.toBitVec.setWidth 20⟩, ⟨12, rsv⟩] ++ leBytes 4 tokenValue.toNat

def cdmaUFillWriteSqe (tmp : TmpSq) (wr : DmaJfsWr) : TmpSq :=
  let tmp := cdmaFillMultiSge tmp wr (cdmaGetCtlLen wr.opcode).toNat
  let ctl := { tmp.ctl.fillRemote (wr.rw.dst.sge 0) with targetHint := wr.rw.targetHint.toBitVec }
  if wr.opcode = .writeNotify then
    let raw := store tmp.raw sqeNotifyTokenIdField
      (tokenInfo tmp.raw wr.rw.notifyTokenid wr.rw.notifyTokenvalue)
    let raw := store raw sqeNotifyAddrField (leBytes 8 wr.rw.notifyAddr.toNat)
    let raw := store raw sqeAtomicDataField (leBytes 8 wr.rw.notifyData.toNat)
    { ctl := ctl, raw := raw }
  else { ctl := ctl, raw := tmp.raw }

def cdmaUFillReadSqe (tmp : TmpSq) (wr : DmaJfsWr) : TmpSq :=
  let tmp := tmp.fillSg wr.rw.dst 48
  { tmp with ctl := tmp.ctl.fillRemote (wr.rw.src.sge 0) }

def cdmaCheckAtomicLen (len : UInt32) (opcode : DmaWrOpcode) : Bool :=
  if opcode = .cas then
    len == cdmaAtomicLen4 || len == cdmaAtomicLen8 || len == cdmaAtomicLen16
  else if opcode = .fadd then len == cdmaAtomicLen4 || len == cdmaAtomicLen8
  else false

/-- What `memcpy` of `len` bytes reads: from a word of the request when the
operand fits in one, otherwise from the address in that word. -/
def atomicOperand (memory : Bytes) (word : UInt64) (len : UInt32) : List UInt8 :=
  if len ≤ cdmaAtomicLen8 then (leBytes 8 word.toNat).take len.toNat
  else load memory word.toNat len.toNat

def cdmaUFillCasSqe (memory : Bytes) (tmp : TmpSq) (wr : DmaJfsWr) : Except Errno TmpSq :=
  let src := wr.cas.src
  if !cdmaCheckAtomicLen src.len wr.opcode then .error .einval
  else
    let raw := store tmp.raw 48 src.wqeSge
    let ctl := { tmp.ctl with sgeNum := cdmaAtomicSgeNum.toBitVec.setWidth 8 }
    let raw := store raw sqeAtomicDataField (atomicOperand memory wr.cas.swapData src.len)
    let raw := store raw (sqeAtomicDataField + src.len.toNat)
      (atomicOperand memory wr.cas.cmpData src.len)
    .ok { ctl := ctl.fillRemote wr.cas.dst, raw := raw }

def cdmaUFillFaaSqe (memory : Bytes) (tmp : TmpSq) (wr : DmaJfsWr) : Except Errno TmpSq :=
  let src := wr.faa.src
  if !cdmaCheckAtomicLen src.len wr.opcode then .error .einval
  else
    let raw := store tmp.raw 48 src.wqeSge
    let ctl := { tmp.ctl with sgeNum := cdmaAtomicSgeNum.toBitVec.setWidth 8 }
    let raw := store raw sqeAtomicDataField (atomicOperand memory wr.faa.operand src.len)
    .ok { ctl := ctl.fillRemote wr.faa.dst, raw := raw }

def cdmaFillNormalSge (memory : Bytes) (tmp : TmpSq) (wr : DmaJfsWr) : Except Errno TmpSq :=
  match wr.opcode with
  | .write | .writeNotify => .ok (cdmaUFillWriteSqe tmp wr)
  | .read => .ok (cdmaUFillReadSqe tmp wr)
  | .cas => cdmaUFillCasSqe memory tmp wr
  | .fadd => cdmaUFillFaaSqe memory tmp wr
  | _ => .error .einval

/-- The part of the control structure that is filled the same way for every opcode. -/
def TmpSq.setCtl (tmp : TmpSq) (sq : CdmaUJettyQueue) (wr : DmaJfsWr)
    (opcode : CdmaJfsOpcode) : TmpSq :=
  let ctl :=
    { tmp.ctl with
      cqe := wr.flag.completeEnable
      owner := sq.pi &&& sq.baseblkCnt == 0
      opcode := opcode.value
      tpn := wr.tpn.toBitVec.setWidth 24
      placeOdr := wr.flag.placeOrder
      fence := wr.flag.fence
      compOrder := wr.flag.compOrder
      se := wr.flag.solicitedEnable
      inlineEn := false
      rmtEid := tmp.ctl.rmtEid.set 0 wr.rmtEid.toBitVec }
  { tmp with ctl := ctl }

def cdmaSetSqe (memory : Bytes) (tmp : TmpSq) (sq : CdmaUJettyQueue) (wr : DmaJfsWr)
    (opcode : CdmaJfsOpcode) : Except Errno TmpSq :=
  cdmaFillNormalSge memory (tmp.setCtl sq wr opcode) wr

def cdmaSqCalWqebbNum (sqeCtlLen sgeNum wqebbSize : UInt32) : UInt32 :=
  (sqeCtlLen + (sgeNum - 1) * cdmaSgeSize) / wqebbSize + 1

def cdmaGetNormalSgeNum (opcode : DmaWrOpcode) (ctl : CdmaJfsSqeCtl) : UInt32 :=
  match opcode with
  | .cas | .fadd => cdmaAtomicSgeNum + 1
  | _ => UInt32.ofBitVec (ctl.sgeNum.setWidth 32)

def cdmaGetWqebbCnt (wr : DmaJfsWr) (ctl : CdmaJfsSqeCtl) : UInt32 :=
  cdmaSqCalWqebbNum (cdmaGetCtlLen wr.opcode) (cdmaGetNormalSgeNum wr.opcode ctl) cdmaJfsWqebb

/-! ### Posting -/

def checkSqOverflow (sq : CdmaUJettyQueue) (wqebbCnt : UInt32) : Bool :=
  sq.pi - sq.ci + wqebbCnt > sq.baseblkCnt

/-- Copy the blocks to the current position, and what does not fit before the
end of the ring to its start. -/
def cdmaCopyToSq (memory : Bytes) (sq : CdmaUJettyQueue) (wqebbCnt : UInt32) (tmp : Bytes) :
    Except Errno Bytes :=
  let remain := sq.baseblkCnt - (sq.pi &&& sq.baseblkMask)
  if checkSqOverflow sq wqebbCnt then .error .enomem
  else
    let tailCnt := if remain > wqebbCnt then wqebbCnt else remain
    let headCnt := wqebbCnt - tailCnt
    let memory := copy memory sq.qbufCurr tmp (tailCnt.toNat * 64)
    if headCnt ≠ 0 then
      .ok (copy memory sq.qbuf (fun offset => tmp (tailCnt.toNat * 64 + offset))
        (headCnt.toNat * 64))
    else .ok memory

/-- What a call of `cdma_post_sq_wr` carries from one request to the next: memory,
the queue, and the two locals of the direct path. -/
structure PostLocals where
  memory : Bytes
  sq : CdmaUJettyQueue
  dwqeAddr : Option Nat
  dwqeEnable : Bool

def CdmaUJettyQueue.setWrid (sq : CdmaUJettyQueue) (userCtx : UInt64) : Nat → CdmaUJettyQueue
  | 0 => sq
  | count + 1 =>
      let sq := sq.setWrid userCtx count
      let slot := (sq.pi + UInt32.ofNat count) &&& sq.baseblkMask
      { sq with wrid := Function.update sq.wrid slot userCtx }

/-- An error leaves the queue alone, though it may come after the direct flag was set. -/
def cdmaPostOneWr (ctx : CdmaUContext) (locals : PostLocals) (wr : DmaJfsWr) :
    PostLocals × Option Errno :=
  let sq := locals.sq
  let opcode := cdmaParseJfsOpcode wr.opcode
  if opcode = .invalid then (locals, some .einval)
  else if cdmaCheckSgeNum opcode sq wr then (locals, some .einval)
  else
    match cdmaSetSqe locals.memory .zeroed sq wr opcode with
    | .error err => (locals, some err)
    | .ok tmp =>
        let wqebbCnt := cdmaGetWqebbCnt wr tmp.ctl
        let dwqeEnable := locals.dwqeEnable || (wqebbCnt == 1 && ctx.dwqeEnable != 0)
        let wqebbCnt := if wqebbCnt > maxSqeBbNum then maxSqeBbNum else wqebbCnt
        match cdmaCopyToSq locals.memory sq wqebbCnt tmp.bytes with
        | .error err => ({ locals with dwqeEnable := dwqeEnable }, some err)
        | .ok memory =>
            let qbufCurr := cdmaUpdatePtr sq.qbufCurr (wqebbCnt <<< sq.baseblkShift) sq.qbuf
              (sq.qbuf + sq.qbufSize.toNat)
            let posted := sq.setWrid wr.userCtx wqebbCnt.toNat
            ({ memory := memory
               sq := { posted with qbufCurr := qbufCurr, pi := sq.pi + wqebbCnt }
               dwqeAddr := some sq.qbufCurr
               dwqeEnable := dwqeEnable }, none)

/-- How the device learns of posted requests: the block itself, or an index. -/
inductive SqAnnounce where
  | dsqe (block : List UInt8)
  | db (pi : UInt32)

/-- The direct path stamps the producer index into the block on the ring. -/
def cdmaWriteDsqe (memory : Bytes) (sq : CdmaUJettyQueue) (ctrl : Nat) : Bytes × SqAnnounce :=
  let memory := store memory ctrl (leBytes 2 sq.pi.toNat)
  (memory, .dsqe (load memory ctrl 64))

/-- The locals after the list or its first refused request, the number of requests
accepted, and the error with the position of the request it refused. -/
def postSqWrLoop (ctx : CdmaUContext) :
    List DmaJfsWr → Nat → PostLocals → PostLocals × Nat × Option (Errno × Nat)
  | [], wrCnt, locals => (locals, wrCnt, none)
  | wr :: rest, wrCnt, locals =>
      match cdmaPostOneWr ctx locals wr with
      | (locals, some err) => (locals, wrCnt, some (err, wrCnt))
      | (locals, none) => postSqWrLoop ctx rest (wrCnt + 1) locals

structure PostResult where
  memory : Bytes
  sq : CdmaUJettyQueue
  error : Option (Errno × Nat)
  announce : Option SqAnnounce

def cdmaPostSqWr (ctx : CdmaUContext) (memory : Bytes) (sq : CdmaUJettyQueue)
    (wr : List DmaJfsWr) : PostResult :=
  let (locals, wrCnt, error) :=
    postSqWrLoop ctx wr 0 { memory := memory, sq := sq, dwqeAddr := none, dwqeEnable := false }
  let sq := locals.sq
  if wrCnt = 0 then ⟨locals.memory, sq, error, none⟩
  else
    match wrCnt == 1 && locals.dwqeEnable && sq.pi - sq.ci == 1, locals.dwqeAddr with
    | true, some dwqeAddr =>
        let (memory, announce) := cdmaWriteDsqe locals.memory sq dwqeAddr
        ⟨memory, sq, error, some announce⟩
    | _, _ => ⟨locals.memory, sq, error, some (.db sq.pi)⟩

def cdmaUPostJfsWr (ctx : CdmaUContext) (memory : Memory) (queue : UInt64)
    (wr : List DmaJfsWr) : Memory × Option (Errno × Nat) × Option SqAnnounce :=
  let result := cdmaPostSqWr ctx memory.byte (memory.queue queue) wr
  ({ memory.setQueue queue result.sq with byte := result.memory }, result.error, result.announce)

/-! ### Creating a send queue -/

/-- The completion queue of a send queue is given by its number. -/
structure DmaJfsCfg where
  depth : UInt32
  maxSge : UInt8
  jfc : Option UInt32

def cdmaVerifyJfsParam (cap : CdmaDeviceCap) (cfg : DmaJfsCfg) : Option Errno :=
  if cfg.depth = 0 ∨ cfg.depth > cap.maxJfsDepth ∨ cfg.maxSge.toUInt32 > cap.maxJfsSge
  then some .einval else none

def cdmaUInitSq (sq : CdmaUJettyQueue) : CdmaUJettyQueue :=
  { sq with flushFlag := false, pi := 0, ci := 0 }

/-- The largest request of a queue, in blocks. -/
def sqeBbCnt (cfg : DmaJfsCfg) : UInt32 :=
  let cnt := cdmaSqCalWqebbNum sqeWriteNotifyCtlLen cfg.maxSge.toUInt32 cdmaJfsWqebb
  if cnt > maxSqeBbNum then maxSqeBbNum else cnt

def cdmaUCreateSq (lock : Bool) (env : QueueBufEnv) (memory : Memory) (sq : CdmaUJettyQueue)
    (cfg : DmaJfsCfg) : Except Errno (CdmaUJettyQueue × Memory) :=
  if !lock then .error .einval
  else
    let sq := { cdmaUInitSq sq with sqeBbCnt := sqeBbCnt cfg, maxSgeNum := cfg.maxSge.toUInt32 }
    let wqebbDepth := (roundupPowOfTwo (sqeBbCnt cfg * cfg.depth).toUInt64).toUInt32
    match cdmaUAllocQueueBuf env memory sq wqebbDepth cdmaJfsWqebb cdmaHwPageSize true with
    | .error _ => .error .einval
    | .ok made => .ok made

/-- What the allocator and the kernel answer to a new send queue: `id` is the
kernel's number for it, `db` whether its doorbell page is mapped. -/
structure CreateJfsEnv where
  calloc : Bool
  lock : Bool
  queueBuf : QueueBufEnv
  id : Option UInt32
  db : Bool

def cdmaUExecCreateJfsCmd (id : Option UInt32) (dev : DmaDevice) (cfg : DmaJfsCfg) :
    Option UInt32 :=
  if dev.fd < 0 ∨ cfg.jfc.isNone then none else id

def cdmaUCreateJfs (env : CreateJfsEnv) (memory : Memory) (ctx : Option DmaContext)
    (cfg : Option DmaJfsCfg) : Option CdmaUJettyQueue × Memory :=
  match ctx, cfg with
  | some { dmaDev := some dev, .. }, some cfg =>
      if (cdmaVerifyJfsParam dev.devCap cfg).isSome || !env.calloc then (none, memory)
      else
        match cdmaUCreateSq env.lock env.queueBuf memory .zeroed cfg with
        | .error _ => (none, memory)
        | .ok (sq, memory) =>
            match cdmaUExecCreateJfsCmd env.id dev cfg, env.db with
            | some id, true => (some { sq with idx := id }, memory)
            | _, _ => (none, memory)
  | _, _ => (none, memory)

end Libcdma
