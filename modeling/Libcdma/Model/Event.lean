/-
Completion events (`cdma_u_event.c`, the arm doorbell of `cdma_u_jfc.c`, and the
entries of both in `cdma_u_lib.c`).

A call of `cdma_wait_queue` passes the kernel, the lock of the completion queue
and the doorbell register one after another and holds nothing in between, so it
is given as the stages it goes through.
-/

import Libcdma.Model.Cmd
import Libcdma.Model.Jfc

namespace Libcdma

/-- `struct cdma_jfc_db` with the type `CDMA_CQ_ARM_DB`. -/
structure CdmaJfcDb where
  ci : BitVec 24
  notify : Bool
  armSn : BitVec 2
  jfcn : BitVec 20
  deriving DecidableEq, Repr

/-- The next arming gets its own sequence number, and the events are counted as
acknowledged. -/
def cdmaUAckJfc (jfc : CdmaUJfc) (compEventsAcked events : UInt32) : CdmaUJfc × UInt32 :=
  ({ jfc with armSn := jfc.armSn + 1 }, compEventsAcked + events)

/-- What is written to the doorbell register. -/
def cdmaURearmJfc (jfc : Option CdmaUJfc) (solicitedOnly : Bool) : DmaStatus × Option CdmaJfcDb :=
  match jfc with
  | none => (.inval, none)
  | some jfc =>
      (.ok, some
        { ci := (jfc.cq.ci &&& cdmaJfcDbCiIdxM).toBitVec.setWidth 24
          notify := solicitedOnly
          armSn := jfc.armSn.toBitVec.setWidth 2
          jfcn := jfc.cq.idx.toBitVec.setWidth 20 })

/-- The kernel answers with a number of events, zero when the time is up, or not at all. -/
def cdmaCmdWaitJfc (eventCnt : Option UInt32) : Int :=
  match eventCnt with
  | none => Errno.efault.value
  | some eventCnt => eventCnt.toInt32.toInt

def cdmaUWaitJfc (jfce : Option DmaJfce) (jfcCnt : UInt32) (eventCnt : Option UInt32) : Int :=
  match jfce with
  | none => -1
  | some jfce => if jfce.fd < 0 ∨ jfcCnt = 0 then -1 else cdmaCmdWaitJfc eventCnt

/-! ### The stages of a call -/

/-- Where a thread is in a call on a queue.  `entering` and `polling` are stages of
both calls, told apart by whether the caller waits. -/
inductive QueueCall where
  | idle
  | waiting (crCnt : UInt32) (cr : UInt32 → DmaCr)
  | entering (waits : Bool) (crCnt : UInt32) (cr : UInt32 → DmaCr)
  | polling (waits : Bool) (call : PollCall)
  | polled (pollCnt : Int)
  | acked (pollCnt : Int)
  | arming (pollCnt : Int) (db : CdmaJfcDb)
  | returning (value : Int)

def dmaPollQueue (queue : Option QueueCfg) (crCnt : UInt32) (cr : Option (UInt32 → DmaCr)) :
    QueueCall :=
  match queue, cr with
  | some _, some cr => if crCnt = 0 then .idle else .entering false crCnt cr
  | _, _ => .idle

def dmaWaitQueue (queue : Option QueueCfg) (crCnt : UInt32) (cr : Option (UInt32 → DmaCr)) :
    QueueCall :=
  match queue, cr with
  | some cfg, some cr =>
      if cfg.eventMode = false ∨ crCnt = 0 then .returning Errno.einval.value
      else .waiting crCnt cr
  | _, _ => .returning Errno.einval.value

namespace QueueCall

/-- Back from the kernel: only an error ends the call, running out of time does not. -/
def woken (waitCnt : Int) (crCnt : UInt32) (cr : UInt32 → DmaCr) : QueueCall :=
  if waitCnt < 0 then .returning Errno.efault.value else .entering true crCnt cr

/-- After `cdma_u_poll_jfc`; a poll without a record ends the call right there. -/
def afterPoll (waits : Bool) (pollCnt : Int) : QueueCall :=
  if !waits then .idle
  else if pollCnt ≤ 0 then .returning Errno.efault.value
  else .polled pollCnt

def afterRearm (pollCnt : Int) (rearmed : DmaStatus × Option CdmaJfcDb) : QueueCall :=
  match rearmed with
  | (.ok, some db) => .arming pollCnt db
  | _ => .returning Errno.efault.value

end QueueCall

/-! ### Asynchronous events -/

def eventWaitTime : Int := 10000

def eventEventNum : Int := 1

def dmaAeqeTypeJfc : UInt32 := 0

def dmaAeqeTypeJfs : UInt32 := 1

def dmaAeqeTypeInvalid : UInt32 := 2

structure CdmaCmdAsyncEvent where
  eventData : UInt64
  eventType : UInt32
  deriving DecidableEq, Repr

/-- `ctx` is the address of the context. -/
structure DmaAeqe where
  ctx : Option Nat
  queueId : UInt32
  eventType : UInt32
  duration : Int
  deriving DecidableEq, Repr

structure PollAnswer where
  ret : Int
  pollin : Bool
  pollerr : Bool
  deriving DecidableEq, Repr

/-- A call passes `poll` and `ioctl` one after the other and holds nothing in between. -/
inductive AeCall where
  | polling (ctx : Nat) (arg : DmaAeqe)
  | fetching (ctx : Nat) (arg : DmaAeqe)
  | returned (value : Int) (arg : Option DmaAeqe)
  deriving DecidableEq, Repr

def cdmaCmdGetAsyncEvent (ctx : Nat) (arg : DmaAeqe) : AeCall :=
  if arg.duration < 0 ∨ arg.duration > eventWaitTime then
    .returned Errno.einval.value (some arg)
  else .polling ctx arg

def dmaWaitAe (ctx : Option Nat) (aeqe : Option DmaAeqe) : AeCall :=
  match ctx, aeqe with
  | some ctx, some arg => cdmaCmdGetAsyncEvent ctx arg
  | _, _ => .returned Errno.einval.value aeqe

def CdmaCmdAsyncEvent.queueId (event : CdmaCmdAsyncEvent) : Option UInt32 :=
  if event.eventType = dmaAeqeTypeJfs then some event.eventData.toUInt32
  else if event.eventType = dmaAeqeTypeJfc then some event.eventData.toUInt32
  else if event.eventType = dmaAeqeTypeInvalid then some 0
  else none

namespace AeCall

/-- Ready for neither reading nor an error, the call reports an event all the same. -/
def afterPoll (ctx : Nat) (arg : DmaAeqe) (answer : PollAnswer) : AeCall :=
  if answer.ret ≤ 0 then .returned answer.ret (some arg)
  else if answer.pollin then .fetching ctx arg
  else if answer.pollerr then .returned Errno.efault.value (some arg)
  else .returned eventEventNum (some arg)

def afterFetch (ctx : Nat) (arg : DmaAeqe) (answer : Except Int CdmaCmdAsyncEvent) : AeCall :=
  match answer with
  | .error ret => .returned ret (some arg)
  | .ok event =>
      match event.queueId with
      | none => .returned Errno.efault.value (some arg)
      | some queueId =>
          .returned eventEventNum
            (some { arg with queueId := queueId, ctx := some ctx, eventType := event.eventType })

end AeCall

end Libcdma
