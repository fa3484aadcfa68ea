/-
A completion queue, its device and its pollers, one step at a time.

The device may write between any two turns of a poll call, and posting threads
may rewrite their send queues then.  The world keeps the history that the
statements are about: what was written, what was consumed, which records were
handed to callers and which records were due to them.
-/

import Libcdma.CompletionRing

namespace Libcdma

open WrapCounter LapRing Transition

/-- A bad status pair or a null queue pointer. -/
def CdmaUJfcCqe.invalid (cqe : CdmaUJfcCqe) : Bool :=
  cqe.userData == 0 || (cdmaGetCrStatus cqe.status cqe.substatus).isNone

/-- An entry whose record is due to the caller. -/
def CdmaUJfcCqe.good (cqe : CdmaUJfcCqe) : Bool := !cqe.invalid && !cqe.fd

def completionIndex (q : CdmaUJettyQueue) (cqe : CdmaUJfcCqe) : UInt32 :=
  q.ci + ((cqe.entryIdx.toUInt32 - q.ci) &&& q.baseblkMask)

def completionRecord (memory : Memory) (cqe : CdmaUJfcCqe) (cr : DmaCr) : DmaCr :=
  let q := memory.queue cqe.userData
  { cdmaFillCr { q with ci := completionIndex q cqe } cqe cr with
    status := (cdmaGetCrStatus cqe.status cqe.substatus).getD .success }

theorem cdmaGetCrStatus_mem {srcStatus substatus : UInt8} {status : DmaCrStatus}
    (found : cdmaGetCrStatus srcStatus substatus = some status) :
    ∃ row ∈ cdmaCqeStatusMap, some status ∈ row := by
  unfold cdmaGetCrStatus at found
  cases rowAt : cdmaCqeStatusMap[srcStatus.toNat]? with
  | none =>
      rw [rowAt] at found
      cases found
  | some row =>
      rw [rowAt] at found
      cases entryAt : row[substatus.toNat]? with
      | none =>
          simp only [entryAt, Option.getD_none] at found
          cases found
      | some entry =>
          simp only [entryAt, Option.getD_some] at found
          subst found
          exact ⟨row, List.mem_of_getElem? rowAt, List.mem_of_getElem? entryAt⟩

theorem cdmaGetCrStatus_ne_done {srcStatus substatus : UInt8} {status : DmaCrStatus}
    (found : cdmaGetCrStatus srcStatus substatus = some status) :
    ¬(status = .wrFlushErrDone ∨ status = .wrSuspendDone) := by
  obtain ⟨row, rowMember, member⟩ := cdmaGetCrStatus_mem found
  have table : ∀ row ∈ cdmaCqeStatusMap, ∀ entry ∈ row,
      entry ≠ some .wrFlushErrDone ∧ entry ≠ some .wrSuspendDone := by decide
  have checked := table row rowMember _ member
  rintro (rfl | rfl)
  · exact checked.1 rfl
  · exact checked.2 rfl

theorem cdmaUUpdateFlushCr_frame (memory : Memory) (queue : UInt64) (cqe : CdmaUJfcCqe)
    (cr : DmaCr) :
    (cdmaUUpdateFlushCr memory queue cqe cr).memory.cqe = memory.cqe ∧
    (cdmaUUpdateFlushCr memory queue cqe cr).memory.word = memory.word ∧
    (cdmaUUpdateFlushCr memory queue cqe cr).memory.byte = memory.byte := by
  unfold cdmaUUpdateFlushCr
  cases cdmaGetCrStatus cqe.status cqe.substatus with
  | none => exact ⟨rfl, rfl, rfl⟩
  | some status => cases fd : cqe.fd <;> exact ⟨rfl, rfl, rfl⟩

theorem cdmaUUpdateJettyIdx_frame {memory after : Memory} {cqe : CdmaUJfcCqe} {queue : UInt64}
    (found : cdmaUUpdateJettyIdx memory cqe = some (queue, after)) :
    after.cqe = memory.cqe ∧ after.word = memory.word ∧ after.byte = memory.byte := by
  unfold cdmaUUpdateJettyIdx at found
  by_cases null : cqe.userData = 0
  · simp [null] at found
  · cases fd : cqe.fd with
    | true =>
        simp only [null, fd, if_false, if_true, Option.some.injEq, Prod.mk.injEq] at found
        obtain ⟨_, rfl⟩ := found
        exact ⟨rfl, rfl, rfl⟩
    | false =>
        simp only [null, fd, if_false, Option.some.injEq, Prod.mk.injEq, Bool.false_eq_true]
          at found
        obtain ⟨_, rfl⟩ := found
        exact ⟨rfl, rfl, rfl⟩

theorem cdmaParseCqeForJfc_frame (memory : Memory) (cqe : CdmaUJfcCqe) (cr : DmaCr) :
    (cdmaParseCqeForJfc memory cqe cr).memory.cqe = memory.cqe ∧
    (cdmaParseCqeForJfc memory cqe cr).memory.word = memory.word ∧
    (cdmaParseCqeForJfc memory cqe cr).memory.byte = memory.byte := by
  unfold cdmaParseCqeForJfc
  cases found : cdmaUUpdateJettyIdx memory cqe with
  | none => exact ⟨rfl, rfl, rfl⟩
  | some pair =>
      obtain ⟨queue, after⟩ := pair
      have index := cdmaUUpdateJettyIdx_frame found
      have flush := cdmaUUpdateFlushCr_frame after queue cqe
        (cdmaFillCr (after.queue queue) cqe cr)
      exact ⟨flush.1.trans index.1, flush.2.1.trans index.2.1, flush.2.2.trans index.2.2⟩

theorem cdmaParseCqeForJfc_invalid {memory : Memory} {cqe : CdmaUJfcCqe} {cr : DmaCr}
    (invalid : cqe.invalid = true) : (cdmaParseCqeForJfc memory cqe cr).state = .pollErr := by
  unfold CdmaUJfcCqe.invalid at invalid
  by_cases null : cqe.userData = 0
  · simp [cdmaParseCqeForJfc, cdmaUUpdateJettyIdx, null]
  · have bad : cdmaGetCrStatus cqe.status cqe.substatus = none := by simpa [null] using invalid
    cases fd : cqe.fd <;>
      simp [cdmaParseCqeForJfc, cdmaUUpdateJettyIdx, cdmaUUpdateFlushCr, null, fd, bad]

theorem cdmaParseCqeForJfc_flush (memory : Memory) (cr : DmaCr) {cqe : CdmaUJfcCqe}
    (valid : cqe.invalid = false) (fd : cqe.fd = true) :
    (cdmaParseCqeForJfc memory cqe cr).state = .ok ∧
      (cdmaParseCqeForJfc memory cqe cr).cr.status = .wrFlushErrDone := by
  simp only [CdmaUJfcCqe.invalid, Bool.or_eq_false_iff, beq_eq_false_iff_ne] at valid
  cases found : cdmaGetCrStatus cqe.status cqe.substatus with
  | none => simp [found] at valid
  | some status =>
      simp [cdmaParseCqeForJfc, cdmaUUpdateJettyIdx, cdmaUUpdateFlushCr, valid.1, fd, found]

theorem cdmaParseCqeForJfc_good (memory : Memory) (cr : DmaCr) {cqe : CdmaUJfcCqe}
    (good : cqe.good = true) :
    (cdmaParseCqeForJfc memory cqe cr).state = .ok ∧
      (cdmaParseCqeForJfc memory cqe cr).cr = completionRecord memory cqe cr := by
  simp only [CdmaUJfcCqe.good, CdmaUJfcCqe.invalid, Bool.and_eq_true, Bool.not_eq_true',
    Bool.or_eq_false_iff, beq_eq_false_iff_ne] at good
  obtain ⟨⟨null, status⟩, fd⟩ := good
  cases found : cdmaGetCrStatus cqe.status cqe.substatus with
  | none => simp [found] at status
  | some status =>
      simp [cdmaParseCqeForJfc, cdmaUUpdateJettyIdx, cdmaUUpdateFlushCr, completionRecord,
        completionIndex, null, fd, found]

theorem cdmaUPollOne_empty {jfc : CdmaUJfc} {memory : Memory} {cr : DmaCr}
    (caughtUp : cdmaUGetNextCqe jfc memory jfc.cq.ci = none) :
    cdmaUPollOne jfc memory cr = ⟨jfc, memory, cr, .empty⟩ := by
  simp [cdmaUPollOne, caughtUp]

theorem cdmaUPollOne_consumes (cr : DmaCr) {jfc : CdmaUJfc} {memory : Memory} {address : Nat}
    (next : cdmaUGetNextCqe jfc memory jfc.cq.ci = some address) :
    (cdmaUPollOne jfc memory cr).jfc = jfc.setCi (jfc.cq.ci + 1) ∧
    (cdmaUPollOne jfc memory cr).memory =
      (cdmaParseCqeForJfc memory (memory.cqe address) cr).memory ∧
    (cdmaUPollOne jfc memory cr).cr =
      (cdmaParseCqeForJfc memory (memory.cqe address) cr).cr := by
  simp only [cdmaUPollOne, next]
  split
  · exact ⟨rfl, rfl, rfl⟩
  · split <;> exact ⟨rfl, rfl, rfl⟩

theorem cdmaUPollOne_state (cr : DmaCr) {jfc : CdmaUJfc} {memory : Memory} {address : Nat}
    (next : cdmaUGetNextCqe jfc memory jfc.cq.ci = some address) :
    (cdmaUPollOne jfc memory cr).state =
      if (memory.cqe address).invalid then .pollErr
      else if (memory.cqe address).fd then .empty else .ok := by
  cases invalid : (memory.cqe address).invalid with
  | true =>
      simp [cdmaUPollOne, next, cdmaParseCqeForJfc_invalid invalid]
  | false =>
      cases fd : (memory.cqe address).fd with
      | true =>
          have flush := cdmaParseCqeForJfc_flush memory cr invalid fd
          simp [cdmaUPollOne, next, flush]
      | false =>
          have isGood : (memory.cqe address).good = true := by
            simp [CdmaUJfcCqe.good, invalid, fd]
          have parsed := cdmaParseCqeForJfc_good memory cr isGood
          have status : ¬((completionRecord memory (memory.cqe address) cr).status =
              .wrFlushErrDone ∨
              (completionRecord memory (memory.cqe address) cr).status = .wrSuspendDone) := by
            simp only [CdmaUJfcCqe.invalid, Bool.or_eq_false_iff, beq_eq_false_iff_ne] at invalid
            cases found : cdmaGetCrStatus (memory.cqe address).status
                (memory.cqe address).substatus with
            | none => simp [found] at invalid
            | some status =>
                simpa [completionRecord, found] using cdmaGetCrStatus_ne_done found
          simp [cdmaUPollOne, next, parsed, status]

def PollTurn.jfc : PollTurn → CdmaUJfc
  | .again jfc _ _ => jfc
  | .exit jfc _ _ _ => jfc

def PollTurn.memory : PollTurn → Memory
  | .again _ memory _ => memory
  | .exit _ memory _ _ => memory

def PollCall.upcoming (call : PollCall) (jfc : CdmaUJfc) (memory : Memory) :
    Option CdmaUJfcCqe :=
  if call.npolled < call.crCnt then (cdmaUGetNextCqe jfc memory jfc.cq.ci).map memory.cqe
  else none

theorem cdmaUPollJfcExit_frame (jfc : CdmaUJfc) (memory : Memory) (call : PollCall)
    (ret : JfcPollState) :
    (cdmaUPollJfcExit jfc memory call ret).jfc = jfc ∧
    (cdmaUPollJfcExit jfc memory call ret).memory.cqe = memory.cqe ∧
    (cdmaUPollJfcExit jfc memory call ret).memory.queue = memory.queue := by
  unfold cdmaUPollJfcExit
  by_cases polled : call.npolled = 0 <;> simp [polled, PollTurn.jfc, PollTurn.memory]

theorem cdmaUPollJfcTurn_idle {jfc : CdmaUJfc} {memory : Memory} {call : PollCall}
    (idle : call.upcoming jfc memory = none) :
    cdmaUPollJfcTurn jfc memory call = cdmaUPollJfcExit jfc memory call .ok := by
  unfold PollCall.upcoming at idle
  unfold cdmaUPollJfcTurn
  by_cases more : call.npolled < call.crCnt
  · rw [if_pos more, Option.map_eq_none_iff] at idle
    simp [more, cdmaUPollOne_empty idle, cdmaUPollJfcExit]
  · rw [if_neg more]

/-- A turn that meets an entry takes it off the ring, and the call goes on only
after a good one. -/
theorem cdmaUPollJfcTurn_meets {jfc : CdmaUJfc} {memory : Memory} {call : PollCall}
    {cqe : CdmaUJfcCqe} (next : call.upcoming jfc memory = some cqe) :
    cdmaUPollJfcTurn jfc memory call =
      let parsed := cdmaParseCqeForJfc memory cqe (call.cr call.npolled)
      let call := { call with cr := Function.update call.cr call.npolled parsed.cr }
      let jfc := jfc.setCi (jfc.cq.ci + 1)
      if cqe.good then .again jfc parsed.memory { call with npolled := call.npolled + 1 }
      else cdmaUPollJfcExit jfc parsed.memory call (if cqe.invalid then .pollErr else .empty) := by
  unfold PollCall.upcoming at next
  by_cases more : call.npolled < call.crCnt
  · rw [if_pos more, Option.map_eq_some_iff] at next
    obtain ⟨address, found, rfl⟩ := next
    have consumed := cdmaUPollOne_consumes (call.cr call.npolled) found
    have state := cdmaUPollOne_state (call.cr call.npolled) found
    unfold cdmaUPollJfcTurn
    rw [if_pos more]
    generalize cdmaUPollOne jfc memory (call.cr call.npolled) = one at consumed state ⊢
    obtain ⟨oneJfc, oneMemory, oneCr, oneState⟩ := one
    obtain ⟨rfl, rfl, rfl⟩ := consumed
    cases state
    unfold CdmaUJfcCqe.good
    cases (memory.cqe address).invalid with
    | true => rfl
    | false => cases (memory.cqe address).fd <;> rfl
  · rw [if_neg more] at next
    cases next

theorem cdmaUPollJfcTurn_ring {jfc : CdmaUJfc} {memory : Memory} {call : PollCall}
    {cqe : CdmaUJfcCqe} (next : call.upcoming jfc memory = some cqe) :
    (cdmaUPollJfcTurn jfc memory call).jfc = jfc.setCi (jfc.cq.ci + 1) ∧
    (cdmaUPollJfcTurn jfc memory call).memory.cqe = memory.cqe ∧
    (cdmaUPollJfcTurn jfc memory call).memory.queue =
      (cdmaParseCqeForJfc memory cqe (call.cr call.npolled)).memory.queue := by
  have frame := cdmaParseCqeForJfc_frame memory cqe (call.cr call.npolled)
  rw [cdmaUPollJfcTurn_meets next]
  by_cases good : cqe.good = true
  · rw [if_pos good]
    exact ⟨rfl, frame.1, rfl⟩
  · rw [if_neg good]
    have exits := cdmaUPollJfcExit_frame (jfc.setCi (jfc.cq.ci + 1))
      (cdmaParseCqeForJfc memory cqe (call.cr call.npolled)).memory
    exact ⟨(exits _ _).1, (exits _ _).2.1.trans frame.1, (exits _ _).2.2⟩

/-! ### The world -/

structure CqWorld where
  jfc : CdmaUJfc
  memory : Memory
  written : List CdmaUJfcCqe
  consumed : List CdmaUJfcCqe
  call : Option PollCall
  /-- how many entries had been consumed when the current call began -/
  opened : Nat
  reported : List DmaCr
  /-- the records of all consumed good entries -/
  due : List DmaCr

inductive CqAction where
  | produce (cqe : CdmaUJfcCqe)
  | post (queue : UInt64 → CdmaUJettyQueue)
  | call (crCnt : UInt32) (cr : UInt32 → DmaCr)
  | turn

namespace CqWorld

def produce (w : CqWorld) (cqe : CdmaUJfcCqe) : CqWorld :=
  { w with
    memory := deviceWrite w.jfc.cq w.memory w.written.length cqe
    written := w.written ++ [deviceEntry w.jfc.cq w.written.length cqe] }

def handed (cr : UInt32 → DmaCr) (value : Int) : List DmaCr :=
  (List.range value.toNat).map (fun index => cr (counter index))

def applyTurn (w : CqWorld) : PollTurn → CqWorld
  | .again jfc memory call => { w with jfc := jfc, memory := memory, call := some call }
  | .exit jfc memory call value =>
      { w with
        jfc := jfc
        memory := memory
        call := none
        reported := w.reported ++ handed call.cr value }

def consume (w : CqWorld) (call : PollCall) : CqWorld :=
  match call.upcoming w.jfc w.memory with
  | none => w
  | some cqe =>
      { w with
        consumed := w.consumed ++ [cqe]
        due := w.due ++
          if cqe.good then [completionRecord w.memory cqe (call.cr call.npolled)] else [] }

def turn (w : CqWorld) (call : PollCall) : CqWorld :=
  (w.consume call).applyTurn (cdmaUPollJfcTurn w.jfc w.memory call)

/-- The device stays within one ring of the entries consumed; the queue's lock
admits one call at a time. -/
def step (w : CqWorld) : CqAction → Option CqWorld
  | .produce cqe =>
      if w.written.length < w.consumed.length + w.jfc.cq.baseblkCnt.toNat
      then some (w.produce cqe) else none
  | .post queue => some { w with memory := { w.memory with queue := queue } }
  | .call crCnt cr =>
      match w.call with
      | none => some { w with call := some (.start crCnt cr), opened := w.consumed.length }
      | some _ => none
  | .turn => w.call.map w.turn

structure Initial (w : CqWorld) (shift stride : Nat) : Prop where
  geometry : CqGeometry w.jfc.cq shift stride
  ci_eq : w.jfc.cq.ci = 0
  zeroed : ∀ slot, slot < 2 ^ shift → w.memory.cqe (w.jfc.cq.slotAddress slot) = .zeroed
  written_eq : w.written = []
  consumed_eq : w.consumed = []
  call_eq : w.call = none
  reported_eq : w.reported = []
  due_eq : w.due = []

def Ring (w : CqWorld) (shift stride : Nat) : Prop :=
  RingInv shift stride w.jfc.cq w.memory.cqe w.written w.consumed

theorem Initial.ring {w : CqWorld} {shift stride : Nat} (start : w.Initial shift stride) :
    w.Ring shift stride := by
  refine ⟨start.geometry, ?_, ?_, ?_, ?_, ?_⟩
  · rw [start.ci_eq, start.consumed_eq]
    rfl
  · rw [start.written_eq, start.consumed_eq]
  · rw [start.written_eq]
    exact Nat.zero_le _
  · rw [start.written_eq]
    apply Stamped.blank
    intro slot inside
    exact congrArg CdmaUJfcCqe.owner (start.zeroed slot inside)
  · rw [start.written_eq, start.consumed_eq]
    rfl

@[simp] theorem applyTurn_written (w : CqWorld) (turn : PollTurn) :
    (w.applyTurn turn).written = w.written := by
  cases turn <;> rfl

@[simp] theorem applyTurn_consumed (w : CqWorld) (turn : PollTurn) :
    (w.applyTurn turn).consumed = w.consumed := by
  cases turn <;> rfl

@[simp] theorem applyTurn_due (w : CqWorld) (turn : PollTurn) :
    (w.applyTurn turn).due = w.due := by
  cases turn <;> rfl

theorem consume_none {w : CqWorld} {call : PollCall} (idle : call.upcoming w.jfc w.memory = none) :
    w.consume call = w := by
  simp [consume, idle]

theorem consume_some {w : CqWorld} {call : PollCall} {cqe : CdmaUJfcCqe}
    (next : call.upcoming w.jfc w.memory = some cqe) :
    w.consume call =
      { w with
        consumed := w.consumed ++ [cqe]
        due := w.due ++
          if cqe.good then [completionRecord w.memory cqe (call.cr call.npolled)] else [] } := by
  simp [consume, next]

@[simp] theorem applyTurn_jfc (w : CqWorld) (turn : PollTurn) :
    (w.applyTurn turn).jfc = turn.jfc := by
  cases turn <;> rfl

@[simp] theorem applyTurn_memory (w : CqWorld) (turn : PollTurn) :
    (w.applyTurn turn).memory = turn.memory := by
  cases turn <;> rfl

variable {w : CqWorld} {shift stride : Nat}

theorem Ring.upcoming_eq (ring : w.Ring shift stride) {call : PollCall} {cqe : CdmaUJfcCqe}
    (next : call.upcoming w.jfc w.memory = some cqe) :
    w.consumed.length < w.written.length ∧
      cqe = w.memory.cqe (w.jfc.cq.slotAddress (w.consumed.length % 2 ^ shift)) := by
  unfold PollCall.upcoming at next
  have found : (cdmaUGetNextCqe w.jfc w.memory w.jfc.cq.ci).map w.memory.cqe = some cqe := by
    split at next
    · exact next
    · cases next
  rw [RingInv.next_eq ring] at found
  by_cases behind : w.consumed.length < w.written.length
  · rw [if_pos behind] at found
    exact ⟨behind, (Option.some.inj found).symm⟩
  · rw [if_neg behind] at found
    cases found

theorem Ring.turn (ring : w.Ring shift stride) (call : PollCall) :
    (w.turn call).Ring shift stride := by
  unfold CqWorld.turn Ring
  rw [applyTurn_jfc, applyTurn_memory, applyTurn_written, applyTurn_consumed]
  cases next : call.upcoming w.jfc w.memory with
  | none =>
      have exits := cdmaUPollJfcExit_frame w.jfc w.memory call .ok
      rw [consume_none next, cdmaUPollJfcTurn_idle next, exits.1, exits.2.1]
      exact ring
  | some cqe =>
      obtain ⟨behind, rfl⟩ := ring.upcoming_eq next
      rw [consume_some next, (cdmaUPollJfcTurn_ring next).1, (cdmaUPollJfcTurn_ring next).2.1]
      exact RingInv.consume ring behind

theorem Ring.step (ring : w.Ring shift stride) {action : CqAction} {next : CqWorld}
    (stepped : w.step action = some next) : next.Ring shift stride := by
  cases action with
  | produce cqe =>
      simp only [CqWorld.step, Option.ite_none_right_eq_some, Option.some.injEq] at stepped
      obtain ⟨free, rfl⟩ := stepped
      rw [ring.geometry.cnt_toNat] at free
      exact RingInv.produce ring free cqe
  | post queue =>
      cases stepped
      exact ring
  | call crCnt cr =>
      simp only [CqWorld.step] at stepped
      split at stepped
      · cases stepped
        exact ring
      · cases stepped
  | turn =>
      simp only [CqWorld.step, Option.map_eq_some_iff] at stepped
      obtain ⟨call, _, rfl⟩ := stepped
      exact ring.turn call

theorem Ring.run (ring : w.Ring shift stride) {actions : List CqAction} {final : CqWorld}
    (ran : run CqWorld.step w actions = some final) : final.Ring shift stride :=
  run_invariant CqWorld.step (fun _ _ _ held stepped => Ring.step held stepped) ring ran

end CqWorld

/-- In every state of every interleaving, the consumer index counts the entries
consumed, the owner test finds an entry exactly when the device is ahead of
polling, the entry found is the oldest one not consumed, and what polling has
consumed is a prefix of what the device wrote. -/
theorem cdmaUGetNextCqe_run {start final : CqWorld} {shift stride : Nat}
    (initial : start.Initial shift stride) {actions : List CqAction}
    (ran : run CqWorld.step start actions = some final) :
    final.jfc.cq.ci = counter final.consumed.length ∧
    ((∃ address, cdmaUGetNextCqe final.jfc final.memory final.jfc.cq.ci = some address) ↔
      final.consumed.length < final.written.length) ∧
    (∀ address, cdmaUGetNextCqe final.jfc final.memory final.jfc.cq.ci = some address →
      ∃ later, final.written = final.consumed ++ final.memory.cqe address :: later) ∧
    (∃ pending, final.written = final.consumed ++ pending) := by
  have ring := initial.ring.run ran
  have next := RingInv.next_eq ring
  refine ⟨ring.ci_eq, ?_, ?_, ⟨_, ring.pending⟩⟩
  · rw [next]
    by_cases behind : final.consumed.length < final.written.length <;> simp [behind]
  · intro address found
    rw [next] at found
    by_cases behind : final.consumed.length < final.written.length
    · rw [if_pos behind] at found
      cases found
      exact ⟨_, RingInv.written_eq ring behind⟩
    · rw [if_neg behind] at found
      cases found

def CdmaUJfcCqe.success : CdmaUJfcCqe := { CdmaUJfcCqe.zeroed with userDataL := 2048 }

def CdmaUJfcCqe.flushDone : CdmaUJfcCqe := { CdmaUJfcCqe.success with fd := true }

def CdmaUJettyQueue.empty : CdmaUJettyQueue :=
  { qbuf := 8192, qbufSize := 4096, qbufCurr := 8192, pi := 0, ci := 0, idx := 0
    baseblkShift := 6, baseblkCnt := 64, baseblkMask := 63, wrid := fun index => index.toUInt64
    sqeBbCnt := 1, maxSgeNum := 1, flushFlag := false }

def DmaCr.blank : DmaCr :=
  { status := .success, userCtx := 0, opcode := 0
    flag := { sR := false, jetty := false, suspendDone := false, flushErrDone := false
              reserved := 0 }
    completionLen := 0, localId := 0, remoteId := 0, tpn := 0 }

/-- A ring of the least depth, with entries of 64 bytes, just created. -/
def CqWorld.minDepth : CqWorld :=
  { jfc := { cq := .empty, armSn := 1, swDb := 16384 }
    memory :=
      { byte := fun _ => 0, cqe := fun _ => .zeroed, queue := fun _ => .empty
        word := fun _ => 0 }
    written := [], consumed := [], call := none, opened := 0, reported := [], due := [] }

theorem CqWorld.minDepth_initial : CqWorld.minDepth.Initial 6 6 :=
  ⟨⟨rfl, rfl, rfl, by decide⟩, rfl, fun _ _ => rfl, rfl, rfl, rfl, rfl, rfl⟩

theorem cdmaUGetNextCqe_run_minDepth :
    ∃ final, run CqWorld.step .minDepth
        [.produce .success, .produce .flushDone, .call 1 fun _ => .blank, .turn] = some final ∧
      ∃ pending, final.written = final.consumed ++ pending := by
  have runs : (run CqWorld.step .minDepth
      [.produce .success, .produce .flushDone, .call 1 fun _ => .blank, .turn]).isSome := by decide
  obtain ⟨final, ran⟩ := Option.isSome_iff_exists.mp runs
  exact ⟨final, ran, (cdmaUGetNextCqe_run CqWorld.minDepth_initial ran).2.2.2⟩

end Libcdma
