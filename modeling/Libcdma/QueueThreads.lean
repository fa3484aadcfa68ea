/-
Posting and polling, one access to a shared field at a time.

Posting holds the lock of the send queue and polling that of the completion queue, so
nothing keeps them apart.  They meet in the send queue: polling moves the consumer index
and reads the contexts of requests, posting reads the former and writes the latter.  Each
call is cut between its accesses to what the other one or the device looks at, and a call
that nobody interrupts does what it does in one piece.
-/

import Libcdma.CompletionReports
import Libcdma.CompletionWorld
import Libcdma.SendRing

namespace Libcdma

open WrapCounter ByteImage

/-- Where a call of `cdma_post_sq_wr` stands: at the top of its loop, before the overflow
check, before the copy, before the context of one block, after the loop, and before the
device is told. -/
inductive PostStage where
  | build
  | room (wr : DmaJfsWr) (tmp : TmpSq)
  | copy (wr : DmaJfsWr) (tmp : TmpSq)
  | mark (wr : DmaJfsWr) (tmp : TmpSq) (i : Nat)
  | choose (error : Option Errno)
  | announce (error : Option Errno) (direct : Bool)

structure PostThread where
  rest : List DmaJfsWr
  wrCnt : Nat
  dwqeAddr : Option Nat
  dwqeEnable : Bool
  stage : PostStage

def PostThread.start (wrs : List DmaJfsWr) : PostThread :=
  { rest := wrs, wrCnt := 0, dwqeAddr := none, dwqeEnable := false, stage := .build }

inductive PostMove where
  | again (memory : Bytes) (sq : CdmaUJettyQueue) (thread : PostThread)
  | exit (result : PostResult)

/-- The two copies of `cdma_copy_to_sq`, after its check. -/
def copyBlocks (memory : Bytes) (sq : CdmaUJettyQueue) (wqebbCnt : UInt32) (tmp : Bytes) :
    Bytes :=
  let remain := sq.baseblkCnt - (sq.pi &&& sq.baseblkMask)
  let tailCnt := if remain > wqebbCnt then wqebbCnt else remain
  let headCnt := wqebbCnt - tailCnt
  let memory := copy memory sq.qbufCurr tmp (tailCnt.toNat * 64)
  if headCnt ≠ 0 then
    copy memory sq.qbuf (fun offset => tmp (tailCnt.toNat * 64 + offset)) (headCnt.toNat * 64)
  else memory

theorem cdmaCopyToSq_eq_copyBlocks (memory : Bytes) (sq : CdmaUJettyQueue) (wqebbCnt : UInt32)
    (tmp : Bytes) :
    cdmaCopyToSq memory sq wqebbCnt tmp =
      if checkSqOverflow sq wqebbCnt then .error .enomem
      else .ok (copyBlocks memory sq wqebbCnt tmp) := by
  unfold cdmaCopyToSq copyBlocks
  simp only
  split
  · rfl
  · exact (apply_ite Except.ok _ _ _).symm

/-- What one accepted request leaves behind, with the contexts and the blocks in place. -/
def PostLocals.placed (locals : PostLocals) (wr : DmaJfsWr) (tmp : TmpSq) (dwqeEnable : Bool) :
    PostLocals :=
  let cnt := wqebbCnt wr tmp.ctl
  let sq := locals.sq
  { memory := copyBlocks locals.memory sq cnt tmp.bytes
    sq :=
      { sq.setWrid wr.userCtx cnt.toNat with
        qbufCurr := cdmaUpdatePtr sq.qbufCurr (cnt <<< sq.baseblkShift) sq.qbuf
          (sq.qbuf + sq.qbufSize.toNat)
        pi := sq.pi + cnt }
    dwqeAddr := some sq.qbufCurr
    dwqeEnable := dwqeEnable }

def dwqeEnabled (ctx : CdmaUContext) (wr : DmaJfsWr) (tmp : TmpSq) : Bool :=
  cdmaGetWqebbCnt wr tmp.ctl == 1 && ctx.dwqeEnable != 0

theorem cdmaPostOneWr_built {ctx : CdmaUContext} {locals : PostLocals} {wr : DmaJfsWr}
    {tmp : TmpSq} (valid : cdmaParseJfsOpcode wr.opcode ≠ .invalid)
    (within : cdmaCheckSgeNum (cdmaParseJfsOpcode wr.opcode) locals.sq wr = false)
    (built : cdmaSetSqe locals.memory .zeroed locals.sq wr (cdmaParseJfsOpcode wr.opcode) =
      .ok tmp) :
    cdmaPostOneWr ctx locals wr =
      if checkSqOverflow locals.sq (wqebbCnt wr tmp.ctl) then
        ({ locals with dwqeEnable := locals.dwqeEnable || dwqeEnabled ctx wr tmp }, some .enomem)
      else
        (locals.placed wr tmp (locals.dwqeEnable || dwqeEnabled ctx wr tmp), none) := by
  have copied := cdmaCopyToSq_eq_copyBlocks locals.memory locals.sq (wqebbCnt wr tmp.ctl) tmp.bytes
  unfold cdmaPostOneWr
  simp only [valid, within, built, if_false, Bool.false_eq_true]
  by_cases full : checkSqOverflow locals.sq (wqebbCnt wr tmp.ctl) = true
  · rw [if_pos full] at copied ⊢
    unfold wqebbCnt at copied
    simp only [copied]
    rfl
  · rw [if_neg full] at copied ⊢
    unfold wqebbCnt at copied
    simp only [copied]
    rfl

namespace PostThread

def fail (thread : PostThread) (err : Errno) : PostThread :=
  { thread with stage := .choose (some err) }

def turn (ctx : CdmaUContext) (memory : Bytes) (sq : CdmaUJettyQueue) (thread : PostThread) :
    PostMove :=
  match thread.stage with
  | .build =>
      match thread.rest with
      | [] => .again memory sq { thread with stage := .choose none }
      | wr :: rest =>
          let opcode := cdmaParseJfsOpcode wr.opcode
          if opcode = .invalid then .again memory sq (thread.fail .einval)
          else if cdmaCheckSgeNum opcode sq wr then .again memory sq (thread.fail .einval)
          else
            match cdmaSetSqe memory .zeroed sq wr opcode with
            | .error err => .again memory sq (thread.fail err)
            | .ok tmp =>
                .again memory sq
                  { thread with
                    rest := rest
                    dwqeEnable := thread.dwqeEnable || dwqeEnabled ctx wr tmp
                    stage := .room wr tmp }
  | .room wr tmp =>
      if checkSqOverflow sq (wqebbCnt wr tmp.ctl) then .again memory sq (thread.fail .enomem)
      else .again memory sq { thread with stage := .copy wr tmp }
  | .copy wr tmp =>
      let cnt := wqebbCnt wr tmp.ctl
      let qbufCurr := cdmaUpdatePtr sq.qbufCurr (cnt <<< sq.baseblkShift) sq.qbuf
        (sq.qbuf + sq.qbufSize.toNat)
      .again (copyBlocks memory sq cnt tmp.bytes) { sq with qbufCurr := qbufCurr }
        { thread with dwqeAddr := some sq.qbufCurr, stage := .mark wr tmp 0 }
  | .mark wr tmp i =>
      let cnt := wqebbCnt wr tmp.ctl
      if i < cnt.toNat then
        let slot := (sq.pi + UInt32.ofNat i) &&& sq.baseblkMask
        .again memory { sq with wrid := Function.update sq.wrid slot wr.userCtx }
          { thread with stage := .mark wr tmp (i + 1) }
      else
        .again memory { sq with pi := sq.pi + cnt }
          { thread with wrCnt := thread.wrCnt + 1, stage := .build }
  | .choose error =>
      if thread.wrCnt = 0 then .exit ⟨memory, sq, error.map (·, 0), none⟩
      else
        let direct := thread.wrCnt == 1 && thread.dwqeEnable && sq.pi - sq.ci == 1
        .again memory sq { thread with stage := .announce error direct }
  | .announce error direct =>
      match direct, thread.dwqeAddr with
      | true, some dwqeAddr =>
          let (memory, announce) := cdmaWriteDsqe memory sq dwqeAddr
          .exit ⟨memory, sq, error.map (·, thread.wrCnt), some announce⟩
      | _, _ => .exit ⟨memory, sq, error.map (·, thread.wrCnt), some (.db sq.pi)⟩

theorem turn_exit {ctx : CdmaUContext} {memory : Bytes} {sq : CdmaUJettyQueue}
    {thread : PostThread} {result : PostResult} (turned : thread.turn ctx memory sq = .exit result) :
    result.sq = sq ∧
      ((∃ error, thread.stage = .choose error ∧ result.memory = memory) ∨
        ∃ error direct, thread.stage = .announce error direct ∧
          (result.memory = memory ∨
            direct = true ∧ ∃ address, thread.dwqeAddr = some address ∧
              result.memory = store memory address (leBytes 2 sq.pi.toNat))) := by
  unfold turn at turned
  cases stage : thread.stage with
  | choose error =>
      simp only [stage] at turned
      split at turned
      · cases turned
        exact ⟨rfl, .inl ⟨error, rfl, rfl⟩⟩
      · cases turned
  | announce error direct =>
      simp only [stage] at turned
      split at turned
      · rename_i address addr
        cases turned
        exact ⟨rfl, .inr ⟨error, true, rfl, .inr ⟨rfl, address, addr, rfl⟩⟩⟩
      · cases turned
        exact ⟨rfl, .inr ⟨error, _, rfl, .inl rfl⟩⟩
  | build =>
      simp only [stage] at turned
      cases rest : thread.rest with
      | nil => simp only [rest, reduceCtorEq] at turned
      | cons wr rest =>
          simp only [rest] at turned
          split at turned
          · cases turned
          · split at turned
            · cases turned
            · split at turned <;> cases turned
  | room wr tmp =>
      simp only [stage] at turned
      split at turned <;> cases turned
  | copy wr tmp => simp only [stage, reduceCtorEq] at turned
  | mark wr tmp i =>
      simp only [stage] at turned
      split at turned <;> cases turned

/-- The thread returns this when nothing else happens. -/
inductive Returns (ctx : CdmaUContext) : Bytes → CdmaUJettyQueue → PostThread → PostResult → Prop
  | exit {memory : Bytes} {sq : CdmaUJettyQueue} {thread : PostThread} {result : PostResult}
      (last : thread.turn ctx memory sq = .exit result) : Returns ctx memory sq thread result
  | again {memory after : Bytes} {sq moved : CdmaUJettyQueue} {thread later : PostThread}
      {result : PostResult} (turned : thread.turn ctx memory sq = .again after moved later)
      (returns : Returns ctx after moved later result) : Returns ctx memory sq thread result

section Alone

variable {ctx : CdmaUContext} {memory : Bytes} {sq : CdmaUJettyQueue} {thread : PostThread}
  {result : PostResult}

theorem setWrid_qbufCurr (sq : CdmaUJettyQueue) (userCtx : UInt64) (qbufCurr count : Nat) :
    { sq with qbufCurr := qbufCurr }.setWrid userCtx count =
      { sq.setWrid userCtx count with qbufCurr := qbufCurr } := by
  induction count with
  | zero => rfl
  | succ count ih =>
      simp only [CdmaUJettyQueue.setWrid]
      rw [ih]

theorem returns_mark {wr : DmaJfsWr} {tmp : TmpSq} (left i : Nat)
    (count : i + left = (wqebbCnt wr tmp.ctl).toNat)
    (stage : thread.stage = .mark wr tmp i)
    (returns : Returns ctx memory
      { sq.setWrid wr.userCtx (wqebbCnt wr tmp.ctl).toNat with
        pi := sq.pi + wqebbCnt wr tmp.ctl }
      { thread with wrCnt := thread.wrCnt + 1, stage := .build } result) :
    Returns ctx memory (sq.setWrid wr.userCtx i) thread result := by
  have pi_eq (count : Nat) : (sq.setWrid wr.userCtx count).pi = sq.pi := by
    rw [setWrid_frame]
  induction left generalizing i thread with
  | zero =>
      rw [Nat.add_zero] at count
      apply Returns.again _ returns
      unfold turn
      rw [stage]
      simp only [count, Nat.lt_irrefl, if_false, pi_eq]
  | succ left ih =>
      have inside : i < (wqebbCnt wr tmp.ctl).toNat := by omega
      have later : Returns ctx memory (sq.setWrid wr.userCtx (i + 1))
          { thread with stage := .mark wr tmp (i + 1) } result :=
        ih (i + 1) (by omega) rfl returns
      apply Returns.again _ later
      unfold turn
      rw [stage]
      simp only [inside, if_true]
      rfl

def closing (locals : PostLocals) (wrCnt : Nat) (error : Option (Errno × Nat)) : PostResult :=
  if wrCnt = 0 then ⟨locals.memory, locals.sq, error, none⟩
  else
    match wrCnt == 1 && locals.dwqeEnable && locals.sq.pi - locals.sq.ci == 1, locals.dwqeAddr with
    | true, some dwqeAddr =>
        let (memory, announce) := cdmaWriteDsqe locals.memory locals.sq dwqeAddr
        ⟨memory, locals.sq, error, some announce⟩
    | _, _ => ⟨locals.memory, locals.sq, error, some (.db locals.sq.pi)⟩

theorem cdmaPostSqWr_eq_closing (ctx : CdmaUContext) (memory : Bytes) (sq : CdmaUJettyQueue)
    (wrs : List DmaJfsWr) :
    cdmaPostSqWr ctx memory sq wrs =
      closing (postSqWrLoop ctx wrs 0 ⟨memory, sq, none, false⟩).1
        (postSqWrLoop ctx wrs 0 ⟨memory, sq, none, false⟩).2.1
        (postSqWrLoop ctx wrs 0 ⟨memory, sq, none, false⟩).2.2 := rfl

theorem returns_choose (thread : PostThread) {error : Option Errno}
    (stage : thread.stage = .choose error) :
    Returns ctx memory sq thread
      (closing ⟨memory, sq, thread.dwqeAddr, thread.dwqeEnable⟩ thread.wrCnt
        (error.map (·, thread.wrCnt))) := by
  by_cases none : thread.wrCnt = 0
  · apply Returns.exit
    unfold turn closing
    rw [stage]
    simp only [none, if_true]
  · have last : Returns ctx memory sq
        { thread with
          stage := .announce error
            (thread.wrCnt == 1 && thread.dwqeEnable && sq.pi - sq.ci == 1) }
        (closing ⟨memory, sq, thread.dwqeAddr, thread.dwqeEnable⟩ thread.wrCnt
          (error.map (·, thread.wrCnt))) := by
      apply Returns.exit
      unfold turn closing
      simp only [none, if_false]
      split <;> rfl
    apply Returns.again _ last
    unfold turn
    rw [stage]
    simp only [none, if_false]

theorem returns_fail {err : Errno}
    (turned : thread.turn ctx memory sq = .again memory sq (thread.fail err)) :
    Returns ctx memory sq thread
      (closing ⟨memory, sq, thread.dwqeAddr, thread.dwqeEnable⟩ thread.wrCnt
        (some (err, thread.wrCnt))) :=
  .again turned (returns_choose (thread.fail err) rfl)

theorem returns_build (rest : List DmaJfsWr) (wrCnt : Nat) (locals : PostLocals) :
    Returns ctx locals.memory locals.sq
      ⟨rest, wrCnt, locals.dwqeAddr, locals.dwqeEnable, .build⟩
      (closing (postSqWrLoop ctx rest wrCnt locals).1 (postSqWrLoop ctx rest wrCnt locals).2.1
        (postSqWrLoop ctx rest wrCnt locals).2.2) := by
  induction rest generalizing wrCnt locals with
  | nil =>
      have last : Returns ctx locals.memory locals.sq
          ⟨[], wrCnt, locals.dwqeAddr, locals.dwqeEnable, .choose none⟩
          (closing locals wrCnt none) :=
        returns_choose ⟨[], wrCnt, locals.dwqeAddr, locals.dwqeEnable, .choose none⟩ rfl
      exact .again rfl last
  | cons wr rest ih =>
      by_cases valid : cdmaParseJfsOpcode wr.opcode ≠ .invalid
      case neg =>
        rw [not_not] at valid
        simp only [postSqWrLoop, cdmaPostOneWr, valid, if_true]
        apply returns_fail
        simp only [turn, valid, if_true]
      cases within : cdmaCheckSgeNum (cdmaParseJfsOpcode wr.opcode) locals.sq wr with
      | true =>
          simp only [postSqWrLoop, cdmaPostOneWr, valid, within, if_false, if_true]
          apply returns_fail
          simp only [turn, valid, within, if_false, if_true]
      | false =>
        cases built : cdmaSetSqe locals.memory .zeroed locals.sq wr
            (cdmaParseJfsOpcode wr.opcode) with
        | error err =>
            simp only [postSqWrLoop, cdmaPostOneWr, valid, within, built, if_false,
              Bool.false_eq_true]
            apply returns_fail
            simp only [turn, valid, within, built, if_false, Bool.false_eq_true]
        | ok tmp =>
            have build : turn ctx locals.memory locals.sq
                ⟨wr :: rest, wrCnt, locals.dwqeAddr, locals.dwqeEnable, .build⟩ =
                .again locals.memory locals.sq
                  ⟨rest, wrCnt, locals.dwqeAddr,
                    locals.dwqeEnable || dwqeEnabled ctx wr tmp, .room wr tmp⟩ := by
              simp only [turn, valid, within, built, if_false, Bool.false_eq_true]
            apply Returns.again build
            rw [postSqWrLoop, cdmaPostOneWr_built valid within built]
            by_cases full : checkSqOverflow locals.sq (wqebbCnt wr tmp.ctl) = true
            · rw [if_pos full]
              apply returns_fail
              simp only [turn, full, if_true]
            · rw [if_neg full]
              have later := ih (wrCnt + 1)
                (locals.placed wr tmp (locals.dwqeEnable || dwqeEnabled ctx wr tmp))
              apply Returns.again (by simp only [turn, full]; rfl)
              apply Returns.again rfl
              apply returns_mark (wqebbCnt wr tmp.ctl).toNat 0 (Nat.zero_add _) rfl
              rw [setWrid_qbufCurr]
              exact later

/-- A posting thread that nobody interrupts is the call. -/
theorem returns_start (ctx : CdmaUContext) (memory : Bytes) (sq : CdmaUJettyQueue)
    (wrs : List DmaJfsWr) :
    Returns ctx memory sq (.start wrs) (cdmaPostSqWr ctx memory sq wrs) := by
  rw [cdmaPostSqWr_eq_closing]
  exact returns_build wrs 0 ⟨memory, sq, none, false⟩

theorem Returns.unique {other : PostResult} (returns : Returns ctx memory sq thread result)
    (also : Returns ctx memory sq thread other) : result = other := by
  induction returns with
  | exit last =>
      cases also with
      | exit alsoLast =>
          rw [last] at alsoLast
          exact PostMove.exit.inj alsoLast
      | again turned _ =>
          rw [last] at turned
          cases turned
  | again turned _ ih =>
      cases also with
      | exit last =>
          rw [turned] at last
          cases last
      | again alsoTurned rest =>
          rw [turned] at alsoTurned
          cases alsoTurned
          exact ih rest

end Alone

end PostThread

/-! ### A polling thread -/

/-- Where a call of `cdma_u_poll_jfc` stands: at the top of its loop, or with an entry
taken off the ring and the queue it names not yet looked up, its context not yet read, its
status not yet judged; or past the loop. -/
inductive PollStage where
  | look
  | locate (address : Nat)
  | fill (address : Nat) (queue : UInt64)
  | judge (address : Nat) (queue : UInt64)
  | leave (ret : JfcPollState)

structure PollThread where
  call : PollCall
  stage : PollStage

inductive PollMove where
  | again (jfc : CdmaUJfc) (memory : Memory) (thread : PollThread)
  | exit (jfc : CdmaUJfc) (memory : Memory) (call : PollCall) (value : Int)

namespace PollThread

def start (crCnt : UInt32) (cr : UInt32 → DmaCr) : PollThread :=
  { call := .start crCnt cr, stage := .look }

def setCr (thread : PollThread) (cr : DmaCr) : PollThread :=
  { thread with
    call := { thread.call with cr := Function.update thread.call.cr thread.call.npolled cr } }

def goto (thread : PollThread) (stage : PollStage) : PollThread := { thread with stage := stage }

def turn (jfc : CdmaUJfc) (memory : Memory) (thread : PollThread) : PollMove :=
  let call := thread.call
  match thread.stage with
  | .look =>
      if call.npolled < call.crCnt then
        match cdmaUGetNextCqe jfc memory jfc.cq.ci with
        | none => .again jfc memory (thread.goto (.leave .empty))
        | some address =>
            .again (jfc.setCi (jfc.cq.ci + 1)) memory (thread.goto (.locate address))
      else .again jfc memory (thread.goto (.leave .ok))
  | .locate address =>
      match cdmaUUpdateJettyIdx memory (memory.cqe address) with
      | none => .again jfc memory (thread.goto (.leave .pollErr))
      | some (queue, memory) => .again jfc memory (thread.goto (.fill address queue))
  | .fill address queue =>
      let cr := cdmaFillCr (memory.queue queue) (memory.cqe address) (call.cr call.npolled)
      .again jfc memory ((thread.setCr cr).goto (.judge address queue))
  | .judge address queue =>
      let judged := cdmaUUpdateFlushCr memory queue (memory.cqe address) (call.cr call.npolled)
      let thread := thread.setCr judged.cr
      if judged.state ≠ .ok then .again jfc judged.memory (thread.goto (.leave .pollErr))
      else if judged.cr.status = .wrFlushErrDone ∨ judged.cr.status = .wrSuspendDone then
        .again jfc judged.memory (thread.goto (.leave .empty))
      else
        .again jfc judged.memory
          { call := { thread.call with npolled := call.npolled + 1 }, stage := .look }
  | .leave ret =>
      let memory :=
        if call.npolled ≠ 0 then memory.setWord jfc.swDb (jfc.cq.ci &&& cdmaJfcDbCiIdxM)
        else memory
      .exit jfc memory call (if ret = .pollErr then -cdmaInterErr else call.npolled.toInt32.toInt)

inductive Returns : CdmaUJfc → Memory → PollThread → PollResult → Prop
  | exit {jfc after : CdmaUJfc} {memory left : Memory} {thread : PollThread} {call : PollCall}
      {value : Int} (last : thread.turn jfc memory = .exit after left call value) :
      Returns jfc memory thread ⟨value, some after, left, call.cr⟩
  | again {jfc after : CdmaUJfc} {memory left : Memory} {thread later : PollThread}
      {result : PollResult} (turned : thread.turn jfc memory = .again after left later)
      (returns : Returns after left later result) : Returns jfc memory thread result

section Alone

variable {jfc : CdmaUJfc} {memory : Memory} {call : PollCall} {result : PollResult}

/-- The result of a turn of the whole call: it ends, or goes on to this. -/
def Continues (result : PollResult) : PollTurn → Prop
  | .again jfc memory call => Returns jfc memory ⟨call, .look⟩ result
  | .exit jfc memory call value => result = ⟨value, some jfc, memory, call.cr⟩

theorem returns_leave {ret : JfcPollState}
    (continues : Continues result (cdmaUPollJfcExit jfc memory call ret)) :
    Returns jfc memory ⟨call, .leave ret⟩ result := by
  cases continues
  exact .exit rfl

def afterParse (jfc : CdmaUJfc) (call : PollCall) (parsed : ParseResult) : PollTurn :=
  let call := { call with cr := Function.update call.cr call.npolled parsed.cr }
  if parsed.state ≠ .ok then cdmaUPollJfcExit jfc parsed.memory call .pollErr
  else if parsed.cr.status = .wrFlushErrDone ∨ parsed.cr.status = .wrSuspendDone then
    cdmaUPollJfcExit jfc parsed.memory call .empty
  else .again jfc parsed.memory { call with npolled := call.npolled + 1 }

theorem returns_judge {address : Nat} {queue : UInt64}
    (continues : Continues result (afterParse jfc call
      (cdmaUUpdateFlushCr memory queue (memory.cqe address) (call.cr call.npolled)))) :
    Returns jfc memory ⟨call, .judge address queue⟩ result := by
  unfold afterParse at continues
  generalize judged_eq : cdmaUUpdateFlushCr memory queue (memory.cqe address)
    (call.cr call.npolled) = judged at continues
  by_cases failed : judged.state ≠ .ok
  · simp only [if_pos failed] at continues
    apply Returns.again _ (returns_leave continues)
    simp only [turn, judged_eq, if_pos failed]
    rfl
  · simp only [if_neg failed] at continues
    by_cases done : judged.cr.status = .wrFlushErrDone ∨ judged.cr.status = .wrSuspendDone
    · simp only [if_pos done] at continues
      apply Returns.again _ (returns_leave continues)
      simp only [turn, judged_eq, if_neg failed, if_pos done]
      rfl
    · simp only [if_neg done] at continues
      apply Returns.again _ continues
      simp only [turn, judged_eq, if_neg failed, if_neg done]
      rfl

theorem returns_locate {address : Nat}
    (continues : Continues result (afterParse jfc call
      (cdmaParseCqeForJfc memory (memory.cqe address) (call.cr call.npolled)))) :
    Returns jfc memory ⟨call, .locate address⟩ result := by
  simp only [cdmaParseCqeForJfc] at continues
  cases located : cdmaUUpdateJettyIdx memory (memory.cqe address) with
  | none =>
      simp only [located, afterParse, ne_eq, reduceCtorEq, not_false_eq_true, if_true,
        Function.update_eq_self] at continues
      apply Returns.again _ (returns_leave continues)
      simp only [turn, located]
      rfl
  | some found =>
      obtain ⟨queue, after⟩ := found
      have entries := (cdmaUUpdateJettyIdx_frame located).1
      simp only [located] at continues
      have turned : turn jfc memory ⟨call, .locate address⟩ =
          .again jfc after ⟨call, .fill address queue⟩ := by
        simp only [turn, located]
        rfl
      apply Returns.again turned
      apply Returns.again rfl
      apply returns_judge
      simp only [PollThread.setCr, afterParse, entries, Function.update_self,
        Function.update_idem] at continues ⊢
      exact continues

theorem cdmaUPollJfcTurn_taken {address : Nat} (more : call.npolled < call.crCnt)
    (next : cdmaUGetNextCqe jfc memory jfc.cq.ci = some address) :
    cdmaUPollJfcTurn jfc memory call =
      afterParse (jfc.setCi (jfc.cq.ci + 1)) call
        (cdmaParseCqeForJfc memory (memory.cqe address) (call.cr call.npolled)) := by
  unfold cdmaUPollJfcTurn cdmaUPollOne afterParse
  simp only [if_pos more, next]
  generalize cdmaParseCqeForJfc memory (memory.cqe address) (call.cr call.npolled) = parsed
  by_cases failed : parsed.state ≠ .ok
  · simp only [if_pos failed, reduceCtorEq, if_false]
  · by_cases done : parsed.cr.status = .wrFlushErrDone ∨ parsed.cr.status = .wrSuspendDone
    · simp only [if_neg failed, if_pos done, reduceCtorEq, if_false]
    · simp only [if_neg failed, if_neg done, if_true]

theorem returns_look (continues : Continues result (cdmaUPollJfcTurn jfc memory call)) :
    Returns jfc memory ⟨call, .look⟩ result := by
  by_cases more : call.npolled < call.crCnt
  · cases next : cdmaUGetNextCqe jfc memory jfc.cq.ci with
    | none =>
        simp only [cdmaUPollJfcTurn, cdmaUPollOne, if_pos more, next, reduceCtorEq, if_false,
          Function.update_eq_self] at continues
        apply Returns.again _ (returns_leave continues)
        simp only [turn, if_pos more, next]
        rfl
    | some address =>
        rw [cdmaUPollJfcTurn_taken more next] at continues
        have turned : turn jfc memory ⟨call, .look⟩ =
            .again (jfc.setCi (jfc.cq.ci + 1)) memory ⟨call, .locate address⟩ := by
          simp only [turn, if_pos more, next]
          rfl
        exact .again turned (returns_locate continues)
  · rw [cdmaUPollJfcTurn, if_neg more] at continues
    apply Returns.again _ (returns_leave continues)
    simp only [turn, if_neg more]
    rfl

/-- A polling thread that nobody interrupts is the call. -/
theorem returns_loop {fuel : Nat} (looped : cdmaUPollJfcLoop fuel jfc memory call = some result) :
    Returns jfc memory ⟨call, .look⟩ result := by
  induction fuel generalizing jfc memory call with
  | zero => cases looped
  | succ fuel ih =>
      apply returns_look
      unfold cdmaUPollJfcLoop at looped
      cases turned : cdmaUPollJfcTurn jfc memory call with
      | again after left later =>
          rw [turned] at looped
          exact ih looped
      | exit after left last value =>
          rw [turned] at looped
          cases looped
          rfl

theorem Returns.unique {thread : PollThread} {other : PollResult}
    (returns : Returns jfc memory thread result) (also : Returns jfc memory thread other) :
    result = other := by
  induction returns with
  | exit last =>
      cases also with
      | exit alsoLast =>
          rw [last] at alsoLast
          cases alsoLast
          rfl
      | again turned _ =>
          rw [last] at turned
          cases turned
  | again turned _ ih =>
      cases also with
      | exit last =>
          rw [turned] at last
          cases last
      | again alsoTurned rest =>
          rw [turned] at alsoTurned
          cases alsoTurned
          exact ih rest

end Alone

end PollThread

/-- The threads are the calls: one that nobody interrupts returns, and returns what the call
returns in one piece. -/
theorem cdmaPostSqWr_cdmaUPollJfc_uninterrupted :
    (∀ (ctx : CdmaUContext) (memory : Bytes) (sq : CdmaUJettyQueue) (wrs : List DmaJfsWr)
      (result : PostResult),
      PostThread.Returns ctx memory sq (.start wrs) result ↔
        cdmaPostSqWr ctx memory sq wrs = result) ∧
    (∀ (jfc : CdmaUJfc) (memory : Memory) (crCnt : UInt32) (cr : UInt32 → DmaCr)
      (result : PollResult),
      PollThread.Returns jfc memory (.start crCnt cr) result ↔
        cdmaUPollJfc (some jfc) memory crCnt cr = some result) := by
  constructor
  · intro ctx memory sq wrs result
    have called := PostThread.returns_start ctx memory sq wrs
    constructor
    · intro returns
      exact called.unique returns
    · intro same
      rw [← same]
      exact called
  · intro jfc memory crCnt cr result
    have left : (PollCall.start crCnt cr).npolled.toNat + crCnt.toNat =
        (PollCall.start crCnt cr).crCnt.toNat := Nat.zero_add crCnt.toNat
    obtain ⟨called, _, looped, _⟩ : ∃ called other,
        cdmaUPollJfcLoop (crCnt.toNat + 1) jfc memory (.start crCnt cr) = some called ∧ _ :=
      cdmaUPollJfcLoop_alike left cr
    constructor
    · intro returns
      have same := (PollThread.returns_loop looped).unique returns
      rw [← same]
      exact looped
    · intro looped
      exact PollThread.returns_loop looped

end Libcdma
