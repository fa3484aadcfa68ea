/-
Room in the completion ring for the requests of a queue.

Both rings of a queue are sized from one depth, the send ring in blocks and the
completion ring in entries, and posting looks at the send ring only.  The world
below follows the calls of the library on one queue, with a device that answers
every accepted request with one entry, in posting order.
-/

import Libcdma.CompletionRouting
import Libcdma.Model.Event
import Libcdma.QueueAdmission
import Libcdma.QueueLifetimes
import Libcdma.SegmentRequests

namespace Libcdma

open WrapCounter LapRing Ledger Transition

theorem Chain.drop {first pi index : Nat} {requests : List SqRequest} {request : SqRequest}
    (chain : Chain first requests pi) (here : requests[index]? = some request) :
    Chain request.first (requests.drop index) pi := by
  induction index generalizing first requests with
  | zero =>
      cases requests with
      | nil => cases here
      | cons head rest =>
          cases here
          exact ⟨rfl, chain.2⟩
  | succ index ih =>
      cases requests with
      | nil => cases here
      | cons head rest => exact ih chain.2 here

theorem cdmaPostSqWr_one {sq : CdmaUJettyQueue} {shift ci pi : Nat} (ring : SqAt shift sq ci pi)
    (ctx : CdmaUContext) (memory : ByteImage.Bytes) (wr : DmaJfsWr) :
    ((cdmaPostSqWr ctx memory sq [wr]).error.isSome = true ∧
      postedRequests ctx [wr] pi ⟨memory, sq, none, false⟩ = []) ∨
    ∃ request, (cdmaPostSqWr ctx memory sq [wr]).error = none ∧
      postedRequests ctx [wr] pi ⟨memory, sq, none, false⟩ = [request] := by
  have locals : SqAt shift (PostLocals.mk memory sq none false).sq ci pi := ring
  rcases cdmaPostOneWr_cases locals ctx wr with
    ⟨err, dwqeEnable, refused⟩ | ⟨request, checked, room, accepted⟩
  · left
    rw [cdmaPostSqWr_refused refused]
    exact ⟨rfl, postedRequests_refused refused⟩
  · right
    obtain ⟨_, _, found⟩ := requestChecked_eq_some checked
    exact ⟨request, (cdmaPostSqWr_accepted ring ctx checked room).1,
      postedRequests_accepted found accepted⟩

theorem cdmaPostRequest_ok (ctx : CdmaUContext) (memory : Memory) (queue : DmaQueue)
    (wr : DmaJfsWr) : (cdmaPostRequest ctx memory queue wr).status = .ok ↔
      (cdmaPostSqWr ctx memory.byte (memory.queue queue.jfs) [wr]).error = none := by
  change (if (cdmaPostSqWr ctx memory.byte (memory.queue queue.jfs) [wr]).error.isSome then
    DmaStatus.inval else .ok) = .ok ↔ _
  cases (cdmaPostSqWr ctx memory.byte (memory.queue queue.jfs) [wr]).error with
  | none => exact ⟨fun _ => rfl, fun _ => rfl⟩
  | some error => exact ⟨nofun, nofun⟩

/-- How many calls have reported a request as posted, and how many entries polling
has taken. -/
structure RoomWorld where
  cfg : QueueCfg
  tp : UInt32
  world : QueueWorld
  accepted : Nat
  taken : Nat

inductive RoomAction where
  | request (call : SegmentCall) (rmtSeg localSeg : DmaSeg)
  | complete (cqe : CdmaUJfcCqe)
  | poll (crCnt : UInt32) (cr : Option (UInt32 → DmaCr))
  | turn

namespace RoomWorld

def queue (w : RoomWorld) : DmaQueue := { cfg := w.cfg, tp := some w.tp, jfs := w.world.queue }

/-- A call that passes its checks posts one work request. -/
def request (w : RoomWorld) (call : SegmentCall) (rmtSeg localSeg : DmaSeg) : RoomWorld :=
  let result := call.run w.world.ctx w.world.memory w.queue rmtSeg localSeg
  { w with
    world :=
      if call.segmentsRefused rmtSeg localSeg then w.world
      else w.world.post [call.wr w.queue rmtSeg localSeg]
    accepted := w.accepted + if result.status = .ok then 1 else 0 }

def turn (w : RoomWorld) (call : PollCall) : RoomWorld :=
  { w with
    world := w.world.turn call
    taken := w.taken + if (call.upcoming w.world.jfc w.world.memory).isSome then 1 else 0 }

/-- The next entry is that of the oldest request without one. -/
def step (w : RoomWorld) : RoomAction → Option RoomWorld
  | .request call rmtSeg localSeg => some (w.request call rmtSeg localSeg)
  | .complete cqe =>
      (w.world.step (.produce cqe (some w.world.announced))).map fun world =>
        { w with world := world }
  | .poll crCnt cr =>
      match dmaPollQueue (some w.cfg) crCnt cr with
      | .entering _ crCnt cr =>
          (w.world.step (.call crCnt cr)).map fun world => { w with world := world }
      | _ => some w
  | .turn => w.world.call.map w.turn

theorem request_eq (w : RoomWorld) {call : SegmentCall} {rmtSeg localSeg : DmaSeg}
    (passed : call.segmentsRefused rmtSeg localSeg = false) :
    w.request call rmtSeg localSeg =
      { w with
        world := w.world.post [call.wr w.queue rmtSeg localSeg]
        accepted := w.accepted + if (cdmaPostRequest w.world.ctx w.world.memory w.queue
          (call.wr w.queue rmtSeg localSeg)).status = .ok then 1 else 0 } := by
  unfold request
  rw [SegmentCall.run_eq]
  simp only [passed, Bool.false_eq_true, if_false]

/-- Requests are completed and polled one by one, in the order they were posted. -/
structure Room (w : RoomWorld) (shift cqShift stride ci : Nat) : Prop where
  routed : w.world.Routed shift cqShift stride 0 ci w.taken w.taken
  accepted_eq : w.accepted = w.world.posted.length
  announced_eq : w.world.announced = w.world.written.length
  announced_le : w.world.announced ≤ w.world.posted.length
  ordered : ∀ place, place < w.world.written.length →
    QueueWorld.tagAt w.world.written place = some place

namespace Room

variable {w next : RoomWorld} {shift cqShift stride ci : Nat}

theorem accepted_le (room : w.Room shift cqShift stride ci) : w.accepted ≤ w.taken + 2 ^ shift := by
  have send := room.routed.send
  have within := send.ring.room
  rw [room.accepted_eq]
  by_cases polled : w.world.posted.length ≤ w.taken
  · exact Nat.le_trans polled (Nat.le_add_right _ _)
  · have here := List.getElem?_eq_getElem (Nat.lt_of_not_le polled)
    have ahead := (send.ahead w.taken _ (Nat.le_refl _) here).1
    have reach := (send.chain.drop here).length_le
    rw [List.length_drop] at reach
    omega

theorem request (room : w.Room shift cqShift stride ci) (call : SegmentCall)
    (rmtSeg localSeg : DmaSeg) : (w.request call rmtSeg localSeg).Room shift cqShift stride ci := by
  have ring : SqAt shift (w.world.memory.queue w.queue.jfs) ci w.world.pi := room.routed.send.ring
  unfold RoomWorld.request
  rw [SegmentCall.run_eq]
  by_cases refused : call.segmentsRefused rmtSeg localSeg = true
  · simp only [if_pos refused]
    exact room
  · simp only [if_neg refused]
    have posted := room.routed.post [call.wr w.queue rmtSeg localSeg]
    have status := cdmaPostRequest_ok w.world.ctx w.world.memory w.queue
      (call.wr w.queue rmtSeg localSeg)
    have counted : (w.world.post [call.wr w.queue rmtSeg localSeg]).posted.length =
        w.world.posted.length + if (cdmaPostRequest w.world.ctx w.world.memory w.queue
          (call.wr w.queue rmtSeg localSeg)).status = .ok then 1 else 0 := by
      unfold QueueWorld.post
      rw [List.length_append]
      rcases cdmaPostSqWr_one ring w.world.ctx w.world.memory.byte
        (call.wr w.queue rmtSeg localSeg) with ⟨error, none⟩ | ⟨request, error, one⟩
      · rw [if_neg fun ok => Option.isSome_iff_ne_none.mp error (status.mp ok)]
        exact congrArg (w.world.posted.length + List.length ·) none
      · rw [if_pos (status.mpr error)]
        exact congrArg (w.world.posted.length + List.length ·) one
    refine ⟨posted, ?_, room.announced_eq, ?_, room.ordered⟩
    · exact (congrArg (· + _) room.accepted_eq).trans counted.symm
    · exact Nat.le_trans room.announced_le (by rw [counted]; exact Nat.le_add_right _ _)

theorem complete (room : w.Room shift cqShift stride ci) {cqe : CdmaUJfcCqe} {world : QueueWorld}
    (stepped : w.world.step (.produce cqe (some w.world.announced)) = some world) :
    Room { w with world := world } shift cqShift stride ci := by
  simp only [QueueWorld.step, Option.ite_none_right_eq_some, Option.some.injEq] at stepped
  obtain ⟨⟨names, ahead⟩, rfl⟩ := stepped
  have inside : w.world.announced < w.world.posted.length := by
    obtain ⟨_, _, request, here, _⟩ := names
    exact (List.getElem?_eq_some_iff.mp here).1
  have length : (w.world.written ++ [(deviceEntry w.world.jfc.cq w.world.written.length cqe,
      some w.world.announced)]).length = w.world.written.length + 1 := by
    rw [List.length_append, List.length_singleton]
  refine ⟨room.routed.produce names ahead, room.accepted_eq, ?_, inside, fun place before => ?_⟩
  · change w.world.announced + 1 = (w.world.written ++ [_]).length
    rw [length, room.announced_eq]
  · change place < (w.world.written ++ [_]).length at before
    change QueueWorld.tagAt (w.world.written ++ [_]) place = _
    rw [length] at before
    unfold QueueWorld.tagAt
    by_cases older : place < w.world.written.length
    · rw [List.getElem?_append_left older]
      exact room.ordered place older
    · have newest : place = w.world.written.length := by omega
      rw [newest, List.getElem?_concat_length, ← room.announced_eq]
      rfl

theorem turn_frame (world : QueueWorld) (call : PollCall) :
    (world.turn call).posted = world.posted ∧ (world.turn call).announced = world.announced ∧
      (world.turn call).written = world.written := by
  unfold QueueWorld.turn
  cases cdmaUPollJfcTurn world.jfc world.memory call with
  | again jfc memory call => exact ⟨rfl, rfl, rfl⟩
  | exit jfc memory call value => exact ⟨rfl, rfl, rfl⟩

/-- While the send ring is no larger than the completion ring the device has not
come round to an entry still to be polled, so a turn takes the next one. -/
theorem turn (room : w.Room shift cqShift stride ci) (small : shift ≤ 16)
    (covers : shift ≤ cqShift) {call : PollCall} (active : w.world.call = some call) :
    ∃ ci, (w.turn call).Room shift cqShift stride ci := by
  obtain ⟨posted, announced, written⟩ := turn_frame w.world call
  have counts {taken ci : Nat}
      (routed : (w.world.turn call).Routed shift cqShift stride 0 ci taken taken) :
      Room { w with world := w.world.turn call, taken := taken } shift cqShift stride ci := by
    refine ⟨routed, ?_, ?_, ?_, ?_⟩
    · rw [posted]
      exact room.accepted_eq
    · rw [announced, written]
      exact room.announced_eq
    · rw [announced, posted]
      exact room.announced_le
    · rw [written]
      exact room.ordered
  unfold RoomWorld.turn
  cases meets : call.upcoming w.world.jfc w.world.memory with
  | none => exact ⟨ci, counts (room.routed.turn_idle active meets)⟩
  | some cqe =>
      obtain ⟨reached, rounds, request, here, routed⟩ := room.routed.turn_takes small active meets
      have before := (List.getElem?_eq_some_iff.mp here).1
      have outstanding := room.accepted_le
      have rings : 2 ^ shift ≤ 2 ^ cqShift := Nat.pow_le_pow_right Nat.two_pos covers
      have accepted_eq := room.accepted_eq
      have announced_eq := room.announced_eq
      have announced_le := room.announced_le
      have none : rounds = 0 := by
        by_contra some
        have lap : 1 * (2 * 2 ^ cqShift) ≤ rounds * (2 * 2 ^ cqShift) :=
          Nat.mul_le_mul_right _ (Nat.pos_of_ne_zero some)
        omega
      rw [none, Nat.zero_mul, Nat.add_zero] at here before routed
      have tag := room.ordered w.taken before
      rw [QueueWorld.tagAt, here] at tag
      cases tag
      exact ⟨reached, counts routed⟩

theorem step (room : w.Room shift cqShift stride ci) (small : shift ≤ 16)
    (covers : shift ≤ cqShift) {action : RoomAction} (stepped : w.step action = some next) :
    ∃ ci, next.Room shift cqShift stride ci := by
  cases action with
  | request call rmtSeg localSeg =>
      cases stepped
      exact ⟨ci, room.request call rmtSeg localSeg⟩
  | complete cqe =>
      obtain ⟨world, produced, rfl⟩ := Option.map_eq_some_iff.mp stepped
      exact ⟨ci, room.complete produced⟩
  | poll crCnt cr =>
      simp only [RoomWorld.step] at stepped
      split at stepped
      · obtain ⟨world, started, rfl⟩ := Option.map_eq_some_iff.mp stepped
        simp only [QueueWorld.step] at started
        split at started
        · cases started
          have routed := room.routed
          refine ⟨ci, ⟨routed.send, routed.delivery, routed.tagged, routed.reported,
            fun call active place below => ?_⟩, room.accepted_eq, room.announced_eq,
            room.announced_le, room.ordered⟩
          cases active
          exact absurd below UInt32.not_lt_zero
        · cases started
      · cases stepped
        exact ⟨ci, room⟩
  | turn =>
      obtain ⟨call, active, rfl⟩ := Option.map_eq_some_iff.mp stepped
      exact room.turn small covers active

theorem run (room : w.Room shift cqShift stride ci) (small : shift ≤ 16)
    (covers : shift ≤ cqShift) {actions : List RoomAction}
    (ran : Transition.run RoomWorld.step w actions = some next) :
    ∃ ci, next.Room shift cqShift stride ci := by
  have keeps : ∀ (w : RoomWorld) (action : RoomAction) (next : RoomWorld),
      (∃ ci, w.Room shift cqShift stride ci) → w.step action = some next →
      ∃ ci, next.Room shift cqShift stride ci := by
    intro w action next held stepped
    obtain ⟨ci, room⟩ := held
    exact room.step small covers stepped
  have start : ∃ ci, w.Room shift cqShift stride ci := ⟨ci, room⟩
  exact run_invariant RoomWorld.step keeps start ran

end Room

/-! ### Filling the send ring -/

def shortWrite : RoomAction :=
  .request .write (SegmentCall.segment 8192 64) (SegmentCall.segment 4096 64)

def shortWr (w : RoomWorld) : DmaJfsWr :=
  SegmentCall.write.wr w.queue (SegmentCall.segment 8192 64) (SegmentCall.segment 4096 64)

/-- So many blocks posted, each by one call, and nothing polled. -/
structure Filled (w : RoomWorld) (shift count : Nat) (jfc : CdmaUJfc) : Prop where
  ring : SqAt shift w.world.sq 0 w.world.pi
  pi_eq : w.world.pi = count
  sges : 1 ≤ w.world.sq.maxSgeNum
  accepted_eq : w.accepted = count
  taken_eq : w.taken = 0
  jfc_eq : w.world.jfc = jfc

namespace Filled

variable {w : RoomWorld} {shift count : Nat} {jfc : CdmaUJfc}

theorem checked (filled : w.Filled shift count jfc) :
    ∃ request, requestChecked ⟨w.world.memory.byte, w.world.sq, none, false⟩ w.shortWr
        w.world.pi = some request ∧ request.blocks = 1 := by
  have valid : cdmaParseJfsOpcode w.shortWr.opcode ≠ .invalid := SegmentCall.write.opcode_valid
  have within : cdmaCheckSgeNum (cdmaParseJfsOpcode w.shortWr.opcode) w.world.sq w.shortWr =
      false := decide_eq_false (UInt32.not_lt.mpr filled.sges)
  obtain ⟨request, found⟩ := requestOf_of_atomicLenOk
    ⟨w.world.memory.byte, w.world.sq, none, false⟩ w.world.pi valid rfl
  obtain ⟨wr_eq, _, _, built⟩ := requestOf_eq_some found
  have sges : w.shortWr.localSges.length = 1 := by
    unfold shortWr
    rcases SegmentCall.write.wr_localSges w.queue (SegmentCall.segment 8192 64)
      (SegmentCall.segment 4096 64) with single | ⟨_, empty⟩
    · rw [single]
      rfl
    · exact absurd empty (by decide)
  have counted := toNat_cdmaGetWqebbCnt valid built (by omega)
  refine ⟨request, requestChecked_of_passed valid within found, ?_⟩
  unfold SqRequest.blocks
  rw [wr_eq, toNat_wqebbCnt, counted, sges]
  rfl

theorem write (filled : w.Filled shift count jfc) (room : count < 2 ^ shift) :
    ∃ next, w.step shortWrite = some next ∧ next.Filled shift (count + 1) jfc := by
  obtain ⟨request, checked, single⟩ := filled.checked
  have pi_eq := filled.pi_eq
  have fits : w.world.pi + request.blocks ≤ 0 + 2 ^ shift := by omega
  obtain ⟨_, _, found⟩ := requestChecked_eq_some checked
  obtain ⟨_, starts, _, _⟩ := requestOf_eq_some found
  have locals : SqAt shift
      (PostLocals.mk w.world.memory.byte w.world.sq none false).sq 0 w.world.pi := filled.ring
  have posted : postedRequests w.world.ctx [w.shortWr] w.world.pi
      ⟨w.world.memory.byte, w.world.sq, none, false⟩ = [request] :=
    postedRequests_accepted found (cdmaPostOneWr_accepted locals w.world.ctx checked fits)
  obtain ⟨error, sq_eq, _⟩ := cdmaPostSqWr_accepted filled.ring w.world.ctx checked fits
  have sq : (w.world.post [w.shortWr]).sq = (PostLocals.accept w.world.ctx
      ⟨w.world.memory.byte, w.world.sq, none, false⟩ shift request).sq := by
    rw [← sq_eq]
    exact Function.update_self _ _ _
  have reach : (w.world.post [w.shortWr]).pi = w.world.pi + 1 := by
    unfold QueueWorld.post
    dsimp only
    rw [posted, ← single]
    exact congrArg (w.world.pi + ·) (Nat.add_zero _)
  have status := (cdmaPostRequest_ok w.world.ctx w.world.memory w.queue w.shortWr).mpr error
  have admitted : SegmentCall.write.segmentsRefused (SegmentCall.segment 8192 64)
    (SegmentCall.segment 4096 64) = false := by decide
  have called := w.request_eq admitted
  refine ⟨_, congrArg some called, ?_, ?_, ?_, ?_, filled.taken_eq, filled.jfc_eq⟩
  · have accepted := locals.accept w.world.ctx starts fits
    unfold SqRequest.next at accepted
    rw [starts, single, ← reach, ← sq] at accepted
    exact accepted
  · exact reach.trans (congrArg (· + 1) pi_eq)
  · change 1 ≤ (w.world.post [w.shortWr]).sq.maxSgeNum
    rw [sq]
    unfold PostLocals.accept
    rw [setWrid_frame]
    exact filled.sges
  · change w.accepted + (if (cdmaPostRequest w.world.ctx w.world.memory w.queue w.shortWr).status =
      .ok then 1 else 0) = _
    rw [if_pos status, filled.accepted_eq]

theorem run (filled : w.Filled shift 0 jfc) {count : Nat} (within : count ≤ 2 ^ shift) :
    ∃ next, Transition.run step w (List.replicate count shortWrite) = some next ∧
      next.Filled shift count jfc := by
  induction count with
  | zero => exact ⟨w, rfl, filled⟩
  | succ count ih =>
      obtain ⟨middle, ran, held⟩ := ih (Nat.le_of_succ_le within)
      obtain ⟨next, stepped, more⟩ := held.write within
      refine ⟨next, ?_, more⟩
      rw [List.replicate_succ']
      exact run_append step ran ((run_cons_eq_some step).mpr ⟨next, stepped, rfl⟩)

end Filled

end RoomWorld

/-! ### The rings of a new queue -/

/-- For requests of two blocks or more, the send ring is no larger than the
completion ring exactly when both have the least size. -/
theorem clog_rings {blocks depth : Nat} (most : 2 ≤ blocks) :
    max 6 (Nat.clog 2 (blocks * depth)) ≤ Nat.clog 2 (max depth 64) ↔ blocks * depth ≤ 64 := by
  have least : 6 ≤ Nat.clog 2 (max depth 64) :=
    (Nat.clog_pow 2 6 Nat.one_lt_two).symm.le.trans (Nat.clog_mono_right 2 (Nat.le_max_right depth 64))
  constructor
  · intro covers
    by_contra more
    have above : 6 < Nat.clog 2 (blocks * depth) :=
      (Nat.lt_clog_iff_pow_lt Nat.one_lt_two).mpr (Nat.not_le.mp more)
    rcases Nat.le_total depth 64 with small | large
    · have least : Nat.clog 2 64 = 6 := Nat.clog_pow 2 6 Nat.one_lt_two
      rw [Nat.max_eq_right small, least] at covers
      omega
    · rw [Nat.max_eq_left large] at covers
      have doubled := Nat.clog_mono_right 2 (Nat.mul_le_mul_right depth most)
      have positive : 0 < depth := by omega
      have next := clog_pow_mul positive 1
      rw [Nat.pow_one] at next
      omega
  · intro small
    have ceiling : Nat.clog 2 (blocks * depth) ≤ 6 := Nat.clog_le_of_le_pow small
    omega

theorem cdmaAddDbPage_memory (env : DbPageEnv) (host : Host) :
    (cdmaAddDbPage env host).2.memory = host.memory ∨
      ∃ buf size, (cdmaAddDbPage env host).2.memory = host.memory.mapFresh buf size := by
  unfold cdmaAddDbPage
  cases env.node with
  | none => exact .inl rfl
  | some node =>
      cases room : cdmaBitmapAlloc env.bitmap (host.ctx.pageSize / cdmaDbSize) with
      | none =>
          left
          simp only [room]
      | some bitmap =>
          cases mapping : env.buf with
          | none =>
              left
              simp only [room, cdmaUAllocBuf]
          | some buf =>
              right
              simp only [room, cdmaUAllocBuf]
              split
              · exact ⟨buf, _, rfl⟩
              · exact ⟨buf, _, rfl⟩

theorem cdmaUAllocSwDb_cqe {fuel address : Nat} {env : DbPageEnv} {host after : Host}
    {swDb : Option Nat} (allocated : cdmaUAllocSwDb fuel env host = some (swDb, after))
    (clear : host.memory.cqe address = .zeroed) : after.memory.cqe address = .zeroed := by
  have added : (cdmaAddDbPage env host).2.memory.cqe address = .zeroed := by
    rcases cdmaAddDbPage_memory env host with same | ⟨buf, size, fresh⟩
    · rw [same]
      exact clear
    · rw [fresh]
      exact Memory.mapFresh_cqe buf size clear
  have picked {found : Option Nat} {next : Host}
      (picks : cdmaUPickDbPage fuel env host = some (found, next)) :
      next.memory.cqe address = .zeroed := by
    unfold cdmaUPickDbPage at picks
    dsimp only at picks
    split at picks
    · cases picks
    · cases picks
      exact clear
    · rw [Option.some.injEq] at picks
      rw [picks] at added
      exact added
  unfold cdmaUAllocSwDb at allocated
  cases picks : cdmaUPickDbPage fuel env host with
  | none =>
      rw [picks] at allocated
      cases allocated
  | some answer =>
      obtain ⟨found, next⟩ := answer
      rw [picks] at allocated
      cases found with
      | none =>
          cases allocated
          exact picked picks
      | some dbPage =>
          cases allocated
          change next.memory.cqe address = .zeroed
          exact picked picks

theorem cdmaUCreateJfc_ok {fuel : Nat} {env : CreateJfcEnv} {host : Host}
    {ctx : Option DmaContext} {asked : Option DmaJfcCfg} {jfc : CdmaUJfc}
    {result : CreateJfcResult} (created : cdmaUCreateJfc fuel env host ctx asked = some result)
    (made : result.jfc = some jfc) :
    ∃ cfg buffers id, asked = some cfg ∧
      cdmaUAllocJfcBuf fuel env host cfg .zeroed = some (.ok buffers, result.host) ∧
      jfc = { buffers with cq := { buffers.cq with idx := id }, armSn := 1 } := by
  unfold cdmaUCreateJfc at created
  split at created
  · rename_i dev tid cfg _
    split at created
    · cases created
      cases made
    · split at created
      · cases created
      · cases created
        cases made
      · rename_i buffers next allocated
        split at created
        split at created
        · obtain ⟨freed, _, rfl⟩ := Option.map_eq_some_iff.mp created
          cases made
        · cases created
          cases made
          exact ⟨cfg, buffers, _, rfl, allocated, rfl⟩
  · cases created
    cases made

theorem cdmaUCreateJfc_ring {fuel stride : Nat} {env : CreateJfcEnv} {host : Host}
    {ctx : Option DmaContext} {cfg : DmaJfcCfg} {jfc : CdmaUJfc} {result : CreateJfcResult}
    (created : cdmaUCreateJfc fuel env host ctx (some cfg) = some result)
    (made : result.jfc = some jfc) (power : host.ctx.cqeSize.toNat = 2 ^ stride)
    (large : 6 ≤ stride) (fits : QueueBufInRange cfg.ringDepth host.ctx.cqeSize.toUInt32) :
    CqGeometry jfc.cq (Nat.clog 2 (max cfg.depth.toNat 64)) stride ∧ jfc.cq.ci = 0 ∧
      ∀ slot, slot < 2 ^ Nat.clog 2 (max cfg.depth.toNat 64) →
        result.host.memory.cqe (jfc.cq.slotAddress slot) = .zeroed := by
  obtain ⟨_, buffers, id, same, allocated, rfl⟩ := cdmaUCreateJfc_ok created made
  cases same
  obtain ⟨memory, mapped, doorbell⟩ := cdmaUAllocJfcBuf_ok allocated
  obtain ⟨wrid, buf, cq_eq, memory_eq⟩ := cdmaUAllocQueueBuf_ok mapped
  have byte := host.ctx.cqeSize.toNat_lt
  have wide : host.ctx.cqeSize.toUInt32.toNat = 2 ^ stride := by
    rw [UInt8.toNat_toUInt32, power]
  have short : host.ctx.cqeSize.toUInt32.toNat < 256 := by omega
  have positive : 0 < host.ctx.cqeSize.toUInt32.toNat := by
    rw [wide]
    exact Nat.two_pow_pos stride
  have inside := cdmaUQueueGeometry_inside CdmaUJfc.zeroed.cq cfg.ringDepth short buf wrid
  rw [← cq_eq] at inside
  have ranges := (queueBufInRange_iff cfg.ringDepth positive short).mp fits
  have least : 6 ≤ Nat.clog 2 (max cfg.depth.toNat 64) :=
    (Nat.clog_pow 2 6 Nat.one_lt_two).symm.le.trans
      (Nat.clog_mono_right 2 (Nat.le_max_right cfg.depth.toNat 64))
  have geometry : CqGeometry buffers.cq (Nat.clog 2 (max cfg.depth.toNat 64)) stride := by
    have shape := cdmaUQueueGeometry_eq CdmaUJfc.zeroed.cq ranges.1 positive short ranges.2
    rw [toNat_ringDepth, wide, Nat.clog_pow _ _ Nat.one_lt_two] at shape ranges
    have exponent : max 12 (Nat.clog 2 (max cfg.depth.toNat 64) + stride) - stride =
        Nat.clog 2 (max cfg.depth.toNat 64) := by omega
    rw [exponent] at shape
    rw [cq_eq, shape]
    refine ⟨rfl, rfl, rfl, ?_⟩
    rw [← Nat.pow_add]
    exact Nat.pow_le_pow_right Nat.two_pos ranges.2
  refine ⟨⟨geometry.cnt_eq, geometry.mask_eq, geometry.shift_eq, geometry.bytes_le⟩, ?_,
    fun slot within => ?_⟩
  · rw [cq_eq]
    rfl
  · have address := cdmaUGetBufEntry_counter geometry slot
    rw [Nat.mod_eq_of_lt within] at address
    apply cdmaUAllocSwDb_cqe doorbell
    change memory.cqe (buffers.cq.slotAddress slot) = .zeroed
    rw [memory_eq, ← address]
    have bounds := inside (counter slot)
    have buf_eq : buffers.cq.qbuf = buf := by rw [cq_eq]
    have size_eq : buffers.cq.qbufSize = (cdmaUQueueGeometry CdmaUJfc.zeroed.cq cfg.ringDepth
      host.ctx.cqeSize.toUInt32 cdmaHwPageSize).qbufSize := by rw [cq_eq]
    rw [buf_eq, size_eq] at bounds
    exact if_pos bounds

theorem cdmaUCreateJfs_cqe {env : CreateJfsEnv} {memory after : Memory} {ctx : Option DmaContext}
    {cfg : DmaJfsCfg} {made : CdmaUJettyQueue} {address : Nat}
    (created : cdmaUCreateJfs env memory ctx (some cfg) = (some made, after))
    (clear : memory.cqe address = .zeroed) : after.cqe address = .zeroed := by
  obtain ⟨_, _, sq, id, _, _, built, _⟩ := cdmaUCreateJfs_ok created
  unfold cdmaUCreateSq at built
  split at built
  · cases built
  · dsimp only at built
    split at built
    · cases built
    · rename_i allocated
      cases built
      obtain ⟨_, buf, _, rfl⟩ := cdmaUAllocQueueBuf_ok allocated
      exact Memory.mapFresh_cqe buf _ clear

namespace Ladder

theorem cdmaUAllocJfcRes_creates {fuel : Nat} {env : QueueEnv} {host after : Host}
    {ctx : DmaContext} {cfg : QueueCfg} {jfcCfg : DmaJfcCfg} {jfce : DmaJfce} {jfc : CdmaUJfc}
    (allocated : (cdmaUAllocJfcRes fuel env host ctx cfg jfcCfg).value =
      some (.ok (jfce, jfc), after)) :
    ∃ made, Libcdma.cdmaUCreateJfc fuel env.jfc.plain host (some ctx)
        (some { jfcCfg with jfce := some jfce }) = some made ∧
      made.jfc = some jfc ∧ made.host = after := by
  unfold cdmaUAllocJfcRes at allocated
  obtain ⟨answer, _, allocated⟩ := Logged.bind_value_eq_some.mp allocated
  cases answer with
  | none => cases allocated
  | some opened =>
      obtain ⟨made, created, allocated⟩ := Logged.bind_value_eq_some.mp allocated
      rw [cdmaUCreateJfc_value] at created
      cases answered : made.jfc with
      | none =>
          rw [answered] at allocated
          obtain ⟨_, _, allocated⟩ := Logged.bind_value_eq_some.mp allocated
          cases allocated
      | some queue =>
          rw [answered] at allocated
          dsimp only at allocated
          split at allocated
          · obtain ⟨⟨_, _⟩, _, allocated⟩ := Logged.bind_value_eq_some.mp allocated
            obtain ⟨_, _, allocated⟩ := Logged.bind_value_eq_some.mp allocated
            cases allocated
          · cases allocated
            exact ⟨made, created, answered, rfl⟩

theorem cdmaUCreateQueue_creates {fuel : Nat} {env : QueueEnv} {host after : Host}
    {ctx : DmaContext} {dev : DmaDevice} {cfg : QueueCfg} {handle : UInt64} {queue : CdmaUQueue}
    (device : ctx.dmaDev = some dev)
    (created : (cdmaUCreateQueue fuel env host ctx cfg handle).value = some (.ok queue, after)) :
    ∃ made, Libcdma.cdmaUCreateJfc fuel env.jfc.plain host (some ctx)
        (some { cdmaAssembleJfcCfg cfg handle.toUInt32 with jfce := some queue.jfce }) =
          some made ∧
      made.jfc = some queue.jfc ∧
      Libcdma.cdmaUCreateJfs env.jfs.plain made.host.memory (some ctx)
          (some { (cdmaAssembleJfsCfg dev cfg handle.toUInt32).toDmaJfsCfg with
            jfc := some queue.jfc.cq.idx }) = (some queue.jfs.sq.queue, after.memory) := by
  unfold cdmaUCreateQueue at created
  rw [device] at created
  dsimp only at created
  obtain ⟨⟨answer, next⟩, allocated, created⟩ := Logged.bind_value_eq_some.mp created
  cases answer with
  | error err => cases created
  | ok pair =>
      obtain ⟨jfce, jfc⟩ := pair
      obtain ⟨made, isMade, answered, rfl⟩ := cdmaUAllocJfcRes_creates allocated
      obtain ⟨tp, _, created⟩ := Logged.bind_value_eq_some.mp created
      cases tp with
      | none =>
          obtain ⟨_, _, created⟩ := Logged.bind_value_eq_some.mp created
          cases created
      | some tp =>
          obtain ⟨⟨answer, last⟩, sent, created⟩ := Logged.bind_value_eq_some.mp created
          cases answer with
          | none =>
              obtain ⟨_, _, created⟩ := Logged.bind_value_eq_some.mp created
              obtain ⟨_, _, created⟩ := Logged.bind_value_eq_some.mp created
              cases created
          | some jfs =>
              cases created
              have plain := cdmaUCreateJfs_value env.jfs made.host (some ctx)
                (some { cdmaAssembleJfsCfg dev cfg handle.toUInt32 with
                  jfc := some jfc.cq.idx, tpn := tp })
              rw [sent] at plain
              exact ⟨made, isMade, answered, (Option.some.inj plain).symm⟩

theorem dmaAllocQueue_creates {fuel : Nat} {env : QueueEnv} {host after : Host} {ctx : DmaContext}
    {cfg : QueueCfg} {queue : CdmaUQueue}
    (allocated : (dmaAllocQueue fuel env host (some ctx) (some cfg)).value =
      some (some queue, after)) :
    ∃ handle : UInt64, (cdmaUCreateQueue fuel env host ctx cfg handle).value =
      some (.ok queue, after) := by
  unfold dmaAllocQueue cdmaAllocQueue at allocated
  dsimp only at allocated
  split at allocated
  · cases allocated
  · obtain ⟨handle, _, allocated⟩ := Logged.bind_value_eq_some.mp allocated
    cases handle with
    | none => cases allocated
    | some handle =>
        obtain ⟨⟨answer, next⟩, created, allocated⟩ := Logged.bind_value_eq_some.mp allocated
        cases answer with
        | error err =>
            obtain ⟨_, _, allocated⟩ := Logged.bind_value_eq_some.mp allocated
            cases allocated
        | ok made =>
            cases allocated
            exact ⟨handle, created⟩

end Ladder

namespace RoomWorld

def built (host : Host) (queue : CdmaUQueue) (jfs : UInt64) : RoomWorld :=
  { cfg := queue.cfg, tp := queue.tp
    world :=
      { ctx := host.ctx, queue := jfs, jfc := queue.jfc
        memory := host.memory.setQueue jfs queue.jfs.sq.queue
        call := none, pi := 0, posted := [], completed := 0, announced := 0, written := []
        completes := fun _ => none, marks := fun _ => none, reported := [] }
    accepted := 0, taken := 0 }

def sqCfg (dev : DmaDevice) (cfg : QueueCfg) : DmaJfsCfg :=
  (Ladder.cdmaAssembleJfsCfg dev cfg 0).toDmaJfsCfg

def cqCfg (cfg : QueueCfg) : DmaJfcCfg := Ladder.cdmaAssembleJfcCfg cfg 0

section Built

variable {fuel stride : Nat} {env : QueueEnv} {host after : Host} {ctx : DmaContext}
  {dev : DmaDevice} {cfg : QueueCfg} {queue : CdmaUQueue}

theorem built_rings (device : ctx.dmaDev = some dev)
    (allocated : (Ladder.dmaAllocQueue fuel env host (some ctx) (some cfg)).value =
      some (some queue, after))
    (power : host.ctx.cqeSize.toNat = 2 ^ stride) (large : 6 ≤ stride)
    (sqFits : SqInRange (sqCfg dev cfg))
    (cqFits : QueueBufInRange (cqCfg cfg).ringDepth host.ctx.cqeSize.toUInt32) (jfs : UInt64) :
    (built after queue jfs).world.Initial (sqShift (sqCfg dev cfg))
        (Nat.clog 2 (max cfg.queueDepth.toNat 64)) stride ∧
      1 ≤ (built after queue jfs).world.sq.maxSgeNum := by
  obtain ⟨handle, created⟩ := Ladder.dmaAllocQueue_creates allocated
  obtain ⟨made, isMade, answered, sent⟩ := Ladder.cdmaUCreateQueue_creates device created
  obtain ⟨geometry, ci_eq, clear⟩ := cdmaUCreateJfc_ring isMade answered power large cqFits
  obtain ⟨_, _, _, _, _, admitted, _, _⟩ := cdmaUCreateJfs_ok sent
  have depth : 0 < (sqCfg dev cfg).depth.toNat := cdmaVerifyJfsParam_depth admitted
  obtain ⟨segments, fits⟩ := (sqInRange_iff depth).mp sqFits
  obtain ⟨ring, sges⟩ := cdmaUCreateJfs_ring (by exact fits) sent
  have sq : (built after queue jfs).world.sq = queue.jfs.sq.queue := Function.update_self _ _ _
  refine ⟨⟨?_, geometry, ci_eq, fun slot within => ?_, rfl, rfl, rfl, rfl, rfl, rfl⟩, ?_⟩
  · rw [sq]
    exact ring
  · have still := cdmaUCreateJfs_cqe sent (clear slot within)
    exact still
  · rw [sq, sges, UInt32.le_iff_toNat_le, UInt8.toNat_toUInt32]
    exact segments

theorem sqShift_le_iff (dev : DmaDevice) (cfg : QueueCfg) :
    sqShift (sqCfg dev cfg) ≤ Nat.clog 2 (max cfg.queueDepth.toNat 64) ↔
      (sqeBbCnt (sqCfg dev cfg)).toNat * cfg.queueDepth.toNat ≤ 64 :=
  clog_rings (sqeBbCnt_bounds (sqCfg dev cfg)).1

/-- Short writes alone, with nothing polled, are one more than the ring has entries. -/
theorem built_overruns (device : ctx.dmaDev = some dev)
    (allocated : (Ladder.dmaAllocQueue fuel env host (some ctx) (some cfg)).value =
      some (some queue, after))
    (power : host.ctx.cqeSize.toNat = 2 ^ stride) (large : 6 ≤ stride)
    (sqFits : SqInRange (sqCfg dev cfg))
    (cqFits : QueueBufInRange (cqCfg cfg).ringDepth host.ctx.cqeSize.toUInt32) (jfs : UInt64)
    (more : 64 < (sqeBbCnt (sqCfg dev cfg)).toNat * cfg.queueDepth.toNat) :
    ∃ final, run RoomWorld.step (built after queue jfs)
        (List.replicate (queue.jfc.cq.baseblkCnt.toNat + 1) shortWrite) = some final ∧
      final.taken + queue.jfc.cq.baseblkCnt.toNat < final.accepted := by
  obtain ⟨initial, sges⟩ := built_rings device allocated power large sqFits cqFits jfs
  have cnt : queue.jfc.cq.baseblkCnt.toNat = 2 ^ Nat.clog 2 (max cfg.queueDepth.toNat 64) :=
    initial.geometry.cnt_toNat
  have smaller : Nat.clog 2 (max cfg.queueDepth.toNat 64) < sqShift (sqCfg dev cfg) := by
    have rings := sqShift_le_iff dev cfg
    omega
  have larger := Nat.pow_lt_pow_right Nat.one_lt_two smaller
  have filled : (built after queue jfs).Filled (sqShift (sqCfg dev cfg)) 0 queue.jfc :=
    ⟨initial.ring, rfl, sges, rfl, rfl, rfl⟩
  obtain ⟨final, ran, full⟩ := filled.run (Nat.succ_le_of_lt (cnt.symm ▸ larger))
  refine ⟨final, ran, ?_⟩
  rw [full.accepted_eq, full.taken_eq]
  omega

/-- The requests not polled yet fit in the completion ring, in every run, exactly
when the blocks of the depth asked for fit in the smallest send ring. -/
theorem dmaAllocQueue_room (device : ctx.dmaDev = some dev)
    (allocated : (Ladder.dmaAllocQueue fuel env host (some ctx) (some cfg)).value =
      some (some queue, after))
    (power : host.ctx.cqeSize.toNat = 2 ^ stride) (large : 6 ≤ stride)
    (sqFits : SqInRange (sqCfg dev cfg))
    (cqFits : QueueBufInRange (cqCfg cfg).ringDepth host.ctx.cqeSize.toUInt32) (jfs : UInt64) :
    (∀ actions final, run RoomWorld.step (built after queue jfs) actions = some final →
      final.accepted ≤ final.taken + queue.jfc.cq.baseblkCnt.toNat) ↔
    (sqeBbCnt (sqCfg dev cfg)).toNat * cfg.queueDepth.toNat ≤ 64 := by
  constructor
  · intro bounded
    by_contra more
    obtain ⟨final, ran, overrun⟩ := built_overruns device allocated power large sqFits cqFits jfs
      (Nat.not_le.mp more)
    exact Nat.not_lt.mpr (bounded _ final ran) overrun
  · intro small actions final ran
    obtain ⟨initial, _⟩ := built_rings device allocated power large sqFits cqFits jfs
    have cnt : queue.jfc.cq.baseblkCnt.toNat = 2 ^ Nat.clog 2 (max cfg.queueDepth.toNat 64) :=
      initial.geometry.cnt_toNat
    have covers := (sqShift_le_iff dev cfg).mpr small
    have ceiling : sqShift (sqCfg dev cfg) ≤ 6 :=
      Nat.max_le.mpr ⟨Nat.le_refl 6, Nat.clog_le_of_le_pow small⟩
    have room : (built after queue jfs).Room (sqShift (sqCfg dev cfg))
        (Nat.clog 2 (max cfg.queueDepth.toNat 64)) stride 0 :=
      ⟨initial.routed, rfl, rfl, Nat.le_refl 0,
        fun place before => absurd before (Nat.not_lt_zero place)⟩
    obtain ⟨ci, held⟩ := room.run (by omega) covers ran
    have powers : 2 ^ sqShift (sqCfg dev cfg) ≤ 2 ^ Nat.clog 2 (max cfg.queueDepth.toNat 64) :=
      Nat.pow_le_pow_right Nat.two_pos covers
    have bound := held.accepted_le
    omega

end Built

def device64 : DmaDevice :=
  { fd := 3, devCap := { maxJfcDepth := 64, maxJfsDepth := 64, maxJfsSge := 1, ceqCnt := 1 } }

def ofDepth (depth : UInt32) : QueueCfg := { ContextWorld.depth64 with queueDepth := depth }

def allocating (depth : UInt32) : Option (Option CdmaUQueue × Host) :=
  (Ladder.dmaAllocQueue 2 (ContextWorld.granting 1 ⟨some 1, true, some 4096⟩)
    ContextWorld.idle.host (some (.ofDepth 64)) (some (ofDepth depth))).value

theorem ofDepth_ranges {depth : UInt32} (some : 0 < depth.toNat) (few : depth.toNat ≤ 64) :
    SqInRange (sqCfg device64 (ofDepth depth)) ∧
      QueueBufInRange (cqCfg (ofDepth depth)).ringDepth
        ContextWorld.idle.host.ctx.cqeSize.toUInt32 := by
  have blocks := (sqeBbCnt_bounds (sqCfg device64 (ofDepth depth))).2
  have least : Nat.clog 2 64 = 6 := Nat.clog_pow 2 6 Nat.one_lt_two
  have entries : (cqCfg (ofDepth depth)).ringDepth.toNat = 64 := by
    rw [toNat_ringDepth]
    exact Nat.max_eq_right few
  have segment : 0 < (1 : UInt8).toNat := by decide
  constructor
  · exact (sqInRange_iff some).mpr ⟨segment, (Nat.mul_le_mul blocks few).trans (by decide)⟩
  · apply (queueBufInRange_iff _ (by decide) (by decide)).mpr
    rw [entries]
    change 0 < 64 ∧ Nat.clog 2 64 + Nat.clog 2 64 ≤ 31
    omega

theorem dmaAllocQueue_room_depth32 :
    ∃ queue after, allocating 32 = some (some queue, after) ∧
      ((∀ actions final, run RoomWorld.step (built after queue 1) actions = some final →
        final.accepted ≤ final.taken + queue.jfc.cq.baseblkCnt.toNat) ↔
      (sqeBbCnt (sqCfg device64 (ofDepth 32))).toNat * 32 ≤ 64) := by
  have made : (allocating 32).any (fun answer => answer.1.isSome) = true := by decide +kernel
  obtain ⟨⟨_ | queue, after⟩, allocated, isQueue⟩ := (Option.any_eq_true ..).mp made
  · cases isQueue
  · have some : 0 < (32 : UInt32).toNat := by decide
    have device : (DmaContext.ofDepth 64).dmaDev = Option.some device64 := rfl
    have power : 64 = 2 ^ 6 := by decide
    obtain ⟨sqFits, cqFits⟩ := ofDepth_ranges some (by decide)
    exact ⟨queue, after, allocated,
      dmaAllocQueue_room device allocated power (Nat.le_refl 6) sqFits cqFits 1⟩

/-- A queue of depth 64 takes 65 writes, for a completion ring of 64 entries. -/
theorem dmaAllocQueue_overruns :
    ∃ queue after, allocating 64 = some (some queue, after) ∧
      SqInRange (sqCfg device64 (ofDepth 64)) ∧
      QueueBufInRange (cqCfg (ofDepth 64)).ringDepth ContextWorld.idle.host.ctx.cqeSize.toUInt32 ∧
      queue.jfc.cq.baseblkCnt.toNat = 64 ∧
      ∃ final, run RoomWorld.step (built after queue 1) (List.replicate 65 shortWrite) =
        some final ∧ final.taken + queue.jfc.cq.baseblkCnt.toNat < final.accepted := by
  have made : (allocating 64).any (fun answer =>
      answer.1.any fun queue => queue.jfc.cq.baseblkCnt.toNat == 64) = true := by decide +kernel
  obtain ⟨⟨answer, after⟩, allocated, isQueue⟩ := (Option.any_eq_true ..).mp made
  obtain ⟨queue, rfl, cnt⟩ := (Option.any_eq_true ..).mp isQueue
  have entries := beq_iff_eq.mp cnt
  have some : 0 < (64 : UInt32).toNat := by decide
  have device : (DmaContext.ofDepth 64).dmaDev = Option.some device64 := rfl
  have power : 64 = 2 ^ 6 := by decide
  obtain ⟨sqFits, cqFits⟩ := ofDepth_ranges some (by decide)
  have overrun := built_overruns device allocated power (Nat.le_refl 6) sqFits cqFits 1 (by decide)
  rw [entries] at overrun
  exact ⟨queue, after, allocated, sqFits, cqFits, entries, entries.symm ▸ overrun⟩

end RoomWorld

end Libcdma
