/-
What the size of a new send queue is good for.

Creation rounds the blocks of `depth` of the largest requests up to a power of
two.  That is room for `depth` requests of any mix.  A completion names a block
by sixteen bits of its index, which is enough while the ring has at most that
many blocks.
-/

import Libcdma.QueueGeometry
import Libcdma.RequestCodec
import Libcdma.RequestContexts

namespace Libcdma

open WrapCounter Transition

/-- An entry that names an outstanding block of a queue with this ring moves the
queue's consumer index to that block. -/
def CdmaUJettyQueue.FindsRequests (made : CdmaUJettyQueue) : Prop :=
  ∀ (memory : Memory) (cqe : CdmaUJfcCqe) (block : UInt32),
    (memory.queue cqe.userData).baseblkMask = made.baseblkMask →
    (memory.queue cqe.userData).pi - (memory.queue cqe.userData).ci ≤ made.baseblkCnt →
    block - (memory.queue cqe.userData).ci <
      (memory.queue cqe.userData).pi - (memory.queue cqe.userData).ci →
    cqe.userData ≠ 0 → cqe.fd = false → cqe.entryIdx = block.toUInt16 →
    ∃ after, cdmaUUpdateJettyIdx memory cqe = some (cqe.userData, after) ∧
      (after.queue cqe.userData).ci = block

theorem cdmaUUpdateJettyIdx_ci (memory : Memory) {cqe : CdmaUJfcCqe} (some_queue : cqe.userData ≠ 0)
    (plain : cqe.fd = false) :
    ∃ after, cdmaUUpdateJettyIdx memory cqe = some (cqe.userData, after) ∧
      (after.queue cqe.userData).ci = completionIndex (memory.queue cqe.userData) cqe := by
  unfold cdmaUUpdateJettyIdx
  rw [if_neg some_queue, if_neg (by rw [plain]; decide)]
  refine ⟨_, rfl, ?_⟩
  rw [Memory.setQueue_queue, Function.update_self]
  rfl

/-- Sixteen bits tell the blocks of a ring of at most that many apart. -/
theorem findsRequests_of_small {made : CdmaUJettyQueue} {shift : Nat}
    (geometry : SqGeometry made shift) (small : shift ≤ 16) : made.FindsRequests := by
  intro memory cqe block mask room inside some_queue plain named
  obtain ⟨after, updated, moved⟩ := cdmaUUpdateJettyIdx_ci memory some_queue plain
  refine ⟨after, updated, ?_⟩
  generalize memory.queue cqe.userData = q at mask room inside moved
  rw [UInt32.le_iff_toNat_le, geometry.cnt_toNat] at room
  rw [UInt32.lt_iff_toNat_lt] at inside
  have place : block = counter (q.ci.toNat + (block - q.ci).toNat) := by
    rw [← counter_add, counter_toNat, counter_toNat]
    grind
  rw [place] at named
  rw [moved, completionIndex_of_mask (mask.trans geometry.mask_counter) (counter_toNat q.ci).symm
    small (Nat.le_add_right _ _) (by omega) named, ← place]

/-- Every send queue is this ring, with 65537 blocks outstanding from index 0 on. -/
def CdmaUJettyQueue.manyOutstanding (made : CdmaUJettyQueue) : Memory :=
  { byte := fun _ => 0, cqe := fun _ => .zeroed, queue := fun _ => { made with ci := 0, pi := 65537 }
    word := fun _ => 0 }

/-- An entry that names block 0 names block 65536 as well. -/
theorem not_findsRequests_of_large {made : CdmaUJettyQueue} {shift : Nat}
    (geometry : SqGeometry made shift) (large : 16 < shift) : ¬ made.FindsRequests := by
  intro finds
  have cnt := Nat.pow_le_pow_right Nat.two_pos (Nat.succ_le_of_lt large)
  have room : (65537 : UInt32) - 0 ≤ made.baseblkCnt := by
    rw [UInt32.le_iff_toNat_le, geometry.cnt_toNat]
    exact Nat.le_trans (by decide) cnt
  have inside : (65536 : UInt32) - 0 < 65537 - 0 := by decide
  have named : CdmaUJfcCqe.success.userData ≠ 0 := by decide
  obtain ⟨after, updated, moved⟩ :=
    finds made.manyOutstanding .success 65536 rfl room inside named rfl rfl
  obtain ⟨again, same, here⟩ := cdmaUUpdateJettyIdx_ci made.manyOutstanding named rfl
  rw [updated] at same
  cases same
  rw [moved] at here
  have stays : completionIndex { made with ci := 0, pi := 65537 } .success = 0 := by
    change 0 + ((0 - 0) &&& made.baseblkMask) = 0
    rw [UInt32.sub_self, UInt32.zero_and, UInt32.add_zero]
  have impossible := here.trans stays
  exact absurd impossible (by decide)

/-- A completion finds its request, whatever the counters, exactly when the
blocks of the configuration are at most `2 ^ 16`. -/
theorem cdmaUUpdateJettyIdx_finds {env : CreateJfsEnv} {memory after : Memory}
    {ctx : Option DmaContext} {cfg : DmaJfsCfg} {made : CdmaUJettyQueue}
    (fits : (sqeBbCnt cfg).toNat * cfg.depth.toNat ≤ 2 ^ 25)
    (created : cdmaUCreateJfs env memory ctx (some cfg) = (some made, after)) :
    made.FindsRequests ↔ (sqeBbCnt cfg).toNat * cfg.depth.toNat ≤ 2 ^ 16 := by
  have geometry := (cdmaUCreateJfs_ring fits created).1.geometry
  have widths : sqShift cfg ≤ 16 ↔ (sqeBbCnt cfg).toNat * cfg.depth.toNat ≤ 2 ^ 16 := by
    rw [← Nat.clog_le_iff_le_pow Nat.one_lt_two]
    unfold sqShift
    omega
  rw [← widths]
  constructor
  · intro finds
    by_contra large
    exact not_findsRequests_of_large geometry (Nat.not_le.mp large) finds
  · exact findsRequests_of_small geometry

theorem cdmaUUpdateJettyIdx_finds_depthTwo :
    CdmaUJettyQueue.depthTwo.FindsRequests ↔
      (sqeBbCnt (.ofDepth 2)).toNat * (DmaJfsCfg.ofDepth 2).depth.toNat ≤ 2 ^ 16 :=
  cdmaUUpdateJettyIdx_finds (by decide) cdmaUCreateJfs_depthTwo

/-- A queue of 65536 requests of two blocks takes block 65536 for block 0. -/
theorem cdmaUUpdateJettyIdx_loses_request :
    ∃ made after, cdmaUCreateJfs .granting .zeroed (some (.ofDepth 65536))
        (some (.ofDepth 65536)) = (some made, after) ∧
      (sqeBbCnt (.ofDepth 65536)).toNat * (DmaJfsCfg.ofDepth 65536).depth.toNat ≤ 2 ^ 25 ∧
      (65537 : UInt32) - 0 ≤ made.baseblkCnt ∧
      CdmaUJfcCqe.success.entryIdx = (65536 : UInt32).toUInt16 ∧
      ∃ final, cdmaUUpdateJettyIdx made.manyOutstanding .success = some (2048, final) ∧
        (final.queue 2048).ci = 0 :=
  ⟨_, _, rfl, by decide, by decide, rfl, _, rfl, rfl⟩

theorem toNat_wqebbCnt (wr : DmaJfsWr) (ctl : CdmaJfsSqeCtl) :
    (wqebbCnt wr ctl).toNat = min 4 (cdmaGetWqebbCnt wr ctl).toNat := by
  unfold wqebbCnt
  split
  · rename_i more
    rw [gt_iff_lt, UInt32.lt_iff_toNat_lt] at more
    exact (Nat.min_eq_left (Nat.le_of_lt more)).symm
  · rename_i less
    rw [gt_iff_lt, UInt32.lt_iff_toNat_lt, Nat.not_lt] at less
    exact (Nat.min_eq_right less).symm

section Accepted

variable {memory : ByteImage.Bytes} {sq : CdmaUJettyQueue} {wr : DmaJfsWr} {start tmp : TmpSq}

theorem cdmaGetNormalSgeNum_built (valid : cdmaParseJfsOpcode wr.opcode ≠ .invalid)
    (built : cdmaSetSqe memory start sq wr (cdmaParseJfsOpcode wr.opcode) = .ok tmp)
    (few : wr.localSges.length < 256) :
    (cdmaGetNormalSgeNum wr.opcode tmp.ctl).toNat =
      if wr.opcode = .cas ∨ wr.opcode = .fadd then 2 else wr.localSges.length := by
  unfold DmaJfsWr.localSges at few ⊢
  cases opcode : wr.opcode with
  | write =>
      have plain : wr.opcode ≠ .cas ∧ wr.opcode ≠ .fadd := by simp [opcode]
      simp only [opcode] at few built
      have counted := normalSgeNum_of_plain plain (cdmaSetSqe_write opcode built).2 few
      rw [opcode] at counted
      rw [counted, toNat_counter_of_lt (by omega)]
      simp
  | writeNotify =>
      have plain : wr.opcode ≠ .cas ∧ wr.opcode ≠ .fadd := by simp [opcode]
      simp only [opcode] at few built
      obtain ⟨_, _, _, sgeNum⟩ := cdmaSetSqe_writeNotify opcode built
      have counted := normalSgeNum_of_plain plain sgeNum few
      rw [opcode] at counted
      rw [counted, toNat_counter_of_lt (by omega)]
      simp
  | read =>
      have plain : wr.opcode ≠ .cas ∧ wr.opcode ≠ .fadd := by simp [opcode]
      simp only [opcode] at few built
      have counted := normalSgeNum_of_plain plain (cdmaSetSqe_read opcode built).2 few
      rw [opcode] at counted
      rw [counted, toNat_counter_of_lt (by omega)]
      simp
  | cas => rfl
  | fadd => rfl
  | swap => exact absurd (by rw [opcode]; rfl) valid
  | last => exact absurd (by rw [opcode]; rfl) valid
  | unlisted => exact absurd (by rw [opcode]; rfl) valid

/-- What the checks say about the segments of a request. -/
theorem localSges_length_le (valid : cdmaParseJfsOpcode wr.opcode ≠ .invalid)
    (within : cdmaCheckSgeNum (cdmaParseJfsOpcode wr.opcode) sq wr = false) :
    wr.localSges.length ≤ max 1 sq.maxSgeNum.toNat ∧
      (wr.opcode = .read → wr.localSges.length ≤ 6) ∧
      (wr.opcode = .writeNotify → wr.localSges.length ≤ 11) := by
  unfold DmaJfsWr.localSges
  cases opcode : wr.opcode with
  | write =>
      have live := live_length_le wr.rw.src
      simp only [opcode, cdmaParseJfsOpcode, cdmaCheckSgeNum, decide_eq_false_iff_not, gt_iff_lt,
        UInt32.lt_iff_toNat_lt, Nat.not_lt] at within
      change wr.rw.src.live.length ≤ _ ∧ _
      refine ⟨by omega, ?_, ?_⟩
      · intro read
        cases read
      · intro notify
        cases notify
  | writeNotify =>
      have live := live_length_le wr.rw.src
      simp only [opcode, cdmaParseJfsOpcode, cdmaCheckSgeNum, Bool.or_eq_false_iff,
        decide_eq_false_iff_not, gt_iff_lt, UInt32.lt_iff_toNat_lt, Nat.not_lt] at within
      have most : cdmaJfsMaxSgeNotify.toNat = 11 := rfl
      change wr.rw.src.live.length ≤ _ ∧ _ ∧ (_ → wr.rw.src.live.length ≤ 11)
      refine ⟨by omega, ?_, fun _ => by omega⟩
      intro read
      cases read
  | read =>
      have live := live_length_le wr.rw.dst
      simp only [opcode, cdmaParseJfsOpcode, cdmaCheckSgeNum, Bool.or_eq_false_iff,
        decide_eq_false_iff_not, gt_iff_lt, UInt32.lt_iff_toNat_lt, Nat.not_lt] at within
      have most : cdmaJfsMaxSgeRead.toNat = 6 := rfl
      change wr.rw.dst.live.length ≤ _ ∧ (_ → wr.rw.dst.live.length ≤ 6) ∧ _
      refine ⟨by omega, fun _ => by omega, ?_⟩
      intro notify
      cases notify
  | cas =>
      refine ⟨Nat.le_max_left _ _, ?_, ?_⟩
      · intro read
        cases read
      · intro notify
        cases notify
  | fadd =>
      refine ⟨Nat.le_max_left _ _, ?_, ?_⟩
      · intro read
        cases read
      · intro notify
        cases notify
  | swap => exact absurd (by rw [opcode]; rfl) valid
  | last => exact absurd (by rw [opcode]; rfl) valid
  | unlisted => exact absurd (by rw [opcode]; rfl) valid

theorem toNat_cdmaGetWqebbCnt (valid : cdmaParseJfsOpcode wr.opcode ≠ .invalid)
    (built : cdmaSetSqe memory start sq wr (cdmaParseJfsOpcode wr.opcode) = .ok tmp)
    (few : wr.localSges.length < 256) :
    (cdmaGetWqebbCnt wr tmp.ctl).toNat =
      if wr.opcode = .writeNotify then (64 + wr.localSges.length * 16) / 64 + 1
      else if wr.opcode = .cas ∨ wr.opcode = .fadd then 2
      else (32 + wr.localSges.length * 16) / 64 + 1 := by
  have counted := cdmaGetNormalSgeNum_built valid built few
  have short : (cdmaGetNormalSgeNum wr.opcode tmp.ctl).toNat < 2 ^ 16 := by
    rw [counted]
    split <;> omega
  unfold cdmaGetWqebbCnt cdmaGetCtlLen
  by_cases notify : wr.opcode = .writeNotify
  · rw [if_neg (by simp [notify])] at counted
    rw [if_pos notify, if_pos notify, toNat_cdmaSqCalWqebbNum (by decide) (by decide) short, counted]
    rfl
  · rw [if_neg notify, if_neg notify, toNat_cdmaSqCalWqebbNum (by decide) (by decide) short, counted]
    split
    · rfl
    · rfl

/-- Creation counts the blocks of the longest header and of every segment. -/
theorem wqebbCnt_le_sqeBbCnt {cfg : DmaJfsCfg} (sges : sq.maxSgeNum = cfg.maxSge.toUInt32)
    (valid : cdmaParseJfsOpcode wr.opcode ≠ .invalid)
    (within : cdmaCheckSgeNum (cdmaParseJfsOpcode wr.opcode) sq wr = false)
    (built : cdmaSetSqe memory start sq wr (cdmaParseJfsOpcode wr.opcode) = .ok tmp) :
    (wqebbCnt wr tmp.ctl).toNat ≤ (sqeBbCnt cfg).toNat := by
  obtain ⟨most, _, _⟩ := localSges_length_le valid within
  have byte := cfg.maxSge.toNat_lt
  rw [sges, UInt8.toNat_toUInt32] at most
  rw [toNat_wqebbCnt, toNat_sqeBbCnt, toNat_cdmaGetWqebbCnt valid built (by omega)]
  split
  · omega
  · split <;> omega

end Accepted

theorem requestChecked_blocks_le {locals : PostLocals} {wr : DmaJfsWr} {pi : Nat}
    {request : SqRequest} {cfg : DmaJfsCfg}
    (sges : locals.sq.maxSgeNum = cfg.maxSge.toUInt32)
    (checked : requestChecked locals wr pi = some request) :
    request.blocks ≤ (sqeBbCnt cfg).toNat := by
  obtain ⟨valid, within, found⟩ := requestChecked_eq_some checked
  obtain ⟨wr_eq, _, _, built⟩ := requestOf_eq_some found
  unfold SqRequest.blocks
  rw [wr_eq]
  exact wqebbCnt_le_sqeBbCnt sges valid within built

theorem Chain.reach_le {most : Nat} {first pi : Nat} {requests : List SqRequest}
    (chain : Chain first requests pi) (bounded : ∀ request ∈ requests, request.blocks ≤ most) :
    pi ≤ first + requests.length * most := by
  induction requests generalizing first with
  | nil =>
      have same : first = pi := chain
      omega
  | cons request rest ih =>
      have later := ih chain.2 fun other member => bounded other (List.mem_cons_of_mem _ member)
      have here := bounded request (List.mem_cons_self ..)
      have starts := chain.1
      unfold SqRequest.next at later
      rw [List.length_cons, Nat.succ_mul]
      omega

/-- The largest requests of a configuration bound those outstanding. -/
structure SqWorld.Sized (cfg : DmaJfsCfg) (w : SqWorld) : Prop where
  sges : w.sq.maxSgeNum = cfg.maxSge.toUInt32
  blocks : ∀ request ∈ w.requests, request.blocks ≤ (sqeBbCnt cfg).toNat

structure SizedLocals (cfg : DmaJfsCfg) (shift ci : Nat) (locals : PostLocals) (pi : Nat)
    (requests : List SqRequest) : Prop where
  ring : SqAt shift locals.sq ci pi
  sges : locals.sq.maxSgeNum = cfg.maxSge.toUInt32
  blocks : ∀ request ∈ requests, request.blocks ≤ (sqeBbCnt cfg).toNat

theorem SizedLocals.accept {cfg : DmaJfsCfg} {shift ci pi : Nat} {locals : PostLocals}
    {requests : List SqRequest} (sized : SizedLocals cfg shift ci locals pi requests)
    (ctx : CdmaUContext) {wr : DmaJfsWr} {request : SqRequest}
    (checked : requestChecked locals wr pi = some request)
    (room : pi + request.blocks ≤ ci + 2 ^ shift) :
    SizedLocals cfg shift ci (locals.accept ctx shift request) request.next
      (requests ++ [request]) := by
  obtain ⟨_, starts, _, _⟩ := requestOf_eq_some (requestChecked_eq_some checked).2.2
  refine ⟨sized.ring.accept ctx starts room, ?_, fun other member => ?_⟩
  · unfold PostLocals.accept
    rw [setWrid_frame]
    exact sized.sges
  · rcases List.mem_append.mp member with older | newest
    · exact sized.blocks other older
    · cases List.mem_singleton.mp newest
      exact requestChecked_blocks_le sized.sges checked

theorem announcedRequests_blocks {result : PostResult} {posted : List SqRequest} {most : Nat}
    (bounded : ∀ request ∈ posted, request.blocks ≤ most) :
    ∀ request ∈ announcedRequests result posted, request.blocks ≤ most := by
  intro request member
  unfold announcedRequests at member
  split at member
  · obtain ⟨plain, isPosted, rfl⟩ := List.mem_map.mp member
    exact bounded plain isPosted
  · exact bounded request member

namespace SqWorld

variable {w next : SqWorld} {cfg : DmaJfsCfg} {shift : Nat}

theorem Sized.posts (sized : w.Sized cfg) (ring : SqAt shift w.sq w.ci w.pi)
    (wrs : List DmaJfsWr) :
    (w.post wrs).sq.maxSgeNum = cfg.maxSge.toUInt32 ∧
      ∀ request ∈ postedRequests w.ctx wrs w.pi ⟨w.memory, w.sq, none, false⟩,
        request.blocks ≤ (sqeBbCnt cfg).toNat := by
  have start : SizedLocals cfg shift w.ci ⟨w.memory, w.sq, none, false⟩ w.pi [] :=
    ⟨ring, sized.sges, fun _ member => absurd member List.not_mem_nil⟩
  have done : SizedLocals cfg shift w.ci
      (postSqWrLoop w.ctx wrs 0 ⟨w.memory, w.sq, none, false⟩).1
      (w.pi + blockSum (postedRequests w.ctx wrs w.pi ⟨w.memory, w.sq, none, false⟩))
      ([] ++ postedRequests w.ctx wrs w.pi ⟨w.memory, w.sq, none, false⟩) :=
    postSqWrLoop_keeps w.ctx
      (fun locals _ pi requests => SizedLocals cfg shift w.ci locals pi requests)
      (fun sized => sized.ring) (fun _ sized => ⟨sized.ring, sized.sges, sized.blocks⟩)
      (fun sized checked room => sized.accept w.ctx checked room) wrs start
  rw [List.nil_append] at done
  refine ⟨?_, done.blocks⟩
  have same := cdmaPostSqWr_sq w.ctx w.memory w.sq wrs
  exact (congrArg CdmaUJettyQueue.maxSgeNum same).trans done.sges

theorem Sized.step (held : Holds shift w) (sized : w.Sized cfg) {action : SqAction}
    (stepped : w.step action = some next) : next.Sized cfg := by
  cases action with
  | post wrs =>
      cases stepped
      obtain ⟨sges, blocks⟩ := sized.posts held.ring wrs
      refine ⟨sges, fun request member => ?_⟩
      rw [SqWorld.post] at member
      rcases List.mem_append.mp member with older | newer
      · exact sized.blocks request older
      · exact announcedRequests_blocks blocks request newer
  | complete =>
      simp only [SqWorld.step] at stepped
      split at stepped
      · cases stepped
      · rename_i request rest requests_eq
        cases stepped
        exact ⟨sized.sges, fun other member =>
          sized.blocks other (requests_eq ▸ List.mem_cons_of_mem _ member)⟩
  | advance count =>
      simp only [SqWorld.step, Option.ite_none_right_eq_some, Option.some.injEq] at stepped
      obtain ⟨_, rfl⟩ := stepped
      exact ⟨sized.sges, sized.blocks⟩
  | write address byte =>
      simp only [SqWorld.step, Option.ite_none_right_eq_some, Option.some.injEq] at stepped
      obtain ⟨_, rfl⟩ := stepped
      exact ⟨sized.sges, sized.blocks⟩

theorem Sized.run (held : Holds shift w) (sized : w.Sized cfg) {actions : List SqAction}
    (ran : run SqWorld.step w actions = some next) : Holds shift next ∧ next.Sized cfg := by
  have keeps : ∀ (w : SqWorld) (action : SqAction) (next : SqWorld),
      Holds shift w ∧ w.Sized cfg → w.step action = some next →
      Holds shift next ∧ next.Sized cfg := by
    intro w action next inv stepped
    exact ⟨inv.1.step stepped, inv.2.step inv.1 stepped⟩
  exact run_invariant SqWorld.step keeps ⟨held, sized⟩ ran

def fresh (ctx : CdmaUContext) (sq : CdmaUJettyQueue) (memory : Memory) : SqWorld :=
  { ctx := ctx, sq := sq, memory := memory.byte, ci := 0, pi := 0, requests := [] }

end SqWorld

def DmaJfsWr.atomicLenOk (wr : DmaJfsWr) : Bool :=
  match wr.opcode with
  | .cas => cdmaCheckAtomicLen wr.cas.src.len .cas
  | .fadd => cdmaCheckAtomicLen wr.faa.src.len .fadd
  | _ => true

theorem requestOf_of_atomicLenOk (locals : PostLocals) {wr : DmaJfsWr} (pi : Nat)
    (valid : cdmaParseJfsOpcode wr.opcode ≠ .invalid) (atomic : wr.atomicLenOk = true) :
    ∃ request, requestOf locals wr pi = some request := by
  unfold DmaJfsWr.atomicLenOk at atomic
  unfold requestOf cdmaSetSqe cdmaFillNormalSge
  cases opcode : wr.opcode with
  | write => exact ⟨_, rfl⟩
  | writeNotify => exact ⟨_, rfl⟩
  | read => exact ⟨_, rfl⟩
  | cas =>
      simp only [opcode] at atomic
      simp [cdmaUFillCasSqe, opcode, atomic]
  | fadd =>
      simp only [opcode] at atomic
      simp [cdmaUFillFaaSqe, opcode, atomic]
  | swap => exact absurd (by rw [opcode]; rfl) valid
  | last => exact absurd (by rw [opcode]; rfl) valid
  | unlisted => exact absurd (by rw [opcode]; rfl) valid

theorem cdmaPostSqWr_single {sq : CdmaUJettyQueue} {shift ci pi : Nat} (ring : SqAt shift sq ci pi)
    (ctx : CdmaUContext) (memory : ByteImage.Bytes) {wr : DmaJfsWr} {request : SqRequest}
    (checked : requestChecked ⟨memory, sq, none, false⟩ wr pi = some request)
    (room : pi + request.blocks ≤ ci + 2 ^ shift) :
    (cdmaPostSqWr ctx memory sq [wr]).error = none := by
  have locals : SqAt shift (PostLocals.mk memory sq none false).sq ci pi := ring
  have posted := cdmaPostOneWr_accepted locals ctx checked room
  rw [cdmaPostSqWr_error, postSqWrLoop, posted]
  rfl

/-- While fewer than `depth` requests are outstanding, and the consumer index is at
the oldest, every request that passes the checks is posted. -/
theorem cdmaUPostJfsWr_honours_depth {env : CreateJfsEnv} {memory after : Memory}
    {ctx : Option DmaContext} {cfg : DmaJfsCfg} {made : CdmaUJettyQueue}
    (fits : (sqeBbCnt cfg).toNat * cfg.depth.toNat ≤ 2 ^ 25)
    (created : cdmaUCreateJfs env memory ctx (some cfg) = (some made, after))
    {cdmaCtx : CdmaUContext} {actions : List SqAction} {final : SqWorld}
    (ran : run SqWorld.step (.fresh cdmaCtx made after) actions = some final)
    (caughtUp : final.ci = final.oldest) (few : final.requests.length < cfg.depth.toNat)
    {wr : DmaJfsWr} (valid : cdmaParseJfsOpcode wr.opcode ≠ .invalid)
    (within : cdmaCheckSgeNum (cdmaParseJfsOpcode wr.opcode) final.sq wr = false)
    (atomic : wr.atomicLenOk = true) :
    (cdmaPostSqWr final.ctx final.memory final.sq [wr]).error = none := by
  obtain ⟨ring, sges⟩ := cdmaUCreateJfs_ring fits created
  have initial : (SqWorld.fresh cdmaCtx made after).Initial (sqShift cfg) := ⟨ring, rfl⟩
  obtain ⟨held, sized⟩ := SqWorld.Sized.run initial.holds
    ⟨sges, fun _ member => absurd member List.not_mem_nil⟩ ran
  obtain ⟨request, found⟩ :=
    requestOf_of_atomicLenOk ⟨final.memory, final.sq, none, false⟩ final.pi valid atomic
  have checked : requestChecked ⟨final.memory, final.sq, none, false⟩ wr final.pi =
      some request := requestChecked_of_passed valid within found
  have blocks := requestChecked_blocks_le sized.sges checked
  have reach := held.chain.reach_le sized.blocks
  have covers : (sqeBbCnt cfg).toNat * cfg.depth.toNat ≤ 2 ^ sqShift cfg :=
    (Nat.le_pow_clog Nat.one_lt_two _).trans
      (Nat.pow_le_pow_right Nat.two_pos (Nat.le_max_right _ _))
  -- the requests outstanding and the new one are at most `depth` of the largest
  have total : (final.requests.length + 1) * (sqeBbCnt cfg).toNat ≤
      (sqeBbCnt cfg).toNat * cfg.depth.toNat := by
    rw [Nat.mul_comm]
    exact Nat.mul_le_mul_left _ few
  rw [Nat.succ_mul] at total
  exact cdmaPostSqWr_single held.ring final.ctx final.memory checked (by omega)

theorem cdmaUPostJfsWr_honours_depth_second :
    ∃ final, run SqWorld.step (.fresh SqWorld.fourBlocks.ctx .depthTwo
        (Memory.zeroed.mapFresh 8192 4096)) [.post [writeOne]] = some final ∧
      final.requests.length = 1 ∧
      (cdmaPostSqWr final.ctx final.memory final.sq [writeOne]).error = none := by
  have runs : (run SqWorld.step (.fresh SqWorld.fourBlocks.ctx .depthTwo
      (Memory.zeroed.mapFresh 8192 4096)) [.post [writeOne]]).isSome := by rfl
  obtain ⟨final, ran⟩ := Option.isSome_iff_exists.mp runs
  have one : final.requests.length = 1 := by
    cases ran
    rfl
  refine ⟨final, ran, one, cdmaUPostJfsWr_honours_depth (by decide) cdmaUCreateJfs_depthTwo ran
    ?_ (by rw [one]; decide) (by decide) ?_ rfl⟩
  · cases ran
    rfl
  · cases ran
    rfl

end Libcdma
