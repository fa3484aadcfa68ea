/-
Many queues in one memory.

Each queue has a send ring, a ring of entries, a doorbell and an object of its own, apart
from those of the others.  Its threads and its device take turns with those of the other
queues in any order.
-/

import Libcdma.Foundation.Lanes
import Libcdma.QueueInterleaving

namespace Libcdma

open WrapCounter ByteImage BlockRing Transition

/-- Where a queue keeps what posting, polling and the device write. -/
structure QueueArea where
  queue : UInt64
  qbuf : Nat
  shift : Nat
  cq : Nat
  cqShift : Nat
  stride : Nat
  swDb : Nat
  small : shift ≤ 16
  narrow : cqShift < 22

namespace QueueArea

structure Kept (area : QueueArea) (before after : Memory) : Prop where
  queue_eq : after.queue area.queue = before.queue area.queue
  byte_eq : ∀ address, area.qbuf ≤ address → address < area.qbuf + 2 ^ area.shift * 64 →
    after.byte address = before.byte address
  cqe_eq : ∀ slot, slot < 2 ^ area.cqShift →
    after.cqe (area.cq + slot * 2 ^ area.stride) = before.cqe (area.cq + slot * 2 ^ area.stride)
  word_eq : after.word area.swDb = before.word area.swDb

structure Apart (area other : QueueArea) : Prop where
  queue : other.queue ≠ area.queue
  notNull : other.queue ≠ 0
  rings : area.qbuf + 2 ^ area.shift * 64 ≤ other.qbuf ∨
    other.qbuf + 2 ^ other.shift * 64 ≤ area.qbuf
  entries : area.cq + 2 ^ area.cqShift * 2 ^ area.stride ≤ other.cq ∨
    other.cq + 2 ^ other.cqShift * 2 ^ other.stride ≤ area.cq
  doorbells : other.swDb ≠ area.swDb

/-- Nothing outside the area has changed, the object at NULL aside. -/
structure Only (area : QueueArea) (before after : Memory) : Prop where
  queue_eq : ∀ queue, queue ≠ area.queue → queue ≠ 0 → after.queue queue = before.queue queue
  byte_eq : ∀ address, address < area.qbuf ∨ area.qbuf + 2 ^ area.shift * 64 ≤ address →
    after.byte address = before.byte address
  cqe_eq : ∀ address,
    address < area.cq ∨ area.cq + 2 ^ area.cqShift * 2 ^ area.stride ≤ address →
    after.cqe address = before.cqe address
  word_eq : ∀ address, address ≠ area.swDb → after.word address = before.word address

theorem Only.refl (area : QueueArea) (memory : Memory) : area.Only memory memory :=
  ⟨fun _ _ _ => rfl, fun _ _ => rfl, fun _ _ => rfl, fun _ _ => rfl⟩

theorem Only.kept {area other : QueueArea} {before after : Memory}
    (only : area.Only before after) (apart : area.Apart other) : other.Kept before after := by
  have rings := apart.rings
  have entries := apart.entries
  constructor
  · exact only.queue_eq other.queue apart.queue apart.notNull
  · intro address low high
    exact only.byte_eq address (by omega)
  · intro slot inside
    have last := Nat.mul_le_mul_right (2 ^ other.stride) (Nat.succ_le_of_lt inside)
    rw [Nat.succ_mul] at last
    have size := Nat.two_pow_pos other.stride
    exact only.cqe_eq _ (by omega)
  · exact only.word_eq other.swDb apart.doorbells

end QueueArea

namespace SharedWorld

def within (w : SharedWorld) (memory : Memory) : SharedWorld := { w with memory := memory }

/-- The device writes entries that name the queue itself, or none. -/
def Honest (w : SharedWorld) : SharedAction → Prop
  | .produce cqe _ => cqe.userData = w.queue ∨ cqe.userData = 0
  | _ => True

instance (w : SharedWorld) : (action : SharedAction) → Decidable (w.Honest action)
  | .produce _ _ => inferInstanceAs (Decidable (_ ∨ _))
  | .post _ | .poster | .poll _ _ | .poller => instDecidableTrue

def move (w : SharedWorld) (memory : Memory) (action : SharedAction) :
    Option (SharedWorld × Memory) :=
  if w.Honest action then
    ((w.within memory).step action).map fun next => (next, next.memory)
  else none

/-- The queue is where its area says, and the entries written for it name it or none. -/
structure Resides (w : SharedWorld) (area : QueueArea) : Prop where
  queue_eq : w.queue = area.queue
  qbuf_eq : w.sq.qbuf = area.qbuf
  cq_eq : w.jfc.cq.qbuf = area.cq
  swDb_eq : w.jfc.swDb = area.swDb
  own : ∀ entry ∈ w.written, entry.1.userData = w.queue ∨ entry.1.userData = 0

end SharedWorld

/-! ### What the others change -/

section Bytes

variable {shift start ci polled visible pi : Nat} {sq : CdmaUJettyQueue} {bytes after : Bytes}
  {posted : List SqRequest} {thread : PostThread}

theorem Stored.congr {qbuf : Nat} {request : SqRequest}
    (same : ∀ address, qbuf ≤ address → address < qbuf + 2 ^ shift * 64 →
      after address = bytes address) (stored : Stored qbuf shift bytes request) :
    Stored qbuf shift after request := by
  unfold Stored
  rw [ringRead_inside qbuf 64 (2 ^ shift) (Nat.two_pow_pos shift) same]
  exact stored

theorem SendHalf.frame (half : SendHalf shift start ci polled sq bytes pi posted)
    (same : ∀ address, sq.qbuf ≤ address → address < sq.qbuf + 2 ^ shift * 64 →
      after address = bytes address) : SendHalf shift start ci polled sq after pi posted :=
  half.update half.geometry rfl rfl (fun _ _ _ held stored => ⟨held, stored.congr same⟩)

theorem PostThread.Sound.frame (sound : thread.Sound shift ci sq bytes pi posted visible)
    (same : ∀ address, sq.qbuf ≤ address → address < sq.qbuf + 2 ^ shift * 64 →
      after address = bytes address) : thread.Sound shift ci sq after pi posted visible := by
  have stageSound := sound.stage
  refine ⟨sound.count_eq, ?_⟩
  cases stage : thread.stage with
  | mark wr tmp i =>
      rw [stage] at stageSound
      obtain ⟨placing, addr⟩ := stageSound
      constructor
      · constructor
        · exact placing.curr_eq
        · exact placing.room
        · exact placing.within
        · exact placing.marked
        · exact placing.stored.congr same
      · exact addr
  | build =>
      rw [stage] at stageSound
      exact stageSound
  | room wr tmp =>
      rw [stage] at stageSound
      exact stageSound
  | copy wr tmp =>
      rw [stage] at stageSound
      exact stageSound
  | choose error =>
      rw [stage] at stageSound
      exact stageSound
  | announce error direct =>
      rw [stage] at stageSound
      exact stageSound

end Bytes

namespace SharedWorld

variable {w next : SharedWorld} {area : QueueArea} {start ci polled published seen : Nat}

theorem Interleaved.frame
    (inv : w.Interleaved area.shift area.cqShift area.stride start ci polled published seen)
    (resides : w.Resides area) {memory : Memory} (kept : area.Kept w.memory memory) :
    (w.within memory).Interleaved area.shift area.cqShift area.stride start ci polled published
      seen := by
  have posting := inv.posting
  have polling := inv.polling
  have sq_eq : (w.within memory).sq = w.sq := by
    unfold SharedWorld.sq
    exact resides.queue_eq ▸ kept.queue_eq
  have bytes : ∀ address, w.sq.qbuf ≤ address → address < w.sq.qbuf + 2 ^ area.shift * 64 →
      memory.byte address = w.memory.byte address := by
    rw [resides.qbuf_eq]
    exact kept.byte_eq
  have tags : (w.within memory).tags = w.tags := rfl
  constructor
  · constructor
    · rw [sq_eq]
      exact posting.half.frame bytes
    · exact posting.visible_le
    · intro thread active
      rw [sq_eq]
      exact (posting.poster thread active).frame bytes
    · intro idle
      rw [sq_eq]
      exact posting.resting idle
  · constructor
    · apply polling.arriving.frame
      · intro slot inside
        have stride : w.jfc.cq.baseblkShift.toNat = area.stride :=
          polling.arriving.geometry.stride_toNat
        unfold CdmaUJettyQueue.slotAddress
        rw [resides.cq_eq, stride]
        exact kept.cqe_eq slot inside
      · rw [resides.swDb_eq]
        exact kept.word_eq
    · exact polling.tagged
    · intro thread active
      refine (polling.poller thread active).carry polling.arriving.consumed_le rfl rfl rfl rfl
        (fun _ _ here => here) (fun _ _ here => here) ?_
      intro index request hand read
      rw [sq_eq]
      exact read
    · exact polling.unread
    · exact polling.reported
    · exact polling.collected
    · exact polling.ordered
    · exact polling.bounded

theorem Resides.frame (resides : w.Resides area) {memory : Memory}
    (kept : area.Kept w.memory memory) : (w.within memory).Resides area := by
  have sq_eq : (w.within memory).sq = w.sq := by
    unfold SharedWorld.sq
    exact resides.queue_eq ▸ kept.queue_eq
  constructor
  · exact resides.queue_eq
  · rw [sq_eq]
    exact resides.qbuf_eq
  · exact resides.cq_eq
  · exact resides.swDb_eq
  · exact resides.own

end SharedWorld

section Poster

variable {shift start ci polled visible pi : Nat} {sq : CdmaUJettyQueue} {bytes : Bytes}
  {posted : List SqRequest} {thread : PostThread} {ctx : CdmaUContext}

theorem PostThread.turn_outside (half : SendHalf shift start ci polled sq bytes pi posted)
    (sound : thread.Sound shift ci sq bytes pi posted visible) {after : CdmaUJettyQueue}
    {left : Bytes} {later : PostThread} (turned : thread.turn ctx bytes sq = .again left after later) :
    after.qbuf = sq.qbuf ∧
      ∀ address, address < sq.qbuf ∨ sq.qbuf + 2 ^ shift * 64 ≤ address →
        left address = bytes address := by
  have stageSound := sound.stage
  unfold PostThread.turn at turned
  cases stage : thread.stage with
  | build =>
      simp only [stage] at turned
      cases rest : thread.rest with
      | nil =>
          simp only [rest] at turned
          cases turned
          exact ⟨rfl, fun _ _ => rfl⟩
      | cons wr rest =>
          simp only [rest] at turned
          split at turned
          · cases turned
            exact ⟨rfl, fun _ _ => rfl⟩
          · split at turned
            · cases turned
              exact ⟨rfl, fun _ _ => rfl⟩
            · split at turned <;> cases turned <;> exact ⟨rfl, fun _ _ => rfl⟩
  | room wr tmp =>
      simp only [stage] at turned
      split at turned <;> cases turned <;> exact ⟨rfl, fun _ _ => rfl⟩
  | copy wr tmp =>
      rw [stage] at stageSound
      simp only [stage] at turned
      cases turned
      obtain ⟨curr, room⟩ := stageSound
      have ordered := half.ordered
      have slot := Nat.mod_lt pi (Nat.two_pow_pos shift)
      have tail_le : tailBlocks (2 ^ shift) pi (wqebbCnt wr tmp.ctl).toNat ≤
          2 ^ shift - pi % 2 ^ shift := Nat.min_le_left _ _
      have head_le : headBlocks (2 ^ shift) pi (wqebbCnt wr tmp.ctl).toNat ≤
          (wqebbCnt wr tmp.ctl).toNat := Nat.sub_le _ _
      constructor
      · rfl
      · intro address out
        have fits : pi % 2 ^ shift + tailBlocks (2 ^ shift) pi (wqebbCnt wr tmp.ctl).toNat ≤
            2 ^ shift := by omega
        rw [half.copyBlocks_eq curr room, ringCopy_outside fits (by omega) out]
  | mark wr tmp i =>
      simp only [stage] at turned
      split at turned <;> cases turned <;> exact ⟨rfl, fun _ _ => rfl⟩
  | choose error =>
      simp only [stage] at turned
      split at turned
      · cases turned
      · cases turned
        exact ⟨rfl, fun _ _ => rfl⟩
  | announce error direct =>
      simp only [stage] at turned
      split at turned <;> cases turned

theorem PostThread.exit_outside (sound : thread.Sound shift ci sq bytes pi posted visible)
    {result : PostResult} (turned : thread.turn ctx bytes sq = .exit result) :
    ∀ address, address < sq.qbuf ∨ sq.qbuf + 2 ^ shift * 64 ≤ address →
      result.memory address = bytes address := by
  have stageSound := sound.stage
  intro address out
  rcases (turn_exit turned).2 with ⟨error, _, kept⟩ | ⟨error, direct, stage, left⟩
  · rw [kept]
  · rw [stage] at stageSound
    rcases left with kept | ⟨isDirect, place, addr, stamped⟩
    · rw [kept]
    · obtain ⟨_, request, _, _, same⟩ := stageSound.2 isDirect
      rw [addr] at same
      cases same
      have slot := Nat.mod_lt request.first (Nat.two_pow_pos shift)
      have length : (leBytes 2 sq.pi.toNat).length = 2 := leBytes_length 2 sq.pi.toNat
      rw [stamped]
      unfold CdmaUJettyQueue.blockAddress store
      apply copy_outside
      rw [length]
      omega

end Poster

def PollThread.writes (memory : Memory) (thread : PollThread) : Option UInt64 :=
  match thread.stage with
  | .locate address => some (memory.cqe address).userData
  | .judge _ queue => some queue
  | _ => none

/-- Polling moves indices and sets flags; the queues stay where they are. -/
structure PollStays (jfc : CdmaUJfc) (memory : Memory) (writes : Option UInt64) (after : CdmaUJfc)
    (left : Memory) : Prop where
  cq_eq : after.cq.qbuf = jfc.cq.qbuf
  swDb_eq : after.swDb = jfc.swDb
  moved : left = memory ∨ ∃ queue sq, writes = some queue ∧ left = memory.setQueue queue sq ∧
    sq.qbuf = (memory.queue queue).qbuf

theorem PollThread.turn_again {jfc after : CdmaUJfc} {memory left : Memory}
    {thread later : PollThread} (turned : thread.turn jfc memory = .again after left later) :
    PollStays jfc memory (thread.writes memory) after left := by
  unfold PollThread.turn at turned
  unfold PollThread.writes
  cases stage : thread.stage with
  | look =>
      simp only [stage] at turned ⊢
      split at turned
      · split at turned
        · cases turned
          exact ⟨rfl, rfl, .inl rfl⟩
        · cases turned
          exact ⟨rfl, rfl, .inl rfl⟩
      · cases turned
        exact ⟨rfl, rfl, .inl rfl⟩
  | locate address =>
      simp only [stage, cdmaUUpdateJettyIdx] at turned ⊢
      by_cases null : (memory.cqe address).userData = 0
      · simp only [null, if_true] at turned
        cases turned
        exact ⟨rfl, rfl, .inl rfl⟩
      · cases fd : (memory.cqe address).fd with
        | true =>
            simp only [null, fd, if_true, if_false] at turned
            cases turned
            exact ⟨rfl, rfl, .inl rfl⟩
        | false =>
            simp only [null, fd, if_false, Bool.false_eq_true] at turned
            cases turned
            exact ⟨rfl, rfl, .inr ⟨_, _, rfl, rfl, rfl⟩⟩
  | fill address queue =>
      simp only [stage] at turned
      cases turned
      exact ⟨rfl, rfl, .inl rfl⟩
  | judge address queue =>
      have judged : (cdmaUUpdateFlushCr memory queue (memory.cqe address)
          (thread.call.cr thread.call.npolled)).memory = memory ∨
          ∃ sq, (cdmaUUpdateFlushCr memory queue (memory.cqe address)
            (thread.call.cr thread.call.npolled)).memory = memory.setQueue queue sq ∧
            sq.qbuf = (memory.queue queue).qbuf := by
        unfold cdmaUUpdateFlushCr
        split
        · exact .inl rfl
        · split
          · exact .inr ⟨_, rfl, rfl⟩
          · exact .inr ⟨_, rfl, rfl⟩
      have moved : ∀ left, (cdmaUUpdateFlushCr memory queue (memory.cqe address)
          (thread.call.cr thread.call.npolled)).memory = left →
          PollStays jfc memory (some queue) jfc left := by
        intro left same
        rw [← same]
        rcases judged with kept | ⟨sq, written, qbuf⟩
        · exact ⟨rfl, rfl, .inl kept⟩
        · exact ⟨rfl, rfl, .inr ⟨queue, sq, rfl, written, qbuf⟩⟩
      simp only [stage] at turned ⊢
      split at turned
      · cases turned
        exact moved _ rfl
      · split at turned
        · cases turned
          exact moved _ rfl
        · cases turned
          exact moved _ rfl
  | leave ret =>
      simp only [stage, reduceCtorEq] at turned

theorem PollThread.turn_exit {jfc after : CdmaUJfc} {memory left : Memory} {thread : PollThread}
    {call : PollCall} {value : Int} (turned : thread.turn jfc memory = .exit after left call value) :
    after = jfc ∧ (left = memory ∨ ∃ word, left = memory.setWord jfc.swDb word) := by
  unfold PollThread.turn at turned
  cases stage : thread.stage with
  | look =>
      simp only [stage] at turned
      split at turned
      · split at turned <;> cases turned
      · cases turned
  | locate address =>
      simp only [stage] at turned
      split at turned <;> cases turned
  | fill address queue => simp only [stage, reduceCtorEq] at turned
  | judge address queue =>
      simp only [stage] at turned
      split at turned
      · cases turned
      · split at turned <;> cases turned
  | leave ret =>
      simp only [stage] at turned
      cases turned
      constructor
      · rfl
      · split
        · exact .inr ⟨_, rfl⟩
        · exact .inl rfl

namespace SharedWorld

variable {w next : SharedWorld} {area : QueueArea} {start ci polled published seen : Nat}

structure Stays (area : QueueArea) (w next : SharedWorld) : Prop where
  only : area.Only w.memory next.memory
  resides : next.Resides area

theorem Interleaved.posterTurn_stays
    (inv : w.Interleaved area.shift area.cqShift area.stride start ci polled published seen)
    (resides : w.Resides area) {thread : PostThread} (active : w.poster = some thread) :
    Stays area w (w.posterTurn thread) := by
  have half := inv.posting.half
  have sound := inv.posting.poster thread active
  have queues (after : CdmaUJettyQueue) (queue : UInt64) (other : queue ≠ area.queue) :
      (w.memory.setQueue w.queue after).queue queue = w.memory.queue queue := by
    rw [← resides.queue_eq] at other
    exact Function.update_of_ne other _ _
  have sq_eq (after : CdmaUJettyQueue) :
      (w.memory.setQueue w.queue after).queue w.queue = after := Function.update_self _ _ _
  unfold SharedWorld.posterTurn
  cases turned : thread.turn w.ctx w.memory.byte w.sq with
  | again bytes after later =>
      obtain ⟨qbuf, outside⟩ := PostThread.turn_outside half sound turned
      rw [resides.qbuf_eq] at qbuf outside
      constructor
      · exact ⟨fun queue other _ => queues after queue other, outside, fun _ _ => rfl,
          fun _ _ => rfl⟩
      · constructor
        · exact resides.queue_eq
        · unfold SharedWorld.sq
          rw [sq_eq]
          exact qbuf
        · exact resides.cq_eq
        · exact resides.swDb_eq
        · exact resides.own
  | exit result =>
      have outside := PostThread.exit_outside sound turned
      have same := (PostThread.turn_exit turned).1
      rw [resides.qbuf_eq] at outside
      constructor
      · exact ⟨fun queue other _ => queues result.sq queue other, outside, fun _ _ => rfl,
          fun _ _ => rfl⟩
      · constructor
        · exact resides.queue_eq
        · unfold SharedWorld.sq
          rw [sq_eq, same]
          exact resides.qbuf_eq
        · exact resides.cq_eq
        · exact resides.swDb_eq
        · exact resides.own

/-- The queue written to by polling is that of an entry in the ring. -/
theorem Interleaved.writes_own
    (inv : w.Interleaved area.shift area.cqShift area.stride start ci polled published seen)
    (resides : w.Resides area) {thread : PollThread} (active : w.poller = some thread)
    {queue : UInt64} (writes : thread.writes w.memory = some queue) :
    queue = w.queue ∨ queue = 0 := by
  have sound := inv.polling.poller thread active
  unfold PollThread.writes at writes
  cases stage : thread.stage with
  | locate address =>
      simp only [stage, Option.some.injEq] at writes
      rw [stage] at sound
      obtain ⟨_, last, kept, isAddress, _⟩ := sound
      have reach := inv.polling.arriving.consumed_le
      obtain ⟨⟨cqe, tag⟩, here⟩ : ∃ entry, w.written[seen]? = some entry :=
        ⟨_, List.getElem?_eq_getElem (by omega)⟩
      have content := inv.polling.arriving.entry kept here
      have own : cqe.userData = w.queue ∨ cqe.userData = 0 :=
        resides.own (cqe, tag) (List.mem_of_getElem? here)
      rw [← isAddress] at content
      rw [← content, writes] at own
      exact own
  | judge address other =>
      simp only [stage, Option.some.injEq] at writes
      rw [stage] at sound
      obtain ⟨cqe, tag, entry, _, named, _⟩ := sound.entry
      obtain ⟨place, _, _, _, here⟩ := entry.taken
      have own : cqe.userData = w.queue ∨ cqe.userData = 0 :=
        resides.own (cqe, tag) (List.mem_of_getElem? here)
      rw [named, writes] at own
      exact own
  | look => simp only [stage, reduceCtorEq] at writes
  | fill address other => simp only [stage, reduceCtorEq] at writes
  | leave ret => simp only [stage, reduceCtorEq] at writes

theorem Interleaved.pollerTurn_stays
    (inv : w.Interleaved area.shift area.cqShift area.stride start ci polled published seen)
    (resides : w.Resides area) {thread : PollThread} (active : w.poller = some thread) :
    Stays area w (w.pollerTurn thread) := by
  unfold SharedWorld.pollerTurn
  cases turned : thread.turn w.jfc w.memory with
  | again jfc memory later =>
      obtain ⟨cq_eq, swDb_eq, moved⟩ := PollThread.turn_again turned
      have stays : area.Only w.memory memory ∧ (memory.queue w.queue).qbuf = w.sq.qbuf := by
        rcases moved with kept | ⟨queue, sq, writes, written, qbuf⟩
        · rw [kept]
          exact ⟨.refl area w.memory, rfl⟩
        · have own := inv.writes_own resides active writes
          rw [resides.queue_eq] at own
          rw [written]
          constructor
          · refine ⟨?_, fun _ _ => rfl, fun _ _ => rfl, fun _ _ => rfl⟩
            intro other foreign notNull
            have apart : other ≠ queue := by
              rcases own with same | null
              · exact same.symm ▸ foreign
              · exact null.symm ▸ notNull
            exact Function.update_of_ne apart _ _
          · by_cases same : w.queue = queue
            · subst same
              rw [Memory.setQueue_queue, Function.update_self]
              exact qbuf
            · rw [Memory.setQueue_queue, Function.update_of_ne same]
              rfl
      constructor
      · exact stays.1
      · constructor
        · exact resides.queue_eq
        · exact stays.2.trans resides.qbuf_eq
        · exact cq_eq.trans resides.cq_eq
        · exact swDb_eq.trans resides.swDb_eq
        · exact resides.own
  | exit jfc memory call value =>
      obtain ⟨same, published⟩ := PollThread.turn_exit turned
      subst same
      have stays : area.Only w.memory memory ∧ memory.queue w.queue = w.sq := by
        rcases published with kept | ⟨word, written⟩
        · rw [kept]
          exact ⟨.refl area w.memory, rfl⟩
        · rw [written]
          constructor
          · refine ⟨fun _ _ _ => rfl, fun _ _ => rfl, fun _ _ => rfl, ?_⟩
            intro address other
            rw [← resides.swDb_eq] at other
            exact Function.update_of_ne other _ _
          · rfl
      constructor
      · exact stays.1
      · constructor
        · exact resides.queue_eq
        · exact (congrArg CdmaUJettyQueue.qbuf stays.2).trans resides.qbuf_eq
        · exact resides.cq_eq
        · exact resides.swDb_eq
        · exact resides.own

theorem Interleaved.stays
    (inv : w.Interleaved area.shift area.cqShift area.stride start ci polled published seen)
    (resides : w.Resides area) {action : SharedAction} (honest : w.Honest action)
    (stepped : w.step action = some next) : Stays area w next := by
  cases action with
  | post wrs =>
      simp only [SharedWorld.step] at stepped
      split at stepped
      · cases stepped
        exact ⟨.refl area w.memory, ⟨resides.queue_eq, resides.qbuf_eq, resides.cq_eq,
          resides.swDb_eq, resides.own⟩⟩
      · cases stepped
  | poster =>
      obtain ⟨thread, active, moved⟩ := Option.map_eq_some_iff.mp stepped
      subst moved
      exact inv.posterTurn_stays resides active
  | produce cqe request =>
      simp only [SharedWorld.step] at stepped
      split at stepped
      · cases stepped
        have geometry := inv.polling.arriving.geometry
        have slot := Nat.mod_lt w.written.length (Nat.two_pow_pos area.cqShift)
        have last := Nat.mul_le_mul_right (2 ^ area.stride) (Nat.succ_le_of_lt slot)
        rw [Nat.succ_mul] at last
        have size := Nat.two_pow_pos area.stride
        constructor
        · refine ⟨fun _ _ _ => rfl, fun _ _ => rfl, ?_, fun _ _ => rfl⟩
          intro address out
          apply Function.update_of_ne
          unfold CdmaUJettyQueue.slotAddress
          rw [geometry.cnt_toNat, geometry.stride_toNat, resides.cq_eq]
          omega
        · constructor
          · exact resides.queue_eq
          · exact resides.qbuf_eq
          · exact resides.cq_eq
          · exact resides.swDb_eq
          · intro entry member
            rcases List.mem_append.mp member with old | new
            · exact resides.own entry old
            · rw [List.mem_singleton.mp new]
              exact honest
      · cases stepped
  | poll crCnt cr =>
      simp only [SharedWorld.step] at stepped
      split at stepped
      · cases stepped
        exact ⟨.refl area w.memory, ⟨resides.queue_eq, resides.qbuf_eq, resides.cq_eq,
          resides.swDb_eq, resides.own⟩⟩
      · cases stepped
  | poller =>
      obtain ⟨thread, active, moved⟩ := Option.map_eq_some_iff.mp stepped
      subst moved
      exact inv.pollerTurn_stays resides active

structure Sited (area : QueueArea) (w : SharedWorld) (memory : Memory) : Prop where
  resides : (w.within memory).Resides area
  reached : ∃ start ci polled published seen,
    (w.within memory).Interleaved area.shift area.cqShift area.stride start ci polled published seen

theorem confined : Lanes.Confined move QueueArea.Kept QueueArea.Apart Sited := by
  have stepped {w : SharedWorld} {memory left : Memory} {action : SharedAction}
      {after : SharedWorld} (moved : w.move memory action = some (after, left)) :
      w.Honest action ∧ (w.within memory).step action = some after ∧ left = after.memory := by
    unfold SharedWorld.move at moved
    split at moved
    · rename_i honest
      obtain ⟨next, stepped, same⟩ := Option.map_eq_some_iff.mp moved
      cases same
      exact ⟨honest, stepped, rfl⟩
    · cases moved
  constructor
  · intro area w memory action after left sited moved
    obtain ⟨resides, _, _, _, _, _, inv⟩ := sited
    obtain ⟨honest, stepped, same⟩ := stepped moved
    subst same
    have honest : (w.within memory).Honest action := by
      cases action <;> exact honest
    obtain ⟨ci, polled, published, seen, kept⟩ := inv.step area.small area.narrow stepped
    exact ⟨(inv.stays resides honest stepped).resides, _, ci, polled, published, seen, kept⟩
  · intro area other w memory action after left sited moved apart
    obtain ⟨resides, _, _, _, _, _, inv⟩ := sited
    obtain ⟨honest, stepped, same⟩ := stepped moved
    subst same
    have honest : (w.within memory).Honest action := by
      cases action <;> exact honest
    exact (inv.stays resides honest stepped).only.kept apart
  · intro area w memory left sited kept
    obtain ⟨resides, start, ci, polled, published, seen, inv⟩ := sited
    exact ⟨resides.frame kept, start, ci, polled, published, seen, inv.frame resides kept⟩

end SharedWorld

/-- Two queues of four blocks and the least depth, and the doorbells of one page. -/
def QueueArea.pair (second : Bool) : QueueArea :=
  { queue := if second then 3072 else 2048
    qbuf := if second then 6144 else 4096
    shift := 2
    cq := if second then 12288 else 8192
    cqShift := 6, stride := 6
    swDb := if second then 16448 else 16384
    small := by decide
    narrow := by decide }

def SharedWorld.pair : Lanes.System Bool SharedWorld Memory :=
  { lane := fun second =>
      { SharedWorld.fourBlocks with
        queue := (QueueArea.pair second).queue
        jfc :=
          { SharedWorld.fourBlocks.jfc with
            cq := { SharedWorld.fourBlocks.jfc.cq with qbuf := (QueueArea.pair second).cq }
            swDb := (QueueArea.pair second).swDb } }
    store :=
      { SharedWorld.fourBlocks.memory with
        queue := fun queue =>
          if queue = 3072 then { SqWorld.fourBlocks.sq with qbuf := 6144, qbufCurr := 6144 + 192 }
          else SqWorld.fourBlocks.sq } }

end Libcdma
