/-
A posting and a polling thread on one send queue.

The two threads and the device take turns in any order, one access to a shared field at
a time.  The device completes requests it was told of and writes only entries that the
software doorbell of the completion queue has released.
-/

import Libcdma.PostingThread

namespace Libcdma

open WrapCounter ByteImage BlockRing LapRing Transition QueueWorld

structure SharedWorld where
  ctx : CdmaUContext
  queue : UInt64
  jfc : CdmaUJfc
  memory : Memory
  poster : Option PostThread
  poller : Option PollThread
  /-- the producer index of the send ring, unbounded -/
  pi : Nat
  posted : List SqRequest
  /-- how many of the requests posted the device was told of -/
  visible : Nat
  /-- every entry written, with the request it completes -/
  written : List (CdmaUJfcCqe × Option Nat)
  /-- the requests that entries may still complete start here -/
  announced : Nat
  consumed : Nat
  /-- the requests completed by the elements of the caller's array -/
  marks : UInt32 → Option Nat
  reported : List (DmaCr × Option Nat)

inductive SharedAction where
  | post (wrs : List DmaJfsWr)
  | poster
  | produce (cqe : CdmaUJfcCqe) (request : Option Nat)
  | poll (crCnt : UInt32) (cr : UInt32 → DmaCr)
  | poller

namespace SharedWorld

def sq (w : SharedWorld) : CdmaUJettyQueue := w.memory.queue w.queue

def posterTurn (w : SharedWorld) (thread : PostThread) : SharedWorld :=
  match thread.turn w.ctx w.memory.byte w.sq with
  | .again bytes sq later =>
      { w with
        memory := { w.memory.setQueue w.queue sq with byte := bytes }
        poster := some later
        pi := w.pi + blockSum (thread.finishing w.pi)
        posted := w.posted ++ thread.finishing w.pi }
  | .exit result =>
      { w with
        memory := { w.memory.setQueue w.queue result.sq with byte := result.memory }
        poster := none
        visible := w.posted.length }

def takes (w : SharedWorld) (thread : PollThread) : Bool :=
  match thread.stage with
  | .look => (thread.call.upcoming w.jfc w.memory).isSome
  | _ => false

def pollerTurn (w : SharedWorld) (thread : PollThread) : SharedWorld :=
  match thread.turn w.jfc w.memory with
  | .again jfc memory later =>
      { w with
        jfc := jfc
        memory := memory
        poller := some later
        consumed := if w.takes thread then w.consumed + 1 else w.consumed
        marks :=
          if w.takes thread then
            Function.update w.marks thread.call.npolled (tagAt w.written w.consumed)
          else w.marks }
  | .exit jfc memory call value =>
      { w with
        jfc := jfc
        memory := memory
        poller := none
        reported := w.reported ++ (List.range value.toNat).map
          (fun place => (call.cr (counter place), w.marks (counter place))) }

/-- The software doorbell leaves the device an entry to write. -/
def Free (w : SharedWorld) : Prop :=
  ((counter w.written.length - w.memory.word w.jfc.swDb) &&& cdmaJfcDbCiIdxM).toNat <
    w.jfc.cq.baseblkCnt.toNat

instance (w : SharedWorld) : Decidable w.Free := by
  unfold Free
  infer_instance

def produce (w : SharedWorld) (cqe : CdmaUJfcCqe) (request : Option Nat) : SharedWorld :=
  let index := w.written.length
  { w with
    memory := deviceWrite w.jfc.cq w.memory index cqe
    written := w.written ++ [(deviceEntry w.jfc.cq index cqe, request)]
    announced := request.elim w.announced (· + 1) }

def step (w : SharedWorld) : SharedAction → Option SharedWorld
  | .post wrs =>
      match w.poster with
      | none => some { w with poster := some (.start wrs) }
      | some _ => none
  | .poster => w.poster.map w.posterTurn
  | .produce cqe request =>
      if Names w.queue (w.posted.take w.visible) cqe request ∧
          (∀ index ∈ request, w.announced ≤ index) ∧ w.Free
      then some (w.produce cqe request) else none
  | .poll crCnt cr =>
      match w.poller with
      | none => some { w with poller := some (.start crCnt cr) }
      | some _ => none
  | .poller => w.poller.map w.pollerTurn

structure Initial (w : SharedWorld) (shift cqShift stride : Nat) : Prop where
  ring : SqAt shift w.sq w.pi w.pi
  geometry : CqGeometry w.jfc.cq cqShift stride
  ci_eq : w.jfc.cq.ci = 0
  swDb_eq : w.memory.word w.jfc.swDb = 0
  zeroed : ∀ slot, slot < 2 ^ cqShift → w.memory.cqe (w.jfc.cq.slotAddress slot) = .zeroed
  poster_eq : w.poster = none
  poller_eq : w.poller = none
  posted_eq : w.posted = []
  visible_eq : w.visible = 0
  written_eq : w.written = []
  announced_eq : w.announced = 0
  consumed_eq : w.consumed = 0
  reported_eq : w.reported = []

end SharedWorld

/-- Every entry from the index in the software doorbell on is in its slot. -/
structure Arriving (cqShift stride consumed published : Nat) (jfc : CdmaUJfc) (memory : Memory)
    (written : List (CdmaUJfcCqe × Option Nat)) : Prop where
  geometry : CqGeometry jfc.cq cqShift stride
  ci_eq : jfc.cq.ci = counter consumed
  word_eq : memory.word jfc.swDb = counter published &&& cdmaJfcDbCiIdxM
  published_le : published ≤ consumed
  consumed_le : consumed ≤ written.length
  room : written.length ≤ published + 2 ^ cqShift
  stamped : Stamped CdmaUJfcCqe.owner (2 ^ cqShift) (ringSlots jfc.cq memory.cqe) written.length
  recent : Recent (2 ^ cqShift) (ringSlots jfc.cq memory.cqe) (written.map Prod.fst)

namespace Arriving

variable {cqShift stride consumed published : Nat} {jfc : CdmaUJfc} {memory : Memory}
  {written : List (CdmaUJfcCqe × Option Nat)}

/-- The doorbell's bits are enough to tell how far the device is ahead. -/
theorem free_iff (arriving : Arriving cqShift stride consumed published jfc memory written)
    (narrow : cqShift < 22) :
    ((counter written.length - memory.word jfc.swDb) &&& cdmaJfcDbCiIdxM).toNat <
      jfc.cq.baseblkCnt.toNat ↔ written.length < published + 2 ^ cqShift := by
  have mask : cdmaJfcDbCiIdxM = counter (2 ^ 22 - 1) := rfl
  have cnt : 2 ^ cqShift ≤ 2 ^ 21 := Nat.pow_le_pow_right Nat.two_pos (Nat.le_of_lt_succ narrow)
  have behind := arriving.published_le
  have reach := arriving.consumed_le
  have room := arriving.room
  rw [arriving.geometry.cnt_toNat, arriving.word_eq, mask, toNat_and_mask (by decide),
    UInt32.toNat_sub, toNat_counter_and_mask (by decide), toNat_counter]
  omega

theorem entry (arriving : Arriving cqShift stride consumed published jfc memory written)
    {place : Nat} {cqe : CdmaUJfcCqe} {tag : Option Nat} (kept : published ≤ place)
    (here : written[place]? = some (cqe, tag)) :
    memory.cqe (jfc.cq.slotAddress (place % 2 ^ cqShift)) = cqe := by
  have room := arriving.room
  apply arriving.recent place cqe
  · rw [List.getElem?_map, here]
    rfl
  · rw [List.length_map]
    omega

theorem next (arriving : Arriving cqShift stride consumed published jfc memory written)
    {address : Nat} (found : cdmaUGetNextCqe jfc memory jfc.cq.ci = some address) :
    consumed < written.length ∧ address = jfc.cq.slotAddress (consumed % 2 ^ cqShift) := by
  have behind := arriving.published_le
  have room := arriving.room
  have valid := arriving.stamped.valid_iff arriving.consumed_le (by omega)
    (Nat.two_pow_pos cqShift)
  have next := cdmaUGetNextCqe_counter arriving.geometry memory arriving.ci_eq consumed
  rw [← arriving.ci_eq, found] at next
  split at next
  · rename_i isValid
    exact ⟨valid.mp isValid, Option.some.inj next⟩
  · cases next

theorem take (arriving : Arriving cqShift stride consumed published jfc memory written)
    (more : consumed < written.length) :
    Arriving cqShift stride (consumed + 1) published (jfc.setCi (jfc.cq.ci + 1)) memory
      written := by
  constructor
  · exact arriving.geometry.setCi _
  · rw [← counter_succ, ← arriving.ci_eq]
    rfl
  · exact arriving.word_eq
  · exact Nat.le_succ_of_le arriving.published_le
  · exact more
  · exact arriving.room
  · exact arriving.stamped
  · exact arriving.recent

theorem publish (arriving : Arriving cqShift stride consumed published jfc memory written) :
    Arriving cqShift stride consumed consumed jfc
      (memory.setWord jfc.swDb (jfc.cq.ci &&& cdmaJfcDbCiIdxM)) written := by
  have behind := arriving.published_le
  have room := arriving.room
  constructor
  · exact arriving.geometry
  · exact arriving.ci_eq
  · rw [Memory.setWord_word, Function.update_self, arriving.ci_eq]
  · exact Nat.le_refl _
  · exact arriving.consumed_le
  · omega
  · exact arriving.stamped
  · exact arriving.recent

theorem write (arriving : Arriving cqShift stride consumed published jfc memory written)
    (free : written.length < published + 2 ^ cqShift) (cqe : CdmaUJfcCqe) (tag : Option Nat) :
    Arriving cqShift stride consumed published jfc (deviceWrite jfc.cq memory written.length cqe)
      (written ++ [(deviceEntry jfc.cq written.length cqe, tag)]) := by
  have slots : ringSlots jfc.cq (deviceWrite jfc.cq memory written.length cqe).cqe =
      Function.update (ringSlots jfc.cq memory.cqe) (written.length % 2 ^ cqShift)
        (deviceEntry jfc.cq written.length cqe) := by
    unfold deviceWrite
    rw [arriving.geometry.cnt_toNat, Memory.setCqe_cqe, ringSlots_update]
  have stamp : (deviceEntry jfc.cq written.length cqe).owner =
      lapOwner (2 ^ cqShift) written.length := by
    unfold deviceEntry
    rw [arriving.geometry.cnt_toNat]
  have reach := arriving.consumed_le
  have length : (written ++ [(deviceEntry jfc.cq written.length cqe, tag)]).length =
      written.length + 1 := by
    rw [List.length_append, List.length_singleton]
  constructor
  · exact arriving.geometry
  · exact arriving.ci_eq
  · exact arriving.word_eq
  · exact arriving.published_le
  · omega
  · omega
  · rw [slots, length]
    exact arriving.stamped.write stamp
  · have recent := arriving.recent.write (deviceEntry jfc.cq written.length cqe)
    rw [List.length_map] at recent
    rw [slots, List.map_append]
    exact recent

theorem frame (arriving : Arriving cqShift stride consumed published jfc memory written)
    {after : Memory}
    (entries : ∀ slot, slot < 2 ^ cqShift →
      after.cqe (jfc.cq.slotAddress slot) = memory.cqe (jfc.cq.slotAddress slot))
    (word : after.word jfc.swDb = memory.word jfc.swDb) :
    Arriving cqShift stride consumed published jfc after written := by
  constructor
  · exact arriving.geometry
  · exact arriving.ci_eq
  · rw [word]
    exact arriving.word_eq
  · exact arriving.published_le
  · exact arriving.consumed_le
  · exact arriving.room
  · exact arriving.stamped.congr (Nat.two_pow_pos cqShift) entries
  · exact arriving.recent.congr (Nat.two_pow_pos cqShift) entries

end Arriving

/-! ### The invariant -/

def PollCall.tags (call : PollCall) (marks : UInt32 → Option Nat) : List Nat :=
  (List.range call.npolled.toNat).filterMap (fun place => marks (counter place))

namespace SharedWorld

def tags (w : SharedWorld) : List Nat :=
  w.reported.filterMap Prod.snd ++ w.poller.elim [] (fun thread => thread.call.tags w.marks)

structure Entry (w : SharedWorld) (cqShift published : Nat) (address : Nat) (cqe : CdmaUJfcCqe)
    (tag : Option Nat) : Prop where
  taken : ∃ place, place + 1 = w.consumed ∧ published ≤ place ∧
    address = w.jfc.cq.slotAddress (place % 2 ^ cqShift) ∧ w.written[place]? = some (cqe, tag)

/-- The consumer index of the send queue is in the request that is completed. -/
structure InHand (w : SharedWorld) (ci polled index : Nat) (request : SqRequest) : Prop where
  isPosted : w.posted[index]? = some request
  reached : request.first ≤ ci
  within : ci < request.next
  polled_eq : polled = index + 1
  fresh : ∀ tag ∈ w.tags, tag < index

structure Located (w : SharedWorld) (cqShift ci polled published seen : Nat) (call : PollCall)
    (address : Nat) (queue : UInt64) (context : SqRequest → Prop) : Prop where
  more : call.npolled < call.crCnt
  seen_eq : seen = w.consumed
  entry : ∃ cqe tag, w.Entry cqShift published address cqe tag ∧
    w.marks call.npolled = tag ∧ cqe.userData = queue ∧
    ∀ index, tag = some index → ∃ request, w.InHand ci polled index request ∧ context request

def PollSound (w : SharedWorld) (cqShift ci polled published seen : Nat) (call : PollCall) :
    PollStage → Prop
  | .look => seen = w.consumed
  | .locate address =>
      call.npolled < call.crCnt ∧ seen + 1 = w.consumed ∧ published ≤ seen ∧
        address = w.jfc.cq.slotAddress (seen % 2 ^ cqShift) ∧
        w.marks call.npolled = tagAt w.written seen
  | .fill address queue =>
      w.Located cqShift ci polled published seen call address queue
        (fun request => w.sq.wrid (counter ci &&& w.sq.baseblkMask) = request.wr.userCtx)
  | .judge address queue =>
      w.Located cqShift ci polled published seen call address queue
        (fun request => (call.cr call.npolled).userCtx = request.wr.userCtx)
  | .leave _ => seen = w.consumed

structure PosterSide (w : SharedWorld) (shift start ci polled : Nat) : Prop where
  half : SendHalf shift start ci polled w.sq w.memory.byte w.pi w.posted
  visible_le : w.visible ≤ w.posted.length
  poster : ∀ thread, w.poster = some thread →
    thread.Sound shift ci w.sq w.memory.byte w.pi w.posted w.visible
  resting : w.poster = none →
    w.sq.qbufCurr = w.sq.blockAddress shift w.pi ∧ w.visible = w.posted.length

structure PollerSide (w : SharedWorld) (cqShift stride ci polled published seen : Nat) :
    Prop where
  arriving : Arriving cqShift stride w.consumed published w.jfc w.memory w.written
  tagged : Tagged w.queue w.posted w.written w.announced w.visible polled seen
  poller : ∀ thread, w.poller = some thread →
    w.PollSound cqShift ci polled published seen thread.call thread.stage
  unread : w.poller = none → seen = w.consumed
  reported : ∀ record index, (record, some index) ∈ w.reported → Carries w.posted record index
  collected : ∀ thread, w.poller = some thread → Collected w.posted thread.call w.marks
  ordered : w.tags.Pairwise (· < ·)
  bounded : ∀ tag ∈ w.tags, tag < polled

structure Interleaved (w : SharedWorld)
    (shift cqShift stride start ci polled published seen : Nat) : Prop where
  posting : w.PosterSide shift start ci polled
  polling : w.PollerSide cqShift stride ci polled published seen

section Steps

variable {w other : SharedWorld} {shift cqShift stride start ci polled published seen : Nat}

/-- An entry in work stays in work when what it is about stays. -/
theorem Located.carry {call : PollCall} {address : Nat} {queue : UInt64}
    {context kept : SqRequest → Prop}
    (located : w.Located cqShift ci polled published seen call address queue context)
    (consumed : other.consumed = w.consumed) (jfc : other.jfc = w.jfc)
    (marks : other.marks = w.marks) (tags : other.tags = w.tags)
    (written : ∀ (place : Nat) (entry : CdmaUJfcCqe × Option Nat),
      w.written[place]? = some entry → other.written[place]? = some entry)
    (posted : ∀ (index : Nat) (request : SqRequest),
      w.posted[index]? = some request → other.posted[index]? = some request)
    (keeps : ∀ index request, w.InHand ci polled index request → context request → kept request) :
    other.Located cqShift ci polled published seen call address queue kept := by
  obtain ⟨cqe, tag, entry, mark, named, inHand⟩ := located.entry
  obtain ⟨place, last, published_le, isAddress, here⟩ := entry.taken
  constructor
  · exact located.more
  · rw [consumed]
    exact located.seen_eq
  · refine ⟨cqe, tag, ⟨place, ?_, published_le, ?_, written _ _ here⟩, ?_, named, ?_⟩
    · rw [consumed]
      exact last
    · rw [jfc]
      exact isAddress
    · rw [marks]
      exact mark
    · intro index isTag
      obtain ⟨request, hand, holds⟩ := inHand index isTag
      refine ⟨request, ⟨posted _ _ hand.isPosted, hand.reached, hand.within, hand.polled_eq, ?_⟩,
        keeps index request hand holds⟩
      rw [tags]
      exact hand.fresh

theorem tagAt_kept {written after : List (CdmaUJfcCqe × Option Nat)} {place : Nat}
    (inside : place < written.length)
    (kept : ∀ (place : Nat) (entry : CdmaUJfcCqe × Option Nat),
      written[place]? = some entry → after[place]? = some entry) :
    tagAt after place = tagAt written place := by
  have here := List.getElem?_eq_getElem inside
  unfold tagAt
  rw [kept place _ here, here]

theorem PollSound.carry {call : PollCall} {stage : PollStage}
    (sound : w.PollSound cqShift ci polled published seen call stage)
    (inside : w.consumed ≤ w.written.length)
    (consumed : other.consumed = w.consumed) (jfc : other.jfc = w.jfc)
    (marks : other.marks = w.marks) (tags : other.tags = w.tags)
    (written : ∀ (place : Nat) (entry : CdmaUJfcCqe × Option Nat),
      w.written[place]? = some entry → other.written[place]? = some entry)
    (posted : ∀ (index : Nat) (request : SqRequest),
      w.posted[index]? = some request → other.posted[index]? = some request)
    (contexts : ∀ index request, w.InHand ci polled index request →
      w.sq.wrid (counter ci &&& w.sq.baseblkMask) = request.wr.userCtx →
      other.sq.wrid (counter ci &&& other.sq.baseblkMask) = request.wr.userCtx) :
    other.PollSound cqShift ci polled published seen call stage := by
  cases stage with
  | look => exact Eq.trans sound consumed.symm
  | leave ret => exact Eq.trans sound consumed.symm
  | locate address =>
      obtain ⟨more, last, kept, isAddress, mark⟩ := sound
      refine ⟨more, last.trans consumed.symm, kept, ?_, ?_⟩
      · rw [jfc]
        exact isAddress
      · rw [marks, tagAt_kept (by omega) written]
        exact mark
  | fill address queue =>
      exact Located.carry sound consumed jfc marks tags written posted contexts
  | judge address queue =>
      exact Located.carry sound consumed jfc marks tags written posted (fun _ _ _ read => read)

theorem PollerSide.post (polling : w.PollerSide cqShift stride ci polled published seen)
    (half : SendHalf shift start ci polled w.sq w.memory.byte w.pi w.posted)
    {after : CdmaUJettyQueue} (steady : Steady ci w.pi w.sq after) {visible : Nat}
    (grows : w.visible ≤ visible) (bytes : Bytes) (finished : List SqRequest) (pi : Nat) (poster : Option PostThread) :
    PollerSide
      { w with
        memory := { w.memory.setQueue w.queue after with byte := bytes }
        poster := poster
        pi := pi
        posted := w.posted ++ finished
        visible := visible }
      cqShift stride ci polled published seen := by
  have sq_eq : (w.memory.setQueue w.queue after).queue w.queue = after :=
    Function.update_self _ _ _
  have tagged := polling.tagged
  have longer (index : Nat) (request : SqRequest) (here : w.posted[index]? = some request) :
      (w.posted ++ finished)[index]? = some request :=
    (List.getElem?_append_left (List.getElem?_eq_some_iff.mp here).1).trans here
  constructor
  · exact polling.arriving.frame (fun _ _ => rfl) rfl
  · exact ⟨fun entry member => (tagged.names entry member).append _, tagged.sorted,
      tagged.pending, tagged.below, tagged.polled_le, Nat.le_trans tagged.announced_le grows⟩
  · intro thread active
    refine (polling.poller thread active).carry polling.arriving.consumed_le rfl rfl rfl rfl
      (fun _ _ here => here) longer ?_
    intro index request hand read
    have bounds := half.chain.mem_bounds (List.mem_of_getElem? hand.isPosted)
    unfold SharedWorld.sq at read ⊢
    rw [sq_eq, steady.mask_eq, ← read]
    exact steady.wrid_eq ci (Nat.le_refl ci) (Nat.lt_of_lt_of_le hand.within bounds.2)
  · exact polling.unread
  · intro record index member
    exact (polling.reported record index member).append _
  · intro thread active place below index mark
    exact (polling.collected thread active place below index mark).append _
  · exact polling.ordered
  · exact polling.bounded

namespace Interleaved

theorem polled_le (inv : w.Interleaved shift cqShift stride start ci polled published seen) :
    polled ≤ w.visible :=
  Nat.le_trans inv.polling.tagged.polled_le inv.polling.tagged.announced_le

theorem posterTurn (inv : w.Interleaved shift cqShift stride start ci polled published seen)
    {thread : PostThread} (active : w.poster = some thread) :
    (w.posterTurn thread).Interleaved shift cqShift stride start ci polled published seen := by
  have half := inv.posting.half
  have sound := inv.posting.poster thread active
  have sq_eq (after : CdmaUJettyQueue) :
      (w.memory.setQueue w.queue after).queue w.queue = after := Function.update_self _ _ _
  unfold SharedWorld.posterTurn
  cases turned : thread.turn w.ctx w.memory.byte w.sq with
  | again bytes after later =>
      have keeps := PosterKeeps.turn half sound inv.polled_le turned
      have count := keeps.sound.count_eq
      constructor
      · constructor
        · unfold SharedWorld.sq
          rw [sq_eq]
          exact keeps.half
        · simp only
          omega
        · intro other same
          cases same
          unfold SharedWorld.sq
          rw [sq_eq]
          exact keeps.sound
        · intro impossible
          cases impossible
      · exact inv.polling.post half keeps.steady (Nat.le_refl _) bytes _ _ _
  | exit result =>
      obtain ⟨left, same, curr⟩ := half.exit sound turned
      have steady : Steady ci w.pi w.sq w.sq := ⟨rfl, rfl, fun _ _ _ => rfl⟩
      have polling := inv.polling.post half steady inv.posting.visible_le result.memory [] w.pi none
      rw [List.append_nil] at polling
      simp only
      rw [same]
      constructor
      · constructor
        · unfold SharedWorld.sq
          rw [sq_eq]
          exact left
        · exact Nat.le_refl _
        · intro other impossible
          cases impossible
        · intro _
          unfold SharedWorld.sq
          rw [sq_eq]
          exact ⟨curr, rfl⟩
      · exact polling

/-- An entry is written behind all others, and completes a request that was announced. -/
theorem produce (inv : w.Interleaved shift cqShift stride start ci polled published seen)
    (narrow : cqShift < 22) {cqe : CdmaUJfcCqe} {request : Option Nat}
    (names : Names w.queue (w.posted.take w.visible) cqe request)
    (ahead : ∀ index ∈ request, w.announced ≤ index) (free : w.Free) :
    (w.produce cqe request).Interleaved shift cqShift stride start ci polled published seen := by
  have polling := inv.polling
  have reach := polling.arriving.consumed_le
  have known : Names w.queue w.posted (deviceEntry w.jfc.cq w.written.length cqe) request := by
    have all := names.append (w.posted.drop w.visible)
    rw [List.take_append_drop] at all
    cases request <;> exact all
  have visible : request.elim w.visible (fun index => max w.visible (index + 1)) = w.visible := by
    cases request with
    | none => rfl
    | some index =>
        obtain ⟨_, _, posted, isPosted, _⟩ := names
        have inside := (List.getElem?_eq_some_iff.mp isPosted).1
        rw [List.length_take] at inside
        exact Nat.max_eq_left (by omega)
  have tagged := polling.tagged.write known ahead
  rw [visible] at tagged
  have longer (place : Nat) (entry : CdmaUJfcCqe × Option Nat)
      (here : w.written[place]? = some entry) :
      (w.produce cqe request).written[place]? = some entry :=
    (List.getElem?_append_left (List.getElem?_eq_some_iff.mp here).1).trans here
  constructor
  · exact ⟨inv.posting.half, inv.posting.visible_le, inv.posting.poster, inv.posting.resting⟩
  constructor
  · exact polling.arriving.write ((polling.arriving.free_iff narrow).mp free) cqe request
  · exact tagged
  · intro thread active
    exact (polling.poller thread active).carry reach rfl rfl rfl rfl longer
      (fun _ _ here => here) (fun _ _ _ read => read)
  · exact polling.unread
  · exact polling.reported
  · exact polling.collected
  · exact polling.ordered
  · exact polling.bounded

end Interleaved

/-! #### The polling thread -/

structure Quiet (sq after : CdmaUJettyQueue) : Prop where
  qbuf_eq : after.qbuf = sq.qbuf
  curr_eq : after.qbufCurr = sq.qbufCurr
  mask_eq : after.baseblkMask = sq.baseblkMask
  wrid_eq : after.wrid = sq.wrid

theorem Quiet.sound {thread : PostThread} {sq after : CdmaUJettyQueue} {bytes : Bytes}
    {pi visible reached : Nat} {posted : List SqRequest} (quiet : Quiet sq after)
    (sound : thread.Sound shift ci sq bytes pi posted visible) (forward : ci ≤ reached) :
    thread.Sound shift reached after bytes pi posted visible := by
  have address (index : Nat) : after.blockAddress shift index = sq.blockAddress shift index := by
    unfold CdmaUJettyQueue.blockAddress
    rw [quiet.qbuf_eq]
  have stageSound := sound.stage
  refine ⟨sound.count_eq, ?_⟩
  cases stage : thread.stage with
  | build =>
      rw [stage] at stageSound
      simp only [PostStage.Sound, PostThread.Latest, address, quiet.curr_eq] at stageSound ⊢
      exact stageSound
  | room wr tmp =>
      rw [stage] at stageSound
      simp only [PostStage.Sound, PostThread.Latest, address, quiet.curr_eq] at stageSound ⊢
      exact stageSound
  | copy wr tmp =>
      rw [stage] at stageSound
      simp only [PostStage.Sound, address, quiet.curr_eq] at stageSound ⊢
      exact ⟨stageSound.1, by omega⟩
  | mark wr tmp i =>
      rw [stage] at stageSound
      obtain ⟨placing, addr⟩ := stageSound
      have room := placing.room
      constructor
      · constructor
        · rw [address, quiet.curr_eq]
          exact placing.curr_eq
        · omega
        · exact placing.within
        · rw [quiet.wrid_eq, quiet.mask_eq]
          exact placing.marked
        · rw [quiet.qbuf_eq]
          exact placing.stored
      · rw [address]
        exact addr
  | choose error =>
      rw [stage] at stageSound
      simp only [PostStage.Sound, PostThread.Latest, address, quiet.curr_eq] at stageSound ⊢
      exact stageSound
  | announce error direct =>
      rw [stage] at stageSound
      simp only [PostStage.Sound, address, quiet.curr_eq] at stageSound ⊢
      refine ⟨stageSound.1, fun isDirect => ?_⟩
      obtain ⟨alone, latest⟩ := stageSound.2 isDirect
      exact ⟨by omega, latest⟩

theorem PosterSide.poll (posting : w.PosterSide shift start ci polled) {memory : Memory}
    {reached later : Nat}
    (half : SendHalf shift start reached later (memory.queue w.queue) memory.byte w.pi w.posted)
    (quiet : Quiet w.sq (memory.queue w.queue)) (bytes : memory.byte = w.memory.byte)
    (forward : ci ≤ reached) (jfc : CdmaUJfc) (poller : Option PollThread) (consumed : Nat)
    (marks : UInt32 → Option Nat) (reported : List (DmaCr × Option Nat)) :
    PosterSide
      { w with
        jfc := jfc
        memory := memory
        poller := poller
        consumed := consumed
        marks := marks
        reported := reported }
      shift start reached later := by
  constructor
  · exact half
  · exact posting.visible_le
  · intro thread active
    have sound := quiet.sound (posting.poster thread active) forward
    rw [← bytes] at sound
    exact sound
  · intro idle
    have resting := posting.resting idle
    unfold SharedWorld.sq
    unfold CdmaUJettyQueue.blockAddress at resting ⊢
    rw [quiet.curr_eq, quiet.qbuf_eq]
    exact resting

theorem tags_some {thread : PollThread} (active : w.poller = some thread) :
    w.tags = w.reported.filterMap Prod.snd ++ thread.call.tags w.marks := by
  unfold SharedWorld.tags
  rw [active]
  rfl

theorem PollerSide.again (polling : w.PollerSide cqShift stride ci polled published seen)
    {thread : PollThread} (active : w.poller = some thread) (later : PollThread) {jfc : CdmaUJfc}
    {memory : Memory} {reached polled' seen' : Nat}
    (arriving : Arriving cqShift stride w.consumed published jfc memory w.written)
    (tagged : Tagged w.queue w.posted w.written w.announced w.visible polled' seen')
    (npolled : later.call.npolled = thread.call.npolled)
    (cr : ∀ place, place < thread.call.npolled → later.call.cr place = thread.call.cr place)
    (passed : polled ≤ polled')
    (sound : PollSound { w with jfc := jfc, memory := memory, poller := some later } cqShift
      reached polled' published seen' later.call later.stage) :
    PollerSide { w with jfc := jfc, memory := memory, poller := some later } cqShift stride reached
      polled' published seen' := by
  have tags : tags { w with jfc := jfc, memory := memory, poller := some later } = w.tags := by
    rw [tags_some active, tags_some rfl]
    unfold PollCall.tags
    rw [npolled]
  constructor
  · exact arriving
  · exact tagged
  · intro other same
    cases same
    exact sound
  · intro impossible
    cases impossible
  · exact polling.reported
  · intro other same place below index mark
    cases same
    rw [npolled] at below
    rw [cr place below]
    exact polling.collected thread active place below index mark
  · rw [tags]
    exact polling.ordered
  · rw [tags]
    exact fun tag member => Nat.lt_of_lt_of_le (polling.bounded tag member) passed

theorem tags_update {call : PollCall} {marks : UInt32 → Option Nat} (tag : Option Nat) :
    call.tags (Function.update marks call.npolled tag) = call.tags marks := by
  unfold PollCall.tags
  apply List.filterMap_congr
  intro place member
  have below := List.mem_range.mp member
  have small := call.npolled.toNat_lt
  have value := toNat_counter_of_lt (Nat.lt_trans below small)
  apply Function.update_of_ne
  intro same
  rw [same] at value
  omega

theorem tags_succ {call : PollCall} (marks : UInt32 → Option Nat) (cr : UInt32 → DmaCr)
    (more : call.npolled < call.crCnt) :
    PollCall.tags { call with npolled := call.npolled + 1, cr := cr } marks =
      call.tags marks ++ (marks call.npolled).toList := by
  unfold PollCall.tags
  rw [toNat_succ_of_lt more, List.range_succ, List.filterMap_append, List.filterMap_cons,
    List.filterMap_nil, counter_toNat]
  cases marks call.npolled <;> rfl

theorem PollerSide.finish (polling : w.PollerSide cqShift stride ci polled published seen)
    {thread : PollThread} (active : w.poller = some thread) {memory : Memory} {reached : Nat}
    (arriving : Arriving cqShift stride w.consumed published w.jfc memory w.written)
    (caughtUp : seen = w.consumed) (more : thread.call.npolled < thread.call.crCnt) (cr : DmaCr)
    (fresh : ∀ index, w.marks thread.call.npolled = some index →
      (∀ tag ∈ w.tags, tag < index) ∧ index < polled ∧ Carries w.posted cr index) :
    PollerSide
      { w with
        memory := memory
        poller := some
          { call := { (thread.setCr cr).call with npolled := thread.call.npolled + 1 }
            stage := .look } }
      cqShift stride reached polled published seen := by
  have tags : tags
      { w with
        memory := memory
        poller := some
          { call := { (thread.setCr cr).call with npolled := thread.call.npolled + 1 }
            stage := .look } } = w.tags ++ (w.marks thread.call.npolled).toList := by
    rw [tags_some active, tags_some rfl, List.append_assoc]
    exact congrArg _ (tags_succ w.marks _ more)
  constructor
  · exact arriving
  · exact polling.tagged
  · intro other same
    cases same
    exact caughtUp
  · intro impossible
    cases impossible
  · exact polling.reported
  · intro other same place below index mark
    cases same
    by_cases last : place = thread.call.npolled
    · rw [last] at mark ⊢
      simp only [PollThread.setCr, Function.update_self]
      exact (fresh index mark).2.2
    · have before : place < thread.call.npolled := by
        have value := toNat_succ_of_lt more
        rw [UInt32.lt_iff_toNat_lt] at below ⊢
        have apart : place.toNat ≠ thread.call.npolled.toNat := fun same =>
          last (UInt32.toNat_inj.mp same)
        simp only at below
        omega
      simp only [PollThread.setCr, Function.update_of_ne last]
      exact polling.collected thread active place before index mark
  · rw [tags, List.pairwise_append]
    refine ⟨polling.ordered, ?_, ?_⟩
    · cases w.marks thread.call.npolled with
      | none => exact List.Pairwise.nil
      | some index => exact List.pairwise_singleton _ _
    · intro tag member index last
      exact (fresh index (Option.mem_toList.mp last)).1 tag member
  · rw [tags]
    intro tag member
    rcases List.mem_append.mp member with old | last
    · exact polling.bounded tag old
    · exact (fresh tag (Option.mem_toList.mp last)).2.1

theorem PollerSide.exit (polling : w.PollerSide cqShift stride ci polled published seen)
    {thread : PollThread} (active : w.poller = some thread) {memory : Memory} {reached : Nat}
    (arriving : Arriving cqShift stride w.consumed reached w.jfc memory w.written)
    (caughtUp : seen = w.consumed) (value : Int)
    (counted : ∀ place, place < value.toNat → counter place < thread.call.npolled) :
    PollerSide
      { w with
        memory := memory
        poller := none
        reported := w.reported ++ (List.range value.toNat).map
          (fun place => (thread.call.cr (counter place), w.marks (counter place))) }
      cqShift stride ci polled reached seen := by
  have few : value.toNat ≤ thread.call.npolled.toNat := by
    by_contra more
    have last := counted thread.call.npolled.toNat (Nat.lt_of_not_le more)
    rw [counter_toNat] at last
    exact UInt32.lt_irrefl _ last
  let handed := (List.range value.toNat).map
    (fun place => (thread.call.cr (counter place), w.marks (counter place)))
  have fewer : List.Sublist ((w.reported ++ handed).filterMap Prod.snd ++ []) w.tags := by
    rw [tags_some active, List.append_nil, List.filterMap_append, List.filterMap_map]
    exact List.Sublist.append_left ((List.range_sublist.mpr few).filterMap _) _
  constructor
  · exact arriving
  · exact polling.tagged
  · intro other impossible
    cases impossible
  · intro _
    exact caughtUp
  · intro record index member
    rcases List.mem_append.mp member with old | new
    · exact polling.reported record index old
    · obtain ⟨place, within, same⟩ := List.mem_map.mp new
      obtain ⟨isRecord, isMark⟩ := Prod.mk.inj same
      subst isRecord
      exact polling.collected thread active _ (counted place (List.mem_range.mp within)) index
        isMark
  · intro other impossible
    cases impossible
  · exact polling.ordered.sublist fewer
  · exact fun tag member => polling.bounded tag (fewer.subset member)

namespace Interleaved

variable {thread : PollThread}

theorem leaves (inv : w.Interleaved shift cqShift stride start ci polled published seen)
    (active : w.poller = some thread) (caughtUp : seen = w.consumed) (ret : JfcPollState) :
    Interleaved { w with poller := some (thread.goto (.leave ret)) } shift cqShift stride start ci
      polled published seen := by
  constructor
  · exact inv.posting.poll inv.posting.half ⟨rfl, rfl, rfl, rfl⟩ rfl (Nat.le_refl ci) w.jfc _ _ _ _
  · exact inv.polling.again active (thread.goto (.leave ret)) inv.polling.arriving
      inv.polling.tagged rfl (fun _ _ => rfl) (Nat.le_refl polled) caughtUp

theorem takesEntry (inv : w.Interleaved shift cqShift stride start ci polled published seen)
    (active : w.poller = some thread) (caughtUp : seen = w.consumed)
    (more : thread.call.npolled < thread.call.crCnt) {address : Nat}
    (next : cdmaUGetNextCqe w.jfc w.memory w.jfc.cq.ci = some address) :
    Interleaved
      { w with
        jfc := w.jfc.setCi (w.jfc.cq.ci + 1)
        poller := some (thread.goto (.locate address))
        consumed := w.consumed + 1
        marks := Function.update w.marks thread.call.npolled (tagAt w.written w.consumed) }
      shift cqShift stride start ci polled published seen := by
  have polling := inv.polling
  obtain ⟨inside, isAddress⟩ := polling.arriving.next next
  have tags : tags
      { w with
        jfc := w.jfc.setCi (w.jfc.cq.ci + 1)
        poller := some (thread.goto (.locate address))
        consumed := w.consumed + 1
        marks := Function.update w.marks thread.call.npolled (tagAt w.written w.consumed) } =
      w.tags := by
    rw [tags_some active, tags_some rfl]
    exact congrArg _ (tags_update _)
  constructor
  · exact inv.posting.poll inv.posting.half ⟨rfl, rfl, rfl, rfl⟩ rfl (Nat.le_refl ci) _ _ _ _ _
  constructor
  · exact polling.arriving.take inside
  · exact polling.tagged
  · intro other same
    cases same
    refine ⟨more, congrArg (· + 1) caughtUp, ?_, ?_, ?_⟩
    · rw [caughtUp]
      exact polling.arriving.published_le
    · rw [caughtUp]
      exact isAddress
    · rw [caughtUp]
      exact Function.update_self _ _ _
  · intro impossible
    cases impossible
  · exact polling.reported
  · intro other same place below index mark
    cases same
    have apart : place ≠ thread.call.npolled := fun equal => UInt32.lt_irrefl _ (equal ▸ below)
    simp only [Function.update_of_ne apart] at mark
    exact polling.collected thread active place below index mark
  · rw [tags]
    exact polling.ordered
  · rw [tags]
    exact polling.bounded

theorem look (inv : w.Interleaved shift cqShift stride start ci polled published seen)
    (active : w.poller = some thread) (stage : thread.stage = .look) :
    (w.pollerTurn thread).Interleaved shift cqShift stride start ci polled published seen := by
  have sound := inv.polling.poller thread active
  rw [stage] at sound
  have caughtUp : seen = w.consumed := sound
  unfold SharedWorld.pollerTurn SharedWorld.takes
  by_cases more : thread.call.npolled < thread.call.crCnt
  · cases next : cdmaUGetNextCqe w.jfc w.memory w.jfc.cq.ci with
    | none =>
        simp only [PollThread.turn, stage, if_pos more, next, PollCall.upcoming, Option.map_none,
          Option.isSome_none, Bool.false_eq_true, if_false]
        exact inv.leaves active caughtUp .empty
    | some address =>
        simp only [PollThread.turn, stage, if_pos more, next, PollCall.upcoming, Option.map_some,
          Option.isSome_some, if_true]
        exact inv.takesEntry active caughtUp more next
  · simp only [PollThread.turn, stage, if_neg more, PollCall.upcoming, Option.isSome_none,
      Bool.false_eq_true, if_false]
    exact inv.leaves active caughtUp .ok

theorem pollerTurn_again {jfc : CdmaUJfc} {memory : Memory} {later : PollThread}
    (turned : thread.turn w.jfc w.memory = .again jfc memory later)
    (working : thread.stage ≠ .look) :
    w.pollerTurn thread = { w with jfc := jfc, memory := memory, poller := some later } := by
  have none : w.takes thread = false := by
    unfold SharedWorld.takes
    split
    · exact absurd ‹_› working
    · rfl
  unfold SharedWorld.pollerTurn
  simp only [turned, none, Bool.false_eq_true, if_false]

theorem locate_null (inv : w.Interleaved shift cqShift stride start ci polled published seen)
    (active : w.poller = some thread) {tag : Option Nat} (last : seen + 1 = w.consumed)
    (tagIs : tagAt w.written seen = tag) :
    Interleaved { w with poller := some (thread.goto (.leave .pollErr)) } shift cqShift stride start
      ci (tag.elim polled (· + 1)) published (seen + 1) := by
  have polling := inv.polling
  have passed : polled ≤ tag.elim polled (· + 1) := by
    cases tag with
    | none => exact Nat.le_refl _
    | some index => exact Nat.le_succ_of_le (polling.tagged.pending seen index (Nat.le_refl _) tagIs)
  have tagged : Tagged w.queue w.posted w.written w.announced w.visible
      (tag.elim polled (· + 1)) (seen + 1) := by
    cases tag with
    | none => exact polling.tagged.take_none (Nat.le_refl _)
    | some index => exact polling.tagged.take_some tagIs
  constructor
  · exact inv.posting.poll (inv.posting.half.pass passed) ⟨rfl, rfl, rfl, rfl⟩ rfl (Nat.le_refl ci)
      w.jfc _ _ _ _
  · exact polling.again active (thread.goto (.leave .pollErr)) polling.arriving tagged rfl
      (fun _ _ => rfl) passed last

/-- An entry that completes no request of this queue leaves its indices alone. -/
theorem locate_foreign (inv : w.Interleaved shift cqShift stride start ci polled published seen)
    (active : w.poller = some thread) {memory : Memory} {address : Nat} {cqe : CdmaUJfcCqe}
    (more : thread.call.npolled < thread.call.crCnt) (last : seen + 1 = w.consumed)
    (entry : w.Entry cqShift published address cqe none)
    (mark : w.marks thread.call.npolled = none) (same : memory.queue w.queue = w.sq)
    (cqes : memory.cqe = w.memory.cqe) (words : memory.word = w.memory.word)
    (bytes : memory.byte = w.memory.byte) :
    Interleaved
      { w with memory := memory, poller := some (thread.goto (.fill address cqe.userData)) }
      shift cqShift stride start ci polled published (seen + 1) := by
  have polling := inv.polling
  have half := inv.posting.half
  constructor
  · refine inv.posting.poll ?_ ?_ bytes (Nat.le_refl ci) w.jfc _ _ _ _
    · rw [same, bytes]
      exact half
    · rw [same]
      exact ⟨rfl, rfl, rfl, rfl⟩
  · refine polling.again active (thread.goto (.fill address cqe.userData))
      (polling.arriving.frame (fun _ _ => by rw [cqes]) (by rw [words]))
      (polling.tagged.take_none (Nat.le_refl _)) rfl
      (fun _ _ => rfl) (Nat.le_refl _) ?_
    exact ⟨more, last, cqe, none, ⟨entry.taken⟩, mark, rfl, fun index impossible => nomatch impossible⟩

/-- The consumer index is moved to the block of the request that the entry completes. -/
theorem locate_own (inv : w.Interleaved shift cqShift stride start ci polled published seen)
    (small : shift ≤ 16) (active : w.poller = some thread) {address : Nat} {cqe : CdmaUJfcCqe}
    {index : Nat} (more : thread.call.npolled < thread.call.crCnt) (last : seen + 1 = w.consumed)
    (entry : w.Entry cqShift published address cqe (some index))
    (mark : w.marks thread.call.npolled = some index)
    (tagIs : tagAt w.written seen = some index)
    (names : Names w.queue w.posted cqe (some index)) :
    ∃ ci,
      Interleaved
        { w with
          memory := w.memory.setQueue w.queue { w.sq with ci := completionIndex w.sq cqe }
          poller := some (thread.goto (.fill address w.queue)) }
        shift cqShift stride start ci (index + 1) published (seen + 1) := by
  have polling := inv.polling
  have half := inv.posting.half
  obtain ⟨_, own, request, isPosted, offset, inside, named⟩ := names
  have within := List.mem_range.mp inside
  have fresh := polling.tagged.pending seen index (Nat.le_refl _) tagIs
  obtain ⟨behind, held, _⟩ := half.ahead index request fresh isPosted
  have bounds := half.chain.mem_bounds (List.mem_of_getElem? isPosted)
  have next_eq : request.next = request.first + request.blocks := rfl
  have room := half.room
  have forward : ci ≤ request.first + offset := by omega
  have block := completionIndex_of_mask half.geometry.mask_counter half.ci_eq small forward
    (by omega) named
  have moved := half.move forward (by omega)
    (Nat.le_succ_of_le fresh) (fun other later beyond isLater => by
      have ordered := half.chain.next_le beyond isPosted isLater
      omega)
  have sq_eq : (w.memory.setQueue w.queue { w.sq with ci := completionIndex w.sq cqe }).queue
      w.queue = { w.sq with ci := completionIndex w.sq cqe } := Function.update_self _ _ _
  refine ⟨request.first + offset, ?_, ?_⟩
  · refine inv.posting.poll ?_ ?_ ?_ forward w.jfc _ _ _ _
    · rw [sq_eq, block]
      exact moved
    · rw [sq_eq]
      exact ⟨rfl, rfl, rfl, rfl⟩
    · rfl
  · refine polling.again active (thread.goto (.fill address w.queue))
      (polling.arriving.frame (fun _ _ => rfl) rfl) (polling.tagged.take_some tagIs) rfl (fun _ _ => rfl)
      (Nat.le_succ_of_le fresh) ?_
    refine ⟨more, last, cqe, some index, ⟨entry.taken⟩, mark, own, ?_⟩
    intro other same
    cases same
    refine ⟨request, ⟨isPosted, Nat.le_add_right _ _, by omega, rfl, ?_⟩, ?_⟩
    · intro tag member
      exact Nat.lt_of_lt_of_le (polling.bounded tag (by rwa [tags_some active])) fresh
    · simp only [SharedWorld.sq, Memory.setQueue_queue, Function.update_self]
      exact held offset within

theorem locate (inv : w.Interleaved shift cqShift stride start ci polled published seen)
    (small : shift ≤ 16) (active : w.poller = some thread) {address : Nat}
    (stage : thread.stage = .locate address) :
    ∃ ci polled seen,
      (w.pollerTurn thread).Interleaved shift cqShift stride start ci polled published seen := by
  have polling := inv.polling
  have sound := polling.poller thread active
  rw [stage] at sound
  obtain ⟨more, last, kept, isAddress, mark⟩ := sound
  have reach := polling.arriving.consumed_le
  obtain ⟨⟨cqe, tag⟩, here⟩ : ∃ entry, w.written[seen]? = some entry :=
    ⟨_, List.getElem?_eq_getElem (by omega)⟩
  have content : w.memory.cqe address = cqe := by
    rw [isAddress]
    exact polling.arriving.entry kept here
  have tagIs : tagAt w.written seen = tag := by
    rw [tagAt, here]
    rfl
  have names := polling.tagged.names _ (List.mem_of_getElem? here)
  have entry : w.Entry cqShift published address cqe tag := ⟨seen, last, kept, isAddress, here⟩
  have working : thread.stage ≠ .look := by
    rw [stage]
    simp
  rw [tagIs] at mark
  by_cases null : cqe.userData = 0
  · have turned : thread.turn w.jfc w.memory =
        .again w.jfc w.memory (thread.goto (.leave .pollErr)) := by
      simp only [PollThread.turn, stage, content, cdmaUUpdateJettyIdx, null, if_true]
    rw [pollerTurn_again turned working]
    exact ⟨ci, _, _, inv.locate_null active last tagIs⟩
  · cases fd : cqe.fd with
    | true =>
        have turned : thread.turn w.jfc w.memory =
            .again w.jfc w.memory (thread.goto (.fill address cqe.userData)) := by
          simp only [PollThread.turn, stage, content, cdmaUUpdateJettyIdx, null, fd, if_true,
            if_false]
        rw [pollerTurn_again turned working]
        cases tag with
        | none => exact ⟨ci, _, _, inv.locate_foreign active more last entry mark rfl rfl rfl rfl⟩
        | some index => exact absurd (names.1.symm.trans fd) Bool.false_ne_true
    | false =>
        have turned : thread.turn w.jfc w.memory =
            .again w.jfc
              (w.memory.setQueue cqe.userData
                { w.memory.queue cqe.userData with
                  ci := completionIndex (w.memory.queue cqe.userData) cqe })
              (thread.goto (.fill address cqe.userData)) := by
          simp only [PollThread.turn, stage, content, cdmaUUpdateJettyIdx, null, fd, if_false,
            Bool.false_eq_true]
          rfl
        rw [pollerTurn_again turned working]
        cases tag with
        | none =>
            have foreign : cqe.userData ≠ w.queue := by
              rcases names with done | foreign
              · exact absurd (fd.symm.trans done) Bool.false_ne_true
              · exact foreign
            exact ⟨ci, _, _, inv.locate_foreign active more last entry mark
              (Function.update_of_ne foreign.symm _ _) rfl rfl rfl⟩
        | some index =>
            rw [names.2.1]
            obtain ⟨reached, kept⟩ := inv.locate_own small active more last entry mark tagIs names
            exact ⟨reached, _, _, kept⟩

theorem located_entry (inv : w.Interleaved shift cqShift stride start ci polled published seen)
    {address : Nat} {cqe : CdmaUJfcCqe} {tag : Option Nat}
    (entry : w.Entry cqShift published address cqe tag) :
    w.memory.cqe address = cqe ∧ Names w.queue w.posted cqe tag := by
  obtain ⟨place, _, kept, isAddress, here⟩ := entry.taken
  constructor
  · rw [isAddress]
    exact inv.polling.arriving.entry kept here
  · exact inv.polling.tagged.names _ (List.mem_of_getElem? here)

theorem fill (inv : w.Interleaved shift cqShift stride start ci polled published seen)
    (active : w.poller = some thread) {address : Nat} {queue : UInt64}
    (stage : thread.stage = .fill address queue) :
    (w.pollerTurn thread).Interleaved shift cqShift stride start ci polled published seen := by
  have sound := inv.polling.poller thread active
  rw [stage] at sound
  obtain ⟨cqe, tag, entry, mark, named, context⟩ := sound.entry
  obtain ⟨_, names⟩ := inv.located_entry entry
  let cr := cdmaFillCr (w.memory.queue queue) (w.memory.cqe address)
    (thread.call.cr thread.call.npolled)
  have turned : thread.turn w.jfc w.memory =
      .again w.jfc w.memory ((thread.setCr cr).goto (.judge address queue)) := by
    simp only [PollThread.turn, stage]
    rfl
  rw [pollerTurn_again turned (by rw [stage]; simp)]
  constructor
  · exact inv.posting.poll inv.posting.half ⟨rfl, rfl, rfl, rfl⟩ rfl (Nat.le_refl ci) w.jfc _ _ _ _
  · refine inv.polling.again active ((thread.setCr cr).goto (.judge address queue))
      inv.polling.arriving inv.polling.tagged rfl ?_ (Nat.le_refl _) ?_
    · intro place below
      have apart : place ≠ thread.call.npolled := fun equal => UInt32.lt_irrefl _ (equal ▸ below)
      exact Function.update_of_ne apart _ _
    · refine Located.carry ⟨sound.more, sound.seen_eq, cqe, tag, entry, mark, named, ?_⟩ rfl rfl
        rfl ?_ (fun _ _ here => here) (fun _ _ here => here) (fun _ _ _ read => read)
      · intro index isTag
        obtain ⟨request, hand, read⟩ := context index isTag
        refine ⟨request, hand, ?_⟩
        rw [isTag] at names
        have own : queue = w.queue := named.symm.trans names.2.1
        have filled : (thread.setCr cr).call.cr thread.call.npolled = cr :=
          Function.update_self _ _ _
        have ci_eq : (w.memory.queue w.queue).ci = counter ci := inv.posting.half.ci_eq
        change ((thread.setCr cr).call.cr thread.call.npolled).userCtx = _
        rw [filled]
        change (w.memory.queue queue).wrid ((w.memory.queue queue).ci &&&
          (w.memory.queue queue).baseblkMask) = _
        rw [own, ci_eq]
        exact read
      · rw [tags_some active, tags_some rfl]
        rfl

/-- What the verdict on an entry does to the indices: nothing, unless it is good. -/
theorem judge (inv : w.Interleaved shift cqShift stride start ci polled published seen)
    (active : w.poller = some thread) {address : Nat} {queue : UInt64}
    (stage : thread.stage = .judge address queue) :
    ∃ ci, (w.pollerTurn thread).Interleaved shift cqShift stride start ci polled published seen := by
  have polling := inv.polling
  have half := inv.posting.half
  have sound := polling.poller thread active
  rw [stage] at sound
  obtain ⟨cqe, tag, entry, mark, named, context⟩ := sound.entry
  obtain ⟨content, names⟩ := inv.located_entry entry
  have working : thread.stage ≠ .look := by
    rw [stage]
    simp
  have others {cr : DmaCr} (place : UInt32) (below : place < thread.call.npolled) :
      (thread.setCr cr).call.cr place = thread.call.cr place := by
    have apart : place ≠ thread.call.npolled := fun equal => UInt32.lt_irrefl _ (equal ▸ below)
    exact Function.update_of_ne apart _ _
  cases judged : cdmaGetCrStatus cqe.status cqe.substatus with
  | none =>
      let later := (thread.setCr (thread.call.cr thread.call.npolled)).goto (.leave .pollErr)
      have turned : thread.turn w.jfc w.memory = .again w.jfc w.memory later := by
        simp only [PollThread.turn, stage, content, cdmaUUpdateFlushCr, judged, ne_eq,
          reduceCtorEq, not_false_eq_true, if_true]
        rfl
      rw [pollerTurn_again turned working]
      refine ⟨ci, ?_, ?_⟩
      · exact inv.posting.poll half ⟨rfl, rfl, rfl, rfl⟩ rfl (Nat.le_refl ci) w.jfc _ _ _ _
      · exact polling.again active later polling.arriving polling.tagged rfl others (Nat.le_refl _)
          sound.seen_eq
  | some status =>
      cases fd : cqe.fd with
      | true =>
          let cr := { thread.call.cr thread.call.npolled with status := .wrFlushErrDone }
          let memory := w.memory.setQueue queue
            { w.memory.queue queue with flushFlag := true }
          have arriving : Arriving cqShift stride w.consumed published w.jfc memory w.written :=
            polling.arriving.frame (fun _ _ => rfl) rfl
          have turned : thread.turn w.jfc w.memory =
              .again w.jfc memory ((thread.setCr cr).goto (.leave .empty)) := by
            simp only [PollThread.turn, stage, content, cdmaUUpdateFlushCr, judged, fd, if_true,
              ne_eq, not_true_eq_false, if_false, true_or]
            rfl
          have flagged : ∃ flag, memory.queue w.queue = { w.sq with flushFlag := flag } := by
            by_cases own : w.queue = queue
            · subst own
              exact ⟨true, Function.update_self _ _ _⟩
            · exact ⟨w.sq.flushFlag, Function.update_of_ne own _ _⟩
          obtain ⟨flag, same⟩ := flagged
          rw [pollerTurn_again turned working]
          refine ⟨ci, ?_, ?_⟩
          · refine inv.posting.poll ?_ ?_ ?_ (Nat.le_refl ci) w.jfc _ _ _ _
            · rw [same]
              exact half.flag flag
            · rw [same]
              exact ⟨rfl, rfl, rfl, rfl⟩
            · rfl
          · exact polling.again active ((thread.setCr cr).goto (.leave .empty)) arriving
              polling.tagged rfl others (Nat.le_refl _) sound.seen_eq
      | false =>
          let cr := { thread.call.cr thread.call.npolled with status := status }
          let memory := w.memory.setQueue queue
            { w.memory.queue queue with ci := (w.memory.queue queue).ci + 1 }
          have arriving : Arriving cqShift stride w.consumed published w.jfc memory w.written :=
            polling.arriving.frame (fun _ _ => rfl) rfl
          have undone := cdmaGetCrStatus_ne_done judged
          have turned : thread.turn w.jfc w.memory = .again w.jfc memory
              { call := { (thread.setCr cr).call with npolled := thread.call.npolled + 1 }
                stage := .look } := by
            simp only [PollThread.turn, stage, content, cdmaUUpdateFlushCr, judged, fd,
              Bool.false_eq_true, if_false, ne_eq, not_true_eq_false, undone]
            rfl
          rw [pollerTurn_again turned working]
          cases tag with
          | none =>
              have foreign : w.queue ≠ queue := by
                rcases names with done | foreign
                · exact absurd (fd.symm.trans done) Bool.false_ne_true
                · exact fun own => foreign (named.trans own.symm)
              have same : memory.queue w.queue = w.sq := Function.update_of_ne foreign _ _
              refine ⟨ci, ?_, ?_⟩
              · refine inv.posting.poll ?_ ?_ ?_ (Nat.le_refl ci) w.jfc _ _ _ _
                · rw [same]
                  exact half
                · rw [same]
                  exact ⟨rfl, rfl, rfl, rfl⟩
                · rfl
              · refine polling.finish active arriving sound.seen_eq sound.more cr ?_
                intro index isTag
                rw [mark] at isTag
                cases isTag
          | some index =>
              obtain ⟨request, hand, read⟩ := context index rfl
              have own : queue = w.queue := named.symm.trans names.2.1
              have bounds := half.chain.mem_bounds (List.mem_of_getElem? hand.isPosted)
              have within := hand.within
              have moved := half.move (Nat.le_succ ci) (by omega) (Nat.le_refl polled)
                (fun other later beyond isLater => by
                  have passed := hand.polled_eq
                  have ordered := half.chain.next_le (by omega : index < other) hand.isPosted
                    isLater
                  omega)
              have same : memory.queue w.queue = { w.sq with ci := counter (ci + 1) } := by
                have stepped : w.sq.ci + 1 = counter (ci + 1) := by
                  rw [half.ci_eq, counter_succ]
                rw [← stepped]
                simp only [memory, own]
                exact Function.update_self _ _ _
              refine ⟨ci + 1, ?_, ?_⟩
              · refine inv.posting.poll ?_ ?_ ?_ (Nat.le_succ ci) w.jfc _ _ _ _
                · rw [same]
                  exact moved
                · rw [same]
                  exact ⟨rfl, rfl, rfl, rfl⟩
                · rfl
              · refine polling.finish active arriving sound.seen_eq sound.more cr ?_
                intro other isTag
                rw [mark] at isTag
                cases isTag
                have passed := hand.polled_eq
                exact ⟨hand.fresh, by omega, request, hand.isPosted, read⟩

theorem leave (inv : w.Interleaved shift cqShift stride start ci polled published seen)
    (active : w.poller = some thread) {ret : JfcPollState} (stage : thread.stage = .leave ret) :
    ∃ reached, published ≤ reached ∧
      (w.pollerTurn thread).Interleaved shift cqShift stride start ci polled reached seen := by
  have polling := inv.polling
  have sound := polling.poller thread active
  rw [stage] at sound
  have caughtUp : seen = w.consumed := sound
  let memory :=
    if thread.call.npolled ≠ 0 then w.memory.setWord w.jfc.swDb (w.jfc.cq.ci &&& cdmaJfcDbCiIdxM)
    else w.memory
  have turned : thread.turn w.jfc w.memory =
      .exit w.jfc memory thread.call
        (if ret = .pollErr then -cdmaInterErr else thread.call.npolled.toInt32.toInt) := by
    simp only [PollThread.turn, stage]
    rfl
  have queues : memory.queue = w.memory.queue := by
    simp only [memory]
    split <;> rfl
  have bytes : memory.byte = w.memory.byte := by
    simp only [memory]
    split <;> rfl
  obtain ⟨reached, onwards, arriving⟩ : ∃ reached, published ≤ reached ∧
      Arriving cqShift stride w.consumed reached w.jfc memory w.written := by
    by_cases some : thread.call.npolled ≠ 0
    · refine ⟨w.consumed, polling.arriving.published_le, ?_⟩
      simp only [memory, if_pos some]
      exact polling.arriving.publish
    · refine ⟨published, Nat.le_refl _, ?_⟩
      simp only [memory, if_neg some]
      exact polling.arriving
  unfold SharedWorld.pollerTurn
  rw [turned]
  refine ⟨reached, onwards, ?_, ?_⟩
  · refine inv.posting.poll ?_ ?_ bytes (Nat.le_refl ci) w.jfc _ _ _ _
    · rw [queues, bytes]
      exact inv.posting.half
    · rw [queues]
      exact ⟨rfl, rfl, rfl, rfl⟩
  · exact polling.exit active arriving caughtUp _ (fun _ handed => exit_place_lt handed)

theorem pollerTurn (inv : w.Interleaved shift cqShift stride start ci polled published seen)
    (small : shift ≤ 16) (active : w.poller = some thread) :
    ∃ ci polled reached seen, published ≤ reached ∧
      (w.pollerTurn thread).Interleaved shift cqShift stride start ci polled reached seen := by
  cases stage : thread.stage with
  | look => exact ⟨_, _, _, _, Nat.le_refl _, inv.look active stage⟩
  | locate address =>
      obtain ⟨_, _, _, kept⟩ := inv.locate small active stage
      exact ⟨_, _, _, _, Nat.le_refl _, kept⟩
  | fill address queue => exact ⟨_, _, _, _, Nat.le_refl _, inv.fill active stage⟩
  | judge address queue =>
      obtain ⟨_, kept⟩ := inv.judge active stage
      exact ⟨_, _, _, _, Nat.le_refl _, kept⟩
  | leave ret =>
      obtain ⟨_, onwards, kept⟩ := inv.leave active stage
      exact ⟨_, _, _, _, onwards, kept⟩

theorem post (inv : w.Interleaved shift cqShift stride start ci polled published seen)
    (idle : w.poster = none) (wrs : List DmaJfsWr) :
    Interleaved { w with poster := some (.start wrs) } shift cqShift stride start ci polled
      published seen := by
  have polling := inv.polling
  obtain ⟨curr, caughtUp⟩ := inv.posting.resting idle
  constructor
  · constructor
    · exact inv.posting.half
    · exact inv.posting.visible_le
    · intro thread active
      cases active
      constructor
      · exact caughtUp
      · exact ⟨curr, fun impossible => absurd rfl impossible⟩
    · intro impossible
      cases impossible
  constructor
  · exact polling.arriving
  · exact polling.tagged
  · intro thread active
    exact (polling.poller thread active).carry polling.arriving.consumed_le rfl rfl rfl rfl
      (fun _ _ here => here) (fun _ _ here => here) (fun _ _ _ read => read)
  · exact polling.unread
  · exact polling.reported
  · exact polling.collected
  · exact polling.ordered
  · exact polling.bounded

theorem poll (inv : w.Interleaved shift cqShift stride start ci polled published seen)
    (idle : w.poller = none) (crCnt : UInt32) (cr : UInt32 → DmaCr) :
    Interleaved { w with poller := some (.start crCnt cr) } shift cqShift stride start ci polled
      published seen := by
  have polling := inv.polling
  have tags : tags { w with poller := some (.start crCnt cr) } = w.tags := by
    unfold SharedWorld.tags
    rw [idle]
    rfl
  constructor
  · exact ⟨inv.posting.half, inv.posting.visible_le, inv.posting.poster, inv.posting.resting⟩
  constructor
  · exact polling.arriving
  · exact polling.tagged
  · intro thread active
    cases active
    exact polling.unread idle
  · intro impossible
    cases impossible
  · exact polling.reported
  · intro thread active place below
    cases active
    exact absurd below (UInt32.not_lt.mpr (UInt32.zero_le (a := place)))
  · rw [tags]
    exact polling.ordered
  · rw [tags]
    exact polling.bounded

/-- Whoever moves, and wherever the others stand. -/
theorem step (inv : w.Interleaved shift cqShift stride start ci polled published seen)
    (small : shift ≤ 16) (narrow : cqShift < 22) {action : SharedAction} {next : SharedWorld}
    (stepped : w.step action = some next) :
    ∃ ci polled published seen,
      next.Interleaved shift cqShift stride start ci polled published seen := by
  cases action with
  | post wrs =>
      simp only [SharedWorld.step] at stepped
      cases idle : w.poster with
      | some thread =>
          rw [idle] at stepped
          cases stepped
      | none =>
          rw [idle] at stepped
          cases stepped
          exact ⟨_, _, _, _, inv.post idle wrs⟩
  | poster =>
      obtain ⟨thread, active, moved⟩ := Option.map_eq_some_iff.mp stepped
      subst moved
      exact ⟨_, _, _, _, inv.posterTurn active⟩
  | produce cqe request =>
      simp only [SharedWorld.step] at stepped
      split at stepped
      · rename_i allowed
        cases stepped
        exact ⟨_, _, _, _, inv.produce narrow allowed.1 allowed.2.1 allowed.2.2⟩
      · cases stepped
  | poll crCnt cr =>
      simp only [SharedWorld.step] at stepped
      cases idle : w.poller with
      | some thread =>
          rw [idle] at stepped
          cases stepped
      | none =>
          rw [idle] at stepped
          cases stepped
          exact ⟨_, _, _, _, inv.poll idle crCnt cr⟩
  | poller =>
      obtain ⟨thread, active, moved⟩ := Option.map_eq_some_iff.mp stepped
      subst moved
      obtain ⟨_, _, _, _, _, kept⟩ := inv.pollerTurn small active
      exact ⟨_, _, _, _, kept⟩

theorem run (inv : w.Interleaved shift cqShift stride start ci polled published seen)
    (small : shift ≤ 16) (narrow : cqShift < 22) {actions : List SharedAction}
    {final : SharedWorld} (ran : Transition.run SharedWorld.step w actions = some final) :
    ∃ ci polled published seen,
      final.Interleaved shift cqShift stride start ci polled published seen := by
  have keeps : ∀ (state : SharedWorld) (action : SharedAction) (next : SharedWorld),
      (∃ ci polled published seen,
        state.Interleaved shift cqShift stride start ci polled published seen) →
      state.step action = some next →
      ∃ ci polled published seen,
        next.Interleaved shift cqShift stride start ci polled published seen := by
    intro state action next holds stepped
    obtain ⟨_, _, _, _, held⟩ := holds
    exact held.step small narrow stepped
  have held : ∃ ci polled published seen,
      w.Interleaved shift cqShift stride start ci polled published seen :=
    ⟨ci, polled, published, seen, inv⟩
  exact run_invariant SharedWorld.step keeps held ran

end Interleaved

end Steps

theorem Initial.interleaved {w : SharedWorld} {shift cqShift stride : Nat}
    (initial : w.Initial shift cqShift stride) :
    w.Interleaved shift cqShift stride w.pi w.pi 0 0 0 := by
  have ring := initial.ring
  have tags : w.tags = [] := by
    unfold SharedWorld.tags
    rw [initial.reported_eq, initial.poller_eq]
    rfl
  constructor
  · constructor
    · constructor
      · exact ring.geometry
      · exact ring.ci_eq
      · exact ring.pi_eq
      · exact Nat.le_refl _
      · exact ring.room
      · rw [initial.posted_eq]
        exact rfl
      · rw [initial.posted_eq]
        intro index request _ impossible
        cases impossible
    · rw [initial.visible_eq]
      exact Nat.zero_le _
    · rw [initial.poster_eq]
      intro thread impossible
      cases impossible
    · intro _
      rw [initial.visible_eq, initial.posted_eq]
      exact ⟨ring.curr_eq, rfl⟩
  · constructor
    · constructor
      · exact initial.geometry
      · rw [initial.ci_eq, initial.consumed_eq]
        rfl
      · rw [initial.swDb_eq]
        rfl
      · exact Nat.zero_le _
      · rw [initial.consumed_eq]
        exact Nat.zero_le _
      · rw [initial.written_eq]
        exact Nat.zero_le _
      · rw [initial.written_eq]
        apply Stamped.blank
        intro slot inside
        exact congrArg CdmaUJfcCqe.owner (initial.zeroed slot inside)
      · rw [initial.written_eq]
        intro index entry impossible
        cases impossible
    · rw [initial.written_eq, initial.announced_eq, initial.visible_eq]
      constructor
      · intro entry impossible
        cases impossible
      · intro early late first second _ impossible
        cases impossible
      · intro place index _ impossible
        cases impossible
      · intro place index impossible
        cases impossible
      · exact Nat.le_refl 0
      · exact Nat.le_refl 0
    · rw [initial.poller_eq]
      intro thread impossible
      cases impossible
    · intro _
      exact initial.consumed_eq.symm
    · rw [initial.reported_eq]
      intro record index impossible
      cases impossible
    · rw [initial.poller_eq]
      intro thread impossible
      cases impossible
    · rw [tags]
      exact List.Pairwise.nil
    · rw [tags]
      intro tag impossible
      cases impossible

end SharedWorld

/-- What posting and polling promise: the producer is at most one ring ahead of the consumer
index; the contexts and the bytes of a request that no entry has completed are in place; and
the records handed over complete requests in the order of posting, each at most once and with
its own context. -/
structure SharedWorld.Safe (w : SharedWorld) (shift : Nat) : Prop where
  bounded : w.sq.pi - w.sq.ci ≤ w.sq.baseblkCnt
  whole : ∀ index request, w.announced ≤ index → w.posted[index]? = some request →
    (counter request.first - w.sq.ci).toNat + request.blocks ≤ (w.sq.pi - w.sq.ci).toNat ∧
    w.sq.Holds request ∧ Stored w.sq.qbuf shift w.memory.byte request
  reported : ∀ record index, (record, some index) ∈ w.reported →
    ∃ request, w.posted[index]? = some request ∧ record.userCtx = request.wr.userCtx
  ordered : (w.reported.filterMap Prod.snd).Pairwise (· < ·)

theorem SharedWorld.Interleaved.safe {w : SharedWorld}
    {shift cqShift stride start ci polled published seen : Nat}
    (inv : w.Interleaved shift cqShift stride start ci polled published seen) : w.Safe shift := by
  have half := inv.posting.half
  have ordered := half.ordered
  have room := half.room
  have cnt := half.geometry.cnt_le
  have used : (w.sq.pi - w.sq.ci).toNat = w.pi - ci := by
    rw [half.pi_eq, half.ci_eq, toNat_counter_sub ordered (by omega)]
  constructor
  · rw [UInt32.le_iff_toNat_le, used, half.geometry.cnt_toNat]
    omega
  · intro index request pending here
    have polled_le := inv.polling.tagged.polled_le
    obtain ⟨behind, held, stored⟩ := half.ahead index request (by omega) here
    have bounds := half.chain.mem_bounds (List.mem_of_getElem? here)
    have next_eq : request.next = request.first + request.blocks := rfl
    refine ⟨?_, held, stored⟩
    rw [used, half.ci_eq, toNat_counter_sub behind (by omega)]
    omega
  · exact inv.polling.reported
  · exact (List.pairwise_append.mp inv.polling.ordered).1

/-- However posting, polling and the device take turns, every state is safe. -/
theorem cdmaUPostJfsWr_cdmaUPollJfc_interleaved {start final : SharedWorld}
    {shift cqShift stride : Nat} (initial : start.Initial shift cqShift stride)
    (small : shift ≤ 16) (narrow : cqShift < 22) {actions : List SharedAction}
    (ran : run SharedWorld.step start actions = some final) : final.Safe shift := by
  obtain ⟨_, _, _, _, inv⟩ := initial.interleaved.run small narrow ran
  exact inv.safe

/-- A send ring of four blocks about to wrap and a completion ring of the least depth. -/
def SharedWorld.fourBlocks : SharedWorld :=
  { ctx := SqWorld.fourBlocks.ctx
    queue := 2048
    jfc := CqWorld.minDepth.jfc
    memory := { CqWorld.minDepth.memory with queue := fun _ => SqWorld.fourBlocks.sq }
    poster := none, poller := none, pi := 4294967295, posted := [], visible := 0, written := []
    announced := 0, consumed := 0, marks := fun _ => none, reported := [] }

theorem SharedWorld.fourBlocks_initial : SharedWorld.fourBlocks.Initial 2 6 6 :=
  ⟨SqWorld.fourBlocks_initial.ring, CqWorld.minDepth_initial.geometry, rfl, rfl, fun _ _ => rfl,
    rfl, rfl, rfl, rfl, rfl, rfl, rfl, rfl⟩

/-- A request is posted; the next one is, while the entry of the first one is polled. -/
def SharedWorld.overlapping : List SharedAction :=
  .post [writeOne] :: List.replicate 8 .poster ++
    [.produce .lastBlock (some 0), .post [writeOne], .poll 1 fun _ => .blank, .poster, .poller,
      .poster, .poller, .poster, .poller, .poster, .poller, .poster, .poller, .poster, .poller]

theorem cdmaUPostJfsWr_cdmaUPollJfc_interleaved_fourBlocks :
    ∃ final, run SharedWorld.step .fourBlocks SharedWorld.overlapping = some final ∧
      final.reported.length = 1 ∧ final.posted.length = 2 ∧ final.Safe 2 := by
  have counts : (run SharedWorld.step .fourBlocks SharedWorld.overlapping).map
      (fun final => (final.reported.length, final.posted.length)) = some (1, 2) := by
    decide +kernel
  obtain ⟨final, ran, lengths⟩ := Option.map_eq_some_iff.mp counts
  obtain ⟨reported, posted⟩ := Prod.mk.inj lengths
  exact ⟨final, ran, reported, posted,
    cdmaUPostJfsWr_cdmaUPollJfc_interleaved SharedWorld.fourBlocks_initial (by decide) (by decide)
      ran⟩

end Libcdma
