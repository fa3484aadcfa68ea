/-
The send queue while a call posts to it.

The indices, the contexts and the blocks of a send queue may change between two turns of
the posting thread.  What the thread relies on at each stage is stated next to what every
turn keeps: the requests from some position on are whole.
-/

import Libcdma.QueueThreads
import Libcdma.CompletionRouting

namespace Libcdma

open WrapCounter ByteImage BlockRing

def PostThread.finishing (thread : PostThread) (pi : Nat) : List SqRequest :=
  match thread.stage with
  | .mark wr tmp i =>
      if i < (wqebbCnt wr tmp.ctl).toNat then []
      else [{ wr := wr, tmp := tmp, first := pi, stamp := none }]
  | _ => []

/-- The bytes of a request are in the ring, but for the index that may be stamped. -/
def Stored (qbuf shift : Nat) (bytes : Bytes) (request : SqRequest) : Prop :=
  (ringRead qbuf 64 (2 ^ shift) bytes request.first request.blocks).drop 2 =
    request.encoding.drop 2

def CdmaUJettyQueue.blockAddress (sq : CdmaUJettyQueue) (shift index : Nat) : Nat :=
  sq.qbuf + index % 2 ^ shift * 64

/-- Requests from a position on are whole: the consumer index has not reached them, and
their contexts and their bytes are in place. -/
structure SendHalf (shift start ci polled : Nat) (sq : CdmaUJettyQueue) (bytes : Bytes)
    (pi : Nat) (posted : List SqRequest) : Prop where
  geometry : SqGeometry sq shift
  ci_eq : sq.ci = counter ci
  pi_eq : sq.pi = counter pi
  ordered : ci ≤ pi
  room : pi ≤ ci + 2 ^ shift
  chain : Chain start posted pi
  ahead : ∀ index request, polled ≤ index → posted[index]? = some request →
    ci ≤ request.first ∧ sq.Holds request ∧ Stored sq.qbuf shift bytes request

theorem Chain.last {first pi : Nat} {requests : List SqRequest} (chain : Chain first requests pi)
    {request : SqRequest} (last : requests.getLast? = some request) : request.next = pi := by
  induction requests generalizing first with
  | nil => cases last
  | cons head rest ih =>
      cases rest with
      | nil =>
          cases last
          exact chain.2
      | cons other rest =>
          rw [List.getLast?_cons_cons] at last
          exact ih chain.2 last

theorem SqGeometry.of_same {sq other : CdmaUJettyQueue} {shift : Nat}
    (geometry : SqGeometry sq shift) (cnt : other.baseblkCnt = sq.baseblkCnt)
    (mask : other.baseblkMask = sq.baseblkMask) (blocks : other.baseblkShift = sq.baseblkShift)
    (size : other.qbufSize = sq.qbufSize) : SqGeometry other shift := by
  constructor
  · rw [cnt, geometry.cnt_eq]
  · rw [mask, cnt, geometry.mask_eq]
  · rw [blocks, geometry.shift_eq]
  · rw [size, geometry.size_eq]
  · exact geometry.small

namespace SendHalf

variable {shift start ci polled pi : Nat} {sq : CdmaUJettyQueue} {bytes : Bytes}
  {posted : List SqRequest}

theorem ring (half : SendHalf shift start ci polled sq bytes pi posted)
    (curr : sq.qbufCurr = sq.blockAddress shift pi) : SqAt shift sq ci pi :=
  ⟨half.geometry, half.ci_eq, half.pi_eq, half.ordered, half.room, curr⟩

theorem slot_ne (half : SendHalf shift start ci polled sq bytes pi posted) (low high : Nat)
    (behind : ci ≤ low) (ordered : low < high) (near : high < ci + 2 ^ shift) :
    counter low &&& sq.baseblkMask ≠ counter high &&& sq.baseblkMask := by
  intro same
  have equal := mod_eq_of_near ci behind (by omega) (by omega) near
    ((half.geometry.slot_eq_iff low high).mp same)
  omega

theorem update (half : SendHalf shift start ci polled sq bytes pi posted)
    {other : CdmaUJettyQueue} {after : Bytes} (geometry : SqGeometry other shift)
    (ci_eq : other.ci = sq.ci) (pi_eq : other.pi = sq.pi)
    (whole : ∀ request, ci ≤ request.first → request.next ≤ pi → sq.Holds request →
      Stored sq.qbuf shift bytes request →
      other.Holds request ∧ Stored other.qbuf shift after request) :
    SendHalf shift start ci polled other after pi posted := by
  constructor
  · exact geometry
  · rw [ci_eq, half.ci_eq]
  · rw [pi_eq, half.pi_eq]
  · exact half.ordered
  · exact half.room
  · exact half.chain
  · intro index request later here
    obtain ⟨behind, held, stored⟩ := half.ahead index request later here
    have bounds := half.chain.mem_bounds (List.mem_of_getElem? here)
    exact ⟨behind, whole request behind bounds.2 held stored⟩

theorem mark (half : SendHalf shift start ci polled sq bytes pi posted) {block : Nat}
    (past : pi ≤ block) (near : block < ci + 2 ^ shift) (userCtx : UInt64) :
    SendHalf shift start ci polled
      { sq with
        wrid := Function.update sq.wrid (counter block &&& sq.baseblkMask) userCtx }
      bytes pi posted := by
  refine half.update (half.geometry.of_same rfl rfl rfl rfl) rfl rfl ?_
  intro request behind bound held stored
  have next_eq : request.next = request.first + request.blocks := rfl
  constructor
  · intro offset within
    have other := half.slot_ne (request.first + offset) block (by omega) (by omega) near
    simp only [Function.update_of_ne other]
    exact held offset within
  · exact stored

theorem append (half : SendHalf shift start ci polled sq bytes pi posted) {request : SqRequest}
    (starts : request.first = pi) (room : request.next ≤ ci + 2 ^ shift)
    (held : sq.Holds request) (stored : Stored sq.qbuf shift bytes request) :
    SendHalf shift start ci polled { sq with pi := counter request.next } bytes request.next
      (posted ++ [request]) := by
  have ordered := half.ordered
  have next_eq : request.next = request.first + request.blocks := rfl
  constructor
  · exact half.geometry.of_same rfl rfl rfl rfl
  · exact half.ci_eq
  · rfl
  · omega
  · exact room
  · exact half.chain.snoc starts
  · intro index other later here
    rcases Nat.lt_trichotomy index posted.length with older | newest | beyond
    · rw [List.getElem?_append_left older] at here
      exact half.ahead index other later here
    · subst newest
      rw [List.getElem?_concat_length] at here
      cases here
      exact ⟨by omega, held, stored⟩
    · rw [List.getElem?_eq_none (by simp; omega)] at here
      cases here

theorem copyBlocks_eq (half : SendHalf shift start ci polled sq bytes pi posted)
    (curr : sq.qbufCurr = sq.blockAddress shift pi) {wr : DmaJfsWr} {tmp : TmpSq}
    (room : pi + (wqebbCnt wr tmp.ctl).toNat ≤ ci + 2 ^ shift) :
    copyBlocks bytes sq (wqebbCnt wr tmp.ctl) tmp.bytes =
      ringCopy sq.qbuf 64 bytes (pi % 2 ^ shift) tmp.bytes
        (tailBlocks (2 ^ shift) pi (wqebbCnt wr tmp.ctl).toNat)
        (headBlocks (2 ^ shift) pi (wqebbCnt wr tmp.ctl).toNat) := by
  have ring := half.ring curr
  have few := (wqebbCnt_bounds wr tmp.ctl).2
  have whole := cdmaCopyToSq_eq_copyBlocks bytes sq (wqebbCnt wr tmp.ctl) tmp.bytes
  have fits : ¬ci + 2 ^ shift < pi + (wqebbCnt wr tmp.ctl).toNat := Nat.not_lt.mpr room
  rw [checkSqOverflow_eq ring few, decide_eq_false fits, if_neg Bool.false_ne_true,
    cdmaCopyToSq_eq ring few, if_neg fits] at whole
  exact (Except.ok.inj whole).symm

theorem copy (half : SendHalf shift start ci polled sq bytes pi posted)
    (curr : sq.qbufCurr = sq.blockAddress shift pi) {request : SqRequest}
    (starts : request.first = pi) (room : request.next ≤ ci + 2 ^ shift) :
    SendHalf shift start ci polled { sq with qbufCurr := sq.blockAddress shift request.next }
        (copyBlocks bytes sq (wqebbCnt request.wr request.tmp.ctl) request.tmp.bytes) pi posted ∧
      Stored sq.qbuf shift
        (copyBlocks bytes sq (wqebbCnt request.wr request.tmp.ctl) request.tmp.bytes) request := by
  have next_eq : request.next = pi + request.blocks := by
    rw [← starts]
    rfl
  have count : (wqebbCnt request.wr request.tmp.ctl).toNat = request.blocks := rfl
  have fits : pi + (wqebbCnt request.wr request.tmp.ctl).toNat ≤ ci + 2 ^ shift := by omega
  have copied := half.copyBlocks_eq curr fits
  rw [count] at copied
  have sum := tail_add_head (2 ^ shift) pi request.blocks
  have split : headBlocks (2 ^ shift) pi request.blocks ≠ 0 →
      tailBlocks (2 ^ shift) pi request.blocks = 2 ^ shift - pi % 2 ^ shift := headBlocks_split
  have ordered := half.ordered
  rw [copied]
  constructor
  · refine half.update (half.geometry.of_same rfl rfl rfl rfl) rfl rfl ?_
    intro older behind bound held stored
    have older_next : older.next = older.first + older.blocks := rfl
    refine ⟨held, ?_⟩
    unfold Stored
    rw [ringRead_ringCopy_window (by omega) (by omega) split]
    exact stored
  · unfold Stored SqRequest.encoding
    have written := ringRead_ringCopy_inside sq.qbuf 64 bytes request.tmp.bytes
      (by omega : tailBlocks (2 ^ shift) pi request.blocks +
        headBlocks (2 ^ shift) pi request.blocks ≤ 2 ^ shift) (Nat.min_le_left _ _) split
    rw [sum] at written
    rw [starts, written]

theorem stamp (half : SendHalf shift start ci polled sq bytes pi posted) {request : SqRequest}
    (last : posted.getLast? = some request) (single : request.blocks = 1) (alone : pi ≤ ci + 1)
    (index : UInt32) :
    SendHalf shift start ci polled sq
      (store bytes (sq.blockAddress shift request.first) (leBytes 2 index.toNat)) pi posted := by
  have reaches := half.chain.last last
  have next_eq : request.next = request.first + request.blocks := rfl
  apply half.update half.geometry rfl rfl
  intro other behind bound held stored
  have blocks := other.blocks_bounds
  have other_next : other.next = other.first + other.blocks := rfl
  have same : other.first = request.first := by omega
  have one : other.blocks = 1 := by omega
  have front := load_store_front bytes (sq.blockAddress shift request.first) 62
    (leBytes 2 index.toNat)
  have long : (leBytes 2 index.toNat).length = 2 := leBytes_length 2 index.toNat
  rw [long] at front
  refine ⟨held, ?_⟩
  unfold Stored ringRead at stored ⊢
  rw [one, same] at stored ⊢
  simp only [List.range_one, List.flatMap_cons, List.flatMap_nil, List.append_nil,
    Nat.add_zero] at stored ⊢
  unfold CdmaUJettyQueue.blockAddress at front ⊢
  rw [front, List.drop_left' long]
  exact stored

/-- Polling moves the consumer index up to the requests that are still ahead of it. -/
theorem move (half : SendHalf shift start ci polled sq bytes pi posted) {reached later : Nat}
    (forward : ci ≤ reached) (within : reached ≤ pi) (passed : polled ≤ later)
    (ahead : ∀ index request, later ≤ index → posted[index]? = some request →
      reached ≤ request.first) :
    SendHalf shift start reached later { sq with ci := counter reached } bytes pi posted := by
  have room := half.room
  constructor
  · exact half.geometry.of_same rfl rfl rfl rfl
  · rfl
  · exact half.pi_eq
  · exact within
  · omega
  · exact half.chain
  · intro index request beyond here
    exact ⟨ahead index request beyond here,
      (half.ahead index request (Nat.le_trans passed beyond) here).2⟩

theorem pass (half : SendHalf shift start ci polled sq bytes pi posted) {later : Nat}
    (passed : polled ≤ later) : SendHalf shift start ci later sq bytes pi posted :=
  ⟨half.geometry, half.ci_eq, half.pi_eq, half.ordered, half.room, half.chain,
    fun index request beyond here => half.ahead index request (Nat.le_trans passed beyond) here⟩

theorem flag (half : SendHalf shift start ci polled sq bytes pi posted) (flag : Bool) :
    SendHalf shift start ci polled { sq with flushFlag := flag } bytes pi posted :=
  half.update (half.geometry.of_same rfl rfl rfl rfl) rfl rfl
    (fun _ _ _ held stored => ⟨held, stored⟩)

end SendHalf

def PostThread.Latest (thread : PostThread) (shift : Nat) (sq : CdmaUJettyQueue)
    (posted : List SqRequest) : Prop :=
  thread.wrCnt ≠ 0 → ∃ request, posted.getLast? = some request ∧
    thread.dwqeAddr = some (sq.blockAddress shift request.first)

structure Placing (shift ci : Nat) (sq : CdmaUJettyQueue) (bytes : Bytes) (request : SqRequest)
    (count : Nat) : Prop where
  curr_eq : sq.qbufCurr = sq.blockAddress shift request.next
  room : request.next ≤ ci + 2 ^ shift
  within : count ≤ request.blocks
  marked : ∀ offset, offset < count →
    sq.wrid (counter (request.first + offset) &&& sq.baseblkMask) = request.wr.userCtx
  stored : Stored sq.qbuf shift bytes request

def PostStage.Sound (shift ci : Nat) (sq : CdmaUJettyQueue) (bytes : Bytes) (pi : Nat)
    (posted : List SqRequest) (thread : PostThread) : PostStage → Prop
  | .build => sq.qbufCurr = sq.blockAddress shift pi ∧ thread.Latest shift sq posted
  | .room _ _ => sq.qbufCurr = sq.blockAddress shift pi ∧ thread.Latest shift sq posted
  | .copy wr tmp =>
      sq.qbufCurr = sq.blockAddress shift pi ∧
        pi + (wqebbCnt wr tmp.ctl).toNat ≤ ci + 2 ^ shift
  | .mark wr tmp i =>
      Placing shift ci sq bytes { wr := wr, tmp := tmp, first := pi, stamp := none } i ∧
        thread.dwqeAddr = some (sq.blockAddress shift pi)
  | .choose _ => sq.qbufCurr = sq.blockAddress shift pi ∧ thread.Latest shift sq posted
  | .announce _ direct =>
      sq.qbufCurr = sq.blockAddress shift pi ∧
        (direct = true → pi ≤ ci + 1 ∧
          ∃ request, posted.getLast? = some request ∧ request.blocks = 1 ∧
            thread.dwqeAddr = some (sq.blockAddress shift request.first))

structure PostThread.Sound (thread : PostThread) (shift ci : Nat) (sq : CdmaUJettyQueue)
    (bytes : Bytes) (pi : Nat) (posted : List SqRequest) (visible : Nat) : Prop where
  count_eq : visible + thread.wrCnt = posted.length
  stage : thread.stage.Sound shift ci sq bytes pi posted thread

/-- What polling reads of the send queue stays: the blocks between the indices. -/
structure Steady (ci pi : Nat) (sq after : CdmaUJettyQueue) : Prop where
  ci_eq : after.ci = sq.ci
  mask_eq : after.baseblkMask = sq.baseblkMask
  wrid_eq : ∀ block, ci ≤ block → block < pi →
    after.wrid (counter block &&& sq.baseblkMask) = sq.wrid (counter block &&& sq.baseblkMask)

structure PosterKeeps (shift start ci polled visible pi : Nat) (sq : CdmaUJettyQueue)
    (posted finished : List SqRequest) (after : CdmaUJettyQueue) (bytes : Bytes)
    (later : PostThread) : Prop where
  half : SendHalf shift start ci polled after bytes (pi + blockSum finished) (posted ++ finished)
  sound : later.Sound shift ci after bytes (pi + blockSum finished) (posted ++ finished) visible
  steady : Steady ci pi sq after

namespace PosterKeeps

variable {shift start ci polled visible pi : Nat} {sq after : CdmaUJettyQueue} {bytes : Bytes}
  {posted : List SqRequest} {later : PostThread}

theorem still (half : SendHalf shift start ci polled after bytes pi posted)
    (sound : later.Sound shift ci after bytes pi posted visible)
    (steady : Steady ci pi sq after) :
    PosterKeeps shift start ci polled visible pi sq posted [] after bytes later := by
  constructor
  · rw [List.append_nil]
    exact half
  · rw [List.append_nil]
    exact sound
  · exact steady

end PosterKeeps

section Poster

variable {shift start ci polled visible pi : Nat} {sq : CdmaUJettyQueue} {bytes : Bytes}
  {posted : List SqRequest} {thread : PostThread} {ctx : CdmaUContext}

theorem PosterKeeps.idle (half : SendHalf shift start ci polled sq bytes pi posted)
    {later : PostThread} (count : visible + later.wrCnt = posted.length)
    (sound : later.stage.Sound shift ci sq bytes pi posted later) :
    PosterKeeps shift start ci polled visible pi sq posted [] sq bytes later :=
  .still half ⟨count, sound⟩ ⟨rfl, rfl, fun _ _ _ => rfl⟩

/-- The window is all there is in the ring when the two indices are one apart. -/
theorem SendHalf.alone (half : SendHalf shift start ci polled sq bytes pi posted)
    (single : (sq.pi - sq.ci == 1) = true) : pi ≤ ci + 1 := by
  have ordered := half.ordered
  have room := half.room
  have small := half.geometry.cnt_le
  have difference : (sq.pi - sq.ci).toNat = pi - ci := by
    rw [half.pi_eq, half.ci_eq]
    exact toNat_counter_sub half.ordered (by omega)
  rw [beq_iff_eq.mp single] at difference
  have one : (1 : UInt32).toNat = 1 := rfl
  omega

theorem PosterKeeps.copied (half : SendHalf shift start ci polled sq bytes pi posted)
    (count : visible + thread.wrCnt = posted.length) {wr : DmaJfsWr} {tmp : TmpSq}
    (sound : (PostStage.copy wr tmp).Sound shift ci sq bytes pi posted thread) :
    PosterKeeps shift start ci polled visible pi sq posted []
      { sq with
        qbufCurr := cdmaUpdatePtr sq.qbufCurr (wqebbCnt wr tmp.ctl <<< sq.baseblkShift) sq.qbuf
          (sq.qbuf + sq.qbufSize.toNat) }
      (copyBlocks bytes sq (wqebbCnt wr tmp.ctl) tmp.bytes)
      { thread with dwqeAddr := some sq.qbufCurr, stage := .mark wr tmp 0 } := by
  obtain ⟨curr, room⟩ := sound
  let request : SqRequest := ⟨wr, tmp, pi, none⟩
  have few := wqebbCnt_bounds wr tmp.ctl
  have ordered := half.ordered
  have moved := cdmaUpdatePtr_eq (half.ring curr) few.2 (by omega)
  obtain ⟨kept, stored⟩ := half.copy curr (rfl : request.first = pi) room
  rw [moved]
  apply PosterKeeps.still
  · exact kept
  · constructor
    · exact count
    · constructor
      · constructor
        · rfl
        · exact room
        · exact Nat.zero_le _
        · intro offset impossible
          exact absurd impossible (Nat.not_lt_zero offset)
        · exact stored
      · exact congrArg some curr
  · exact ⟨rfl, rfl, fun _ _ _ => rfl⟩

theorem PosterKeeps.marked (half : SendHalf shift start ci polled sq bytes pi posted)
    (count : visible + thread.wrCnt = posted.length) {wr : DmaJfsWr} {tmp : TmpSq} {i : Nat}
    (sound : (PostStage.mark wr tmp i).Sound shift ci sq bytes pi posted thread)
    (more : i < (wqebbCnt wr tmp.ctl).toNat) :
    PosterKeeps shift start ci polled visible pi sq posted []
      { sq with
        wrid := Function.update sq.wrid ((sq.pi + UInt32.ofNat i) &&& sq.baseblkMask)
          wr.userCtx }
      bytes { thread with stage := .mark wr tmp (i + 1) } := by
  obtain ⟨placing, addr⟩ := sound
  have ordered := half.ordered
  have inside : pi + i < ci + 2 ^ shift := Nat.lt_of_lt_of_le (Nat.add_lt_add_left more pi)
    placing.room
  have block : sq.pi + UInt32.ofNat i = counter (pi + i) := by
    rw [half.pi_eq]
    exact counter_add pi i
  rw [block]
  apply PosterKeeps.still
  · exact half.mark (Nat.le_add_right _ _) inside wr.userCtx
  · constructor
    · exact count
    · constructor
      · constructor
        · exact placing.curr_eq
        · exact placing.room
        · exact more
        · intro offset below
          by_cases last : offset = i
          · subst last
            exact Function.update_self _ _ _
          · have apart := half.slot_ne (pi + offset) (pi + i) (by omega) (by omega) inside
            rw [← placing.marked offset (by omega)]
            exact Function.update_of_ne apart _ _
        · exact placing.stored
      · exact addr
  · constructor
    · rfl
    · rfl
    · intro old behind before
      have apart := half.slot_ne old (pi + i) behind (by omega) inside
      exact Function.update_of_ne apart _ _

theorem PosterKeeps.finished (half : SendHalf shift start ci polled sq bytes pi posted)
    (count : visible + thread.wrCnt = posted.length) {wr : DmaJfsWr} {tmp : TmpSq} {i : Nat}
    (sound : (PostStage.mark wr tmp i).Sound shift ci sq bytes pi posted thread)
    (last : ¬i < (wqebbCnt wr tmp.ctl).toNat) :
    PosterKeeps shift start ci polled visible pi sq posted [⟨wr, tmp, pi, none⟩]
      { sq with pi := sq.pi + wqebbCnt wr tmp.ctl } bytes
      { thread with wrCnt := thread.wrCnt + 1, stage := .build } := by
  obtain ⟨placing, addr⟩ := sound
  let request : SqRequest := ⟨wr, tmp, pi, none⟩
  have all : i = request.blocks := Nat.le_antisymm placing.within (Nat.le_of_not_lt last)
  have held : sq.Holds request := by
    intro offset within
    exact placing.marked offset (all ▸ within)
  have reach : sq.pi + wqebbCnt wr tmp.ctl = counter request.next := by
    rw [half.pi_eq, ← counter_toNat (wqebbCnt wr tmp.ctl)]
    exact counter_add pi _
  have sum : pi + blockSum [request] = request.next := by
    rw [blockSum, List.map_singleton, List.sum_singleton]
    rfl
  rw [reach]
  constructor
  · rw [sum]
    exact half.append rfl placing.room held placing.stored
  · rw [sum]
    constructor
    · rw [List.length_append, ← count]
      rfl
    · constructor
      · exact placing.curr_eq
      · intro _
        exact ⟨request, List.getLast?_concat, addr⟩
  · exact ⟨rfl, rfl, fun _ _ _ => rfl⟩

/-- The direct path is chosen for a request of one block that is alone in the ring. -/
theorem PosterKeeps.chosen (half : SendHalf shift start ci polled sq bytes pi posted)
    (count : visible + thread.wrCnt = posted.length) (behind : polled ≤ visible)
    {error : Option Errno}
    (sound : (PostStage.choose error).Sound shift ci sq bytes pi posted thread) :
    PosterKeeps shift start ci polled visible pi sq posted [] sq bytes
      { thread with
        stage := .announce error
          (thread.wrCnt == 1 && thread.dwqeEnable && sq.pi - sq.ci == 1) } := by
  obtain ⟨curr, latest⟩ := sound
  have alone : (thread.wrCnt == 1 && thread.dwqeEnable && sq.pi - sq.ci == 1) = true →
      pi ≤ ci + 1 ∧ ∃ request, posted.getLast? = some request ∧ request.blocks = 1 ∧
        thread.dwqeAddr = some (sq.blockAddress shift request.first) := by
    intro direct
    simp only [Bool.and_eq_true] at direct
    obtain ⟨⟨one, _⟩, single⟩ := direct
    have window := half.alone single
    have one : thread.wrCnt = 1 := beq_iff_eq.mp one
    obtain ⟨request, last, addr⟩ := latest (by omega)
    have here := last
    rw [List.getLast?_eq_getElem?] at here
    have ahead := (half.ahead _ request (by omega) here).1
    have reaches := half.chain.last last
    have bounds := request.blocks_bounds
    have next_eq : request.next = request.first + request.blocks := rfl
    exact ⟨window, request, last, by omega, addr⟩
  exact .still half ⟨count, curr, alone⟩ ⟨rfl, rfl, fun _ _ _ => rfl⟩

theorem PosterKeeps.turn (half : SendHalf shift start ci polled sq bytes pi posted)
    (sound : thread.Sound shift ci sq bytes pi posted visible) (behind : polled ≤ visible)
    {after : CdmaUJettyQueue} {left : Bytes} {later : PostThread}
    (turned : thread.turn ctx bytes sq = .again left after later) :
    PosterKeeps shift start ci polled visible pi sq posted (thread.finishing pi) after left
      later := by
  obtain ⟨count, stageSound⟩ := sound
  unfold PostThread.turn at turned
  unfold PostThread.finishing
  cases stage : thread.stage with
  | build =>
      rw [stage] at stageSound
      simp only [stage] at turned ⊢
      cases rest : thread.rest with
      | nil =>
          simp only [rest] at turned
          cases turned
          exact .idle half count stageSound
      | cons wr rest =>
          simp only [rest] at turned
          split at turned
          · cases turned
            exact .idle half count stageSound
          · split at turned
            · cases turned
              exact .idle half count stageSound
            · split at turned
              · cases turned
                exact .idle half count stageSound
              · cases turned
                exact .idle half count stageSound
  | room wr tmp =>
      rw [stage] at stageSound
      simp only [stage] at turned ⊢
      have few := wqebbCnt_bounds wr tmp.ctl
      have overflow := checkSqOverflow_eq (half.ring stageSound.1) few.2
      by_cases full : checkSqOverflow sq (wqebbCnt wr tmp.ctl) = true
      · rw [if_pos full] at turned
        cases turned
        exact .idle half count stageSound
      · rw [if_neg full] at turned
        cases turned
        rw [overflow, decide_eq_true_eq] at full
        exact .still half ⟨count, stageSound.1, by omega⟩ ⟨rfl, rfl, fun _ _ _ => rfl⟩
  | copy wr tmp =>
      rw [stage] at stageSound
      simp only [stage] at turned ⊢
      cases turned
      exact .copied half count stageSound
  | mark wr tmp i =>
      rw [stage] at stageSound
      simp only [stage] at turned ⊢
      by_cases more : i < (wqebbCnt wr tmp.ctl).toNat
      · rw [if_pos more] at turned ⊢
        cases turned
        exact .marked half count stageSound more
      · rw [if_neg more] at turned ⊢
        cases turned
        exact .finished half count stageSound more
  | choose error =>
      rw [stage] at stageSound
      simp only [stage] at turned ⊢
      split at turned
      · cases turned
      · cases turned
        exact .chosen half count behind stageSound
  | announce error direct =>
      simp only [stage] at turned
      split at turned
      · cases turned
      · cases turned

/-- The last turn, which may stamp the direct path's index into the ring. -/
theorem SendHalf.exit (half : SendHalf shift start ci polled sq bytes pi posted)
    (sound : thread.Sound shift ci sq bytes pi posted visible) {result : PostResult}
    (turned : thread.turn ctx bytes sq = .exit result) :
    SendHalf shift start ci polled sq result.memory pi posted ∧ result.sq = sq ∧
      sq.qbufCurr = sq.blockAddress shift pi := by
  have stageSound := sound.stage
  obtain ⟨same, last⟩ := PostThread.turn_exit turned
  rcases last with ⟨error, stage, kept⟩ | ⟨error, direct, stage, left⟩
  · rw [stage] at stageSound
    rw [kept]
    exact ⟨half, same, stageSound.1⟩
  · rw [stage] at stageSound
    obtain ⟨curr, alone⟩ := stageSound
    rcases left with kept | ⟨isDirect, address, addr, stamped⟩
    · rw [kept]
      exact ⟨half, same, curr⟩
    · obtain ⟨window, request, newest, single, place⟩ := alone isDirect
      rw [addr] at place
      cases place
      rw [stamped]
      exact ⟨half.stamp newest single window sq.pi, same, curr⟩

end Poster

end Libcdma
