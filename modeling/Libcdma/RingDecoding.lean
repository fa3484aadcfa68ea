/-
The send ring as a queue of requests.

The opcode and the segment count in a request's header say how many blocks it
occupies, so a reader that starts at the oldest outstanding block recovers every
request up to the producer index.  What it recovers is a queue: posting appends what
it accepted, completing removes the front, and nothing else changes it.
-/

import Libcdma.Foundation.Framing
import Libcdma.Foundation.Simulation
import Libcdma.SegmentRequests

namespace Libcdma

open WrapCounter ByteImage BlockRing Transition Framing

/-- Blocks of a request with an opcode and a segment count in its header. -/
def headerBlocks (opcode sgeNum : BitVec 8) : Nat :=
  let ctlLen := if opcode = CdmaJfsOpcode.writeWithNotify.value then 80 else 48
  let count :=
    if opcode = CdmaJfsOpcode.cas.value ∨ opcode = CdmaJfsOpcode.faa.value then 2
    else sgeNum.toNat
  (ctlLen + count * 16 + 63) / 64

/-- Requests on the ring, read without knowing how they were posted. -/
def sqeFormat : Format UInt8 SqeView :=
  { size := fun bytes =>
      let header := ofLe (slice bytes 0 48)
      headerBlocks (bits header 40 8) (bits header 88 8) * 64
    read := decodeSqe }

theorem wqebbCnt_eq {wr : DmaJfsWr} {ctl : CdmaJfsSqeCtl} {count : Nat}
    (sgeNum : cdmaGetNormalSgeNum wr.opcode ctl = counter count)
    (few : count ≤ if wr.opcode = .writeNotify then 11 else 13) :
    (wqebbCnt wr ctl).toNat =
      ((if wr.opcode = .writeNotify then 80 else 48) + count * 16 + 63) / 64 := by
  have plain : ∀ count : Fin 14,
      (if cdmaSqCalWqebbNum 48 (counter count) 64 > maxSqeBbNum then maxSqeBbNum
        else cdmaSqCalWqebbNum 48 (counter count) 64).toNat = (48 + count.1 * 16 + 63) / 64 := by
    decide
  have notify : ∀ count : Fin 12,
      (if cdmaSqCalWqebbNum 80 (counter count) 64 > maxSqeBbNum then maxSqeBbNum
        else cdmaSqCalWqebbNum 80 (counter count) 64).toNat = (80 + count.1 * 16 + 63) / 64 := by
    decide
  unfold wqebbCnt cdmaGetWqebbCnt cdmaGetCtlLen
  rw [sgeNum]
  by_cases isNotify : wr.opcode = .writeNotify
  · rw [if_pos isNotify] at few
    rw [if_pos isNotify, if_pos isNotify]
    exact notify ⟨count, by omega⟩
  · rw [if_neg isNotify] at few
    rw [if_neg isNotify, if_neg isNotify]
    exact plain ⟨count, by omega⟩

section Encoding

variable {memory : Bytes} {sq : CdmaUJettyQueue} {wr : DmaJfsWr} {tmp : TmpSq}

theorem live_length_of_checked (opcode : wr.opcode = .writeNotify)
    (checked : cdmaCheckSgeNum (cdmaParseJfsOpcode wr.opcode) sq wr = false) :
    wr.rw.src.live.length ≤ 11 := by
  rw [opcode] at checked
  simp only [cdmaParseJfsOpcode, cdmaCheckSgeNum, Bool.or_eq_false_iff,
    decide_eq_false_iff_not, gt_iff_lt, UInt32.lt_iff_toNat_lt, Nat.not_lt] at checked
  exact Nat.le_trans (live_length_le _) checked.1

/-- The header of an accepted request counts the blocks that are copied. -/
theorem headerBlocks_eq (accepted : cdmaParseJfsOpcode wr.opcode ≠ .invalid)
    (checked : cdmaCheckSgeNum (cdmaParseJfsOpcode wr.opcode) sq wr = false)
    (built : cdmaSetSqe memory .zeroed sq wr (cdmaParseJfsOpcode wr.opcode) = .ok tmp)
    (encodable : wr.Encodable) :
    headerBlocks tmp.ctl.opcode tmp.ctl.sgeNum = (wqebbCnt wr tmp.ctl).toNat := by
  have few := encodable.segments
  have filled {count : Nat} (plain : wr.opcode ≠ .cas ∧ wr.opcode ≠ .fadd)
      (sgeNum : tmp.ctl.sgeNum = (counter count).toBitVec.setWidth 8)
      (few : count ≤ if wr.opcode = .writeNotify then 11 else 13) :
      tmp.ctl.sgeNum.toNat = count ∧ (wqebbCnt wr tmp.ctl).toNat =
        ((if wr.opcode = .writeNotify then 80 else 48) + count * 16 + 63) / 64 := by
    have small : count < 256 := by
      split at few <;> omega
    constructor
    · rw [sgeNum, sgeNum_toNat small]
    · exact wqebbCnt_eq (normalSgeNum_of_plain plain sgeNum small) few
  rw [(ctlOf_cdmaSetSqe built).opcode]
  cases opcode : wr.opcode with
  | write =>
      rw [opcode] at built
      have locals : wr.localSges = wr.rw.src.live := by rw [DmaJfsWr.localSges, opcode]
      rw [locals] at few
      obtain ⟨count, blocks⟩ := filled (by simp [opcode]) (cdmaSetSqe_write opcode built).2
        (by simpa [opcode] using few)
      simp only [opcode, reduceCtorEq, if_false] at blocks
      rw [blocks, ← count]
      rfl
  | writeNotify =>
      have fits := live_length_of_checked opcode checked
      rw [opcode] at built
      obtain ⟨_, _, _, sgeNum⟩ := cdmaSetSqe_writeNotify opcode built
      obtain ⟨count, blocks⟩ := filled (by simp [opcode]) sgeNum (by simpa [opcode] using fits)
      simp only [opcode, if_true] at blocks
      rw [blocks, ← count]
      rfl
  | read =>
      rw [opcode] at built
      have locals : wr.localSges = wr.rw.dst.live := by rw [DmaJfsWr.localSges, opcode]
      rw [locals] at few
      obtain ⟨count, blocks⟩ := filled (by simp [opcode]) (cdmaSetSqe_read opcode built).2
        (by simpa [opcode] using few)
      simp only [opcode, reduceCtorEq, if_false] at blocks
      rw [blocks, ← count]
      rfl
  | cas =>
      have two : cdmaGetNormalSgeNum wr.opcode tmp.ctl = counter 2 := by
        rw [opcode]
        rfl
      rw [wqebbCnt_eq two (by simp [opcode])]
      simp only [opcode, reduceCtorEq, if_false]
      rfl
  | fadd =>
      have two : cdmaGetNormalSgeNum wr.opcode tmp.ctl = counter 2 := by
        rw [opcode]
        rfl
      rw [wqebbCnt_eq two (by simp [opcode])]
      simp only [opcode, reduceCtorEq, if_false]
      rfl
  | swap => exact absurd (by rw [opcode]; rfl) accepted
  | last => exact absurd (by rw [opcode]; rfl) accepted
  | unlisted => exact absurd (by rw [opcode]; rfl) accepted

end Encoding

theorem SqRequest.header_field (request : SqRequest) (rest : List UInt8) {start : Nat}
    (after : 16 ≤ start) (width : Nat) :
    bits (ofLe (slice (request.bytes ++ rest) 0 48)) start width =
      bits (pack request.tmp.ctl.fields) start width := by
  have bounds := request.blocks_bounds
  have long : 48 ≤ request.blocks * 64 := by omega
  have length := request.encoding_length
  have header : ofLe (slice (request.encoding ++ rest) 0 48) = pack request.tmp.ctl.fields := by
    have front : slice (request.encoding ++ rest) 0 48 = slice request.encoding 0 48 := by
      unfold slice
      rw [List.drop_zero, List.drop_zero, List.take_append_of_le_length (by omega)]
    rw [front]
    exact request.tmp.slice_header long
  rw [← header]
  unfold SqRequest.bytes
  cases request.stamp with
  | none => rfl
  | some pi =>
      -- the stamped index lies below every field that is read
      have stampLength : (request.encoding.take 2).length = 2 := by
        rw [List.length_take]
        omega
      have whole : request.encoding ++ rest =
          request.encoding.take 2 ++ (request.encoding.drop 2 ++ rest) := by
        rw [← List.append_assoc, List.take_append_drop]
      rw [whole, List.append_assoc, bits_header _ _ (leBytes_length 2 _) after,
        bits_header _ _ stampLength after]

/-- The bytes of an accepted request are cut off where they end and read as what was
asked, stamped or not. -/
theorem SqRequest.frame {request : SqRequest} {memory : Bytes} {sq : CdmaUJettyQueue}
    {view : SqeView} (accepted : cdmaParseJfsOpcode request.wr.opcode ≠ .invalid)
    (checked : cdmaCheckSgeNum (cdmaParseJfsOpcode request.wr.opcode) sq request.wr = false)
    (built : cdmaSetSqe memory .zeroed sq request.wr (cdmaParseJfsOpcode request.wr.opcode) =
      .ok request.tmp)
    (encodable : request.wr.Encodable) (asked : request.wr.view memory = some view) :
    sqeFormat.Frame request.bytes view := by
  have bounds := request.blocks_bounds
  have length := request.bytes_length
  obtain ⟨_, _, _, _, _, _, opcode, _, sgeNum, _⟩ := request.tmp.ctl.bits_fields
  constructor
  · intro empty
    rw [empty, List.length_nil] at length
    omega
  · intro rest
    have blocks := headerBlocks_eq accepted checked built encodable
    simp only [sqeFormat, request.header_field rest (by decide : 16 ≤ 40),
      request.header_field rest (by decide : 16 ≤ 88)]
    rw [opcode, sgeNum, blocks, length]
    rfl
  · have read := decodeSqe_blockBytes accepted checked built encodable
    rw [asked] at read
    exact request.decodeSqe_bytes.trans read

/-! ### What one call appends -/

/-- The request asks this, in a memory that differs from the given one only inside
the ring: a wide operand of a compare-and-swap is read while earlier requests of its
call are already copied. -/
def Asked (memory : Bytes) (base size : Nat) (wr : DmaJfsWr) (view : SqeView) : Prop :=
  ∃ seen : Bytes, (∀ address, address < base ∨ base + size ≤ address →
    seen address = memory address) ∧ wr.view seen = some view

def SqRequest.Readable (memory : Bytes) (base size : Nat) (request : SqRequest) : Prop :=
  ∃ view, Asked memory base size request.wr view ∧
    ∀ stamp, sqeFormat.Frame { request with stamp := stamp }.bytes view

/-- While a list is posted: the ring is the only memory that changed, and what was
posted is readable. -/
structure Appending (shift ci qbuf : Nat) (memory : Bytes) (locals : PostLocals)
    (wrCnt pi : Nat) (requests : List SqRequest) : Prop where
  ring : SqAt shift locals.sq ci pi
  qbuf_eq : locals.sq.qbuf = qbuf
  outside : ∀ address, address < qbuf ∨ qbuf + 2 ^ shift * 64 ≤ address →
    locals.memory address = memory address
  count_eq : requests.length = wrCnt
  readable : ∀ request ∈ requests, request.wr.Encodable →
    request.Readable memory qbuf (2 ^ shift * 64)

namespace Appending

variable {shift ci qbuf wrCnt pi : Nat} {memory : Bytes} {locals : PostLocals}
  {requests : List SqRequest}

theorem accept (appending : Appending shift ci qbuf memory locals wrCnt pi requests)
    (ctx : CdmaUContext) {wr : DmaJfsWr} {request : SqRequest}
    (checked : requestChecked locals wr pi = some request)
    (room : pi + request.blocks ≤ ci + 2 ^ shift) :
    Appending shift ci qbuf memory (locals.accept ctx shift request) (wrCnt + 1) request.next
      (requests ++ [request]) := by
  obtain ⟨accepted, within, found⟩ := requestChecked_eq_some checked
  obtain ⟨wr_eq, starts, _, built⟩ := requestOf_eq_some found
  have ordered := appending.ring.ordered
  constructor
  · exact appending.ring.accept ctx starts room
  · unfold PostLocals.accept
    simp only
    rw [setWrid_frame]
    exact appending.qbuf_eq
  · intro address out
    have slot := Nat.mod_lt request.first (Nat.two_pow_pos shift)
    have tail_le : tailBlocks (2 ^ shift) request.first request.blocks ≤
        2 ^ shift - request.first % 2 ^ shift := Nat.min_le_left _ _
    have head_le : headBlocks (2 ^ shift) request.first request.blocks ≤ request.blocks :=
      Nat.sub_le _ _
    unfold PostLocals.accept
    simp only
    have fits : request.first % 2 ^ shift + tailBlocks (2 ^ shift) request.first request.blocks ≤
        2 ^ shift := by omega
    rw [appending.qbuf_eq, ringCopy_outside fits (by omega) out]
    exact appending.outside address out
  · rw [List.length_append, appending.count_eq]
    rfl
  · intro other member encodable
    rcases List.mem_append.mp member with old | new
    · exact appending.readable other old encodable
    · rw [List.mem_singleton] at new
      subst new
      rw [← wr_eq] at accepted within built
      obtain ⟨view, asked⟩ := view_isSome locals.memory accepted
      exact ⟨view, ⟨locals.memory, appending.outside, asked⟩,
        fun _ => SqRequest.frame accepted within built encodable asked⟩

end Appending

theorem postedRequests_wr (ctx : CdmaUContext) (wrs : List DmaJfsWr) (pi : Nat)
    (locals : PostLocals) :
    (postedRequests ctx wrs pi locals).map SqRequest.wr =
      wrs.take (postedRequests ctx wrs pi locals).length := by
  induction wrs generalizing pi locals with
  | nil => rfl
  | cons wr rest ih =>
      rw [postedRequests]
      split
      · rename_i request after found accepted
        rw [List.map_cons, ih, (requestOf_eq_some found).1]
        rfl
      · rfl

section Call

variable {shift ci pi : Nat} {sq : CdmaUJettyQueue}

theorem appending_post (ring : SqAt shift sq ci pi) (ctx : CdmaUContext) (memory : Bytes)
    (wrs : List DmaJfsWr) :
    Appending shift ci sq.qbuf memory (postSqWrLoop ctx wrs 0 ⟨memory, sq, none, false⟩).1
      (postSqWrLoop ctx wrs 0 ⟨memory, sq, none, false⟩).2.1
      (pi + blockSum (postedRequests ctx wrs pi ⟨memory, sq, none, false⟩))
      (postedRequests ctx wrs pi ⟨memory, sq, none, false⟩) := by
  have start : Appending shift ci sq.qbuf memory ⟨memory, sq, none, false⟩ 0 pi [] :=
    ⟨ring, rfl, fun _ _ => rfl, rfl, fun _ member => nomatch member⟩
  exact postSqWrLoop_keeps ctx (Appending shift ci sq.qbuf memory) (fun held => held.ring)
    (fun _ held => ⟨held.ring, held.qbuf_eq, held.outside, held.count_eq, held.readable⟩)
    (fun held checked room => held.accept ctx checked room) wrs start

theorem postedRequests_length (ring : SqAt shift sq ci pi) (ctx : CdmaUContext) (memory : Bytes)
    (wrs : List DmaJfsWr) :
    (postedRequests ctx wrs pi ⟨memory, sq, none, false⟩).length =
      (cdmaPostSqWr ctx memory sq wrs).accepted wrs := by
  have count := postSqWrLoop_count ctx wrs 0 ⟨memory, sq, none, false⟩
  rw [← cdmaPostSqWr_error, Nat.zero_add] at count
  rw [(appending_post ring ctx memory wrs).count_eq, count]
  rfl

theorem postedRequests_readable (ring : SqAt shift sq ci pi) (ctx : CdmaUContext)
    (memory : Bytes) {wrs : List DmaJfsWr} (encodable : ∀ wr ∈ wrs, wr.Encodable) :
    ∀ request ∈ postedRequests ctx wrs pi ⟨memory, sq, none, false⟩,
      request.Readable memory sq.qbuf sq.qbufSize.toNat := by
  intro request member
  have size := ring.geometry.size_eq
  have small := ring.geometry.cnt_le
  have inList : request.wr ∈ wrs := by
    have listed := List.mem_map_of_mem (f := SqRequest.wr) member
    rw [postedRequests_wr] at listed
    exact List.mem_of_mem_take listed
  have readable := (appending_post ring ctx memory wrs).readable request member
    (encodable request.wr inList)
  rw [size, toNat_counter_of_lt (by omega)]
  exact readable

end Call

inductive FifoLabel (Item : Type) where
  | accept (items : List Item)
  | finish
  | idle

def fifoStep {Item : Type} : List Item → FifoLabel Item → Option (List Item)
  | queued, .accept items => some (queued ++ items)
  | _ :: rest, .finish => some rest
  | [], .finish => none
  | queued, .idle => some queued

theorem fifoStep_idle {Item : Type} (queued : List Item) :
    fifoStep queued .idle = some queued := by
  cases queued <;> rfl

namespace SqWorld

/-- The ring from the oldest outstanding block on, read request by request. -/
def deviceReads (w : SqWorld) : Option (List SqeView) :=
  sqeFormat.decode
    (ringRead w.sq.qbuf 64 w.sq.baseblkCnt.toNat w.memory w.oldest (w.pi - w.oldest))

/-- A call appends the requests before the one it refuses, each as it was asked. -/
structure Accepts (w : SqWorld) (wrs : List DmaJfsWr) (views : List SqeView) : Prop where
  count : views.length = (cdmaPostSqWr w.ctx w.memory w.sq wrs).accepted wrs
  asked : List.Forall₂ (Asked w.memory w.sq.qbuf w.sq.qbufSize.toNat) (wrs.take views.length)
    views

def StandsFor (w : SqWorld) : SqAction → FifoLabel SqeView → Prop
  | .post wrs, .accept views => w.Accepts wrs views
  | .complete, .finish => True
  | .advance _, .idle => True
  | .write _ _, .idle => True
  | _, _ => False

end SqWorld

def SqAction.Encodable : SqAction → Prop
  | .post wrs => ∀ wr ∈ wrs, wr.Encodable
  | _ => True

/-! ### The ring refines the queue -/

theorem exists_forall₂ {Item Value : Type} {relation : Item → Value → Prop} {items : List Item}
    (each : ∀ item ∈ items, ∃ value, relation item value) :
    ∃ values, List.Forall₂ relation items values := by
  induction items with
  | nil => exact ⟨[], .nil⟩
  | cons item rest ih =>
      obtain ⟨value, here⟩ := each item List.mem_cons_self
      obtain ⟨values, later⟩ := ih (fun other member => each other (List.mem_cons_of_mem _ member))
      exact ⟨value :: values, .cons here later⟩

namespace SqWorld

/-- The outstanding requests are framed and say what is queued. -/
structure Queues (shift : Nat) (w : SqWorld) (queued : List SqeView) : Prop where
  holds : w.Holds shift
  frames : List.Forall₂ sqeFormat.Frame (w.requests.map SqRequest.bytes) queued

namespace Queues

variable {shift : Nat} {w : SqWorld} {queued : List SqeView}

theorem deviceReads_eq (queues : w.Queues shift queued) : w.deviceReads = some queued := by
  unfold deviceReads
  rw [queues.holds.ring.geometry.cnt_toNat, queues.holds.bytes, List.flatMap_def]
  exact Format.decode_flatten queues.frames

theorem post (queues : w.Queues shift queued) {wrs : List DmaJfsWr}
    (encodable : ∀ wr ∈ wrs, wr.Encodable) :
    ∃ views, w.Accepts wrs views ∧ (w.post wrs).Queues shift (queued ++ views) := by
  have ring := queues.holds.ring
  have length := postedRequests_length ring w.ctx w.memory wrs
  have wrs_eq := postedRequests_wr w.ctx wrs w.pi ⟨w.memory, w.sq, none, false⟩
  have readable := postedRequests_readable ring w.ctx w.memory encodable
  obtain ⟨views, each⟩ := exists_forall₂ readable
  have count := each.length_eq
  refine ⟨views, ?_, ?_⟩
  · constructor
    · rw [← count, length]
    · rw [← count, ← wrs_eq, List.forall₂_map_left_iff]
      exact each.imp (fun _ _ read => read.1)
  · constructor
    · have stepped : w.step (.post wrs) = some (w.post wrs) := rfl
      exact queues.holds.step stepped
    · have announced : List.Forall₂ sqeFormat.Frame
          ((announcedRequests (cdmaPostSqWr w.ctx w.memory w.sq wrs)
            (postedRequests w.ctx wrs w.pi ⟨w.memory, w.sq, none, false⟩)).map SqRequest.bytes)
          views := by
        rw [List.forall₂_map_left_iff]
        unfold announcedRequests
        split
        · rw [List.forall₂_map_left_iff]
          exact each.imp (fun _ _ read => read.2 _)
        · exact each.imp (fun request _ read => read.2 request.stamp)
      unfold SqWorld.post
      rw [List.map_append]
      exact List.rel_append queues.frames announced

end Queues

theorem simulates_fifo (shift : Nat) :
    Simulates SqWorld.step fifoStep (fun _ action => action.Encodable)
      (fun w queued => w.Queues shift queued) SqWorld.StandsFor := by
  constructor
  intro w action next queued encodable queues stepped
  have holds := queues.holds.step stepped
  cases action with
  | post wrs =>
      obtain ⟨views, accepts, kept⟩ := queues.post encodable
      cases stepped
      exact ⟨.accept views, queued ++ views, accepts, rfl, kept⟩
  | complete =>
      have frames := queues.frames
      simp only [SqWorld.step] at stepped
      cases outstanding : w.requests with
      | nil => simp [outstanding] at stepped
      | cons request rest =>
          simp only [outstanding] at stepped
          cases stepped
          rw [outstanding, List.map_cons] at frames
          cases frames with
          | cons _ later => exact ⟨.finish, _, trivial, rfl, holds, later⟩
  | advance count =>
      have frames := queues.frames
      simp only [SqWorld.step] at stepped
      split at stepped
      · cases stepped
        exact ⟨.idle, queued, trivial, fifoStep_idle queued, holds, frames⟩
      · cases stepped
  | write address byte =>
      have frames := queues.frames
      simp only [SqWorld.step] at stepped
      split at stepped
      · cases stepped
        exact ⟨.idle, queued, trivial, fifoStep_idle queued, holds, frames⟩
      · cases stepped

end SqWorld

/-- Over any run the ring, read by the headers alone, is the queue of the requests
accepted and not completed, in order and as they were asked. -/
theorem cdmaUPostJfsWr_refines_fifo {start final : SqWorld} {shift : Nat}
    (initial : start.Initial shift) {actions : List SqAction}
    (encodable : ∀ action ∈ actions, action.Encodable)
    (ran : run SqWorld.step start actions = some final) :
    ∃ labels queued, Labelled SqWorld.step SqWorld.StandsFor start actions labels ∧
      run fifoStep [] labels = some queued ∧ final.deviceReads = some queued := by
  have empty : start.Queues shift [] := by
    constructor
    · exact initial.holds
    · rw [initial.requests_eq]
      exact .nil
  obtain ⟨labels, queued, labelled, queueRan, queues⟩ := (SqWorld.simulates_fifo shift).run
    (conforms_of_forall SqWorld.step encodable start) empty ran
  exact ⟨labels, queued, labelled, queueRan, queues.deviceReads_eq⟩

theorem cdmaUPostJfsWr_refines_fifo_fourBlocks :
    ∃ final labels queued, run SqWorld.step .fourBlocks [.post [writeOne], .complete, .advance 1,
        .post [writeOne, writeOne]] = some final ∧
      Labelled SqWorld.step SqWorld.StandsFor .fourBlocks [.post [writeOne], .complete,
        .advance 1, .post [writeOne, writeOne]] labels ∧
      run fifoStep [] labels = some queued ∧ final.deviceReads = some queued := by
  have runs : (run SqWorld.step .fourBlocks [.post [writeOne], .complete, .advance 1,
      .post [writeOne, writeOne]]).isSome := by decide
  have one : writeOne.Encodable := ⟨by decide, by decide, by decide, by decide⟩
  have encodable : ∀ action ∈ [SqAction.post [writeOne], .complete, .advance 1,
      .post [writeOne, writeOne]], action.Encodable := by
    simp [SqAction.Encodable, one]
  obtain ⟨final, ran⟩ := Option.isSome_iff_exists.mp runs
  obtain ⟨labels, queued, refines⟩ :=
    cdmaUPostJfsWr_refines_fifo SqWorld.fourBlocks_initial encodable ran
  exact ⟨final, labels, queued, ran, refines⟩

end Libcdma
