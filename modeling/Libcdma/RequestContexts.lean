/-
Where the contexts of requests are kept while they are outstanding.

Posting writes a request's context into the slot of each of its blocks, and
polling reads the slot that a completion entry names.  A request is safe as long
as the consumer index has not reached it: posting then leaves its slots alone,
and the sixteen bits of an entry are enough to find its blocks.
-/

import Libcdma.CompletionWorld
import Libcdma.SendRing

namespace Libcdma

open WrapCounter

/-- Every block of the request has the request's context in its slot. -/
def CdmaUJettyQueue.Holds (sq : CdmaUJettyQueue) (request : SqRequest) : Prop :=
  ∀ offset, offset < request.blocks →
    sq.wrid (counter (request.first + offset) &&& sq.baseblkMask) = request.wr.userCtx

theorem setWrid_inside (sq : CdmaUJettyQueue) (userCtx : UInt64) {count offset : Nat}
    (inside : offset < count) :
    (sq.setWrid userCtx count).wrid ((sq.pi + counter offset) &&& sq.baseblkMask) = userCtx := by
  induction count with
  | zero => omega
  | succ count ih =>
      rw [CdmaUJettyQueue.setWrid, setWrid_frame]
      change Function.update (sq.setWrid userCtx count).wrid
        ((sq.pi + counter count) &&& sq.baseblkMask) userCtx _ = _
      by_cases same : (sq.pi + counter offset) &&& sq.baseblkMask =
          (sq.pi + counter count) &&& sq.baseblkMask
      · rw [same, Function.update_self]
      · rw [Function.update_of_ne same]
        apply ih
        have different : offset ≠ count := fun equal => same (by rw [equal])
        omega

theorem setWrid_outside (sq : CdmaUJettyQueue) (userCtx : UInt64) {count : Nat} {slot : UInt32}
    (outside : ∀ offset, offset < count → slot ≠ (sq.pi + counter offset) &&& sq.baseblkMask) :
    (sq.setWrid userCtx count).wrid slot = sq.wrid slot := by
  induction count with
  | zero => rfl
  | succ count ih =>
      rw [CdmaUJettyQueue.setWrid, setWrid_frame]
      change Function.update (sq.setWrid userCtx count).wrid
        ((sq.pi + counter count) &&& sq.baseblkMask) userCtx _ = _
      rw [Function.update_of_ne (outside count (Nat.lt_succ_self count))]
      exact ih (fun offset less => outside offset (Nat.lt_succ_of_lt less))

section Accepting

variable {locals : PostLocals} {shift ci pi : Nat} {request : SqRequest}

theorem PostLocals.accept_wrid (ctx : CdmaUContext) (locals : PostLocals) (shift : Nat)
    (request : SqRequest) :
    (locals.accept ctx shift request).sq.wrid =
        (locals.sq.setWrid request.wr.userCtx request.blocks).wrid ∧
      (locals.accept ctx shift request).sq.baseblkMask = locals.sq.baseblkMask := by
  unfold PostLocals.accept
  rw [setWrid_frame]
  exact ⟨rfl, rfl⟩

theorem accept_holds (ring : SqAt shift locals.sq ci pi) (ctx : CdmaUContext)
    (starts : request.first = pi) : (locals.accept ctx shift request).sq.Holds request := by
  obtain ⟨wrid, mask⟩ := locals.accept_wrid ctx shift request
  intro offset inside
  rw [wrid, mask, starts, ← counter_add, ← ring.pi_eq]
  exact setWrid_inside _ _ inside

theorem accept_holds_older (ring : SqAt shift locals.sq ci pi) (ctx : CdmaUContext)
    (room : pi + request.blocks ≤ ci + 2 ^ shift) {older : SqRequest}
    (after : ci ≤ older.first) (before : older.next ≤ pi) (held : locals.sq.Holds older) :
    (locals.accept ctx shift request).sq.Holds older := by
  obtain ⟨wrid, mask⟩ := locals.accept_wrid ctx shift request
  unfold SqRequest.next at before
  intro offset inside
  rw [wrid, mask, ← held offset inside]
  apply setWrid_outside
  intro other new
  rw [ring.pi_eq, counter_add, Ne, ring.geometry.slot_eq_iff]
  intro same
  have := mod_eq_of_near ci (by omega) (by omega) (by omega) (by omega) same
  omega

end Accepting

theorem Chain.next_le {first pi : Nat} {requests : List SqRequest}
    (chain : Chain first requests pi) {early late : Nat} {before after : SqRequest}
    (ordered : early < late) (isBefore : requests[early]? = some before)
    (isAfter : requests[late]? = some after) : before.next ≤ after.first := by
  induction requests generalizing first early late with
  | nil => cases isBefore
  | cons head rest ih =>
      obtain ⟨late, rfl⟩ : ∃ below, late = below + 1 := ⟨late - 1, by omega⟩
      rw [List.getElem?_cons_succ] at isAfter
      cases early with
      | zero =>
          cases isBefore
          exact (chain.2.mem_bounds (List.mem_of_getElem? isAfter)).1
      | succ early =>
          rw [List.getElem?_cons_succ] at isBefore
          exact ih chain.2 (by omega) isBefore isAfter

/-- All requests ever accepted, and those from a position on untouched: the
consumer index has not reached them and their contexts are in place. -/
structure Untouched (shift start ci polled : Nat) (sq : CdmaUJettyQueue) (pi : Nat)
    (requests : List SqRequest) : Prop where
  ring : SqAt shift sq ci pi
  chain : Chain start requests pi
  ahead : ∀ index request, polled ≤ index → requests[index]? = some request →
    ci ≤ request.first ∧ sq.Holds request

namespace Untouched

variable {shift start ci polled pi : Nat} {sq : CdmaUJettyQueue} {requests : List SqRequest}

theorem accept {locals : PostLocals}
    (untouched : Untouched shift start ci polled locals.sq pi requests) (ctx : CdmaUContext)
    {wr : DmaJfsWr} {request : SqRequest} (found : requestOf locals wr pi = some request)
    (room : pi + request.blocks ≤ ci + 2 ^ shift) :
    Untouched shift start ci polled (locals.accept ctx shift request).sq request.next
      (requests ++ [request]) := by
  obtain ⟨_, starts, _, _⟩ := requestOf_eq_some found
  have ring := untouched.ring
  refine ⟨ring.accept ctx starts room, untouched.chain.snoc starts,
    fun index other later here => ?_⟩
  rcases Nat.lt_trichotomy index requests.length with older | newest | beyond
  · rw [List.getElem?_append_left older] at here
    obtain ⟨after, held⟩ := untouched.ahead index other later here
    have bounds := untouched.chain.mem_bounds (List.mem_of_getElem? here)
    exact ⟨after, accept_holds_older ring ctx room after bounds.2 held⟩
  · subst newest
    rw [List.getElem?_concat_length] at here
    cases here
    exact ⟨starts ▸ ring.ordered, accept_holds ring ctx starts⟩
  · rw [List.getElem?_eq_none (by simp; omega)] at here
    cases here

theorem post (untouched : Untouched shift start ci polled sq pi requests) (ctx : CdmaUContext)
    (memory : ByteImage.Bytes) (wrs : List DmaJfsWr) :
    Untouched shift start ci polled (cdmaPostSqWr ctx memory sq wrs).sq
      (pi + blockSum (postedRequests ctx wrs pi ⟨memory, sq, none, false⟩))
      (requests ++ postedRequests ctx wrs pi ⟨memory, sq, none, false⟩) := by
  rw [cdmaPostSqWr_sq]
  exact postSqWrLoop_keeps ctx
    (fun locals _ pi requests => Untouched shift start ci polled locals.sq pi requests)
    (fun untouched => untouched.ring) (fun _ untouched => untouched)
    (fun untouched checked room => untouched.accept ctx (requestChecked_eq_some checked).2.2 room)
    wrs untouched

/-- Polling moves the consumer index into, or just past, a request that was still
ahead of it. -/
theorem consume (untouched : Untouched shift start ci polled sq pi requests) {index : Nat}
    {request : SqRequest} (later : polled ≤ index) (here : requests[index]? = some request)
    {reached : Nat} (after : request.first ≤ reached) (within : reached ≤ request.next) :
    Untouched shift start reached (index + 1) { sq with ci := counter reached } pi requests := by
  have room := untouched.ring.room
  have behind := (untouched.ahead index request later here).1
  have bounds := untouched.chain.mem_bounds (List.mem_of_getElem? here)
  refine ⟨untouched.ring.setCi (by omega) (by omega), untouched.chain,
    fun other next beyond isNext => ?_⟩
  have ordered := untouched.chain.next_le beyond here isNext
  exact ⟨by omega, (untouched.ahead other next (by omega) isNext).2⟩

theorem flag (untouched : Untouched shift start ci polled sq pi requests) (flag : Bool) :
    Untouched shift start ci polled { sq with flushFlag := flag } pi requests := by
  have ring := untouched.ring
  have geometry := ring.geometry
  exact ⟨⟨⟨geometry.cnt_eq, geometry.mask_eq, geometry.shift_eq, geometry.size_eq,
    geometry.small⟩, ring.ci_eq, ring.pi_eq, ring.ordered, ring.room, ring.curr_eq⟩,
    untouched.chain, untouched.ahead⟩

end Untouched

/-! ### What an entry does to the send queue -/

/-- Sixteen bits of a block's index are enough to find the block, in a ring of at
most that many blocks. -/
theorem completionIndex_of_mask {q : CdmaUJettyQueue} {shift ci block : Nat}
    (mask : q.baseblkMask = counter (2 ^ shift - 1)) (ci_eq : q.ci = counter ci)
    (small : shift ≤ 16) (after : ci ≤ block) (near : block < ci + 2 ^ shift)
    {cqe : CdmaUJfcCqe} (named : cqe.entryIdx = (counter block).toUInt16) :
    completionIndex q cqe = counter block := by
  have cnt := Nat.pow_le_pow_right Nat.two_pos small
  have low : cqe.entryIdx.toUInt32.toNat % 2 ^ shift = block % 2 ^ shift := by
    rw [named, UInt16.toNat_toUInt32, UInt32.toNat_toUInt16, toNat_counter,
      mod_word_mod_pow (by decide), Nat.mod_mod_of_dvd _ (Nat.pow_dvd_pow 2 small)]
  have offset : (cqe.entryIdx.toUInt32 - q.ci) &&& q.baseblkMask = counter (block - ci) := by
    rw [mask, ci_eq, ← UInt32.toNat_inj, toNat_low_sub_and_mask (by omega) after low,
      toNat_counter_of_lt (by omega), Nat.mod_eq_of_lt (by omega)]
  unfold completionIndex
  rw [offset, ci_eq, counter_add]
  congr 1
  omega

theorem completionIndex_eq {q : CdmaUJettyQueue} {shift ci pi block : Nat}
    (ring : SqAt shift q ci pi) (small : shift ≤ 16) (after : ci ≤ block) (before : block < pi)
    {cqe : CdmaUJfcCqe} (named : cqe.entryIdx = (counter block).toUInt16) :
    completionIndex q cqe = counter block := by
  have room := ring.room
  exact completionIndex_of_mask ring.geometry.mask_counter ring.ci_eq small after (by omega) named

section Parsing

variable (memory : Memory) (cr : DmaCr) {cqe : CdmaUJfcCqe} {queue : UInt64}

/-- A flush-done entry, or one of another queue, leaves all but the flag alone. -/
theorem cdmaParseCqeForJfc_foreign (foreign : cqe.fd = true ∨ cqe.userData ≠ queue) :
    ∃ flag, (cdmaParseCqeForJfc memory cqe cr).memory.queue queue =
      { memory.queue queue with flushFlag := flag } := by
  unfold cdmaParseCqeForJfc cdmaUUpdateJettyIdx
  by_cases null : cqe.userData = 0
  · exact ⟨(memory.queue queue).flushFlag, by simp [null]⟩
  rcases foreign with fd | other
  · simp only [null, fd, if_true, if_false, cdmaUUpdateFlushCr]
    cases cdmaGetCrStatus cqe.status cqe.substatus with
    | none => exact ⟨(memory.queue queue).flushFlag, rfl⟩
    | some status =>
        by_cases own : queue = cqe.userData
        · exact ⟨true, by simp [own]⟩
        · exact ⟨(memory.queue queue).flushFlag, by simp [Function.update_of_ne own]⟩
  · refine ⟨(memory.queue queue).flushFlag, ?_⟩
    have elsewhere : queue ≠ cqe.userData := fun same => other same.symm
    cases fd : cqe.fd <;> cases status : cdmaGetCrStatus cqe.status cqe.substatus <;>
      simp [null, fd, status, cdmaUUpdateFlushCr, Function.update_of_ne elsewhere]

/-- An entry of the queue itself moves the consumer index to the block it names,
and one further when its status is known. -/
theorem cdmaParseCqeForJfc_own (plain : cqe.fd = false) (own : cqe.userData = queue)
    (some : queue ≠ 0) :
    (cdmaParseCqeForJfc memory cqe cr).memory.queue queue =
      { memory.queue queue with
        ci := completionIndex (memory.queue queue) cqe + if cqe.good then 1 else 0 } := by
  unfold CdmaUJfcCqe.good CdmaUJfcCqe.invalid cdmaParseCqeForJfc cdmaUUpdateJettyIdx
  cases status : cdmaGetCrStatus cqe.status cqe.substatus <;>
    simp [plain, own, some, status, cdmaUUpdateFlushCr, completionIndex]

theorem cdmaParseCqeForJfc_null (null : cqe.userData = 0) :
    (cdmaParseCqeForJfc memory cqe cr).memory = memory := by
  simp [cdmaParseCqeForJfc, cdmaUUpdateJettyIdx, null]

end Parsing

end Libcdma
