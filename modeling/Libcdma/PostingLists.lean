/-
A list posted in one call against the same requests posted one per call.

The two differ in what the direct path stamps, and stamping can happen to the
first request of the list only, when it finds the ring empty.  Everything else
agrees, unless that request is stamped and a later one is accepted whose operand is
read from the stamped field itself.  The requests and their segment arrays are
values here: the caller keeps them outside the ring.
-/

import Libcdma.DirectPath

namespace Libcdma

open WrapCounter ByteImage BlockRing

/-- The list, one request per call, up to the first refusal, which is reported
with its position. -/
def postOneByOne (ctx : CdmaUContext) :
    List DmaJfsWr → Nat → Bytes → CdmaUJettyQueue →
      Bytes × CdmaUJettyQueue × Option (Errno × Nat)
  | [], _, memory, sq => (memory, sq, none)
  | wr :: rest, position, memory, sq =>
      let result := cdmaPostSqWr ctx memory sq [wr]
      match result.error with
      | some (err, _) => (result.memory, result.sq, some (err, position))
      | none => postOneByOne ctx rest (position + 1) result.memory result.sq

/-- Two memories agree except perhaps on the index field of a block. -/
def SameOff (field : Nat) (left right : Bytes) : Prop :=
  ∀ address, address < field ∨ field + 2 ≤ address → left address = right address

/-- The operands of a request that lie outside the request are not read from the
index field of a block. -/
def DmaJfsWr.ReadsOutside (field : Nat) (wr : DmaJfsWr) : Prop :=
  wr.opcode = .cas → wr.cas.src.len = cdmaAtomicLen16 →
    (wr.cas.swapData.toNat + 16 ≤ field ∨ field + 2 ≤ wr.cas.swapData.toNat) ∧
    (wr.cas.cmpData.toNat + 16 ≤ field ∨ field + 2 ≤ wr.cas.cmpData.toNat)

section Agreement

variable {field : Nat} {left right : Bytes}

theorem SameOff.copy (same : SameOff field left right) (dest size : Nat) (source : Bytes) :
    SameOff field (copy left dest source size) (copy right dest source size) := by
  intro address outside
  unfold ByteImage.copy
  rw [same address outside]

theorem SameOff.ringCopy (same : SameOff field left right) (base slot tail head : Nat)
    (source : Bytes) :
    SameOff field (ringCopy base 64 left slot source tail head)
      (ringCopy base 64 right slot source tail head) :=
  (same.copy _ _ _).copy _ _ _

theorem SameOff.store_right (same : SameOff field left right) (value : Nat) :
    SameOff field left (store right field (leBytes 2 value)) := by
  intro address outside
  unfold store
  rw [copy_outside right _ (by rw [leBytes_length]; exact outside)]
  exact same address outside

theorem SameOff.symm (same : SameOff field left right) : SameOff field right left :=
  fun address outside => (same address outside).symm

theorem atomicOperand_same (same : SameOff field left right) {word : UInt64} {len : UInt32}
    (long : len = 4 ∨ len = 8 ∨ len = 16)
    (outside : len = 16 → word.toNat + 16 ≤ field ∨ field + 2 ≤ word.toNat) :
    atomicOperand left word len = atomicOperand right word len := by
  unfold atomicOperand
  rcases long with rfl | rfl | rfl
  · rfl
  · rfl
  · rw [if_neg (by decide), if_neg (by decide)]
    apply load_congr
    intro offset within
    have apart := outside rfl
    change offset < 16 at within
    exact same _ (by omega)

/-- Encoding reads memory for the operands only. -/
theorem cdmaSetSqe_same (same : SameOff field left right) {wr : DmaJfsWr}
    (reads : wr.ReadsOutside field) (tmp : TmpSq) (sq : CdmaUJettyQueue) (opcode : CdmaJfsOpcode) :
    cdmaSetSqe left tmp sq wr opcode = cdmaSetSqe right tmp sq wr opcode := by
  unfold cdmaSetSqe cdmaFillNormalSge
  cases isOpcode : wr.opcode with
  | cas =>
      unfold cdmaUFillCasSqe
      simp only [isOpcode]
      cases checked : cdmaCheckAtomicLen wr.cas.src.len .cas with
      | false => rfl
      | true =>
          have long := cdmaCheckAtomicLen_cas.mp checked
          have outside := reads isOpcode
          rw [atomicOperand_same same long fun sixteen => (outside sixteen).1,
            atomicOperand_same same long fun sixteen => (outside sixteen).2]
  | fadd =>
      unfold cdmaUFillFaaSqe
      simp only [isOpcode]
      cases checked : cdmaCheckAtomicLen wr.faa.src.len .fadd with
      | false => rfl
      | true =>
          have long := cdmaCheckAtomicLen_fadd.mp checked
          have short : wr.faa.src.len = 16 → False := by
            rcases long with four | eight
            · rw [four]
              decide
            · rw [eight]
              decide
          rw [atomicOperand_same same (long.imp id .inl) fun sixteen => (short sixteen).elim]
  | write => rfl
  | writeNotify => rfl
  | read => rfl
  | swap => rfl
  | last => rfl
  | unlisted => rfl

theorem requestChecked_same (same : SameOff field left right) {wr : DmaJfsWr}
    (reads : wr.ReadsOutside field) (locals : PostLocals) (from_left : locals.memory = left)
    (dwqeAddr : Option Nat) (dwqeEnable : Bool) (pi : Nat) :
    requestChecked ⟨right, locals.sq, dwqeAddr, dwqeEnable⟩ wr pi =
      requestChecked locals wr pi := by
  subst from_left
  unfold requestChecked requestOf
  simp only [cdmaSetSqe_same same reads]

/-- What memory holds decides neither whether a request is refused nor its control
structure. -/
theorem cdmaSetSqe_ctl (left right : Bytes) (tmp : TmpSq) (sq : CdmaUJettyQueue) (wr : DmaJfsWr)
    (opcode : CdmaJfsOpcode) :
    (cdmaSetSqe left tmp sq wr opcode).map TmpSq.ctl =
      (cdmaSetSqe right tmp sq wr opcode).map TmpSq.ctl := by
  unfold cdmaSetSqe cdmaFillNormalSge
  cases isOpcode : wr.opcode with
  | cas =>
      unfold cdmaUFillCasSqe
      simp only [isOpcode]
      cases cdmaCheckAtomicLen wr.cas.src.len .cas <;> rfl
  | fadd =>
      unfold cdmaUFillFaaSqe
      simp only [isOpcode]
      cases cdmaCheckAtomicLen wr.faa.src.len .fadd <;> rfl
  | write => rfl
  | writeNotify => rfl
  | read => rfl
  | swap => rfl
  | last => rfl
  | unlisted => rfl

theorem requestChecked_blocks (locals : PostLocals) (memory : Bytes) (wr : DmaJfsWr)
    (dwqeAddr : Option Nat) (dwqeEnable : Bool) (pi : Nat) :
    (requestChecked ⟨memory, locals.sq, dwqeAddr, dwqeEnable⟩ wr pi).map SqRequest.blocks =
      (requestChecked locals wr pi).map SqRequest.blocks := by
  have ctl := cdmaSetSqe_ctl memory locals.memory .zeroed locals.sq wr (cdmaParseJfsOpcode wr.opcode)
  unfold requestChecked requestOf
  by_cases invalid : cdmaParseJfsOpcode wr.opcode = .invalid
  · rw [if_pos invalid, if_pos invalid]
  rw [if_neg invalid, if_neg invalid]
  by_cases many : cdmaCheckSgeNum (cdmaParseJfsOpcode wr.opcode) locals.sq wr = true
  · rw [if_pos many, if_pos many]
  rw [if_neg many, if_neg many]
  cases here : cdmaSetSqe locals.memory .zeroed locals.sq wr (cdmaParseJfsOpcode wr.opcode) with
  | error err =>
      rw [here] at ctl
      cases there : cdmaSetSqe memory .zeroed locals.sq wr (cdmaParseJfsOpcode wr.opcode) with
      | error _ => rfl
      | ok tmp =>
          rw [there] at ctl
          cases ctl
  | ok tmp =>
      rw [here] at ctl
      cases there : cdmaSetSqe memory .zeroed locals.sq wr (cdmaParseJfsOpcode wr.opcode) with
      | error err =>
          rw [there] at ctl
          cases ctl
      | ok other =>
          rw [there] at ctl
          have same : other.ctl = tmp.ctl := Except.ok.inj ctl
          simp only [Option.map_some, SqRequest.blocks, same]

end Agreement

/-! ### One request per call -/

section OneCall

variable {shift ci pi : Nat} {sq : CdmaUJettyQueue} {memory : Bytes} {wr : DmaJfsWr}

theorem cdmaPostSqWr_refused {ctx : CdmaUContext} {locals : PostLocals} {err : Errno}
    (refused : cdmaPostOneWr ctx ⟨memory, sq, none, false⟩ wr = (locals, some err)) :
    cdmaPostSqWr ctx memory sq [wr] = ⟨locals.memory, locals.sq, some (err, 0), none⟩ := by
  unfold cdmaPostSqWr postSqWrLoop
  rw [refused]
  rfl

/-- The direct path stamps only a request that found the queue empty. -/
theorem cdmaPostSqWr_accepted (ring : SqAt shift sq ci pi) (ctx : CdmaUContext)
    {request : SqRequest}
    (checked : requestChecked ⟨memory, sq, none, false⟩ wr pi = some request)
    (room : pi + request.blocks ≤ ci + 2 ^ shift) :
    (cdmaPostSqWr ctx memory sq [wr]).error = none ∧
    (cdmaPostSqWr ctx memory sq [wr]).sq =
      (PostLocals.accept ctx ⟨memory, sq, none, false⟩ shift request).sq ∧
    ((cdmaPostSqWr ctx memory sq [wr]).memory =
        (PostLocals.accept ctx ⟨memory, sq, none, false⟩ shift request).memory ∨
      (pi = ci ∧ ∃ block, (cdmaPostSqWr ctx memory sq [wr]).announce = some (.dsqe block)) ∧
      ∃ value, (cdmaPostSqWr ctx memory sq [wr]).memory =
        store (PostLocals.accept ctx ⟨memory, sq, none, false⟩ shift request).memory sq.qbufCurr
          (leBytes 2 value)) := by
  obtain ⟨_, starts, _, _⟩ := requestOf_eq_some (requestChecked_eq_some checked).2.2
  have locals : SqAt shift (PostLocals.mk memory sq none false).sq ci pi := ring
  have posted := cdmaPostOneWr_accepted locals ctx checked room
  have after : SqAt shift _ ci request.next := locals.accept ctx starts room
  have place : (PostLocals.accept ctx ⟨memory, sq, none, false⟩ shift request).dwqeAddr =
      some sq.qbufCurr := by
    rw [ring.curr_eq, ← starts]
    rfl
  unfold cdmaPostSqWr postSqWrLoop
  rw [posted]
  generalize PostLocals.accept ctx ⟨memory, sq, none, false⟩ shift request = accepted
    at after place ⊢
  simp only [postSqWrLoop, place]
  cases direct : 0 + 1 == 1 && accepted.dwqeEnable && accepted.sq.pi - accepted.sq.ci == 1 with
  | false => exact ⟨rfl, rfl, .inl rfl⟩
  | true =>
      simp only [Bool.and_eq_true, beq_iff_eq] at direct
      have small := after.geometry.cnt_le
      have bounds := request.blocks_bounds
      have ordered := ring.ordered
      have apart := congrArg UInt32.toNat direct.2
      unfold SqRequest.next at after
      rw [after.pi_eq, after.ci_eq, toNat_counter_sub (by omega) (by omega)] at apart
      change request.first + request.blocks - ci = 1 at apart
      exact ⟨rfl, rfl, .inr ⟨⟨by omega, _, rfl⟩, _, rfl⟩⟩

end OneCall

theorem postSqWrLoop_le (ctx : CdmaUContext) (wrs : List DmaJfsWr) (wrCnt : Nat)
    (locals : PostLocals) : wrCnt ≤ (postSqWrLoop ctx wrs wrCnt locals).2.1 := by
  induction wrs generalizing wrCnt locals with
  | nil => exact le_rfl
  | cons wr rest ih =>
      rw [postSqWrLoop]
      obtain ⟨after, error⟩ := cdmaPostOneWr ctx locals wr
      cases error with
      | some err => exact le_rfl
      | none => exact Nat.le_of_succ_le (ih (wrCnt + 1) after)

/-- The loop of one call and the calls one by one, once something is outstanding:
from memories that are the same, or that differ in a field which no request still
to be accepted reads. -/
theorem postSqWrLoop_oneByOne {shift ci field : Nat} (ctx : CdmaUContext) (wrs : List DmaJfsWr)
    {pi : Nat} {locals : PostLocals} {memory : Bytes} (ring : SqAt shift locals.sq ci pi)
    (later : ci < pi) (same : SameOff field locals.memory memory) {position accepted : Nat}
    (count : (postSqWrLoop ctx wrs position locals).2.1 = position + accepted)
    (agree : memory = locals.memory ∨ ∀ wr ∈ wrs.take accepted, wr.ReadsOutside field) :
    (postSqWrLoop ctx wrs position locals).1.sq =
        (postOneByOne ctx wrs position memory locals.sq).2.1 ∧
    SameOff field (postSqWrLoop ctx wrs position locals).1.memory
      (postOneByOne ctx wrs position memory locals.sq).1 ∧
    (postSqWrLoop ctx wrs position locals).2.2 =
      (postOneByOne ctx wrs position memory locals.sq).2.2 := by
  induction wrs generalizing pi locals memory position accepted with
  | nil => exact ⟨rfl, same, rfl⟩
  | cons wr rest ih =>
      have ring' : SqAt shift (PostLocals.mk memory locals.sq none false).sq ci pi := ring
      have listed := cdmaPostOneWr_eq ring ctx wr
      have alone := cdmaPostOneWr_eq ring' ctx wr
      have blocks := requestChecked_blocks locals memory wr none false pi
      unfold postSqWrLoop at count ⊢
      unfold postOneByOne
      cases checked : requestChecked locals wr pi with
      | none =>
          rw [checked, Option.map_none, Option.map_eq_none_iff] at blocks
          rw [checked] at listed
          rw [blocks] at alone
          simp only [listed, cdmaPostSqWr_refused alone]
          exact ⟨trivial, same, trivial⟩
      | some request =>
          rw [checked, Option.map_some, Option.map_eq_some_iff] at blocks
          obtain ⟨other, checkedAlone, blocks⟩ := blocks
          rw [checked] at listed
          rw [checkedAlone] at alone
          simp only at listed alone
          rw [blocks] at alone
          by_cases full : ci + 2 ^ shift < pi + request.blocks
          · rw [if_pos full] at listed alone
            simp only [listed, cdmaPostSqWr_refused alone]
            exact ⟨trivial, same, trivial⟩
          · have room := Nat.not_lt.mp full
            rw [if_neg full] at listed
            simp only [listed] at count ⊢
            obtain ⟨fewer, rfl⟩ : ∃ fewer, accepted = fewer + 1 := by
              have atLeast := postSqWrLoop_le ctx rest (position + 1) (locals.accept ctx shift request)
              exact ⟨accepted - 1, by omega⟩
            -- the same request comes of both memories, as this one is accepted
            have checks : requestChecked ⟨memory, locals.sq, none, false⟩ wr pi = some request := by
              rcases agree with rfl | reads
              · exact checked
              · have outside := reads wr List.mem_cons_self
                exact (requestChecked_same same outside locals rfl none false pi).trans checked
            obtain ⟨error, sq_eq, memory_eq⟩ := cdmaPostSqWr_accepted ring ctx checks room
            obtain ⟨_, starts, _, _⟩ := requestOf_eq_some (requestChecked_eq_some checked).2.2
            have bounds := request.blocks_bounds
            have plain : (cdmaPostSqWr ctx memory locals.sq [wr]).memory =
                (PostLocals.accept ctx ⟨memory, locals.sq, none, false⟩ shift request).memory := by
              rcases memory_eq with plain | ⟨⟨empty, _⟩, _⟩
              · exact plain
              · omega
            simp only [error, sq_eq, plain]
            refine ih (ring.accept ctx starts room) ?_ (same.ringCopy _ _ _ _ _)
              (count.trans (Nat.add_right_comm position fewer 1)) ?_
            · unfold SqRequest.next
              omega
            · rcases agree with rfl | reads
              · exact .inl rfl
              · exact .inr fun wr member => reads wr (List.mem_cons_of_mem _ member)

theorem postOneByOne_leading {shift ci : Nat} (ctx : CdmaUContext) (wrs : List DmaJfsWr) {pi : Nat}
    {memory : Bytes} {sq : CdmaUJettyQueue} (ring : SqAt shift sq ci pi) (position : Nat)
    {err : Errno} {refused : Nat}
    (stopped : (postOneByOne ctx wrs position memory sq).2.2 = some (err, refused)) :
    ∃ accepted, refused = position + accepted ∧ accepted < wrs.length ∧
      postOneByOne ctx (wrs.take accepted) position memory sq =
        ((postOneByOne ctx wrs position memory sq).1,
          (postOneByOne ctx wrs position memory sq).2.1, none) := by
  induction wrs generalizing pi memory sq position with
  | nil => cases stopped
  | cons wr rest ih =>
      have locals : SqAt shift (PostLocals.mk memory sq none false).sq ci pi := ring
      rw [postOneByOne] at stopped ⊢
      rcases cdmaPostOneWr_cases locals ctx wr with
        ⟨err, dwqeEnable, posted⟩ | ⟨request, checked, room, _⟩
      · simp only [cdmaPostSqWr_refused posted] at stopped ⊢
        cases stopped
        exact ⟨0, rfl, Nat.succ_pos _, rfl⟩
      · obtain ⟨error, sq_eq, _⟩ := cdmaPostSqWr_accepted ring ctx checked room
        obtain ⟨_, starts, _, _⟩ := requestOf_eq_some (requestChecked_eq_some checked).2.2
        have after : SqAt shift (cdmaPostSqWr ctx memory sq [wr]).sq ci request.next := by
          rw [sq_eq]
          exact locals.accept ctx starts room
        simp only [error] at stopped ⊢
        obtain ⟨accepted, refused_eq, within, before⟩ := ih after (position + 1) stopped
        refine ⟨accepted + 1, by omega, Nat.succ_lt_succ within, ?_⟩
        rw [List.take_succ_cons, postOneByOne]
        simp only [error]
        exact before

def PostResult.accepted (result : PostResult) (wrs : List DmaJfsWr) : Nat :=
  match result.error with
  | none => wrs.length
  | some (_, refused) => refused

theorem postSqWrLoop_count (ctx : CdmaUContext) (wrs : List DmaJfsWr) (wrCnt : Nat)
    (locals : PostLocals) :
    (postSqWrLoop ctx wrs wrCnt locals).2.1 =
      match (postSqWrLoop ctx wrs wrCnt locals).2.2 with
      | none => wrCnt + wrs.length
      | some (_, refused) => refused := by
  induction wrs generalizing wrCnt locals with
  | nil => rfl
  | cons wr rest ih =>
      rw [postSqWrLoop]
      obtain ⟨after, error⟩ := cdmaPostOneWr ctx locals wr
      cases error with
      | some err => rfl
      | none =>
          have later := ih (wrCnt + 1) after
          simp only
          rw [later, List.length_cons]
          cases (postSqWrLoop ctx rest (wrCnt + 1) after).2.2 with
          | none => exact Nat.add_right_comm _ _ _
          | some stopped => rfl

theorem cdmaPostSqWr_announce_isSome (ctx : CdmaUContext) (memory : Bytes) (sq : CdmaUJettyQueue)
    (wrs : List DmaJfsWr) :
    (cdmaPostSqWr ctx memory sq wrs).announce.isSome ↔
      (cdmaPostSqWr ctx memory sq wrs).accepted wrs ≠ 0 := by
  have count := postSqWrLoop_count ctx wrs 0 ⟨memory, sq, none, false⟩
  rw [← cdmaPostSqWr_error, Nat.zero_add] at count
  unfold PostResult.accepted
  rw [← count]
  unfold cdmaPostSqWr
  simp only
  by_cases none : (postSqWrLoop ctx wrs 0 ⟨memory, sq, Option.none, false⟩).2.1 = 0
  · rw [if_pos none]
    simp [none]
  · rw [if_neg none]
    split
    · simp [none]
    · simp [none]

theorem SqAt.of_words {sq : CdmaUJettyQueue} {shift : Nat} (geometry : SqGeometry sq shift)
    (room : sq.pi - sq.ci ≤ sq.baseblkCnt)
    (curr : sq.qbufCurr = sq.qbuf + sq.pi.toNat % sq.baseblkCnt.toNat * 64) :
    SqAt shift sq sq.ci.toNat (sq.ci.toNat + (sq.pi - sq.ci).toNat) := by
  have pi_eq : sq.pi = counter (sq.ci.toNat + (sq.pi - sq.ci).toNat) := by
    rw [← counter_add, counter_toNat, counter_toNat]
    grind
  rw [UInt32.le_iff_toNat_le, geometry.cnt_toNat] at room
  refine ⟨geometry, (counter_toNat _).symm, pi_eq, Nat.le_add_right _ _, by omega, ?_⟩
  have small := geometry.small
  have value := congrArg UInt32.toNat pi_eq
  rw [toNat_counter] at value
  rw [curr, geometry.cnt_toNat, value, mod_word_mod_pow (by omega)]

theorem SendRing.empty {shift ci pi : Nat} {sq : CdmaUJettyQueue} (ring : SqAt shift sq ci pi)
    (memory : Bytes) : SendRing shift sq memory ci pi pi [] := by
  refine ⟨ring, rfl, ring.ordered, ?_, fun _ member => absurd member List.not_mem_nil⟩
  rw [Nat.sub_self]
  rfl

theorem cdmaPostSqWr_memory {shift ci pi : Nat} {sq : CdmaUJettyQueue} (ring : SqAt shift sq ci pi)
    (ctx : CdmaUContext) (memory : Bytes) (wrs : List DmaJfsWr) :
    SameOff sq.qbufCurr (cdmaPostSqWr ctx memory sq wrs).memory
      (postSqWrLoop ctx wrs 0 ⟨memory, sq, none, false⟩).1.memory := by
  have done := (SendRing.empty ring memory).posting ctx wrs
  unfold cdmaPostSqWr
  generalize postSqWrLoop ctx wrs 0 ⟨memory, sq, none, false⟩ = loop at done ⊢
  generalize postedRequests ctx wrs pi ⟨memory, sq, none, false⟩ = posted at done ⊢
  obtain ⟨after, count, error⟩ := loop
  simp only at done ⊢
  by_cases none : count = 0
  · rw [if_pos none]
    exact fun _ _ => rfl
  rw [if_neg none]
  cases direct : count == 1 && after.dwqeEnable && after.sq.pi - after.sq.ci == 1 with
  | false => exact fun _ _ => rfl
  | true =>
      simp only [Bool.and_eq_true, beq_iff_eq] at direct
      obtain ⟨⟨rfl, _⟩, _⟩ := direct
      obtain ⟨request, rfl, _, place⟩ := done.single
      have starts : request.first = pi := done.inv.chain.1
      rw [place, starts, ← ring.curr_eq]
      exact SameOff.symm (SameOff.store_right (fun _ _ => rfl) _)

/-- Posted alone, the first request of the list goes by the direct path, which stamps
its block. -/
def StampsFirst (ctx : CdmaUContext) (memory : Bytes) (sq : CdmaUJettyQueue)
    (wrs : List DmaJfsWr) : Prop :=
  ∃ first rest block, wrs = first :: rest ∧
    (cdmaPostSqWr ctx memory sq [first]).announce = some (.dsqe block)

/-- The whole call and the calls one by one, when no later request that is accepted
reads what posting the first one alone would stamp. -/
theorem cdmaPostSqWr_oneByOne {shift ci pi : Nat} {sq : CdmaUJettyQueue}
    (ring : SqAt shift sq ci pi) (ctx : CdmaUContext) (memory : Bytes) {wrs : List DmaJfsWr}
    (reads : StampsFirst ctx memory sq wrs →
      ∀ wr ∈ (wrs.take ((cdmaPostSqWr ctx memory sq wrs).accepted wrs)).tail,
        wr.ReadsOutside sq.qbufCurr) :
    (postSqWrLoop ctx wrs 0 ⟨memory, sq, none, false⟩).1.sq =
        (postOneByOne ctx wrs 0 memory sq).2.1 ∧
    SameOff sq.qbufCurr (postSqWrLoop ctx wrs 0 ⟨memory, sq, none, false⟩).1.memory
      (postOneByOne ctx wrs 0 memory sq).1 ∧
    (postSqWrLoop ctx wrs 0 ⟨memory, sq, none, false⟩).2.2 =
      (postOneByOne ctx wrs 0 memory sq).2.2 := by
  have count := postSqWrLoop_count ctx wrs 0 ⟨memory, sq, none, false⟩
  rw [← cdmaPostSqWr_error, Nat.zero_add] at count
  change _ = (cdmaPostSqWr ctx memory sq wrs).accepted wrs at count
  rw [← count] at reads
  clear count
  cases wrs with
  | nil => exact ⟨rfl, fun _ _ => rfl, rfl⟩
  | cons first rest =>
      have locals : SqAt shift (PostLocals.mk memory sq none false).sq ci pi := ring
      unfold postSqWrLoop at reads ⊢
      unfold postOneByOne
      rcases cdmaPostOneWr_cases locals ctx first with
        ⟨err, dwqeEnable, posted⟩ | ⟨request, checked, room, posted⟩
      · simp only [posted, cdmaPostSqWr_refused posted]
        exact ⟨trivial, fun _ _ => rfl, trivial⟩
      · obtain ⟨_, starts, _, _⟩ := requestOf_eq_some (requestChecked_eq_some checked).2.2
        obtain ⟨error, sq_eq, memory_eq⟩ := cdmaPostSqWr_accepted ring ctx checked room
        have bounds := request.blocks_bounds
        have ordered := ring.ordered
        have atLeast := postSqWrLoop_le ctx rest 1
          (PostLocals.accept ctx ⟨memory, sq, none, false⟩ shift request)
        obtain ⟨fewer, count⟩ := Nat.exists_eq_add_of_le atLeast
        simp only [posted, Nat.zero_add, count] at reads
        rw [Nat.add_comm 1 fewer, List.take_succ_cons, List.tail_cons] at reads
        simp only [posted, error, sq_eq]
        refine postSqWrLoop_oneByOne ctx rest (ring.accept ctx starts room) ?_ ?_ count ?_
        · unfold SqRequest.next
          omega
        · rcases memory_eq with plain | ⟨_, value, stamped⟩
          · rw [plain]
            exact fun _ _ => rfl
          · rw [stamped]
            exact SameOff.store_right (fun _ _ => rfl) value
        · rcases memory_eq with plain | ⟨⟨_, block, direct⟩, _⟩
          · exact .inl plain
          · exact .inr (reads ⟨first, rest, block, rfl, direct⟩)

/-- Posting a list is posting its requests one by one up to the first refusal,
apart from what the direct path stamps into the block at the producer's position;
the refused request and the later ones leave no trace, and the device is told the
final producer index once, if a request was accepted. -/
theorem cdmaPostSqWr_leading {sq : CdmaUJettyQueue} {shift : Nat} (geometry : SqGeometry sq shift)
    (room : sq.pi - sq.ci ≤ sq.baseblkCnt)
    (curr : sq.qbufCurr = sq.qbuf + sq.pi.toNat % sq.baseblkCnt.toNat * 64) (ctx : CdmaUContext)
    (memory : Bytes) {wrs : List DmaJfsWr}
    (reads : StampsFirst ctx memory sq wrs →
      ∀ wr ∈ (wrs.take ((cdmaPostSqWr ctx memory sq wrs).accepted wrs)).tail,
        wr.ReadsOutside sq.qbufCurr) :
    let result := cdmaPostSqWr ctx memory sq wrs
    let single := postOneByOne ctx wrs 0 memory sq
    result.sq = single.2.1 ∧ SameOff sq.qbufCurr result.memory single.1 ∧
    result.error = single.2.2 ∧
    (∀ err refused, result.error = some (err, refused) → refused < wrs.length ∧
      postOneByOne ctx (wrs.take refused) 0 memory sq = (single.1, single.2.1, none)) ∧
    (result.accepted wrs = 0 → result.announce = none) ∧
    (result.accepted wrs ≠ 0 → ∃ announce, result.announce = some announce ∧
      announce.index % 2 ^ 16 = result.sq.pi.toNat % 2 ^ 16) := by
  have ring := SqAt.of_words geometry room curr
  have inv : SendRing shift sq memory _ _ _ [] := SendRing.empty ring memory
  obtain ⟨sq_eq, memory_eq, error_eq⟩ := cdmaPostSqWr_oneByOne ring ctx memory reads
  have announced := cdmaPostSqWr_announce_isSome ctx memory sq wrs
  have told := inv.announces ctx wrs
  intro result single
  have error : result.error = single.2.2 := (cdmaPostSqWr_error ..).trans error_eq
  refine ⟨(cdmaPostSqWr_sq ..).trans sq_eq, fun address outside => ?_, error, ?_, ?_, ?_⟩
  · exact (cdmaPostSqWr_memory ring ctx memory wrs address outside).trans
      (memory_eq address outside)
  · intro err refused stopped
    obtain ⟨accepted, refused_eq, within, before⟩ :=
      postOneByOne_leading ctx wrs ring 0 (error.symm.trans stopped)
    rw [Nat.zero_add] at refused_eq
    subst refused_eq
    exact ⟨within, before⟩
  · intro none
    by_contra some
    exact announced.mp (Option.isSome_iff_ne_none.mpr some) none
  · intro some
    obtain ⟨announce, isAnnounce⟩ := Option.isSome_iff_exists.mp (announced.mpr some)
    refine ⟨announce, isAnnounce, ?_⟩
    unfold PostResult.Announces at told
    rw [isAnnounce] at told
    cases announce with
    | db pi => exact congrArg (fun word => UInt32.toNat word % 2 ^ 16) told.2
    | dsqe block =>
        obtain ⟨_, _, _, _, _, stamp⟩ := told
        exact (congrArg (· % 2 ^ 16) stamp).trans (Nat.mod_mod _ _)

def CdmaUJettyQueue.fourBlocks : CdmaUJettyQueue :=
  { SqWorld.fourBlocks.sq with pi := 0, ci := 0, qbufCurr := 4096 }

def casWith (address : UInt64) : DmaJfsWr :=
  { writeOne with
    opcode := .cas
    cas :=
      { dst := segmentAt 131072, src := { segmentAt 65536 with len := 16 }, cmpData := address
        swapData := 0 } }

theorem CdmaUJettyQueue.fourBlocks_ring : SqAt 2 .fourBlocks 0 0 :=
  ⟨⟨rfl, rfl, rfl, rfl, by decide⟩, rfl, rfl, by decide, by decide, rfl⟩

theorem cdmaPostSqWr_leading_fourBlocks :
    (cdmaPostSqWr SqWorld.fourBlocks.ctx (fun _ => 0) .fourBlocks [writeOne, casWith 32]).sq =
        (postOneByOne SqWorld.fourBlocks.ctx [writeOne, casWith 32] 0 (fun _ => 0)
          .fourBlocks).2.1 := by
  have reads : ∀ wr ∈ [writeOne, casWith 32],
      wr.ReadsOutside CdmaUJettyQueue.fourBlocks.qbufCurr := by
    intro wr member
    rcases List.mem_cons.mp member with rfl | member
    · intro cas
      cases cas
    · cases List.mem_singleton.mp member
      exact fun _ _ => ⟨.inl (by decide), .inl (by decide)⟩
  exact (cdmaPostSqWr_leading CdmaUJettyQueue.fourBlocks_ring.geometry (by decide) rfl
    SqWorld.fourBlocks.ctx (fun _ => 0)
    fun _ wr member => reads wr (List.mem_of_mem_take (List.mem_of_mem_tail member))).1

/-- An operand read from the first block of the ring sees the stamp of the direct
path when the requests are posted one by one, and not when they are posted together. -/
theorem cdmaPostSqWr_reads_stamp :
    SqAt 2 CdmaUJettyQueue.fourBlocks 0 0 ∧
    (cdmaPostSqWr SqWorld.fourBlocks.ctx (fun _ => 0) .fourBlocks
      [writeOne, casWith 4096]).error = none ∧
    (cdmaPostSqWr SqWorld.fourBlocks.ctx (fun _ => 0) .fourBlocks
      [writeOne, casWith 4096]).memory 4240 = 0 ∧
    (postOneByOne SqWorld.fourBlocks.ctx [writeOne, casWith 4096] 0 (fun _ => 0)
      .fourBlocks).1 4240 = 1 :=
  ⟨CdmaUJettyQueue.fourBlocks_ring, rfl, rfl, rfl⟩

end Libcdma
