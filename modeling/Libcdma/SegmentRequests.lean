/-
Requests against the segments they were asked for.

A segment has a 64-bit length, a work request a 32-bit one.  The checks before a
request look at the wide length and the encoder at the narrow one, and what the
device reads from the ring is the narrow one.
-/

import Libcdma.Model.Cmd
import Libcdma.PostingLists
import Libcdma.SendQueueSize

namespace Libcdma

open WrapCounter ByteImage BlockRing

def SameAfterIndex (left right : List UInt8) : Prop :=
  ∀ start size, 2 ≤ start → slice left start size = slice right start size

section Index

variable {left right : List UInt8}

theorem SameAfterIndex.word32 (same : SameAfterIndex left right) {start : Nat}
    (after : 2 ≤ start) : word32 left start = word32 right start := by
  unfold Libcdma.word32
  rw [same start 4 after]

theorem SameAfterIndex.word64 (same : SameAfterIndex left right) {start : Nat}
    (after : 2 ≤ start) : word64 left start = word64 right start := by
  unfold Libcdma.word64
  rw [same start 8 after]

theorem SameAfterIndex.decodeSge (same : SameAfterIndex left right) {start : Nat}
    (after : 2 ≤ start) : decodeSge left start = decodeSge right start := by
  unfold Libcdma.decodeSge
  rw [same.word32 after, same.word32 (by omega), same.word64 (by omega)]

theorem SameAfterIndex.decodeSges (same : SameAfterIndex left right) {start : Nat}
    (after : 2 ≤ start) (count : Nat) :
    decodeSges left start count = decodeSges right start count := by
  apply List.map_congr_left
  intro index _
  exact same.decodeSge (by omega)

theorem SameAfterIndex.decodeBody (same : SameAfterIndex left right) (opcode count : Nat) :
    decodeBody opcode left count = decodeBody opcode right count := by
  have first : 2 ≤ 48 := by decide
  have sges (start : Nat) (after : 2 ≤ start) := same.decodeSges after
  have word (start : Nat) (after : 2 ≤ start) := same.word32 after
  have address (start : Nat) (after : 2 ≤ start) := same.word64 after
  unfold Libcdma.decodeBody decodeCas decodeFaa decodeNotify
  simp only [same.decodeSge first, sges 48 first, sges 80 (by decide), word 52 (by decide),
    address 56 (by decide), address 64 (by decide), same 48 4 first,
    same 64 (Libcdma.decodeSge right 48).length.toNat (by decide),
    same (64 + (Libcdma.decodeSge right 48).length.toNat)
      (Libcdma.decodeSge right 48).length.toNat (by omega)]

theorem bits_header (index rest : List UInt8) (two : index.length = 2) {start : Nat}
    (after : 16 ≤ start) (width : Nat) :
    bits (ofLe (slice (index ++ rest) 0 48)) start width =
      bits (ofLe (rest.take 46)) (start - 16) width := by
  have header : slice (index ++ rest) 0 48 = index ++ rest.take 46 := by
    unfold slice
    rw [List.drop_zero, List.take_append, two, List.take_of_length_le (by omega)]
  have small := ofLe_lt index
  rw [header, ofLe_append]
  rw [two] at small ⊢
  have index : ofLe index < 2 ^ 16 := small
  exact bits_above index after width

theorem decodeSqe_index {index other : List UInt8} (rest : List UInt8) (two : index.length = 2)
    (same_length : other.length = 2) : decodeSqe (index ++ rest) = decodeSqe (other ++ rest) := by
  have same : SameAfterIndex (index ++ rest) (other ++ rest) := by
    intro start size after
    rw [slice_append_after rest size (by omega), slice_append_after rest size (by omega), two,
      same_length]
  have field (start : Nat) (after : 16 ≤ start) (width : Nat) :
      bits (ofLe (slice (index ++ rest) 0 48)) start width =
        bits (ofLe (slice (other ++ rest) 0 48)) start width := by
    rw [bits_header index rest two after, bits_header other rest same_length after]
  unfold decodeSqe
  simp only [same.decodeBody, field 16 (by omega), field 18 (by omega), field 19 (by omega),
    field 20 (by omega), field 21 (by omega), field 28 (by omega), field 40 (by omega),
    field 64 (by omega), field 88 (by omega), field 96 (by omega), field 128 (by omega),
    field 256 (by omega), field 320 (by omega), field 352 (by omega)]

end Index

theorem SqRequest.decodeSqe_bytes (request : SqRequest) :
    decodeSqe request.bytes = decodeSqe request.encoding := by
  have bounds := request.blocks_bounds
  have length := request.encoding_length
  unfold SqRequest.bytes
  cases request.stamp with
  | none => rfl
  | some pi =>
      have front : (request.encoding.take 2).length = 2 := by
        rw [List.length_take]
        omega
      have read := decodeSqe_index (request.encoding.drop 2) (leBytes_length 2 pi.toNat) front
      rw [List.take_append_drop] at read
      exact read

def SqeBody.sges : SqeBody → List WqeSge
  | .write sges => sges
  | .writeNotify _ _ _ _ sges => sges
  | .read sges => sges
  | .cas sge _ _ => [sge]
  | .faa sge _ => [sge]

section Reading

variable {memory : Bytes} {sq : CdmaUJettyQueue} {wr : DmaJfsWr} {tmp : TmpSq}

theorem DmaJfsWr.body_sges {body : SqeBody} (found : wr.body memory = some body) :
    body.sges = wr.localSges.map DmaSge.view := by
  unfold DmaJfsWr.body at found
  unfold DmaJfsWr.localSges at found ⊢
  cases opcode : wr.opcode with
  | write =>
      simp only [opcode] at found
      cases found
      rfl
  | writeNotify =>
      simp only [opcode] at found
      cases found
      rfl
  | read =>
      simp only [opcode] at found
      cases found
      rfl
  | cas =>
      simp only [opcode] at found
      cases found
      rfl
  | fadd =>
      simp only [opcode] at found
      cases found
      rfl
  | swap => simp [opcode] at found
  | last => simp [opcode] at found
  | unlisted => simp [opcode] at found

theorem decodeBody_sges (valid : cdmaParseJfsOpcode wr.opcode ≠ .invalid)
    (built : cdmaSetSqe memory .zeroed sq wr (cdmaParseJfsOpcode wr.opcode) = .ok tmp)
    (few : wr.localSges.length ≤ 11) :
    ∃ body, decodeBody (cdmaParseJfsOpcode wr.opcode).value.toNat (blockBytes wr tmp)
        tmp.ctl.sgeNum.toNat = some body ∧ body.sges = wr.localSges.map DmaSge.view := by
  have asked {opcode : Nat}
      (same : decodeBody opcode (blockBytes wr tmp) tmp.ctl.sgeNum.toNat = wr.body memory)
      (some : (wr.body memory).isSome) :
      ∃ body, decodeBody opcode (blockBytes wr tmp) tmp.ctl.sgeNum.toNat = Option.some body ∧
        body.sges = wr.localSges.map DmaSge.view := by
    obtain ⟨body, found⟩ := Option.isSome_iff_exists.mp some
    exact ⟨body, same.trans found, DmaJfsWr.body_sges found⟩
  cases opcode : wr.opcode with
  | write =>
      rw [opcode] at built
      exact asked (decodeBody_write opcode built (by omega)) (by simp [DmaJfsWr.body, opcode])
  | writeNotify =>
      rw [opcode] at built
      have locals : wr.localSges = wr.rw.src.live := by rw [DmaJfsWr.localSges, opcode]
      rw [locals] at few ⊢
      exact ⟨_, rfl, decodeSges_notify opcode built few⟩
  | read =>
      rw [opcode] at built
      exact asked (decodeBody_read opcode built (by omega)) (by simp [DmaJfsWr.body, opcode])
  | cas =>
      rw [opcode] at built
      exact asked (decodeBody_cas opcode built) (by simp [DmaJfsWr.body, opcode])
  | fadd =>
      rw [opcode] at built
      exact asked (decodeBody_faa opcode built) (by simp [DmaJfsWr.body, opcode])
  | swap => exact absurd (by rw [opcode]; rfl) valid
  | last => exact absurd (by rw [opcode]; rfl) valid
  | unlisted => exact absurd (by rw [opcode]; rfl) valid

theorem decodeSqe_segments (valid : cdmaParseJfsOpcode wr.opcode ≠ .invalid)
    (built : cdmaSetSqe memory .zeroed sq wr (cdmaParseJfsOpcode wr.opcode) = .ok tmp)
    (few : wr.localSges.length ≤ 11) :
    ∃ view, decodeSqe (blockBytes wr tmp) = some view ∧ view.rmtAddr = wr.remote.addr ∧
      view.body.sges = wr.localSges.map DmaSge.view := by
  have bounds := wqebbCnt_bounds wr tmp.ctl
  have header : ofLe (slice (blockBytes wr tmp) 0 48) = pack tmp.ctl.fields :=
    tmp.slice_header (by omega)
  have ctlOf := ctlOf_cdmaSetSqe built
  obtain ⟨body, decoded, sges⟩ := decodeBody_sges valid built few
  obtain ⟨_, _, _, _, _, _, opcode, _, sgeNum, _, _, _, addrL, addrH⟩ := tmp.ctl.bits_fields
  unfold decodeSqe
  simp only [header, opcode, sgeNum, ctlOf.opcode, decoded, addrL, addrH, ctlOf.rmtAddrL,
    ctlOf.rmtAddrH, addr_halves, Option.map_some]
  exact ⟨_, rfl, rfl, sges⟩

/-- What one accepted request leaves at the producer's position. -/
theorem cdmaPostSqWr_places {shift ci pi : Nat} (ring : SqAt shift sq ci pi) (ctx : CdmaUContext)
    (done : (cdmaPostSqWr ctx memory sq [wr]).error = none) :
    ∃ request, requestChecked ⟨memory, sq, none, false⟩ wr pi = some request ∧
      ((cdmaPostSqWr ctx memory sq [wr]).sq.pi - sq.pi).toNat = request.blocks ∧
      decodeSqe (ringRead sq.qbuf 64 (2 ^ shift) (cdmaPostSqWr ctx memory sq [wr]).memory pi
        request.blocks) = decodeSqe request.encoding := by
  have locals : SqAt shift (PostLocals.mk memory sq none false).sq ci pi := ring
  rcases cdmaPostOneWr_cases locals ctx wr with
    ⟨err, dwqeEnable, refused⟩ | ⟨request, checked, room, accepted⟩
  · rw [cdmaPostSqWr_refused refused] at done
    cases done
  obtain ⟨_, _, found⟩ := requestChecked_eq_some checked
  obtain ⟨_, starts, _, _⟩ := requestOf_eq_some found
  obtain ⟨_, sq_eq, _⟩ := cdmaPostSqWr_accepted ring ctx checked room
  have bounds := request.blocks_bounds
  have posted : postedRequests ctx [wr] pi ⟨memory, sq, none, false⟩ = [request] :=
    postedRequests_accepted found accepted
  have after := (SendRing.empty ring memory).post ctx [wr] posted.symm
  have bytes := after.bytes
  have qbuf : (cdmaPostSqWr ctx memory sq [wr]).sq.qbuf = sq.qbuf := by
    rw [sq_eq]
    unfold PostLocals.accept
    rw [setWrid_frame]
  have length : pi + blockSum [request] - pi = request.blocks := by
    simp [blockSum]
  rw [qbuf, length, List.nil_append] at bytes
  refine ⟨request, checked, ?_, ?_⟩
  · rw [sq_eq]
    change (counter request.next - sq.pi).toNat = _
    rw [ring.pi_eq, SqRequest.next, starts, toNat_counter_sub (by omega) (by omega)]
    omega
  · rw [bytes]
    unfold announcedRequests
    split
    · rw [List.map_singleton, List.flatMap_singleton, SqRequest.decodeSqe_bytes]
      rfl
    · rw [List.flatMap_singleton, SqRequest.decodeSqe_bytes]

end Reading

/-! ### The five calls -/

/-- The calls that name a remote and a local segment. -/
inductive SegmentCall where
  | write
  | read
  | writeWithNotify (notifySeg : DmaSeg) (notifyData : UInt64)
  | cas (cmp swap : UInt64)
  | faa (operand : UInt64)

namespace SegmentCall

def run (call : SegmentCall) (ctx : CdmaUContext) (memory : Memory) (queue : DmaQueue)
    (rmtSeg localSeg : DmaSeg) : RequestResult :=
  match call with
  | .write => dmaWrite ctx memory (some queue) (some rmtSeg) (some localSeg)
  | .read => dmaRead ctx memory (some queue) (some rmtSeg) (some localSeg)
  | .writeWithNotify notifySeg notifyData =>
      dmaWriteWithNotify ctx memory (some queue) (some rmtSeg) (some localSeg) (some notifySeg)
        notifyData
  | .cas cmp swap => dmaCas ctx memory (some queue) (some rmtSeg) (some localSeg) cmp swap
  | .faa operand => dmaFaa ctx memory (some queue) (some rmtSeg) (some localSeg) operand

def opcode : SegmentCall → DmaWrOpcode
  | .write => .write
  | .read => .read
  | .writeWithNotify _ _ => .writeNotify
  | .cas _ _ => .cas
  | .faa _ => .fadd

def wr (call : SegmentCall) (queue : DmaQueue) (rmtSeg localSeg : DmaSeg) : DmaJfsWr :=
  let wr := cdmaFillCommWr (.zeroed call.opcode) queue
  match call with
  | .write =>
      { wr with
        rw :=
          { wr.rw with
            src := .single (cdmaFillSge localSeg)
            dst := .single (cdmaFillSge rmtSeg) } }
  | .read =>
      { wr with
        rw :=
          { wr.rw with
            src := .single (cdmaFillSge rmtSeg)
            dst := .single (cdmaFillSge localSeg) } }
  | .writeWithNotify notifySeg notifyData =>
      { wr with
        rw :=
          { wr.rw with
            src := .single (cdmaFillSge localSeg)
            dst := .single (cdmaFillSge rmtSeg)
            notifyAddr := notifySeg.sva
            notifyData := notifyData
            notifyTokenid := notifySeg.tid
            notifyTokenvalue := notifySeg.tokenValue } }
  | .cas cmp swap =>
      { wr with
        cas :=
          { dst := cdmaFillSge rmtSeg, src := cdmaFillSge localSeg, cmpData := cmp
            swapData := swap } }
  | .faa operand =>
      { wr with
        faa := { dst := cdmaFillSge rmtSeg, src := cdmaFillSge localSeg, operand := operand } }

def segmentsRefused (call : SegmentCall) (rmtSeg localSeg : DmaSeg) : Bool :=
  (cdmaRwCheck rmtSeg localSeg).isSome ||
    match call with
    | .writeWithNotify notifySeg _ => notifySeg.sva == 0 || notifySeg.len == 0
    | _ => false

/-- Refused on any queue: by the checks of the segments, or of what is kept of the
length of an operand. -/
def refused (call : SegmentCall) (rmtSeg localSeg : DmaSeg) : Bool :=
  call.segmentsRefused rmtSeg localSeg ||
    match call with
    | .cas _ _ => !cdmaCheckAtomicLen localSeg.len.toUInt32 .cas
    | .faa _ => !cdmaCheckAtomicLen localSeg.len.toUInt32 .fadd
    | _ => false

variable (call : SegmentCall) (ctx : CdmaUContext) (memory : Memory) (queue : DmaQueue)
  (rmtSeg localSeg : DmaSeg)

theorem run_eq : call.run ctx memory queue rmtSeg localSeg =
    if call.segmentsRefused rmtSeg localSeg then ⟨.inval, memory, none⟩
    else cdmaPostRequest ctx memory queue (call.wr queue rmtSeg localSeg) := by
  unfold run segmentsRefused
  cases checked : (cdmaRwCheck rmtSeg localSeg).isSome with
  | true =>
      cases call with
      | write => exact if_pos checked
      | read => exact if_pos checked
      | writeWithNotify notifySeg notifyData =>
          unfold dmaWriteWithNotify
          simp only
          split
          · rfl
          · exact if_pos checked
      | cas cmp swap => exact if_pos checked
      | faa operand => exact if_pos checked
  | false =>
      have passed := Bool.eq_false_iff.mp checked
      cases call with
      | write => exact if_neg passed
      | read => exact if_neg passed
      | writeWithNotify notifySeg notifyData =>
          unfold dmaWriteWithNotify
          simp only [Bool.false_or, Bool.or_eq_true, beq_iff_eq]
          split
          · rfl
          · exact if_neg passed
      | cas cmp swap => exact if_neg passed
      | faa operand => exact if_neg passed

theorem wr_opcode : (call.wr queue rmtSeg localSeg).opcode = call.opcode := by
  cases call <;> rfl

theorem opcode_valid : cdmaParseJfsOpcode call.opcode ≠ .invalid := by
  cases call <;> simp [opcode, cdmaParseJfsOpcode]

theorem wr_remote : (call.wr queue rmtSeg localSeg).remote = cdmaFillSge rmtSeg := by
  cases call <;> rfl

theorem single_live (sge : DmaSge) :
    (DmaSg.single sge).live = if sge.len = 0 then [] else [sge] := by
  change ([sge].filter _) = _
  by_cases empty : sge.len = 0
  · rw [if_pos empty, List.filter_cons_of_neg (by simp [empty])]
    rfl
  · rw [if_neg empty, List.filter_cons_of_pos (by simp [empty])]
    rfl

theorem wr_localSges : (call.wr queue rmtSeg localSeg).localSges = [cdmaFillSge localSeg] ∨
    (call.wr queue rmtSeg localSeg).localSges = [] ∧ localSeg.len.toUInt32 = 0 := by
  have live := single_live (cdmaFillSge localSeg)
  have either : (DmaSg.single (cdmaFillSge localSeg)).live = [cdmaFillSge localSeg] ∨
      (DmaSg.single (cdmaFillSge localSeg)).live = [] ∧ localSeg.len.toUInt32 = 0 := by
    rw [live]
    by_cases empty : (cdmaFillSge localSeg).len = 0
    · rw [if_pos empty]
      exact .inr ⟨rfl, empty⟩
    · rw [if_neg empty]
      exact .inl rfl
  cases call with
  | write => exact either
  | read => exact either
  | writeWithNotify notifySeg notifyData => exact either
  | cas cmp swap => exact .inl rfl
  | faa operand => exact .inl rfl

def OperandSize : SegmentCall → UInt64 → Prop
  | .cas _ _, len => len = 4 ∨ len = 8 ∨ len = 16
  | .faa _, len => len = 4 ∨ len = 8
  | _, _ => True

end SegmentCall

/-- A request describes the segments of its call, with the lengths as numbers. -/
structure SqeView.Describes (view : SqeView) (call : SegmentCall) (rmtSeg localSeg : DmaSeg) :
    Prop where
  length : (view.body.sges.map (fun sge => sge.length.toNat)).sum = localSeg.len.toNat
  start : view.body.sges.head?.map WqeSge.va = some localSeg.sva
  remote : view.rmtAddr = rmtSeg.sva
  operand : call.OperandSize localSeg.len

namespace SegmentCall

def placed (before after : Memory) (queue : DmaQueue) (shift pi : Nat) : Option SqeView :=
  let sq := before.queue queue.jfs
  decodeSqe (ringRead sq.qbuf 64 (2 ^ shift) after.byte pi
    ((after.queue queue.jfs).pi - sq.pi).toNat)

/-- On every queue, what the call reports as posted describes its segments. -/
def Faithful (call : SegmentCall) (rmtSeg localSeg : DmaSeg) : Prop :=
  ∀ (ctx : CdmaUContext) (memory : Memory) (queue : DmaQueue) (shift ci pi : Nat),
    SqAt shift (memory.queue queue.jfs) ci pi →
    (call.run ctx memory queue rmtSeg localSeg).status = .ok →
    ∃ view, placed memory (call.run ctx memory queue rmtSeg localSeg).memory queue shift pi =
        some view ∧ view.Describes call rmtSeg localSeg

variable {call : SegmentCall} {ctx : CdmaUContext} {memory : Memory} {queue : DmaQueue}
  {rmtSeg localSeg : DmaSeg} {shift ci pi : Nat}

theorem run_ok (ring : SqAt shift (memory.queue queue.jfs) ci pi)
    (ok : (call.run ctx memory queue rmtSeg localSeg).status = .ok) :
    call.refused rmtSeg localSeg = false ∧
    ∃ view, placed memory (call.run ctx memory queue rmtSeg localSeg).memory queue shift pi =
        some view ∧ view.rmtAddr = rmtSeg.sva ∧
      view.body.sges = (call.wr queue rmtSeg localSeg).localSges.map DmaSge.view := by
  rw [run_eq] at ok ⊢
  by_cases segments : call.segmentsRefused rmtSeg localSeg = true
  · rw [if_pos segments] at ok
    cases ok
  rw [if_neg segments] at ok ⊢
  have done : (cdmaPostSqWr ctx memory.byte (memory.queue queue.jfs)
      [call.wr queue rmtSeg localSeg]).error = none := by
    unfold cdmaPostRequest cdmaUPostJfsWr at ok
    simp only at ok
    split at ok
    · cases ok
    · rename_i fine
      exact Option.not_isSome_iff_eq_none.mp fine
  obtain ⟨request, checked, count, read⟩ := cdmaPostSqWr_places ring ctx done
  obtain ⟨valid, within, found⟩ := requestChecked_eq_some checked
  obtain ⟨wr_eq, _, _, built⟩ := requestOf_eq_some found
  have few : (call.wr queue rmtSeg localSeg).localSges.length ≤ 11 := by
    rcases call.wr_localSges queue rmtSeg localSeg with single | ⟨none, _⟩
    · rw [single]
      exact (by decide : 1 ≤ 11)
    · rw [none]
      exact Nat.zero_le _
  obtain ⟨view, decoded, remote, sges⟩ := decodeSqe_segments valid built few
  have encoding : request.encoding = blockBytes (call.wr queue rmtSeg localSeg) request.tmp := by
    rw [← wr_eq]
    rfl
  refine ⟨?_, view, ?_, remote.trans ?_, sges⟩
  · unfold refused
    rw [Bool.eq_false_iff.mpr segments, Bool.false_or]
    cases call with
    | write => rfl
    | read => rfl
    | writeWithNotify notifySeg notifyData => rfl
    | cas cmp swap =>
        have operand := (cdmaSetSqe_cas rfl built).1
        exact congrArg not operand
    | faa operand =>
        have operand := (cdmaSetSqe_faa rfl built).1
        exact congrArg not operand
  · unfold placed cdmaPostRequest cdmaUPostJfsWr
    simp only [Memory.setQueue_queue, Function.update_self]
    rw [count, read, encoding, decoded]
  · rw [wr_remote]
    rfl

/-- The lengths on the ring are what 32 bits keep. -/
theorem sum_localSges : (((call.wr queue rmtSeg localSeg).localSges.map DmaSge.view).map
    (fun sge => sge.length.toNat)).sum = localSeg.len.toNat % 2 ^ 32 := by
  have kept := localSeg.len.toNat_toUInt32
  rcases call.wr_localSges queue rmtSeg localSeg with single | ⟨none, empty⟩
  · rw [single, ← kept]
    exact Nat.add_zero _
  · rw [none, ← kept, empty]
    rfl

def emptyQueue : Memory := Memory.zeroed.setQueue 0 .depthTwo

def atEmptyQueue : DmaQueue :=
  { cfg := { queueDepth := 2, userCtx := 0, rmtEid := 0, eventMode := false }, tp := none
    jfs := 0 }

theorem emptyQueue_ring : SqAt 6 (emptyQueue.queue atEmptyQueue.jfs) 0 0 :=
  ⟨⟨rfl, rfl, rfl, rfl, by decide⟩, rfl, rfl, by decide, by decide, rfl⟩

theorem run_emptyQueue (ctx : CdmaUContext) (passed : call.refused rmtSeg localSeg = false) :
    (call.run ctx emptyQueue atEmptyQueue rmtSeg localSeg).status = .ok := by
  obtain ⟨segments, operand⟩ := Bool.or_eq_false_iff.mp passed
  have atomic : (call.wr atEmptyQueue rmtSeg localSeg).atomicLenOk = true := by
    cases call with
    | write => rfl
    | read => rfl
    | writeWithNotify notifySeg notifyData => rfl
    | cas cmp swap =>
        have allowed : cdmaCheckAtomicLen localSeg.len.toUInt32 .cas = true := by
          simpa using operand
        exact allowed
    | faa word =>
        have allowed : cdmaCheckAtomicLen localSeg.len.toUInt32 .fadd = true := by
          simpa using operand
        exact allowed
  have valid : cdmaParseJfsOpcode (call.wr atEmptyQueue rmtSeg localSeg).opcode ≠ .invalid := by
    rw [wr_opcode]
    exact call.opcode_valid
  have within : cdmaCheckSgeNum (cdmaParseJfsOpcode (call.wr atEmptyQueue rmtSeg localSeg).opcode)
      (emptyQueue.queue atEmptyQueue.jfs) (call.wr atEmptyQueue rmtSeg localSeg) = false := by
    cases call <;> rfl
  obtain ⟨request, found⟩ := requestOf_of_atomicLenOk
    ⟨emptyQueue.byte, emptyQueue.queue atEmptyQueue.jfs, none, false⟩ 0 valid atomic
  have checked : requestChecked
      ⟨emptyQueue.byte, emptyQueue.queue atEmptyQueue.jfs, none, false⟩
      (call.wr atEmptyQueue rmtSeg localSeg) 0 = some request :=
    requestChecked_of_passed valid within found
  have bounds := request.blocks_bounds
  have done := cdmaPostSqWr_single emptyQueue_ring ctx emptyQueue.byte checked (by omega)
  rw [run_eq, if_neg (Bool.eq_false_iff.mp segments)]
  unfold cdmaPostRequest cdmaUPostJfsWr
  simp only [done]
  rfl

theorem eq_of_kept {len : UInt64} {kept : UInt32} (short : len.toNat < 2 ^ 32)
    (same : len.toUInt32 = kept) : len = kept.toUInt64 := by
  rw [← same, ← UInt64.toNat_inj, UInt32.toNat_toUInt64, UInt64.toNat_toUInt32,
    Nat.mod_eq_of_lt short]

theorem len_ne_zero (passed : call.refused rmtSeg localSeg = false) : localSeg.len ≠ 0 := by
  intro empty
  unfold refused segmentsRefused cdmaRwCheck at passed
  simp [empty] at passed

theorem operandSize_of_passed (short : localSeg.len.toNat < 2 ^ 32)
    (passed : call.refused rmtSeg localSeg = false) : call.OperandSize localSeg.len := by
  have operand := (Bool.or_eq_false_iff.mp passed).2
  cases call with
  | write => trivial
  | read => trivial
  | writeWithNotify notifySeg notifyData => trivial
  | cas cmp swap =>
      have allowed : cdmaCheckAtomicLen localSeg.len.toUInt32 .cas = true := by
        simpa using operand
      rcases cdmaCheckAtomicLen_cas.mp allowed with four | eight | sixteen
      · exact .inl (eq_of_kept short four)
      · exact .inr (.inl (eq_of_kept short eight))
      · exact .inr (.inr (eq_of_kept short sixteen))
  | faa word =>
      have allowed : cdmaCheckAtomicLen localSeg.len.toUInt32 .fadd = true := by
        simpa using operand
      rcases cdmaCheckAtomicLen_fadd.mp allowed with four | eight
      · exact .inl (eq_of_kept short four)
      · exact .inr (eq_of_kept short eight)

/-- What is reported as posted describes the whole segment exactly when its length
fits in 32 bits or the call is refused anyway. -/
theorem faithful_iff : call.Faithful rmtSeg localSeg ↔
    localSeg.len.toNat < 2 ^ 32 ∨ call.refused rmtSeg localSeg = true := by
  constructor
  · intro faithful
    by_contra neither
    obtain ⟨long, passed⟩ := not_or.mp neither
    have ok := run_emptyQueue SqWorld.fourBlocks.ctx (Bool.eq_false_iff.mpr passed)
    obtain ⟨_, found, placed, _, sges⟩ := run_ok emptyQueue_ring ok
    obtain ⟨view, same, describes⟩ := faithful _ _ _ _ _ _ emptyQueue_ring ok
    cases placed.symm.trans same
    have total := describes.length
    rw [sges, sum_localSges] at total
    omega
  · intro either ctx memory queue shift ci pi ring ok
    obtain ⟨passed, view, placed, remote, sges⟩ := run_ok ring ok
    have short : localSeg.len.toNat < 2 ^ 32 :=
      either.resolve_right (Bool.eq_false_iff.mp passed)
    have kept := localSeg.len.toNat_toUInt32
    refine ⟨view, placed, ?_, ?_, remote, ?_⟩
    · rw [sges, sum_localSges, Nat.mod_eq_of_lt short]
    · rw [sges]
      rcases call.wr_localSges queue rmtSeg localSeg with single | ⟨_, empty⟩
      · rw [single]
        rfl
      · exact absurd (eq_of_kept short empty) (len_ne_zero passed)
    · exact operandSize_of_passed short passed

def segment (sva len : UInt64) : DmaSeg :=
  { sva := sva, len := len, tid := 0, tokenValue := 0, tokenValueValid := false }

/-- A write of 4 GiB is reported as posted and moves nothing, and a compare-and-swap
of 4 GiB and 8 bytes is taken for one of 8. -/
theorem run_shortens :
    (dmaWrite SqWorld.fourBlocks.ctx emptyQueue (some atEmptyQueue) (some (segment 8192 4294967296))
      (some (segment 4096 4294967296))).status = .ok ∧
    (placed emptyQueue (dmaWrite SqWorld.fourBlocks.ctx emptyQueue (some atEmptyQueue)
      (some (segment 8192 4294967296)) (some (segment 4096 4294967296))).memory atEmptyQueue 6
      0).map (fun view => view.body) = some (.write []) ∧
    (dmaCas SqWorld.fourBlocks.ctx emptyQueue (some atEmptyQueue) (some (segment 8192 4294967304))
      (some (segment 4096 4294967304)) 0 1).status = .ok := by
  refine ⟨rfl, ?_, rfl⟩
  decide +kernel

end SegmentCall

end Libcdma
