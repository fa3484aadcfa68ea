/-
The send ring: what posting leaves on it.

A request's blocks start at the current pointer, which the source keeps beside
the producer index, and the copy is split by a third computation from that index
and the mask.  The three agree as long as the request fits between producer and
consumer, and then the ring holds the encodings of the outstanding requests one
after another.
-/

import Libcdma.Foundation.BlockRing
import Libcdma.Foundation.Transition
import Libcdma.Model.Jfs

namespace Libcdma

open WrapCounter ByteImage BlockRing Transition

/-- A ring of `2 ^ shift` blocks of 64 bytes. -/
structure SqGeometry (sq : CdmaUJettyQueue) (shift : Nat) : Prop where
  cnt_eq : sq.baseblkCnt = counter (2 ^ shift)
  mask_eq : sq.baseblkMask = sq.baseblkCnt - 1
  shift_eq : sq.baseblkShift = 6
  size_eq : sq.qbufSize = counter (2 ^ shift * 64)
  small : shift ≤ 25

/-- Both indices as unbounded counts, and the pointer at the producer's block. -/
structure SqAt (shift : Nat) (sq : CdmaUJettyQueue) (ci pi : Nat) : Prop where
  geometry : SqGeometry sq shift
  ci_eq : sq.ci = counter ci
  pi_eq : sq.pi = counter pi
  ordered : ci ≤ pi
  room : pi ≤ ci + 2 ^ shift
  curr_eq : sq.qbufCurr = sq.qbuf + pi % 2 ^ shift * 64

namespace SqGeometry

variable {sq : CdmaUJettyQueue} {shift : Nat}

theorem cnt_le (geometry : SqGeometry sq shift) : 2 ^ shift ≤ 2 ^ 25 :=
  Nat.pow_le_pow_right Nat.two_pos geometry.small

theorem cnt_toNat (geometry : SqGeometry sq shift) : sq.baseblkCnt.toNat = 2 ^ shift := by
  have small := geometry.cnt_le
  rw [geometry.cnt_eq, toNat_counter_of_lt (by omega)]

theorem mask_counter (geometry : SqGeometry sq shift) :
    sq.baseblkMask = counter (2 ^ shift - 1) := by
  rw [geometry.mask_eq, geometry.cnt_eq]
  exact counter_sub (Nat.two_pow_pos shift)

theorem slot_toNat (geometry : SqGeometry sq shift) (index : Nat) :
    (counter index &&& sq.baseblkMask).toNat = index % 2 ^ shift := by
  have small := geometry.small
  rw [geometry.mask_counter, toNat_counter_and_mask (by omega)]

theorem slot_eq_iff (geometry : SqGeometry sq shift) (left right : Nat) :
    counter left &&& sq.baseblkMask = counter right &&& sq.baseblkMask ↔
      left % 2 ^ shift = right % 2 ^ shift := by
  rw [← UInt32.toNat_inj, geometry.slot_toNat, geometry.slot_toNat]

end SqGeometry

theorem SqAt.setCi {shift ci pi : Nat} {sq : CdmaUJettyQueue} (ring : SqAt shift sq ci pi)
    {reached : Nat} (ordered : reached ≤ pi) (room : pi ≤ reached + 2 ^ shift) :
    SqAt shift { sq with ci := counter reached } reached pi := by
  have geometry := ring.geometry
  exact ⟨⟨geometry.cnt_eq, geometry.mask_eq, geometry.shift_eq, geometry.size_eq,
    geometry.small⟩, rfl, ring.pi_eq, ordered, room, ring.curr_eq⟩

theorem cdmaSqCalWqebbNum_pos (sqeCtlLen sgeNum : UInt32) :
    1 ≤ (cdmaSqCalWqebbNum sqeCtlLen sgeNum cdmaJfsWqebb).toNat := by
  unfold cdmaSqCalWqebbNum
  have quotient : ((sqeCtlLen + (sgeNum - 1) * cdmaSgeSize) / cdmaJfsWqebb).toNat < 2 ^ 26 := by
    rw [UInt32.toNat_div]
    have bounded := (sqeCtlLen + (sgeNum - 1) * cdmaSgeSize).toNat_lt
    change _ / 64 < _
    omega
  rw [toNat_succ (by omega)]
  omega

/-- The block count of an encoded request, clamped to the staging buffer. -/
def wqebbCnt (wr : DmaJfsWr) (ctl : CdmaJfsSqeCtl) : UInt32 :=
  if cdmaGetWqebbCnt wr ctl > maxSqeBbNum then maxSqeBbNum else cdmaGetWqebbCnt wr ctl

theorem wqebbCnt_bounds (wr : DmaJfsWr) (ctl : CdmaJfsSqeCtl) :
    1 ≤ (wqebbCnt wr ctl).toNat ∧ (wqebbCnt wr ctl).toNat ≤ 4 := by
  unfold wqebbCnt
  split
  · exact ⟨by decide, by decide⟩
  · rename_i small
    rw [gt_iff_lt, UInt32.lt_iff_toNat_lt, Nat.not_lt] at small
    exact ⟨cdmaSqCalWqebbNum_pos _ _, small⟩

def tailBlocks (cnt pi blocks : Nat) : Nat := min (cnt - pi % cnt) blocks

def headBlocks (cnt pi blocks : Nat) : Nat := blocks - tailBlocks cnt pi blocks

theorem tail_add_head (cnt pi blocks : Nat) :
    tailBlocks cnt pi blocks + headBlocks cnt pi blocks = blocks := by
  unfold headBlocks tailBlocks
  omega

theorem headBlocks_split {cnt pi blocks : Nat} (some : headBlocks cnt pi blocks ≠ 0) :
    tailBlocks cnt pi blocks = cnt - pi % cnt := by
  unfold headBlocks tailBlocks at *
  omega

theorem copy_none (memory source : Bytes) (dest : Nat) : copy memory dest source 0 = memory := by
  funext address
  exact copy_outside memory source (by omega)

theorem checkSqOverflow_eq {sq : CdmaUJettyQueue} {shift ci pi : Nat}
    (ring : SqAt shift sq ci pi) {blocks : UInt32} (few : blocks.toNat ≤ 4) :
    checkSqOverflow sq blocks = decide (ci + 2 ^ shift < pi + blocks.toNat) := by
  have small := ring.geometry.cnt_le
  have ordered := ring.ordered
  have room := ring.room
  have used : (sq.pi - sq.ci + blocks).toNat = pi - ci + blocks.toNat := by
    rw [UInt32.toNat_add, ring.pi_eq, ring.ci_eq, toNat_counter_sub ordered (by omega),
      Nat.mod_eq_of_lt (by omega)]
  unfold checkSqOverflow
  rw [decide_eq_decide, gt_iff_lt, UInt32.lt_iff_toNat_lt, used, ring.geometry.cnt_toNat]
  omega

theorem cdmaCopyToSq_eq {sq : CdmaUJettyQueue} {shift ci pi : Nat} (ring : SqAt shift sq ci pi)
    {blocks : UInt32} (few : blocks.toNat ≤ 4) (memory tmp : Bytes) :
    cdmaCopyToSq memory sq blocks tmp =
      if ci + 2 ^ shift < pi + blocks.toNat then .error .enomem
      else .ok (ringCopy sq.qbuf 64 memory (pi % 2 ^ shift) tmp
        (tailBlocks (2 ^ shift) pi blocks.toNat) (headBlocks (2 ^ shift) pi blocks.toNat)) := by
  have small := ring.geometry.cnt_le
  have slot := ring.geometry.slot_toNat pi
  have positive := Nat.two_pow_pos shift
  have below := Nat.mod_lt pi positive
  have remain : (sq.baseblkCnt - (sq.pi &&& sq.baseblkMask)).toNat =
      2 ^ shift - pi % 2 ^ shift := by
    rw [UInt32.toNat_sub_of_le, ring.pi_eq, slot, ring.geometry.cnt_toNat]
    rw [UInt32.le_iff_toNat_le, ring.pi_eq, slot, ring.geometry.cnt_toNat]
    exact Nat.le_of_lt below
  have tail : (if sq.baseblkCnt - (sq.pi &&& sq.baseblkMask) > blocks then blocks
      else sq.baseblkCnt - (sq.pi &&& sq.baseblkMask)).toNat =
      tailBlocks (2 ^ shift) pi blocks.toNat := by
    unfold tailBlocks
    split
    · rename_i more
      rw [gt_iff_lt, UInt32.lt_iff_toNat_lt, remain] at more
      omega
    · rename_i less
      rw [gt_iff_lt, UInt32.lt_iff_toNat_lt, remain] at less
      rw [remain]
      omega
  have tail_le : tailBlocks (2 ^ shift) pi blocks.toNat ≤ blocks.toNat := by
    unfold tailBlocks
    omega
  unfold cdmaCopyToSq
  simp only [checkSqOverflow_eq ring few, decide_eq_true_eq]
  by_cases overflow : ci + 2 ^ shift < pi + blocks.toNat
  · rw [if_pos overflow, if_pos overflow]
  · rw [if_neg overflow, if_neg overflow]
    generalize (if sq.baseblkCnt - (sq.pi &&& sq.baseblkMask) > blocks then blocks
      else sq.baseblkCnt - (sq.pi &&& sq.baseblkMask)) = tailCnt at tail
    have head : (blocks - tailCnt).toNat = headBlocks (2 ^ shift) pi blocks.toNat := by
      rw [UInt32.toNat_sub_of_le _ _ (UInt32.le_iff_toNat_le.mpr (by omega)), tail]
      rfl
    unfold ringCopy
    rw [ring.curr_eq, head, tail]
    by_cases none : headBlocks (2 ^ shift) pi blocks.toNat = 0
    · have noHead : blocks - tailCnt = 0 := by
        rw [← UInt32.toNat_inj, head, none]
        rfl
      rw [if_neg (not_not.mpr noHead), none, Nat.zero_mul, copy_none]
    · have someHead : blocks - tailCnt ≠ 0 := by
        intro noHead
        rw [noHead] at head
        exact none head.symm
      rw [if_pos someHead]

theorem cdmaUpdatePtr_eq {sq : CdmaUJettyQueue} {shift ci pi : Nat}
    (ring : SqAt shift sq ci pi) {blocks : UInt32} (few : blocks.toNat ≤ 4)
    (fits : blocks.toNat ≤ 2 ^ shift) :
    cdmaUpdatePtr sq.qbufCurr (blocks <<< sq.baseblkShift) sq.qbuf (sq.qbuf + sq.qbufSize.toNat) =
      sq.qbuf + (pi + blocks.toNat) % 2 ^ shift * 64 := by
  have small := ring.geometry.cnt_le
  have below := Nat.mod_lt pi (Nat.two_pow_pos shift)
  have bytes : (blocks <<< sq.baseblkShift).toNat = blocks.toNat * 64 := by
    rw [ring.geometry.shift_eq, UInt32.toNat_shiftLeft]
    change blocks.toNat <<< 6 % 2 ^ 32 = _
    rw [Nat.shiftLeft_eq, Nat.mod_eq_of_lt (by omega)]
  have size : sq.qbufSize.toNat = 2 ^ shift * 64 := by
    rw [ring.geometry.size_eq, toNat_counter_of_lt (by omega)]
  unfold cdmaUpdatePtr
  rw [bytes, size, ring.curr_eq]
  by_cases inside : pi % 2 ^ shift + blocks.toNat < 2 ^ shift
  · rw [if_pos (by omega), add_mod_inside inside]
    omega
  · rw [if_neg (by omega), add_mod_wrapped (by omega) (by omega)]
    omega

/-! ### Requests as they were posted -/

/-- An accepted request: what was built for it, where it starts, and the index the
direct path stamped into it. -/
structure SqRequest where
  wr : DmaJfsWr
  tmp : TmpSq
  first : Nat
  stamp : Option UInt32

namespace SqRequest

def blocks (request : SqRequest) : Nat := (wqebbCnt request.wr request.tmp.ctl).toNat

def next (request : SqRequest) : Nat := request.first + request.blocks

def encoding (request : SqRequest) : List UInt8 :=
  load request.tmp.bytes 0 (request.blocks * 64)

/-- The encoding with the stamped index in place of its first two bytes. -/
def bytes (request : SqRequest) : List UInt8 :=
  match request.stamp with
  | none => request.encoding
  | some pi => leBytes 2 pi.toNat ++ request.encoding.drop 2

theorem blocks_bounds (request : SqRequest) : 1 ≤ request.blocks ∧ request.blocks ≤ 4 :=
  wqebbCnt_bounds _ _

theorem encoding_length (request : SqRequest) :
    request.encoding.length = request.blocks * 64 :=
  load_length _ _ _

theorem bytes_length (request : SqRequest) : request.bytes.length = request.blocks * 64 := by
  unfold bytes
  cases request.stamp with
  | none => exact request.encoding_length
  | some pi =>
      have bounds := request.blocks_bounds
      rw [List.length_append, List.length_drop, request.encoding_length, leBytes_length]
      omega

end SqRequest

/-- The request that posting builds, before any check of room. -/
def requestOf (locals : PostLocals) (wr : DmaJfsWr) (pi : Nat) : Option SqRequest :=
  match cdmaSetSqe locals.memory .zeroed locals.sq wr (cdmaParseJfsOpcode wr.opcode) with
  | .error _ => none
  | .ok tmp => some { wr := wr, tmp := tmp, first := pi, stamp := none }

theorem requestOf_eq_some {locals : PostLocals} {wr : DmaJfsWr} {pi : Nat} {request : SqRequest}
    (found : requestOf locals wr pi = some request) :
    request.wr = wr ∧ request.first = pi ∧ request.stamp = none ∧
      cdmaSetSqe locals.memory .zeroed locals.sq wr (cdmaParseJfsOpcode wr.opcode) =
        .ok request.tmp := by
  unfold requestOf at found
  split at found
  · cases found
  · rename_i built
    cases found
    exact ⟨rfl, rfl, rfl, built⟩

def PostLocals.accept (ctx : CdmaUContext) (locals : PostLocals) (shift : Nat)
    (request : SqRequest) : PostLocals :=
  { memory := ringCopy locals.sq.qbuf 64 locals.memory (request.first % 2 ^ shift)
      request.tmp.bytes (tailBlocks (2 ^ shift) request.first request.blocks)
      (headBlocks (2 ^ shift) request.first request.blocks)
    sq := { locals.sq.setWrid request.wr.userCtx request.blocks with
      qbufCurr := locals.sq.qbuf + request.next % 2 ^ shift * 64
      pi := counter request.next }
    dwqeAddr := some (locals.sq.qbuf + request.first % 2 ^ shift * 64)
    dwqeEnable := locals.dwqeEnable ||
      (cdmaGetWqebbCnt request.wr request.tmp.ctl == 1 && ctx.dwqeEnable != 0) }

/-- The request that posting builds when its opcode, its segment count and the
length of its atomic operand are in order. -/
def requestChecked (locals : PostLocals) (wr : DmaJfsWr) (pi : Nat) : Option SqRequest :=
  if cdmaParseJfsOpcode wr.opcode = .invalid then none
  else if cdmaCheckSgeNum (cdmaParseJfsOpcode wr.opcode) locals.sq wr then none
  else requestOf locals wr pi

theorem requestChecked_eq_some {locals : PostLocals} {wr : DmaJfsWr} {pi : Nat}
    {request : SqRequest} (found : requestChecked locals wr pi = some request) :
    cdmaParseJfsOpcode wr.opcode ≠ .invalid ∧
      cdmaCheckSgeNum (cdmaParseJfsOpcode wr.opcode) locals.sq wr = false ∧
      requestOf locals wr pi = some request := by
  unfold requestChecked at found
  split at found
  · cases found
  · rename_i valid
    split at found
    · cases found
    · rename_i within
      exact ⟨valid, Bool.eq_false_iff.mpr within, found⟩

theorem requestChecked_of_passed {locals : PostLocals} {wr : DmaJfsWr} {pi : Nat}
    {request : SqRequest} (valid : cdmaParseJfsOpcode wr.opcode ≠ .invalid)
    (within : cdmaCheckSgeNum (cdmaParseJfsOpcode wr.opcode) locals.sq wr = false)
    (found : requestOf locals wr pi = some request) :
    requestChecked locals wr pi = some request := by
  unfold requestChecked
  rw [if_neg valid, if_neg (Bool.eq_false_iff.mp within), found]

theorem cdmaSetSqe_error {memory : Bytes} {tmp : TmpSq} {sq : CdmaUJettyQueue} {wr : DmaJfsWr}
    {opcode : CdmaJfsOpcode} {err : Errno} (refused : cdmaSetSqe memory tmp sq wr opcode = .error err) :
    err = .einval := by
  unfold cdmaSetSqe cdmaFillNormalSge at refused
  split at refused
  · cases refused
  · cases refused
  · cases refused
  · unfold cdmaUFillCasSqe at refused
    simp only at refused
    split at refused
    · cases refused
      rfl
    · cases refused
  · unfold cdmaUFillFaaSqe at refused
    simp only at refused
    split at refused
    · cases refused
      rfl
    · cases refused
  · cases refused
    rfl

theorem cdmaCheckAtomicLen_cas {len : UInt32} :
    cdmaCheckAtomicLen len .cas = true ↔ len = 4 ∨ len = 8 ∨ len = 16 := by
  simp [cdmaCheckAtomicLen, cdmaAtomicLen4, cdmaAtomicLen8, cdmaAtomicLen16, or_assoc]

theorem cdmaCheckAtomicLen_fadd {len : UInt32} :
    cdmaCheckAtomicLen len .fadd = true ↔ len = 4 ∨ len = 8 := by
  simp [cdmaCheckAtomicLen, cdmaAtomicLen4, cdmaAtomicLen8]

/-- Posting one request: refused by a check, refused for lack of room with the
direct flag perhaps set, or accepted. -/
theorem cdmaPostOneWr_eq {locals : PostLocals} {shift ci pi : Nat}
    (ring : SqAt shift locals.sq ci pi) (ctx : CdmaUContext) (wr : DmaJfsWr) :
    cdmaPostOneWr ctx locals wr =
      match requestChecked locals wr pi with
      | none => (locals, some .einval)
      | some request =>
          if ci + 2 ^ shift < pi + request.blocks then
            ({ locals with dwqeEnable := (locals.accept ctx shift request).dwqeEnable },
              some .enomem)
          else (locals.accept ctx shift request, none) := by
  unfold cdmaPostOneWr requestChecked requestOf
  simp only
  by_cases invalid : cdmaParseJfsOpcode wr.opcode = .invalid
  · rw [if_pos invalid, if_pos invalid]
  rw [if_neg invalid, if_neg invalid]
  cases checked : cdmaCheckSgeNum (cdmaParseJfsOpcode wr.opcode) locals.sq wr with
  | true => rfl
  | false =>
      rw [if_neg (by decide), if_neg (by decide)]
      cases built : cdmaSetSqe locals.memory .zeroed locals.sq wr
          (cdmaParseJfsOpcode wr.opcode) with
      | error err =>
          rw [cdmaSetSqe_error built]
      | ok tmp =>
          have few := wqebbCnt_bounds wr tmp.ctl
          have copied := cdmaCopyToSq_eq ring few.2 locals.memory tmp.bytes
          have ordered := ring.ordered
          have clamped : (if cdmaGetWqebbCnt wr tmp.ctl > maxSqeBbNum then maxSqeBbNum
              else cdmaGetWqebbCnt wr tmp.ctl) = wqebbCnt wr tmp.ctl := rfl
          simp only [clamped]
          by_cases overflow : ci + 2 ^ shift < pi + (wqebbCnt wr tmp.ctl).toNat
          · rw [if_pos overflow] at copied
            simp only [copied]
            exact (if_pos overflow).symm
          · have moved := cdmaUpdatePtr_eq ring few.2 (by omega)
            have sum : locals.sq.pi + wqebbCnt wr tmp.ctl =
                counter (pi + (wqebbCnt wr tmp.ctl).toNat) := by
              rw [ring.pi_eq, ← counter_add, counter_toNat]
            rw [if_neg overflow] at copied
            simp only [copied, moved, sum]
            rw [ring.curr_eq]
            exact (if_neg overflow).symm

theorem cdmaPostOneWr_accepted {locals : PostLocals} {shift ci pi : Nat}
    (ring : SqAt shift locals.sq ci pi) (ctx : CdmaUContext) {wr : DmaJfsWr} {request : SqRequest}
    (checked : requestChecked locals wr pi = some request)
    (room : pi + request.blocks ≤ ci + 2 ^ shift) :
    cdmaPostOneWr ctx locals wr = (locals.accept ctx shift request, none) := by
  rw [cdmaPostOneWr_eq ring ctx wr, checked]
  exact if_neg (Nat.not_lt.mpr room)

theorem cdmaPostOneWr_cases {locals : PostLocals} {shift ci pi : Nat}
    (ring : SqAt shift locals.sq ci pi) (ctx : CdmaUContext) (wr : DmaJfsWr) :
    (∃ err dwqeEnable, cdmaPostOneWr ctx locals wr =
      ({ locals with dwqeEnable := dwqeEnable }, some err)) ∨
    ∃ request, requestChecked locals wr pi = some request ∧
      pi + request.blocks ≤ ci + 2 ^ shift ∧
      cdmaPostOneWr ctx locals wr = (locals.accept ctx shift request, none) := by
  rw [cdmaPostOneWr_eq ring ctx wr]
  cases checked : requestChecked locals wr pi with
  | none => exact .inl ⟨.einval, locals.dwqeEnable, rfl⟩
  | some request =>
      by_cases overflow : ci + 2 ^ shift < pi + request.blocks
      · exact .inl ⟨.enomem, _, if_pos overflow⟩
      · exact .inr ⟨request, rfl, Nat.not_lt.mp overflow, if_neg overflow⟩

theorem setWrid_frame (sq : CdmaUJettyQueue) (userCtx : UInt64) (count : Nat) :
    sq.setWrid userCtx count = { sq with wrid := (sq.setWrid userCtx count).wrid } := by
  induction count with
  | zero => rfl
  | succ count ih =>
      rw [CdmaUJettyQueue.setWrid]
      simp only
      rw [ih]

theorem SqAt.accept {locals : PostLocals} {shift ci pi : Nat} (ring : SqAt shift locals.sq ci pi)
    (ctx : CdmaUContext) {request : SqRequest} (starts : request.first = pi)
    (room : pi + request.blocks ≤ ci + 2 ^ shift) :
    SqAt shift (locals.accept ctx shift request).sq ci request.next := by
  have ordered := ring.ordered
  have geometry := ring.geometry
  unfold PostLocals.accept
  rw [setWrid_frame]
  refine ⟨⟨geometry.cnt_eq, geometry.mask_eq, geometry.shift_eq, geometry.size_eq,
    geometry.small⟩, ring.ci_eq, rfl, ?_, ?_, rfl⟩
  · unfold SqRequest.next
    omega
  · unfold SqRequest.next
    omega

theorem ringRead_accept {locals : PostLocals} {shift ci pi : Nat}
    (ring : SqAt shift locals.sq ci pi) (ctx : CdmaUContext) {request : SqRequest}
    (starts : request.first = pi) (room : pi + request.blocks ≤ ci + 2 ^ shift) :
    ringRead locals.sq.qbuf 64 (2 ^ shift) (locals.accept ctx shift request).memory pi
      request.blocks = request.encoding := by
  have ordered := ring.ordered
  have parts := tail_add_head (2 ^ shift) request.first request.blocks
  have tail_le : tailBlocks (2 ^ shift) request.first request.blocks ≤
      2 ^ shift - request.first % 2 ^ shift := Nat.min_le_left _ _
  have inside := ringRead_ringCopy_inside locals.sq.qbuf 64 locals.memory request.tmp.bytes
    (by rw [parts]; omega) tail_le headBlocks_split
  rw [parts, starts] at inside
  unfold PostLocals.accept
  simp only [starts]
  exact inside

/-! ### The ring holds the outstanding requests -/

def Chain : Nat → List SqRequest → Nat → Prop
  | first, [], pi => first = pi
  | first, request :: rest, pi => request.first = first ∧ Chain request.next rest pi

def Chain.start (pi : Nat) : List SqRequest → Nat
  | [] => pi
  | request :: _ => request.first

theorem Chain.start_eq {first pi : Nat} {requests : List SqRequest}
    (chain : Chain first requests pi) : Chain.start pi requests = first := by
  cases requests with
  | nil => exact chain.symm
  | cons request rest => exact chain.1

theorem Chain.le {first pi : Nat} {requests : List SqRequest} (chain : Chain first requests pi) :
    first ≤ pi := by
  induction requests generalizing first with
  | nil => exact Nat.le_of_eq chain
  | cons request rest ih =>
      have later := ih chain.2
      unfold SqRequest.next at later
      have := chain.1
      omega

theorem Chain.snoc {first pi : Nat} {requests : List SqRequest} (chain : Chain first requests pi)
    {request : SqRequest} (starts : request.first = pi) :
    Chain first (requests ++ [request]) request.next := by
  induction requests generalizing first with
  | nil => exact ⟨starts.trans chain.symm, rfl⟩
  | cons head rest ih => exact ⟨chain.1, ih chain.2⟩

theorem Chain.length_le {first pi : Nat} {requests : List SqRequest}
    (chain : Chain first requests pi) : first + requests.length ≤ pi := by
  induction requests generalizing first with
  | nil => exact Nat.le_of_eq chain
  | cons request rest ih =>
      have later := ih chain.2
      have bounds := request.blocks_bounds
      unfold SqRequest.next at later
      have := chain.1
      rw [List.length_cons]
      omega

theorem Chain.mem_bounds {first pi : Nat} {requests : List SqRequest}
    (chain : Chain first requests pi) {request : SqRequest} (member : request ∈ requests) :
    first ≤ request.first ∧ request.next ≤ pi := by
  induction requests generalizing first with
  | nil => cases member
  | cons head rest ih =>
      have grows : head.first ≤ head.next := Nat.le_add_right _ _
      have start := chain.1
      rcases List.mem_cons.mp member with rfl | later
      · exact ⟨Nat.le_of_eq start.symm, chain.2.le⟩
      · have bounds := ih chain.2 later
        exact ⟨by omega, bounds.2⟩

/-- Bit `shift` of the start index is clear. -/
def SqRequest.evenLap (shift : Nat) (request : SqRequest) : Bool :=
  request.first / 2 ^ shift % 2 == 0

structure SendRing (shift : Nat) (sq : CdmaUJettyQueue) (memory : Bytes) (ci pi start : Nat)
    (requests : List SqRequest) : Prop where
  ring : SqAt shift sq ci pi
  chain : Chain start requests pi
  behind : ci ≤ start
  bytes : ringRead sq.qbuf 64 (2 ^ shift) memory start (pi - start) =
    requests.flatMap SqRequest.bytes
  owners : ∀ request ∈ requests, request.tmp.ctl.owner = request.evenLap shift

theorem owner_of_fillNormalSge {memory : Bytes} {tmp filled : TmpSq} {wr : DmaJfsWr}
    (built : cdmaFillNormalSge memory tmp wr = .ok filled) :
    filled.ctl.owner = tmp.ctl.owner := by
  unfold cdmaFillNormalSge at built
  split at built
  · cases built
    unfold cdmaUFillWriteSqe
    by_cases notify : wr.opcode = .writeNotify
    · simp only [if_pos notify]
      rfl
    · simp only [if_neg notify]
      rfl
  · cases built
    unfold cdmaUFillWriteSqe
    by_cases notify : wr.opcode = .writeNotify
    · simp only [if_pos notify]
      rfl
    · simp only [if_neg notify]
      rfl
  · cases built
    rfl
  · unfold cdmaUFillCasSqe at built
    simp only at built
    split at built
    · cases built
    · cases built
      rfl
  · unfold cdmaUFillFaaSqe at built
    simp only at built
    split at built
    · cases built
    · cases built
      rfl
  · cases built

/-- The owner bit of a request says which lap its first block belongs to. -/
theorem owner_of_cdmaSetSqe {memory : Bytes} {sq : CdmaUJettyQueue} {shift pi : Nat}
    (geometry : SqGeometry sq shift) (pi_eq : sq.pi = counter pi) {wr : DmaJfsWr}
    {opcode : CdmaJfsOpcode} {tmp : TmpSq}
    (built : cdmaSetSqe memory .zeroed sq wr opcode = .ok tmp) :
    tmp.ctl.owner = (pi / 2 ^ shift % 2 == 0) := by
  rw [owner_of_fillNormalSge built]
  have small := geometry.small
  have cnt := geometry.cnt_le
  have bit : (sq.pi &&& sq.baseblkCnt).toNat =
      ((pi % 2 ^ 32).testBit shift).toNat * 2 ^ shift := by
    rw [UInt32.toNat_and, geometry.cnt_toNat, pi_eq, toNat_counter, Nat.and_two_pow]
  have positive := Nat.two_pow_pos shift
  change (sq.pi &&& sq.baseblkCnt == 0) = _
  rw [Bool.eq_iff_iff, beq_iff_eq, beq_iff_eq, ← UInt32.toNat_inj, bit,
    Nat.testBit_eq_decide_div_mod_eq, div_pow_mod_two_of_word (by omega)]
  change _ * _ = 0 ↔ _
  rcases Nat.mod_two_eq_zero_or_one (pi / 2 ^ shift) with even | odd
  · simp [even]
  · simp [odd]

namespace SendRing

variable {shift ci pi start : Nat} {requests : List SqRequest}

theorem accept {locals : PostLocals}
    (inv : SendRing shift locals.sq locals.memory ci pi start requests) (ctx : CdmaUContext)
    {wr : DmaJfsWr} {request : SqRequest} (found : requestOf locals wr pi = some request)
    (room : pi + request.blocks ≤ ci + 2 ^ shift) :
    SendRing shift (locals.accept ctx shift request).sq (locals.accept ctx shift request).memory
      ci request.next start (requests ++ [request]) := by
  obtain ⟨_, starts, unstamped, built⟩ := requestOf_eq_some found
  have behind := inv.behind
  have reach := inv.chain.le
  have parts := tail_add_head (2 ^ shift) request.first request.blocks
  have qbuf : (locals.accept ctx shift request).sq.qbuf = locals.sq.qbuf := by
    unfold PostLocals.accept
    rw [setWrid_frame]
  refine ⟨inv.ring.accept ctx starts room, inv.chain.snoc starts, behind, ?_, ?_⟩
  · have split : request.next - start = (request.first - start) + request.blocks := by
      unfold SqRequest.next
      omega
    have before : start + (request.first - start) = request.first := by omega
    have untouched : ringRead locals.sq.qbuf 64 (2 ^ shift)
        (locals.accept ctx shift request).memory start (request.first - start) =
        ringRead locals.sq.qbuf 64 (2 ^ shift) locals.memory start (request.first - start) :=
      ringRead_ringCopy_before (by omega) (by omega) headBlocks_split
    have added := ringRead_accept inv.ring ctx starts room
    rw [qbuf, split, ringRead_add, before, untouched, starts, added, inv.bytes,
      List.flatMap_append, List.flatMap_singleton]
    unfold SqRequest.bytes
    rw [unstamped]
  · intro other member
    rcases List.mem_append.mp member with older | newest
    · exact inv.owners other older
    · cases List.mem_singleton.mp newest
      unfold SqRequest.evenLap
      rw [starts]
      exact owner_of_cdmaSetSqe inv.ring.geometry inv.ring.pi_eq built

end SendRing

def postedRequests (ctx : CdmaUContext) : List DmaJfsWr → Nat → PostLocals → List SqRequest
  | [], _, _ => []
  | wr :: rest, pi, locals =>
      match requestOf locals wr pi, cdmaPostOneWr ctx locals wr with
      | some request, (after, none) =>
          request :: postedRequests ctx rest request.next after
      | _, _ => []

theorem postedRequests_refused {ctx : CdmaUContext} {wr : DmaJfsWr} {rest : List DmaJfsWr}
    {pi : Nat} {locals after : PostLocals} {err : Errno}
    (refused : cdmaPostOneWr ctx locals wr = (after, some err)) :
    postedRequests ctx (wr :: rest) pi locals = [] := by
  rw [postedRequests, refused]
  cases requestOf locals wr pi <;> rfl

theorem postedRequests_accepted {ctx : CdmaUContext} {wr : DmaJfsWr} {rest : List DmaJfsWr}
    {pi : Nat} {locals after : PostLocals} {request : SqRequest}
    (found : requestOf locals wr pi = some request)
    (accepted : cdmaPostOneWr ctx locals wr = (after, none)) :
    postedRequests ctx (wr :: rest) pi locals =
      request :: postedRequests ctx rest request.next after := by
  rw [postedRequests, accepted, found]

def blockSum (requests : List SqRequest) : Nat := (requests.map SqRequest.blocks).sum

theorem postSqWrLoop_keeps {shift ci : Nat} (ctx : CdmaUContext)
    (Inv : PostLocals → Nat → Nat → List SqRequest → Prop)
    (ring : ∀ {locals wrCnt pi requests}, Inv locals wrCnt pi requests →
      SqAt shift locals.sq ci pi)
    (refuse : ∀ {locals wrCnt pi requests} (dwqeEnable : Bool), Inv locals wrCnt pi requests →
      Inv { locals with dwqeEnable := dwqeEnable } wrCnt pi requests)
    (accept : ∀ {locals wrCnt pi requests wr request}, Inv locals wrCnt pi requests →
      requestChecked locals wr pi = some request → pi + request.blocks ≤ ci + 2 ^ shift →
      Inv (locals.accept ctx shift request) (wrCnt + 1) request.next (requests ++ [request]))
    (wrs : List DmaJfsWr) {locals : PostLocals} {wrCnt pi : Nat} {requests : List SqRequest}
    (held : Inv locals wrCnt pi requests) :
    Inv (postSqWrLoop ctx wrs wrCnt locals).1 (postSqWrLoop ctx wrs wrCnt locals).2.1
      (pi + blockSum (postedRequests ctx wrs pi locals))
      (requests ++ postedRequests ctx wrs pi locals) := by
  induction wrs generalizing locals wrCnt pi requests with
  | nil =>
      rw [postedRequests, List.append_nil]
      exact held
  | cons wr rest ih =>
      rcases cdmaPostOneWr_cases (ring held) ctx wr with
        ⟨err, dwqeEnable, refused⟩ | ⟨request, checked, room, accepted⟩
      · rw [postSqWrLoop, refused, postedRequests_refused refused, List.append_nil]
        exact refuse dwqeEnable held
      · have found := (requestChecked_eq_some checked).2.2
        obtain ⟨_, starts, _, _⟩ := requestOf_eq_some found
        have later := ih (accept held checked room)
        have reach : request.next + blockSum (postedRequests ctx rest request.next
            (locals.accept ctx shift request)) = pi + blockSum (request ::
            postedRequests ctx rest request.next (locals.accept ctx shift request)) := by
          unfold SqRequest.next blockSum
          rw [List.map_cons, List.sum_cons]
          omega
        rw [reach, List.append_assoc] at later
        rw [postSqWrLoop, accepted, postedRequests_accepted found accepted]
        exact later

theorem cdmaPostSqWr_sq (ctx : CdmaUContext) (memory : Bytes) (sq : CdmaUJettyQueue)
    (wrs : List DmaJfsWr) :
    (cdmaPostSqWr ctx memory sq wrs).sq =
      (postSqWrLoop ctx wrs 0 ⟨memory, sq, none, false⟩).1.sq := by
  unfold cdmaPostSqWr
  simp only
  split
  · rfl
  · split <;> rfl

theorem cdmaPostSqWr_error (ctx : CdmaUContext) (memory : Bytes) (sq : CdmaUJettyQueue)
    (wrs : List DmaJfsWr) :
    (cdmaPostSqWr ctx memory sq wrs).error =
      (postSqWrLoop ctx wrs 0 ⟨memory, sq, none, false⟩).2.2 := by
  unfold cdmaPostSqWr
  simp only
  split
  · rfl
  · split <;> rfl

/-- The requests on the ring while the loop runs, and what it remembers of the
last one for the direct path. -/
structure Posting (shift ci start qbuf older : Nat) (locals : PostLocals) (wrCnt pi : Nat)
    (requests : List SqRequest) : Prop where
  inv : SendRing shift locals.sq locals.memory ci pi start requests
  count_eq : older + wrCnt = requests.length
  qbuf_eq : locals.sq.qbuf = qbuf
  last : wrCnt ≠ 0 → ∃ request, requests.getLast? = some request ∧ request.stamp = none ∧
    locals.dwqeAddr = some (qbuf + request.first % 2 ^ shift * 64)

theorem Posting.accept {shift ci start qbuf older wrCnt pi : Nat} {locals : PostLocals}
    {requests : List SqRequest} (posting : Posting shift ci start qbuf older locals wrCnt pi requests)
    (ctx : CdmaUContext) {wr : DmaJfsWr} {request : SqRequest}
    (found : requestOf locals wr pi = some request)
    (room : pi + request.blocks ≤ ci + 2 ^ shift) :
    Posting shift ci start qbuf older (locals.accept ctx shift request) (wrCnt + 1) request.next
      (requests ++ [request]) := by
  obtain ⟨_, _, unstamped, _⟩ := requestOf_eq_some found
  have counted := posting.count_eq
  refine ⟨posting.inv.accept ctx found room, ?_, ?_, fun _ => ⟨request, ?_, unstamped, ?_⟩⟩
  · rw [List.length_append, List.length_singleton]
    omega
  · unfold PostLocals.accept
    rw [setWrid_frame]
    exact posting.qbuf_eq
  · exact List.getLast?_concat
  · rw [← posting.qbuf_eq]
    rfl

/-- The requests of a call as they stand on the ring when it returns: the direct
path has stamped the one it pushed. -/
def announcedRequests (result : PostResult) (posted : List SqRequest) : List SqRequest :=
  match result.announce with
  | some (.dsqe _) => posted.map (fun request => { request with stamp := some result.sq.pi })
  | _ => posted

/-- When the indices are one block apart, the request just appended is the only
one outstanding, and that block is all of it. -/
theorem SendRing.alone {shift ci pi start : Nat} {sq : CdmaUJettyQueue} {memory : Bytes}
    {requests : List SqRequest} {request : SqRequest}
    (inv : SendRing shift sq memory ci pi start (requests ++ [request]))
    (single : (sq.pi - sq.ci == 1) = true) :
    requests = [] ∧ request.first = start ∧ request.blocks = 1 ∧ start = ci ∧ pi = ci + 1 := by
  have small := inv.ring.geometry.cnt_le
  have ordered := inv.ring.ordered
  have room := inv.ring.room
  have apart : pi = ci + 1 := by
    have value := congrArg UInt32.toNat (beq_iff_eq.mp single)
    rw [inv.ring.pi_eq, inv.ring.ci_eq, toNat_counter_sub ordered (by omega)] at value
    change pi - ci = 1 at value
    omega
  have behind := inv.behind
  have length := inv.chain.length_le
  rw [List.length_append, List.length_singleton] at length
  have none : requests = [] := List.eq_nil_of_length_eq_zero (by omega)
  subst none
  obtain ⟨starts, ends⟩ := inv.chain
  rw [SqRequest.next, Chain] at ends
  have bounds := request.blocks_bounds
  exact ⟨rfl, starts, by omega, by omega, apart⟩

/-- Pushing the only outstanding block changes the two bytes of its index. -/
theorem SendRing.stamp {shift ci pi start : Nat} {sq : CdmaUJettyQueue} {memory : Bytes}
    {requests : List SqRequest} {request : SqRequest}
    (inv : SendRing shift sq memory ci pi start (requests ++ [request]))
    (unstamped : request.stamp = none) (single : (sq.pi - sq.ci == 1) = true) :
    SendRing shift sq
      (store memory (sq.qbuf + request.first % 2 ^ shift * 64) (leBytes 2 sq.pi.toNat)) ci pi
      start (requests ++ [{ request with stamp := some sq.pi }]) := by
  obtain ⟨none, starts, _, level, apart⟩ := inv.alone single
  subst none
  have one : pi - start = 1 := by omega
  refine ⟨inv.ring, ⟨starts, inv.chain.2⟩, inv.behind, ?_, ?_⟩
  · have bytes := inv.bytes
    rw [one] at bytes ⊢
    simp only [ringRead, List.nil_append, List.flatMap_singleton, List.range_one,
      Nat.add_zero] at bytes ⊢
    rw [SqRequest.bytes, unstamped] at bytes
    have front := load_store_front memory (sq.qbuf + start % 2 ^ shift * 64) 62
      (leBytes 2 sq.pi.toNat)
    rw [leBytes_length] at front
    rw [starts, front, bytes]
    rfl
  · intro other member
    cases List.mem_singleton.mp member
    exact inv.owners request (List.mem_singleton.mpr rfl)

/-- The ring when the loop of a call is done. -/
theorem SendRing.posting {shift ci pi start : Nat} {sq : CdmaUJettyQueue} {memory : Bytes}
    {requests : List SqRequest} (inv : SendRing shift sq memory ci pi start requests)
    (ctx : CdmaUContext) (wrs : List DmaJfsWr) :
    Posting shift ci start sq.qbuf requests.length
      (postSqWrLoop ctx wrs 0 ⟨memory, sq, none, false⟩).1
      (postSqWrLoop ctx wrs 0 ⟨memory, sq, none, false⟩).2.1
      (pi + blockSum (postedRequests ctx wrs pi ⟨memory, sq, none, false⟩))
      (requests ++ postedRequests ctx wrs pi ⟨memory, sq, none, false⟩) :=
  postSqWrLoop_keeps ctx (Posting shift ci start sq.qbuf requests.length)
    (fun posting => posting.inv.ring)
    (fun _ posting => ⟨posting.inv, posting.count_eq, posting.qbuf_eq, posting.last⟩)
    (fun posting checked room => posting.accept ctx (requestChecked_eq_some checked).2.2 room) wrs
    ⟨inv, rfl, rfl, fun some => absurd rfl some⟩

theorem Posting.single {shift ci start qbuf pi : Nat} {locals : PostLocals}
    {requests posted : List SqRequest}
    (posting : Posting shift ci start qbuf requests.length locals 1 pi (requests ++ posted)) :
    ∃ request, posted = [request] ∧ request.stamp = none ∧
      locals.dwqeAddr = some (qbuf + request.first % 2 ^ shift * 64) := by
  have counted := posting.count_eq
  rw [List.length_append] at counted
  have alone : posted.length = 1 := by omega
  obtain ⟨request, rfl⟩ := List.length_eq_one_iff.mp alone
  obtain ⟨last, isLast, unstamped, place⟩ := posting.last Nat.one_ne_zero
  rw [List.getLast?_concat] at isLast
  cases isLast
  exact ⟨request, rfl, unstamped, place⟩

/-- A whole call: the accepted requests are appended, and the direct path stamps
at most the one it pushes. -/
theorem SendRing.post {shift ci pi start : Nat} {sq : CdmaUJettyQueue} {memory : Bytes}
    {requests : List SqRequest} (inv : SendRing shift sq memory ci pi start requests)
    (ctx : CdmaUContext) (wrs : List DmaJfsWr) {posted : List SqRequest}
    (posted_eq : posted = postedRequests ctx wrs pi ⟨memory, sq, none, false⟩) :
    SendRing shift (cdmaPostSqWr ctx memory sq wrs).sq (cdmaPostSqWr ctx memory sq wrs).memory
      ci (pi + blockSum posted) start
      (requests ++ announcedRequests (cdmaPostSqWr ctx memory sq wrs) posted) := by
  subst posted_eq
  have done := inv.posting ctx wrs
  unfold cdmaPostSqWr
  generalize postSqWrLoop ctx wrs 0 ⟨memory, sq, none, false⟩ = loop at done ⊢
  generalize postedRequests ctx wrs pi ⟨memory, sq, none, false⟩ = posted at done ⊢
  obtain ⟨after, count, error⟩ := loop
  simp only at done ⊢
  by_cases none : count = 0
  · rw [if_pos none]
    exact done.inv
  rw [if_neg none]
  cases direct : count == 1 && after.dwqeEnable && after.sq.pi - after.sq.ci == 1 with
  | false => exact done.inv
  | true =>
      simp only [Bool.and_eq_true, beq_iff_eq] at direct
      obtain ⟨⟨rfl, _⟩, single⟩ := direct
      obtain ⟨request, rfl, unstamped, place⟩ := done.single
      have stamped := done.inv.stamp unstamped (beq_iff_eq.mpr single)
      rw [done.qbuf_eq] at stamped
      rw [place]
      simp only [cdmaWriteDsqe, announcedRequests, List.map_singleton]
      exact stamped

theorem SendRing.complete {shift ci pi start : Nat} {sq : CdmaUJettyQueue} {memory : Bytes}
    {request : SqRequest} {rest : List SqRequest}
    (inv : SendRing shift sq memory ci pi start (request :: rest)) :
    SendRing shift sq memory ci pi request.next rest := by
  obtain ⟨starts, later⟩ := inv.chain
  have grows : request.next = start + request.blocks := by
    rw [← starts]
    rfl
  have reach := later.le
  have split : pi - start = request.blocks + (pi - request.next) := by omega
  have bytes := inv.bytes
  rw [split, ringRead_add, List.flatMap_cons, ← grows] at bytes
  refine ⟨inv.ring, later, Nat.le_trans inv.behind (by omega), (List.append_inj bytes ?_).2,
    fun other member => inv.owners other (List.mem_cons_of_mem _ member)⟩
  rw [ringRead_length, request.bytes_length]

/-! ### The owner bit in the ring -/

/-- Bit 31 of the first word, as a byte of the block. -/
def ownerBit (block : List UInt8) : Bool := (block.getD 3 0).toNat.testBit 7

theorem CdmaJfsSqeCtl.owner_bit (ctl : CdmaJfsSqeCtl) :
    pack ctl.fields / 2 ^ 31 % 2 = ctl.owner.toNat := by
  have field := bits_pack (ctl.fields.take 10) (flagField ctl.owner) (ctl.fields.drop 11)
  have value := congrArg BitVec.toNat field
  change pack ctl.fields / 2 ^ 31 % 2 ^ 1 = (BitVec.ofBool ctl.owner).toNat at value
  rw [BitVec.toNat_ofBool] at value
  exact value

theorem TmpSq.ownerBit_bytes (tmp : TmpSq) {size : Nat} (long : 4 ≤ size) :
    ownerBit (load tmp.bytes 0 size) = tmp.ctl.owner := by
  have owner := tmp.ctl.owner_bit
  unfold ownerBit
  rw [load_getD (by omega), TmpSq.bytes, if_pos (by decide)]
  change (((image 48 tmp.ctl.fields).getD 3 0).toNat.testBit 7) = _
  rw [image, leBytes_getD (by decide), Nat.testBit_eq_decide_div_mod_eq, UInt8.toNat_ofNat']
  have reading : pack tmp.ctl.fields / 256 ^ 3 % 2 ^ 8 / 2 ^ 7 % 2 =
      pack tmp.ctl.fields / 2 ^ 31 % 2 := by omega
  rw [reading, owner]
  cases tmp.ctl.owner <;> rfl

theorem SqRequest.ownerBit_bytes (request : SqRequest) :
    ownerBit request.bytes = request.tmp.ctl.owner := by
  have bounds := request.blocks_bounds
  unfold SqRequest.bytes
  cases request.stamp with
  | none => exact request.tmp.ownerBit_bytes (by omega)
  | some pi =>
      have large : 4 ≤ request.blocks * 64 := by omega
      have plain := request.tmp.ownerBit_bytes large
      rw [← plain]
      unfold ownerBit SqRequest.encoding
      simp [leBytes, List.getD_eq_getElem?_getD]

/-! ### Runs of a send queue -/

/-- A send queue, the process's bytes, both indices unbounded, and the requests
the device has not completed. -/
structure SqWorld where
  ctx : CdmaUContext
  sq : CdmaUJettyQueue
  memory : Bytes
  ci : Nat
  pi : Nat
  requests : List SqRequest

inductive SqAction where
  | post (wrs : List DmaJfsWr)
  | complete
  | advance (count : Nat)
  | write (address : Nat) (byte : UInt8)

namespace SqWorld

def oldest (w : SqWorld) : Nat := Chain.start w.pi w.requests

def post (w : SqWorld) (wrs : List DmaJfsWr) : SqWorld :=
  let posted := postedRequests w.ctx wrs w.pi ⟨w.memory, w.sq, none, false⟩
  let result := cdmaPostSqWr w.ctx w.memory w.sq wrs
  { w with
    sq := result.sq
    memory := result.memory
    pi := w.pi + blockSum posted
    requests := w.requests ++ announcedRequests result posted }

/-- Requests complete in order, the consumer index stays behind the oldest one,
and the process writes outside the ring. -/
def step (w : SqWorld) : SqAction → Option SqWorld
  | .post wrs => some (w.post wrs)
  | .complete =>
      match w.requests with
      | [] => none
      | _ :: rest => some { w with requests := rest }
  | .advance count =>
      if w.ci + count ≤ w.oldest then
        some { w with ci := w.ci + count, sq := { w.sq with ci := w.sq.ci + counter count } }
      else none
  | .write address byte =>
      if address < w.sq.qbuf ∨ w.sq.qbuf + w.sq.qbufSize.toNat ≤ address then
        some { w with memory := Function.update w.memory address byte }
      else none

structure Initial (w : SqWorld) (shift : Nat) : Prop where
  ring : SqAt shift w.sq w.ci w.pi
  requests_eq : w.requests = []

def Holds (shift : Nat) (w : SqWorld) : Prop :=
  SendRing shift w.sq w.memory w.ci w.pi w.oldest w.requests

theorem Initial.holds {w : SqWorld} {shift : Nat} (initial : w.Initial shift) :
    Holds shift w := by
  have oldest : w.oldest = w.pi := by
    unfold SqWorld.oldest
    rw [initial.requests_eq]
    rfl
  unfold Holds
  rw [oldest, initial.requests_eq]
  refine ⟨initial.ring, rfl, initial.ring.ordered, ?_, ?_⟩
  · rw [Nat.sub_self]
    rfl
  · intro request member
    cases member

theorem ringRead_update {memory : Bytes} {base cnt first count address : Nat} (byte : UInt8)
    (positive : 0 < cnt) (outside : address < base ∨ base + cnt * 64 ≤ address) :
    ringRead base 64 cnt (Function.update memory address byte) first count =
      ringRead base 64 cnt memory first count := by
  apply ringRead_congr
  intro k _
  apply load_congr
  intro offset within
  have slot := Nat.mod_lt (first + k) positive
  have bound : (first + k) % cnt * 64 + 64 ≤ cnt * 64 := by omega
  apply Function.update_of_ne
  omega

variable {w next : SqWorld} {shift : Nat}

theorem Holds.step (held : Holds shift w) {action : SqAction}
    (stepped : w.step action = some next) : Holds shift next := by
  cases action with
  | post wrs =>
      cases stepped
      have inv := SendRing.post held w.ctx wrs rfl
      unfold Holds
      have oldest : (w.post wrs).oldest = w.oldest := inv.chain.start_eq
      rw [oldest]
      exact inv
  | complete =>
      simp only [SqWorld.step] at stepped
      split at stepped
      · cases stepped
      · rename_i request rest requests_eq
        cases stepped
        unfold Holds at held ⊢
        rw [requests_eq] at held
        have oldest : oldest { w with requests := rest } = request.next :=
          held.chain.2.start_eq
        rw [oldest]
        exact held.complete
  | advance count =>
      simp only [SqWorld.step, Option.ite_none_right_eq_some, Option.some.injEq] at stepped
      obtain ⟨within, rfl⟩ := stepped
      unfold Holds at held ⊢
      have reach := held.chain.le
      have room := held.ring.room
      have moved : w.sq.ci + counter count = counter (w.ci + count) := by
        rw [held.ring.ci_eq, counter_add]
      rw [moved]
      exact ⟨held.ring.setCi (by omega) (by omega), held.chain, within, held.bytes, held.owners⟩
  | write address byte =>
      simp only [SqWorld.step, Option.ite_none_right_eq_some, Option.some.injEq] at stepped
      obtain ⟨outside, rfl⟩ := stepped
      have geometry := held.ring.geometry
      have small := geometry.cnt_le
      rw [geometry.size_eq, toNat_counter_of_lt (by omega)] at outside
      have bytes := held.bytes
      refine ⟨held.ring, held.chain, held.behind, ?_, held.owners⟩
      rw [← bytes]
      exact ringRead_update byte (Nat.two_pow_pos shift) outside

theorem Holds.run (held : Holds shift w) {actions : List SqAction}
    (ran : run SqWorld.step w actions = some next) : Holds shift next :=
  run_invariant SqWorld.step (fun _ _ _ held stepped => Holds.step held stepped) held ran

end SqWorld

/-- In every reachable state the pointer stands at the producer's block and the
blocks from the oldest uncompleted request on are the encodings of the
uncompleted requests in posting order, each with the owner bit of its lap. -/
theorem cdmaUPostJfsWr_ring_run {start final : SqWorld} {shift : Nat}
    (initial : start.Initial shift) {actions : List SqAction}
    (ran : run SqWorld.step start actions = some final) :
    final.sq.pi = counter final.pi ∧
    final.sq.qbufCurr = final.sq.qbuf + final.sq.pi.toNat % 2 ^ shift * 64 ∧
    ringRead final.sq.qbuf 64 (2 ^ shift) final.memory final.oldest (final.pi - final.oldest) =
      final.requests.flatMap SqRequest.bytes ∧
    Chain final.oldest final.requests final.pi ∧
    ∀ request ∈ final.requests,
      ownerBit request.bytes = !(counter request.first).toNat.testBit shift := by
  have held := initial.holds.run ran
  have small := held.ring.geometry.small
  refine ⟨held.ring.pi_eq, ?_, held.bytes, held.chain, fun request member => ?_⟩
  · rw [held.ring.curr_eq, held.ring.pi_eq, toNat_counter, mod_word_mod_pow (by omega)]
  · rw [request.ownerBit_bytes, held.owners request member, toNat_counter,
      Nat.testBit_eq_decide_div_mod_eq, div_pow_mod_two_of_word (by omega)]
    unfold SqRequest.evenLap
    rcases Nat.mod_two_eq_zero_or_one (request.first / 2 ^ shift) with even | odd
    · simp [even]
    · simp [odd]

def segmentAt (address : UInt64) : DmaSge :=
  { addr := address, len := 64
    seg := { sva := address, len := 64, tid := 1, tokenValue := 2, tokenValueValid := true } }

def writeOne : DmaJfsWr :=
  { opcode := .write
    flag := { placeOrder := 0, compOrder := false, fence := false, solicitedEnable := false
              completeEnable := true }
    userCtx := 7, tpn := 1, rmtEid := 2
    rw :=
      { src := { sge := fun _ => segmentAt 65536, numSge := 1 }
        dst := { sge := fun _ => segmentAt 131072, numSge := 1 }
        targetHint := 0, notifyData := 0, notifyAddr := 0, notifyTokenid := 0
        notifyTokenvalue := 0 }
    cas := { dst := segmentAt 0, src := segmentAt 0, cmpData := 0, swapData := 0 }
    faa := { dst := segmentAt 0, src := segmentAt 0, operand := 0 } }

/-- A ring of four blocks whose indices are about to wrap. -/
def SqWorld.fourBlocks : SqWorld :=
  { ctx := { pageSize := 4096, page := 0, cqeSize := 64, dwqeEnable := 1 }
    sq :=
      { qbuf := 4096, qbufSize := 256, qbufCurr := 4096 + 192, pi := 4294967295
        ci := 4294967295, idx := 0, baseblkShift := 6, baseblkCnt := 4, baseblkMask := 3
        wrid := fun _ => 0, sqeBbCnt := 2, maxSgeNum := 1, flushFlag := false }
    memory := fun _ => 0, ci := 4294967295, pi := 4294967295, requests := [] }

theorem SqWorld.fourBlocks_initial : SqWorld.fourBlocks.Initial 2 :=
  ⟨⟨⟨rfl, rfl, rfl, rfl, by decide⟩, rfl, rfl, by decide, by decide, rfl⟩, rfl⟩

theorem cdmaUPostJfsWr_ring_run_fourBlocks :
    ∃ final, run SqWorld.step .fourBlocks [.post [writeOne], .complete, .advance 1,
        .post [writeOne, writeOne]] = some final ∧
      ringRead final.sq.qbuf 64 (2 ^ 2) final.memory final.oldest (final.pi - final.oldest) =
        final.requests.flatMap SqRequest.bytes := by
  have runs : (run SqWorld.step .fourBlocks [.post [writeOne], .complete, .advance 1,
      .post [writeOne, writeOne]]).isSome := by decide
  obtain ⟨final, ran⟩ := Option.isSome_iff_exists.mp runs
  exact ⟨final, ran, (cdmaUPostJfsWr_ring_run SqWorld.fourBlocks_initial ran).2.2.1⟩

end Libcdma
