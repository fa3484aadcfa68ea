/-
The completion ring in its bytes.

The device writes 64 bytes at a time, polling and cleaning read bit fields out of them,
and cleaning moves whole entries and rewrites one bit.  The records that the rest of the
development works with simulate this: every run over bytes is a run over records.
-/

import Libcdma.CompletionLayout
import Libcdma.CompletionPolling
import Libcdma.Foundation.Simulation

namespace Libcdma

open ByteImage WrapCounter Transition

def cqeAt (bytes : Bytes) (address : Nat) : CdmaUJfcCqe :=
  .decode (load bytes address cdmaCqeSize)

def ownerAt (bytes : Bytes) (address : Nat) : Bool := CdmaUJfcCqe.ownerBit (bytes address)

/-- Structure assignment, after which the owner bit of the destination is put back. -/
def cdmaUMoveCqeBytes (bytes : Bytes) (dest source : Nat) : Bytes :=
  let ownerBit := ownerAt bytes dest
  let moved := copy bytes dest (fun offset => bytes (source + offset)) cdmaCqeSize
  Function.update moved dest (CdmaUJfcCqe.withOwnerBit (moved dest) ownerBit)

theorem owner_cqeAt (bytes : Bytes) (address : Nat) :
    (cqeAt bytes address).owner = ownerAt bytes address := by
  unfold cqeAt cdmaCqeSize
  rw [load_cons, CdmaUJfcCqe.owner_decode]
  rfl

theorem cqeAt_congr {bytes other : Bytes} {address source : Nat}
    (same : ∀ offset, offset < cdmaCqeSize → bytes (address + offset) = other (source + offset)) :
    cqeAt bytes address = cqeAt other source :=
  congrArg CdmaUJfcCqe.decode (load_congr same)

theorem cqeAt_update (bytes : Bytes) (address : Nat) (owner : Bool) :
    cqeAt (Function.update bytes address (CdmaUJfcCqe.withOwnerBit (bytes address) owner))
        address =
      { cqeAt bytes address with owner := owner } := by
  have rest : load (Function.update bytes address
      (CdmaUJfcCqe.withOwnerBit (bytes address) owner)) (address + 1) 63 =
      load bytes (address + 1) 63 :=
    load_congr (fun offset _ => Function.update_of_ne (by omega) _ _)
  have front : ∀ memory : Bytes,
      load memory address 64 = memory address :: load memory (address + 1) 63 :=
    fun memory => load_cons memory address 63
  unfold cqeAt cdmaCqeSize
  rw [front, front, rest, Function.update_self]
  exact CdmaUJfcCqe.decode_withOwnerBit owner (congrArg (· + 1) (load_length _ _ _))

theorem cqeAt_move_dest (bytes : Bytes) (dest source : Nat) :
    cqeAt (cdmaUMoveCqeBytes bytes dest source) dest =
      { cqeAt bytes source with owner := (cqeAt bytes dest).owner } := by
  have moved : cqeAt (copy bytes dest (fun offset => bytes (source + offset)) cdmaCqeSize) dest =
      cqeAt bytes source :=
    cqeAt_congr (fun offset within => copy_inside _ _ within)
  unfold cdmaUMoveCqeBytes
  rw [cqeAt_update, moved, owner_cqeAt]

theorem cdmaUMoveCqeBytes_outside (bytes : Bytes) {dest source address : Nat}
    (outside : address < dest ∨ dest + cdmaCqeSize ≤ address) :
    cdmaUMoveCqeBytes bytes dest source address = bytes address := by
  have other : address ≠ dest := by
    unfold cdmaCqeSize at outside
    omega
  unfold cdmaUMoveCqeBytes
  rw [Function.update_of_ne other, copy_outside _ _ outside]

theorem cqeAt_move_other (bytes : Bytes) {dest source address : Nat}
    (apart : address + cdmaCqeSize ≤ dest ∨ dest + cdmaCqeSize ≤ address) :
    cqeAt (cdmaUMoveCqeBytes bytes dest source) address = cqeAt bytes address :=
  cqeAt_congr (fun _ within => cdmaUMoveCqeBytes_outside bytes (by omega))

namespace CqGeometry

variable {cq : CdmaUJettyQueue} {shift stride : Nat}

theorem slots_apart (geometry : CqGeometry cq shift stride) (whole : 6 ≤ stride)
    {left right : Nat} (different : left ≠ right) :
    cq.slotAddress left + cdmaCqeSize ≤ cq.slotAddress right ∨
      cq.slotAddress right + cdmaCqeSize ≤ cq.slotAddress left := by
  have fits : 2 ^ 6 ≤ 2 ^ stride := Nat.pow_le_pow_right (by decide) whole
  have step : ∀ low high : Nat, low < high →
      cq.slotAddress low + cdmaCqeSize ≤ cq.slotAddress high := by
    intro low high below
    have next : (low + 1) * 2 ^ stride ≤ high * 2 ^ stride := Nat.mul_le_mul_right _ below
    rw [Nat.add_mul] at next
    unfold CdmaUJettyQueue.slotAddress cdmaCqeSize
    rw [geometry.stride_toNat]
    omega
  rcases Nat.lt_or_gt_of_ne different with below | above
  · exact .inl (step left right below)
  · exact .inr (step right left above)

theorem entry_slot (geometry : CqGeometry cq shift stride) (n : UInt32) :
    cdmaUGetBufEntry cq n = cq.slotAddress (n.toNat % 2 ^ shift) := by
  have entry := cdmaUGetBufEntry_counter geometry n.toNat
  rw [WrapCounter.counter_toNat] at entry
  exact entry

theorem slot_inside (geometry : CqGeometry cq shift stride) (whole : 6 ≤ stride) {slot : Nat}
    (inside : slot < 2 ^ shift) :
    cq.qbuf ≤ cq.slotAddress slot ∧
      cq.slotAddress slot + cdmaCqeSize ≤ cq.qbuf + 2 ^ shift * 2 ^ stride := by
  have fits : 2 ^ 6 ≤ 2 ^ stride := Nat.pow_le_pow_right (by decide) whole
  have next : (slot + 1) * 2 ^ stride ≤ 2 ^ shift * 2 ^ stride := Nat.mul_le_mul_right _ inside
  rw [Nat.add_mul] at next
  unfold CdmaUJettyQueue.slotAddress cdmaCqeSize
  rw [geometry.stride_toNat]
  omega

end CqGeometry

/-- Memory in which completion entries are bytes like all others. -/
structure RawMemory where
  byte : Bytes
  queue : UInt64 → CdmaUJettyQueue
  word : Nat → UInt32

namespace RawMemory

def read (raw : RawMemory) : Memory :=
  { byte := raw.byte, cqe := cqeAt raw.byte, queue := raw.queue, word := raw.word }

def back (raw : RawMemory) (memory : Memory) : RawMemory :=
  { raw with queue := memory.queue, word := memory.word }

end RawMemory

def cdmaUCleanLoopBytes (cq : CdmaUJettyQueue) (jettyId : UInt32) :
    Nat → UInt32 → UInt32 → Bytes → Option (UInt32 × Bytes)
  | 0, _, _, _ => none
  | fuel + 1, pi, nfreed, bytes =>
      let pi := pi - 1
      if pi.toInt32 - cq.ci.toInt32 ≥ 0 then
        let cqe := cdmaUGetBufEntry cq pi
        if (cqeAt bytes cqe).localId = jettyId then
          cdmaUCleanLoopBytes cq jettyId fuel pi (nfreed + 1) bytes
        else if nfreed ≠ 0 then
          let dest := cdmaUGetBufEntry cq (pi + nfreed)
          cdmaUCleanLoopBytes cq jettyId fuel pi nfreed (cdmaUMoveCqeBytes bytes dest cqe)
        else cdmaUCleanLoopBytes cq jettyId fuel pi nfreed bytes
      else some (nfreed, bytes)

def cdmaUCleanJfcBytes (fuel : Nat) (jfc : CdmaUJfc) (raw : RawMemory) (jettyId : UInt32) :
    Option (CdmaUJfc × RawMemory) :=
  match cdmaUCleanScan jfc raw.read fuel jfc.cq.ci with
  | none => none
  | some pi =>
      match cdmaUCleanLoopBytes jfc.cq jettyId fuel pi 0 raw.byte with
      | none => none
      | some (nfreed, bytes) =>
          let raw := { raw with byte := bytes }
          if nfreed ≠ 0 then
            let jfc := jfc.setCi (jfc.cq.ci + nfreed)
            let word := Function.update raw.word jfc.swDb (jfc.cq.ci &&& cdmaJfcDbCiIdxM)
            some (jfc, { raw with word := word })
          else some (jfc, raw)

structure RawWorld where
  jfc : CdmaUJfc
  memory : RawMemory
  call : Option PollCall
  met : Nat

inductive RawAction where
  | device (slot : Nat) (entry : List UInt8)
  | post (queue : UInt64 → CdmaUJettyQueue)
  | call (crCnt : UInt32) (cr : UInt32 → DmaCr)
  | turn
  | clean (fuel : Nat) (jettyId : UInt32)

namespace RawWorld

def read (w : RawWorld) : DoorbellWorld := ⟨w.jfc, w.memory.read, w.call, w.met⟩

def turn (w : RawWorld) (call : PollCall) : RawWorld :=
  let after := w.read.turn call
  ⟨after.jfc, w.memory.back after.memory, after.call, after.met⟩

def device (w : RawWorld) (slot : Nat) (entry : List UInt8) : RawWorld :=
  let byte := store w.memory.byte (w.jfc.cq.slotAddress slot) entry
  { w with memory := { w.memory with byte := byte } }

/-- The device may write any 64 bytes to any slot at any time. -/
def step (w : RawWorld) : RawAction → Option RawWorld
  | .device slot entry =>
      if slot < w.jfc.cq.baseblkCnt.toNat ∧ entry.length = cdmaCqeSize
      then some (w.device slot entry) else none
  | .post queue => some { w with memory := { w.memory with queue := queue } }
  | .call crCnt cr =>
      match w.call with
      | none => some { w with call := some (.start crCnt cr), met := 0 }
      | some _ => none
  | .turn => w.call.map w.turn
  | .clean fuel jettyId =>
      match w.call with
      | none => (cdmaUCleanJfcBytes fuel w.jfc w.memory jettyId).map fun (jfc, memory) =>
          { w with jfc := jfc, memory := memory }
      | some _ => none

/-- The record-level action that a byte-level action stands for: a device write is a write
of the entry that its bytes encode. -/
def stands (w : RawWorld) : RawAction → DoorbellAction → Prop
  | .device slot entry, .outside cqe queue =>
      queue = w.memory.queue ∧ ∀ other, other < w.jfc.cq.baseblkCnt.toNat →
        cqe (w.jfc.cq.slotAddress other) =
          if other = slot then .decode entry
          else cqeAt w.memory.byte (w.jfc.cq.slotAddress other)
  | .post posted, .outside cqe queue =>
      queue = posted ∧ ∀ other, other < w.jfc.cq.baseblkCnt.toNat →
        cqe (w.jfc.cq.slotAddress other) = cqeAt w.memory.byte (w.jfc.cq.slotAddress other)
  | .call crCnt cr, .call count records => count = crCnt ∧ records = cr
  | .turn, .turn => True
  | .clean fuel jettyId, .clean amount jetty => amount = fuel ∧ jetty = jettyId
  | _, _ => False

end RawWorld

/-! ### Other bytes under the same queues -/

def Memory.showing (memory : Memory) (byte : Bytes) (cqe : Nat → CdmaUJfcCqe) : Memory :=
  { memory with byte := byte, cqe := cqe }

@[simp] theorem Memory.showing_queue (memory : Memory) (byte : Bytes)
    (cqe : Nat → CdmaUJfcCqe) : (memory.showing byte cqe).queue = memory.queue := rfl

theorem Memory.showing_setQueue (memory : Memory) (byte : Bytes) (cqe : Nat → CdmaUJfcCqe)
    (address : UInt64) (queue : CdmaUJettyQueue) :
    (memory.showing byte cqe).setQueue address queue =
      (memory.setQueue address queue).showing byte cqe := rfl

def SameSlots (cq : CdmaUJettyQueue) (shift : Nat) (cqe other : Nat → CdmaUJfcCqe) : Prop :=
  ∀ slot, slot < 2 ^ shift → cqe (cq.slotAddress slot) = other (cq.slotAddress slot)

section Showing

variable {jfc : CdmaUJfc} {shift stride : Nat} {memory : Memory} {byte : Bytes}
  {cqe : Nat → CdmaUJfcCqe}

theorem cdmaUGetNextCqe_showing (geometry : CqGeometry jfc.cq shift stride)
    (same : SameSlots jfc.cq shift cqe memory.cqe) (n : UInt32) :
    cdmaUGetNextCqe jfc (memory.showing byte cqe) n = cdmaUGetNextCqe jfc memory n := by
  have entry : cqe (cdmaUGetBufEntry jfc.cq n) = memory.cqe (cdmaUGetBufEntry jfc.cq n) := by
    rw [geometry.entry_slot]
    exact same _ (Nat.mod_lt _ (Nat.two_pow_pos shift))
  simp only [cdmaUGetNextCqe, Memory.showing, entry]

theorem cdmaUGetNextCqe_slot (geometry : CqGeometry jfc.cq shift stride) {n : UInt32}
    {address : Nat} (found : cdmaUGetNextCqe jfc memory n = some address) :
    ∃ slot, slot < 2 ^ shift ∧ address = jfc.cq.slotAddress slot := by
  have entry : cdmaUGetBufEntry jfc.cq n = address := by
    simp only [cdmaUGetNextCqe, Option.ite_none_left_eq_some, Option.some.injEq] at found
    exact found.2
  exact ⟨_, Nat.mod_lt _ (Nat.two_pow_pos shift), entry.symm.trans (geometry.entry_slot n)⟩

theorem PollCall.upcoming_showing (geometry : CqGeometry jfc.cq shift stride)
    (same : SameSlots jfc.cq shift cqe memory.cqe) (call : PollCall) :
    call.upcoming jfc (memory.showing byte cqe) = call.upcoming jfc memory := by
  unfold PollCall.upcoming
  rw [cdmaUGetNextCqe_showing geometry same]
  cases found : cdmaUGetNextCqe jfc memory jfc.cq.ci with
  | none => rfl
  | some address =>
      obtain ⟨slot, inside, rfl⟩ := cdmaUGetNextCqe_slot geometry found
      have here : (memory.showing byte cqe).cqe (jfc.cq.slotAddress slot) =
          memory.cqe (jfc.cq.slotAddress slot) := same slot inside
      rw [Option.map_some, Option.map_some, here]

theorem cdmaUUpdateFlushCr_showing (queue : UInt64) (entry : CdmaUJfcCqe) (cr : DmaCr) :
    cdmaUUpdateFlushCr (memory.showing byte cqe) queue entry cr =
      { cdmaUUpdateFlushCr memory queue entry cr with
        memory := (cdmaUUpdateFlushCr memory queue entry cr).memory.showing byte cqe } := by
  unfold cdmaUUpdateFlushCr
  cases cdmaGetCrStatus entry.status entry.substatus with
  | none => rfl
  | some status => cases entry.fd <;> rfl

theorem cdmaParseCqeForJfc_showing (entry : CdmaUJfcCqe) (cr : DmaCr) :
    cdmaParseCqeForJfc (memory.showing byte cqe) entry cr =
      { cdmaParseCqeForJfc memory entry cr with
        memory := (cdmaParseCqeForJfc memory entry cr).memory.showing byte cqe } := by
  unfold cdmaParseCqeForJfc cdmaUUpdateJettyIdx
  by_cases null : entry.userData = 0
  · simp only [null, if_true]
  · cases fd : entry.fd with
    | true =>
        simp only [null, if_false, if_true]
        exact cdmaUUpdateFlushCr_showing _ _ _
    | false =>
        simp only [null, if_false, Bool.false_eq_true, Memory.showing_queue,
          Memory.showing_setQueue]
        exact cdmaUUpdateFlushCr_showing _ _ _

def PollTurn.mapMemory (change : Memory → Memory) : PollTurn → PollTurn
  | .again jfc memory call => .again jfc (change memory) call
  | .exit jfc memory call value => .exit jfc (change memory) call value

theorem cdmaUPollJfcExit_showing (call : PollCall) (ret : JfcPollState) :
    cdmaUPollJfcExit jfc (memory.showing byte cqe) call ret =
      (cdmaUPollJfcExit jfc memory call ret).mapMemory (·.showing byte cqe) := by
  unfold cdmaUPollJfcExit
  by_cases polled : call.npolled = 0 <;> simp only [polled, ne_eq, not_true, not_false_eq_true,
    if_true, if_false] <;> rfl

/-- A turn of a poll call sees the slots of its ring and nothing else of the entries. -/
theorem cdmaUPollJfcTurn_showing (geometry : CqGeometry jfc.cq shift stride)
    (same : SameSlots jfc.cq shift cqe memory.cqe) (call : PollCall) :
    cdmaUPollJfcTurn jfc (memory.showing byte cqe) call =
      (cdmaUPollJfcTurn jfc memory call).mapMemory (·.showing byte cqe) := by
  have seen : call.upcoming jfc (memory.showing byte cqe) = call.upcoming jfc memory :=
    PollCall.upcoming_showing geometry same call
  cases next : call.upcoming jfc memory with
  | none =>
      rw [cdmaUPollJfcTurn_idle next, cdmaUPollJfcTurn_idle (seen.trans next)]
      exact cdmaUPollJfcExit_showing call .ok
  | some entry =>
      rw [cdmaUPollJfcTurn_meets next, cdmaUPollJfcTurn_meets (seen.trans next),
        cdmaParseCqeForJfc_showing]
      by_cases good : entry.good = true
      · rw [if_pos good, if_pos good]
        rfl
      · rw [if_neg good, if_neg good]
        exact cdmaUPollJfcExit_showing _ _

theorem cdmaUCleanScan_showing (geometry : CqGeometry jfc.cq shift stride)
    (same : SameSlots jfc.cq shift cqe memory.cqe) (fuel : Nat) (pi : UInt32) :
    cdmaUCleanScan jfc (memory.showing byte cqe) fuel pi =
      cdmaUCleanScan jfc memory fuel pi := by
  induction fuel generalizing pi with
  | zero => rfl
  | succ fuel ih =>
      rw [cdmaUCleanScan, cdmaUCleanScan, cdmaUGetNextCqe_showing geometry same]
      cases cdmaUGetNextCqe jfc memory pi with
      | none => rfl
      | some _ => simp only [ih]

end Showing

namespace DoorbellWorld

variable {w : DoorbellWorld} {shift stride : Nat} {byte : Bytes} {cqe : Nat → CdmaUJfcCqe}

theorem turn_showing (geometry : CqGeometry w.jfc.cq shift stride)
    (same : SameSlots w.jfc.cq shift cqe w.memory.cqe) (call : PollCall) :
    turn { w with memory := w.memory.showing byte cqe } call =
      { w.turn call with memory := (w.turn call).memory.showing byte cqe } := by
  unfold turn
  simp only [PollCall.upcoming_showing geometry same, cdmaUPollJfcTurn_showing geometry same]
  cases cdmaUPollJfcTurn w.jfc w.memory call <;> rfl

theorem turn_frame (w : DoorbellWorld) (call : PollCall) :
    (∃ ci, (w.turn call).jfc = w.jfc.setCi ci) ∧ (w.turn call).memory.cqe = w.memory.cqe := by
  have fields : (w.turn call).jfc = (cdmaUPollJfcTurn w.jfc w.memory call).jfc ∧
      (w.turn call).memory = (cdmaUPollJfcTurn w.jfc w.memory call).memory := by
    unfold turn
    cases cdmaUPollJfcTurn w.jfc w.memory call <;> exact ⟨rfl, rfl⟩
  rw [fields.1, fields.2]
  cases next : call.upcoming w.jfc w.memory with
  | none =>
      have exits := cdmaUPollJfcExit_frame w.jfc w.memory call .ok
      rw [cdmaUPollJfcTurn_idle next, exits.1, exits.2.1]
      exact ⟨⟨w.jfc.cq.ci, rfl⟩, rfl⟩
  | some entry =>
      have ring := cdmaUPollJfcTurn_ring next
      exact ⟨⟨_, ring.1⟩, ring.2.1⟩

end DoorbellWorld

def OutsideRing (cq : CdmaUJettyQueue) (shift stride address : Nat) : Prop :=
  address < cq.qbuf ∨ cq.qbuf + 2 ^ shift * 2 ^ stride ≤ address

section Cleaning

variable {cq : CdmaUJettyQueue} {shift stride : Nat}

theorem SameSlots.move (geometry : CqGeometry cq shift stride) (whole : 6 ≤ stride)
    {bytes : Bytes} {memory : Memory} (same : SameSlots cq shift (cqeAt bytes) memory.cqe)
    {dest source : Nat} (destInside : dest < 2 ^ shift) (sourceInside : source < 2 ^ shift) :
    SameSlots cq shift
      (cqeAt (cdmaUMoveCqeBytes bytes (cq.slotAddress dest) (cq.slotAddress source)))
      (cdmaUMoveCqe memory (cq.slotAddress dest) (cq.slotAddress source)).cqe := by
  intro slot inside
  unfold cdmaUMoveCqe
  rw [Memory.setCqe_cqe]
  by_cases here : slot = dest
  · rw [here, cqeAt_move_dest, Function.update_self, same dest destInside,
      same source sourceInside]
  · have apart := geometry.slots_apart whole here
    have other : cq.slotAddress slot ≠ cq.slotAddress dest :=
      fun equal => here (cq.slotAddress_injective equal)
    rw [cqeAt_move_other bytes apart, Function.update_of_ne other, same slot inside]

theorem SameSlots.store (geometry : CqGeometry cq shift stride) (whole : 6 ≤ stride)
    {bytes : Bytes} {cqe : Nat → CdmaUJfcCqe} (same : SameSlots cq shift (cqeAt bytes) cqe)
    (slot : Nat) {entry : List UInt8} (length : entry.length = cdmaCqeSize) :
    SameSlots cq shift (cqeAt (store bytes (cq.slotAddress slot) entry))
      (Function.update cqe (cq.slotAddress slot) (.decode entry)) := by
  intro other inside
  by_cases here : other = slot
  · rw [here, Function.update_self, cqeAt, ← length, load_store_same]
  · have apart := geometry.slots_apart whole here
    have distinct : cq.slotAddress other ≠ cq.slotAddress slot :=
      fun equal => here (cq.slotAddress_injective equal)
    rw [Function.update_of_ne distinct, ← same other inside, cqeAt, cqeAt,
      load_store_outside bytes entry (length ▸ apart)]

theorem store_outside (geometry : CqGeometry cq shift stride) (whole : 6 ≤ stride)
    (bytes : Bytes) {slot address : Nat} (inside : slot < 2 ^ shift) {entry : List UInt8}
    (length : entry.length = cdmaCqeSize) (outside : OutsideRing cq shift stride address) :
    store bytes (cq.slotAddress slot) entry address = bytes address := by
  have bounds := geometry.slot_inside whole inside
  unfold OutsideRing at outside
  unfold store
  rw [copy_outside _ _ (by omega)]

theorem move_outside (geometry : CqGeometry cq shift stride) (whole : 6 ≤ stride)
    (bytes : Bytes) {dest address : Nat} (source : Nat) (destInside : dest < 2 ^ shift)
    (outside : OutsideRing cq shift stride address) :
    cdmaUMoveCqeBytes bytes (cq.slotAddress dest) source address = bytes address := by
  have inside := geometry.slot_inside whole destInside
  unfold OutsideRing at outside
  exact cdmaUMoveCqeBytes_outside bytes (by omega)

/-- The loop over bytes does what the loop over entries does, and stays in the ring. -/
theorem cdmaUCleanLoopBytes_showing (geometry : CqGeometry cq shift stride)
    (whole : 6 ≤ stride) (jettyId : UInt32) {fuel : Nat} {pi nfreed freed : UInt32}
    {bytes after : Bytes} {memory : Memory}
    (same : SameSlots cq shift (cqeAt bytes) memory.cqe)
    (done : cdmaUCleanLoopBytes cq jettyId fuel pi nfreed bytes = some (freed, after)) :
    ∃ cqe, cdmaUCleanLoop cq jettyId fuel pi nfreed memory =
        some (freed, { memory with cqe := cqe }) ∧
      SameSlots cq shift (cqeAt after) cqe ∧
      ∀ address, OutsideRing cq shift stride address → after address = bytes address := by
  induction fuel generalizing pi nfreed bytes memory with
  | zero => cases done
  | succ fuel ih =>
      have slot : ∀ n : UInt32, n.toNat % 2 ^ shift < 2 ^ shift :=
        fun n => Nat.mod_lt _ (Nat.two_pow_pos shift)
      rw [cdmaUCleanLoopBytes] at done
      rw [cdmaUCleanLoop]
      simp only [geometry.entry_slot] at done ⊢
      rw [same _ (slot (pi - 1))] at done
      by_cases more : (pi - 1).toInt32 - cq.ci.toInt32 ≥ 0
      · rw [if_pos more] at done ⊢
        by_cases mine : (memory.cqe (cq.slotAddress ((pi - 1).toNat % 2 ^ shift))).localId = jettyId
        · rw [if_pos mine] at done ⊢
          exact ih same done
        · rw [if_neg mine] at done ⊢
          by_cases moves : nfreed ≠ 0
          · rw [if_pos moves] at done ⊢
            obtain ⟨cqe, cleaned, kept, frame⟩ :=
              ih (same.move geometry whole (slot (pi - 1 + nfreed)) (slot (pi - 1))) done
            refine ⟨cqe, cleaned, kept, ?_⟩
            intro address outside
            rw [frame address outside]
            exact move_outside geometry whole bytes _ (slot (pi - 1 + nfreed)) outside
          · rw [if_neg moves] at done ⊢
            exact ih same done
      · rw [if_neg more] at done ⊢
        cases done
        exact ⟨memory.cqe, rfl, same, fun _ _ => rfl⟩

end Cleaning

/-! ### Bytes simulate entries -/

/-- The entries of a record-level state are those that the bytes of the ring encode, and
the bytes around the ring are those of the beginning. -/
structure Shows (shift stride : Nat) (original : Bytes) (raw : RawWorld)
    (w : DoorbellWorld) : Prop where
  geometry : CqGeometry raw.jfc.cq shift stride
  jfc : w.jfc = raw.jfc
  call : w.call = raw.call
  met : w.met = raw.met
  queue : w.memory.queue = raw.memory.queue
  word : w.memory.word = raw.memory.word
  slots : SameSlots raw.jfc.cq shift (cqeAt raw.memory.byte) w.memory.cqe
  outside : ∀ address, OutsideRing raw.jfc.cq shift stride address →
    raw.memory.byte address = original address

namespace Shows

variable {shift stride : Nat} {original : Bytes} {raw next : RawWorld} {w : DoorbellWorld}

theorem start (geometry : CqGeometry raw.jfc.cq shift stride) :
    Shows shift stride raw.memory.byte raw raw.read :=
  ⟨geometry, rfl, rfl, rfl, rfl, rfl, fun _ _ => rfl, fun _ _ => rfl⟩

theorem read_eq (shows : Shows shift stride original raw w) :
    raw.read =
      { w with memory := w.memory.showing raw.memory.byte (cqeAt raw.memory.byte) } := by
  obtain ⟨jfc, memory, call, met⟩ := w
  obtain ⟨_, rfl, rfl, rfl, queue, word, _, _⟩ := shows
  unfold RawWorld.read RawMemory.read Memory.showing
  rw [← queue, ← word]

theorem memory_eq (shows : Shows shift stride original raw w) :
    raw.memory.read = w.memory.showing raw.memory.byte (cqeAt raw.memory.byte) :=
  congrArg DoorbellWorld.memory shows.read_eq

theorem device (shows : Shows shift stride original raw w) (whole : 6 ≤ stride) {slot : Nat}
    (inside : slot < 2 ^ shift) {entry : List UInt8} (length : entry.length = cdmaCqeSize) :
    Shows shift stride original (raw.device slot entry)
      { w with memory := w.memory.setCqe (raw.jfc.cq.slotAddress slot) (.decode entry) } := by
  constructor
  · exact shows.geometry
  · exact shows.jfc
  · exact shows.call
  · exact shows.met
  · exact shows.queue
  · exact shows.word
  · exact shows.slots.store shows.geometry whole slot length
  · intro address outside
    rw [← shows.outside address outside]
    exact store_outside shows.geometry whole raw.memory.byte inside length outside

theorem turn (shows : Shows shift stride original raw w) (call : PollCall) :
    Shows shift stride original (raw.turn call) (w.turn call) := by
  have geometry : CqGeometry w.jfc.cq shift stride := shows.jfc ▸ shows.geometry
  have same : SameSlots w.jfc.cq shift (cqeAt raw.memory.byte) w.memory.cqe :=
    shows.jfc ▸ shows.slots
  have turned : raw.read.turn call =
      { w.turn call with
        memory := (w.turn call).memory.showing raw.memory.byte (cqeAt raw.memory.byte) } := by
    rw [shows.read_eq, DoorbellWorld.turn_showing geometry same]
  have frame := w.turn_frame call
  obtain ⟨ci, moved⟩ := frame.1
  have jfc : (raw.turn call).jfc = w.jfc.setCi ci := by
    unfold RawWorld.turn
    rw [turned]
    exact moved
  unfold RawWorld.turn at jfc ⊢
  rw [turned] at jfc ⊢
  refine ⟨?_, rfl, rfl, rfl, rfl, rfl, ?_, ?_⟩
  · rw [jfc]
    exact geometry.setCi ci
  · rw [jfc, frame.2]
    exact same
  · intro address outside
    rw [jfc, shows.jfc] at outside
    exact shows.outside address outside

theorem clean (shows : Shows shift stride original raw w) (whole : 6 ≤ stride) {fuel : Nat}
    {jettyId : UInt32} {jfc : CdmaUJfc} {after : RawMemory}
    (done : cdmaUCleanJfcBytes fuel raw.jfc raw.memory jettyId = some (jfc, after)) :
    ∃ memory, cdmaUCleanJfc fuel w.jfc w.memory jettyId = some (jfc, memory) ∧
      Shows shift stride original { raw with jfc := jfc, memory := after }
        { w with jfc := jfc, memory := memory } := by
  have scanned : cdmaUCleanScan raw.jfc raw.memory.read fuel raw.jfc.cq.ci =
      cdmaUCleanScan raw.jfc w.memory fuel raw.jfc.cq.ci := by
    rw [shows.memory_eq]
    exact cdmaUCleanScan_showing shows.geometry shows.slots fuel raw.jfc.cq.ci
  unfold cdmaUCleanJfcBytes at done
  unfold cdmaUCleanJfc
  rw [scanned] at done
  rw [shows.jfc]
  cases found : cdmaUCleanScan raw.jfc w.memory fuel raw.jfc.cq.ci with
  | none =>
      rw [found] at done
      cases done
  | some pi =>
      simp only [found] at done
      cases looped : cdmaUCleanLoopBytes raw.jfc.cq jettyId fuel pi 0 raw.memory.byte with
      | none =>
          rw [looped] at done
          cases done
      | some pair =>
          obtain ⟨freed, bytes⟩ := pair
          obtain ⟨cqe, cleaned, same, frame⟩ :=
            cdmaUCleanLoopBytes_showing shows.geometry whole jettyId shows.slots looped
          have outside : ∀ address, OutsideRing raw.jfc.cq shift stride address →
              bytes address = original address :=
            fun address away => (frame address away).trans (shows.outside address away)
          simp only [looped] at done
          simp only [cleaned]
          by_cases none : freed ≠ 0
          · rw [if_pos none] at done ⊢
            cases done
            refine ⟨_, rfl, ?_⟩
            exact ⟨shows.geometry.setCi _, rfl, shows.call, shows.met, shows.queue,
              congrArg (fun word => Function.update word _ _) shows.word, same, outside⟩
          · rw [if_neg none] at done ⊢
            cases done
            refine ⟨_, rfl, ?_⟩
            exact ⟨shows.geometry, rfl, shows.call, shows.met, shows.queue, shows.word, same,
              outside⟩

theorem step (shows : Shows shift stride original raw w) (whole : 6 ≤ stride)
    {action : RawAction} (stepped : raw.step action = some next) :
    ∃ label after, raw.stands action label ∧ w.step label = some after ∧
      Shows shift stride original next after := by
  have slots : raw.jfc.cq.baseblkCnt.toNat = 2 ^ shift := shows.geometry.cnt_toNat
  cases action with
  | device slot entry =>
      simp only [RawWorld.step, Option.ite_none_right_eq_some, Option.some.injEq] at stepped
      obtain ⟨⟨inside, length⟩, rfl⟩ := stepped
      rw [slots] at inside
      refine ⟨.outside (Function.update w.memory.cqe (raw.jfc.cq.slotAddress slot)
        (.decode entry)) w.memory.queue, _, ⟨shows.queue, ?_⟩, rfl,
        shows.device whole inside length⟩
      intro other otherInside
      rw [slots] at otherInside
      by_cases here : other = slot
      · rw [if_pos here, here, Function.update_self]
      · have distinct : raw.jfc.cq.slotAddress other ≠ raw.jfc.cq.slotAddress slot :=
          fun equal => here (raw.jfc.cq.slotAddress_injective equal)
        rw [if_neg here, Function.update_of_ne distinct, shows.slots other otherInside]
  | post queue =>
      cases stepped
      refine ⟨.outside w.memory.cqe queue, _, ⟨rfl, ?_⟩, rfl, ?_⟩
      · intro other otherInside
        rw [slots] at otherInside
        exact (shows.slots other otherInside).symm
      · exact ⟨shows.geometry, shows.jfc, shows.call, shows.met, rfl, shows.word, shows.slots,
          shows.outside⟩
  | call crCnt cr =>
      simp only [RawWorld.step] at stepped
      cases busy : raw.call with
      | some call =>
          rw [busy] at stepped
          cases stepped
      | none =>
          rw [busy] at stepped
          cases stepped
          refine ⟨.call crCnt cr, { w with call := some (.start crCnt cr), met := 0 },
            ⟨rfl, rfl⟩, ?_, ?_⟩
          · simp only [DoorbellWorld.step, shows.call, busy]
          · exact ⟨shows.geometry, shows.jfc, rfl, rfl, shows.queue, shows.word, shows.slots,
              shows.outside⟩
  | turn =>
      simp only [RawWorld.step, Option.map_eq_some_iff] at stepped
      obtain ⟨call, active, rfl⟩ := stepped
      refine ⟨.turn, w.turn call, trivial, ?_, shows.turn call⟩
      simp only [DoorbellWorld.step, shows.call, active, Option.map_some]
  | clean fuel jettyId =>
      simp only [RawWorld.step] at stepped
      cases busy : raw.call with
      | some call =>
          rw [busy] at stepped
          cases stepped
      | none =>
          simp only [busy, Option.map_eq_some_iff] at stepped
          obtain ⟨⟨jfc, after⟩, done, rfl⟩ := stepped
          obtain ⟨memory, cleaned, kept⟩ := shows.clean whole done
          refine ⟨.clean fuel jettyId, { w with jfc := jfc, memory := memory }, ⟨rfl, rfl⟩, ?_,
            busy ▸ kept⟩
          simp only [DoorbellWorld.step, shows.call, busy, cleaned, Option.map_some]

end Shows

/-- Whatever 64 bytes the device writes and however polling, posting and cleaning
interleave, a run over the bytes of a completion ring is a run over its entries: same
records, doorbell and send queues, the entries in the slots always those that the bytes
encode, and no byte outside the ring touched. -/
theorem cdmaUPollJfc_bytes {start final : RawWorld} {shift stride : Nat}
    (geometry : CqGeometry start.jfc.cq shift stride) (whole : 6 ≤ stride)
    {actions : List RawAction} (ran : run RawWorld.step start actions = some final) :
    ∃ labels after, Labelled RawWorld.step RawWorld.stands start actions labels ∧
      run DoorbellWorld.step start.read labels = some after ∧
      Shows shift stride start.memory.byte final after := by
  have simulates : Simulates RawWorld.step DoorbellWorld.step (fun _ _ => True)
      (Shows shift stride start.memory.byte) RawWorld.stands :=
    ⟨fun _ shows stepped => shows.step whole stepped⟩
  have always : Conforms RawWorld.step (fun _ _ => True) start actions :=
    conforms_of_forall RawWorld.step (fun _ _ => trivial) start
  exact simulates.run always (Shows.start geometry) ran

def RawWorld.minDepth : RawWorld :=
  { jfc := CqWorld.minDepth.jfc
    memory := { byte := fun _ => 0, queue := fun _ => .empty, word := fun _ => 0 }
    call := none
    met := 0 }

/-- An entry of queue 5 is moved over one of queue 0, and polled from there. -/
theorem cdmaUPollJfc_bytes_moved :
    ∃ final, run RawWorld.step .minDepth
        [.device 0 (CdmaUJfcCqe.encode { CdmaUJfcCqe.success with owner := true, localNumL := 5 }),
          .device 1 (CdmaUJfcCqe.encode { CdmaUJfcCqe.success with owner := true }),
          .clean 8 0, .call 2 fun _ => .blank, .turn, .turn] = some final ∧
      (final.jfc.cq.ci = 2 ∧ final.memory.word 16384 = 2 ∧ final.memory.byte 8262 = 5) ∧
      ∃ after, Shows 6 6 RawWorld.minDepth.memory.byte final after := by
  have runs : (run RawWorld.step .minDepth
        [.device 0 (CdmaUJfcCqe.encode { CdmaUJfcCqe.success with owner := true, localNumL := 5 }),
          .device 1 (CdmaUJfcCqe.encode { CdmaUJfcCqe.success with owner := true }),
          .clean 8 0, .call 2 fun _ => .blank, .turn, .turn]).map
      (fun final => (final.jfc.cq.ci, final.memory.word 16384, final.memory.byte 8262)) =
        some (2, 2, 5) := by decide +kernel
  obtain ⟨final, ran, values⟩ := Option.map_eq_some_iff.mp runs
  have geometry : CqGeometry RawWorld.minDepth.jfc.cq 6 6 := ⟨rfl, rfl, rfl, by decide⟩
  have shows := cdmaUPollJfc_bytes geometry (Nat.le_refl 6) ran
  obtain ⟨_, after, _, _, shown⟩ := shows
  refine ⟨final, ran, ?_, after, shown⟩
  simpa only [Prod.mk.injEq] using values

end Libcdma
