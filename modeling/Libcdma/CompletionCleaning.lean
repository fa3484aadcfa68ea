/-
Removing the entries of one send queue from a completion ring.

The scan for the producer index compares every slot with the lap of the consumer
index, so it stops at the ring's seam whatever lies beyond, and when the pending
entries end exactly at the seam it runs on through a whole lap.  The distance it
covers decides what the compaction behind it filters.
-/

import Libcdma.Foundation.CircularFilter
import Libcdma.CompletionWorld

namespace Libcdma

open WrapCounter LapRing CircularFilter Transition

def ownerField : StampField CdmaUJfcCqe where
  owner := CdmaUJfcCqe.owner
  setOwner bit cqe := { cqe with owner := bit }
  owner_set _ _ := rfl
  set_set _ _ _ := rfl

def CdmaUJfcCqe.belongsTo (jettyId : UInt32) (cqe : CdmaUJfcCqe) : Bool := cqe.localId == jettyId

/-- A ring of whole entries with the consumer at one index and the device at
another, in terms of unbounded indices; what the entries hold is arbitrary. -/
structure RingAt (shift stride : Nat) (cq : CdmaUJettyQueue) (cqe : Nat → CdmaUJfcCqe)
    (first written : Nat) : Prop where
  geometry : CqGeometry cq shift stride
  whole : 6 ≤ stride
  ci_eq : cq.ci = counter first
  ordered : first ≤ written
  room : written ≤ first + 2 ^ shift
  stamped : Stamped CdmaUJfcCqe.owner (2 ^ shift) (ringSlots cq cqe) written

theorem RingInv.at {shift stride : Nat} {cq : CdmaUJettyQueue} {cqe : Nat → CdmaUJfcCqe}
    {written consumed : List CdmaUJfcCqe}
    (inv : RingInv shift stride cq cqe written consumed) (whole : 6 ≤ stride) :
    RingAt shift stride cq cqe consumed.length written.length :=
  ⟨inv.geometry, whole, inv.ci_eq, inv.ordered, inv.room, inv.stamped⟩

def scanValid (cnt first : Nat) (slots : Nat → CdmaUJfcCqe) (offset : Nat) : Prop :=
  (slots ((first + offset) % cnt)).owner = lapOwner cnt first

namespace RingAt

variable {shift stride first written : Nat} {jfc : CdmaUJfc} {memory : Memory}

theorem cnt_lt (ring : RingAt shift stride jfc.cq memory.cqe first written) :
    2 ^ shift < 2 ^ 26 := by
  have exponents := ring.geometry.exponents
  have whole := ring.whole
  exact Nat.pow_lt_pow_right Nat.one_lt_two (by omega)

theorem scanValid_before_seam (ring : RingAt shift stride jfc.cq memory.cqe first written)
    {offset : Nat} (pending : first + offset < written)
    (near : first % 2 ^ shift + offset < 2 ^ shift) :
    scanValid (2 ^ shift) first (ringSlots jfc.cq memory.cqe) offset := by
  have room := ring.room
  unfold scanValid
  rw [ring.stamped.of_written pending (by omega), lapOwner_same_lap near]

theorem not_scanValid_at_seam (ring : RingAt shift stride jfc.cq memory.cqe first written)
    {offset : Nat} (pending : first + offset < written)
    (seam : first % 2 ^ shift + offset = 2 ^ shift) :
    ¬scanValid (2 ^ shift) first (ringSlots jfc.cq memory.cqe) offset := by
  have room := ring.room
  have positive := Nat.two_pow_pos shift
  unfold scanValid
  rw [ring.stamped.of_written pending (by omega), lapOwner_next_lap (by omega) (by omega)]
  exact Bool.not_ne_self _

theorem not_scanValid_at_end (ring : RingAt shift stride jfc.cq memory.cqe first written)
    {offset : Nat} (caughtUp : first + offset = written)
    (near : first % 2 ^ shift + offset < 2 ^ shift) :
    ¬scanValid (2 ^ shift) first (ringSlots jfc.cq memory.cqe) offset := by
  have positive := Nat.two_pow_pos shift
  unfold scanValid
  rw [ring.stamped _ (by omega) (by omega), lapOwner_same_lap near]
  exact Bool.not_ne_self _

/-- When the pending entries end at the seam every slot passes the test: those
before the seam as written in this lap, the others as not written in the next. -/
theorem scanValid_of_end_at_seam (ring : RingAt shift stride jfc.cq memory.cqe first written)
    (seam : first % 2 ^ shift + (written - first) = 2 ^ shift) (offset : Nat) :
    scanValid (2 ^ shift) first (ringSlots jfc.cq memory.cqe) offset := by
  have ordered := ring.ordered
  have positive := Nat.two_pow_pos shift
  have inside := Nat.mod_lt offset positive
  have folded : (first + offset) % 2 ^ shift = (first + offset % 2 ^ shift) % 2 ^ shift := by
    rw [Nat.add_mod_mod]
  suffices scanValid (2 ^ shift) first (ringSlots jfc.cq memory.cqe) (offset % 2 ^ shift) by
    unfold scanValid at this ⊢
    rw [folded]
    exact this
  generalize offset % 2 ^ shift = near at inside
  by_cases pending : first + near < written
  · exact ring.scanValid_before_seam pending (by omega)
  · unfold scanValid
    rw [ring.stamped _ (by omega) (by omega), lapOwner_next_lap (by omega) (by omega),
      Bool.not_not]

theorem next_eq (ring : RingAt shift stride jfc.cq memory.cqe first written) (offset : Nat) :
    cdmaUGetNextCqe jfc memory (counter (first + offset)) = none ↔
      ¬scanValid (2 ^ shift) first (ringSlots jfc.cq memory.cqe) offset := by
  rw [cdmaUGetNextCqe_counter ring.geometry memory ring.ci_eq]
  unfold scanValid
  split <;> simp_all

theorem scan_eq (ring : RingAt shift stride jfc.cq memory.cqe first written) {count : Nat}
    (valid : ∀ offset, offset < count →
      scanValid (2 ^ shift) first (ringSlots jfc.cq memory.cqe) offset)
    (within : ∀ offset, offset < count →
      ¬counter (first + offset) > jfc.cq.ci + jfc.cq.baseblkCnt)
    (stop : ¬scanValid (2 ^ shift) first (ringSlots jfc.cq memory.cqe) count ∨
      counter (first + count) > jfc.cq.ci + jfc.cq.baseblkCnt) {fuel : Nat}
    (enough : count < fuel) :
    cdmaUCleanScan jfc memory fuel jfc.cq.ci = some (counter (first + count)) := by
  suffices ∀ done, done ≤ count → ∀ fuel, count - done < fuel →
      cdmaUCleanScan jfc memory fuel (counter (first + done)) = some (counter (first + count)) by
    have start := this 0 (Nat.zero_le _) fuel enough
    rw [Nat.add_zero, ← ring.ci_eq] at start
    exact start
  intro done reached fuel
  induction fuel generalizing done with
  | zero => omega
  | succ fuel ih =>
      intro enough
      rw [cdmaUCleanScan]
      cases next : cdmaUGetNextCqe jfc memory (counter (first + done)) with
      | none =>
          have invalid := (ring.next_eq done).mp next
          have last : done = count := by
            by_contra early
            exact invalid (valid done (by omega))
          rw [last]
      | some address =>
          by_cases last : done = count
          · subst last
            have beyond : counter (first + done) > jfc.cq.ci + jfc.cq.baseblkCnt := by
              rcases stop with invalid | beyond
              · rw [(ring.next_eq done).mpr invalid] at next
                cases next
              · exact beyond
            simp only [if_pos beyond]
          · simp only [if_neg (within done (by omega)), counter_succ]
            exact ih (done + 1) (by omega) (by omega)

theorem scan_endless (ring : RingAt shift stride jfc.cq memory.cqe first written)
    (valid : ∀ offset, scanValid (2 ^ shift) first (ringSlots jfc.cq memory.cqe) offset)
    (within : ∀ pi : UInt32, ¬pi > jfc.cq.ci + jfc.cq.baseblkCnt) (fuel done : Nat) :
    cdmaUCleanScan jfc memory fuel (counter (first + done)) = none := by
  induction fuel generalizing done with
  | zero => rfl
  | succ fuel ih =>
      rw [cdmaUCleanScan]
      cases next : cdmaUGetNextCqe jfc memory (counter (first + done)) with
      | none => exact absurd (valid done) ((ring.next_eq done).mp next)
      | some address =>
          simp only [if_neg (within _), counter_succ]
          exact ih (done + 1)

theorem bound_toNat (ring : RingAt shift stride jfc.cq memory.cqe first written)
    (fits : first % 2 ^ 32 + 2 ^ shift < 2 ^ 32) :
    (jfc.cq.ci + jfc.cq.baseblkCnt).toNat = first % 2 ^ 32 + 2 ^ shift := by
  rw [UInt32.toNat_add, ring.geometry.cnt_toNat, ring.ci_eq, toNat_counter,
    Nat.mod_eq_of_lt fits]

theorem within_bound (ring : RingAt shift stride jfc.cq memory.cqe first written)
    (fits : first % 2 ^ 32 + 2 ^ shift < 2 ^ 32) {offset : Nat} (near : offset ≤ 2 ^ shift) :
    ¬counter (first + offset) > jfc.cq.ci + jfc.cq.baseblkCnt := by
  rw [gt_iff_lt, UInt32.lt_iff_toNat_lt, ring.bound_toNat fits, toNat_counter]
  omega

theorem beyond_bound (ring : RingAt shift stride jfc.cq memory.cqe first written)
    (fits : first % 2 ^ 32 + 2 ^ shift + 1 < 2 ^ 32) :
    counter (first + (2 ^ shift + 1)) > jfc.cq.ci + jfc.cq.baseblkCnt := by
  rw [gt_iff_lt, UInt32.lt_iff_toNat_lt, ring.bound_toNat (by omega), toNat_counter]
  omega

theorem beyond_wrapped (ring : RingAt shift stride jfc.cq memory.cqe first written)
    (wraps : 2 ^ 32 ≤ first % 2 ^ 32 + 2 ^ shift) :
    counter (first + 0) > jfc.cq.ci + jfc.cq.baseblkCnt := by
  have small := ring.cnt_lt
  rw [gt_iff_lt, UInt32.lt_iff_toNat_lt, UInt32.toNat_add, ring.geometry.cnt_toNat, ring.ci_eq,
    toNat_counter, toNat_counter]
  omega

end RingAt

/-! ### The compaction -/

section Compaction

variable {cq : CdmaUJettyQueue} {shift first : Nat}

theorem cdmaUCleanLoop_end (ci_eq : cq.ci = counter first) (jettyId nfreed : UInt32)
    (memory : Memory) (fuel : Nat) :
    cdmaUCleanLoop cq jettyId (fuel + 1) (counter first) nfreed memory = some (nfreed, memory) := by
  have behind : counter first - 1 - counter first = 0 - 1 := by grind
  have ended : ¬(counter first - 1).toInt32 - cq.ci.toInt32 ≥ 0 := by
    rw [toInt32_sub_nonneg_iff, ci_eq, behind]
    decide
  rw [cdmaUCleanLoop]
  simp only [if_neg ended]

theorem cdmaUCleanLoop_turn
    (entry : ∀ index, cdmaUGetBufEntry cq (counter index) = cq.slotAddress (index % 2 ^ shift))
    (ci_eq : cq.ci = counter first) (jettyId : UInt32) {count freed : Nat}
    (small : freed + (count + 1) ≤ 2 ^ 31) (memory : Memory) (fuel : Nat) :
    cdmaUCleanLoop cq jettyId (fuel + 1) (counter (first + (count + 1))) (counter freed) memory =
      if (ringSlots cq memory.cqe ((first + count) % 2 ^ shift)).belongsTo jettyId = true then
        cdmaUCleanLoop cq jettyId fuel (counter (first + count)) (counter (freed + 1)) memory
      else if freed = 0 then
        cdmaUCleanLoop cq jettyId fuel (counter (first + count)) (counter freed) memory
      else
        cdmaUCleanLoop cq jettyId fuel (counter (first + count)) (counter freed)
          (cdmaUMoveCqe memory (cq.slotAddress ((first + count + freed) % 2 ^ shift))
            (cq.slotAddress ((first + count) % 2 ^ shift))) := by
  have previous : counter (first + (count + 1)) - 1 = counter (first + count) := by
    rw [← Nat.add_assoc, ← counter_succ]
    grind
  have goesOn : (counter (first + count)).toInt32 - cq.ci.toInt32 ≥ 0 := by
    rw [toInt32_sub_nonneg_iff, ci_eq, toNat_counter_sub (by omega) (by omega)]
    omega
  have source : (memory.cqe (cq.slotAddress ((first + count) % 2 ^ shift))).localId = jettyId ↔
      (ringSlots cq memory.cqe ((first + count) % 2 ^ shift)).belongsTo jettyId = true :=
    beq_iff_eq.symm
  have nonzero : counter freed ≠ 0 ↔ ¬freed = 0 := by
    have zero : (0 : UInt32) = counter 0 := rfl
    rw [not_iff_not, zero, counter_eq_iff]
    omega
  rw [cdmaUCleanLoop]
  simp only [previous, if_pos goesOn, entry, source, nonzero, counter_succ, counter_add, ite_not]

theorem ringSlots_move (memory : Memory) (dest source : Nat) :
    ringSlots cq (cdmaUMoveCqe memory (cq.slotAddress dest) (cq.slotAddress source)).cqe =
      Function.update (ringSlots cq memory.cqe) dest
        (ownerField.move (ringSlots cq memory.cqe source) (ringSlots cq memory.cqe dest)) := by
  unfold cdmaUMoveCqe
  rw [Memory.setCqe_cqe, ringSlots_update]
  rfl

/-- The loop is the compaction of the window, one turn for each of its entries,
and the last test ends it. -/
theorem cdmaUCleanLoop_eq
    (entry : ∀ index, cdmaUGetBufEntry cq (counter index) = cq.slotAddress (index % 2 ^ shift))
    (ci_eq : cq.ci = counter first) (jettyId : UInt32) {count freed : Nat}
    (small : freed + count ≤ 2 ^ 31) (memory : Memory) :
    ∃ cleaned, (∀ fuel,
        cdmaUCleanLoop cq jettyId fuel (counter (first + count)) (counter freed) memory =
          if count < fuel then
            some (counter (compact ownerField (CdmaUJfcCqe.belongsTo jettyId) (2 ^ shift) first
              count freed (ringSlots cq memory.cqe)).2, cleaned)
          else none) ∧
      ringSlots cq cleaned.cqe = (compact ownerField (CdmaUJfcCqe.belongsTo jettyId)
        (2 ^ shift) first count freed (ringSlots cq memory.cqe)).1 := by
  induction count generalizing freed memory with
  | zero =>
      refine ⟨memory, fun fuel => ?_, rfl⟩
      cases fuel with
      | zero => rfl
      | succ fuel => exact cdmaUCleanLoop_end ci_eq jettyId _ memory fuel
  | succ count ih =>
      have turn := cdmaUCleanLoop_turn entry ci_eq jettyId small memory
      -- whichever turn it is, the rest takes one unit of fuel less
      have counted {moved cleaned : Memory} {kept : Nat} {result : UInt32}
          (rest : ∀ fuel, cdmaUCleanLoop cq jettyId fuel (counter (first + count)) (counter kept)
            moved = if count < fuel then some (result, cleaned) else none)
          (steps : ∀ fuel, cdmaUCleanLoop cq jettyId (fuel + 1) (counter (first + (count + 1)))
            (counter freed) memory =
              cdmaUCleanLoop cq jettyId fuel (counter (first + count)) (counter kept) moved)
          (fuel : Nat) :
          cdmaUCleanLoop cq jettyId fuel (counter (first + (count + 1))) (counter freed) memory =
            if count + 1 < fuel then some (result, cleaned) else none := by
        cases fuel with
        | zero => rfl
        | succ fuel =>
            rw [steps, rest]
            simp only [Nat.add_lt_add_iff_right]
      rw [compact]
      by_cases belongs : (ringSlots cq memory.cqe ((first + count) % 2 ^ shift)).belongsTo
          jettyId = true
      · simp only [if_pos belongs] at turn ⊢
        have fewer : freed + 1 + count ≤ 2 ^ 31 := by omega
        obtain ⟨cleaned, rest, slots⟩ := ih fewer memory
        exact ⟨cleaned, counted rest turn, slots⟩
      · simp only [if_neg belongs] at turn ⊢
        by_cases none : freed = 0
        · subst none
          simp only [if_true] at turn ⊢
          have fewer : 0 + count ≤ 2 ^ 31 := by omega
          obtain ⟨cleaned, rest, slots⟩ := ih fewer memory
          exact ⟨cleaned, counted rest turn, slots⟩
        · simp only [if_neg none] at turn ⊢
          rw [← ringSlots_move]
          have fewer : freed + count ≤ 2 ^ 31 := by omega
          obtain ⟨cleaned, rest, slots⟩ := ih fewer _
          exact ⟨cleaned, counted rest turn, slots⟩

end Compaction

def cqEntries (cq : CdmaUJettyQueue) (cqe : Nat → CdmaUJfcCqe) (start : UInt32) (count : Nat) :
    List CdmaUJfcCqe :=
  (List.range count).map fun offset => cqe (cdmaUGetBufEntry cq (start + counter offset))

theorem cqEntries_counter {cq : CdmaUJettyQueue} {shift : Nat}
    (entry : ∀ index, cdmaUGetBufEntry cq (counter index) = cq.slotAddress (index % 2 ^ shift))
    (cqe : Nat → CdmaUJfcCqe) (first count : Nat) :
    cqEntries cq cqe (counter first) count = window (ringSlots cq cqe) (2 ^ shift) first count := by
  apply List.map_congr_left
  intro offset _
  rw [counter_add, entry]
  rfl

/-- What a pass over the entries from the consumer index to another index leaves:
those of the queue are counted, the others are packed below the end of the window
in their order, and nothing else has changed. -/
structure CleanedWindow (cq : CdmaUJettyQueue) (jettyId pi : UInt32)
    (before after : Nat → CdmaUJfcCqe) (nfreed : UInt32) : Prop where
  freed_eq : nfreed.toNat =
    (cqEntries cq before cq.ci (pi - cq.ci).toNat).countP (CdmaUJfcCqe.belongsTo jettyId)
  kept : (cqEntries cq after (cq.ci + nfreed) (pi - (cq.ci + nfreed)).toNat).map
      ownerField.payload =
    ((cqEntries cq before cq.ci (pi - cq.ci).toNat).filter
      (fun cqe => !cqe.belongsTo jettyId)).map ownerField.payload
  owners : ∀ index, (after (cdmaUGetBufEntry cq index)).owner =
    (before (cdmaUGetBufEntry cq index)).owner
  outside : ∀ index,
    (∀ offset, offset < (pi - cq.ci).toNat →
      cdmaUGetBufEntry cq (cq.ci + counter offset) ≠ cdmaUGetBufEntry cq index) →
    after (cdmaUGetBufEntry cq index) = before (cdmaUGetBufEntry cq index)

/-- From any index at most a lap ahead of the consumer, the backward loop takes one
turn for each entry in between and filters them in place.  The entries lie whole in
their slots, as `CqSlots` takes them to. -/
theorem cdmaUCleanLoop_filters {cq : CdmaUJettyQueue} {shift : Nat} (slots : CqSlots cq shift)
    (size : shift ≤ 30) (jettyId pi : UInt32) (near : pi - cq.ci ≤ cq.baseblkCnt)
    (memory : Memory) :
    ∃ nfreed cleaned,
      (∀ fuel, cdmaUCleanLoop cq jettyId fuel pi 0 memory =
        if (pi - cq.ci).toNat < fuel then some (nfreed, cleaned) else none) ∧
      CleanedWindow cq jettyId pi memory.cqe cleaned.cqe nfreed := by
  have bounded : shift < 32 := by omega
  have entry := slots.entry_eq bounded
  have cnt : 2 ^ shift ≤ 2 ^ 30 := Nat.pow_le_pow_right Nat.two_pos size
  have lap : (pi - cq.ci).toNat ≤ 2 ^ shift := by
    rw [UInt32.le_iff_toNat_le, slots.cnt_eq, toNat_counter_of_lt (by omega)] at near
    exact near
  obtain ⟨first, ci_eq⟩ : ∃ first, cq.ci = counter first := ⟨_, (counter_toNat _).symm⟩
  obtain ⟨count, distance⟩ : ∃ count, (pi - cq.ci).toNat = count := ⟨_, rfl⟩
  have pi_eq : pi = counter (first + count) := by
    rw [← counter_add, ← ci_eq, ← distance, counter_toNat]
    grind
  rw [distance] at lap
  have few : 0 + count ≤ 2 ^ 31 := by omega
  obtain ⟨cleaned, turns, moved⟩ := cdmaUCleanLoop_eq entry ci_eq jettyId few memory
  have filtered := compact_filtered ownerField (CdmaUJfcCqe.belongsTo jettyId) (2 ^ shift) first
    count 0 (ringSlots cq memory.cqe) lap
  have stamps := compact_owners ownerField (CdmaUJfcCqe.belongsTo jettyId) (2 ^ shift) first
    count 0 (ringSlots cq memory.cqe)
  have freedBound := filtered.freed_le
  generalize compact ownerField (CdmaUJfcCqe.belongsTo jettyId) (2 ^ shift) first count 0
    (ringSlots cq memory.cqe) = result at turns moved filtered stamps freedBound
  have before := cqEntries_counter entry memory.cqe first count
  rw [← ci_eq] at before
  have slot (memory : Memory) (index : UInt32) : memory.cqe (cdmaUGetBufEntry cq index) =
      ringSlots cq memory.cqe (index.toNat % 2 ^ shift) := by
    rw [← counter_toNat index, entry, counter_toNat]
    rfl
  refine ⟨counter result.2, cleaned, fun fuel => ?_, ?_, ?_, fun index => ?_, fun index apart => ?_⟩
  · rw [distance, pi_eq]
    exact turns fuel
  · rw [distance, before, toNat_counter_of_lt (by omega), filtered.freed_eq, Nat.zero_add]
  · have start : cq.ci + counter result.2 = counter (first + result.2) := by
      rw [ci_eq, counter_add]
    have rest : (pi - counter (first + result.2)).toNat = count - result.2 := by
      rw [pi_eq, toNat_counter_sub (by omega) (by omega)]
      omega
    rw [distance, before, start, rest, cqEntries_counter entry, moved, ← filtered.kept,
      Nat.add_zero]
  · rw [slot, slot, moved]
    exact stamps _
  · rw [slot, slot, moved]
    apply filtered.outside
    rintro ⟨offset, _, below, same⟩
    rw [distance] at apart
    apply apart offset (by omega)
    rw [ci_eq, counter_add, entry, ← same, ← entry, counter_toNat]

/-- Two pending entries on both sides of the wrap of the index. -/
theorem cdmaUCleanLoop_filters_wrap :
    ∃ nfreed cleaned,
      (∀ fuel, cdmaUCleanLoop { CqWorld.minDepth.jfc.cq with ci := 0xffffffff } 0 fuel 1 0
          CqWorld.minDepth.memory = if 2 < fuel then some (nfreed, cleaned) else none) ∧
      CleanedWindow { CqWorld.minDepth.jfc.cq with ci := 0xffffffff } 0 1
        CqWorld.minDepth.memory.cqe cleaned.cqe nfreed :=
  cdmaUCleanLoop_filters (CqWorld.minDepth_initial.geometry.setCi _).slots (by decide) 0 1
    (by decide) CqWorld.minDepth.memory

theorem cdmaUCleanLoop_word {cq : CdmaUJettyQueue} {jettyId pi nfreed freed : UInt32}
    {fuel : Nat} {memory cleaned : Memory}
    (done : cdmaUCleanLoop cq jettyId fuel pi nfreed memory = some (freed, cleaned)) :
    cleaned.word = memory.word := by
  induction fuel generalizing pi nfreed memory with
  | zero => cases done
  | succ fuel ih =>
      simp only [cdmaUCleanLoop] at done
      split at done
      · split at done
        · exact ih done
        · split at done
          · exact (ih done).trans rfl
          · exact ih done
      · cases done
        rfl

theorem cdmaUCleanJfc_word {jfc after : CdmaUJfc} {memory cleaned : Memory} {fuel : Nat}
    {jettyId : UInt32} (done : cdmaUCleanJfc fuel jfc memory jettyId = some (after, cleaned)) :
    (after = jfc ∧ cleaned.word = memory.word) ∨
      (after.swDb = jfc.swDb ∧ cleaned.word =
        Function.update memory.word jfc.swDb (after.cq.ci &&& cdmaJfcDbCiIdxM)) := by
  unfold cdmaUCleanJfc at done
  cases scan : cdmaUCleanScan jfc memory fuel jfc.cq.ci with
  | none => simp [scan] at done
  | some pi =>
      cases loop : cdmaUCleanLoop jfc.cq jettyId fuel pi 0 memory with
      | none => simp [scan, loop] at done
      | some pair =>
          obtain ⟨nfreed, moved⟩ := pair
          have frame := cdmaUCleanLoop_word loop
          by_cases none : nfreed = 0
          · simp only [scan, loop, none, ne_eq, not_true, if_false, Option.some.injEq,
              Prod.mk.injEq] at done
            obtain ⟨rfl, rfl⟩ := done
            exact .inl ⟨rfl, frame⟩
          · simp only [scan, loop, none, ne_eq, not_false_iff, if_true, Option.some.injEq,
              Prod.mk.injEq] at done
            obtain ⟨rfl, rfl⟩ := done
            exact .inr ⟨rfl, by rw [Memory.setWord_word, frame]; rfl⟩

/-! ### What cleaning should do, and when it does -/

/-- The pending entries of other queues, in order and apart from their owner
bits, are all that is pending afterwards; the consumer index has moved by the
number removed, the owner bits still fit, and the doorbell has been told. -/
structure Cleaned (shift first written : Nat) (jettyId : UInt32) (jfc : CdmaUJfc)
    (memory : Memory) (after : CdmaUJfc) (cleaned : Memory) : Prop where
  removes : ∃ removed,
    removed = (window (ringSlots jfc.cq memory.cqe) (2 ^ shift) first
      (written - first)).countP (CdmaUJfcCqe.belongsTo jettyId) ∧
    after = jfc.setCi (counter (first + removed)) ∧
    (window (ringSlots jfc.cq cleaned.cqe) (2 ^ shift) (first + removed)
      (written - first - removed)).map ownerField.payload =
      ((window (ringSlots jfc.cq memory.cqe) (2 ^ shift) first
        (written - first)).filter (fun cqe => !cqe.belongsTo jettyId)).map ownerField.payload ∧
    (removed ≠ 0 → (cleaned.word jfc.swDb).toNat = (first + removed) % 2 ^ 22)
  valid : ∀ index, first ≤ index → index < written →
    (ringSlots jfc.cq cleaned.cqe (index % 2 ^ shift)).owner = lapOwner (2 ^ shift) index
  notValid : (ringSlots jfc.cq cleaned.cqe (written % 2 ^ shift)).owner ≠
    lapOwner (2 ^ shift) written

/-- The states in which the scan's mistake about laps is harmless.  With the
pending window before the seam there is none.  A scan whose bound wraps, or that
stops at the seam, misses what lies beyond.  A scan that runs through a whole lap
also filters the slots that are not pending, and counts the first entry twice. -/
def CleanSafe (shift first written : Nat) (jettyId : UInt32) (slots : Nat → CdmaUJfcCqe) :
    Prop :=
  let cnt := 2 ^ shift
  let pending := written - first
  let entry := fun offset => slots ((first + offset) % cnt)
  let belongs := fun offset => (entry offset).belongsTo jettyId
  if 2 ^ 32 ≤ first % 2 ^ 32 + cnt then
    ∀ offset, offset < pending → belongs offset = false
  else if first % cnt + pending < cnt then True
  else if cnt < first % cnt + pending then
    ∀ offset, cnt - first % cnt ≤ offset → offset < pending → belongs offset = false
  else
    first % 2 ^ 32 + cnt + 1 < 2 ^ 32 ∧
    (∀ offset, pending ≤ offset → offset < cnt → belongs offset = false) ∧
    (belongs 0 = true → ∃ last, last < cnt ∧ belongs last = false ∧
      (∀ offset, last < offset → offset < cnt → belongs offset = true) ∧
      ∀ offset, offset < pending → belongs offset = false →
        ownerField.payload (entry offset) = ownerField.payload (entry last))

theorem cdmaUCleanScan_unique {jfc : CdmaUJfc} {memory : Memory} {fuel other : Nat}
    {pi found alsoFound : UInt32} (ran : cdmaUCleanScan jfc memory fuel pi = some found)
    (alsoRan : cdmaUCleanScan jfc memory other pi = some alsoFound) : found = alsoFound := by
  induction fuel generalizing other pi with
  | zero => cases ran
  | succ fuel ih =>
      cases other with
      | zero => cases alsoRan
      | succ other =>
          rw [cdmaUCleanScan] at ran alsoRan
          split at ran
          · simp_all
          · split at ran
            · simp_all
            · simp_all only [if_false]
              exact ih ran alsoRan

theorem cdmaUCleanLoop_unique {cq : CdmaUJettyQueue} {jettyId : UInt32} {memory : Memory}
    {fuel other : Nat} {pi nfreed : UInt32} {result alsoResult : UInt32 × Memory}
    (ran : cdmaUCleanLoop cq jettyId fuel pi nfreed memory = some result)
    (alsoRan : cdmaUCleanLoop cq jettyId other pi nfreed memory = some alsoResult) :
    result = alsoResult := by
  induction fuel generalizing other pi nfreed memory with
  | zero => cases ran
  | succ fuel ih =>
      cases other with
      | zero => cases alsoRan
      | succ other =>
          simp only [cdmaUCleanLoop] at ran alsoRan
          split at ran
          · rename_i goesOn
            rw [if_pos goesOn] at alsoRan
            split at ran
            · rename_i belongs
              rw [if_pos belongs] at alsoRan
              exact ih ran alsoRan
            · rename_i keeps
              rw [if_neg keeps] at alsoRan
              split at ran
              · rename_i freed
                rw [if_pos freed] at alsoRan
                exact ih ran alsoRan
              · rename_i none
                rw [if_neg none] at alsoRan
                exact ih ran alsoRan
          · rename_i ended
            rw [if_neg ended] at alsoRan
            exact Option.some.inj (ran.symm.trans alsoRan)

theorem cdmaUCleanJfc_unique {jfc : CdmaUJfc} {memory : Memory} {jettyId : UInt32}
    {fuel other : Nat} {result alsoResult : CdmaUJfc × Memory}
    (ran : cdmaUCleanJfc fuel jfc memory jettyId = some result)
    (alsoRan : cdmaUCleanJfc other jfc memory jettyId = some alsoResult) :
    result = alsoResult := by
  unfold cdmaUCleanJfc at ran alsoRan
  cases scan : cdmaUCleanScan jfc memory fuel jfc.cq.ci with
  | none => simp [scan] at ran
  | some pi =>
      cases alsoScan : cdmaUCleanScan jfc memory other jfc.cq.ci with
      | none => simp [alsoScan] at alsoRan
      | some alsoPi =>
          cases cdmaUCleanScan_unique scan alsoScan
          cases loop : cdmaUCleanLoop jfc.cq jettyId fuel pi 0 memory with
          | none => simp [scan, loop] at ran
          | some pair =>
              cases alsoLoop : cdmaUCleanLoop jfc.cq jettyId other pi 0 memory with
              | none => simp [alsoScan, alsoLoop] at alsoRan
              | some alsoPair =>
                  cases cdmaUCleanLoop_unique loop alsoLoop
                  simp only [scan, loop] at ran
                  simp only [alsoScan, alsoLoop] at alsoRan
                  exact Option.some.inj (ran.symm.trans alsoRan)

namespace RingAt

variable {shift stride first written : Nat} {jfc : CdmaUJfc} {memory : Memory}

/-- Once the scan has gone a certain distance, the call filters that many entries. -/
theorem cleanJfc_eq (ring : RingAt shift stride jfc.cq memory.cqe first written)
    (jettyId : UInt32) {count : Nat} (near : count ≤ 2 ^ shift + 1)
    (scan : ∀ fuel, count < fuel →
      cdmaUCleanScan jfc memory fuel jfc.cq.ci = some (counter (first + count))) :
    ∃ cleaned, cdmaUCleanJfc (count + 1) jfc memory jettyId =
        some (jfc.setCi (counter (first + (compact ownerField (CdmaUJfcCqe.belongsTo jettyId)
          (2 ^ shift) first count 0 (ringSlots jfc.cq memory.cqe)).2)), cleaned) ∧
      ringSlots jfc.cq cleaned.cqe = (compact ownerField (CdmaUJfcCqe.belongsTo jettyId)
        (2 ^ shift) first count 0 (ringSlots jfc.cq memory.cqe)).1 ∧
      ((compact ownerField (CdmaUJfcCqe.belongsTo jettyId) (2 ^ shift) first count 0
          (ringSlots jfc.cq memory.cqe)).2 ≠ 0 →
        (cleaned.word jfc.swDb).toNat = (first + (compact ownerField
          (CdmaUJfcCqe.belongsTo jettyId) (2 ^ shift) first count 0
          (ringSlots jfc.cq memory.cqe)).2) % 2 ^ 22) := by
  have small := ring.cnt_lt
  have few : 0 + count ≤ 2 ^ 31 := by omega
  obtain ⟨moved, turns, slots⟩ := cdmaUCleanLoop_eq (cdmaUGetBufEntry_counter ring.geometry)
    ring.ci_eq jettyId few memory
  have loop := turns (count + 1)
  rw [if_pos (Nat.lt_succ_self count)] at loop
  have freedBound := compact_freed_le ownerField (CdmaUJfcCqe.belongsTo jettyId) (2 ^ shift)
    first count 0 (ringSlots jfc.cq memory.cqe)
  generalize compact ownerField (CdmaUJfcCqe.belongsTo jettyId) (2 ^ shift) first count 0
    (ringSlots jfc.cq memory.cqe) = after at loop slots freedBound ⊢
  have start : counter 0 = 0 := rfl
  rw [start] at loop
  have scanned := scan (count + 1) (Nat.lt_succ_self count)
  unfold cdmaUCleanJfc
  simp only [scanned, loop]
  by_cases none : after.2 = 0
  · rw [none]
    refine ⟨moved, ?_, slots, fun some => absurd rfl some⟩
    rw [start, if_neg (by decide), Nat.add_zero, ← ring.ci_eq]
    rfl
  · have some : counter after.2 ≠ 0 := by
      rw [Ne, ← start, counter_eq_iff]
      omega
    have moves : jfc.cq.ci + counter after.2 = counter (first + after.2) := by
      rw [ring.ci_eq, counter_add]
    rw [if_pos some, moves]
    refine ⟨_, rfl, slots, fun _ => ?_⟩
    rw [Memory.setWord_word]
    change (Function.update moved.word jfc.swDb _ jfc.swDb).toNat = _
    have low : 22 ≤ 32 := by decide
    rw [Function.update_self]
    exact toNat_counter_and_mask low _

/-- A call that filtered this many entries did what it should exactly when the
filter removed the right ones. -/
theorem cleaned_iff_removes (ring : RingAt shift stride jfc.cq memory.cqe first written)
    (jettyId : UInt32) (count : Nat) (near : count ≤ 2 ^ shift + 1)
    (scan : ∀ fuel, count < fuel →
      cdmaUCleanScan jfc memory fuel jfc.cq.ci = some (counter (first + count))) :
    (∃ fuel after cleaned, cdmaUCleanJfc fuel jfc memory jettyId = some (after, cleaned) ∧
      Cleaned shift first written jettyId jfc memory after cleaned) ↔
    Removes ownerField (CdmaUJfcCqe.belongsTo jettyId) (2 ^ shift) first (written - first)
      (ringSlots jfc.cq memory.cqe) (compact ownerField (CdmaUJfcCqe.belongsTo jettyId)
        (2 ^ shift) first count 0 (ringSlots jfc.cq memory.cqe)) := by
  have small := ring.cnt_lt
  have ordered := ring.ordered
  have room := ring.room
  obtain ⟨cleaned, done, slots, word⟩ := ring.cleanJfc_eq jettyId near scan
  have freedBound := compact_freed_le ownerField (CdmaUJfcCqe.belongsTo jettyId) (2 ^ shift)
    first count 0 (ringSlots jfc.cq memory.cqe)
  have owners := compact_owners ownerField (CdmaUJfcCqe.belongsTo jettyId) (2 ^ shift)
    first count 0 (ringSlots jfc.cq memory.cqe)
  generalize compact ownerField (CdmaUJfcCqe.belongsTo jettyId) (2 ^ shift) first count 0
    (ringSlots jfc.cq memory.cqe) = result at done slots word freedBound owners ⊢
  constructor
  · rintro ⟨fuel, after, other, ran, correct⟩
    cases cdmaUCleanJfc_unique done ran
    obtain ⟨removed, counted, moved, kept, _⟩ := correct.removes
    have bound := List.countP_le_length (p := CdmaUJfcCqe.belongsTo jettyId)
      (l := window (ringSlots jfc.cq memory.cqe) (2 ^ shift) first (written - first))
    rw [window_length] at bound
    have same : first + result.2 = first + removed :=
      counter_near_injective first (by omega) (by omega) (by omega) (by omega)
        (congrArg (fun jfc => jfc.cq.ci) moved)
    have count : result.2 = removed := by omega
    subst count
    rw [slots] at kept
    exact ⟨counted, kept⟩
  · rintro ⟨counted, kept⟩
    refine ⟨_, _, cleaned, done, ?_, ?_, ?_⟩
    · exact ⟨result.2, counted, rfl, by rw [slots]; exact kept, word⟩
    · intro index above below
      rw [slots]
      exact (owners _).trans (ring.stamped.of_written below (by omega))
    · rw [slots]
      have unwritten := ring.stamped written (Nat.le_refl _) (by have := Nat.two_pow_pos shift; omega)
      have stays := (owners (written % 2 ^ shift)).trans unwritten
      intro valid
      exact Bool.not_ne_self _ (stays.symm.trans valid)

/-- Where the scan stops, and what the call then gets right, in each position of
the pending entries against the seam. -/
theorem cleaned_iff_safe (ring : RingAt shift stride jfc.cq memory.cqe first written)
    (jettyId : UInt32) :
    (∃ fuel after cleaned, cdmaUCleanJfc fuel jfc memory jettyId = some (after, cleaned) ∧
      Cleaned shift first written jettyId jfc memory after cleaned) ↔
    CleanSafe shift first written jettyId (ringSlots jfc.cq memory.cqe) := by
  have small := ring.cnt_lt
  have ordered := ring.ordered
  have room := ring.room
  have inLap := Nat.mod_lt first (Nat.two_pow_pos shift)
  have positive := Nat.two_pow_pos shift
  unfold CleanSafe
  simp only
  by_cases wraps : 2 ^ 32 ≤ first % 2 ^ 32 + 2 ^ shift
  · rw [if_pos wraps, ring.cleaned_iff_removes jettyId 0 (Nat.zero_le _)
      (fun fuel enough => ring.scan_eq (fun _ none => absurd none (Nat.not_lt_zero _))
        (fun _ none => absurd none (Nat.not_lt_zero _)) (.inr (ring.beyond_wrapped wraps)) enough),
      removes_short _ _ _ _ _ (Nat.zero_le _) (by omega)]
    simp
  rw [if_neg wraps]
  rw [Nat.not_le] at wraps
  rcases Nat.lt_trichotomy (first % 2 ^ shift + (written - first)) (2 ^ shift) with
    before | atSeam | across
  · rw [if_pos before, ring.cleaned_iff_removes jettyId (written - first) (by omega)
      (fun fuel enough => ring.scan_eq
        (fun offset less => ring.scanValid_before_seam (by omega) (by omega))
        (fun offset less => ring.within_bound wraps (by omega))
        (.inl (ring.not_scanValid_at_end (by omega) (by omega))) enough),
      removes_short _ _ _ _ _ (Nat.le_refl _) (by omega)]
    exact ⟨fun _ => trivial, fun _ index above below => absurd below (by omega)⟩
  · rw [if_neg (by omega), if_neg (by omega)]
    have valid := ring.scanValid_of_end_at_seam atSeam
    by_cases returns : first % 2 ^ 32 + 2 ^ shift + 1 < 2 ^ 32
    · rw [ring.cleaned_iff_removes jettyId (2 ^ shift + 1) (Nat.le_refl _)
        (fun fuel enough => ring.scan_eq (fun offset _ => valid offset)
          (fun offset less => ring.within_bound wraps (by omega))
          (.inr (ring.beyond_bound returns)) enough), compact, Nat.add_mod_right]
      refine Iff.trans ?_ (and_iff_right returns).symm
      by_cases head : (ringSlots jfc.cq memory.cqe (first % 2 ^ shift)).belongsTo jettyId = true
      · rw [if_pos head, removes_wrapped ownerField _ _ _ _ (by omega) (fun _ _ => rfl) head]
        simp only [Nat.add_zero, head, true_implies]
      · rw [if_neg head, if_pos rfl, removes_long _ _ _ _ _ (by omega) (Nat.le_refl _)]
        simp only [Nat.add_zero, head, Bool.false_eq_true, false_implies, and_true]
    · have endless (pi : UInt32) : ¬pi > jfc.cq.ci + jfc.cq.baseblkCnt := by
        have bounded := pi.toNat_lt
        rw [gt_iff_lt, UInt32.lt_iff_toNat_lt, ring.bound_toNat wraps]
        omega
      constructor
      · rintro ⟨fuel, after, cleaned, ran, _⟩
        have running := ring.scan_endless valid endless fuel 0
        rw [Nat.add_zero, ← ring.ci_eq] at running
        simp [cdmaUCleanJfc, running] at ran
      · rintro ⟨wouldReturn, _⟩
        exact absurd wouldReturn returns
  · rw [if_neg (by omega), if_pos across, ring.cleaned_iff_removes jettyId
      (2 ^ shift - first % 2 ^ shift) (by omega)
      (fun fuel enough => ring.scan_eq
        (fun offset less => ring.scanValid_before_seam (by omega) (by omega))
        (fun offset less => ring.within_bound wraps (by omega))
        (.inl (ring.not_scanValid_at_seam (by omega) (by omega))) enough),
      removes_short _ _ _ _ _ (by omega) (by omega)]

end RingAt

/-- In every reachable state, cleaning does what it should exactly when the
window of pending entries is safe from the scan's mistake. -/
theorem cdmaUCleanJfc_run {start final : CqWorld} {shift stride : Nat}
    (initial : start.Initial shift stride) (whole : 6 ≤ stride) {actions : List CqAction}
    (ran : run CqWorld.step start actions = some final) (jettyId : UInt32) :
    (∃ fuel after cleaned,
      cdmaUCleanJfc fuel final.jfc final.memory jettyId = some (after, cleaned) ∧
      Cleaned shift final.consumed.length final.written.length jettyId final.jfc final.memory
        after cleaned) ↔
    CleanSafe shift final.consumed.length final.written.length jettyId
      (ringSlots final.jfc.cq final.memory.cqe) :=
  RingAt.cleaned_iff_safe (RingInv.at (initial.ring.run ran) whole) jettyId

def CdmaUJfcCqe.successOf (localNumL : UInt16) : CdmaUJfcCqe :=
  { CdmaUJfcCqe.success with localNumL := localNumL }

/-- One entry consumed and four pending, those of queue 7 between those of queue 5. -/
def mixedWindow : List CqAction :=
  [.produce (.successOf 7), .call 1 fun _ => .blank, .turn, .turn, .produce (.successOf 5),
    .produce (.successOf 7), .produce (.successOf 5), .produce (.successOf 7)]

theorem cdmaUCleanJfc_run_mixedWindow :
    ∃ final, run CqWorld.step .minDepth mixedWindow = some final ∧
      ∃ fuel after cleaned,
        cdmaUCleanJfc fuel final.jfc final.memory 7 = some (after, cleaned) ∧
        Cleaned 6 final.consumed.length final.written.length 7 final.jfc final.memory
          after cleaned := by
  have lengths : (run CqWorld.step .minDepth mixedWindow).map
      (fun final => (final.consumed.length, final.written.length)) = some (1, 5) := by
    decide +kernel
  obtain ⟨final, ran, counts⟩ := Option.map_eq_some_iff.mp lengths
  obtain ⟨consumed, written⟩ := Prod.mk.inj counts
  refine ⟨final, ran, (cdmaUCleanJfc_run CqWorld.minDepth_initial (by decide) ran 7).mpr ?_⟩
  rw [consumed, written]
  trivial

/-- All but the last slot consumed, and two entries pending on both sides of the seam. -/
def pastSeam : List CqAction :=
  List.replicate 63 (.produce (.successOf 5)) ++ .call 63 (fun _ => .blank) ::
    List.replicate 64 .turn ++ [.produce (.successOf 5), .produce (.successOf 7)]

theorem cdmaUCleanJfc_misses_past_seam :
    CqWorld.minDepth.Initial 6 6 ∧
    ∃ final, run CqWorld.step .minDepth pastSeam = some final ∧
      ¬∃ fuel after cleaned,
        cdmaUCleanJfc fuel final.jfc final.memory 7 = some (after, cleaned) ∧
        Cleaned 6 final.consumed.length final.written.length 7 final.jfc final.memory
          after cleaned := by
  have values : (run CqWorld.step .minDepth pastSeam).map
      (fun final => (final.consumed.length, final.written.length,
        (ringSlots final.jfc.cq final.memory.cqe 0).belongsTo 7)) = some (63, 65, true) := by
    decide +kernel
  obtain ⟨final, ran, reached⟩ := Option.map_eq_some_iff.mp values
  obtain ⟨consumed, others⟩ := Prod.mk.inj reached
  obtain ⟨written, belongs⟩ := Prod.mk.inj others
  refine ⟨CqWorld.minDepth_initial, final, ran, ?_⟩
  rw [RingAt.cleaned_iff_safe (RingInv.at (CqWorld.minDepth_initial.ring.run ran) (by decide)),
    consumed, written]
  intro safe
  exact absurd ((safe 1 (by decide) (by decide)).symm.trans belongs) (by decide)

end Libcdma
