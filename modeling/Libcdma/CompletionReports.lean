/-
What a completion record keeps of the caller's array.

A poll call writes its records over the elements it is given, field by field.  Two
calls on the same ring and the same send queues go through the same turns whatever
their arrays hold, and a record they both report differs exactly in the fields that
no turn writes.
-/

import Libcdma.CompletionWorld

namespace Libcdma

open WrapCounter

/-- The fields of a record that polling never writes. -/
def DmaCr.unwritten (cr : DmaCr) : UInt32 × Bool × Bool × BitVec 4 :=
  (cr.opcode, cr.flag.suspendDone, cr.flag.flushErrDone, cr.flag.reserved)

theorem completionRecord_eq_iff (memory : Memory) (cqe : CdmaUJfcCqe) (cr other : DmaCr) :
    completionRecord memory cqe cr = completionRecord memory cqe other ↔
      cr.unwritten = other.unwritten := by
  obtain ⟨status, userCtx, opcode, ⟨sR, jetty, suspendDone, flushErrDone, reserved⟩, _⟩ := cr
  obtain ⟨status, userCtx, opcode, ⟨sR, jetty, suspendDone, flushErrDone, reserved⟩, _⟩ := other
  simp [completionRecord, cdmaFillCr, DmaCr.unwritten]

theorem cdmaParseCqeForJfc_memory (memory : Memory) (cqe : CdmaUJfcCqe) (cr other : DmaCr) :
    (cdmaParseCqeForJfc memory cqe cr).memory = (cdmaParseCqeForJfc memory cqe other).memory := by
  unfold cdmaParseCqeForJfc
  cases cdmaUUpdateJettyIdx memory cqe with
  | none => rfl
  | some pair =>
      unfold cdmaUUpdateFlushCr
      simp only
      cases cdmaGetCrStatus cqe.status cqe.substatus with
      | none => rfl
      | some status => cases cqe.fd <;> rfl

def CdmaUJfc.ahead (jfc : CdmaUJfc) (memory : Memory) (taken : Nat) : Option CdmaUJfcCqe :=
  let jfc := jfc.setCi (jfc.cq.ci + counter taken)
  (cdmaUGetNextCqe jfc memory jfc.cq.ci).map memory.cqe

/-- Good entries up to a count at which the array is full, the ring is empty or a
flush is done. -/
structure CdmaUJfc.Collects (jfc : CdmaUJfc) (memory : Memory) (room count : Nat) : Prop where
  fits : count ≤ room
  good : ∀ taken, taken < count → ∃ cqe, jfc.ahead memory taken = some cqe ∧ cqe.good = true
  ends : count = room ∨ ∀ cqe, jfc.ahead memory count = some cqe →
    cqe.good = false ∧ cqe.invalid = false

theorem CdmaUJfc.ahead_zero (jfc : CdmaUJfc) (memory : Memory) :
    jfc.ahead memory 0 = (cdmaUGetNextCqe jfc memory jfc.cq.ci).map memory.cqe := by
  have start : jfc.cq.ci + counter 0 = jfc.cq.ci := UInt32.add_zero _
  unfold CdmaUJfc.ahead
  rw [start]
  rfl

theorem CdmaUJfc.ahead_succ (jfc : CdmaUJfc) {memory after : Memory}
    (same : after.cqe = memory.cqe) (taken : Nat) :
    (jfc.setCi (jfc.cq.ci + 1)).ahead after taken = jfc.ahead memory (taken + 1) := by
  have index : jfc.cq.ci + 1 + counter taken = jfc.cq.ci + counter (taken + 1) := by
    rw [← counter_succ]
    grind
  change (cdmaUGetNextCqe (jfc.setCi (jfc.cq.ci + 1 + counter taken)) after
    (jfc.cq.ci + 1 + counter taken)).map after.cqe = _
  rw [index, same]
  unfold CdmaUJfc.ahead cdmaUGetNextCqe
  rw [same]
  rfl

namespace CdmaUJfc.Collects

variable {jfc : CdmaUJfc} {memory : Memory} {room count : Nat}

theorem full_iff : jfc.Collects memory 0 count ↔ count = 0 := by
  constructor
  · exact fun collects => Nat.le_zero.mp collects.fits
  · rintro rfl
    exact ⟨Nat.le_refl 0, fun _ none => absurd none (Nat.not_lt_zero _), .inl rfl⟩

theorem stop_iff (positive : 0 < room)
    (stops : ∀ cqe, jfc.ahead memory 0 = some cqe → cqe.good = false) :
    jfc.Collects memory room count ↔
      count = 0 ∧ ∀ cqe, jfc.ahead memory 0 = some cqe → cqe.invalid = false := by
  constructor
  · intro collects
    have none : count = 0 := by
      by_contra some
      obtain ⟨cqe, next, good⟩ := collects.good 0 (Nat.pos_of_ne_zero some)
      rw [stops cqe next] at good
      cases good
    subst none
    rcases collects.ends with full | ends
    · omega
    · exact ⟨rfl, fun cqe next => (ends cqe next).2⟩
  · rintro ⟨rfl, valid⟩
    exact ⟨Nat.zero_le _, fun _ none => absurd none (Nat.not_lt_zero _),
      .inr fun cqe next => ⟨stops cqe next, valid cqe next⟩⟩

theorem good_iff {after : Memory} (same : after.cqe = memory.cqe) {cqe : CdmaUJfcCqe}
    (next : jfc.ahead memory 0 = some cqe) (good : cqe.good = true) :
    jfc.Collects memory (room + 1) count ↔
      ∃ rest, count = rest + 1 ∧ (jfc.setCi (jfc.cq.ci + 1)).Collects after room rest := by
  constructor
  · intro collects
    have some : count ≠ 0 := by
      rintro rfl
      rcases collects.ends with full | ends
      · cases full
      · rw [(ends cqe next).1] at good
        cases good
    obtain ⟨rest, rfl⟩ := Nat.exists_eq_succ_of_ne_zero some
    refine ⟨rest, rfl, Nat.le_of_succ_le_succ collects.fits, fun taken below => ?_, ?_⟩
    · rw [ahead_succ jfc same]
      exact collects.good (taken + 1) (Nat.succ_lt_succ below)
    · rw [ahead_succ jfc same]
      exact collects.ends.imp Nat.succ.inj id
  · rintro ⟨rest, rfl, collects⟩
    refine ⟨Nat.succ_le_succ collects.fits, fun taken below => ?_, ?_⟩
    · cases taken with
      | zero => exact ⟨cqe, next, good⟩
      | succ taken =>
          rw [← ahead_succ jfc same]
          exact collects.good taken (Nat.lt_of_succ_lt_succ below)
    · rw [← ahead_succ jfc same]
      exact collects.ends.imp (congrArg Nat.succ) id

end CdmaUJfc.Collects

section Loop

variable {jfc : CdmaUJfc} {memory : Memory} {call : PollCall} {cqe : CdmaUJfcCqe}

theorem PollCall.upcoming_of_room (more : call.npolled < call.crCnt) :
    call.upcoming jfc memory = jfc.ahead memory 0 := by
  unfold PollCall.upcoming
  rw [if_pos more, jfc.ahead_zero]

theorem cdmaUPollJfcLoop_idle (idle : call.upcoming jfc memory = none) (fuel : Nat) :
    cdmaUPollJfcLoop (fuel + 1) jfc memory call =
      some ⟨call.npolled.toInt32.toInt, some jfc, (cdmaUPollJfcExit jfc memory call .ok).memory,
        call.cr⟩ := by
  rw [cdmaUPollJfcLoop, cdmaUPollJfcTurn_idle idle]
  rfl

def PollCall.parsed (call : PollCall) (memory : Memory) (cqe : CdmaUJfcCqe) : UInt32 → DmaCr :=
  Function.update call.cr call.npolled (cdmaParseCqeForJfc memory cqe (call.cr call.npolled)).cr

def PollCall.passing (call : PollCall) (memory : Memory) (cqe : CdmaUJfcCqe) : PollCall :=
  { call with npolled := call.npolled + 1, cr := call.parsed memory cqe }

theorem cdmaUPollJfcLoop_good (next : call.upcoming jfc memory = some cqe)
    (good : cqe.good = true) (fuel : Nat) :
    cdmaUPollJfcLoop (fuel + 1) jfc memory call =
      cdmaUPollJfcLoop fuel (jfc.setCi (jfc.cq.ci + 1))
        (cdmaParseCqeForJfc memory cqe (call.cr call.npolled)).memory
        (call.passing memory cqe) := by
  rw [cdmaUPollJfcLoop, cdmaUPollJfcTurn_meets next]
  simp only [if_pos good]
  rfl

theorem cdmaUPollJfcLoop_last (next : call.upcoming jfc memory = some cqe)
    (stops : cqe.good = false) (fuel : Nat) :
    ∃ after, cdmaUPollJfcLoop (fuel + 1) jfc memory call =
      some ⟨if cqe.invalid then -1 else call.npolled.toInt32.toInt,
        some (jfc.setCi (jfc.cq.ci + 1)), after, call.parsed memory cqe⟩ := by
  rw [cdmaUPollJfcLoop, cdmaUPollJfcTurn_meets next]
  simp only [stops, Bool.false_eq_true, if_false]
  cases cqe.invalid with
  | true => exact ⟨_, rfl⟩
  | false => exact ⟨_, rfl⟩

/-- The number returned is above an index when the call collects more records than
that, and fewer than the sign bit weighs. -/
theorem cdmaUPollJfcLoop_value {room : Nat}
    (left : call.npolled.toNat + room = call.crCnt.toNat) {result : PollResult}
    (ran : cdmaUPollJfcLoop (room + 1) jfc memory call = some result) (index : Nat) :
    (index : Int) < result.value ↔ ∃ count, jfc.Collects memory room count ∧
      call.npolled.toNat + count < 2 ^ 31 ∧ index < call.npolled.toNat + count := by
  induction room generalizing jfc memory call with
  | zero =>
      have full : ¬call.npolled < call.crCnt := by
        rw [UInt32.lt_iff_toNat_lt]
        omega
      rw [cdmaUPollJfcLoop_idle (if_neg full)] at ran
      cases ran
      simp only [lt_toInt32_toInt_iff, CdmaUJfc.Collects.full_iff, exists_eq_left, Nat.add_zero]
  | succ room ih =>
      have more : call.npolled < call.crCnt := by
        rw [UInt32.lt_iff_toNat_lt]
        omega
      have ahead : call.upcoming jfc memory = jfc.ahead memory 0 := PollCall.upcoming_of_room more
      cases next : call.upcoming jfc memory with
      | none =>
          have none (cqe : CdmaUJfcCqe) : jfc.ahead memory 0 ≠ some cqe := by
            rw [← ahead, next]
            exact (Option.some_ne_none cqe).symm
          rw [cdmaUPollJfcLoop_idle next] at ran
          cases ran
          simp only [lt_toInt32_toInt_iff, CdmaUJfc.Collects.stop_iff (Nat.succ_pos room)
            fun cqe found => absurd found (none cqe), none, false_implies, implies_true, and_true,
            exists_eq_left, Nat.add_zero]
      | some cqe =>
          rw [ahead] at next
          cases good : cqe.good with
          | false =>
              obtain ⟨after, last⟩ := cdmaUPollJfcLoop_last (ahead.trans next) good (room + 1)
              rw [last] at ran
              cases ran
              have stops (other : CdmaUJfcCqe) (found : jfc.ahead memory 0 = some other) :
                  other.good = false := by
                rw [next] at found
                cases found
                exact good
              simp only [CdmaUJfc.Collects.stop_iff (Nat.succ_pos room) stops, next,
                Option.some.injEq, forall_eq', and_assoc, exists_eq_left, Nat.add_zero]
              cases cqe.invalid with
              | true =>
                  simp only [if_true, Bool.true_eq_false, false_and, iff_false]
                  omega
              | false => simp only [Bool.false_eq_true, if_false, lt_toInt32_toInt_iff, true_and]
          | true =>
              have frame := cdmaParseCqeForJfc_frame memory cqe (call.cr call.npolled)
              have rest := toNat_succ_of_lt more
              rw [cdmaUPollJfcLoop_good (ahead.trans next) good] at ran
              rw [ih (by change (call.npolled + 1).toNat + room = call.crCnt.toNat; omega) ran]
              change (∃ count, _ ∧ (call.npolled + 1).toNat + count < 2 ^ 31 ∧
                index < (call.npolled + 1).toNat + count) ↔ _
              simp only [CdmaUJfc.Collects.good_iff frame.1 next good, rest]
              constructor
              · rintro ⟨count, collects, small, below⟩
                exact ⟨count + 1, ⟨count, rfl, collects⟩, by omega, by omega⟩
              · rintro ⟨_, ⟨count, rfl, collects⟩, small, below⟩
                exact ⟨count, collects, by omega, by omega⟩

def PollCall.over (call : PollCall) (cr : UInt32 → DmaCr) : PollCall := { call with cr := cr }

/-- Two calls that differ in their arrays only: they return the same number, leave
the records before their current ones, and make equal records of elements with equal
unwritten fields. -/
structure Alike (call : PollCall) (cr : UInt32 → DmaCr) (first second : PollResult) : Prop where
  value_eq : first.value = second.value
  earlier : ∀ index, index < call.npolled →
    first.cr index = call.cr index ∧ second.cr index = cr index
  later : ∀ index : UInt32, call.npolled ≤ index → (index.toNat : Int) < first.value →
    (first.cr index = second.cr index ↔ (call.cr index).unwritten = (cr index).unwritten)

theorem PollCall.lt_succ_iff (more : call.npolled < call.crCnt) (index : UInt32) :
    index < call.npolled + 1 ↔ index < call.npolled ∨ index = call.npolled := by
  rw [UInt32.lt_iff_toNat_lt, UInt32.lt_iff_toNat_lt, toNat_succ_of_lt more,
    Nat.lt_succ_iff_lt_or_eq, UInt32.toNat_inj]

theorem Alike.of_exit {cr : UInt32 → DmaCr} {first second : PollResult}
    (value_eq : first.value = second.value)
    (value_le : first.value = -1 ∨ first.value = call.npolled.toInt32.toInt)
    (earlier : ∀ index, index < call.npolled →
      first.cr index = call.cr index ∧ second.cr index = cr index) :
    Alike call cr first second := by
  refine ⟨value_eq, earlier, fun index atLeast below => ?_⟩
  rw [UInt32.le_iff_toNat_le] at atLeast
  rcases value_le with error | value
  · omega
  · rw [value, lt_toInt32_toInt_iff] at below
    omega

theorem Alike.of_good {cr : UInt32 → DmaCr} {first second : PollResult}
    (more : call.npolled < call.crCnt) (good : cqe.good = true)
    (rest : Alike (call.passing memory cqe) ((call.over cr).parsed memory cqe) first second) :
    Alike call cr first second := by
  have split := PollCall.lt_succ_iff more
  have others (call : PollCall) (index : UInt32) (different : index ≠ call.npolled) :
      call.parsed memory cqe index = call.cr index := Function.update_of_ne different _ _
  have current (call : PollCall) : call.parsed memory cqe call.npolled =
      completionRecord memory cqe (call.cr call.npolled) :=
    (Function.update_self _ _ _).trans (cdmaParseCqeForJfc_good memory _ good).2
  refine ⟨rest.value_eq, fun index below => ?_, fun index atLeast below => ?_⟩
  · obtain ⟨first, second⟩ := rest.earlier index ((split index).mpr (.inl below))
    have different := UInt32.ne_of_lt below
    exact ⟨first.trans (others call index different),
      second.trans (others (call.over cr) index different)⟩
  · by_cases same : index = call.npolled
    · obtain ⟨first, second⟩ := rest.earlier index ((split index).mpr (.inr same))
      subst same
      rw [first.trans (current call), second.trans (current (call.over cr))]
      exact completionRecord_eq_iff memory cqe _ _
    · have later : call.npolled + 1 ≤ index := by
        rw [← UInt32.not_lt, split, not_or, UInt32.not_lt]
        exact ⟨atLeast, same⟩
      have fresh := rest.later index later below
      have kept : (call.passing memory cqe).cr index = call.cr index := others call index same
      rw [kept, others (call.over cr) index same] at fresh
      exact fresh

theorem cdmaUPollJfcLoop_alike {room : Nat}
    (left : call.npolled.toNat + room = call.crCnt.toNat) (cr : UInt32 → DmaCr) :
    ∃ first second, cdmaUPollJfcLoop (room + 1) jfc memory call = some first ∧
      cdmaUPollJfcLoop (room + 1) jfc memory (call.over cr) = some second ∧
      Alike call cr first second := by
  induction room generalizing jfc memory call cr with
  | zero =>
      have full : ¬call.npolled < call.crCnt := by
        rw [UInt32.lt_iff_toNat_lt]
        omega
      have idle : call.upcoming jfc memory = none := if_neg full
      have alsoIdle : (call.over cr).upcoming jfc memory = none := if_neg full
      exact ⟨_, _, cdmaUPollJfcLoop_idle idle 0, cdmaUPollJfcLoop_idle alsoIdle 0,
        Alike.of_exit rfl (.inr rfl) fun _ _ => ⟨rfl, rfl⟩⟩
  | succ room ih =>
      have more : call.npolled < call.crCnt := by
        rw [UInt32.lt_iff_toNat_lt]
        omega
      cases next : call.upcoming jfc memory with
      | none =>
          have alsoNext : (call.over cr).upcoming jfc memory = none := next
          exact ⟨_, _, cdmaUPollJfcLoop_idle next _, cdmaUPollJfcLoop_idle alsoNext _,
            Alike.of_exit rfl (.inr rfl) fun _ _ => ⟨rfl, rfl⟩⟩
      | some cqe =>
          have alsoNext : (call.over cr).upcoming jfc memory = some cqe := next
          cases good : cqe.good with
          | false =>
              obtain ⟨_, ran⟩ := cdmaUPollJfcLoop_last next good (room + 1)
              obtain ⟨_, alsoRan⟩ := cdmaUPollJfcLoop_last alsoNext good (room + 1)
              refine ⟨_, _, ran, alsoRan, Alike.of_exit rfl ?_ fun index below => ?_⟩
              · cases cqe.invalid with
                | true => exact .inl rfl
                | false => exact .inr rfl
              · have different := UInt32.ne_of_lt below
                exact ⟨Function.update_of_ne different _ _, Function.update_of_ne different _ _⟩
          | true =>
              have sameMemory := cdmaParseCqeForJfc_memory memory cqe
                ((call.over cr).cr (call.over cr).npolled) (call.cr call.npolled)
              have rest : (call.passing memory cqe).npolled.toNat + room =
                  (call.passing memory cqe).crCnt.toNat := by
                change (call.npolled + 1).toNat + room = call.crCnt.toNat
                rw [toNat_succ_of_lt more]
                omega
              obtain ⟨first, second, ran, alsoRan, alike⟩ :=
                ih rest ((call.over cr).parsed memory cqe)
              refine ⟨first, second, ?_, ?_, alike.of_good more good⟩
              · rw [cdmaUPollJfcLoop_good next good]
                exact ran
              · rw [cdmaUPollJfcLoop_good alsoNext good, sameMemory]
                exact alsoRan

end Loop

/-! ### Two calls on the same state -/

/-- The same number returned, and below it the same records. -/
def PollResult.SameReport (first second : PollResult) : Prop :=
  first.value = second.value ∧
    ∀ index : UInt32, (index.toNat : Int) < first.value → first.cr index = second.cr index

/-- As far as the queue has records to collect, the arrays agree on the fields that
polling never writes. -/
def AgreeUnwritten (jfc : Option CdmaUJfc) (memory : Memory) (crCnt : UInt32)
    (cr other : UInt32 → DmaCr) : Prop :=
  ∀ queue ∈ jfc, ∀ count, queue.Collects memory crCnt.toNat count → count < 2 ^ 31 →
    ∀ index : UInt32, index.toNat < count → (cr index).unwritten = (other index).unwritten

/-- What a call reports depends on its array through the unwritten fields alone. -/
theorem cdmaUPollJfc_sameReport_iff (jfc : Option CdmaUJfc) (memory : Memory) (crCnt : UInt32)
    (cr other : UInt32 → DmaCr) :
    (∃ first second, cdmaUPollJfc jfc memory crCnt cr = some first ∧
      cdmaUPollJfc jfc memory crCnt other = some second ∧ first.SameReport second) ↔
    AgreeUnwritten jfc memory crCnt cr other := by
  cases jfc with
  | none =>
      constructor
      · exact fun _ queue member => absurd member (Option.not_mem_none queue)
      · intro _
        refine ⟨_, _, rfl, rfl, rfl, fun index below => ?_⟩
        change (index.toNat : Int) < -22 at below
        omega
  | some queue =>
      have left : (PollCall.start crCnt cr).npolled.toNat + crCnt.toNat = crCnt.toNat :=
        Nat.zero_add _
      obtain ⟨first, second, ran, alsoRan, alike⟩ :=
        cdmaUPollJfcLoop_alike left other
      have value := cdmaUPollJfcLoop_value left ran
      have records (index : UInt32) := alike.later index UInt32.zero_le
      constructor
      · rintro ⟨_, _, ranFirst, ranSecond, _, same⟩ _ member count collects small index below
        cases member
        cases ran.symm.trans ranFirst
        cases alsoRan.symm.trans ranSecond
        have reported : (index.toNat : Int) < first.value :=
          (value index.toNat).mpr ⟨count, collects, by omega, by omega⟩
        exact (records index reported).mp (same index reported)
      · intro agree
        refine ⟨first, second, ran, alsoRan, alike.value_eq, fun index reported => ?_⟩
        obtain ⟨count, collects, small, below⟩ := (value index.toNat).mp reported
        have first : (PollCall.start crCnt cr).npolled.toNat = 0 := rfl
        rw [first, Nat.zero_add] at small below
        exact (records index reported).mpr (agree queue rfl count collects small index below)

def DmaCr.stale : DmaCr :=
  { DmaCr.blank with opcode := 3, flag := { DmaCr.blank.flag with flushErrDone := true } }

/-- One successful completion, reported over a blank and over a stale element. -/
theorem cdmaUPollJfc_keeps_stale :
    ¬∃ first second,
      cdmaUPollJfc (some CqWorld.minDepth.jfc)
        (deviceWrite CqWorld.minDepth.jfc.cq CqWorld.minDepth.memory 0 .success) 1
        (fun _ => .blank) = some first ∧
      cdmaUPollJfc (some CqWorld.minDepth.jfc)
        (deviceWrite CqWorld.minDepth.jfc.cq CqWorld.minDepth.memory 0 .success) 1
        (fun _ => .stale) = some second ∧
      first.SameReport second := by
  rintro ⟨first, second, ran, alsoRan, _, same⟩
  cases ran
  cases alsoRan
  have opcodes := congrArg DmaCr.opcode (same 0 (by decide))
  exact absurd opcodes (by decide)

end Libcdma
