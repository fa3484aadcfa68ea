/-
What poll calls tell their caller and the device.

A call reports one number for a batch of entries, and publishes the consumer
index when that number is not zero.  Both summaries are exact for the calls in
which an entry that ends the batch with an error, or ends it unreported, comes
at the one place where the summary accounts for it.
-/

import Libcdma.CompletionCleaning

namespace Libcdma

open WrapCounter Transition

namespace CqWorld

theorem handed_succ {cr : UInt32 → DmaCr} {npolled : UInt32} (record : DmaCr)
    (small : npolled.toNat + 1 < 2 ^ 32) :
    handed (Function.update cr npolled record) (npolled + 1).toNat =
      handed cr npolled.toNat ++ [record] := by
  have sum := toNat_succ small
  simp only [handed, sum, Int.toNat_natCast, List.range_succ, List.map_append, List.map_cons,
    List.map_nil, counter_toNat, Function.update_self]
  congr 1
  apply List.map_congr_left
  intro index member
  have below := List.mem_range.mp member
  apply Function.update_of_ne
  intro same
  have value := congrArg UInt32.toNat same
  rw [toNat_counter_of_lt (by omega)] at value
  omega

theorem handed_update {cr : UInt32 → DmaCr} {npolled : UInt32} (record : DmaCr) :
    handed (Function.update cr npolled record) npolled.toNat = handed cr npolled.toNat := by
  unfold handed
  apply List.map_congr_left
  intro index member
  rw [Int.toNat_natCast] at member
  have below := List.mem_range.mp member
  have bounded := npolled.toNat_lt
  apply Function.update_of_ne
  intro same
  have value := congrArg UInt32.toNat same
  rw [toNat_counter_of_lt (by omega)] at value
  omega

theorem applyTurn_exit (w : CqWorld) (jfc : CdmaUJfc) (memory : Memory) (call : PollCall)
    (ret : JfcPollState) :
    (w.applyTurn (cdmaUPollJfcExit jfc memory call ret)).call = none ∧
    (w.applyTurn (cdmaUPollJfcExit jfc memory call ret)).reported = w.reported ++
      handed call.cr (if ret = .pollErr then -1 else call.npolled.toInt32.toInt) := by
  unfold cdmaUPollJfcExit
  split <;> exact ⟨rfl, rfl⟩

/-- An invalid entry is met by a call that has consumed nothing, and no call
consumes as many good entries as the sign bit of its result weighs. -/
def Undivided (w : CqWorld) : CqAction → Prop
  | .turn => ∀ call ∈ w.call, ∀ cqe ∈ call.upcoming w.jfc w.memory,
      (cqe.invalid = true → w.consumed.length = w.opened) ∧
      (cqe.good = true → w.consumed.length + 1 < w.opened + 2 ^ 31)
  | _ => True

instance (w : CqWorld) (action : CqAction) : Decidable (w.Undivided action) := by
  cases action <;> unfold Undivided <;> infer_instance

/-- The records due are those reported and, during a call, those it has collected. -/
structure Accounted (w : CqWorld) : Prop where
  idle : w.call = none → w.due = w.reported
  inCall : ∀ call, w.call = some call →
    w.due = w.reported ++ handed call.cr call.npolled.toNat ∧
    w.consumed.length = w.opened + call.npolled.toNat ∧ call.npolled.toNat < 2 ^ 31

variable {w next : CqWorld} {call : PollCall}

private theorem Accounted.turn_idle (accounted : w.Accounted) (active : w.call = some call)
    (idle : call.upcoming w.jfc w.memory = none) : (w.turn call).Accounted := by
  obtain ⟨collected, _, small⟩ := accounted.inCall call active
  unfold CqWorld.turn
  rw [consume_none idle, cdmaUPollJfcTurn_idle idle]
  obtain ⟨ended, reports⟩ := applyTurn_exit w w.jfc w.memory call .ok
  refine ⟨fun _ => ?_, fun other active => ?_⟩
  · rw [applyTurn_due, reports, if_neg (by decide), toInt32_toInt_of_small small]
    exact collected
  · rw [ended] at active
    cases active

private theorem Accounted.turn_good (accounted : w.Accounted) (active : w.call = some call)
    {cqe : CdmaUJfcCqe} (meets : call.upcoming w.jfc w.memory = some cqe)
    (good : cqe.good = true) (small : w.consumed.length + 1 < w.opened + 2 ^ 31) :
    (w.turn call).Accounted := by
  obtain ⟨collected, counted, _⟩ := accounted.inCall call active
  have sum : (call.npolled + 1).toNat = call.npolled.toNat + 1 := toNat_succ (by omega)
  have parsed := cdmaParseCqeForJfc_good w.memory (call.cr call.npolled) good
  unfold CqWorld.turn
  rw [consume_some meets, cdmaUPollJfcTurn_meets meets]
  simp only [if_pos good, applyTurn]
  refine ⟨fun ended => (by cases ended), fun other active => ?_⟩
  cases active
  have small : call.npolled.toNat + 1 < 2 ^ 32 := by omega
  simp only [parsed.2, handed_succ _ small]
  refine ⟨?_, ?_, ?_⟩
  · rw [collected, List.append_assoc]
  · rw [List.length_append, List.length_singleton, sum, counted]
    omega
  · omega

private theorem Accounted.turn_ends (accounted : w.Accounted) (active : w.call = some call)
    {cqe : CdmaUJfcCqe} (meets : call.upcoming w.jfc w.memory = some cqe)
    (ends : ¬cqe.good = true) (first : cqe.invalid = true → w.consumed.length = w.opened) :
    (w.turn call).Accounted := by
  obtain ⟨collected, counted, small⟩ := accounted.inCall call active
  unfold CqWorld.turn
  rw [consume_some meets, cdmaUPollJfcTurn_meets meets]
  simp only [if_neg ends, List.append_nil]
  refine ⟨fun _ => ?_, fun other active => ?_⟩
  · rw [applyTurn_due, (applyTurn_exit _ _ _ _ _).2]
    change w.due = w.reported ++ _
    by_cases invalid : cqe.invalid = true
    · have empty : call.npolled.toNat = 0 := by
        have := first invalid
        omega
      rw [collected, empty, if_pos invalid, if_pos rfl]
      rfl
    · rw [if_neg invalid, if_neg (by decide), toInt32_toInt_of_small small, handed_update]
      exact collected
  · rw [(applyTurn_exit _ _ _ _ _).1] at active
    cases active

theorem Accounted.step {action : CqAction} (accounted : w.Accounted)
    (undivided : w.Undivided action) (stepped : w.step action = some next) :
    next.Accounted := by
  cases action with
  | produce cqe =>
      simp only [CqWorld.step, Option.ite_none_right_eq_some, Option.some.injEq] at stepped
      obtain ⟨_, rfl⟩ := stepped
      exact ⟨accounted.idle, accounted.inCall⟩
  | post queue =>
      cases stepped
      exact ⟨accounted.idle, accounted.inCall⟩
  | call crCnt cr =>
      simp only [CqWorld.step] at stepped
      split at stepped
      · rename_i free
        cases stepped
        refine ⟨fun ended => (by cases ended), fun other active => ?_⟩
        cases active
        refine ⟨?_, rfl, Nat.two_pow_pos 31⟩
        exact (accounted.idle free).trans (List.append_nil _).symm
      · cases stepped
  | turn =>
      simp only [CqWorld.step, Option.map_eq_some_iff] at stepped
      obtain ⟨call, active, rfl⟩ := stepped
      cases meets : call.upcoming w.jfc w.memory with
      | none => exact accounted.turn_idle active meets
      | some cqe =>
          obtain ⟨first, small⟩ := undivided call active cqe meets
          by_cases good : cqe.good = true
          · exact accounted.turn_good active meets good (small good)
          · exact accounted.turn_ends active meets good first

theorem Initial.accounted {shift stride : Nat} (initial : w.Initial shift stride) :
    w.Accounted := by
  refine ⟨fun _ => initial.due_eq.trans initial.reported_eq.symm, fun call active => ?_⟩
  rw [initial.call_eq] at active
  cases active

end CqWorld

/-- Whenever no call is running, the records handed over are those of the good
entries consumed, provided no call met an invalid entry after another one. -/
theorem cdmaUPollJfc_reported {start final : CqWorld} {shift stride : Nat}
    (initial : start.Initial shift stride) {actions : List CqAction}
    (conforms : Conforms CqWorld.step CqWorld.Undivided start actions)
    (ran : run CqWorld.step start actions = some final) (returned : final.call = none) :
    final.reported = final.due :=
  ((run_invariant_of_conforms CqWorld.step
    (fun _ _ _ undivided accounted stepped => CqWorld.Accounted.step accounted undivided stepped)
    conforms initial.accounted ran).idle returned).symm

/-- Two calls, the first of which meets an invalid entry and nothing else. -/
theorem cdmaUPollJfc_reported_invalid_first :
    ∃ final, run CqWorld.step .minDepth
        [.produce .zeroed, .produce .success, .call 2 fun _ => .blank, .turn,
          .call 2 fun _ => .blank, .turn, .turn] = some final ∧
      final.reported = final.due := by
  have runs : (run CqWorld.step .minDepth
      [.produce .zeroed, .produce .success, .call 2 fun _ => .blank, .turn,
        .call 2 fun _ => .blank, .turn, .turn]).isSome := by decide
  obtain ⟨final, ran⟩ := Option.isSome_iff_exists.mp runs
  refine ⟨final, ran, cdmaUPollJfc_reported CqWorld.minDepth_initial (by decide) ran ?_⟩
  cases ran
  rfl

/-- A call that meets a good entry and then an invalid one reports neither. -/
theorem cdmaUPollJfc_loses_good :
    CqWorld.minDepth.Initial 6 6 ∧
    ∃ final, run CqWorld.step .minDepth
        [.produce .success, .produce .zeroed, .call 2 fun _ => .blank, .turn, .turn] =
        some final ∧
      final.call = none ∧ final.reported ≠ final.due :=
  ⟨CqWorld.minDepth_initial, _, rfl, rfl, by decide⟩

/-! ### The consumer doorbell -/

/-- A completion queue under poll and clean calls; the device and the posting
threads change entries and send queues in any way between two steps. -/
structure DoorbellWorld where
  jfc : CdmaUJfc
  memory : Memory
  call : Option PollCall
  /-- how many entries the current call has met -/
  met : Nat

inductive DoorbellAction where
  | outside (cqe : Nat → CdmaUJfcCqe) (queue : UInt64 → CdmaUJettyQueue)
  | call (crCnt : UInt32) (cr : UInt32 → DmaCr)
  | turn
  | clean (fuel : Nat) (jettyId : UInt32)

namespace DoorbellWorld

def turn (w : DoorbellWorld) (call : PollCall) : DoorbellWorld :=
  let met := if (call.upcoming w.jfc w.memory).isSome then w.met + 1 else w.met
  match cdmaUPollJfcTurn w.jfc w.memory call with
  | .again jfc memory call => ⟨jfc, memory, some call, met⟩
  | .exit jfc memory _ _ => ⟨jfc, memory, none, met⟩

def step (w : DoorbellWorld) : DoorbellAction → Option DoorbellWorld
  | .outside cqe queue => some { w with memory := { w.memory with cqe := cqe, queue := queue } }
  | .call crCnt cr =>
      match w.call with
      | none => some { w with call := some (.start crCnt cr), met := 0 }
      | some _ => none
  | .turn => w.call.map w.turn
  | .clean fuel jettyId =>
      match w.call with
      | none => (cdmaUCleanJfc fuel w.jfc w.memory jettyId).map fun (jfc, memory) =>
          { w with jfc := jfc, memory := memory }
      | some _ => none

/-- The doorbell word holds the low 22 bits of the consumer index. -/
def Published (w : DoorbellWorld) : Prop :=
  (w.memory.word w.jfc.swDb).toNat = w.jfc.cq.ci.toNat % 2 ^ 22

/-- The first entry a poll call meets, if it meets any, is a good one. -/
def OpensGood (w : DoorbellWorld) : DoorbellAction → Prop
  | .turn => ∀ call ∈ w.call, ∀ cqe ∈ call.upcoming w.jfc w.memory,
      w.met = 0 → cqe.good = true
  | _ => True

instance (w : DoorbellWorld) (action : DoorbellAction) : Decidable (w.OpensGood action) := by
  cases action <;> unfold OpensGood <;> infer_instance

/-- A call that has met no entry has changed nothing; one that has met some will
publish the consumer index when it returns. -/
structure Current (w : DoorbellWorld) : Prop where
  idle : w.call = none → w.Published
  inCall : ∀ call, w.call = some call →
    (w.met = 0 → call.npolled = 0 ∧ w.Published) ∧ (w.met ≠ 0 → call.npolled ≠ 0)

theorem toNat_doorbell (ci : UInt32) : (ci &&& cdmaJfcDbCiIdxM).toNat = ci.toNat % 2 ^ 22 := by
  have low : 22 ≤ 32 := by decide
  exact toNat_and_mask low ci

/-- A call that returns a count other than zero leaves the doorbell current; any
other call leaves the word alone. -/
theorem cdmaUPollJfcExit_word (jfc : CdmaUJfc) (memory : Memory) (call : PollCall)
    (ret : JfcPollState) :
    cdmaUPollJfcExit jfc memory call ret = .exit jfc
      (cdmaUPollJfcExit jfc memory call ret).memory call
      (if ret = .pollErr then -cdmaInterErr else call.npolled.toInt32.toInt) ∧
    (cdmaUPollJfcExit jfc memory call ret).memory.word =
      if call.npolled = 0 then memory.word
      else Function.update memory.word jfc.swDb (jfc.cq.ci &&& cdmaJfcDbCiIdxM) := by
  unfold cdmaUPollJfcExit
  by_cases none : call.npolled = 0 <;> simp [none, PollTurn.memory]

variable {w next : DoorbellWorld} {call : PollCall}

private theorem Current.turn_idle (current : w.Current) (active : w.call = some call)
    (idle : call.upcoming w.jfc w.memory = none) : (w.turn call).Current := by
  obtain ⟨untouched, counts⟩ := current.inCall call active
  obtain ⟨exits, word⟩ := cdmaUPollJfcExit_word w.jfc w.memory call .ok
  unfold DoorbellWorld.turn
  rw [cdmaUPollJfcTurn_idle idle, exits]
  refine ⟨fun _ => ?_, fun other active => by cases active⟩
  unfold Published
  rw [word]
  by_cases first : w.met = 0
  · rw [if_pos (untouched first).1]
    exact (untouched first).2
  · rw [if_neg (counts first), Function.update_self]
    exact toNat_doorbell _

private theorem Current.turn_meets (current : w.Current) (active : w.call = some call)
    {cqe : CdmaUJfcCqe} (meets : call.upcoming w.jfc w.memory = some cqe)
    (opensGood : w.met = 0 → cqe.good = true) : (w.turn call).Current := by
  obtain ⟨_, counts⟩ := current.inCall call active
  unfold DoorbellWorld.turn
  rw [cdmaUPollJfcTurn_meets meets, meets]
  by_cases good : cqe.good = true
  · simp only [if_pos good, Option.isSome_some, if_true]
    refine ⟨fun ended => (by cases ended), fun other active => ?_⟩
    cases active
    have more : call.npolled < call.crCnt := by
      by_contra full
      simp [PollCall.upcoming, full] at meets
    have grown : call.npolled + 1 ≠ 0 := by grind
    exact ⟨fun none => by simp at none, fun _ => grown⟩
  · simp only [if_neg good]
    have later : w.met ≠ 0 := fun first => good (opensGood first)
    obtain ⟨exits, word⟩ := cdmaUPollJfcExit_word (w.jfc.setCi (w.jfc.cq.ci + 1))
      (cdmaParseCqeForJfc w.memory cqe (call.cr call.npolled)).memory
      { call with cr := Function.update call.cr call.npolled
                    (cdmaParseCqeForJfc w.memory cqe (call.cr call.npolled)).cr }
      (if cqe.invalid then .pollErr else .empty)
    rw [exits]
    refine ⟨fun _ => ?_, fun other active => by cases active⟩
    unfold Published
    rw [word, if_neg (counts later), Function.update_self]
    exact toNat_doorbell _

private theorem Published.of_clean (published : w.Published) {jfc : CdmaUJfc} {memory : Memory}
    {fuel : Nat} {jettyId : UInt32}
    (done : cdmaUCleanJfc fuel w.jfc w.memory jettyId = some (jfc, memory)) :
    Published { w with jfc := jfc, memory := memory } := by
  unfold Published at published ⊢
  rcases cdmaUCleanJfc_word done with ⟨rfl, word⟩ | ⟨swDb, word⟩
  · rw [word]
    exact published
  · rw [word, swDb, Function.update_self]
    exact toNat_doorbell _

theorem Current.step {action : DoorbellAction} (current : w.Current)
    (opensGood : w.OpensGood action) (stepped : w.step action = some next) : next.Current := by
  cases action with
  | outside cqe queue =>
      cases stepped
      exact ⟨current.idle, current.inCall⟩
  | call crCnt cr =>
      simp only [DoorbellWorld.step] at stepped
      split at stepped
      · rename_i free
        cases stepped
        refine ⟨fun ended => (by cases ended), fun other active => ?_⟩
        cases active
        exact ⟨fun _ => ⟨rfl, current.idle free⟩, fun met => absurd rfl met⟩
      · cases stepped
  | turn =>
      simp only [DoorbellWorld.step, Option.map_eq_some_iff] at stepped
      obtain ⟨call, active, rfl⟩ := stepped
      cases meets : call.upcoming w.jfc w.memory with
      | none => exact current.turn_idle active meets
      | some cqe => exact current.turn_meets active meets (opensGood call active cqe meets)
  | clean fuel jettyId =>
      simp only [DoorbellWorld.step] at stepped
      split at stepped
      · rename_i free
        rw [Option.map_eq_some_iff] at stepped
        obtain ⟨⟨jfc, memory⟩, done, rfl⟩ := stepped
        refine ⟨fun _ => (current.idle free).of_clean done, fun call active => ?_⟩
        exact absurd (free.symm.trans active) (by simp)
      · cases stepped

def minDepth : DoorbellWorld :=
  { jfc := CqWorld.minDepth.jfc, memory := CqWorld.minDepth.memory, call := none, met := 0 }

def firstEntry (cqe : CdmaUJfcCqe) : DoorbellAction :=
  .outside (deviceWrite minDepth.jfc.cq minDepth.memory 0 cqe).cqe minDepth.memory.queue

end DoorbellWorld

/-- Whenever no call is running, the doorbell holds the consumer index, provided
every poll call that meets an entry meets a good one first. -/
theorem cdmaUPollJfc_publishes {start final : DoorbellWorld} (idle : start.call = none)
    (ci_eq : start.jfc.cq.ci = 0) (swDb_eq : start.memory.word start.jfc.swDb = 0)
    {actions : List DoorbellAction}
    (conforms : Conforms DoorbellWorld.step DoorbellWorld.OpensGood start actions)
    (ran : run DoorbellWorld.step start actions = some final) (returned : final.call = none) :
    (final.memory.word final.jfc.swDb).toNat = final.jfc.cq.ci.toNat % 2 ^ 22 := by
  have current : start.Current := by
    refine ⟨fun _ => ?_, fun call active => ?_⟩
    · unfold DoorbellWorld.Published
      rw [swDb_eq, ci_eq]
      rfl
    · rw [idle] at active
      cases active
  exact (run_invariant_of_conforms DoorbellWorld.step
    (fun _ _ _ opensGood held stepped => DoorbellWorld.Current.step held opensGood stepped)
    conforms current ran).idle returned

theorem cdmaUPollJfc_publishes_success :
    ∃ final, run DoorbellWorld.step .minDepth
        [DoorbellWorld.firstEntry .success, .call 2 fun _ => .blank, .turn, .turn, .clean 4 0] =
          some final ∧
      (final.memory.word final.jfc.swDb).toNat = final.jfc.cq.ci.toNat % 2 ^ 22 := by
  have runs : (run DoorbellWorld.step .minDepth
      [DoorbellWorld.firstEntry .success, .call 2 fun _ => .blank, .turn, .turn,
        .clean 4 0]).isSome := by decide
  obtain ⟨final, ran⟩ := Option.isSome_iff_exists.mp runs
  refine ⟨final, ran, cdmaUPollJfc_publishes rfl rfl rfl (by decide) ran ?_⟩
  cases ran
  rfl

/-- A call that meets a flush-done entry first consumes it and publishes nothing. -/
theorem cdmaUPollJfc_lags_flushDone :
    ∃ final, run DoorbellWorld.step .minDepth
        [DoorbellWorld.firstEntry .flushDone, .call 1 fun _ => .blank, .turn] = some final ∧
      final.call = none ∧
      (final.memory.word final.jfc.swDb).toNat ≠ final.jfc.cq.ci.toNat % 2 ^ 22 :=
  ⟨_, rfl, rfl, by decide⟩

end Libcdma
