/-
Wake-ups of a queue in event mode.

The device raises one event for each arming, and the next arming is the business
of the call that took the event.  The threads below interleave at every place
where a call of `cdma_wait_queue` or `cdma_poll_queue` holds nothing, and the
completions come from the device at any time.
-/

import Libcdma.CompletionPolling
import Libcdma.Model.Event

namespace Libcdma

open WrapCounter Transition

/-- A queue with the events that the kernel has not delivered.  `last` is the thread
that took the last event while the queue was not armed, until it is armed again. -/
structure EventWorld where
  cfg : QueueCfg
  jfce : DmaJfce
  jfc : CdmaUJfc
  memory : Memory
  compEventsAcked : UInt32
  locked : Bool
  written : Nat
  armed : Option CdmaJfcDb
  pending : Nat
  calls : Nat → QueueCall
  last : Option Nat

inductive EventAction where
  | complete (cqe : CdmaUJfcCqe)
  | raise
  | post (queue : UInt64 → CdmaUJettyQueue)
  | poll (thread : Nat) (crCnt : UInt32) (cr : Option (UInt32 → DmaCr))
  | wait (thread : Nat) (crCnt : UInt32) (cr : Option (UInt32 → DmaCr))
  | wake (thread : Nat) (eventCnt : Option UInt32)
  | lock (thread : Nat)
  | turn (thread : Nat)
  | ack (thread : Nat)
  | rearm (thread : Nat)
  | doorbell (thread : Nat)
  | leave (thread : Nat)

/-- An armed queue holds an entry at the index it was armed with, as far as the
doorbell's bits tell. -/
def CdmaJfcDb.reached (db : CdmaJfcDb) (written : Nat) : Bool :=
  !db.notify && db.ci.toNat != written % 2 ^ 22

namespace EventWorld

def setCall (w : EventWorld) (thread : Nat) (call : QueueCall) : EventWorld :=
  { w with calls := Function.update w.calls thread call }

/-- What the kernel may answer to a call that asks for events, whatever its timeout. -/
def Answers (w : EventWorld) (crCnt : UInt32) (eventCnt : Option UInt32) : Prop :=
  ∀ cnt ∈ eventCnt, 0 ≤ w.jfce.fd ∧ crCnt ≠ 0 ∧ cnt ≤ crCnt ∧ cnt.toNat ≤ w.pending ∧
    cnt.toNat < 2 ^ 31

instance (w : EventWorld) (crCnt : UInt32) (eventCnt : Option UInt32) :
    Decidable (w.Answers crCnt eventCnt) :=
  Option.decidableForallMem eventCnt

def take (w : EventWorld) (thread taken : Nat) : EventWorld :=
  { w with
    pending := w.pending - taken
    last := if taken ≠ 0 ∧ w.armed = none ∧ w.pending = taken then some thread else w.last }

def applyTurn (w : EventWorld) (thread : Nat) (waits : Bool) : PollTurn → EventWorld
  | .again jfc memory call =>
      { w.setCall thread (.polling waits call) with jfc := jfc, memory := memory }
  | .exit jfc memory _ value =>
      { w.setCall thread (.afterPoll waits value) with
        jfc := jfc, memory := memory, locked := false }

def step (w : EventWorld) : EventAction → Option EventWorld
  | .complete cqe =>
      some
        { w with
          memory := deviceWrite w.jfc.cq w.memory w.written cqe
          written := w.written + 1 }
  | .raise =>
      match w.armed with
      | some db =>
          if db.reached w.written then some { w with armed := none, pending := w.pending + 1 }
          else none
      | none => none
  | .post queue => some { w with memory := { w.memory with queue := queue } }
  | .poll thread crCnt cr =>
      match w.calls thread with
      | .idle => some (w.setCall thread (dmaPollQueue (some w.cfg) crCnt cr))
      | _ => none
  | .wait thread crCnt cr =>
      match w.calls thread with
      | .idle => some (w.setCall thread (dmaWaitQueue (some w.cfg) crCnt cr))
      | _ => none
  | .wake thread eventCnt =>
      match w.calls thread with
      | .waiting crCnt cr =>
          if w.Answers crCnt eventCnt then
            some ((w.take thread (eventCnt.getD 0).toNat).setCall thread
              (.woken (cdmaUWaitJfc (some w.jfce) crCnt eventCnt) crCnt cr))
          else none
      | _ => none
  | .lock thread =>
      match w.calls thread with
      | .entering waits crCnt cr =>
          if w.locked then none
          else some { w.setCall thread (.polling waits (.start crCnt cr)) with locked := true }
      | _ => none
  | .turn thread =>
      match w.calls thread with
      | .polling waits call =>
          some (w.applyTurn thread waits (cdmaUPollJfcTurn w.jfc w.memory call))
      | _ => none
  | .ack thread =>
      match w.calls thread with
      | .polled pollCnt =>
          let (jfc, acked) := cdmaUAckJfc w.jfc w.compEventsAcked (UInt32.ofInt pollCnt)
          some { w.setCall thread (.acked pollCnt) with jfc := jfc, compEventsAcked := acked }
      | _ => none
  | .rearm thread =>
      match w.calls thread with
      | .acked pollCnt =>
          some (w.setCall thread (.afterRearm pollCnt (cdmaURearmJfc (some w.jfc) false)))
      | _ => none
  | .doorbell thread =>
      match w.calls thread with
      | .arming pollCnt db =>
          some { w.setCall thread (.returning pollCnt) with armed := some db, last := none }
      | _ => none
  | .leave thread =>
      match w.calls thread with
      | .returning _ => some (w.setCall thread .idle)
      | _ => none

/-- A queue that `dma_alloc_queue` has just made for event mode: armed, with nothing
delivered and no call under way. -/
structure Initial (w : EventWorld) : Prop where
  eventMode : w.cfg.eventMode = true
  armed : w.armed = (cdmaURearmJfc (some w.jfc) false).2
  pending : w.pending = 0
  idle : ∀ thread, w.calls thread = .idle
  last : w.last = none

end EventWorld

def PollCall.endsEmpty (call : PollCall) (jfc : CdmaUJfc) (memory : Memory) : Bool :=
  match call.upcoming jfc memory with
  | none => decide (call.npolled.toInt32.toInt ≤ 0)
  | some cqe => cqe.invalid || (cqe.fd && decide (call.npolled.toInt32.toInt ≤ 0))

def PollTurn.value : PollTurn → Option Int
  | .again _ _ _ => none
  | .exit _ _ _ value => some value

theorem cdmaUPollJfcExit_value (jfc : CdmaUJfc) (memory : Memory) (call : PollCall)
    (ret : JfcPollState) :
    (cdmaUPollJfcExit jfc memory call ret).value =
      some (if ret = .pollErr then -cdmaInterErr else call.npolled.toInt32.toInt) := rfl

theorem cdmaUPollJfcTurn_value {jfc : CdmaUJfc} {memory : Memory} {call : PollCall}
    (records : call.endsEmpty jfc memory = false) {value : Int}
    (ends : (cdmaUPollJfcTurn jfc memory call).value = some value) : 0 < value := by
  unfold PollCall.endsEmpty at records
  cases next : call.upcoming jfc memory with
  | none =>
      rw [cdmaUPollJfcTurn_idle next, cdmaUPollJfcExit_value, if_neg (by decide)] at ends
      rw [next] at records
      cases ends
      exact Int.not_le.mp (of_decide_eq_false records)
  | some cqe =>
      simp only [next, Bool.or_eq_false_iff] at records
      rw [cdmaUPollJfcTurn_meets next] at ends
      by_cases good : cqe.good = true
      · simp only [if_pos good] at ends
        cases ends
      · have fd : cqe.fd = true := by
          unfold CdmaUJfcCqe.good at good
          simpa [records.1] using good
        simp only [if_neg good, cdmaUPollJfcExit_value, records.1] at ends
        rw [fd, Bool.true_and] at records
        cases ends
        exact Int.not_le.mp (of_decide_eq_false records.2)

namespace EventWorld

/-- No call that took the last event ends its poll without a record, and none
returns while another one has the queue still to arm. -/
def settles (w : EventWorld) : EventAction → Bool
  | .turn thread =>
      match w.calls thread with
      | .polling true call => w.last != some thread || !call.endsEmpty w.jfc w.memory
      | _ => true
  | .leave thread => w.last == none || w.last == some thread
  | _ => true

end EventWorld

/-! ### What a run keeps -/

def QueueCall.unanswered : QueueCall → Bool
  | .entering waits _ _ => waits
  | .polling waits _ => waits
  | .polled _ => true
  | .acked _ => true
  | .arming _ _ => true
  | _ => false

/-- A queue that is not armed and has no event to deliver is about to be armed. -/
structure EventWorld.Watched (w : EventWorld) : Prop where
  alive : w.armed.isSome ∨ 0 < w.pending ∨ w.last.isSome
  owed : ∀ thread, w.last = some thread → (w.calls thread).unanswered = true

namespace EventWorld

variable {w next : EventWorld} {thread : Nat}

theorem Initial.watched (initial : w.Initial) : w.Watched := by
  refine ⟨.inl ?_, fun thread last => ?_⟩
  · rw [initial.armed]
    rfl
  · rw [initial.last] at last
    cases last

theorem Watched.setCall (watched : w.Watched) {call : QueueCall}
    (keeps : w.last = some thread → call.unanswered = true) : (w.setCall thread call).Watched := by
  refine ⟨watched.alive, fun other last => ?_⟩
  by_cases same : other = thread
  · subst same
    change (Function.update w.calls other call other).unanswered = true
    rw [Function.update_self]
    exact keeps last
  · change (Function.update w.calls thread call other).unanswered = true
    rw [Function.update_of_ne same]
    exact watched.owed other last

theorem Watched.not_owed (watched : w.Watched) (free : (w.calls thread).unanswered = false) :
    w.last ≠ some thread := by
  intro last
  rw [watched.owed thread last] at free
  cases free

theorem Watched.setFree (watched : w.Watched) (free : (w.calls thread).unanswered = false)
    (call : QueueCall) : (w.setCall thread call).Watched :=
  watched.setCall fun last => absurd last (watched.not_owed free)

/-- Taking events leaves the queue armed, or some to deliver, or somebody to arm it. -/
theorem Watched.take (watched : w.Watched) {taken : Nat} {call : QueueCall}
    (keeps : taken ≠ 0 → call.unanswered = true) (before : (w.calls thread).unanswered = false)
    (enough : taken ≤ w.pending) : ((w.take thread taken).setCall thread call).Watched := by
  have taking : (w.take thread taken).Watched ∨
      taken ≠ 0 ∧ (w.take thread taken).last = some thread := by
    by_cases last : taken ≠ 0 ∧ w.armed = none ∧ w.pending = taken
    · exact .inr ⟨last.1, if_pos last⟩
    · have same : (w.take thread taken).last = w.last := if_neg last
      refine .inl ⟨?_, fun other owes => watched.owed other (same ▸ owes)⟩
      rw [same]
      change w.armed.isSome ∨ 0 < w.pending - taken ∨ _
      rcases watched.alive with armed | waiting | owes
      · exact .inl armed
      · by_cases isArmed : w.armed = none
        · refine .inr (.inl ?_)
          by_cases some : taken = 0
          · omega
          · have more : w.pending ≠ taken := fun equal => last ⟨some, isArmed, equal⟩
            omega
        · exact .inl (Option.isSome_iff_ne_none.mpr isArmed)
      · exact .inr (.inr owes)
  rcases taking with kept | ⟨some, owes⟩
  · exact kept.setFree before call
  · refine ⟨.inr (.inr ?_), fun other last => ?_⟩
    · exact Option.isSome_iff_exists.mpr ⟨thread, owes⟩
    · cases owes.symm.trans last
      change (Function.update w.calls thread call thread).unanswered = true
      rw [Function.update_self]
      exact keeps some

theorem woken_unanswered {crCnt cnt : UInt32} (answered : w.Answers crCnt (some cnt))
    (cr : UInt32 → DmaCr) :
    (QueueCall.woken (cdmaUWaitJfc (some w.jfce) crCnt (some cnt)) crCnt cr).unanswered = true := by
  obtain ⟨fd, some, _, _, small⟩ := answered cnt rfl
  have value : cdmaUWaitJfc (Option.some w.jfce) crCnt (Option.some cnt) = cnt.toNat := by
    unfold cdmaUWaitJfc cdmaCmdWaitJfc
    simp only
    rw [if_neg (not_or.mpr ⟨Int.not_lt.mpr fd, some⟩), toInt32_toInt_of_small small]
  unfold QueueCall.woken
  rw [value, if_neg (by omega)]
  rfl

theorem Watched.turn (watched : w.Watched) {waits : Bool} {call : PollCall}
    (polls : w.calls thread = .polling waits call)
    (settled : w.settles (.turn thread) = true) :
    (w.applyTurn thread waits (cdmaUPollJfcTurn w.jfc w.memory call)).Watched := by
  have owing : w.last = some thread → waits = true ∧ call.endsEmpty w.jfc w.memory = false := by
    intro last
    have waiting := watched.owed thread last
    rw [polls] at waiting
    cases waits with
    | false => cases waiting
    | true =>
        refine ⟨rfl, ?_⟩
        simpa [settles, polls, last] using settled
  cases turn : cdmaUPollJfcTurn w.jfc w.memory call with
  | again jfc memory after =>
      have kept : (w.setCall thread (.polling waits after)).Watched :=
        watched.setCall fun last => (owing last).1
      exact ⟨kept.alive, kept.owed⟩
  | exit jfc memory after value =>
      have kept : (w.setCall thread (.afterPoll waits value)).Watched := by
        refine watched.setCall fun last => ?_
        obtain ⟨rfl, records⟩ := owing last
        have returns : (cdmaUPollJfcTurn w.jfc w.memory call).value = some value := by
          rw [turn]
          rfl
        have positive := cdmaUPollJfcTurn_value records returns
        unfold QueueCall.afterPoll
        rw [if_neg (by decide), if_neg (by omega)]
        rfl
      exact ⟨kept.alive, kept.owed⟩

theorem Watched.wake (watched : w.Watched) {eventCnt : Option UInt32}
    (stepped : w.step (.wake thread eventCnt) = some next) : next.Watched := by
  simp only [EventWorld.step] at stepped
  split at stepped
  · rename_i crCnt cr waiting
    split at stepped
    · rename_i answered
      cases stepped
      have before : (w.calls thread).unanswered = false := by
        rw [waiting]
        rfl
      cases eventCnt with
      | none => exact watched.take (fun some => absurd rfl some) before (Nat.zero_le _)
      | some cnt =>
          exact watched.take (fun _ => woken_unanswered answered cr) before
            (answered cnt rfl).2.2.2.1
    · cases stepped
  · cases stepped

theorem Watched.step (watched : w.Watched) {action : EventAction}
    (settled : w.settles action = true) (stepped : w.step action = some next) : next.Watched := by
  cases action with
  | complete cqe =>
      cases stepped
      exact ⟨watched.alive, watched.owed⟩
  | raise =>
      simp only [EventWorld.step] at stepped
      split at stepped
      · split at stepped
        · cases stepped
          exact ⟨.inr (.inl (Nat.succ_pos _)), watched.owed⟩
        · cases stepped
      · cases stepped
  | post queue =>
      cases stepped
      exact ⟨watched.alive, watched.owed⟩
  | poll thread crCnt cr =>
      simp only [EventWorld.step] at stepped
      split at stepped
      · rename_i idle
        cases stepped
        refine watched.setFree ?_ _
        rw [idle]
        rfl
      · cases stepped
  | wait thread crCnt cr =>
      simp only [EventWorld.step] at stepped
      split at stepped
      · rename_i idle
        cases stepped
        refine watched.setFree ?_ _
        rw [idle]
        rfl
      · cases stepped
  | wake thread eventCnt => exact watched.wake stepped
  | lock thread =>
      simp only [EventWorld.step] at stepped
      split at stepped
      · rename_i waits crCnt cr entering
        split at stepped
        · cases stepped
        · cases stepped
          have kept : (w.setCall thread (.polling waits (.start crCnt cr))).Watched := by
            refine watched.setCall fun last => ?_
            have own := watched.owed thread last
            rw [entering] at own
            exact own
          exact ⟨kept.alive, kept.owed⟩
      · cases stepped
  | turn thread =>
      simp only [EventWorld.step] at stepped
      split at stepped
      · rename_i waits call polls
        cases stepped
        exact watched.turn polls settled
      · cases stepped
  | ack thread =>
      simp only [EventWorld.step] at stepped
      split at stepped
      · cases stepped
        rename_i pollCnt _
        have kept : (w.setCall thread (.acked pollCnt)).Watched := watched.setCall fun _ => rfl
        exact ⟨kept.alive, kept.owed⟩
      · cases stepped
  | rearm thread =>
      simp only [EventWorld.step] at stepped
      split at stepped
      · cases stepped
        exact watched.setCall fun _ => rfl
      · cases stepped
  | doorbell thread =>
      simp only [EventWorld.step] at stepped
      split at stepped
      · cases stepped
        exact ⟨.inl rfl, fun _ last => absurd last nofun⟩
      · cases stepped
  | leave thread =>
      simp only [EventWorld.step] at stepped
      split at stepped
      · rename_i value returning
        cases stepped
        refine watched.setFree ?_ .idle
        rw [returning]
        rfl
      · cases stepped

/-- In a run in which no call that took the last event ends its poll empty, and none
returns while another has the queue still to arm, every call of `dma_wait_queue`
leaves the queue armed or with an event to deliver. -/
theorem cdmaWaitQueue_run {start final : EventWorld} (initial : start.Initial)
    {actions : List EventAction}
    (settled : Conforms step (fun w action => w.settles action = true) start actions)
    (ran : run step start actions = some final)
    (alone : final.settles (.leave thread) = true) (left : final.step (.leave thread) = some next) :
    next.armed.isSome ∨ 0 < next.pending := by
  have watched : final.Watched :=
    run_invariant_of_conforms step
      (fun _ _ _ settled held stepped => Watched.step held settled stepped) settled
      initial.watched ran
  have nobody : final.last = none := by
    cases last : final.last with
    | none => rfl
    | some owing =>
        have same : owing = thread := by simpa [settles, last] using alone
        rw [same] at last
        simp only [EventWorld.step] at left
        split at left
        · rename_i returning
          refine absurd last (watched.not_owed ?_)
          rw [returning]
          rfl
        · cases left
  have kept : next.armed = final.armed ∧ next.pending = final.pending := by
    simp only [EventWorld.step] at left
    split at left
    · cases left
      exact ⟨rfl, rfl⟩
    · cases left
  rw [kept.1, kept.2]
  rcases watched.alive with armed | waiting | owes
  · exact .inl armed
  · exact .inr waiting
  · rw [nobody] at owes
    cases owes

def minDepth : EventWorld :=
  { cfg := { queueDepth := 64, userCtx := 0, rmtEid := 0, eventMode := true }
    jfce := { fd := 3, id := 0 }
    jfc := CqWorld.minDepth.jfc
    memory := CqWorld.minDepth.memory
    compEventsAcked := 0
    locked := false
    written := 0
    armed := (cdmaURearmJfc (some CqWorld.minDepth.jfc) false).2
    pending := 0
    calls := fun _ => .idle
    last := none }

def blankRecords : Option (UInt32 → DmaCr) := some fun _ => .blank

def answeredEvent : List EventAction :=
  [.complete .success, .raise, .wait 0 1 blankRecords, .wake 0 (some 1), .lock 0, .turn 0, .turn 0,
    .ack 0, .rearm 0, .doorbell 0]

theorem cdmaWaitQueue_run_answeredEvent :
    ∃ final next, run step minDepth answeredEvent = some final ∧
      final.step (.leave 0) = some next ∧ (next.armed.isSome ∨ 0 < next.pending) := by
  have initial : minDepth.Initial := ⟨rfl, rfl, rfl, fun _ => rfl, rfl⟩
  have leaves : (run step minDepth answeredEvent).any (fun final =>
      final.settles (.leave 0) && (final.step (.leave 0)).isSome) = true := by decide +kernel
  obtain ⟨final, ran, both⟩ := (Option.any_eq_true ..).mp leaves
  obtain ⟨alone, stepped⟩ := (Bool.and_eq_true ..).mp both
  obtain ⟨next, left⟩ := Option.isSome_iff_exists.mp stepped
  exact ⟨final, next, ran, left, cdmaWaitQueue_run initial (by decide +kernel) ran alone left⟩

/-- A poll takes the entry of an event that is not delivered yet; the call that takes
the event finds nothing and leaves the queue neither armed nor with an event. -/
theorem cdmaWaitQueue_loses_wakeup :
    minDepth.Initial ∧
    ∃ final, run step minDepth
        [.complete .success, .raise, .poll 0 1 blankRecords, .lock 0, .turn 0, .turn 0,
          .wait 0 1 blankRecords, .wake 0 (some 1), .lock 0, .turn 0, .leave 0] = some final ∧
      final.armed = none ∧ final.pending = 0 := by
  have lost : (run step minDepth
      [.complete .success, .raise, .poll 0 1 blankRecords, .lock 0, .turn 0, .turn 0,
        .wait 0 1 blankRecords, .wake 0 (some 1), .lock 0, .turn 0, .leave 0]).any
      (fun final => decide (final.armed = none ∧ final.pending = 0)) = true := by decide +kernel
  obtain ⟨final, ran, neither⟩ := (Option.any_eq_true ..).mp lost
  exact ⟨⟨rfl, rfl, rfl, fun _ => rfl, rfl⟩, final, ran, of_decide_eq_true neither⟩

end EventWorld

end Libcdma
