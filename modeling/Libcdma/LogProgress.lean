/-
Callers of the rate limiter never wait for each other, and what they let through at all.

An exchange fails only when another call has moved the window since, and a call moves it
once, so the operations of a call are bounded by the moves it has seen.  However the
calls race, a move is good for one burst: the logs let through never run ahead of the
moves by more than one burst, and no log is refused before a whole burst has been let
through.
-/

import Mathlib.Algebra.Order.BigOperators.Group.List
import Mathlib.Algebra.Group.Nat.Defs
import Mathlib.Algebra.Order.Ring.Nat
import Libcdma.Foundation.Progress
import Libcdma.LogRateLimit

namespace Libcdma

open Transition

namespace RateAction

def turns (caller : Nat) : RateAction → Bool
  | .turn other => other = caller
  | .tick _ | .enter _ => false

def isTurn : RateAction → Bool
  | .turn _ => true
  | .tick _ | .enter _ => false

end RateAction

/-- The operations a call can have done where it stands: two for each change of the
window that it has seen, and those of its last round. -/
def RateCall.spent (running : RateCall) : Nat :=
  2 * (running.finished - running.started) +
    match running.call with
    | .loadWindow _ | .storeCount => 0
    | .exchange _ _ | .fetchAdd => 1
    | .returned _ => 2

theorem RateCall.spent_le (running : RateCall) :
    running.spent ≤ 2 * (running.finished - running.started) + 2 := by
  unfold RateCall.spent
  split <;> omega

namespace RateWorld

def answered (w : RateWorld) : Nat := w.calls.countP fun running => running.call.hasReturned

def allowed (w : RateWorld) : Nat := w.calls.countP fun running => running.call = .returned true

/-- The calls that the clock gave no reading; the limiter does not count them. -/
def unread (w : RateWorld) : Nat := w.calls.countP fun running => running.clock.isNone

def spent (w : RateWorld) : Nat := (w.calls.map RateCall.spent).sum

def spentBy (caller : Nat) (w : RateWorld) : Nat := (w.calls[caller]?.map RateCall.spent).getD 0

inductive Move (w : RateWorld) (caller : Nat) (running : RateCall) : RateWorld → Prop where
  | look (now : Int) (stands : running.call = .loadWindow now)
      (outside : outsideWindow now w.state.windowStart) :
      Move w caller running (w.put caller w.state w.changes
        (running.passed (.exchange now w.state.windowStart) w.changes running.set))
  | within (now : Int) (stands : running.call = .loadWindow now) :
      Move w caller running (w.put caller w.state w.changes
        (running.passed .fetchAdd w.changes running.set))
  | retry (now window : Int) (stands : running.call = .exchange now window)
      (changed : w.state.windowStart ≠ window) :
      Move w caller running (w.put caller w.state w.changes
        (running.passed (.loadWindow now) w.changes running.set))
  | win (now : Int) (stands : running.call = .exchange now w.state.windowStart)
      (outside : outsideWindow now w.state.windowStart) :
      Move w caller running (w.put caller ⟨now, w.state.count⟩ (w.changes + 1)
        (running.passed .storeCount (w.changes + 1) (some (w.changes + 1))))
  | store (stands : running.call = .storeCount) :
      Move w caller running (w.put caller ⟨w.state.windowStart, 1⟩ w.changes
        (running.passed (.returned true) w.changes running.set))
  | add (stands : running.call = .fetchAdd) :
      Move w caller running (w.put caller ⟨w.state.windowStart, w.state.count + 1⟩ w.changes
        (running.passed (.returned (w.state.count < cdmaLogRateBurst)) w.changes running.set))

variable {w next : RateWorld} {caller : Nat} {running : RateCall}

theorem moved_of_same {state : CdmaLogRlState} {call : LogRlCall}
    (same : state.windowStart = w.state.windowStart) :
    w.moved caller running state call =
      w.put caller state w.changes (running.passed call w.changes running.set) := by
  unfold moved
  rw [if_neg (not_not.mpr same)]

theorem ne_of_outside {now window : Int} (outside : outsideWindow now window) : now ≠ window := by
  rintro rfl
  unfold outsideWindow cdmaLogRateIntervalSec at outside
  omega

theorem move_of_step {changes : Nat} (kept : running.Kept changes) {state : CdmaLogRlState}
    {call : LogRlCall} (stepped : cdmaLogRatelimitStep w.state running.call = some (state, call)) :
    w.Move caller running (w.moved caller running state call) := by
  cases stands : running.call with
  | loadWindow now =>
      rw [stands, cdmaLogRatelimitStep] at stepped
      split at stepped
      · rename_i outside
        cases stepped
        rw [moved_of_same rfl]
        exact .look now stands outside
      · cases stepped
        rw [moved_of_same rfl]
        exact .within now stands
  | exchange now window =>
      have outside := kept.outside now window stands
      rw [stands, cdmaLogRatelimitStep] at stepped
      split at stepped
      · rename_i won
        subst won
        cases stepped
        unfold moved
        rw [if_pos (ne_of_outside outside)]
        exact .win now stands outside
      · rename_i changed
        cases stepped
        rw [moved_of_same rfl]
        exact .retry now window stands changed
  | storeCount =>
      rw [stands] at stepped
      cases stepped
      have same : (CdmaLogRlState.mk w.state.windowStart 1).windowStart = w.state.windowStart := rfl
      rw [moved_of_same same]
      exact .store stands
  | fetchAdd =>
      rw [stands] at stepped
      cases stepped
      have same : (CdmaLogRlState.mk w.state.windowStart (w.state.count + 1)).windowStart =
          w.state.windowStart := rfl
      rw [moved_of_same same]
      exact .add stands
  | returned value =>
      rw [stands] at stepped
      cases stepped

/-! ### What every run keeps -/

/-- A call about to exchange that has seen every change still knows the window, and
every change was made by a call of its own. -/
structure Sound (w : RateWorld) : Prop where
  kept : ∀ running ∈ w.calls, running.Kept w.changes
  current : ∀ running ∈ w.calls, ∀ now window, running.call = .exchange now window →
    running.finished = w.changes → w.state.windowStart = window
  winners : w.changes = w.calls.countP fun running => running.set.isSome

section Put

variable {state : CdmaLogRlState} {changes : Nat} {after : RateCall}

theorem put_mem {other : RateCall} (member : other ∈ (w.put caller state changes after).calls) :
    other ∈ w.calls ∨ other = after :=
  List.mem_or_eq_of_mem_set member

theorem Sound.put_same (sound : w.Sound) (there : w.calls[caller]? = some running)
    (same : state.windowStart = w.state.windowStart) (kept : after.Kept w.changes)
    (set : after.set = running.set)
    (current : ∀ now window, after.call = .exchange now window → w.state.windowStart = window) :
    (w.put caller state w.changes after).Sound := by
  constructor
  · intro other member
    rcases put_mem member with old | rfl
    · exact sound.kept other old
    · exact kept
  · intro other member now window stands seen
    change state.windowStart = window
    rw [same]
    rcases put_mem member with old | rfl
    · exact sound.current other old now window stands seen
    · exact current now window stands
  · have books : (w.put caller state w.changes after).calls.countP
        (fun running => running.set.isSome) + running.set.isSome.toNat =
        w.calls.countP (fun running => running.set.isSome) + after.set.isSome.toNat :=
      countP_set_add there
    rw [set] at books
    exact sound.winners.trans (Nat.add_right_cancel books).symm

end Put

theorem Sound.win (sound : w.Sound) (there : w.calls[caller]? = some running)
    {count : Int32} {now : Int} (searched : running.call.searching = true) :
    (w.put caller ⟨now, count⟩ (w.changes + 1)
      (running.passed .storeCount (w.changes + 1) (some (w.changes + 1)))).Sound := by
  have kept := sound.kept running (List.mem_of_getElem? there)
  constructor
  · intro other member
    rcases put_mem member with old | rfl
    · exact (sound.kept other old).mono (Nat.le_succ _)
    · exact kept.win searched
  · intro other member reading window stands seen
    rcases put_mem member with old | rfl
    · have behind := (sound.kept other old).finished_le
      change other.finished = w.changes + 1 at seen
      omega
    · cases stands
  · have books : (w.put caller ⟨now, count⟩ (w.changes + 1)
        (running.passed .storeCount (w.changes + 1) (some (w.changes + 1)))).calls.countP
          (fun running => running.set.isSome) + running.set.isSome.toNat =
        w.calls.countP (fun running => running.set.isSome) + 1 :=
      countP_set_add there
    rw [kept.searching searched] at books
    have before := sound.winners
    exact (congrArg (· + 1) before).trans books.symm

theorem Sound.move (sound : w.Sound) (there : w.calls[caller]? = some running)
    (move : w.Move caller running next) : next.Sound := by
  have kept := sound.kept running (List.mem_of_getElem? there)
  cases move with
  | look now stands outside =>
      have searched : running.call.searching = true := by rw [stands]; rfl
      refine sound.put_same there rfl (kept.look searched rfl ?_) rfl ?_
      · intro _ _ same
        cases same
        exact outside
      · intro _ _ same
        cases same
        rfl
  | within now stands =>
      have searched : running.call.searching = true := by rw [stands]; rfl
      refine sound.put_same there rfl (kept.look searched rfl ?_) rfl ?_
      · intro _ _ same
        cases same
      · intro _ _ same
        cases same
  | retry now window stands changed =>
      have searched : running.call.searching = true := by rw [stands]; rfl
      refine sound.put_same there rfl (kept.look searched rfl ?_) rfl ?_
      · intro _ _ same
        cases same
      · intro _ _ same
        cases same
  | win now stands outside => exact sound.win there (by rw [stands]; rfl)
  | store stands =>
      refine sound.put_same there rfl kept.answer rfl ?_
      intro _ _ same
      cases same
  | add stands =>
      refine sound.put_same there rfl kept.answer rfl ?_
      intro _ _ same
      cases same

theorem step_cases {action : RateAction} (sound : w.Sound)
    (stepped : w.step action = some next) :
    (∃ time, action = .tick time ∧ w.time ≤ time ∧ next = { w with time := time }) ∨
      (∃ clock, action = .enter clock ∧ (∀ now ∈ clock, now ≤ w.time) ∧
        next = { w with calls := w.calls ++ [w.entered clock] }) ∨
      ∃ caller running, action = .turn caller ∧ w.calls[caller]? = some running ∧
        w.Move caller running next := by
  cases action with
  | tick time =>
      obtain ⟨later, ⟨⟩⟩ := Option.ite_none_right_eq_some.mp stepped
      exact .inl ⟨time, rfl, later, rfl⟩
  | enter clock =>
      obtain ⟨read, ⟨⟩⟩ := Option.ite_none_right_eq_some.mp stepped
      exact .inr (.inl ⟨clock, rfl, read, rfl⟩)
  | turn caller =>
      obtain ⟨running, state, call, there, taken, rfl⟩ := turn_eq_some stepped
      have kept := sound.kept running (List.mem_of_getElem? there)
      exact .inr (.inr ⟨caller, running, rfl, there, move_of_step kept taken⟩)

theorem Sound.step (sound : w.Sound) {action : RateAction}
    (stepped : w.step action = some next) : next.Sound := by
  rcases step_cases sound stepped with ⟨time, _, _, rfl⟩ | ⟨clock, _, _, rfl⟩ | turned
  · exact ⟨sound.kept, sound.current, sound.winners⟩
  · have kept := w.entered_kept clock
    constructor
    · intro running member
      rcases List.mem_append.mp member with old | new
      · exact sound.kept running old
      · rw [List.mem_singleton.mp new]
        exact kept
    · intro running member reading window stands seen
      rcases List.mem_append.mp member with old | new
      · exact sound.current running old reading window stands seen
      · rw [List.mem_singleton.mp new] at stands
        cases clock <;> cases stands
    · have unset : (w.entered clock).set.isSome = false := rfl
      have books : (w.calls ++ [w.entered clock]).countP (fun running => running.set.isSome) =
          w.calls.countP fun running => running.set.isSome := by
        rw [List.countP_append, List.countP_singleton, unset]
        rfl
      exact sound.winners.trans books.symm
  · obtain ⟨caller, running, _, there, move⟩ := turned
    exact sound.move there move

theorem Initial.sound (initial : w.Initial) : w.Sound := by
  constructor
  · intro running member
    rw [initial.calls] at member
    cases member
  · intro running member
    rw [initial.calls] at member
    cases member
  · rw [initial.calls, initial.changes]
    rfl

theorem Move.calls {w next : RateWorld} (move : w.Move caller running next) :
    ∃ after, next.calls = w.calls.set caller after := by
  cases move <;> exact ⟨_, rfl⟩

theorem Sound.pays (sound : w.Sound) (there : w.calls[caller]? = some running)
    (move : w.Move caller running next) :
    ∃ after, next.calls = w.calls.set caller after ∧ running.spent < after.spent := by
  have member := List.mem_of_getElem? there
  have kept := sound.kept running member
  have began := kept.started_le
  have seen := kept.finished_le
  cases move with
  | look now stands outside =>
      refine ⟨_, rfl, ?_⟩
      simp only [RateCall.spent, RateCall.passed, stands]
      omega
  | within now stands =>
      refine ⟨_, rfl, ?_⟩
      simp only [RateCall.spent, RateCall.passed, stands]
      omega
  | retry now window stands changed =>
      have missed : running.finished ≠ w.changes := fun all =>
        changed (sound.current running member now window stands all)
      refine ⟨_, rfl, ?_⟩
      simp only [RateCall.spent, RateCall.passed, stands]
      omega
  | win now stands outside =>
      refine ⟨_, rfl, ?_⟩
      simp only [RateCall.spent, RateCall.passed, stands]
      omega
  | store stands =>
      refine ⟨_, rfl, ?_⟩
      simp only [RateCall.spent, RateCall.passed, stands]
      omega
  | add stands =>
      refine ⟨_, rfl, ?_⟩
      simp only [RateCall.spent, RateCall.passed, stands]
      omega

theorem sum_map_set {α : Type} (weight : α → Nat) {items : List α} {index : Nat} {old new : α}
    (there : items[index]? = some old) :
    ((items.set index new).map weight).sum + weight old =
      (items.map weight).sum + weight new := by
  induction items generalizing index with
  | nil => cases there
  | cons item rest ih =>
      cases index with
      | zero =>
          cases there
          simp only [List.set_cons_zero, List.map_cons, List.sum_cons]
          omega
      | succ index =>
          have others := ih there
          simp only [List.set_cons_succ, List.map_cons, List.sum_cons]
          omega

theorem spent_pays {action : RateAction} (sound : w.Sound) (stepped : w.step action = some next) :
    w.spent + action.isTurn.toNat ≤ next.spent := by
  rcases step_cases sound stepped with ⟨time, rfl, _, rfl⟩ | ⟨clock, rfl, _, rfl⟩ | turned
  · exact Nat.le_refl _
  · change w.spent + 0 ≤ ((w.calls ++ [w.entered clock]).map RateCall.spent).sum
    rw [List.map_append, List.sum_append]
    exact Nat.le_add_right _ _
  · obtain ⟨caller, running, rfl, there, move⟩ := turned
    obtain ⟨after, calls, more⟩ := sound.pays there move
    have books : ((w.calls.set caller after).map RateCall.spent).sum + running.spent =
        (w.calls.map RateCall.spent).sum + after.spent := sum_map_set RateCall.spent there
    change (w.calls.map RateCall.spent).sum + 1 ≤ (next.calls.map RateCall.spent).sum
    rw [calls]
    omega

theorem spentBy_pays {action : RateAction} (sound : w.Sound)
    (stepped : w.step action = some next) (caller : Nat) :
    w.spentBy caller + (action.turns caller).toNat ≤ next.spentBy caller := by
  rcases step_cases sound stepped with ⟨time, rfl, _, rfl⟩ | ⟨clock, rfl, _, rfl⟩ | turned
  · exact Nat.le_refl _
  · change w.spentBy caller + 0 ≤ ((w.calls ++ [w.entered clock])[caller]?.map RateCall.spent).getD 0
    unfold spentBy
    by_cases inside : caller < w.calls.length
    · rw [List.getElem?_append_left inside]
      exact Nat.le_refl _
    · rw [List.getElem?_eq_none (Nat.le_of_not_lt inside)]
      exact Nat.zero_le _
  · obtain ⟨other, running, rfl, there, move⟩ := turned
    obtain ⟨after, calls, more⟩ := sound.pays there move
    unfold spentBy
    rw [calls]
    by_cases own : other = caller
    · subst own
      obtain ⟨inside, _⟩ := List.getElem?_eq_some_iff.mp there
      have turns : (RateAction.turn other).turns other = true := decide_eq_true rfl
      rw [List.getElem?_set_self inside, there, turns]
      exact more
    · have turns : (RateAction.turn other).turns caller = false := decide_eq_false own
      rw [List.getElem?_set_ne own, turns]
      exact Nat.le_refl _

theorem Sound.changes_le (sound : w.Sound) : w.changes ≤ w.calls.length := by
  rw [sound.winners]
  exact List.countP_le_length

theorem Sound.spent_le (sound : w.Sound) :
    w.spent ≤ w.calls.length * (2 * w.calls.length + 2) := by
  have few := sound.changes_le
  have each : ∀ spent ∈ w.calls.map RateCall.spent, spent ≤ 2 * w.calls.length + 2 := by
    intro spent listed
    obtain ⟨running, member, rfl⟩ := List.mem_map.mp listed
    have most := RateCall.spent_le running
    have seen := (sound.kept running member).finished_le
    omega
  have sum := List.sum_le_card_nsmul _ _ each
  rw [List.length_map, Nat.nsmul_eq_mul] at sum
  exact sum

theorem exists_turn (there : w.calls[caller]? = some running)
    (pending : running.call.hasReturned = false) :
    ∃ next, w.step (.turn caller) = some next := by
  have goes : ∃ after, cdmaLogRatelimitStep w.state running.call = some after := by
    cases stands : running.call with
    | loadWindow now =>
        rw [cdmaLogRatelimitStep]
        split <;> exact ⟨_, rfl⟩
    | exchange now window =>
        rw [cdmaLogRatelimitStep]
        split <;> exact ⟨_, rfl⟩
    | storeCount => exact ⟨_, rfl⟩
    | fetchAdd => exact ⟨_, rfl⟩
    | returned value =>
        rw [stands] at pending
        cases pending
  obtain ⟨⟨state, call⟩, taken⟩ := goes
  have moves : (cdmaLogRatelimitStep w.state running.call).bind
      (fun taken => some (w.moved caller running taken.1 taken.2)) =
      some (w.moved caller running state call) :=
    Option.bind_eq_some_iff.mpr ⟨(state, call), taken, rfl⟩
  exact ⟨_, Option.bind_eq_some_iff.mpr ⟨running, there, moves⟩⟩

theorem Sound.finishes (sound : w.Sound) :
    ∃ turns last, (∀ action ∈ turns, RateAction.isTurn action = true) ∧
      run RateWorld.step w turns = some last ∧
      last.calls.length = w.calls.length ∧
      ∀ running ∈ last.calls, running.call.hasReturned = true := by
  let bound := w.calls.length * (2 * w.calls.length + 2)
  have nearer (state : RateWorld) (inv : state.Sound ∧ state.calls.length = w.calls.length)
      (unfinished : ¬∀ running ∈ state.calls, running.call.hasReturned = true) :
      ∃ actions next, (∀ action ∈ actions, RateAction.isTurn action = true) ∧
        run RateWorld.step state actions = some next ∧
        (next.Sound ∧ next.calls.length = w.calls.length) ∧
        bound - next.spent < bound - state.spent := by
    obtain ⟨stateSound, length⟩ := inv
    obtain ⟨running, unmet⟩ := not_forall.mp unfinished
    obtain ⟨member, pending⟩ := Classical.not_imp.mp unmet
    obtain ⟨caller, inside, rfl⟩ := List.getElem_of_mem member
    have there := List.getElem?_eq_getElem inside
    obtain ⟨next, stepped⟩ := exists_turn there (Bool.eq_false_iff.mpr pending)
    have nextSound := stateSound.step stepped
    have paid := spent_pays stateSound stepped
    have kept : next.calls.length = w.calls.length := by
      rcases step_cases stateSound stepped with ⟨_, turn, _⟩ | ⟨_, turn, _⟩ | turned
      · cases turn
      · cases turn
      · obtain ⟨_, _, _, _, move⟩ := turned
        obtain ⟨after, calls⟩ := move.calls
        rw [calls, List.length_set, length]
    have most : next.spent ≤ bound := by
      have spent := nextSound.spent_le
      rw [kept] at spent
      exact spent
    refine ⟨[.turn caller], next, ?_, run_single stepped, ⟨nextSound, kept⟩, ?_⟩
    · intro action listed
      rw [List.mem_singleton.mp listed]
      rfl
    · change state.spent + 1 ≤ next.spent at paid
      omega
  obtain ⟨turns, last, kinds, ran, ⟨_, length⟩, finished⟩ :=
    exists_run_reaching nearer ⟨sound, rfl⟩
  exact ⟨turns, last, kinds, ran, length, finished⟩

/-! ### How much is let through -/

/-- What has been let through or is bound to be, against what the changes of the window
and the counter stand for. -/
def overrun (w : RateWorld) : Int :=
  w.allowed - w.unread + cdmaLogRateBurst.toInt * w.resetting -
    cdmaLogRateBurst.toInt * w.changes - min w.state.count.toInt cdmaLogRateBurst.toInt

/-- The counter counts answers, and the first burst of answers lets everything through. -/
structure Counted (w : RateWorld) : Prop where
  count_nonneg : 0 ≤ w.state.count.toInt
  count_le : w.state.count.toInt ≤ w.answered
  counted : min w.state.count.toInt cdmaLogRateBurst.toInt ≤ w.allowed - w.unread
  refused : w.allowed < w.answered → cdmaLogRateBurst.toInt ≤ w.allowed - w.unread

theorem counts_passed (there : w.calls[caller]? = some running) (state : CdmaLogRlState)
    (changes : Nat) (call : LogRlCall) (set : Option Nat) :
    (w.put caller state changes (running.passed call changes set)).answered +
        running.call.hasReturned.toNat = w.answered + call.hasReturned.toNat ∧
      (w.put caller state changes (running.passed call changes set)).allowed +
        (decide (running.call = .returned true)).toNat =
          w.allowed + (decide (call = .returned true)).toNat ∧
      (w.put caller state changes (running.passed call changes set)).resetting +
        (decide (running.call = .storeCount)).toNat =
          w.resetting + (decide (call = .storeCount)).toNat :=
  ⟨countP_set_add there, countP_set_add there, resetting_passed there state changes call set⟩

theorem unread_passed (there : w.calls[caller]? = some running) (state : CdmaLogRlState)
    (changes : Nat) (call : LogRlCall) (set : Option Nat) :
    (w.put caller state changes (running.passed call changes set)).unread = w.unread := by
  have books : (w.put caller state changes (running.passed call changes set)).unread +
      running.clock.isNone.toNat = w.unread + running.clock.isNone.toNat := countP_set_add there
  exact Nat.add_right_cancel books

theorem Move.unread (there : w.calls[caller]? = some running)
    (move : w.Move caller running next) : next.unread = w.unread := by
  cases move <;> exact unread_passed there ..

inductive Books (w next : RateWorld) : Prop where
  | uncounted (answered : next.answered = w.answered + 1) (allowed : next.allowed = w.allowed + 1)
      (unread : next.unread = w.unread + 1) (count : next.state.count = w.state.count)
      (resets : next.resetting = w.resetting) (changes : next.changes = w.changes)
  | search (answered : next.answered = w.answered) (allowed : next.allowed = w.allowed)
      (unread : next.unread = w.unread) (count : next.state.count = w.state.count)
      (resets : next.resetting + w.changes = w.resetting + next.changes)
  | store (answered : next.answered = w.answered + 1) (allowed : next.allowed = w.allowed + 1)
      (unread : next.unread = w.unread) (count : next.state.count = 1) (resets : next.resetting + 1 = w.resetting)
      (changes : next.changes = w.changes)
  | add (answered : next.answered = w.answered + 1)
      (allowed : next.allowed =
        w.allowed + (decide (w.state.count < cdmaLogRateBurst)).toNat)
      (unread : next.unread = w.unread) (count : next.state.count = w.state.count + 1) (resets : next.resetting = w.resetting)
      (changes : next.changes = w.changes)

theorem Move.books (there : w.calls[caller]? = some running)
    (move : w.Move caller running next) : Books w next := by
  have unread := move.unread there
  cases move with
  | look now stands outside =>
      obtain ⟨answers, passes, resets⟩ := counts_passed there w.state w.changes
        (.exchange now w.state.windowStart) running.set
      rw [stands] at answers passes resets
      exact .search answers passes unread rfl (congrArg (· + w.changes) resets)
  | within now stands =>
      obtain ⟨answers, passes, resets⟩ := counts_passed there w.state w.changes
        .fetchAdd running.set
      rw [stands] at answers passes resets
      exact .search answers passes unread rfl (congrArg (· + w.changes) resets)
  | retry now window stands changed =>
      obtain ⟨answers, passes, resets⟩ := counts_passed there w.state w.changes
        (.loadWindow now) running.set
      rw [stands] at answers passes resets
      exact .search answers passes unread rfl (congrArg (· + w.changes) resets)
  | win now stands outside =>
      obtain ⟨answers, passes, resets⟩ := counts_passed there ⟨now, w.state.count⟩
        (w.changes + 1) .storeCount (some (w.changes + 1))
      rw [stands] at answers passes resets
      refine .search answers passes unread rfl ?_
      refine (congrArg (· + w.changes) resets).trans ?_
      exact (Nat.add_assoc w.resetting 1 w.changes).trans
        (congrArg (w.resetting + ·) (Nat.add_comm 1 w.changes))
  | store stands =>
      obtain ⟨answers, passes, resets⟩ := counts_passed there ⟨w.state.windowStart, 1⟩
        w.changes (.returned true) running.set
      rw [stands] at answers passes resets
      exact .store answers passes unread rfl resets rfl
  | add stands =>
      generalize judged : decide (w.state.count < cdmaLogRateBurst) = value at unread ⊢
      obtain ⟨answers, passes, resets⟩ := counts_passed there
        ⟨w.state.windowStart, w.state.count + 1⟩ w.changes (.returned value) running.set
      rw [stands] at answers passes resets
      refine .add answers ?_ unread rfl resets rfl
      rw [judged]
      cases value <;> exact passes

theorem allowed_of_add {allowed : Nat} {count : Int32}
    (added : allowed = w.allowed + (decide (count < cdmaLogRateBurst)).toNat) :
    count.toInt < cdmaLogRateBurst.toInt ∧ allowed = w.allowed + 1 ∨
      cdmaLogRateBurst.toInt ≤ count.toInt ∧ allowed = w.allowed := by
  by_cases free : count < cdmaLogRateBurst
  · rw [decide_eq_true free] at added
    exact .inl ⟨Int32.lt_iff_toInt_lt.mp free, added⟩
  · rw [decide_eq_false free] at added
    exact .inr ⟨Int.not_lt.mp (mt Int32.lt_iff_toInt_lt.mpr free), added⟩

theorem answered_le_length (w : RateWorld) : w.answered ≤ w.calls.length :=
  List.countP_le_length

/-- A counter that fewer than `2^31` calls have raised has not wrapped. -/
theorem Counted.unwrapped (counted : w.Counted) (few : w.answered + 1 < 2 ^ 31) :
    (w.state.count + 1).toInt = w.state.count.toInt + 1 := by
  have least := counted.count_le
  refine toInt_add_one ?_
  intro last
  rw [last] at least
  change (2147483647 : Int) ≤ w.answered at least
  omega

theorem Counted.books (counted : w.Counted) (books : Books w next)
    (few : next.calls.length < 2 ^ 31) : next.Counted := by
  have bounded := next.answered_le_length
  have burst : cdmaLogRateBurst.toInt = 5 := rfl
  obtain ⟨nonneg, most, first, refused⟩ := id counted
  cases books with
  | uncounted answered allowed unread count resets changes =>
      constructor
      · rw [count]
        exact nonneg
      · rw [count]
        omega
      · rw [count]
        omega
      · intro less
        have before := refused (by omega)
        omega
  | search answered allowed unread count resets =>
      constructor
      · rw [count]
        exact nonneg
      · rw [count, answered]
        exact most
      · rw [count, allowed, unread]
        exact first
      · rw [allowed, answered, unread]
        exact refused
  | store answered allowed unread count resets changes =>
      have one : (1 : Int32).toInt = 1 := rfl
      constructor
      · rw [count, one]
        omega
      · rw [count, one]
        omega
      · rw [count, one, burst]
        omega
      · intro less
        have before := refused (by omega)
        omega
  | add answered allowed unread count resets changes =>
      have counts := counted.unwrapped (by omega)
      have passes := allowed_of_add allowed
      constructor
      · rw [count, counts]
        omega
      · rw [count, counts]
        omega
      · rw [count, counts]
        omega
      · intro less
        omega

/-- A change of the window is paid for in advance, a reset pays for the logs that used
the old count, and an addition is counted. -/
theorem Counted.overrun_le (counted : w.Counted) (books : Books w next)
    (few : next.calls.length < 2 ^ 31) : next.overrun ≤ w.overrun := by
  have bounded := next.answered_le_length
  have burst : cdmaLogRateBurst.toInt = 5 := rfl
  have nonneg := counted.count_nonneg
  unfold overrun
  rw [burst]
  cases books with
  | uncounted answered allowed unread count resets changes =>
      rw [allowed, unread, count, resets, changes]
      omega
  | search answered allowed unread count resets =>
      rw [allowed, unread, count]
      omega
  | store answered allowed unread count resets changes =>
      have one : (1 : Int32).toInt = 1 := rfl
      rw [allowed, unread, count, changes, one]
      omega
  | add answered allowed unread count resets changes =>
      have counts := counted.unwrapped (by omega)
      have passes := allowed_of_add allowed
      rw [unread, count, counts, resets, changes]
      omega

/-- A call without a reading is let through at once. -/
theorem enter_books (w : RateWorld) (clock : Option Int) :
    Books w { w with calls := w.calls ++ [w.entered clock] } := by
  have counts (holds : RateCall → Bool) : (w.calls ++ [w.entered clock]).countP holds =
      w.calls.countP holds + (holds (w.entered clock)).toNat := by
    rw [List.countP_append, List.countP_singleton]
    cases holds (w.entered clock) <;> rfl
  have answered := counts fun running => running.call.hasReturned
  have allowed := counts fun running => running.call = .returned true
  have unread := counts fun running => running.clock.isNone
  have resets := counts fun running => running.call = .storeCount
  cases clock with
  | none => exact .uncounted answered allowed unread rfl resets rfl
  | some now => exact .search answered allowed unread rfl (congrArg (· + w.changes) resets)

theorem step_books {action : RateAction} (sound : w.Sound) (stepped : w.step action = some next) :
    Books w next := by
  rcases step_cases sound stepped with ⟨time, _, _, rfl⟩ | ⟨clock, _, _, rfl⟩ | turned
  · exact .search rfl rfl rfl rfl rfl
  · exact w.enter_books clock
  · obtain ⟨caller, running, _, there, move⟩ := turned
    exact move.books there

theorem length_le_of_step {action : RateAction} (sound : w.Sound)
    (stepped : w.step action = some next) : w.calls.length ≤ next.calls.length := by
  rcases step_cases sound stepped with ⟨time, _, _, rfl⟩ | ⟨clock, _, _, rfl⟩ | turned
  · exact Nat.le_refl _
  · rw [List.length_append]
    exact Nat.le_add_right _ _
  · obtain ⟨caller, running, _, _, move⟩ := turned
    obtain ⟨after, calls⟩ := move.calls
    rw [calls, List.length_set]

/-- The books of a run, as long as so few calls take part that the counter does not wrap. -/
structure Amortized (base : Int) (w : RateWorld) : Prop where
  sound : w.Sound
  books : w.calls.length < 2 ^ 31 → w.Counted ∧ w.overrun ≤ base

theorem Amortized.step {base : Int} {action : RateAction} (amortized : w.Amortized base)
    (stepped : w.step action = some next) : next.Amortized base := by
  have sound := amortized.sound
  constructor
  · exact sound.step stepped
  · intro few
    have books := step_books sound stepped
    have grown := length_le_of_step sound stepped
    obtain ⟨counted, least⟩ := amortized.books (Nat.lt_of_le_of_lt grown few)
    constructor
    · exact counted.books books few
    · exact Int.le_trans (counted.overrun_le books few) least

theorem Initial.amortized (initial : w.Initial) : w.Amortized 0 := by
  have nobody (holds : RateCall → Bool) : w.calls.countP holds = 0 := by
    rw [initial.calls]
    rfl
  have answered : w.answered = 0 := nobody _
  have allowed : w.allowed = 0 := nobody _
  have unread : w.unread = 0 := nobody _
  have resetting : w.resetting = 0 := nobody _
  constructor
  · exact initial.sound
  · intro _
    constructor
    · constructor
      · rw [initial.state]
        exact Int.le_refl _
      · rw [initial.state, answered]
        exact Int.le_refl _
      · rw [initial.state, allowed, unread]
        exact Int.le_refl _
      · intro less
        omega
    · unfold overrun
      rw [allowed, unread, resetting, initial.changes, initial.state]
      exact Int.le_refl _

/-! ### Windows that only move on -/

def Forwards (windowStart : Int) (running : RateCall) : Prop :=
  match running.call with
  | .exchange now window => windowStart = window → window ≤ now
  | _ => True

instance (windowStart : Int) : ∀ running, Decidable (Forwards windowStart running)
  | ⟨_, .exchange _ _, _, _, _⟩ => inferInstanceAs (Decidable (_ → _))
  | ⟨_, .loadWindow _, _, _, _⟩ | ⟨_, .storeCount, _, _, _⟩ | ⟨_, .fetchAdd, _, _, _⟩ |
    ⟨_, .returned _, _, _, _⟩ => instDecidableTrue

def StepsForwards (w : RateWorld) : RateAction → Prop
  | .turn caller => ∀ running ∈ w.calls[caller]?, Forwards w.state.windowStart running
  | _ => True

instance (w : RateWorld) : ∀ action, Decidable (w.StepsForwards action)
  | .turn caller => Option.decidableForallMem w.calls[caller]?
  | .tick _ | .enter _ => instDecidableTrue

/-- Changes of the window lie at least an interval apart. -/
theorem interval_le {action : RateAction} (sound : w.Sound) (forwards : w.StepsForwards action)
    (stepped : w.step action = some next) :
    cdmaLogRateIntervalSec * (next.changes - w.changes) ≤
      next.state.windowStart - w.state.windowStart := by
  have still (changes : next.changes = w.changes)
      (start : next.state.windowStart = w.state.windowStart) :
      cdmaLogRateIntervalSec * (next.changes - w.changes) ≤
        next.state.windowStart - w.state.windowStart := by
    rw [changes, start, Int.sub_self, Int.sub_self, Int.mul_zero]
  rcases step_cases sound stepped with ⟨time, _, _, rfl⟩ | ⟨clock, _, _, rfl⟩ | turned
  · exact still rfl rfl
  · exact still rfl rfl
  · obtain ⟨caller, running, rfl, there, move⟩ := turned
    cases move with
    | look _ _ _ => exact still rfl rfl
    | within _ _ => exact still rfl rfl
    | retry _ _ _ _ => exact still rfl rfl
    | store _ => exact still rfl rfl
    | add _ => exact still rfl rfl
    | win now stands outside =>
        have onwards := forwards running there
        rw [Forwards, stands] at onwards
        have later := onwards rfl
        change 5 * (((w.changes + 1 : Nat) : Int) - w.changes) ≤ now - w.state.windowStart
        unfold outsideWindow cdmaLogRateIntervalSec at outside
        omega

end RateWorld

/-! ### Whole runs -/

/-- No caller of the limiter is ever kept waiting, and none keeps the others busy for
long: a call does two operations for each change of the window that it sees and two
more, each change is a call's own, and so all calls of a run come to their ends within
a number of operations that depends on the number of calls alone. -/
theorem cdmaLogRatelimit_lock_free {w final : RateWorld} {actions : List RateAction}
    (initial : w.Initial) (ran : run RateWorld.step w actions = some final) :
    (∀ caller running, final.calls[caller]? = some running →
      actions.countP (RateAction.turns caller) ≤
        2 * (running.finished - running.started) + 2) ∧
    (final.changes = final.calls.countP fun running => running.set.isSome) ∧
    actions.countP RateAction.isTurn ≤ final.calls.length * (2 * final.calls.length + 2) ∧
    (∀ caller running, final.calls[caller]? = some running →
      running.call.hasReturned = false → ∃ next, final.step (.turn caller) = some next) ∧
    ∃ turns last, (∀ action ∈ turns, RateAction.isTurn action = true) ∧
      run RateWorld.step final turns = some last ∧ last.calls.length = final.calls.length ∧
      ∀ running ∈ last.calls, running.call.hasReturned = true := by
  have keeps (state : RateWorld) (action : RateAction) (next : RateWorld) (sound : state.Sound)
      (stepped : state.step action = some next) : next.Sound :=
    sound.step stepped
  have sound := run_invariant RateWorld.step keeps initial.sound ran
  refine ⟨?_, sound.winners, ?_, ?_, sound.finishes⟩
  · intro caller running there
    have paid := count_le_gauge keeps
      (fun state action next stateSound stepped =>
        RateWorld.spentBy_pays stateSound stepped caller)
      initial.sound ran
    have own : final.spentBy caller = running.spent := by
      unfold RateWorld.spentBy
      rw [there]
      rfl
    have most := RateCall.spent_le running
    omega
  · have paid : w.spent + actions.countP RateAction.isTurn ≤ final.spent :=
      count_le_gauge keeps
        (fun state action next stateSound stepped => RateWorld.spent_pays stateSound stepped)
        initial.sound ran
    have most := sound.spent_le
    omega
  · intro caller running there pending
    exact RateWorld.exists_turn there pending

/-- Two calls want to move the window.  One does and has yet to count itself, the other
one has been sent back and finds itself inside.  A third one has no reading. -/
def RateWorld.race : List RateAction :=
  [.enter (some 10), .enter (some 10), .enter none, .turn 0, .turn 1, .turn 0, .turn 1, .turn 1]

theorem RateWorld.race_run :
    ∃ middle final, run RateWorld.step (.fresh 10) RateWorld.race = some middle ∧
      run RateWorld.step middle [.turn 0, .turn 1] = some final ∧
      middle.resetting = 1 ∧ final.allowed = 3 ∧ final.unread = 1 ∧ final.calls.length = 3 ∧
      Conforms RateWorld.step RateWorld.StepsForwards middle [.turn 0, .turn 1] := by
  refine ⟨_, _, rfl, rfl, ?_⟩
  decide

theorem cdmaLogRatelimit_lock_free_race :
    ∃ middle, run RateWorld.step (.fresh 10) RateWorld.race = some middle ∧
      RateWorld.race.countP RateAction.isTurn ≤
        middle.calls.length * (2 * middle.calls.length + 2) ∧
      ∃ turns last, run RateWorld.step middle turns = some last ∧
        ∀ running ∈ last.calls, running.call.hasReturned = true := by
  have initial : (RateWorld.fresh 10).Initial := ⟨rfl, rfl, rfl⟩
  obtain ⟨middle, _, ran, _⟩ := RateWorld.race_run
  obtain ⟨_, _, few, _, turns, last, _, finished, _, returned⟩ :=
    cdmaLogRatelimit_lock_free initial ran
  exact ⟨middle, ran, few, turns, last, finished, returned⟩

/-- However the calls race, what a stretch of a run lets through is one burst for each
change of the window in it or under way at its beginning, and one more, beside the calls
that the clock gave no reading; no log is refused before a whole burst has been let
through; and where no call moves the window back, its changes lie an interval apart. -/
theorem cdmaLogRatelimit_amortized {w middle final : RateWorld}
    {before after : List RateAction} (initial : w.Initial)
    (reached : run RateWorld.step w before = some middle)
    (ran : run RateWorld.step middle after = some final)
    (few : final.calls.length < 2 ^ 31) :
    (final.allowed - final.unread : Int) ≤ middle.allowed - middle.unread +
      cdmaLogRateBurst.toInt * (final.changes - middle.changes + middle.resetting + 1) ∧
    (final.allowed < final.answered →
      cdmaLogRateBurst.toInt ≤ final.allowed - final.unread) ∧
    (Conforms RateWorld.step RateWorld.StepsForwards middle after →
      cdmaLogRateIntervalSec * (final.changes - middle.changes) ≤
        final.state.windowStart - middle.state.windowStart) := by
  have keeps (base : Int) (state : RateWorld) (action : RateAction) (next : RateWorld)
      (amortized : state.Amortized base) (stepped : state.step action = some next) :
      next.Amortized base :=
    amortized.step stepped
  have middleBooks := run_invariant RateWorld.step (keeps 0) initial.amortized reached
  have restarted : middle.Amortized middle.overrun :=
    { sound := middleBooks.sound
      books := fun few => ⟨(middleBooks.books few).1, Int.le_refl _⟩ }
  have grown : middle.calls.length ≤ final.calls.length :=
    (run_invariant RateWorld.step
      (fun state action next (inv : state.Sound ∧ middle.calls.length ≤ state.calls.length)
        stepped => ⟨inv.1.step stepped,
          Nat.le_trans inv.2 (RateWorld.length_le_of_step inv.1 stepped)⟩)
      ⟨middleBooks.sound, Nat.le_refl _⟩ ran).2
  have finalBooks := run_invariant RateWorld.step (keeps middle.overrun) restarted ran
  obtain ⟨counted, overrun⟩ := finalBooks.books few
  obtain ⟨middleCounted, _⟩ := middleBooks.books (Nat.lt_of_le_of_lt grown few)
  refine ⟨?_, counted.refused, fun conforms => ?_⟩
  · have burst : cdmaLogRateBurst.toInt = 5 := rfl
    have nonneg := middleCounted.count_nonneg
    unfold RateWorld.overrun at overrun
    rw [burst] at overrun ⊢
    omega
  · have apart := run_invariant_of_conforms RateWorld.step
      (fun state action next forwards
        (inv : state.Sound ∧ cdmaLogRateIntervalSec * (state.changes - middle.changes) ≤
          state.state.windowStart - middle.state.windowStart) stepped => by
        have onwards := RateWorld.interval_le inv.1 forwards stepped
        refine ⟨inv.1.step stepped, ?_⟩
        unfold cdmaLogRateIntervalSec at onwards inv ⊢
        omega)
      conforms ⟨middleBooks.sound, by rw [Int.sub_self, Int.sub_self, Int.mul_zero]⟩ ran
    exact apart.2

theorem cdmaLogRatelimit_amortized_race :
    ∃ middle final, run RateWorld.step (.fresh 10) RateWorld.race = some middle ∧
      run RateWorld.step middle [.turn 0, .turn 1] = some final ∧ final.allowed = 3 ∧
      final.unread = 1 ∧
      (final.allowed - final.unread : Int) ≤ middle.allowed - middle.unread +
        cdmaLogRateBurst.toInt * (final.changes - middle.changes + middle.resetting + 1) ∧
      cdmaLogRateIntervalSec * (final.changes - middle.changes) ≤
        final.state.windowStart - middle.state.windowStart := by
  have initial : (RateWorld.fresh 10).Initial := ⟨rfl, rfl, rfl⟩
  obtain ⟨middle, final, reached, ran, _, allowed, unread, callers, forwards⟩ := RateWorld.race_run
  have few : final.calls.length < 2 ^ 31 := by
    rw [callers]
    decide
  obtain ⟨most, _, apart⟩ := cdmaLogRatelimit_amortized initial reached ran few
  exact ⟨middle, final, reached, ran, allowed, unread, most, apart forwards⟩

end Libcdma
