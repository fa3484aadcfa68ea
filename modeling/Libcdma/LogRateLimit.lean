/-
How many logs one window lets through.

The call that moves the window on counts itself only afterwards, and whoever adds
to the counter in between is judged by the old count.  As long as no call of the
new window is let through by the old count, no call moves the window back and the
counter does not wrap, a window lets through no more than its burst.  A call that the
clock gives no reading is let through and belongs to no window.
-/

import Libcdma.Foundation.Transition
import Libcdma.Model.Log

namespace Libcdma

open Transition

/-- A call with what the clock answered it and the changes of the window start that it
has seen: how many there had been when it asked the clock and after its latest operation,
and the one it made. -/
structure RateCall where
  clock : Option Int
  call : LogRlCall
  started : Nat
  finished : Nat
  set : Option Nat
  deriving DecidableEq

def RateCall.passed (running : RateCall) (call : LogRlCall) (changes : Nat)
    (set : Option Nat) : RateCall :=
  { running with call := call, finished := changes, set := set }

/-- `changes` numbers the values that the window start has taken. -/
structure RateWorld where
  time : Int
  state : CdmaLogRlState
  changes : Nat
  calls : List RateCall

inductive RateAction where
  | tick (time : Int)
  | enter (clock : Option Int)
  | turn (caller : Nat)

namespace RateWorld

def put (w : RateWorld) (caller : Nat) (state : CdmaLogRlState) (changes : Nat)
    (running : RateCall) : RateWorld :=
  { w with state := state, changes := changes, calls := w.calls.set caller running }

def moved (w : RateWorld) (caller : Nat) (running : RateCall) (state : CdmaLogRlState)
    (call : LogRlCall) : RateWorld :=
  if state.windowStart ≠ w.state.windowStart then
    w.put caller state (w.changes + 1)
      (running.passed call (w.changes + 1) (some (w.changes + 1)))
  else w.put caller state w.changes (running.passed call w.changes running.set)

def entered (w : RateWorld) (clock : Option Int) : RateCall :=
  { clock := clock, call := cdmaLogRatelimit clock, started := w.changes, finished := w.changes
    set := none }

/-- A reading is not later than the time at which it is taken. -/
def step (w : RateWorld) : RateAction → Option RateWorld
  | .tick time => if w.time ≤ time then some { w with time := time } else none
  | .enter clock =>
      if ∀ now ∈ clock, now ≤ w.time then some { w with calls := w.calls ++ [w.entered clock] }
      else none
  | .turn caller => do
      let running ← w.calls[caller]?
      let (state, call) ← cdmaLogRatelimitStep w.state running.call
      pure (w.moved caller running state call)

structure Initial (w : RateWorld) : Prop where
  state : w.state = .zeroed
  changes : w.changes = 0
  calls : w.calls = []

def resetting (w : RateWorld) : Nat :=
  w.calls.countP fun running => running.call = .storeCount

/-- No call wins an exchange with a reading from before the window, none adds to a count
below the burst while a reset of its window may be due, and none makes the count wrap. -/
def Orderly (w : RateWorld) (running : RateCall) : Prop :=
  match running.call with
  | .exchange now window => w.state.windowStart = window → window ≤ now
  | .fetchAdd => w.state.count ≠ Int32.maxValue ∧
      (running.started = w.changes → w.state.count < cdmaLogRateBurst → w.resetting = 0)
  | _ => True

instance (w : RateWorld) : ∀ running, Decidable (w.Orderly running)
  | ⟨_, .exchange _ _, _, _, _⟩ => inferInstanceAs (Decidable (_ → _))
  | ⟨_, .fetchAdd, _, _, _⟩ => inferInstanceAs (Decidable (_ ∧ (_ → _ → _)))
  | ⟨_, .loadWindow _, _, _, _⟩ | ⟨_, .storeCount, _, _, _⟩ | ⟨_, .returned _, _, _, _⟩ =>
      instDecidableTrue

def StepsOrderly (w : RateWorld) : RateAction → Prop
  | .turn caller => ∀ running ∈ w.calls[caller]?, w.Orderly running
  | _ => True

instance (w : RateWorld) : ∀ action, Decidable (w.StepsOrderly action)
  | .turn caller => Option.decidableForallMem w.calls[caller]?
  | .tick _ | .enter _ => instDecidableTrue

end RateWorld

/-- The call read the clock, was let through and belongs to this value of the window
start: it set it, or it started and finished under it. -/
def RateCall.allowedIn (change : Nat) (running : RateCall) : Bool :=
  running.clock.isSome ∧ running.call = .returned true ∧
    (running.set = some change ∨ running.started = change ∧ running.finished = change)

def RateWorld.allowedIn (w : RateWorld) (change : Nat) : Nat :=
  w.calls.countP (RateCall.allowedIn change)

def RateCall.chargedTo (change : Nat) (running : RateCall) : Bool :=
  running.set = some change ∨ running.clock.isSome ∧
    running.call = .returned true ∧ running.started = change ∧ running.finished = change

def RateWorld.charged (w : RateWorld) (change : Nat) : Nat :=
  w.calls.countP (RateCall.chargedTo change)

theorem RateWorld.allowedIn_le_charged (w : RateWorld) (change : Nat) :
    w.allowedIn change ≤ w.charged change := by
  refine List.countP_mono_left fun running _ allowed => ?_
  simp only [RateCall.allowedIn, RateCall.chargedTo, decide_eq_true_eq] at allowed ⊢
  obtain ⟨read, returned, set | within⟩ := allowed
  · exact .inl set
  · exact .inr ⟨read, returned, within⟩

def LogRlCall.searching : LogRlCall → Bool
  | .loadWindow _ | .exchange _ _ | .fetchAdd => true
  | .storeCount | .returned _ => false

def LogRlCall.hasReturned : LogRlCall → Bool
  | .returned _ => true
  | .loadWindow _ | .exchange _ _ | .storeCount | .fetchAdd => false

theorem LogRlCall.not_returned {call : LogRlCall} (searches : call.searching = true) :
    call.hasReturned = false := by
  cases call with
  | returned value => cases searches
  | _ => rfl

theorem LogRlCall.not_storing {call : LogRlCall} (searches : call.searching = true) :
    call ≠ .storeCount := by
  rintro rfl
  cases searches

/-- What a call has seen, where it stands. -/
structure RateCall.Kept (changes : Nat) (running : RateCall) : Prop where
  started_le : running.started ≤ running.finished
  finished_le : running.finished ≤ changes
  set_within : ∀ change ∈ running.set, running.started < change ∧ change ≤ running.finished
  outside : ∀ now window, running.call = .exchange now window → outsideWindow now window
  storing : running.call = .storeCount → running.set ≠ none
  searching : running.call.searching = true → running.set = none
  read : running.call.hasReturned = false → running.clock.isSome = true

/-- Nothing is charged to a value that the window start has yet to take.  What is
charged to its current value has been counted, unless it is to be counted anew. -/
structure RateWorld.Inv (w : RateWorld) : Prop where
  kept : ∀ running ∈ w.calls, running.Kept w.changes
  burst : ∀ change, (w.charged change : Int) ≤ cdmaLogRateBurst.toInt
  counted : w.resetting = 0 → (w.charged w.changes : Int) ≤ w.state.count.toInt
  uncounted : 0 < w.resetting → w.charged w.changes ≤ 1

theorem countP_set_add {α : Type} {holds : α → Bool} {items : List α} {index : Nat}
    {old new : α} (there : items[index]? = some old) :
    (items.set index new).countP holds + (holds old).toNat =
      items.countP holds + (holds new).toNat := by
  obtain ⟨inside, rfl⟩ := List.getElem?_eq_some_iff.mp there
  have single (value : Bool) : (if value = true then 1 else 0) = value.toNat := by
    cases value <;> rfl
  have present : (holds items[index]).toNat ≤ items.countP holds := by
    cases held : holds items[index] with
    | false => exact Nat.zero_le _
    | true => exact List.countP_pos_iff.mpr ⟨items[index], List.getElem_mem inside, held⟩
  rw [List.countP_set inside, single, single]
  omega

theorem toInt_add_one {count : Int32} (unwrapped : count ≠ Int32.maxValue) :
    (count + 1).toInt = count.toInt + 1 := by
  have above := count.toInt_lt
  have below := count.le_toInt
  have different : count.toInt ≠ 2 ^ 31 - 1 := fun same => unwrapped (Int32.toInt_inj.mp same)
  have one : (1 : Int32).toInt = 1 := rfl
  rw [Int32.toInt_add, one]
  exact Int.bmod_eq_of_le (by omega) (by omega)

namespace RateCall

variable {changes change : Nat} {running : RateCall}

theorem Kept.mono {later : Nat} (kept : running.Kept changes) (grown : changes ≤ later) :
    running.Kept later :=
  { kept with finished_le := Nat.le_trans kept.finished_le grown }

theorem Kept.not_chargedTo_next (kept : running.Kept changes) :
    running.chargedTo (changes + 1) = false := by
  have seen := kept.finished_le
  refine decide_eq_false ?_
  rintro (set | ⟨_, _, _, finished⟩)
  · have within := (kept.set_within _ set).2
    omega
  · omega

theorem not_chargedTo (unset : running.set = none) (searches : running.call.searching = true) :
    running.chargedTo change = false := by
  refine decide_eq_false ?_
  rintro (set | ⟨_, returned, _⟩)
  · rw [unset] at set
    cases set
  · rw [returned] at searches
    cases searches

section Passed

variable {call : LogRlCall}

theorem Kept.look (kept : running.Kept changes) (searched : running.call.searching = true)
    (searches : call.searching = true)
    (outside : ∀ now window, call = .exchange now window → outsideWindow now window) :
    (running.passed call changes running.set).Kept changes :=
  { started_le := Nat.le_trans kept.started_le kept.finished_le
    finished_le := Nat.le_refl _
    set_within := fun change set => by
      change running.set = some change at set
      rw [kept.searching searched] at set
      cases set
    outside := outside
    storing := fun stored => absurd stored (LogRlCall.not_storing searches)
    searching := fun _ => kept.searching searched
    read := fun _ => kept.read (LogRlCall.not_returned searched) }

theorem Kept.win (kept : running.Kept changes) (searched : running.call.searching = true) :
    (running.passed .storeCount (changes + 1) (some (changes + 1))).Kept (changes + 1) := by
  have seen := Nat.le_trans kept.started_le kept.finished_le
  exact
    { started_le := Nat.le_succ_of_le seen
      finished_le := Nat.le_refl _
      set_within := fun change set => by
        cases set
        exact ⟨Nat.lt_succ_of_le seen, Nat.le_refl _⟩
      outside := fun _ _ stands => by cases stands
      storing := fun _ => Option.some_ne_none _
      searching := fun searches => by cases searches
      read := fun _ => kept.read (LogRlCall.not_returned searched) }

theorem Kept.answer {value : Bool} (kept : running.Kept changes) :
    (running.passed (.returned value) changes running.set).Kept changes :=
  { started_le := Nat.le_trans kept.started_le kept.finished_le
    finished_le := Nat.le_refl _
    set_within := fun change set => by
      obtain ⟨above, below⟩ := kept.set_within change set
      exact ⟨above, Nat.le_trans below kept.finished_le⟩
    outside := fun _ _ stands => by cases stands
    storing := fun stored => by cases stored
    searching := fun searches => by cases searches
    read := fun pending => by cases pending }

theorem Kept.chargedTo_store (kept : running.Kept changes) (stands : running.call = .storeCount) :
    (running.passed (.returned true) changes running.set).chargedTo change =
      running.chargedTo change := by
  obtain ⟨own, set⟩ := Option.ne_none_iff_exists'.mp (kept.storing stands)
  have within := kept.set_within own set
  have apart : ¬(running.started = change ∧ changes = change) := by
    have seen := kept.finished_le
    omega
  simp [chargedTo, passed, stands, apart]

theorem chargedTo_add {value : Bool} (unset : running.set = none)
    (read : running.clock.isSome = true) :
    (running.passed (.returned value) changes running.set).chargedTo change =
      decide (value = true ∧ running.started = change ∧ changes = change) := by
  simp [chargedTo, passed, unset, read]

theorem chargedTo_win :
    (running.passed .storeCount changes (some changes)).chargedTo change =
      decide (changes = change) := by
  simp [chargedTo, passed]

end Passed

end RateCall

namespace RateWorld

variable {w : RateWorld} {caller : Nat} {running : RateCall} {state : CdmaLogRlState}
  {call : LogRlCall}

section Passed

variable (there : w.calls[caller]? = some running) (state : CdmaLogRlState) (changes : Nat)
  (call : LogRlCall) (set : Option Nat)

include there

theorem charged_passed (change : Nat) :
    (w.put caller state changes (running.passed call changes set)).charged change +
        (running.chargedTo change).toNat =
      w.charged change + ((running.passed call changes set).chargedTo change).toNat :=
  countP_set_add there

theorem resetting_passed :
    (w.put caller state changes (running.passed call changes set)).resetting +
        (decide (running.call = .storeCount)).toNat =
      w.resetting + (decide (call = .storeCount)).toNat :=
  countP_set_add there

end Passed

theorem entered_kept (w : RateWorld) (clock : Option Int) : (w.entered clock).Kept w.changes := by
  have unset : (w.entered clock).set = none := rfl
  refine ⟨Nat.le_refl _, Nat.le_refl _, ?_, ?_, ?_, fun _ => unset, ?_⟩
  · rintro _ ⟨⟩
  · intro now window stands
    cases clock <;> cases stands
  · intro stored
    cases clock <;> cases stored
  · intro pending
    cases clock with
    | none => cases pending
    | some now => rfl

namespace Inv

/-- Nothing was charged and no reset begun or done. -/
theorem undisturbed {next : RateWorld} (inv : w.Inv)
    (kept : ∀ running ∈ next.calls, running.Kept next.changes)
    (changes : next.changes = w.changes)
    (charged : ∀ change, next.charged change = w.charged change)
    (resetting : next.resetting = w.resetting)
    (count : w.state.count.toInt ≤ next.state.count.toInt) : next.Inv := by
  refine ⟨kept, fun change => ?_, fun none => ?_, fun some => ?_⟩
  · rw [charged]
    exact inv.burst change
  · rw [resetting] at none
    rw [charged, changes]
    exact Int.le_trans (inv.counted none) count
  · rw [resetting] at some
    rw [charged, changes]
    exact inv.uncounted some

section Step

variable (inv : w.Inv) (there : w.calls[caller]? = some running)

include inv in
theorem kept_put {after : RateCall} {changes : Nat} (grown : w.changes ≤ changes)
    (afterKept : after.Kept changes) :
    ∀ other ∈ (w.put caller state changes after).calls, other.Kept changes := by
  intro other member
  rcases List.mem_or_eq_of_mem_set member with old | rfl
  · exact (inv.kept other old).mono grown
  · exact afterKept

include inv in
theorem charged_next : w.charged (w.changes + 1) = 0 := by
  refine List.countP_eq_zero.mpr fun running member => ?_
  rw [(inv.kept running member).not_chargedTo_next]
  exact Bool.false_ne_true

include inv there

theorem look (searched : running.call.searching = true) (searches : call.searching = true)
    (outside : ∀ now window, call = .exchange now window → outsideWindow now window) :
    (w.moved caller running w.state call).Inv := by
  have kept := inv.kept running (List.mem_of_getElem? there)
  have unset := kept.searching searched
  unfold moved
  rw [if_neg (not_not.mpr rfl)]
  refine inv.undisturbed
    (inv.kept_put (Nat.le_refl _) (kept.look searched searches outside)) rfl
    (fun change => ?_) ?_ (Int.le_refl _)
  · have books := charged_passed there w.state w.changes call running.set change
    have uncharged : (running.passed call w.changes running.set).chargedTo change = false :=
      RateCall.not_chargedTo unset searches
    rw [RateCall.not_chargedTo unset searched, uncharged] at books
    exact books
  · have resets := resetting_passed there w.state w.changes call running.set
    rw [decide_eq_false (LogRlCall.not_storing searched),
      decide_eq_false (LogRlCall.not_storing searches)] at resets
    exact resets

/-- A call that wins the exchange is the first to be charged to the new value. -/
theorem exchange {now window : Int} (stands : running.call = .exchange now window)
    (won : w.state.windowStart = window) :
    (w.moved caller running { w.state with windowStart := now } .storeCount).Inv := by
  have kept := inv.kept running (List.mem_of_getElem? there)
  have outside := kept.outside now window stands
  have different : now ≠ w.state.windowStart := by
    rintro rfl
    unfold outsideWindow cdmaLogRateIntervalSec at outside
    omega
  have searched : running.call.searching = true := by rw [stands]; rfl
  have uncharged (change : Nat) : running.chargedTo change = false :=
    RateCall.not_chargedTo (kept.searching searched) searched
  unfold moved
  rw [if_pos different]
  generalize CdmaLogRlState.mk now w.state.count = state
  have books (change : Nat) :=
    charged_passed there state (w.changes + 1) .storeCount (some (w.changes + 1)) change
  have resets :=
    resetting_passed there state (w.changes + 1) .storeCount (some (w.changes + 1))
  simp only [uncharged, RateCall.chargedTo_win, Bool.toNat_false, Nat.add_zero] at books
  rw [decide_eq_false (LogRlCall.not_storing searched), decide_eq_true rfl] at resets
  refine ⟨inv.kept_put (Nat.le_succ _) (kept.win searched), fun change => ?_, fun none => ?_,
    fun _ => ?_⟩
  · rw [books]
    by_cases same : w.changes + 1 = change
    · rw [← same, inv.charged_next, decide_eq_true rfl]
      decide
    · rw [decide_eq_false same]
      exact inv.burst change
  · rw [none] at resets
    exact absurd resets (Nat.ne_of_lt (Nat.succ_pos _))
  · have first := books (w.changes + 1)
    rw [inv.charged_next, decide_eq_true rfl] at first
    exact Nat.le_of_eq first

/-- The call that won the exchange counts itself, and whatever was counted before is
forgotten. -/
theorem store (stands : running.call = .storeCount) :
    (w.moved caller running { w.state with count := 1 } (.returned true)).Inv := by
  have kept := inv.kept running (List.mem_of_getElem? there)
  unfold moved
  rw [if_neg (not_not.mpr rfl)]
  generalize state_eq : CdmaLogRlState.mk w.state.windowStart 1 = state
  have one : state.count.toInt = 1 := by rw [← state_eq]; rfl
  have books (change : Nat) :=
    charged_passed there state w.changes (.returned true) running.set change
  have resets := resetting_passed there state w.changes (.returned true) running.set
  simp only [kept.chargedTo_store stands, Nat.add_right_cancel_iff] at books
  rw [decide_eq_true stands, decide_eq_false LogRlCall.noConfusion] at resets
  simp only [Bool.toNat_true, Bool.toNat_false, Nat.add_zero] at resets
  have once := inv.uncounted (by omega)
  refine ⟨inv.kept_put (Nat.le_refl _) kept.answer, fun change => ?_, fun _ => ?_, fun _ => ?_⟩
  · rw [books]
    exact inv.burst change
  · change ((w.put caller state w.changes _).charged w.changes : Int) ≤ state.count.toInt
    rw [books, one]
    omega
  · exact Nat.le_trans (Nat.le_of_eq (books w.changes)) once

theorem add (orderly : w.Orderly running) (stands : running.call = .fetchAdd) :
    (w.moved caller running { w.state with count := w.state.count + 1 }
      (.returned (w.state.count < cdmaLogRateBurst))).Inv := by
  have kept := inv.kept running (List.mem_of_getElem? there)
  have searched : running.call.searching = true := by rw [stands]; rfl
  have unset := kept.searching searched
  have read := kept.read (LogRlCall.not_returned searched)
  have uncharged (change : Nat) : running.chargedTo change = false :=
    RateCall.not_chargedTo unset searched
  rw [Orderly, stands] at orderly
  obtain ⟨unwrapped, ordered⟩ := orderly
  unfold moved
  rw [if_neg (not_not.mpr rfl)]
  generalize value_eq : decide (w.state.count < cdmaLogRateBurst) = value
  generalize state_eq : CdmaLogRlState.mk w.state.windowStart (w.state.count + 1) = state
  have counts : state.count.toInt = w.state.count.toInt + 1 := by
    rw [← state_eq]
    exact toInt_add_one unwrapped
  have books (change : Nat) :=
    charged_passed there state w.changes (.returned value) running.set change
  have resets := resetting_passed there state w.changes (.returned value) running.set
  simp only [uncharged, RateCall.chargedTo_add unset read, Bool.toNat_false, Nat.add_zero] at books
  rw [decide_eq_false (LogRlCall.not_storing searched), decide_eq_false LogRlCall.noConfusion]
    at resets
  have putKept : ∀ other ∈
      (w.put caller state w.changes (running.passed (.returned value) w.changes running.set)).calls,
      other.Kept w.changes := inv.kept_put (Nat.le_refl _) kept.answer
  by_cases through : value = true ∧ running.started = w.changes
  · obtain ⟨rfl, current⟩ := through
    have below := of_decide_eq_true value_eq
    have settled := ordered current below
    have counted := inv.counted settled
    rw [Int32.lt_iff_toInt_lt] at below
    have first := books w.changes
    rw [decide_eq_true ⟨rfl, current, rfl⟩, Bool.toNat_true] at first
    refine ⟨putKept, fun change => ?_, fun _ => ?_, fun some => ?_⟩
    · by_cases same : w.changes = change
      · rw [← same, first]
        omega
      · rw [books, decide_eq_false fun charged => same charged.2.2]
        exact inv.burst change
    · change ((w.put caller state w.changes _).charged w.changes : Int) ≤ state.count.toInt
      rw [first, counts]
      omega
    · rw [settled] at resets
      exact absurd some (Nat.not_lt.mpr (Nat.le_of_eq resets))
  · have free (change : Nat) :
        decide (value = true ∧ running.started = change ∧ w.changes = change) = false := by
      refine decide_eq_false ?_
      rintro ⟨allowed, started, rfl⟩
      exact through ⟨allowed, started⟩
    simp only [free, Bool.toNat_false, Nat.add_zero] at books
    refine inv.undisturbed putKept rfl books resets ?_
    change w.state.count.toInt ≤ state.count.toInt
    omega

omit there in
theorem enter (clock : Option Int) :
    RateWorld.Inv { w with calls := w.calls ++ [w.entered clock] } := by
  have absent (holds : RateCall → Bool) (not : holds (w.entered clock) = false) :
      (w.calls ++ [w.entered clock]).countP holds = w.calls.countP holds := by
    rw [List.countP_append, List.countP_singleton, not]
    rfl
  have uncharged (change : Nat) : (w.entered clock).chargedTo change = false := by
    cases clock <;> exact decide_eq_false (by simp [entered, cdmaLogRatelimit])
  have waiting : decide ((w.entered clock).call = .storeCount) = false := by
    cases clock <;> rfl
  refine inv.undisturbed (fun running member => ?_) rfl (fun change => absent _ (uncharged change))
    (absent (fun running => running.call = .storeCount) waiting) (Int.le_refl _)
  rcases List.mem_append.mp member with old | new
  · exact inv.kept running old
  · rw [List.mem_singleton.mp new]
    exact w.entered_kept clock

end Step

theorem turn (inv : w.Inv) (there : w.calls[caller]? = some running)
    (orderly : w.Orderly running)
    (stepped : cdmaLogRatelimitStep w.state running.call = some (state, call)) :
    (w.moved caller running state call).Inv := by
  cases stands : running.call with
  | loadWindow now =>
      have searched : running.call.searching = true := by rw [stands]; rfl
      rw [stands, cdmaLogRatelimitStep] at stepped
      split at stepped
      · rename_i outside
        cases stepped
        refine inv.look there searched rfl ?_
        rintro _ _ ⟨⟩
        exact outside
      · cases stepped
        exact inv.look there searched rfl fun _ _ stays => by cases stays
  | exchange now window =>
      have searched : running.call.searching = true := by rw [stands]; rfl
      rw [stands, cdmaLogRatelimitStep] at stepped
      split at stepped
      · rename_i won
        cases stepped
        exact inv.exchange there stands won
      · cases stepped
        exact inv.look there searched rfl fun _ _ stays => by cases stays
  | storeCount =>
      rw [stands] at stepped
      cases stepped
      exact inv.store there stands
  | fetchAdd =>
      rw [stands] at stepped
      cases stepped
      exact inv.add there orderly stands
  | returned value =>
      rw [stands] at stepped
      cases stepped

end Inv

theorem windowStart_cases {before after : CdmaLogRlState} {next : LogRlCall}
    (taken : cdmaLogRatelimitStep before call = some (after, next)) :
    after.windowStart = before.windowStart ∨
      ∃ now, call = .exchange now before.windowStart ∧ after.windowStart = now := by
  cases call with
  | loadWindow now =>
      rw [cdmaLogRatelimitStep] at taken
      split at taken <;> cases taken <;> exact .inl rfl
  | exchange now window =>
      rw [cdmaLogRatelimitStep] at taken
      split at taken
      · rename_i won
        cases taken
        exact .inr ⟨now, by rw [won], rfl⟩
      · cases taken
        exact .inl rfl
  | storeCount =>
      cases taken
      exact .inl rfl
  | fetchAdd =>
      cases taken
      exact .inl rfl
  | returned value => cases taken

theorem turn_eq_some {next : RateWorld} (stepped : w.step (.turn caller) = some next) :
    ∃ running state call, w.calls[caller]? = some running ∧
      cdmaLogRatelimitStep w.state running.call = some (state, call) ∧
      next = w.moved caller running state call := by
  obtain ⟨running, there, rest⟩ := Option.bind_eq_some_iff.mp stepped
  obtain ⟨⟨state, call⟩, taken, ended⟩ := Option.bind_eq_some_iff.mp rest
  cases ended
  exact ⟨running, state, call, there, taken, rfl⟩

theorem Inv.step {next : RateWorld} {action : RateAction} (inv : w.Inv)
    (orderly : w.StepsOrderly action) (stepped : w.step action = some next) : next.Inv := by
  cases action with
  | tick time =>
      obtain ⟨_, ⟨⟩⟩ := Option.ite_none_right_eq_some.mp stepped
      exact inv.undisturbed inv.kept rfl (fun _ => rfl) rfl (Int.le_refl _)
  | enter clock =>
      obtain ⟨_, ⟨⟩⟩ := Option.ite_none_right_eq_some.mp stepped
      exact inv.enter clock
  | turn caller =>
      obtain ⟨running, state, call, there, taken, rfl⟩ := turn_eq_some stepped
      exact inv.turn there (orderly running there) taken

theorem Initial.inv (initial : w.Initial) : w.Inv := by
  have charged (change : Nat) : w.charged change = 0 := by
    rw [charged, initial.calls]
    rfl
  have resetting : w.resetting = 0 := by
    rw [resetting, initial.calls]
    rfl
  refine ⟨fun running member => ?_, fun change => ?_, fun _ => ?_, fun some => ?_⟩
  · rw [initial.calls] at member
    cases member
  · rw [charged]
    decide
  · rw [charged, initial.state]
    decide
  · omega

theorem windowStart_le {next : RateWorld} {action : RateAction}
    (orderly : w.StepsOrderly action) (stepped : w.step action = some next) :
    w.state.windowStart ≤ next.state.windowStart := by
  cases action with
  | tick time =>
      obtain ⟨_, ⟨⟩⟩ := Option.ite_none_right_eq_some.mp stepped
      exact Int.le_refl _
  | enter clock =>
      obtain ⟨_, ⟨⟩⟩ := Option.ite_none_right_eq_some.mp stepped
      exact Int.le_refl _
  | turn caller =>
      obtain ⟨running, state, call, there, taken, rfl⟩ := turn_eq_some stepped
      have forwards := orderly running there
      have reached : (w.moved caller running state call).state = state := by
        unfold moved
        split <;> rfl
      rw [reached]
      rcases windowStart_cases taken with same | ⟨now, stands, moved⟩
      · exact Int.le_of_eq same.symm
      · rw [moved]
        rw [Orderly, stands] at forwards
        exact forwards rfl

end RateWorld

/-! ### Whole runs -/

/-- However many callers there are and however their operations interleave: while every
step is orderly, each value of the window start lets through no more than the burst,
and it never goes back. -/
theorem cdmaLogRatelimit_keeps_burst {w middle final : RateWorld}
    {before after : List RateAction} (initial : w.Initial)
    (orderlyBefore : Conforms RateWorld.step RateWorld.StepsOrderly w before)
    (reached : run RateWorld.step w before = some middle)
    (orderlyAfter : Conforms RateWorld.step RateWorld.StepsOrderly middle after)
    (ran : run RateWorld.step middle after = some final) :
    (∀ change, (final.allowedIn change : Int) ≤ cdmaLogRateBurst.toInt) ∧
      middle.state.windowStart ≤ final.state.windowStart := by
  have keeps (state : RateWorld) (action : RateAction) (next : RateWorld)
      (orderly : state.StepsOrderly action) (inv : state.Inv)
      (stepped : state.step action = some next) : next.Inv :=
    inv.step orderly stepped
  have middleInv := run_invariant_of_conforms RateWorld.step keeps orderlyBefore initial.inv reached
  have finalInv := run_invariant_of_conforms RateWorld.step keeps orderlyAfter middleInv ran
  have later : middle.state.windowStart ≤ final.state.windowStart :=
    run_invariant_of_conforms RateWorld.step
      (fun state action next orderly grown stepped =>
        Int.le_trans grown (RateWorld.windowStart_le orderly stepped))
      orderlyAfter (Int.le_refl _) ran
  refine ⟨fun change => ?_, later⟩
  have most := final.allowedIn_le_charged change
  have burst := finalInv.burst change
  omega

def RateWorld.fresh (time : Int) : RateWorld :=
  { time := time, state := .zeroed, changes := 0, calls := [] }

def RateWorld.logged : RateWorld :=
  { time := 10, state := ⟨10, 1⟩, changes := 1, calls := [⟨some 10, .returned true, 0, 1, some 1⟩] }

def RateWorld.loggedTwice : RateWorld :=
  { time := 11, state := ⟨10, 2⟩, changes := 1
    calls := [⟨some 10, .returned true, 0, 1, some 1⟩, ⟨some 11, .returned true, 1, 1, none⟩] }

theorem cdmaLogRatelimit_keeps_burst_twice :
    (∀ change, (RateWorld.loggedTwice.allowedIn change : Int) ≤ cdmaLogRateBurst.toInt) ∧
      RateWorld.logged.state.windowStart ≤ RateWorld.loggedTwice.state.windowStart := by
  have initial : (RateWorld.fresh 10).Initial := ⟨rfl, rfl, rfl⟩
  have orderlyFirst : Conforms RateWorld.step RateWorld.StepsOrderly (.fresh 10)
      [.enter (some 10), .turn 0, .turn 0, .turn 0] := by decide
  have orderlySecond : Conforms RateWorld.step RateWorld.StepsOrderly .logged
      [.tick 11, .enter (some 11), .turn 1, .turn 1] := by decide
  exact cdmaLogRatelimit_keeps_burst initial orderlyFirst rfl orderlySecond rfl

/-- Five calls are judged by the count of the window before theirs; and a call that
read the clock before another one moves the window back from 20 to 10. -/
theorem cdmaLogRatelimit_exceeds_burst :
    (run RateWorld.step (.fresh 10)
      ([.enter (some 10), .turn 0, .turn 0, .enter (some 10), .turn 1, .turn 1] ++
        [.enter (some 10), .turn 2, .turn 2, .enter (some 10), .turn 3, .turn 3] ++
        [.enter (some 10), .turn 4, .turn 4, .enter (some 10), .turn 5, .turn 5] ++
        [.turn 0])).map (fun final => final.allowedIn 1) = some 6 ∧
    (run RateWorld.step (.fresh 10)
      [.enter (some 10), .tick 20, .enter (some 20), .turn 1, .turn 1, .turn 1]).map
        (fun middle => middle.state.windowStart) = some 20 ∧
    (run RateWorld.step (.fresh 10)
      [.enter (some 10), .tick 20, .enter (some 20), .turn 1, .turn 1, .turn 1, .turn 0,
        .turn 0]).map (fun final => final.state.windowStart) = some 10 := by
  decide

end Libcdma
