/-
Asynchronous events, and who gets them.

The kernel keeps the events of a context in order; any number of threads wait for them,
each polling first and fetching afterwards.  However their calls interleave, an event is
fetched once, the events are fetched in the order in which they were raised, and a caller
learns of exactly the event that it fetched.
-/

import Libcdma.Foundation.Progress
import Libcdma.Model.Event

namespace Libcdma

open Transition

/-- A call with what it was given, what `poll` answered it and what it fetched. -/
structure AeCaller where
  given : Option DmaAeqe
  call : AeCall
  polled : Option PollAnswer
  took : Option CdmaCmdAsyncEvent
  deriving DecidableEq

structure AeWorld where
  ctx : Nat
  raised : List CdmaCmdAsyncEvent
  pending : List CdmaCmdAsyncEvent
  callers : List AeCaller
  /-- every event fetched, with its caller, in order -/
  fetched : List (Nat × CdmaCmdAsyncEvent)

inductive AeAction where
  | raise (event : CdmaCmdAsyncEvent)
  | enter (ctx : Option Nat) (aeqe : Option DmaAeqe)
  | poll (caller : Nat) (answer : PollAnswer)
  | fetch (caller : Nat)
  | fail (caller : Nat) (ret : Int)

namespace AeWorld

def put (w : AeWorld) (caller : Nat) (later : AeCaller) : AeWorld :=
  { w with callers := w.callers.set caller later }

def enter (w : AeWorld) (ctx : Option Nat) (aeqe : Option DmaAeqe) : AeWorld :=
  { w with callers := w.callers ++ [⟨aeqe, dmaWaitAe ctx aeqe, none, none⟩] }

def take (w : AeWorld) (caller : Nat) (later : AeCaller) (event : CdmaCmdAsyncEvent)
    (rest : List CdmaCmdAsyncEvent) : AeWorld :=
  { w with
    pending := rest
    callers := w.callers.set caller later
    fetched := w.fetched ++ [(caller, event)] }

/-- The kernel says that the descriptor can be read only while an event is pending; what
it fails with is negative. -/
def step (w : AeWorld) : AeAction → Option AeWorld
  | .raise event => some { w with raised := w.raised ++ [event], pending := w.pending ++ [event] }
  | .enter ctx aeqe => if ∀ address ∈ ctx, address = w.ctx then some (w.enter ctx aeqe) else none
  | .poll caller answer => do
      let waiting ← w.callers[caller]?
      match waiting.call with
      | .polling ctx arg =>
          if 0 < answer.ret ∧ answer.pollin ∧ w.pending = [] then none
          else
            pure (w.put caller
              { waiting with call := .afterPoll ctx arg answer, polled := some answer })
      | _ => none
  | .fetch caller => do
      let waiting ← w.callers[caller]?
      match waiting.call, w.pending with
      | .fetching ctx arg, event :: rest =>
          pure (w.take caller
            { waiting with call := .afterFetch ctx arg (.ok event), took := some event } event rest)
      | _, _ => none
  | .fail caller ret => do
      let waiting ← w.callers[caller]?
      match waiting.call with
      | .fetching ctx arg =>
          if ret < 0 then
            pure (w.put caller { waiting with call := .afterFetch ctx arg (.error ret) })
          else none
      | _ => none

structure Initial (w : AeWorld) : Prop where
  raised : w.raised = []
  pending : w.pending = []
  callers : w.callers = []
  fetched : w.fetched = []

end AeWorld

def DmaAeqe.filled (given : DmaAeqe) (ctx : Nat) (queueId eventType : UInt32) : DmaAeqe :=
  { given with queueId := queueId, ctx := some ctx, eventType := eventType }

/-- What a caller learns of an event: its queue, when the event is about a completion
queue (type 0) or a send queue (type 1), which the low half of its data names; no queue,
when it is about none (type 2); nothing, when it is of any other type. -/
structure Reports (ctx : Nat) (given : DmaAeqe) (event : CdmaCmdAsyncEvent) (value : Int)
    (arg : Option DmaAeqe) : Prop where
  queue : event.eventType.toNat < 2 → value = 1 ∧
    arg = some (given.filled ctx (UInt32.ofNat (event.eventData.toNat % 2 ^ 32)) event.eventType)
  noQueue : event.eventType.toNat = 2 → value = 1 ∧
    arg = some (given.filled ctx 0 event.eventType)
  lost : 2 < event.eventType.toNat → value = Errno.efault.value ∧ arg = some given

/-- `poll` said that there was something, but neither an event nor an error. -/
def PollAnswer.Neither (answer : PollAnswer) : Prop :=
  0 < answer.ret ∧ answer.pollin = false ∧ answer.pollerr = false

/-- Without an event, what was passed stays as it is, and a positive value comes from
`poll` alone. -/
def AeCaller.Unserved (caller : AeCaller) (value : Int) (arg : Option DmaAeqe) : Prop :=
  arg = caller.given ∧ (0 < value → value = eventEventNum ∧ ∃ answer ∈ caller.polled, answer.Neither)

def AeCaller.Fits (ctx : Nat) (caller : AeCaller) : Prop :=
  match caller.call with
  | .polling own arg | .fetching own arg => own = ctx ∧ caller.given = some arg ∧ caller.took = none
  | .returned value arg =>
      match caller.took with
      | some event => ∃ given, caller.given = some given ∧ Reports ctx given event value arg
      | none => caller.Unserved value arg

/-- The switch on the type of an event, case by case. -/
theorem CdmaCmdAsyncEvent.queueId_cases (event : CdmaCmdAsyncEvent) :
    event.eventType.toNat < 2 ∧
        event.queueId = some (UInt32.ofNat (event.eventData.toNat % 2 ^ 32)) ∨
      event.eventType.toNat = 2 ∧ event.queueId = some 0 ∨
      2 < event.eventType.toNat ∧ event.queueId = none := by
  have low : event.eventData.toUInt32 = UInt32.ofNat (event.eventData.toNat % 2 ^ 32) := by
    rw [← UInt32.toNat_inj, UInt64.toNat_toUInt32, UInt32.toNat_ofNat']
    exact (Nat.mod_mod _ _).symm
  unfold CdmaCmdAsyncEvent.queueId
  rw [low]
  by_cases jfs : event.eventType = dmaAeqeTypeJfs
  · rw [if_pos jfs, jfs]
    exact .inl ⟨by decide, rfl⟩
  rw [if_neg jfs]
  by_cases jfc : event.eventType = dmaAeqeTypeJfc
  · rw [if_pos jfc, jfc]
    exact .inl ⟨by decide, rfl⟩
  rw [if_neg jfc]
  by_cases invalid : event.eventType = dmaAeqeTypeInvalid
  · rw [if_pos invalid, invalid]
    exact .inr (.inl ⟨rfl, rfl⟩)
  rw [if_neg invalid]
  rw [← UInt32.toNat_inj] at jfs jfc invalid
  have notJfs : event.eventType.toNat ≠ 1 := jfs
  have notJfc : event.eventType.toNat ≠ 0 := jfc
  have notInvalid : event.eventType.toNat ≠ 2 := invalid
  exact .inr (.inr ⟨by omega, rfl⟩)

theorem reports_afterFetch (ctx : Nat) (arg : DmaAeqe) (event : CdmaCmdAsyncEvent) :
    ∃ value later, AeCall.afterFetch ctx arg (.ok event) = .returned value later ∧
      Reports ctx arg event value later := by
  rcases event.queueId_cases with ⟨type, queueId⟩ | ⟨type, queueId⟩ | ⟨type, queueId⟩
  · refine ⟨1, some (arg.filled ctx (UInt32.ofNat (event.eventData.toNat % 2 ^ 32))
      event.eventType), ?_, fun _ => ⟨rfl, rfl⟩, fun none => ?_, fun other => ?_⟩
    · simp only [AeCall.afterFetch, queueId]
      rfl
    · omega
    · omega
  · refine ⟨1, some (arg.filled ctx 0 event.eventType), ?_, fun queue => ?_,
      fun _ => ⟨rfl, rfl⟩, fun other => ?_⟩
    · simp only [AeCall.afterFetch, queueId]
      rfl
    · omega
    · omega
  · refine ⟨_, some arg, ?_, fun queue => ?_, fun none => ?_, fun _ => ⟨rfl, rfl⟩⟩
    · simp only [AeCall.afterFetch, queueId]
    · omega
    · omega

theorem fits_enter {own : Option Nat} {ctx : Nat} (known : ∀ address ∈ own, address = ctx)
    (aeqe : Option DmaAeqe) : AeCaller.Fits ctx ⟨aeqe, dmaWaitAe own aeqe, none, none⟩ := by
  have refused : ∀ arg, arg = aeqe →
      AeCaller.Fits ctx ⟨aeqe, .returned Errno.einval.value arg, none, none⟩ := by
    intro arg same
    refine ⟨same, fun positive => ?_⟩
    cases positive
  cases own with
  | none => exact refused aeqe rfl
  | some address =>
      cases aeqe with
      | none => exact refused none rfl
      | some arg =>
          unfold dmaWaitAe cdmaCmdGetAsyncEvent
          dsimp only
          split
          · exact refused (some arg) rfl
          · exact ⟨known address rfl, rfl, rfl⟩

theorem AeCaller.Fits.poll {ctx own : Nat} {arg : DmaAeqe} {caller : AeCaller}
    (fits : caller.Fits ctx) (stands : caller.call = .polling own arg) (answer : PollAnswer) :
    AeCaller.Fits ctx
      { caller with call := .afterPoll own arg answer, polled := some answer } := by
  obtain ⟨given, call, polled, took⟩ := caller
  subst stands
  obtain ⟨rfl, rfl, rfl⟩ := fits
  unfold AeCall.afterPoll
  split
  · rename_i negative
    exact ⟨rfl, fun positive => absurd positive (Int.not_lt.mpr negative)⟩
  · rename_i positive
    split
    · exact ⟨rfl, rfl, rfl⟩
    · rename_i noInput
      split
      · refine ⟨rfl, fun impossible => ?_⟩
        cases impossible
      · rename_i noError
        exact ⟨rfl, fun _ => ⟨rfl, answer, rfl, Int.not_le.mp positive,
          Bool.eq_false_iff.mpr noInput, Bool.eq_false_iff.mpr noError⟩⟩

theorem AeCaller.Fits.fail {ctx own : Nat} {arg : DmaAeqe} {caller : AeCaller}
    (fits : caller.Fits ctx) (stands : caller.call = .fetching own arg) {ret : Int}
    (failed : ret < 0) :
    AeCaller.Fits ctx { caller with call := .afterFetch own arg (.error ret) } := by
  obtain ⟨given, call, polled, took⟩ := caller
  subst stands
  obtain ⟨rfl, rfl, rfl⟩ := fits
  exact ⟨rfl, fun positive => absurd positive (Int.not_lt.mpr (Int.le_of_lt failed))⟩

theorem AeCaller.Fits.fetch {ctx own : Nat} {arg : DmaAeqe} {caller : AeCaller}
    (fits : caller.Fits ctx) (stands : caller.call = .fetching own arg)
    (event : CdmaCmdAsyncEvent) :
    AeCaller.Fits ctx
      { caller with call := .afterFetch own arg (.ok event), took := some event } := by
  obtain ⟨given, call, polled, took⟩ := caller
  subst stands
  obtain ⟨rfl, rfl, rfl⟩ := fits
  obtain ⟨value, later, returns, reports⟩ := reports_afterFetch own arg event
  unfold Fits
  rw [returns]
  exact ⟨arg, rfl, reports⟩

namespace AeWorld

variable {w next : AeWorld}

/-! ### Steps -/

/-- Every step raises an event, begins a call, or is one stage of a call. -/
theorem step_cases {action : AeAction} (stepped : w.step action = some next) :
    (∃ event, next = { w with raised := w.raised ++ [event], pending := w.pending ++ [event] }) ∨
    (∃ ctx aeqe, (∀ address ∈ ctx, address = w.ctx) ∧ next = w.enter ctx aeqe) ∨
    (∃ caller waiting ctx arg answer, w.callers[caller]? = some waiting ∧
      waiting.call = .polling ctx arg ∧
      next = w.put caller
        { waiting with call := .afterPoll ctx arg answer, polled := some answer }) ∨
    (∃ caller waiting ctx arg event rest, w.callers[caller]? = some waiting ∧
      waiting.call = .fetching ctx arg ∧ w.pending = event :: rest ∧
      next = w.take caller
        { waiting with call := .afterFetch ctx arg (.ok event), took := some event } event rest) ∨
    ∃ caller waiting ctx arg ret, w.callers[caller]? = some waiting ∧
      waiting.call = .fetching ctx arg ∧ ret < 0 ∧
      next = w.put caller { waiting with call := .afterFetch ctx arg (.error ret) } := by
  cases action with
  | raise event =>
      cases stepped
      exact .inl ⟨event, rfl⟩
  | enter ctx aeqe =>
      obtain ⟨known, ⟨⟩⟩ := Option.ite_none_right_eq_some.mp stepped
      exact .inr (.inl ⟨ctx, aeqe, known, rfl⟩)
  | poll caller answer =>
      obtain ⟨waiting, there, rest⟩ := Option.bind_eq_some_iff.mp stepped
      split at rest
      · rename_i ctx arg stands
        split at rest
        · cases rest
        · cases rest
          exact .inr (.inr (.inl ⟨caller, waiting, ctx, arg, answer, there, stands, rfl⟩))
      · cases rest
  | fetch caller =>
      obtain ⟨waiting, there, rest⟩ := Option.bind_eq_some_iff.mp stepped
      split at rest
      · rename_i ctx arg event left stands pending
        cases rest
        exact .inr (.inr (.inr (.inl
          ⟨caller, waiting, ctx, arg, event, left, there, stands, pending, rfl⟩)))
      · cases rest
  | fail caller ret =>
      obtain ⟨waiting, there, rest⟩ := Option.bind_eq_some_iff.mp stepped
      split at rest
      · rename_i ctx arg stands
        obtain ⟨failed, ⟨⟩⟩ := Option.ite_none_right_eq_some.mp rest
        exact .inr (.inr (.inr (.inr ⟨caller, waiting, ctx, arg, ret, there, stands, failed, rfl⟩)))
      · cases rest

/-- The events fetched and those pending are the events raised, and each was fetched by
the one caller that has it. -/
structure Inv (w : AeWorld) : Prop where
  fits : ∀ caller ∈ w.callers, caller.Fits w.ctx
  ordered : w.fetched.map Prod.snd ++ w.pending = w.raised
  once : (w.fetched.map Prod.fst).Nodup
  took : ∀ index event, (index, event) ∈ w.fetched ↔
    ∃ caller, w.callers[index]? = some caller ∧ caller.took = some event

theorem getElem?_put {caller : Nat} {waiting : AeCaller} (there : w.callers[caller]? = some waiting)
    (later : AeCaller) (index : Nat) :
    (w.callers.set caller later)[index]? =
      if index = caller then some later else w.callers[index]? := by
  obtain ⟨inside, _⟩ := List.getElem?_eq_some_iff.mp there
  by_cases same : index = caller
  · subst same
    rw [if_pos rfl, List.getElem?_set_self inside]
  · rw [if_neg same, List.getElem?_set_ne (Ne.symm same)]

theorem Inv.put (inv : w.Inv) {caller : Nat} {waiting later : AeCaller}
    (there : w.callers[caller]? = some waiting) (fits : later.Fits w.ctx)
    (took : later.took = waiting.took) : (w.put caller later).Inv := by
  constructor
  · intro other member
    rcases List.mem_or_eq_of_mem_set member with old | rfl
    · exact inv.fits other old
    · exact fits
  · exact inv.ordered
  · exact inv.once
  · intro index event
    refine (inv.took index event).trans ?_
    change _ ↔ ∃ other, (w.callers.set caller later)[index]? = some other ∧ _
    rw [getElem?_put there]
    by_cases same : index = caller
    · subst same
      rw [if_pos rfl]
      constructor
      · rintro ⟨other, here, has⟩
        cases there.symm.trans here
        exact ⟨later, rfl, took.trans has⟩
      · rintro ⟨other, ⟨⟩, has⟩
        exact ⟨waiting, there, took.symm.trans has⟩
    · rw [if_neg same]

theorem Inv.take (inv : w.Inv) {caller : Nat} {waiting later : AeCaller}
    {event : CdmaCmdAsyncEvent} {rest : List CdmaCmdAsyncEvent}
    (there : w.callers[caller]? = some waiting) (pending : w.pending = event :: rest)
    (fits : later.Fits w.ctx) (none : waiting.took = none) (took : later.took = some event) :
    (w.take caller later event rest).Inv := by
  have absent : ∀ other, (caller, other) ∉ w.fetched := by
    intro other listed
    obtain ⟨holder, here, has⟩ := (inv.took caller other).mp listed
    cases there.symm.trans here
    rw [none] at has
    cases has
  constructor
  · intro other member
    rcases List.mem_or_eq_of_mem_set member with old | rfl
    · exact inv.fits other old
    · exact fits
  · change (w.fetched ++ [(caller, event)]).map Prod.snd ++ rest = w.raised
    rw [List.map_append, List.append_assoc, ← inv.ordered, pending]
    rfl
  · change ((w.fetched ++ [(caller, event)]).map Prod.fst).Nodup
    rw [List.map_append]
    refine List.Nodup.append inv.once (List.nodup_singleton caller) ?_
    intro index listed same
    obtain ⟨⟨_, other⟩, member, rfl⟩ := List.mem_map.mp listed
    cases List.mem_singleton.mp same
    exact absent other member
  · intro index other
    change (index, other) ∈ w.fetched ++ [(caller, event)] ↔
      ∃ holder, (w.callers.set caller later)[index]? = some holder ∧ _
    rw [getElem?_put there, List.mem_append, inv.took index other]
    by_cases same : index = caller
    · subst same
      rw [if_pos rfl]
      constructor
      · rintro (old | new)
        · exact absurd ((inv.took index other).mpr old) (absent other)
        · cases List.mem_singleton.mp new
          exact ⟨later, rfl, took⟩
      · rintro ⟨holder, ⟨⟩, has⟩
        cases took.symm.trans has
        exact .inr (List.mem_singleton.mpr rfl)
    · rw [if_neg same]
      constructor
      · rintro (old | new)
        · exact old
        · cases List.mem_singleton.mp new
          exact absurd rfl same
      · exact Or.inl

theorem Inv.enter (inv : w.Inv) {ctx : Option Nat} (known : ∀ address ∈ ctx, address = w.ctx)
    (aeqe : Option DmaAeqe) : (w.enter ctx aeqe).Inv := by
  constructor
  · intro caller member
    rcases List.mem_append.mp member with old | new
    · exact inv.fits caller old
    · rw [List.mem_singleton.mp new]
      exact fits_enter known aeqe
  · exact inv.ordered
  · exact inv.once
  · intro index event
    refine (inv.took index event).trans ?_
    change _ ↔ ∃ caller, (w.callers ++ [_])[index]? = some caller ∧ _
    by_cases inside : index < w.callers.length
    · rw [List.getElem?_append_left inside]
    · rw [List.getElem?_append_right (Nat.le_of_not_lt inside),
        List.getElem?_eq_none (Nat.le_of_not_lt inside)]
      constructor
      · rintro ⟨_, ⟨⟩, _⟩
      · rintro ⟨caller, here, has⟩
        obtain rfl := List.mem_singleton.mp (List.mem_of_getElem? here)
        cases has

theorem Inv.step (inv : w.Inv) {action : AeAction} (stepped : w.step action = some next) :
    next.Inv := by
  rcases step_cases stepped with raises | enters | polls | fetches | fails
  · obtain ⟨event, rfl⟩ := raises
    refine ⟨inv.fits, ?_, inv.once, inv.took⟩
    change w.fetched.map Prod.snd ++ (w.pending ++ [event]) = w.raised ++ [event]
    rw [← List.append_assoc, inv.ordered]
  · obtain ⟨ctx, aeqe, known, rfl⟩ := enters
    exact inv.enter known aeqe
  · obtain ⟨caller, waiting, ctx, arg, answer, there, stands, rfl⟩ := polls
    have fits := inv.fits waiting (List.mem_of_getElem? there)
    exact inv.put there (fits.poll stands answer) rfl
  · obtain ⟨caller, waiting, ctx, arg, event, rest, there, stands, pending, rfl⟩ := fetches
    have fits := inv.fits waiting (List.mem_of_getElem? there)
    have none : waiting.took = none := by
      unfold AeCaller.Fits at fits
      rw [stands] at fits
      exact fits.2.2
    exact inv.take there pending (fits.fetch stands event) none rfl
  · obtain ⟨caller, waiting, ctx, arg, ret, there, stands, failed, rfl⟩ := fails
    have fits := inv.fits waiting (List.mem_of_getElem? there)
    exact inv.put there (fits.fail stands failed) rfl

theorem Initial.inv (initial : w.Initial) : w.Inv := by
  constructor
  · intro caller member
    rw [initial.callers] at member
    cases member
  · rw [initial.fetched, initial.pending, initial.raised]
    rfl
  · rw [initial.fetched]
    exact List.nodup_nil
  · intro index event
    rw [initial.fetched, initial.callers]
    constructor
    · intro listed
      cases listed
    · rintro ⟨_, ⟨⟩, _⟩

/-! ### Delivering what is pending -/

end AeWorld

end Libcdma
