/-
Resources that a program acquires and gives back.

A ledger lists the resources in existence, each with the ones it refers to.  A
computation writes down what it does to them: it is granted a resource by its
environment, takes one out of a stock of its own, uses one, or gives one back.
The environment promises that what it grants is new; the program owes that what
it refers to or uses is there, and that nothing left behind refers to what it
gives back.
-/

import Mathlib.Data.List.Nodup

namespace Libcdma.Ledger

variable {R α β : Type}

structure Entry (R : Type) where
  resource : R
  refs : List R
  deriving DecidableEq

/-- `pooled` is granted as well, but to the program's own stock. -/
inductive Event (R : Type) where
  | granted (entry : Entry R)
  | pooled (resource : R)
  | handed (resource : R)
  | used (resource : R)
  | released (resource : R)
  deriving DecidableEq

def live (ledger : List (Entry R)) : List R := ledger.map Entry.resource

@[simp] theorem live_nil : live ([] : List (Entry R)) = [] := rfl

@[simp] theorem live_cons (entry : Entry R) (ledger : List (Entry R)) :
    live (entry :: ledger) = entry.resource :: live ledger := rfl

@[simp] theorem live_append (left right : List (Entry R)) :
    live (left ++ right) = live left ++ live right := List.map_append

/-- The newest entry comes first: no resource is listed twice, and every entry refers
to older ones. -/
def Sound : List (Entry R) → Prop
  | [] => True
  | entry :: ledger => entry.resource ∉ live ledger ∧
      (∀ ref ∈ entry.refs, ref ∈ live ledger) ∧ Sound ledger

namespace Sound

variable {ledger top : List (Entry R)} {resource : R}

theorem distinct (sound : Sound ledger) : (live ledger).Nodup := by
  induction ledger with
  | nil => exact List.nodup_nil
  | cons entry older ih => exact List.nodup_cons.mpr ⟨sound.1, ih sound.2.2⟩

theorem unreferred (sound : Sound ledger) (absent : resource ∉ live ledger) :
    ∀ entry ∈ ledger, resource ∉ entry.refs := by
  induction ledger with
  | nil => exact fun _ member => absurd member List.not_mem_nil
  | cons newest older ih =>
      intro entry member refers
      rw [live_cons, List.mem_cons, not_or] at absent
      rcases List.mem_cons.mp member with rfl | older
      · exact absent.2 (sound.2.1 resource refers)
      · exact ih sound.2.2 absent.2 entry older refers

theorem below (sound : Sound (top ++ ledger)) : Sound ledger := by
  induction top with
  | nil => exact sound
  | cons entry rest ih => exact ih sound.2.2

end Sound

def Founded : List (Entry R) → Prop
  | [] => True
  | entry :: ledger => (∀ ref ∈ entry.refs, ref ∈ live ledger) ∧ Founded ledger

theorem Founded.append {top ledger : List (Entry R)} (above : Founded top)
    (under : Founded ledger) : Founded (top ++ ledger) := by
  induction top with
  | nil => exact under
  | cons entry rest ih =>
      rw [List.cons_append]
      refine ⟨fun ref refers => ?_, ih above.2⟩
      rw [live_append]
      exact List.mem_append_left _ (above.1 ref refers)

theorem Founded.flatMap {objects : List α} {entries : α → List (Entry R)}
    (each : ∀ object ∈ objects, Founded (entries object)) : Founded (objects.flatMap entries) := by
  induction objects with
  | nil => trivial
  | cons object rest ih =>
      rw [List.flatMap_cons]
      exact (each object List.mem_cons_self).append
        (ih fun other member => each other (List.mem_cons_of_mem _ member))

theorem Founded.sound {ledger : List (Entry R)} (founded : Founded ledger)
    (distinct : (live ledger).Nodup) : Sound ledger := by
  induction ledger with
  | nil => trivial
  | cons entry rest ih =>
      obtain ⟨absent, distinct⟩ := List.nodup_cons.mp distinct
      exact ⟨absent, founded.1, ih founded.2 distinct⟩

structure Grants (R : Type) where
  valid : R → Prop
  apart : R → R → Prop

def Grants.Fresh (grants : Grants R) (ledger : List (Entry R)) (resource : R) : Prop :=
  resource ∉ live ledger ∧ grants.valid resource ∧
    ∀ other ∈ live ledger, grants.apart resource other

section Events

variable [DecidableEq R]

def Event.apply (ledger : List (Entry R)) : Event R → List (Entry R)
  | .granted entry => entry :: ledger
  | .pooled _ => ledger
  | .handed resource => ⟨resource, []⟩ :: ledger
  | .used _ => ledger
  | .released resource => ledger.filter fun entry => entry.resource ≠ resource

/-- What the environment promises. -/
def Event.Fresh (grants : Grants R) (ledger : List (Entry R)) : Event R → Prop
  | .granted entry => grants.Fresh ledger entry.resource
  | .pooled resource => grants.Fresh ledger resource
  | _ => True

/-- What the program owes. -/
def Event.Legal (ledger : List (Entry R)) : Event R → Prop
  | .granted entry => ∀ ref ∈ entry.refs, ref ∈ live ledger
  | .pooled _ => True
  | .handed resource => resource ∉ live ledger
  | .used resource => resource ∈ live ledger
  | .released resource => resource ∈ live ledger ∧ ∀ entry ∈ ledger, resource ∉ entry.refs

instance (grants : Grants R) [DecidablePred grants.valid] [DecidableRel grants.apart]
    (ledger : List (Entry R)) : ∀ event : Event R, Decidable (event.Fresh grants ledger)
  | .granted _ => inferInstanceAs (Decidable (_ ∉ _ ∧ _))
  | .pooled _ => inferInstanceAs (Decidable (_ ∉ _ ∧ _))
  | .handed _ | .used _ | .released _ => instDecidableTrue

def replay : List (Event R) → List (Entry R) → List (Entry R)
  | [], ledger => ledger
  | event :: rest, ledger => replay rest (event.apply ledger)

def Along (condition : List (Entry R) → Event R → Prop) : List (Event R) → List (Entry R) → Prop
  | [], _ => True
  | event :: rest, ledger => condition ledger event ∧ Along condition rest (event.apply ledger)

def decidableAlong {condition : List (Entry R) → Event R → Prop}
    [∀ ledger event, Decidable (condition ledger event)] :
    ∀ (events : List (Event R)) (ledger : List (Entry R)), Decidable (Along condition events ledger)
  | [], _ => instDecidableTrue
  | event :: rest, ledger =>
      have : Decidable (Along condition rest (event.apply ledger)) := decidableAlong rest _
      inferInstanceAs (Decidable (condition ledger event ∧
        Along condition rest (event.apply ledger)))

instance {condition : List (Entry R) → Event R → Prop}
    [∀ ledger event, Decidable (condition ledger event)] (events : List (Event R))
    (ledger : List (Entry R)) : Decidable (Along condition events ledger) :=
  decidableAlong events ledger

theorem replay_append (first second : List (Event R)) (ledger : List (Entry R)) :
    replay (first ++ second) ledger = replay second (replay first ledger) := by
  induction first generalizing ledger with
  | nil => rfl
  | cons event rest ih => exact ih _

theorem along_append {condition : List (Entry R) → Event R → Prop}
    (first second : List (Event R)) (ledger : List (Entry R)) :
    Along condition (first ++ second) ledger ↔
      Along condition first ledger ∧ Along condition second (replay first ledger) := by
  induction first generalizing ledger with
  | nil => exact ⟨fun holds => ⟨trivial, holds⟩, And.right⟩
  | cons event rest ih =>
      rw [List.cons_append]
      simp only [Along, replay, ih, and_assoc]

/-! ### Giving back -/

theorem mem_live_filter {ledger : List (Entry R)} {resource other : R} :
    other ∈ live (ledger.filter fun entry => entry.resource ≠ resource) ↔
      other ∈ live ledger ∧ other ≠ resource := by
  simp only [live, List.mem_map, List.mem_filter, decide_eq_true_eq]
  constructor
  · rintro ⟨entry, ⟨member, different⟩, rfl⟩
    exact ⟨⟨entry, member, rfl⟩, different⟩
  · rintro ⟨⟨entry, member, rfl⟩, different⟩
    exact ⟨entry, ⟨member, different⟩, rfl⟩

theorem filter_absent {ledger : List (Entry R)} {resource : R} (absent : resource ∉ live ledger) :
    ledger.filter (fun entry => entry.resource ≠ resource) = ledger := by
  refine List.filter_eq_self.mpr fun entry member => decide_eq_true fun same => absent ?_
  rw [← same]
  exact List.mem_map_of_mem member

theorem Sound.filter {ledger : List (Entry R)} (sound : Sound ledger) {resource : R}
    (unreferred : ∀ entry ∈ ledger, resource ∉ entry.refs) :
    Sound (ledger.filter fun entry => entry.resource ≠ resource) := by
  induction ledger with
  | nil => trivial
  | cons entry older ih =>
      have rest := ih sound.2.2 fun other member => unreferred other (List.mem_cons_of_mem _ member)
      rw [List.filter_cons]
      split
      · refine ⟨fun listed => sound.1 (mem_live_filter.mp listed).1, fun ref refers => ?_, rest⟩
        refine mem_live_filter.mpr ⟨sound.2.1 ref refers, ?_⟩
        rintro rfl
        exact unreferred entry List.mem_cons_self refers
      · exact rest

/-- One event keeps the ledger in order when both sides do their part. -/
theorem Sound.apply {ledger : List (Entry R)} (sound : Sound ledger) {grants : Grants R}
    {event : Event R} (fresh : event.Fresh grants ledger) (legal : event.Legal ledger) :
    Sound (event.apply ledger) := by
  cases event with
  | granted entry => exact ⟨fresh.1, legal, sound⟩
  | pooled resource => exact sound
  | handed resource => exact ⟨legal, fun ref refers => absurd refers List.not_mem_nil, sound⟩
  | used resource => exact sound
  | released resource => exact sound.filter legal.2

theorem Sound.replay {grants : Grants R} {events : List (Event R)} {ledger : List (Entry R)}
    (sound : Sound ledger) (fresh : Along (Event.Fresh grants) events ledger)
    (legal : Along Event.Legal events ledger) : Sound (Ledger.replay events ledger) := by
  induction events generalizing ledger with
  | nil => exact sound
  | cons event rest ih => exact ih (sound.apply fresh.1 legal.1) fresh.2 legal.2

theorem replay_released (resources : List R) (ledger : List (Entry R)) :
    replay (resources.map .released) ledger =
      ledger.filter fun entry => entry.resource ∉ resources := by
  induction resources generalizing ledger with
  | nil => simp [replay]
  | cons resource rest ih =>
      simp only [List.map_cons, replay, Event.apply, ih, List.filter_filter]
      refine List.filter_congr fun entry _ => ?_
      simp [Bool.and_comm]

theorem legal_released {resources : List R} {ledger : List (Entry R)} (distinct : resources.Nodup)
    (held : ∀ resource ∈ resources, resource ∈ live ledger)
    (unreferred : ∀ resource ∈ resources, ∀ entry ∈ ledger, resource ∉ entry.refs) :
    Along Event.Legal (resources.map .released) ledger := by
  induction resources generalizing ledger with
  | nil => trivial
  | cons resource rest ih =>
      obtain ⟨absent, distinct⟩ := List.nodup_cons.mp distinct
      refine ⟨⟨held resource List.mem_cons_self, unreferred resource List.mem_cons_self⟩,
        ih distinct (fun other member => ?_) fun other member entry kept => ?_⟩
      · refine mem_live_filter.mpr ⟨held other (List.mem_cons_of_mem _ member), ?_⟩
        rintro rfl
        exact absent member
      · exact unreferred other (List.mem_cons_of_mem _ member) entry (List.mem_filter.mp kept).1

theorem fresh_released (grants : Grants R) (resources : List R) (ledger : List (Entry R)) :
    Along (Event.Fresh grants) (resources.map .released) ledger := by
  induction resources generalizing ledger with
  | nil => trivial
  | cons resource rest ih => exact ⟨trivial, ih _⟩

theorem mem_live_replay_released {resources : List R} {ledger : List (Entry R)} {resource : R}
    (kept : resource ∉ resources) (there : resource ∈ live ledger) :
    resource ∈ live (replay (resources.map .released) ledger) := by
  rw [replay_released]
  obtain ⟨entry, member, rfl⟩ := List.mem_map.mp there
  exact List.mem_map_of_mem (List.mem_filter.mpr ⟨member, decide_eq_true kept⟩)

/-! ### Counting -/

def Event.acquires (resource : R) : Event R → Bool
  | .granted entry => entry.resource = resource
  | .handed other => other = resource
  | _ => false

def Event.releases (resource : R) : Event R → Bool
  | .released other => other = resource
  | _ => false

def held (resource : R) (ledger : List (Entry R)) : Nat := if resource ∈ live ledger then 1 else 0

theorem held_append {top ledger : List (Entry R)} (distinct : (live (top ++ ledger)).Nodup)
    (resource : R) : held resource (top ++ ledger) =
      (live top).count resource + held resource ledger := by
  rw [live_append] at distinct
  have counted {entries : List (Entry R)} (single : (live entries).Nodup) :
      held resource entries = (live entries).count resource := by
    unfold held
    rw [single.count]
  rw [counted (List.nodup_append.mp distinct).2.1, ← List.count_append, ← live_append,
    counted (by rw [live_append]; exact distinct)]

theorem Event.acquires_add_held {grants : Grants R} {ledger : List (Entry R)} {event : Event R}
    (fresh : event.Fresh grants ledger) (legal : event.Legal ledger) (resource : R) :
    (event.acquires resource).toNat + held resource ledger =
      (event.releases resource).toNat + held resource (event.apply ledger) := by
  have acquired (other : R) (absent : other ∉ live ledger) (refs : List R) :
      (decide (other = resource)).toNat + held resource ledger =
        held resource (⟨other, refs⟩ :: ledger) := by
    unfold held
    by_cases same : other = resource
    · subst same
      simp [absent]
    · simp [same, Ne.symm same]
  cases event with
  | granted entry => exact (acquired _ fresh.1 entry.refs).trans (Nat.zero_add _).symm
  | pooled other => rfl
  | handed other => exact (acquired other legal []).trans (Nat.zero_add _).symm
  | used other => rfl
  | released other =>
      simp only [Event.acquires, Event.releases, Event.apply, held, mem_live_filter]
      by_cases same : other = resource
      · subst same
        simp [legal.1]
      · simp [same, Ne.symm same]

/-- A resource is acquired as often as it is given back, but for being there before
and being there afterwards. -/
theorem acquired_eq_released {grants : Grants R} {events : List (Event R)}
    {ledger : List (Entry R)} (fresh : Along (Event.Fresh grants) events ledger)
    (legal : Along Event.Legal events ledger) (resource : R) :
    events.countP (Event.acquires resource) + held resource ledger =
      events.countP (Event.releases resource) + held resource (replay events ledger) := by
  induction events generalizing ledger with
  | nil => rfl
  | cons event rest ih =>
      have first := Event.acquires_add_held fresh.1 legal.1 resource
      have later := ih fresh.2 legal.2
      have single (holds : Bool) : (if holds = true then 1 else 0) = holds.toNat := by
        cases holds <;> rfl
      rw [replay, List.countP_cons, List.countP_cons, single, single]
      omega

/-! ### The order of a ledger does not matter -/

section Perm

variable {ledger other : List (Entry R)} (same : ledger.Perm other)

include same in
theorem Event.apply_perm (event : Event R) : (event.apply ledger).Perm (event.apply other) := by
  cases event with
  | granted entry => exact same.cons entry
  | pooled resource => exact same
  | handed resource => exact same.cons _
  | used resource => exact same
  | released resource => exact same.filter _

include same in
omit [DecidableEq R] in
theorem mem_live_perm (resource : R) : resource ∈ live ledger ↔ resource ∈ live other :=
  (same.map _).mem_iff

include same in
omit [DecidableEq R] in
theorem Event.legal_perm (event : Event R) : event.Legal ledger ↔ event.Legal other := by
  cases event with
  | granted entry => simp only [Event.Legal, mem_live_perm same]
  | pooled resource => exact Iff.rfl
  | handed resource => simp only [Event.Legal, mem_live_perm same]
  | used resource => simp only [Event.Legal, mem_live_perm same]
  | released resource => simp only [Event.Legal, mem_live_perm same, same.mem_iff]

include same in
omit [DecidableEq R] in
theorem Event.fresh_perm (grants : Grants R) (event : Event R) :
    event.Fresh grants ledger ↔ event.Fresh grants other := by
  cases event with
  | granted entry => simp only [Event.Fresh, Grants.Fresh, mem_live_perm same]
  | pooled resource => simp only [Event.Fresh, Grants.Fresh, mem_live_perm same]
  | handed resource => exact Iff.rfl
  | used resource => exact Iff.rfl
  | released resource => exact Iff.rfl

theorem replay_perm (events : List (Event R)) {ledger other : List (Entry R)}
    (same : ledger.Perm other) : (replay events ledger).Perm (replay events other) := by
  induction events generalizing ledger other with
  | nil => exact same
  | cons event rest ih => exact ih (event.apply_perm same)

theorem along_perm {condition : List (Entry R) → Event R → Prop}
    (invariant : ∀ {ledger other : List (Entry R)}, ledger.Perm other →
      ∀ event, condition ledger event ↔ condition other event)
    (events : List (Event R)) {ledger other : List (Entry R)} (same : ledger.Perm other) :
    Along condition events ledger ↔ Along condition events other := by
  induction events generalizing ledger other with
  | nil => exact Iff.rfl
  | cons event rest ih => exact and_congr (invariant same event) (ih (event.apply_perm same))

end Perm

end Events

/-- The value of a computation, absent while it is still running, and its record. -/
structure Logged (R α : Type) where
  value : Option α
  trace : List (Event R)

namespace Logged

def running : Logged R α := ⟨none, []⟩

def emit (event : Event R) : Logged R Unit := ⟨some (), [event]⟩

def lift (value : Option α) : Logged R α := ⟨value, []⟩

def andThen (first : Logged R α) (next : α → Logged R β) : Logged R β :=
  match first.value with
  | none => ⟨none, first.trace⟩
  | some value => ⟨(next value).value, first.trace ++ (next value).trace⟩

instance : Monad (Logged R) where
  pure value := ⟨some value, []⟩
  bind := andThen

@[simp] theorem pure_value (value : α) : (pure value : Logged R α).value = some value := rfl

@[simp] theorem emit_value (event : Event R) : (emit event).value = some () := rfl

@[simp] theorem lift_value (value : Option α) : (lift value : Logged R α).value = value := rfl

@[simp] theorem bind_value (first : Logged R α) (next : α → Logged R β) :
    (first >>= next).value = first.value.bind fun value => (next value).value := by
  change (andThen first next).value = _
  unfold andThen
  cases first.value <;> rfl

theorem bind_value_eq_some {first : Logged R α} {next : α → Logged R β} {result : β} :
    (first >>= next).value = some result ↔
      ∃ value, first.value = some value ∧ (next value).value = some result := by
  rw [bind_value, Option.bind_eq_some_iff]

theorem bind_eq {first : Logged R α} {value : α} (done : first.value = some value)
    (next : α → Logged R β) :
    first >>= next = ⟨(next value).value, first.trace ++ (next value).trace⟩ := by
  change andThen first next = _
  unfold andThen
  rw [done]

theorem mk_bind_pure (value : α) (trace : List (Event R)) (result : β) :
    ((⟨some value, trace⟩ : Logged R α) >>= fun _ => pure result) = ⟨some result, trace⟩ := by
  rw [bind_eq rfl]
  exact congrArg (Logged.mk (some result)) (List.append_nil trace)

section Rules

variable [DecidableEq R] {grants : Grants R} {trusting : Prop} {ledger : List (Entry R)}

/-- The computation owes nothing, comes to an end, and leaves a value and a ledger as
stated: as long as the environment keeps its promise, when this is trusted, and
otherwise because it asks for nothing. -/
structure Meets (grants : Grants R) (trusting : Prop) (ledger : List (Entry R))
    (call : Logged R α) (post : α → List (Entry R) → Prop) : Prop where
  outcome : Sound ledger → (trusting → Along (Event.Fresh grants) call.trace ledger) →
    Along (Event.Fresh grants) call.trace ledger ∧ Along Event.Legal call.trace ledger ∧
      ∃ value, call.value = some value ∧ post value (replay call.trace ledger)

theorem Meets.pure {value : α} {post : α → List (Entry R) → Prop} (holds : post value ledger) :
    Meets grants trusting ledger (Pure.pure value : Logged R α) post :=
  ⟨fun _ _ => ⟨trivial, trivial, value, rfl, holds⟩⟩

theorem Meets.lift {call : Option α} {value : α} {post : α → List (Entry R) → Prop}
    (done : call = some value) (holds : post value ledger) :
    Meets grants trusting ledger (Logged.lift call : Logged R α) post :=
  ⟨fun _ _ => ⟨trivial, trivial, value, done, holds⟩⟩

theorem Meets.bind {first : Logged R α} {next : α → Logged R β}
    {between : α → List (Entry R) → Prop} {post : β → List (Entry R) → Prop}
    (before : Meets grants trusting ledger first between)
    (after : ∀ value middle, between value middle → Meets grants trusting middle (next value) post) :
    Meets grants trusting ledger (first >>= next) post := by
  constructor
  intro sound promise
  change trusting → Along _ (andThen first next).trace ledger at promise
  change Along _ (andThen first next).trace ledger ∧
    Along _ (andThen first next).trace ledger ∧
    ∃ value, (andThen first next).value = _ ∧
      post value (replay (andThen first next).trace ledger)
  unfold andThen at promise ⊢
  cases result : first.value with
  | none =>
      rw [result] at promise
      obtain ⟨_, _, value, done, _⟩ := before.outcome sound promise
      cases result.symm.trans done
  | some value =>
      rw [result] at promise
      simp only [along_append, replay_append] at promise ⊢
      obtain ⟨freshFirst, legalFirst, _, done, holds⟩ :=
        before.outcome sound fun trusted => (promise trusted).1
      cases result.symm.trans done
      obtain ⟨freshNext, legalNext, final, ends, reached⟩ :=
        (after value _ holds).outcome (sound.replay freshFirst legalFirst)
          fun trusted => (promise trusted).2
      exact ⟨⟨freshFirst, freshNext⟩, ⟨legalFirst, legalNext⟩, final, ends, reached⟩

theorem Meets.mono {call : Logged R α} {strong weak : α → List (Entry R) → Prop}
    (meets : Meets grants trusting ledger call strong)
    (weaker : ∀ value after, strong value after → weak value after) :
    Meets grants trusting ledger call weak := by
  constructor
  intro sound promise
  obtain ⟨fresh, legal, value, done, holds⟩ := meets.outcome sound promise
  exact ⟨fresh, legal, value, done, weaker _ _ holds⟩

theorem Meets.emit {event : Event R} {post : Unit → List (Entry R) → Prop}
    (legal : Sound ledger → event.Fresh grants ledger ∧ event.Legal ledger)
    (holds : Sound ledger → post () (event.apply ledger)) :
    Meets grants trusting ledger (Logged.emit event) post :=
  ⟨fun sound _ => ⟨⟨(legal sound).1, trivial⟩, ⟨(legal sound).2, trivial⟩, (), rfl, holds sound⟩⟩

/-- After a resource is granted, the rest may rely on what the environment promised. -/
theorem Meets.granting {entry : Entry R} {next : Unit → Logged R β}
    {post : β → List (Entry R) → Prop}
    (refs : grants.Fresh ledger entry.resource → ∀ ref ∈ entry.refs, ref ∈ live ledger)
    (rest : grants.Fresh ledger entry.resource → Meets grants True (entry :: ledger) (next ()) post) :
    Meets grants True ledger (Logged.emit (.granted entry) >>= next) post := by
  have granted : Meets grants True ledger (Logged.emit (.granted entry)) fun _ after =>
      after = entry :: ledger ∧ grants.Fresh ledger entry.resource :=
    ⟨fun _ promise => ⟨promise trivial, ⟨refs (promise trivial).1, trivial⟩, (), rfl, rfl,
      (promise trivial).1⟩⟩
  refine granted.bind ?_
  rintro _ _ ⟨rfl, fresh⟩
  exact rest fresh

theorem Meets.pooling {resource : R} {next : Unit → Logged R β}
    {post : β → List (Entry R) → Prop}
    (rest : grants.Fresh ledger resource → Meets grants True ledger (next ()) post) :
    Meets grants True ledger (Logged.emit (.pooled resource) >>= next) post := by
  have pooled : Meets grants True ledger (Logged.emit (.pooled resource)) fun _ after =>
      after = ledger ∧ grants.Fresh ledger resource :=
    ⟨fun _ promise => ⟨promise trivial, ⟨trivial, trivial⟩, (), rfl, rfl, (promise trivial).1⟩⟩
  refine pooled.bind ?_
  rintro _ _ ⟨rfl, fresh⟩
  exact rest fresh

theorem Meets.using {resource : R} (held : resource ∈ live ledger) :
    Meets grants trusting ledger (Logged.emit (.used resource)) fun _ after => after = ledger :=
  Meets.emit (fun _ => ⟨trivial, held⟩) fun _ => rfl

theorem Meets.handing {resource : R} {next : Unit → Logged R β}
    {post : β → List (Entry R) → Prop} (absent : resource ∉ live ledger)
    (rest : Meets grants trusting (⟨resource, []⟩ :: ledger) (next ()) post) :
    Meets grants trusting ledger (Logged.emit (.handed resource) >>= next) post := by
  have handed : Meets grants trusting ledger (Logged.emit (.handed resource)) fun _ after =>
      after = ⟨resource, []⟩ :: ledger := Meets.emit (fun _ => ⟨trivial, absent⟩) fun _ => rfl
  refine handed.bind ?_
  rintro _ _ rfl
  exact rest

/-- Giving back a resource that nothing acquired since refers to. -/
theorem Meets.release {resource : R} {refs : List R} (top : List (Entry R))
    (unreferred : ∀ entry ∈ top, resource ∉ entry.refs) :
    Meets grants trusting (top ++ ⟨resource, refs⟩ :: ledger) (Logged.emit (.released resource))
      fun _ after => after = top ++ ledger := by
  refine Meets.emit (fun sound => ?_) fun sound => ?_
  · obtain ⟨absent, older, under⟩ := sound.below
    refine ⟨trivial, List.mem_map_of_mem (List.mem_append_right _ List.mem_cons_self),
      fun entry member => ?_⟩
    rcases List.mem_append.mp member with above | below
    · exact unreferred entry above
    rcases List.mem_cons.mp below with rfl | below
    · exact fun itself => absent (older resource itself)
    · exact under.unreferred absent entry below
  · have distinct := sound.distinct
    rw [live_append, live_cons] at distinct
    obtain ⟨_, below, between⟩ := List.nodup_append.mp distinct
    have above : resource ∉ live top := fun member =>
      between resource member resource List.mem_cons_self rfl
    simp only [Event.apply, List.filter_append, List.filter_cons, filter_absent above,
      filter_absent (List.nodup_cons.mp below).1]
    simp

theorem Meets.release_top {resource : R} {refs : List R} :
    Meets grants trusting (⟨resource, refs⟩ :: ledger) (Logged.emit (.released resource))
      fun _ after => after = ledger :=
  Meets.release [] fun _ member => absurd member List.not_mem_nil

theorem Meets.leaving {call : Logged R α} {next : α → Logged R β} {middle : List (Entry R)}
    {post : β → List (Entry R) → Prop}
    (leaves : Meets grants trusting ledger call fun _ after => after = middle)
    (rest : ∀ value, Meets grants trusting middle (next value) post) :
    Meets grants trusting ledger (call >>= next) post := by
  refine leaves.bind ?_
  rintro value _ rfl
  exact rest value

theorem Meets.perm {other : List (Entry R)} {call : Logged R α}
    {post : α → List (Entry R) → Prop} (same : other.Perm ledger) (sound : Sound other)
    (meets : Meets grants trusting other call post) :
    Meets grants trusting ledger call fun value after =>
      ∃ before, before.Perm after ∧ post value before := by
  constructor
  intro _ promise
  have freshPerm := along_perm (fun same event => Event.fresh_perm same grants event) call.trace same
  have legalPerm := along_perm (fun same event => Event.legal_perm same event) call.trace same
  obtain ⟨fresh, legal, value, done, holds⟩ :=
    meets.outcome sound fun trusted => freshPerm.mpr (promise trusted)
  exact ⟨freshPerm.mp fresh, legalPerm.mp legal, value, done, _, replay_perm call.trace same,
    holds⟩

end Rules

end Logged

end Libcdma.Ledger
