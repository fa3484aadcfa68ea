/-
Contexts, their queues and segments, over the life of a process.

A process opens and closes contexts, allocates, uses and frees queues in them, registers
segments with them and imports others, in any order and with any answers from outside.
What it holds is at any time what its objects account for, and closing them one by one
gives everything back.  The library does not look whether a context is empty when it is
deleted; the caller has to close what is in it first.
-/

import Libcdma.Foundation.Embedding
import Libcdma.Foundation.Progress
import Libcdma.QueueLifetimes
import Libcdma.SessionLadders

namespace Libcdma

open Ledger Process Transition

namespace ContextWorld

variable {w next : ContextWorld}

theorem Inv.free_fresh (inv : w.Inv) {index : Nat} (inside : index < w.queues.length) :
    Along (Event.Fresh Resource.grants)
      (Ladder.dmaFreeQueue w.fuel w.host w.ctx (some w.queues[index])).trace w.ledger := by
  have ready := inv.ready _ (List.getElem_mem inside)
  have split : (Ladder.queueEntries w.host.ctx.pageSize w.queues[index] ++
      (w.queues.eraseIdx index).flatMap (Ladder.queueEntries w.host.ctx.pageSize)).Perm w.ledger :=
    ((List.getElem_cons_eraseIdx_perm inside).flatMap_right _).trans inv.owned.symm
  have founded : Founded (Ladder.queueEntries w.host.ctx.pageSize w.queues[index] ++
      (w.queues.eraseIdx index).flatMap (Ladder.queueEntries w.host.ctx.pageSize)) :=
    (queueEntries_founded _ ready.handle).append (Founded.flatMap fun queue member =>
      queueEntries_founded _ (inv.ready queue (List.mem_of_mem_eraseIdx member)).handle)
  have sound := founded.sound ((split.map _).nodup_iff.mpr inv.sound.distinct)
  have stock : Ladder.Stocked w.fuel w.host.ctx.pageSize w.host
      (Ladder.queueEntries w.host.ctx.pageSize w.queues[index] ++
        (w.queues.eraseIdx index).flatMap (Ladder.queueEntries w.host.ctx.pageSize)) :=
    ⟨rfl, w.nodes, Nat.lt_add_of_pos_right (by decide),
      inv.occupied.perm (swDbs_perm split.symm)⟩
  have meets : Logged.Meets Resource.grants False w.ledger
      (Ladder.dmaFreeQueue w.fuel w.host w.ctx (some w.queues[index])) _ :=
    .perm split sound (Ladder.cdmaFreeQueue_meets ready stock)
  exact (meets.outcome inv.sound False.elim).1

theorem Inv.traced (inv : w.Inv) {action : ContextAction} (stepped : w.step action = some next) :
    ∃ trace, next.history = w.history ++ trace ∧
      Along (Event.Fresh Resource.grants) trace w.ledger := by
  cases action with
  | alloc cfg env =>
      simp only [ContextWorld.step, Option.ite_none_right_eq_some, Option.map_eq_some_iff] at stepped
      obtain ⟨grantable, answer, _, rfl⟩ := stepped
      exact ⟨_, rfl, grantable.1⟩
  | free index =>
      cases index with
      | none =>
          cases stepped
          exact ⟨[], rfl, trivial⟩
      | some index =>
          by_cases inside : index < w.queues.length
          · simp only [ContextWorld.step, List.getElem?_eq_getElem inside, Option.map_eq_some_iff]
              at stepped
            obtain ⟨host, _, rfl⟩ := stepped
            exact ⟨_, rfl, inv.free_fresh inside⟩
          · simp only [ContextWorld.step, List.getElem?_eq_none (Nat.le_of_not_lt inside)] at stepped
            cases stepped
  | use index made memory =>
      simp only [ContextWorld.step, Option.ite_none_right_eq_some] at stepped
      obtain ⟨_, same⟩ := stepped
      cases same
      exact ⟨[], (List.append_nil _).symm, trivial⟩

theorem Inv.pages_empty (inv : w.Inv) (empty : w.queues = []) : w.host.ctx.page = 0 := by
  have owned := inv.owned
  unfold entries at owned
  rw [empty, List.flatMap_nil] at owned
  have occupied := inv.occupied
  rw [owned.eq_nil] at occupied
  have none : w.nodes = [] := by
    apply List.eq_nil_iff_forall_not_mem.mpr
    intro node member
    obtain ⟨db, impossible, _⟩ := occupied.occupied node member
    cases impossible
  have linked := occupied.pages.linked
  rw [none] at linked
  exact linked

end ContextWorld

structure Session where
  held : HeldContext
  queues : ContextWorld
  segs : List HeldSeg

structure ProcessWorld where
  sessions : List Session
  imported : List HeldSeg
  history : List (Event ProcessResource)

inductive ProcessAction where
  | createContext (dev : Option DmaDevice) (env : ContextEnv) (memory : Memory)
      (dbPage : Nat → CdmaUDbPage)
  | deleteContext (index : Option Nat)
  | registerSeg (index : Nat) (cfg : Option DmaSegCfg) (env : SegEnv)
  | unregisterSeg (index place : Nat)
  | importSeg (cfg : Option DmaSegCfg) (calloc : Option Nat)
  | unimportSeg (place : Nat)
  | queues (index : Nat) (action : ContextAction)

namespace Session

def opened (memory : Memory) (dbPage : Nat → CdmaUDbPage) (held : HeldContext) : Session :=
  { held := held
    queues :=
      { ctx := held.dmaCtx
        host := { ctx := held.uCtx, memory := memory, dbPage := dbPage }
        nodes := [], queues := [], history := [] }
    segs := [] }

def withSegs (s : Session) (segs : List HeldSeg) : Session := { s with segs := segs }

def withQueues (s : Session) (queues : ContextWorld) : Session := { s with queues := queues }

def inject (s : Session) (resource : Resource) : ProcessResource :=
  .inQueues s.held.address resource

def segEntries (s : Session) : List (Entry ProcessResource) :=
  s.segs.flatMap (HeldSeg.entries s.held)

def ofQueue (s : Session) (queue : CdmaUQueue) : List (Entry ProcessResource) :=
  (Ladder.queueEntries s.queues.host.ctx.pageSize queue).map (Entry.embed s.inject)

def queueEntries (s : Session) : List (Entry ProcessResource) :=
  s.queues.ledger.map (Entry.embed s.inject)

def entries (s : Session) : List (Entry ProcessResource) :=
  s.segEntries ++ (s.queueEntries ++ s.held.entries)

end Session

namespace ProcessWorld

def ledger (w : ProcessWorld) : List (Entry ProcessResource) := replay w.history []

def entries (w : ProcessWorld) : List (Entry ProcessResource) :=
  w.sessions.flatMap Session.entries ++ w.imported.flatMap HeldSeg.importEntries

def Grantable (w : ProcessWorld) (trace : List (Event ProcessResource)) : Prop :=
  Along (Event.Fresh ProcessResource.grants) trace w.ledger

instance (w : ProcessWorld) (trace : List (Event ProcessResource)) :
    Decidable (w.Grantable trace) :=
  inferInstanceAs (Decidable (Along _ _ _))

def after (w : ProcessWorld) (sessions : List Session) (imported : List HeldSeg)
    (trace : List (Event ProcessResource)) : ProcessWorld :=
  { sessions := sessions, imported := imported, history := w.history ++ trace }

/-- The caller passes what it was given. -/
def step (w : ProcessWorld) : ProcessAction → Option ProcessWorld
  | .createContext dev env memory dbPage =>
      let call := dmaCreateContext env dev
      if w.Grantable call.trace then
        call.value.map fun held =>
          w.after ((held.map (Session.opened memory dbPage)).toList ++ w.sessions) w.imported
            call.trace
      else none
  | .deleteContext none =>
      let call := dmaDeleteContext none
      call.value.map fun _ => w.after w.sessions w.imported call.trace
  | .deleteContext (some index) =>
      match w.sessions[index]? with
      | none => none
      | some s =>
          let call := dmaDeleteContext (some s.held)
          call.value.map fun _ => w.after (w.sessions.eraseIdx index) w.imported call.trace
  | .registerSeg index cfg env =>
      match w.sessions[index]? with
      | none => none
      | some s =>
          let call := dmaRegisterSeg env (some s.held) cfg
          if w.Grantable call.trace then
            call.value.map fun seg =>
              w.after (w.sessions.set index (s.withSegs (seg.toList ++ s.segs))) w.imported
                call.trace
          else none
  | .unregisterSeg index place =>
      match w.sessions[index]? with
      | none => none
      | some s =>
          match s.segs[place]? with
          | none => none
          | some seg =>
              let call := dmaUnregisterSeg (some s.held) (some seg)
              call.value.map fun _ =>
                w.after (w.sessions.set index (s.withSegs (s.segs.eraseIdx place))) w.imported
                  call.trace
  | .importSeg cfg calloc =>
      let call := dmaImportSeg calloc cfg
      if w.Grantable call.trace then
        call.value.map fun seg => w.after w.sessions (seg.toList ++ w.imported) call.trace
      else none
  | .unimportSeg place =>
      match w.imported[place]? with
      | none => none
      | some seg =>
          let call := dmaUnimportSeg (some seg)
          call.value.map fun _ => w.after w.sessions (w.imported.eraseIdx place) call.trace
  | .queues index action =>
      match w.sessions[index]? with
      | none => none
      | some s =>
          (s.queues.step action).map fun next =>
            w.after (w.sessions.set index (s.withQueues next)) w.imported
              ((next.history.drop s.queues.history.length).map (Event.embed s.inject))

/-- The caller deletes a context after the queues and the segments in it.  The library
does not look. -/
def ClosesLast (w : ProcessWorld) : ProcessAction → Prop
  | .deleteContext (some index) =>
      ∀ s ∈ w.sessions[index]?, s.queues.queues.isEmpty ∧ s.segs.isEmpty
  | _ => True

instance (w : ProcessWorld) : ∀ action, Decidable (w.ClosesLast action)
  | .deleteContext (some index) => Option.decidableForallMem w.sessions[index]?
  | .deleteContext none | .createContext _ _ _ _ | .registerSeg _ _ _ | .unregisterSeg _ _ |
    .importSeg _ _ | .unimportSeg _ | .queues _ _ => instDecidableTrue

def Initial (w : ProcessWorld) : Prop := w.sessions = [] ∧ w.imported = [] ∧ w.history = []

structure Inv (w : ProcessWorld) : Prop where
  fresh : Along (Event.Fresh ProcessResource.grants) w.history []
  legal : Along Event.Legal w.history []
  owned : w.ledger.Perm w.entries
  distinct : (w.sessions.map fun s => s.held.address).Nodup
  queues : ∀ s ∈ w.sessions, s.queues.Inv
  ready : ∀ s ∈ w.sessions, s.held.Ready
  owner : ∀ s ∈ w.sessions, ∀ seg ∈ s.segs, seg.seg.tid = s.held.tid

end ProcessWorld

/-! ### Entries in order -/

theorem HeldContext.founded (held : HeldContext) : Founded held.entries := by
  have own : Founded held.ownEntries := by
    simp [HeldContext.ownEntries, Founded]
  have kernel : Founded held.kernelEntries := by
    unfold HeldContext.kernelEntries HeldContext.asyncEntries
    split
    · refine ⟨?_, ?_, own⟩
      · simp
      · simp [HeldContext.ownEntries]
    · refine ⟨?_, own⟩
      simp [HeldContext.ownEntries]
  unfold HeldContext.entries HeldContext.pageEntries
  cases held.db.addr with
  | none => exact kernel
  | some addr =>
      refine ⟨?_, kernel⟩
      simp [HeldContext.kernelEntries]

theorem HeldSeg.founded {held : HeldContext} {seg : HeldSeg}
    {below : List (Entry ProcessResource)} (founded : Founded below)
    (kernel : .kernelContext held.address held.dev.fd ∈ live below)
    (tid : .tid seg.seg.tid ∈ live below) : Founded (seg.entries held ++ below) := by
  refine ⟨?_, ?_, ?_, founded⟩
  · intro ref refers
    rcases List.mem_cons.mp refers with rfl | granted
    · simp [HeldSeg.importEntries, kernel]
    · rw [List.mem_singleton.mp granted]
      simp
  · intro ref refers
    rcases List.mem_cons.mp refers with rfl | owner
    · simp [HeldSeg.importEntries]
    · rw [List.mem_singleton.mp owner]
      simp [HeldSeg.importEntries, tid]
  · simp

namespace Session

theorem kernel_mem (s : Session) :
    .kernelContext s.held.address s.held.dev.fd ∈ live s.held.entries := by
  simp [HeldContext.entries, HeldContext.kernelEntries]

theorem tid_mem (s : Session) : .tid s.held.tid ∈ live s.held.entries := by
  simp [HeldContext.entries, HeldContext.kernelEntries, HeldContext.ownEntries]

theorem context_mem (s : Session) : .context s.held.address ∈ live s.held.entries := by
  simp [HeldContext.entries, HeldContext.kernelEntries, HeldContext.ownEntries]

theorem held_mem (s : Session) {resource : ProcessResource}
    (member : resource ∈ live s.held.entries) : resource ∈ live s.entries := by
  unfold entries
  rw [live_append, live_append]
  exact List.mem_append_right _ (List.mem_append_right _ member)

theorem founded {s : Session} (inv : s.queues.Inv)
    (owner : ∀ seg ∈ s.segs, seg.seg.tid = s.held.tid) : Founded s.entries := by
  have below : Founded (s.queueEntries ++ s.held.entries) :=
    inv.sound.founded.embed.append s.held.founded
  have listed : ∀ resource, resource ∈ live s.held.entries →
      resource ∈ live (s.queueEntries ++ s.held.entries) := fun resource member => by
    rw [live_append]
    exact List.mem_append_right _ member
  unfold entries segEntries
  generalize s.segs = segs at owner
  induction segs with
  | nil => exact below
  | cons seg rest ih =>
      have earlier := ih fun other member => owner other (List.mem_cons_of_mem _ member)
      have deeper : ∀ resource, resource ∈ live s.held.entries →
          resource ∈ live (rest.flatMap (HeldSeg.entries s.held) ++
            (s.queueEntries ++ s.held.entries)) := fun resource member => by
        rw [live_append]
        exact List.mem_append_right _ (listed resource member)
      rw [List.flatMap_cons, List.append_assoc]
      refine HeldSeg.founded earlier (deeper _ s.kernel_mem) ?_
      rw [owner seg List.mem_cons_self]
      exact deeper _ s.tid_mem

end Session

namespace Session

theorem entries_cons (s : Session) (seg : HeldSeg) (segs : List HeldSeg) :
    (s.withSegs (seg :: segs)).entries = seg.entries s.held ++ (s.withSegs segs).entries := by
  unfold entries segEntries
  change (seg :: segs).flatMap (HeldSeg.entries s.held) ++ _ = _
  rw [List.flatMap_cons, List.append_assoc]
  rfl

theorem entries_perm (s : Session) {segs : List HeldSeg} (same : segs.Perm s.segs) :
    (s.withSegs segs).entries.Perm s.entries :=
  (same.flatMap_right (HeldSeg.entries s.held)).append_right _

theorem entries_within (s : Session) (queues : ContextWorld)
    (below : List (Entry ProcessResource)) :
    (within s.inject (s.segEntries ++ (s.held.entries ++ below)) queues.ledger).Perm
      ((s.withQueues queues).entries ++ below) := by
  unfold within entries
  rw [List.append_assoc, List.append_assoc, ← List.append_assoc, ← List.append_assoc,
    ← List.append_assoc, ← List.append_assoc]
  exact (List.perm_append_comm.append_right _).append_right _

end Session

def Entry.NotOf (address : Nat) (entry : Entry ProcessResource) : Prop :=
  ∀ resource, entry.resource ≠ .inQueues address resource ∧
    .inQueues address resource ∉ entry.refs

theorem HeldContext.entries_notOf (held : HeldContext) (address : Nat) :
    ∀ entry ∈ held.entries, Entry.NotOf address entry := by
  intro entry member resource
  simp only [HeldContext.entries, HeldContext.kernelEntries, HeldContext.ownEntries,
    HeldContext.pageEntries, HeldContext.asyncEntries, List.mem_append, List.mem_cons,
    List.not_mem_nil, or_false, Option.mem_toList, Option.map_eq_some_iff] at member
  rcases member with ⟨addr, _, rfl⟩ | async | rfl | rfl | rfl | rfl
  · simp
  · split at async
    · rw [List.mem_singleton.mp async]
      simp
    · cases async
  · simp
  · simp
  · simp
  · simp

theorem HeldSeg.entries_notOf (held : HeldContext) (seg : HeldSeg) (address : Nat) :
    ∀ entry ∈ seg.entries held, Entry.NotOf address entry := by
  intro entry member resource
  simp only [HeldSeg.entries, HeldSeg.importEntries, List.mem_cons, List.not_mem_nil,
    or_false] at member
  rcases member with rfl | rfl | rfl
  · simp
  · simp
  · simp

theorem Session.segEntries_notOf (s : Session) (address : Nat) :
    ∀ entry ∈ s.segEntries, Entry.NotOf address entry := by
  intro entry member
  obtain ⟨seg, _, listed⟩ := List.mem_flatMap.mp member
  exact HeldSeg.entries_notOf s.held seg address entry listed

theorem Session.entries_notOf {s : Session} {address : Nat} (other : s.held.address ≠ address) :
    ∀ entry ∈ s.entries, Entry.NotOf address entry := by
  intro entry member
  rcases List.mem_append.mp member with segs | below
  · exact s.segEntries_notOf address entry segs
  rcases List.mem_append.mp below with queues | held
  · intro resource
    obtain ⟨own, _, rfl⟩ := List.mem_map.mp queues
    simp [Entry.embed, Session.inject, other]
  · exact s.held.entries_notOf address entry held

theorem Session.inject_injective (s : Session) : Function.Injective s.inject := by
  intro left right same
  exact (ProcessResource.inQueues.inj same).2

namespace ProcessWorld

variable {w next : ProcessWorld}

def rest (w : ProcessWorld) (index : Nat) : List (Entry ProcessResource) :=
  (w.sessions.eraseIdx index).flatMap Session.entries ++
    w.imported.flatMap HeldSeg.importEntries

theorem entries_split (w : ProcessWorld) {index : Nat} (inside : index < w.sessions.length) :
    (w.sessions[index].entries ++ w.rest index).Perm w.entries := by
  unfold rest entries
  rw [← List.append_assoc, ← List.flatMap_cons]
  exact ((List.getElem_cons_eraseIdx_perm inside).flatMap_right _).append_right _

theorem entries_set (w : ProcessWorld) {index : Nat} (inside : index < w.sessions.length)
    (s : Session) (trace : List (Event ProcessResource)) :
    (s.entries ++ w.rest index).Perm
      (w.after (w.sessions.set index s) w.imported trace).entries := by
  have bound : index < (w.after (w.sessions.set index s) w.imported trace).sessions.length := by
    change index < (w.sessions.set index s).length
    rw [List.length_set]
    exact inside
  have split := entries_split _ bound
  have others : (w.after (w.sessions.set index s) w.imported trace).rest index = w.rest index := by
    unfold rest after
    rw [List.eraseIdx_set_eq]
  have here : (w.after (w.sessions.set index s) w.imported trace).sessions[index] = s :=
    List.getElem_set_self _
  rw [others, here] at split
  exact split

theorem after_ledger (sessions : List Session) (imported : List HeldSeg)
    (trace : List (Event ProcessResource)) :
    (w.after sessions imported trace).ledger = replay trace w.ledger :=
  replay_append w.history trace []

theorem founded_sessions {sessions : List Session} {imported : List HeldSeg}
    (queues : ∀ s ∈ sessions, s.queues.Inv)
    (owner : ∀ s ∈ sessions, ∀ seg ∈ s.segs, seg.seg.tid = s.held.tid) :
    Founded (sessions.flatMap Session.entries ++ imported.flatMap HeldSeg.importEntries) := by
  have each : Founded (sessions.flatMap Session.entries) :=
    Founded.flatMap fun s member => Session.founded (queues s member) (owner s member)
  have imports : Founded (imported.flatMap HeldSeg.importEntries) :=
    Founded.flatMap fun seg _ => ⟨fun _ refers => absurd refers List.not_mem_nil, trivial⟩
  exact each.append imports

namespace Inv

theorem sound (inv : w.Inv) : Sound w.ledger := by
  have empty : Sound ([] : List (Entry ProcessResource)) := trivial
  exact empty.replay inv.fresh inv.legal

theorem founded_rest (inv : w.Inv) (index : Nat) : Founded (w.rest index) := by
  apply founded_sessions
  · intro s member
    exact inv.queues s (List.mem_of_mem_eraseIdx member)
  · intro s member
    exact inv.owner s (List.mem_of_mem_eraseIdx member)

theorem held_mem (inv : w.Inv) {s : Session} (member : s ∈ w.sessions)
    {resource : ProcessResource} (held : resource ∈ live s.held.entries) :
    resource ∈ live w.ledger := by
  rw [mem_live_perm inv.owned]
  unfold entries
  rw [live_append]
  apply List.mem_append_left
  obtain ⟨entry, listed, same⟩ := List.mem_map.mp (s.held_mem held)
  exact List.mem_map.mpr ⟨entry, List.mem_flatMap.mpr ⟨s, member, listed⟩, same⟩

theorem after (inv : w.Inv) {sessions : List Session} {imported : List HeldSeg}
    {trace : List (Event ProcessResource)} (fresh : w.Grantable trace)
    (legal : Along Event.Legal trace w.ledger)
    (owned : (replay trace w.ledger).Perm (w.after sessions imported trace).entries)
    (distinct : (sessions.map fun s => s.held.address).Nodup)
    (queues : ∀ s ∈ sessions, s.queues.Inv) (ready : ∀ s ∈ sessions, s.held.Ready)
    (owner : ∀ s ∈ sessions, ∀ seg ∈ s.segs, seg.seg.tid = s.held.tid) :
    (w.after sessions imported trace).Inv := by
  constructor
  · exact (along_append ..).mpr ⟨inv.fresh, fresh⟩
  · exact (along_append ..).mpr ⟨inv.legal, legal⟩
  · rw [after_ledger]
    exact owned
  · exact distinct
  · exact queues
  · exact ready
  · exact owner

/-! ### Contexts -/

theorem create (inv : w.Inv) {dev : Option DmaDevice} {env : ContextEnv} (memory : Memory)
    (dbPage : Nat → CdmaUDbPage) (grantable : w.Grantable (dmaCreateContext env dev).trace) :
    ∃ answer next, w.step (.createContext dev env memory dbPage) = some next ∧ next.Inv ∧
      (dmaCreateContext env dev).value = some answer ∧
      next.sessions = (answer.map (Session.opened memory dbPage)).toList ++ w.sessions ∧
      next.ledger = answer.toList.flatMap HeldContext.entries ++ w.ledger := by
  have meets : Logged.Meets ProcessResource.grants True w.ledger (dmaCreateContext env dev) _ :=
    dmaCreateContext_meets env dev
  obtain ⟨fresh, legal, answer, done, outcome⟩ := meets.outcome inv.sound fun _ => grantable
  have stepped : w.step (.createContext dev env memory dbPage) = some
      (w.after ((answer.map (Session.opened memory dbPage)).toList ++ w.sessions) w.imported
        (dmaCreateContext env dev).trace) := by
    refine (if_pos grantable).trans ?_
    rw [done]
    rfl
  refine ⟨answer, _, stepped, ?_⟩
  rw [after_ledger]
  rcases outcome with ⟨rfl, same⟩ | ⟨made, rfl, ready, size, page, grown⟩
  · refine ⟨?_, done, rfl, same⟩
    apply inv.after fresh legal _ inv.distinct inv.queues inv.ready inv.owner
    rw [same]
    exact inv.owned
  · have empty : (Session.opened memory dbPage made).queues.Initial := by
      obtain ⟨shift, least, bounded, power⟩ := env.pageSize.power
      refine ⟨⟨shift, least, bounded, ?_⟩, page, rfl, rfl, rfl⟩
      rw [← power, ← size]
      rfl
    refine ⟨?_, done, rfl, ?_⟩
    · apply inv.after fresh legal
      · have new : (Session.opened memory dbPage made).entries = made.entries := rfl
        rw [grown]
        simp only [entries, ProcessWorld.after, Option.map_some, Option.toList_some,
          List.singleton_append, List.flatMap_cons, new, List.append_assoc]
        exact inv.owned.append_left made.entries
      · change (made.address :: w.sessions.map fun s => s.held.address).Nodup
        refine List.nodup_cons.mpr ⟨?_, inv.distinct⟩
        intro taken
        obtain ⟨s, member, same⟩ := List.mem_map.mp taken
        have sound := inv.sound.replay fresh legal
        rw [grown] at sound
        have nodup := sound.distinct
        rw [live_append] at nodup
        have here : .context made.address ∈ live made.entries :=
          (Session.opened memory dbPage made).context_mem
        have there : .context made.address ∈ live w.ledger := by
          rw [← same]
          exact inv.held_mem member s.context_mem
        exact (List.nodup_append.mp nodup).2.2 _ here _ there rfl
      · intro s member
        rcases List.mem_cons.mp member with rfl | older
        · exact empty.inv
        · exact inv.queues s older
      · intro s member
        rcases List.mem_cons.mp member with rfl | older
        · exact ready
        · exact inv.ready s older
      · intro s member
        rcases List.mem_cons.mp member with rfl | older
        · exact fun _ impossible => absurd impossible List.not_mem_nil
        · exact inv.owner s older
    · rw [grown, Option.toList_some, List.flatMap_singleton]

theorem delete (inv : w.Inv) {index : Nat} (inside : index < w.sessions.length)
    (noQueues : w.sessions[index].queues.queues = []) (noSegs : w.sessions[index].segs = []) :
    ∃ next, w.step (.deleteContext (some index)) = some next ∧ next.Inv ∧
      next.sessions = w.sessions.eraseIdx index ∧ next.imported = w.imported := by
  have member := List.getElem_mem inside
  have queues := (inv.queues _ member).owned
  unfold ContextWorld.entries at queues
  rw [noQueues, List.flatMap_nil] at queues
  have entries : w.sessions[index].entries = w.sessions[index].held.entries := by
    unfold Session.entries Session.segEntries Session.queueEntries
    rw [noSegs, queues.eq_nil]
    rfl
  have split := w.entries_split inside
  rw [entries] at split
  have owned := split.trans inv.owned.symm
  have founded := w.sessions[index].held.founded.append (inv.founded_rest index)
  have sound := founded.sound ((owned.map _).nodup_iff.mpr inv.sound.distinct)
  have meets : Logged.Meets ProcessResource.grants False w.ledger
      (dmaDeleteContext (some w.sessions[index].held)) _ :=
    .perm owned sound (cdmaDeleteContext_meets (inv.ready _ member))
  obtain ⟨fresh, legal, _, done, _, same, rfl⟩ := meets.outcome inv.sound False.elim
  have stepped : w.step (.deleteContext (some index)) = some
      (w.after (w.sessions.eraseIdx index) w.imported
        (dmaDeleteContext (some w.sessions[index].held)).trace) := by
    simp only [step, List.getElem?_eq_getElem inside, done]
    rfl
  refine ⟨_, stepped, inv.after fresh legal same.symm ?_ ?_ ?_ ?_, rfl, rfl⟩
  · exact inv.distinct.sublist ((List.eraseIdx_sublist ..).map _)
  · exact fun s kept => inv.queues s (List.mem_of_mem_eraseIdx kept)
  · exact fun s kept => inv.ready s (List.mem_of_mem_eraseIdx kept)
  · exact fun s kept => inv.owner s (List.mem_of_mem_eraseIdx kept)

theorem delete_null (inv : w.Inv) :
    ∃ next, w.step (.deleteContext none) = some next ∧ next.Inv ∧ next.ledger = w.ledger := by
  refine ⟨_, rfl, inv.after trivial trivial inv.owned inv.distinct inv.queues inv.ready
    inv.owner, ?_⟩
  rw [after_ledger]
  rfl

theorem set (inv : w.Inv) {index : Nat} (inside : index < w.sessions.length) (s : Session)
    (held : s.held = w.sessions[index].held) (queues : s.queues.Inv)
    (owner : ∀ seg ∈ s.segs, seg.seg.tid = s.held.tid)
    {trace : List (Event ProcessResource)} (fresh : w.Grantable trace)
    (legal : Along Event.Legal trace w.ledger)
    (owned : (replay trace w.ledger).Perm (s.entries ++ w.rest index)) :
    (w.after (w.sessions.set index s) w.imported trace).Inv := by
  have cases : ∀ other ∈ w.sessions.set index s, other = s ∨ other ∈ w.sessions :=
    fun other member => (List.mem_or_eq_of_mem_set member).symm
  apply inv.after fresh legal (owned.trans (w.entries_set inside s trace))
  · have same : (w.sessions.set index s).map (fun other => other.held.address) =
        w.sessions.map fun other => other.held.address := by
      have bound : index < (w.sessions.map fun other => other.held.address).length := by
        rw [List.length_map]
        exact inside
      have here : s.held.address = (w.sessions.map fun other => other.held.address)[index] := by
        rw [List.getElem_map, held]
      rw [List.map_set, here, List.set_getElem_self]
    rw [same]
    exact inv.distinct
  · intro other member
    rcases cases other member with rfl | older
    · exact queues
    · exact inv.queues other older
  · intro other member
    rcases cases other member with rfl | older
    · rw [held]
      exact inv.ready _ (List.getElem_mem inside)
    · exact inv.ready other older
  · intro other member
    rcases cases other member with rfl | older
    · exact owner
    · exact inv.owner other older

/-! ### Segments -/

theorem register (inv : w.Inv) {index : Nat} (inside : index < w.sessions.length)
    {cfg : Option DmaSegCfg} {env : SegEnv}
    (grantable : w.Grantable (dmaRegisterSeg env (some w.sessions[index].held) cfg).trace) :
    ∃ answer next, w.step (.registerSeg index cfg env) = some next ∧ next.Inv ∧
      (dmaRegisterSeg env (some w.sessions[index].held) cfg).value = some answer ∧
      next.sessions = w.sessions.set index
        (w.sessions[index].withSegs (answer.toList ++ w.sessions[index].segs)) ∧
      next.ledger =
        answer.toList.flatMap (HeldSeg.entries w.sessions[index].held) ++ w.ledger := by
  have member := List.getElem_mem inside
  have meets : Logged.Meets ProcessResource.grants True w.ledger
      (dmaRegisterSeg env (some w.sessions[index].held) cfg) _ :=
    dmaRegisterSeg_meets env cfg (inv.held_mem member w.sessions[index].context_mem)
      (inv.held_mem member w.sessions[index].tid_mem)
      (inv.held_mem member w.sessions[index].kernel_mem)
  obtain ⟨fresh, legal, answer, done, outcome⟩ := meets.outcome inv.sound fun _ => grantable
  have stepped : w.step (.registerSeg index cfg env) = some
      (w.after (w.sessions.set index
        (w.sessions[index].withSegs (answer.toList ++ w.sessions[index].segs))) w.imported
        (dmaRegisterSeg env (some w.sessions[index].held) cfg).trace) := by
    simp only [step, List.getElem?_eq_getElem inside, if_pos grantable, done, Option.map_some]
  have owned := inv.owned.trans (w.entries_split inside).symm
  have owner := inv.owner _ member
  refine ⟨answer, _, stepped, ?_⟩
  rw [after_ledger]
  rcases outcome with ⟨rfl, same⟩ | ⟨seg, rfl, owns, grown⟩
  · have kept : (w.after (w.sessions.set index w.sessions[index]) w.imported
        (dmaRegisterSeg env (some w.sessions[index].held) cfg).trace).Inv := by
      apply inv.set inside w.sessions[index] rfl (inv.queues _ member) owner fresh legal
      rw [same]
      exact owned
    exact ⟨kept, done, rfl, same⟩
  · have queues : (w.sessions[index].withSegs (seg :: w.sessions[index].segs)).queues.Inv :=
      inv.queues w.sessions[index] member
    refine ⟨inv.set inside (w.sessions[index].withSegs (seg :: w.sessions[index].segs)) rfl queues
      ?_ fresh legal ?_, done, rfl, ?_⟩
    · intro other listed
      rcases List.mem_cons.mp listed with rfl | older
      · exact owns
      · exact owner other older
    · rw [grown]
      rw [Session.entries_cons, List.append_assoc]
      exact owned.append_left _
    · rw [grown, Option.toList_some, List.flatMap_singleton]

theorem unregister (inv : w.Inv) {index place : Nat} (inside : index < w.sessions.length)
    (there : place < w.sessions[index].segs.length) :
    ∃ next, w.step (.unregisterSeg index place) = some next ∧ next.Inv ∧
      next.sessions = w.sessions.set index
        (w.sessions[index].withSegs (w.sessions[index].segs.eraseIdx place)) ∧
      next.imported = w.imported := by
  have member := List.getElem_mem inside
  have owner := inv.owner _ member
  generalize same : w.sessions[index] = s at *
  have queues : s.queues.Inv := inv.queues s member
  have founded : Founded ((s.withSegs (s.segs.eraseIdx place)).entries ++ w.rest index) :=
    .append (Session.founded (inv.queues s member) fun seg kept =>
      owner seg (List.mem_of_mem_eraseIdx kept)) (inv.founded_rest index)
  have below : ∀ resource, resource ∈ live s.held.entries → resource ∈
      live ((s.withSegs (s.segs.eraseIdx place)).entries ++ w.rest index) := by
    intro resource held
    rw [live_append]
    exact List.mem_append_left _
      (Session.held_mem (s.withSegs (s.segs.eraseIdx place)) held)
  have whole : Founded (s.segs[place].entries s.held ++
      ((s.withSegs (s.segs.eraseIdx place)).entries ++ w.rest index)) := by
    refine HeldSeg.founded founded (below _ s.kernel_mem) ?_
    rw [owner _ (List.getElem_mem there)]
    exact below _ s.tid_mem
  have owned : (s.segs[place].entries s.held ++
      ((s.withSegs (s.segs.eraseIdx place)).entries ++ w.rest index)).Perm w.ledger := by
    have split := w.entries_split inside
    rw [same] at split
    refine .trans ?_ (split.trans inv.owned.symm)
    rw [← List.append_assoc, ← Session.entries_cons]
    exact (s.entries_perm (List.getElem_cons_eraseIdx_perm there)).append_right _
  have sound := whole.sound ((owned.map _).nodup_iff.mpr inv.sound.distinct)
  have meets : Logged.Meets ProcessResource.grants False w.ledger
      (dmaUnregisterSeg (some s.held) (some s.segs[place])) _ :=
    .perm owned sound (dmaUnregisterSeg_meets s.segs[place] (below _ s.context_mem))
  obtain ⟨fresh, legal, _, done, _, left, rfl⟩ := meets.outcome inv.sound False.elim
  have stepped : w.step (.unregisterSeg index place) = some
      (w.after (w.sessions.set index (s.withSegs (s.segs.eraseIdx place))) w.imported
        (dmaUnregisterSeg (some s.held) (some s.segs[place])).trace) := by
    simp only [step, List.getElem?_eq_getElem inside, same, List.getElem?_eq_getElem there, done,
      Option.map_some]
  refine ⟨_, stepped, inv.set inside (s.withSegs (s.segs.eraseIdx place)) ?_ queues ?_ fresh
    legal left.symm, rfl, rfl⟩
  · rw [same]
    rfl
  · exact fun seg kept => owner seg (List.mem_of_mem_eraseIdx kept)

theorem importSeg (inv : w.Inv) {cfg : Option DmaSegCfg} {calloc : Option Nat}
    (grantable : w.Grantable (dmaImportSeg calloc cfg).trace) :
    ∃ answer next, w.step (.importSeg cfg calloc) = some next ∧ next.Inv ∧
      (dmaImportSeg calloc cfg).value = some answer ∧
      next.imported = answer.toList ++ w.imported ∧
      next.ledger = answer.toList.flatMap HeldSeg.importEntries ++ w.ledger := by
  have meets : Logged.Meets ProcessResource.grants True w.ledger (dmaImportSeg calloc cfg) _ :=
    dmaImportSeg_meets calloc cfg
  obtain ⟨fresh, legal, answer, done, outcome⟩ := meets.outcome inv.sound fun _ => grantable
  have stepped : w.step (.importSeg cfg calloc) = some
      (w.after w.sessions (answer.toList ++ w.imported) (dmaImportSeg calloc cfg).trace) := by
    refine (if_pos grantable).trans ?_
    rw [done]
    rfl
  refine ⟨answer, _, stepped, ?_⟩
  rw [after_ledger]
  rcases outcome with ⟨rfl, same⟩ | ⟨seg, rfl, grown⟩
  · refine ⟨?_, done, rfl, same⟩
    apply inv.after fresh legal _ inv.distinct inv.queues inv.ready inv.owner
    rw [same]
    exact inv.owned
  · refine ⟨?_, done, rfl, ?_⟩
    · apply inv.after fresh legal _ inv.distinct inv.queues inv.ready inv.owner
      rw [grown]
      refine (inv.owned.append_left _).trans ?_
      simp only [entries, ProcessWorld.after, Option.toList_some, List.singleton_append,
        List.flatMap_cons]
      rw [← List.append_assoc, ← List.append_assoc]
      exact List.perm_append_comm.append_right _
    · rw [grown, Option.toList_some, List.flatMap_singleton]

theorem unimport (inv : w.Inv) {place : Nat} (there : place < w.imported.length) :
    ∃ next, w.step (.unimportSeg place) = some next ∧ next.Inv ∧
      next.sessions = w.sessions ∧ next.imported = w.imported.eraseIdx place := by
  have founded : Founded (w.imported[place].importEntries ++
      (w.sessions.flatMap Session.entries ++
        (w.imported.eraseIdx place).flatMap HeldSeg.importEntries)) :=
    ⟨fun _ refers => absurd refers List.not_mem_nil, founded_sessions inv.queues inv.owner⟩
  have owned : (w.imported[place].importEntries ++
      (w.sessions.flatMap Session.entries ++
        (w.imported.eraseIdx place).flatMap HeldSeg.importEntries)).Perm w.ledger := by
    refine .trans ?_ inv.owned.symm
    have gathered := ((List.getElem_cons_eraseIdx_perm there).flatMap_right
      HeldSeg.importEntries).append_left (w.sessions.flatMap Session.entries)
    refine .trans ?_ gathered
    rw [List.flatMap_cons, ← List.append_assoc, ← List.append_assoc]
    exact List.perm_append_comm.append_right _
  have sound := founded.sound ((owned.map _).nodup_iff.mpr inv.sound.distinct)
  have meets : Logged.Meets ProcessResource.grants False w.ledger
      (dmaUnimportSeg (some w.imported[place])) _ :=
    .perm owned sound (dmaUnimportSeg_meets _)
  obtain ⟨fresh, legal, _, done, _, left, rfl⟩ := meets.outcome inv.sound False.elim
  have stepped : w.step (.unimportSeg place) = some
      (w.after w.sessions (w.imported.eraseIdx place)
        (dmaUnimportSeg (some w.imported[place])).trace) := by
    simp only [step, List.getElem?_eq_getElem there, done, Option.map_some]
  exact ⟨_, stepped, inv.after fresh legal left.symm inv.distinct inv.queues inv.ready inv.owner,
    rfl, rfl⟩

theorem apart (inv : w.Inv) {index : Nat} (inside : index < w.sessions.length) :
    Apart w.sessions[index].inject
      (w.sessions[index].segEntries ++ (w.sessions[index].held.entries ++ w.rest index)) := by
  intro entry member
  change Entry.NotOf w.sessions[index].held.address entry
  rcases List.mem_append.mp member with segs | below
  · exact w.sessions[index].segEntries_notOf _ entry segs
  rcases List.mem_append.mp below with held | others
  · exact w.sessions[index].held.entries_notOf _ entry held
  rcases List.mem_append.mp others with sessions | imports
  · obtain ⟨other, kept, listed⟩ := List.mem_flatMap.mp sessions
    refine Session.entries_notOf ?_ entry listed
    have arranged := (List.getElem_cons_eraseIdx_perm inside).map fun s => s.held.address
    have distinct := arranged.nodup_iff.mpr inv.distinct
    intro same
    exact (List.nodup_cons.mp distinct).1 (List.mem_map.mpr ⟨other, kept, same⟩)
  · obtain ⟨seg, _, listed⟩ := List.mem_flatMap.mp imports
    rw [List.mem_singleton.mp listed]
    intro resource
    simp

/-- What the queues of one session do is in order in the whole process. -/
theorem ofQueues (inv : w.Inv) {index : Nat} (inside : index < w.sessions.length)
    {action : ContextAction} {queues : ContextWorld}
    (stepped : w.sessions[index].queues.step action = some queues) :
    ∃ next, w.step (.queues index action) = some next ∧ next.Inv ∧
      next.sessions = w.sessions.set index (w.sessions[index].withQueues queues) ∧
      next.imported = w.imported := by
  have member := List.getElem_mem inside
  have before := inv.queues _ member
  have after := before.step stepped
  obtain ⟨trace, history, fresh⟩ := before.traced stepped
  have legal : Along Event.Legal trace w.sessions[index].queues.ledger := by
    have whole := after.legal
    rw [history] at whole
    exact ((along_append ..).mp whole).2
  have ledger : queues.ledger = replay trace w.sessions[index].queues.ledger := by
    unfold ContextWorld.ledger
    rw [history, replay_append]
  have added : queues.history.drop w.sessions[index].queues.history.length = trace := by
    rw [history, List.drop_left]
  have injective := w.sessions[index].inject_injective
  have apart := inv.apart inside
  have arranged : (within w.sessions[index].inject
      (w.sessions[index].segEntries ++ (w.sessions[index].held.entries ++ w.rest index))
      w.sessions[index].queues.ledger).Perm w.ledger := by
    refine .trans ?_ ((w.entries_split inside).trans inv.owned.symm)
    exact w.sessions[index].entries_within w.sessions[index].queues (w.rest index)
  have grantable : w.Grantable (trace.map (Event.embed w.sessions[index].inject)) := by
    refine (along_perm (fun same event => Event.fresh_perm same _ event) _ arranged).mp ?_
    refine along_embed injective apart (fun ledger event fresh => ?_) fresh
    exact fresh_embed injective apart (fun _ => trivial) (fun _ _ => trivial) fresh
  have allowed : Along Event.Legal (trace.map (Event.embed w.sessions[index].inject)) w.ledger := by
    refine (along_perm (fun same event => Event.legal_perm same event) _ arranged).mp ?_
    exact along_embed injective apart (fun _ _ legal => legal_embed injective apart legal) legal
  have reached := (replay_perm (trace.map (Event.embed w.sessions[index].inject)) arranged).symm
  rw [replay_embed injective apart, ← ledger] at reached
  refine ⟨w.after (w.sessions.set index (w.sessions[index].withQueues queues)) w.imported
    (trace.map (Event.embed w.sessions[index].inject)), ?_, ?_, rfl, rfl⟩
  · simp only [step, List.getElem?_eq_getElem inside, stepped, Option.map_some, added]
  · have owner : ∀ seg ∈ w.sessions[index].segs, seg.seg.tid = w.sessions[index].held.tid :=
      inv.owner _ member
    exact inv.set inside (w.sessions[index].withQueues queues) rfl after owner grantable allowed
      (reached.trans (w.sessions[index].entries_within queues (w.rest index)))

theorem allocQueue (inv : w.Inv) {index : Nat} (inside : index < w.sessions.length)
    {cfg : Option QueueCfg} {env : QueueEnv}
    (grantable : w.sessions[index].queues.Grantable cfg env) :
    ∃ answer host next, w.step (.queues index (.alloc cfg env)) = some next ∧
      (w.sessions[index].queues.allocCall cfg env).value = some (answer, host) ∧
      next.ledger.Perm
        (answer.toList.flatMap w.sessions[index].ofQueue ++ w.ledger) := by
  obtain ⟨answer, queues, moved, _, done, _, grown, _⟩ :=
    (inv.queues _ (List.getElem_mem inside)).alloc grantable
  obtain ⟨next, stepped, kept, sessions, imported⟩ := inv.ofQueues inside moved
  have added : (w.sessions[index].withQueues queues).queueEntries =
      answer.toList.flatMap w.sessions[index].ofQueue ++ w.sessions[index].queueEntries := by
    unfold Session.queueEntries Session.withQueues
    rw [grown, List.map_append, List.map_flatMap]
    rfl
  have own : (w.sessions[index].withQueues queues).entries.Perm
      (answer.toList.flatMap w.sessions[index].ofQueue ++ w.sessions[index].entries) := by
    unfold Session.entries
    rw [added, List.append_assoc]
    exact List.perm_append_comm_assoc ..
  have entries : next.entries =
      (w.after (w.sessions.set index (w.sessions[index].withQueues queues)) w.imported []).entries := by
    unfold ProcessWorld.entries ProcessWorld.after
    rw [sessions, imported]
  refine ⟨answer, queues.host, next, stepped, done, kept.owned.trans ?_⟩
  rw [entries]
  refine (w.entries_set inside _ []).symm.trans ((own.append_right _).trans ?_)
  rw [List.append_assoc]
  exact ((w.entries_split inside).trans inv.owned.symm).append_left _

theorem step (inv : w.Inv) {action : ProcessAction} (ordered : w.ClosesLast action)
    (stepped : w.step action = some next) : next.Inv := by
  have only {action : ProcessAction} {other : ProcessWorld} (same : w.step action = some other)
      (kept : other.Inv) (here : w.step action = some next) : next.Inv := by
    cases same.symm.trans here
    exact kept
  cases action with
  | createContext dev env memory dbPage =>
      have grantable : w.Grantable (dmaCreateContext env dev).trace := by
        by_contra refused
        simp only [ProcessWorld.step, if_neg refused] at stepped
        cases stepped
      obtain ⟨_, _, same, kept, _⟩ := inv.create memory dbPage grantable
      exact only same kept stepped
  | deleteContext index =>
      cases index with
      | none =>
          obtain ⟨_, same, kept, _⟩ := inv.delete_null
          exact only same kept stepped
      | some index =>
          by_cases inside : index < w.sessions.length
          · obtain ⟨noQueues, noSegs⟩ := ordered _ (List.getElem?_eq_getElem inside)
            obtain ⟨_, same, kept, _⟩ := inv.delete inside (List.isEmpty_iff.mp noQueues)
              (List.isEmpty_iff.mp noSegs)
            exact only same kept stepped
          · simp only [ProcessWorld.step, List.getElem?_eq_none (Nat.le_of_not_lt inside)] at stepped
            cases stepped
  | registerSeg index cfg env =>
      by_cases inside : index < w.sessions.length
      · have grantable : w.Grantable
            (dmaRegisterSeg env (some w.sessions[index].held) cfg).trace := by
          by_contra refused
          simp only [ProcessWorld.step, List.getElem?_eq_getElem inside, if_neg refused] at stepped
          cases stepped
        obtain ⟨_, _, same, kept, _⟩ := inv.register inside grantable
        exact only same kept stepped
      · simp only [ProcessWorld.step, List.getElem?_eq_none (Nat.le_of_not_lt inside)] at stepped
        cases stepped
  | unregisterSeg index place =>
      by_cases inside : index < w.sessions.length
      · by_cases there : place < w.sessions[index].segs.length
        · obtain ⟨_, same, kept, _⟩ := inv.unregister inside there
          exact only same kept stepped
        · simp only [ProcessWorld.step, List.getElem?_eq_getElem inside,
            List.getElem?_eq_none (Nat.le_of_not_lt there)] at stepped
          cases stepped
      · simp only [ProcessWorld.step, List.getElem?_eq_none (Nat.le_of_not_lt inside)] at stepped
        cases stepped
  | importSeg cfg calloc =>
      have grantable : w.Grantable (dmaImportSeg calloc cfg).trace := by
        by_contra refused
        simp only [ProcessWorld.step, if_neg refused] at stepped
        cases stepped
      obtain ⟨_, _, same, kept, _⟩ := inv.importSeg grantable
      exact only same kept stepped
  | unimportSeg place =>
      by_cases there : place < w.imported.length
      · obtain ⟨_, same, kept, _⟩ := inv.unimport there
        exact only same kept stepped
      · simp only [ProcessWorld.step, List.getElem?_eq_none (Nat.le_of_not_lt there)] at stepped
        cases stepped
  | queues index action =>
      by_cases inside : index < w.sessions.length
      · cases moved : w.sessions[index].queues.step action with
        | none =>
            simp only [ProcessWorld.step, List.getElem?_eq_getElem inside, moved] at stepped
            cases stepped
        | some queues =>
            obtain ⟨_, same, kept, _⟩ := inv.ofQueues inside moved
            exact only same kept stepped
      · simp only [ProcessWorld.step, List.getElem?_eq_none (Nat.le_of_not_lt inside)] at stepped
        cases stepped

end Inv

/-! ### Closing everything -/

def objects (w : ProcessWorld) : Nat :=
  (w.sessions.map fun s => s.queues.queues.length + s.segs.length + 1).sum + w.imported.length

/-- As long as there are objects, one of them can be given back. -/
theorem Inv.close_one (inv : w.Inv) (some : 0 < w.objects) :
    ∃ action next, w.step action = .some next ∧ next.Inv ∧ next.objects < w.objects := by
  obtain ⟨sessions, imported, history⟩ := w
  cases imported with
  | cons seg rest =>
      obtain ⟨next, stepped, kept, same, fewer⟩ := inv.unimport (Nat.zero_lt_succ rest.length)
      refine ⟨_, next, stepped, kept, ?_⟩
      unfold objects
      rw [same, fewer]
      change (sessions.map _).sum + rest.length < (sessions.map _).sum + (rest.length + 1)
      omega
  | nil =>
      cases sessions with
      | nil => exact absurd some (Nat.lt_irrefl 0)
      | cons s rest =>
          have inside : 0 < (s :: rest).length := Nat.zero_lt_succ rest.length
          have queues : s.queues.Inv := inv.queues s List.mem_cons_self
          by_cases allocated : 0 < s.queues.queues.length
          · obtain ⟨after, freed, _, _, fewer⟩ := queues.free allocated
            obtain ⟨next, stepped, kept, sessions, same⟩ := inv.ofQueues inside freed
            refine ⟨_, next, stepped, kept, ?_⟩
            unfold objects
            rw [sessions, same]
            simp only [List.getElem_cons_zero, List.set_cons_zero, List.map_cons, List.sum_cons,
              Session.withQueues, fewer, List.length_eraseIdx, if_pos allocated]
            omega
          · by_cases registered : 0 < s.segs.length
            · obtain ⟨next, stepped, kept, sessions, same⟩ := inv.unregister inside registered
              refine ⟨_, next, stepped, kept, ?_⟩
              unfold objects
              rw [sessions, same]
              simp only [List.getElem_cons_zero, List.set_cons_zero, List.map_cons, List.sum_cons,
                Session.withSegs, List.length_eraseIdx, if_pos registered]
              omega
            · have noQueues := List.eq_nil_of_length_eq_zero (Nat.eq_zero_of_not_pos allocated)
              have noSegs := List.eq_nil_of_length_eq_zero (Nat.eq_zero_of_not_pos registered)
              obtain ⟨next, stepped, kept, sessions, same⟩ := inv.delete inside noQueues noSegs
              refine ⟨_, next, stepped, kept, ?_⟩
              unfold objects
              rw [sessions, same]
              simp only [List.eraseIdx_cons_zero, List.map_cons, List.sum_cons]
              omega

theorem Inv.closes (inv : w.Inv) :
    ∃ closing last, run ProcessWorld.step w closing = some last ∧ last.Inv ∧
      last.objects = 0 := by
  have nearer (state : ProcessWorld) (kept : state.Inv) (some : ¬state.objects = 0) :
      ∃ actions next, (∀ action ∈ actions, True) ∧
        run ProcessWorld.step state actions = .some next ∧ next.Inv ∧
        next.objects < state.objects := by
    obtain ⟨action, next, stepped, left, fewer⟩ := kept.close_one (Nat.pos_of_ne_zero some)
    exact ⟨[action], next, fun _ _ => trivial, run_single stepped, left, fewer⟩
  obtain ⟨closing, last, _, ran, reached, empty⟩ := exists_run_reaching nearer inv
  exact ⟨closing, last, ran, reached, empty⟩

theorem Inv.ledger_empty (inv : w.Inv) (empty : w.objects = 0) : w.ledger = [] := by
  have owned := inv.owned
  obtain ⟨sessions, imported, history⟩ := w
  have noImports : imported = [] := by
    apply List.eq_nil_of_length_eq_zero
    exact Nat.eq_zero_of_add_eq_zero_left empty
  have noSessions : sessions = [] := by
    cases sessions with
    | nil => rfl
    | cons s rest =>
        unfold objects at empty
        rw [List.map_cons, List.sum_cons] at empty
        omega
  rw [noImports, noSessions] at owned
  rw [noImports, noSessions]
  exact owned.eq_nil

theorem Initial.inv (initial : w.Initial) : w.Inv := by
  obtain ⟨sessions, imported, history⟩ := w
  obtain ⟨rfl, rfl, rfl⟩ := initial
  constructor
  · trivial
  · trivial
  · exact .refl _
  · exact List.nodup_nil
  · exact fun _ impossible => absurd impossible List.not_mem_nil
  · exact fun _ impossible => absurd impossible List.not_mem_nil
  · exact fun _ impossible => absurd impossible List.not_mem_nil

def nothing : ProcessWorld := { sessions := [], imported := [], history := [] }

def answering (address : Nat) : ContextEnv :=
  { calloc := some address, mutex := true, tid := some (UInt32.ofNat address)
    kernel := some { cqeSize := 64, dwqeEnable := 1, asyncFd := address + 1, rsvBitmap := 1
                     st64bEn := 1 }
    pageSize := ⟨4096, 12, by decide⟩, page := some (address * 4096) }

def oneSeg : DmaSegCfg :=
  { addr := 4096, len := 64, tokenValue := 7, tid := 9, tokenValueValid := true }

/-- Two contexts, one that gets no page, a queue and a segment in the first, a segment that
the kernel refuses, an imported one, and the second context deleted again. -/
def calls : List ProcessAction :=
  let dev : DmaDevice := { fd := 3, devCap := { maxJfcDepth := 4096, maxJfsDepth := 4096
                                                maxJfsSge := 4, ceqCnt := 1 } }
  let none : ContextEnv := { answering 30 with page := .none }
  [.createContext (some dev) (answering 10) .zeroed fun _ => .zeroed,
    .createContext (some dev) none .zeroed fun _ => .zeroed,
    .createContext (some dev) (answering 20) .zeroed fun _ => .zeroed,
    .registerSeg 1 (some oneSeg) ⟨some 40, true, some 1⟩,
    .registerSeg 1 (some oneSeg) ⟨some 41, true, .none⟩,
    .importSeg (some oneSeg) (some 42),
    .queues 1 (.alloc (some ContextWorld.depth64)
      (ContextWorld.granting 1 ⟨some 1, true, some 4096⟩)),
    .deleteContext (some 0)]

end ProcessWorld

/-- In every state that a process reaches while it deletes each context last, everything it
did was in order, it holds exactly what its contexts, queues and segments account for, each
resource once, and a context without queues keeps no doorbell page; a constructor that
returns NULL changes nothing.  From there it can close everything in order, and then every
resource was given back as often as acquired. -/
theorem dmaCreateContext_run {start final : ProcessWorld} (initial : start.Initial)
    {actions : List ProcessAction}
    (ordered : Conforms ProcessWorld.step ProcessWorld.ClosesLast start actions)
    (ran : run ProcessWorld.step start actions = some final) :
    Along Event.Legal final.history [] ∧ final.ledger.Perm final.entries ∧
    (live final.ledger).Nodup ∧
    (∀ s ∈ final.sessions, s.queues.ledger.Perm s.queues.entries ∧
      (s.queues.queues = [] → s.queues.host.ctx.page = 0)) ∧
    (∀ dev env memory dbPage, final.Grantable (dmaCreateContext env dev).trace →
      ∃ answer next, final.step (.createContext dev env memory dbPage) = some next ∧
        (dmaCreateContext env dev).value = some answer ∧
        next.sessions = (answer.map (Session.opened memory dbPage)).toList ++ final.sessions ∧
        next.ledger = answer.toList.flatMap HeldContext.entries ++ final.ledger) ∧
    (∀ index s cfg env, final.sessions[index]? = some s →
      final.Grantable (dmaRegisterSeg env (some s.held) cfg).trace →
      ∃ answer next, final.step (.registerSeg index cfg env) = some next ∧
        (dmaRegisterSeg env (some s.held) cfg).value = some answer ∧
        next.ledger = answer.toList.flatMap (HeldSeg.entries s.held) ++ final.ledger) ∧
    (∀ cfg calloc, final.Grantable (dmaImportSeg calloc cfg).trace →
      ∃ answer next, final.step (.importSeg cfg calloc) = some next ∧
        (dmaImportSeg calloc cfg).value = some answer ∧
        next.ledger = answer.toList.flatMap HeldSeg.importEntries ++ final.ledger) ∧
    (∀ index s cfg env, final.sessions[index]? = some s → s.queues.Grantable cfg env →
      ∃ answer host next, final.step (.queues index (.alloc cfg env)) = some next ∧
        (s.queues.allocCall cfg env).value = some (answer, host) ∧
        next.ledger.Perm (answer.toList.flatMap s.ofQueue ++ final.ledger)) ∧
    ∃ closing last, run ProcessWorld.step final closing = some last ∧
      Along Event.Legal last.history [] ∧ last.ledger = [] ∧
      ∀ resource, last.history.countP (Event.acquires resource) =
        last.history.countP (Event.releases resource) := by
  have inv : final.Inv :=
    run_invariant_of_conforms ProcessWorld.step
      (fun _ _ _ closesLast held stepped => held.step closesLast stepped)
      ordered initial.inv ran
  refine ⟨inv.legal, inv.owned, inv.sound.distinct, ?_, ?_, ?_, ?_, ?_, ?_⟩
  · intro s member
    have queues := inv.queues s member
    exact ⟨queues.owned, queues.pages_empty⟩
  · intro dev env memory dbPage grantable
    obtain ⟨answer, next, stepped, _, done, sessions, ledger⟩ :=
      inv.create memory dbPage grantable
    exact ⟨answer, next, stepped, done, sessions, ledger⟩
  · intro index s cfg env here grantable
    obtain ⟨inside, rfl⟩ := List.getElem?_eq_some_iff.mp here
    obtain ⟨answer, next, stepped, _, done, _, ledger⟩ := inv.register inside grantable
    exact ⟨answer, next, stepped, done, ledger⟩
  · intro cfg calloc grantable
    obtain ⟨answer, next, stepped, _, done, _, ledger⟩ := inv.importSeg grantable
    exact ⟨answer, next, stepped, done, ledger⟩
  · intro index s cfg env here grantable
    obtain ⟨inside, rfl⟩ := List.getElem?_eq_some_iff.mp here
    exact inv.allocQueue inside grantable
  · obtain ⟨closing, last, closed, kept, empty⟩ := inv.closes
    have nothing := kept.ledger_empty empty
    refine ⟨closing, last, closed, kept.legal, nothing, ?_⟩
    intro resource
    have balance := acquired_eq_released kept.fresh kept.legal resource
    unfold ProcessWorld.ledger at nothing
    rw [nothing] at balance
    exact balance

theorem dmaCreateContext_run_calls :
    ∃ final, run ProcessWorld.step .nothing ProcessWorld.calls = some final ∧
      final.sessions.map (fun s => (s.queues.queues.length, s.segs.length)) = [(1, 1)] ∧
      Along Event.Legal final.history [] ∧
      ∃ closing last, run ProcessWorld.step final closing = some last ∧ last.ledger = [] := by
  have left : (run ProcessWorld.step .nothing ProcessWorld.calls).map
      (fun w => w.sessions.map fun s => (s.queues.queues.length, s.segs.length)) =
        some [(1, 1)] := by decide +kernel
  obtain ⟨final, ran, same⟩ := Option.map_eq_some_iff.mp left
  have initial : ProcessWorld.nothing.Initial := ⟨rfl, rfl, rfl⟩
  have ordered : Conforms ProcessWorld.step ProcessWorld.ClosesLast .nothing
      ProcessWorld.calls := by decide +kernel
  obtain ⟨legal, _, _, _, _, _, _, _, closing, last, closed, _, empty, _⟩ :=
    dmaCreateContext_run initial ordered ran
  exact ⟨final, ran, same, legal, closing, last, closed, empty⟩

end Libcdma
