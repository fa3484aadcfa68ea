/-
Queues of a context over whole runs of allocations and frees.

Between two calls the queues are used in any way that leaves their completion
rings drained.  Whatever fails in a call, the live resources are those of the
queues handed out and not yet freed, and no call touches the others'.
-/

import Libcdma.Foundation.Transition
import Libcdma.QueueLadders

namespace Libcdma

open Ledger Ladder Transition NodeList

theorem DbPageInv.perm {pageSize : UInt32} {live other : List Nat} {page : CdmaUDbPage}
    (inv : DbPageInv pageSize live page) (same : live.Perm other) :
    DbPageInv pageSize other page := by
  refine ⟨inv.mapped, inv.aligned, inv.below, inv.length_eq, inv.numDb_eq, inv.words, inv.few,
    inv.covered, fun n inside => ?_, inv.useCnt_eq.trans (same.countP_eq _)⟩
  rw [← same.mem_iff]
  exact inv.free_iff n inside

theorem Occupied.perm {host : Host} {nodes live other : List Nat}
    (inv : Occupied host nodes live) (same : live.Perm other) : Occupied host nodes other := by
  obtain ⟨pages, occupied⟩ := inv
  refine ⟨⟨pages.pageSize, pages.linked, pages.distinct,
    fun node member => (pages.page node member).perm same, pages.apart,
    same.nodup_iff.mp pages.liveDistinct, fun db inUse => pages.placed db (same.mem_iff.mpr inUse)⟩,
    fun node member => ?_⟩
  obtain ⟨db, inUse, owns⟩ := occupied node member
  exact ⟨db, same.mem_iff.mp inUse, owns⟩

theorem queueEntries_founded (pageSize : UInt32) {queue : CdmaUQueue}
    (small : queue.handle.toNat < 2 ^ 32) : Founded (queueEntries pageSize queue) := by
  have passed := handle_passed small
  unfold queueEntries queueParts jfsEntries dbEntries HeldQueue.entries jfcResEntries jfcEntries
    jfcBuffers
  cases queue.jfs.db.addr <;> cases queue.jfs.sq.wrid <;> simp [Founded, jfsEntry, passed]

structure Progress where
  cqCi : UInt32
  armSn : UInt32
  sqPi : UInt32
  sqCi : UInt32
  qbufCurr : Nat
  flushFlag : Bool
  wrid : UInt32 → UInt64

def CdmaUQueue.progress (queue : CdmaUQueue) (made : Progress) : CdmaUQueue :=
  let sq := queue.jfs.sq.queue
  { queue with
    jfc := { queue.jfc with cq := { queue.jfc.cq with ci := made.cqCi }, armSn := made.armSn }
    jfs :=
      { queue.jfs with
        sq :=
          { queue.jfs.sq with
            queue :=
              { sq with
                pi := made.sqPi, ci := made.sqCi, qbufCurr := made.qbufCurr
                flushFlag := made.flushFlag, wrid := made.wrid } } } }

/-- A context with its queues, newest first, and all that was done to resources so far. -/
structure ContextWorld where
  ctx : DmaContext
  host : Host
  nodes : List Nat
  queues : List CdmaUQueue
  history : List (Event Resource)

/-- `use` is everything that happens to a queue between two calls. -/
inductive ContextAction where
  | alloc (cfg : Option QueueCfg) (env : QueueEnv)
  | free (index : Option Nat)
  | use (index : Nat) (made : Progress) (memory : Memory)

namespace ContextWorld

def ledger (w : ContextWorld) : List (Entry Resource) := replay w.history []

def entries (w : ContextWorld) : List (Entry Resource) :=
  w.queues.flatMap (queueEntries w.host.ctx.pageSize)

/-- An allocation adds at most one page to the list. -/
def fuel (w : ContextWorld) : Nat := w.nodes.length + 2

/-- The list of pages is read again after each call. -/
def after (w : ContextWorld) (host : Host) (queues : List CdmaUQueue)
    (trace : List (Event Resource)) : ContextWorld :=
  { w with
    host := host
    nodes := walk 0 host.nextPage w.fuel host.ctx.page
    queues := queues
    history := w.history ++ trace }

def allocCall (w : ContextWorld) (cfg : Option QueueCfg) (env : QueueEnv) :
    Call (Option CdmaUQueue × Host) :=
  dmaAllocQueue w.fuel env w.host (some w.ctx) cfg

/-- The environment grants nothing that is in use. -/
def Grantable (w : ContextWorld) (cfg : Option QueueCfg) (env : QueueEnv) : Prop :=
  Along (Event.Fresh Resource.grants) (w.allocCall cfg env).trace w.ledger ∧
    env.jfc.dbPage.Fresh w.host w.nodes

instance (w : ContextWorld) (cfg : Option QueueCfg) (env : QueueEnv) :
    Decidable (w.Grantable cfg env) :=
  inferInstanceAs (Decidable (_ ∧ _))

def step (w : ContextWorld) : ContextAction → Option ContextWorld
  | .alloc cfg env =>
      let call := w.allocCall cfg env
      if w.Grantable cfg env then
        call.value.map fun (queue, host) => w.after host (queue.toList ++ w.queues) call.trace
      else none
  | .free none =>
      let call := dmaFreeQueue w.fuel w.host w.ctx none
      call.value.map fun host => w.after host w.queues call.trace
  | .free (some index) =>
      match w.queues[index]? with
      | none => none
      | some queue =>
          let call := dmaFreeQueue w.fuel w.host w.ctx (some queue)
          call.value.map fun host => w.after host (w.queues.eraseIdx index) call.trace
  | .use index made memory =>
      let queues := w.queues.modify index fun queue => queue.progress made
      if queues.all fun queue => queue.jfc.Drained memory then
        some { w with host := { w.host with memory := memory }, queues := queues }
      else none

def Initial (w : ContextWorld) : Prop :=
  (∃ shift, 6 ≤ shift ∧ shift < 32 ∧ w.host.ctx.pageSize.toNat = 2 ^ shift) ∧
  w.host.ctx.page = 0 ∧ w.nodes = [] ∧ w.queues = [] ∧ w.history = []

structure Inv (w : ContextWorld) : Prop where
  legal : Along Event.Legal w.history []
  sound : Sound w.ledger
  owned : w.ledger.Perm w.entries
  occupied : Occupied w.host w.nodes (swDbs w.ledger)
  ready : ∀ queue ∈ w.queues, QueueReady w.ctx queue w.host.memory

variable {w next : ContextWorld}

theorem Initial.inv (initial : w.Initial) : w.Inv := by
  obtain ⟨size, head, nodes, queues, history⟩ := initial
  have ledger : w.ledger = [] := by
    unfold ContextWorld.ledger
    rw [history]
    rfl
  have entries : w.entries = [] := by
    unfold ContextWorld.entries
    rw [queues]
    rfl
  refine ⟨?_, ?_, ?_, ?_, fun queue member => ?_⟩
  · rw [history]
    trivial
  · rw [ledger]
    trivial
  · rw [ledger, entries]
  · rw [nodes, ledger]
    exact ⟨.empty head size, fun _ inside => absurd inside List.not_mem_nil⟩
  · rw [queues] at member
    exact absurd member List.not_mem_nil

theorem after_ledger (host : Host) (queues : List CdmaUQueue) (trace : List (Event Resource)) :
    (w.after host queues trace).ledger = replay trace w.ledger :=
  replay_append w.history trace []

theorem Inv.after (inv : w.Inv) {host : Host} {queues : List CdmaUQueue}
    {trace : List (Event Resource)} (fresh : Along (Event.Fresh Resource.grants) trace w.ledger)
    (legal : Along Event.Legal trace w.ledger)
    (owned : (replay trace w.ledger).Perm (queues.flatMap (queueEntries host.ctx.pageSize)))
    {dbs : List Nat} (same : dbs.Perm (swDbs (replay trace w.ledger)))
    (stock : ∃ order, order.length < w.fuel ∧ Occupied host order dbs)
    (ready : ∀ queue ∈ queues, QueueReady w.ctx queue host.memory) :
    (w.after host queues trace).Inv := by
  obtain ⟨order, short, occupied⟩ := stock
  have nodes : (w.after host queues trace).nodes = order :=
    walk_eq occupied.pages.linked (Nat.le_of_lt short)
  refine ⟨(along_append ..).mpr ⟨inv.legal, legal⟩, ?_, ?_, ?_, ready⟩
  · rw [after_ledger]
    exact inv.sound.replay fresh legal
  · rw [after_ledger]
    exact owned
  · rw [after_ledger, nodes]
    exact occupied.perm same

theorem Inv.ring_mem (inv : w.Inv) {queue : CdmaUQueue} (member : queue ∈ w.queues) :
    .mapping queue.jfc.cq.qbuf queue.jfc.cq.qbufSize.toNat ∈ live w.ledger := by
  have listed : ⟨.mapping queue.jfc.cq.qbuf queue.jfc.cq.qbufSize.toNat, []⟩ ∈
      queueEntries w.host.ctx.pageSize queue := by
    simp [queueEntries, queueParts, jfcResEntries, jfcEntries, jfcBuffers]
  exact List.mem_map.mpr
    ⟨_, inv.owned.mem_iff.mpr (List.mem_flatMap.mpr ⟨queue, member, listed⟩), rfl⟩

theorem Inv.ready_undisturbed (inv : w.Inv) {memory : Memory}
    (kept : Undisturbed (live w.ledger) w.host.memory memory) {queue : CdmaUQueue}
    (member : queue ∈ w.queues) : QueueReady w.ctx queue memory := by
  obtain ⟨opened, small, valid, ⟨notNull, inside, drained⟩, jfs⟩ := inv.ready queue member
  exact ⟨opened, small, valid,
    ⟨notNull, inside, drained.undisturbed inside kept (inv.ring_mem member)⟩, jfs⟩

theorem Inv.alloc (inv : w.Inv) {cfg : Option QueueCfg} {env : QueueEnv}
    (grantable : w.Grantable cfg env) :
    ∃ answer next, w.step (.alloc cfg env) = some next ∧ next.Inv ∧
      (w.allocCall cfg env).value = some (answer, next.host) ∧
      next.queues = answer.toList ++ w.queues ∧
      next.ledger = answer.toList.flatMap (queueEntries w.host.ctx.pageSize) ++ w.ledger ∧
      Undisturbed (live w.ledger) w.host.memory next.host.memory := by
  have supply : Supplied w.fuel env.jfc.dbPage w.host w.nodes w.ledger :=
    ⟨inv.occupied, grantable.2, Nat.lt_succ_self _⟩
  have meets : Logged.Meets Resource.grants True w.ledger (w.allocCall cfg env) _ :=
    dmaAllocQueue_meets supply cfg
  obtain ⟨fresh, legal, ⟨answer, host⟩, done, undisturbed, ⟨size, stock⟩, outcome⟩ :=
    meets.outcome inv.sound fun _ => grantable.1
  have stepped : w.step (.alloc cfg env) = some
      (w.after host (answer.toList ++ w.queues) (w.allocCall cfg env).trace) := by
    refine (if_pos grantable).trans ?_
    rw [done]
    rfl
  have owned := inv.owned
  unfold entries at owned
  refine ⟨answer, _, stepped, ?_⟩
  rw [after_ledger]
  rcases outcome with ⟨rfl, same⟩ | ⟨queue, rfl, ready, grown⟩
  · refine ⟨inv.after fresh legal ?_ (.refl _) stock fun queue member =>
      inv.ready_undisturbed undisturbed member, done, rfl, same, undisturbed⟩
    rw [same, size]
    exact owned
  · refine ⟨inv.after fresh legal ?_ (.refl _) stock fun other member => ?_, done, rfl, ?_,
      undisturbed⟩
    · rw [grown, size]
      exact owned.append_left _
    · rcases List.mem_cons.mp member with rfl | older
      · exact ready
      · exact inv.ready_undisturbed undisturbed older
    · rw [grown, Option.toList_some, List.flatMap_singleton]

theorem swDbs_perm {ledger other : List (Entry Resource)} (same : ledger.Perm other) :
    (swDbs ledger).Perm (swDbs other) :=
  same.filterMap _

theorem Inv.free (inv : w.Inv) {index : Nat} (inside : index < w.queues.length) :
    ∃ next, w.step (.free (some index)) = some next ∧ next.Inv ∧
      next.host.memory = w.host.memory ∧ next.queues = w.queues.eraseIdx index := by
  have ready := inv.ready _ (List.getElem_mem inside)
  have split : (queueEntries w.host.ctx.pageSize w.queues[index] ++
      (w.queues.eraseIdx index).flatMap (queueEntries w.host.ctx.pageSize)).Perm w.ledger :=
    ((List.getElem_cons_eraseIdx_perm inside).flatMap_right _).trans inv.owned.symm
  have founded : Founded (queueEntries w.host.ctx.pageSize w.queues[index] ++
      (w.queues.eraseIdx index).flatMap (queueEntries w.host.ctx.pageSize)) :=
    (queueEntries_founded _ ready.handle).append (Founded.flatMap fun queue member =>
      queueEntries_founded _ (inv.ready queue (List.mem_of_mem_eraseIdx member)).handle)
  have sound := founded.sound ((split.map _).nodup_iff.mpr inv.sound.distinct)
  have stock : Stocked w.fuel w.host.ctx.pageSize w.host
      (queueEntries w.host.ctx.pageSize w.queues[index] ++
        (w.queues.eraseIdx index).flatMap (queueEntries w.host.ctx.pageSize)) :=
    ⟨rfl, w.nodes, Nat.lt_add_of_pos_right (by decide),
      inv.occupied.perm (swDbs_perm split.symm)⟩
  have meets : Logged.Meets Resource.grants False w.ledger
      (dmaFreeQueue w.fuel w.host w.ctx (some w.queues[index])) _ :=
    .perm split sound (cdmaFreeQueue_meets ready stock)
  obtain ⟨fresh, legal, host, done, _, same, memory, rfl, size, left⟩ :=
    meets.outcome inv.sound False.elim
  have stepped : w.step (.free (some index)) = some (w.after host (w.queues.eraseIdx index)
      (dmaFreeQueue w.fuel w.host w.ctx (some w.queues[index])).trace) := by
    unfold step
    simp only [List.getElem?_eq_getElem inside]
    rw [done]
    rfl
  refine ⟨_, stepped, inv.after fresh legal ?_ (swDbs_perm same) left fun queue member => ?_,
    memory, rfl⟩
  · rw [size]
    exact same.symm
  · rw [memory]
    exact inv.ready queue (List.mem_of_mem_eraseIdx member)

theorem Inv.free_null (inv : w.Inv) :
    ∃ next, w.step (.free none) = some next ∧ next.Inv ∧ next.host = w.host ∧
      next.queues = w.queues ∧ next.ledger = w.ledger := by
  refine ⟨_, rfl, inv.after trivial trivial inv.owned (.refl _)
    ⟨w.nodes, Nat.lt_add_of_pos_right (by decide), inv.occupied⟩ inv.ready, rfl, rfl, ?_⟩
  rw [after_ledger]
  rfl

theorem entries_progress (queues : List CdmaUQueue) (index : Nat) (made : Progress)
    (pageSize : UInt32) :
    (queues.modify index fun queue => queue.progress made).flatMap (queueEntries pageSize) =
      queues.flatMap (queueEntries pageSize) := by
  induction queues generalizing index with
  | nil => cases index <;> rfl
  | cons queue rest ih =>
      cases index with
      | zero => rfl
      | succ index =>
          rw [List.modify_succ_cons, List.flatMap_cons, ih, List.flatMap_cons]

theorem ready_progress {queues : List CdmaUQueue} {ctx : DmaContext} {before after : Memory}
    (ready : ∀ queue ∈ queues, QueueReady ctx queue before) {index : Nat} {made : Progress}
    (drained : ∀ queue ∈ queues.modify index fun queue => queue.progress made,
      queue.jfc.Drained after) :
    ∀ queue ∈ queues.modify index fun queue => queue.progress made,
      QueueReady ctx queue after := by
  intro queue member
  have drainedNow := drained queue member
  obtain ⟨place, bound, rfl⟩ := List.getElem_of_mem member
  have inside : place < queues.length := List.length_modify .. ▸ bound
  obtain ⟨opened, small, valid, ⟨notNull, within, _⟩, jfs⟩ := ready _ (List.getElem_mem inside)
  rw [List.getElem_modify] at drainedNow ⊢
  split at drainedNow
  · rename_i here
    rw [if_pos here]
    exact ⟨opened, small, valid, ⟨notNull, within, drainedNow⟩, jfs⟩
  · rename_i elsewhere
    rw [if_neg elsewhere]
    exact ⟨opened, small, valid, ⟨notNull, within, drainedNow⟩, jfs⟩

theorem Inv.use (inv : w.Inv) {index : Nat} {made : Progress} {memory : Memory}
    (stepped : w.step (.use index made memory) = some next) : next.Inv := by
  simp only [ContextWorld.step, Option.ite_none_right_eq_some, Option.some.injEq, List.all_eq_true,
    decide_eq_true_eq] at stepped
  obtain ⟨drained, rfl⟩ := stepped
  refine ⟨inv.legal, inv.sound, ?_, inv.occupied.setMemory memory, ready_progress inv.ready drained⟩
  have owned := inv.owned
  unfold entries at owned ⊢
  rw [entries_progress]
  exact owned

theorem Inv.step (inv : w.Inv) {action : ContextAction} (stepped : w.step action = some next) :
    next.Inv := by
  cases action with
  | alloc cfg env =>
      have grantable : w.Grantable cfg env := by
        by_contra refused
        simp [ContextWorld.step, refused] at stepped
      obtain ⟨_, _, result, after, _⟩ := inv.alloc grantable
      cases stepped.symm.trans result
      exact after
  | free index =>
      cases index with
      | none =>
          obtain ⟨_, result, after, _⟩ := inv.free_null
          cases stepped.symm.trans result
          exact after
      | some index =>
          have inside : index < w.queues.length := by
            by_contra outside
            simp [ContextWorld.step, outside] at stepped
          obtain ⟨_, result, after, _⟩ := inv.free inside
          cases stepped.symm.trans result
          exact after
  | use index made memory => exact inv.use stepped

theorem swDbs_entries (pageSize : UInt32) (queues : List CdmaUQueue) :
    swDbs (queues.flatMap (queueEntries pageSize)) = queues.map fun queue => queue.jfc.swDb := by
  induction queues with
  | nil => rfl
  | cons queue rest ih =>
      rw [List.flatMap_cons, List.map_cons, ← ih]
      unfold queueEntries queueParts
      rw [List.append_assoc, List.append_assoc, swDbs_jfsEntries]
      rfl

/-- Whatever failed on the way, no call of a run broke a rule about resources, and the
live ones are those of the queues, down to the pages of their doorbells.  From there
every call returns: an allocation that fails leaves the ledger as it was, no call
disturbs the contents of the other queues, and a queue can always be freed. -/
theorem dmaAllocQueue_run {start final : ContextWorld} (initial : start.Initial)
    {actions : List ContextAction} (ran : run ContextWorld.step start actions = some final) :
    Along Event.Legal final.history [] ∧
    final.ledger.Perm final.entries ∧ (live final.ledger).Nodup ∧
    Occupied final.host final.nodes (final.queues.map fun queue => queue.jfc.swDb) ∧
    (∀ cfg env, final.Grantable cfg env → ∃ answer next,
      final.step (.alloc cfg env) = some next ∧
      (final.allocCall cfg env).value = some (answer, next.host) ∧
      next.queues = answer.toList ++ final.queues ∧
      next.ledger = answer.toList.flatMap (queueEntries final.host.ctx.pageSize) ++ final.ledger ∧
      Undisturbed (live final.ledger) final.host.memory next.host.memory) ∧
    (∀ index, index < final.queues.length → ∃ next,
      final.step (.free (some index)) = some next ∧
      next.queues = final.queues.eraseIdx index ∧ next.ledger.Perm next.entries ∧
      next.host.memory = final.host.memory) ∧
    ∃ next, final.step (.free none) = some next ∧ next.queues = final.queues ∧
      next.ledger = final.ledger ∧ next.host = final.host := by
  have inv : final.Inv := run_invariant ContextWorld.step
    (fun (w : ContextWorld) action next (held : w.Inv) stepped => (held.step stepped : next.Inv))
    initial.inv ran
  have doorbells := inv.occupied.perm (swDbs_perm inv.owned)
  unfold entries at doorbells
  rw [swDbs_entries] at doorbells
  refine ⟨inv.legal, inv.owned, inv.sound.distinct, doorbells, fun cfg env grantable => ?_,
    fun index inside => ?_, ?_⟩
  · obtain ⟨answer, next, stepped, _, rest⟩ := inv.alloc grantable
    exact ⟨answer, next, stepped, rest⟩
  · obtain ⟨next, stepped, after, memory, queues⟩ := inv.free inside
    exact ⟨next, stepped, queues, after.owned, memory⟩
  · obtain ⟨next, stepped, _, host, queues, ledger⟩ := inv.free_null
    exact ⟨next, stepped, queues, ledger, host⟩

def idle : ContextWorld :=
  { ctx := .ofDepth 64
    host :=
      { ctx := { pageSize := 4096, page := 0, cqeSize := 64, dwqeEnable := 0 }
        memory := .zeroed, dbPage := fun _ => .zeroed }
    nodes := [], queues := [], history := [] }

def granting (number : Nat) (dbPage : DbPageEnv) : QueueEnv :=
  let base := number * 0x100000
  let id := UInt32.ofNat number
  { calloc := true
    handle := some id.toUInt64
    jfce := { calloc := true, answer := some { fd := number + 3, id := 0 } }
    jfc :=
      { calloc := true, lock := true, dbPage := dbPage, id := some id
        queueBuf := { wrid := none, buf := { mmap := some base, madvise := true } } }
    ctp := { calloc := true, tpn := some id }
    jfs :=
      { calloc := true, lock := true, id := some id, db := some (base + 0x80000)
        queueBuf :=
          { wrid := some (base + 0x90000, fun _ => 0)
            buf := { mmap := some (base + 0x40000), madvise := true } } } }

def failsLast (env : QueueEnv) : QueueEnv := { env with jfs := { env.jfs with db := none } }

def depth64 : QueueCfg := { queueDepth := 64, userCtx := 0, rmtEid := 0, eventMode := true }

def threeCalls : List ContextAction :=
  [.alloc (some depth64) (granting 1 ⟨some 1, true, some 4096⟩),
    .alloc (some depth64) (failsLast (granting 2 ⟨none, false, none⟩)),
    .alloc (some depth64) (granting 3 ⟨none, false, none⟩), .free (some 1)]

theorem idle_initial : idle.Initial :=
  ⟨⟨12, by decide, by decide, rfl⟩, rfl, rfl, rfl, rfl⟩

theorem dmaAllocQueue_run_threeCalls :
    ∃ final, run ContextWorld.step idle threeCalls = some final ∧
      final.queues.map CdmaUQueue.handle = [3] ∧ Along Event.Legal final.history [] ∧
      final.ledger.Perm final.entries := by
  have runs : (run ContextWorld.step idle threeCalls).isSome := by decide +kernel
  obtain ⟨final, ran⟩ := Option.isSome_iff_exists.mp runs
  have left : (run ContextWorld.step idle threeCalls).map
      (fun w => w.queues.map CdmaUQueue.handle) = some [3] := by decide +kernel
  rw [ran, Option.map_some, Option.some.injEq] at left
  obtain ⟨legal, owned, _⟩ := dmaAllocQueue_run idle_initial ran
  exact ⟨final, ran, left, legal, owned⟩

end ContextWorld

end Libcdma
