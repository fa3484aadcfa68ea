/-
Doorbell slots that pass from one completion queue to another.

Creation trusts the slot it is given to read zero.  A fresh page does, polling
and cleaning write only to slots in use, and a page that loses its last doorbell
is unmapped; what remains is a queue that is deleted while another one keeps its
page, and leaves the last index it published in a slot that is now free.
-/

import Libcdma.CompletionPolling
import Libcdma.DoorbellPages

namespace Libcdma

open WordBitmap NodeList Transition WrapCounter

/-- Every slot not in use of the pages on the list reads zero. -/
def FreeClean (host : Host) (nodes live : List Nat) : Prop :=
  ∀ node ∈ nodes, ∀ n, n < (host.dbPage node).numDb.toNat →
    (host.dbPage node).slot n ∉ live → host.memory.word ((host.dbPage node).slot n) = 0

namespace FreeClean

variable {host next : Host} {nodes order live after : List Nat}

theorem mapFresh (clean : FreeClean host nodes live) (buf size : Nat) :
    FreeClean { host with memory := host.memory.mapFresh buf size } nodes live :=
  fun node member n inside free => Memory.mapFresh_word _ _ (clean node member n inside free)

theorem setLive (clean : FreeClean host nodes live) {memory : Memory} {db : Nat}
    (inUse : db ∈ live) (word : ∀ address, address ≠ db →
      memory.word address = host.memory.word address) :
    FreeClean { host with memory := memory } nodes live := by
  intro node member n inside free
  have different : (host.dbPage node).slot n ≠ db := fun same => free (same ▸ inUse)
  exact (word _ different).trans (clean node member n inside free)

theorem remains (clean : FreeClean host nodes live) (kept : Remains host next nodes order)
    (freed : ∀ node ∈ order, ∀ n, n < (host.dbPage node).numDb.toNat →
      (host.dbPage node).slot n ∉ after → (host.dbPage node).slot n ∈ live →
      host.memory.word ((host.dbPage node).slot n) = 0) : FreeClean next order after := by
  intro node member n inside free
  have slot : (next.dbPage node).slot n = (host.dbPage node).slot n := by
    unfold CdmaUDbPage.slot
    rw [kept.buf node member]
  rw [kept.numDb node member] at inside
  rw [slot] at free
  rw [kept.memory, slot]
  by_cases used : (host.dbPage node).slot n ∈ live
  · exact freed node member n inside free used
  · exact clean node (kept.old node member) n inside used

theorem added (clean : FreeClean host nodes live) {node buf : Nat} {bitmap : List UInt64}
    {bitmapCnt : UInt32} (page : AddedDbPage host next node buf bitmap bitmapCnt)
    (fresh : node ∉ nodes) (own : DbPageInv next.ctx.pageSize live (next.dbPage node)) :
    FreeClean next (node :: nodes) live := by
  intro other member n inside free
  rw [page.memory]
  rcases List.mem_cons.mp member with rfl | older
  · have owns := own.owns_slot inside
    have length := own.length_eq
    have place : (next.dbPage other).buf = buf := by rw [page.own]
    rw [page.pageSize] at length
    unfold CdmaUDbPage.owns at owns
    rw [decide_eq_true_eq, place, length] at owns
    exact if_pos owns
  · have different : other ≠ node := by
      rintro rfl
      exact fresh older
    have slot : (next.dbPage other).slot n = (host.dbPage other).slot n := by
      rw [page.others other different]
      rfl
    have numDb : (next.dbPage other).numDb = (host.dbPage other).numDb := by
      rw [page.others other different]
    rw [numDb] at inside
    rw [slot] at free ⊢
    exact Memory.mapFresh_word _ _ (clean other older n inside free)

theorem alloc (clean : FreeClean host nodes live) (pages : Pages host nodes live)
    {env : DbPageEnv} (fresh : env.Fresh host nodes) {fuel db : Nat}
    (allocated : cdmaUAllocSwDb fuel env host = some (some db, next)) :
    ∃ order, order.length ≤ nodes.length + 1 ∧ Pages next order (db :: live) ∧
      FreeClean next order (db :: live) ∧ next.memory.word db = 0 := by
  rcases pages.alloc fresh allocated with
    ⟨impossible, _⟩ |
      ⟨node, picked, order, n, member, origin, before, inside, unused, answer, rfl, pages⟩
  · cases impossible
  · cases answer
    have picks : order.length ≤ nodes.length + 1 ∧ FreeClean picked order live := by
      rcases origin with ⟨rfl, rfl⟩ | ⟨rfl, _, buf, bitmap, bitmapCnt, _, page⟩
      · exact ⟨Nat.le_succ _, clean⟩
      · exact ⟨le_rfl, clean.added page (List.nodup_cons.mp before.distinct).1
          (before.page node member)⟩
    refine ⟨order, picks.1, pages, picks.2.remains ⟨rfl, rfl, le_rfl, fun _ inside => inside,
        fun other _ => picked.setDbPage_field CdmaUDbPage.buf (by rfl) other,
        fun other _ => picked.setDbPage_field CdmaUDbPage.numDb (by rfl) other⟩
      (fun other _ m _ free used => ?_), picks.2 node member n inside unused⟩
    exact absurd (List.mem_cons_of_mem _ used) free

/-- A doorbell given back leaves its slot clean if it reads zero, or if its page
goes with it. -/
theorem give (clean : FreeClean host nodes live) (pages : Pages host nodes live) {db : Nat}
    (inUse : db ∈ live) (leaves : host.memory.word db = 0 ∨ ∀ other ∈ live.erase db,
      dbPageStart host.ctx.pageSize other ≠ dbPageStart host.ctx.pageSize db) {fuel : Nat}
    (enough : nodes.length < fuel)
    (freed : (cdmaUFreeSwDb fuel host db).map Prod.fst = some next) :
    ∃ order, order.length ≤ nodes.length ∧ Pages next order (live.erase db) ∧
      FreeClean next order (live.erase db) := by
  obtain ⟨after, _, order, result, kept, pagesAfter, stays, _⟩ := pages.give inUse enough
  rw [result, Option.map_some, Option.some.injEq] at freed
  subst freed
  obtain ⟨shift, _, bounded, size⟩ := pages.pageSize
  refine ⟨order, kept.fewer, pagesAfter,
    clean.remains kept fun node member n inside free used => ?_⟩
  have same : (host.dbPage node).slot n = db := by
    by_contra different
    exact free ((List.mem_erase_of_ne different).mpr used)
  rcases leaves with zero | alone
  · rw [same]
    exact zero
  · have old := pages.page node (kept.old node member)
    have own := pagesAfter.page node member
    have ownsOld := old.owns_slot inside
    have owns : (after.dbPage node).owns db = true := by
      have buf := kept.buf node member
      have length := own.length_eq
      unfold CdmaUDbPage.owns at ownsOld ⊢
      rw [buf, length, kept.pageSize, ← old.length_eq, ← same]
      exact ownsOld
    obtain ⟨other, still, ownsOther⟩ := stays node member owns
    have start := dbPageStart_eq bounded (kept.pageSize ▸ size) own owns
    have startOther := dbPageStart_eq bounded (kept.pageSize ▸ size) own ownsOther
    rw [kept.pageSize] at start startOther
    exact absurd (startOther.trans start.symm) (alone other still)

end FreeClean

theorem cdmaUPollJfcTurn_word (jfc : CdmaUJfc) (memory : Memory) (call : PollCall) :
    (cdmaUPollJfcTurn jfc memory call).jfc.swDb = jfc.swDb ∧
    ∀ address, address ≠ jfc.swDb →
      (cdmaUPollJfcTurn jfc memory call).memory.word address = memory.word address := by
  have exits : ∀ (jfc : CdmaUJfc) (memory : Memory) (call : PollCall) (ret : JfcPollState),
      (cdmaUPollJfcExit jfc memory call ret).jfc.swDb = jfc.swDb ∧
      ∀ address, address ≠ jfc.swDb →
        (cdmaUPollJfcExit jfc memory call ret).memory.word address = memory.word address := by
    intro jfc memory call ret
    refine ⟨congrArg CdmaUJfc.swDb (cdmaUPollJfcExit_frame jfc memory call ret).1,
      fun address different => ?_⟩
    rw [(DoorbellWorld.cdmaUPollJfcExit_word jfc memory call ret).2]
    split
    · rfl
    · exact Function.update_of_ne different _ _
  cases meets : call.upcoming jfc memory with
  | none =>
      rw [cdmaUPollJfcTurn_idle meets]
      exact exits _ _ _ _
  | some cqe =>
      have frame := (cdmaParseCqeForJfc_frame memory cqe (call.cr call.npolled)).2.1
      rw [cdmaUPollJfcTurn_meets meets]
      by_cases good : cqe.good = true
      · rw [if_pos good]
        exact ⟨rfl, fun address _ => congrFun frame address⟩
      · rw [if_neg good]
        obtain ⟨same, word⟩ := exits (jfc.setCi (jfc.cq.ci + 1))
          (cdmaParseCqeForJfc memory cqe (call.cr call.npolled)).memory _ _
        exact ⟨same, fun address different =>
          (word address different).trans (congrFun frame address)⟩

theorem Pages.setMemory {host : Host} {nodes live : List Nat} (pages : Pages host nodes live)
    (memory : Memory) : Pages { host with memory := memory } nodes live :=
  ⟨pages.pageSize, pages.linked, pages.distinct, pages.page, pages.apart, pages.liveDistinct,
    pages.placed⟩

theorem cdmaUAllocJfcBuf_clean {host next : Host} {nodes live : List Nat}
    (clean : FreeClean host nodes live) (pages : Pages host nodes live) {env : CreateJfcEnv}
    (fresh : env.dbPage.Fresh host nodes) {fuel : Nat} {cfg : DmaJfcCfg} {jfc : CdmaUJfc}
    {result : Except Errno CdmaUJfc}
    (allocated : cdmaUAllocJfcBuf fuel env host cfg jfc = some (result, next)) :
    match result with
    | .error _ => Pages next nodes live ∧ FreeClean next nodes live
    | .ok made => ∃ order, order.length ≤ nodes.length + 1 ∧ Pages next order (made.swDb :: live) ∧
        FreeClean next order (made.swDb :: live) ∧ next.memory.word made.swDb = 0 := by
  unfold cdmaUAllocJfcBuf at allocated
  cases buffer : cdmaUAllocQueueBuf env.queueBuf host.memory jfc.cq
      (if cfg.depth < cdmaUMinJfcDepth then cdmaUMinJfcDepth else cfg.depth)
      host.ctx.cqeSize.toUInt32 cdmaHwPageSize false with
  | error err =>
      simp only [buffer, Option.some.injEq, Prod.mk.injEq] at allocated
      obtain ⟨rfl, rfl⟩ := allocated
      exact ⟨pages, clean⟩
  | ok made =>
      obtain ⟨cq, memory⟩ := made
      obtain ⟨buf, size, rfl⟩ : ∃ buf size, memory = host.memory.mapFresh buf size := by
        obtain ⟨_, buf, _, same⟩ := cdmaUAllocQueueBuf_ok buffer
        exact ⟨buf, _, same⟩
      have mapped := pages.setMemory (host.memory.mapFresh buf size)
      have mappedClean := clean.mapFresh buf size
      cases doorbell : cdmaUAllocSwDb fuel env.dbPage
          { host with memory := host.memory.mapFresh buf size } with
      | none =>
          simp only [buffer, doorbell] at allocated
          cases allocated
      | some pair =>
          obtain ⟨answer, after⟩ := pair
          cases answer with
          | none =>
              simp only [buffer, doorbell, Option.some.injEq, Prod.mk.injEq] at allocated
              obtain ⟨rfl, rfl⟩ := allocated
              rcases mapped.alloc fresh doorbell with ⟨_, rfl⟩ | ⟨_, _, _, _, _, _, _, _, _, some, _⟩
              · exact ⟨mapped, mappedClean⟩
              · cases some
          | some swDb =>
              simp only [buffer, doorbell, Option.some.injEq, Prod.mk.injEq] at allocated
              obtain ⟨rfl, rfl⟩ := allocated
              exact mappedClean.alloc mapped fresh doorbell

theorem cdmaCmdCreateJfc_dbAddr {id : Option UInt32} {dev : DmaDevice} {tid : UInt32}
    {jfc : CdmaUJfc} {cfg : DmaJfcCfg} {cmd : CreateJfcCmd}
    (given : (cdmaCmdCreateJfc id dev tid jfc cfg).2 = some cmd) : cmd.dbAddr = jfc.swDb := by
  unfold cdmaCmdCreateJfc at given
  split at given
  · cases given
  · cases given
    rfl

/-- A creation that hands a queue to the kernel hands it a doorbell that reads
zero; one that fails leaves the slot as clean as it was. -/
theorem cdmaUCreateJfc_clean {host : Host} {nodes live : List Nat}
    (clean : FreeClean host nodes live) (pages : Pages host nodes live) {env : CreateJfcEnv}
    (fresh : env.dbPage.Fresh host nodes) {fuel : Nat} (enough : nodes.length + 1 < fuel)
    {ctx : Option DmaContext} {cfg : Option DmaJfcCfg} {result : CreateJfcResult}
    (created : cdmaUCreateJfc fuel env host ctx cfg = some result) :
    (∃ order, order.length ≤ nodes.length + 1 ∧
      Pages result.host order ((result.jfc.map CdmaUJfc.swDb).toList ++ live) ∧
      FreeClean result.host order ((result.jfc.map CdmaUJfc.swDb).toList ++ live)) ∧
    ∀ cmd memory, result.received = some (cmd, memory) → memory.word cmd.dbAddr = 0 := by
  have nothing : ∀ {after : Host}, Pages after nodes live → FreeClean after nodes live →
      result = ⟨none, after, none⟩ →
      (∃ order, order.length ≤ nodes.length + 1 ∧
        Pages result.host order ((result.jfc.map CdmaUJfc.swDb).toList ++ live) ∧
        FreeClean result.host order ((result.jfc.map CdmaUJfc.swDb).toList ++ live)) ∧
      ∀ cmd memory, result.received = some (cmd, memory) → memory.word cmd.dbAddr = 0 := by
    rintro after pages clean rfl
    exact ⟨⟨nodes, Nat.le_succ _, pages, clean⟩, fun _ _ impossible => by cases impossible⟩
  unfold cdmaUCreateJfc at created
  split at created
  · rename_i dev tid cfg _
    split at created
    · exact nothing pages clean (Option.some.inj created).symm
    · cases buffers : cdmaUAllocJfcBuf fuel env host cfg .zeroed with
      | none =>
          simp only [buffers] at created
          cases created
      | some pair =>
          obtain ⟨made, next⟩ := pair
          have allocated := cdmaUAllocJfcBuf_clean clean pages fresh buffers
          cases made with
          | error err =>
              simp only [buffers] at created
              exact nothing allocated.1 allocated.2 (Option.some.inj created).symm
          | ok jfc =>
              obtain ⟨order, bounded, after, afterClean, zero⟩ := allocated
              simp only [buffers] at created
              have handed : ∀ cmd memory,
                  ((cdmaCmdCreateJfc env.id dev tid jfc cfg).2.map
                    fun cmd => (cmd, next.memory)) = some (cmd, memory) →
                  memory.word cmd.dbAddr = 0 := by
                intro cmd memory received
                rw [Option.map_eq_some_iff] at received
                obtain ⟨given, isGiven, same⟩ := received
                cases same
                rw [cdmaCmdCreateJfc_dbAddr isGiven]
                exact zero
              split at created
              · rw [Option.map_eq_some_iff] at created
                obtain ⟨freed, unmade, rfl⟩ := created
                obtain ⟨rest, fewer, left, leftClean⟩ := afterClean.give after
                  List.mem_cons_self (.inl zero) (by omega) unmade
                rw [List.erase_cons_head] at left leftClean
                exact ⟨⟨rest, by omega, left, leftClean⟩, handed⟩
              · cases created
                exact ⟨⟨order, bounded, after, afterClean⟩, handed⟩
  · exact nothing pages clean (Option.some.inj created).symm

/-! ### Runs -/

structure JfcUser where
  jfc : CdmaUJfc
  call : Option PollCall

structure JfcWorld where
  host : Host
  nodes : List Nat
  jfcs : List JfcUser
  /-- the doorbell words of all queues handed to the kernel, each as it read then -/
  received : List UInt32

inductive JfcAction where
  | create (env : CreateJfcEnv) (ctx : Option DmaContext) (cfg : Option DmaJfcCfg)
  | outside (cqe : Nat → CdmaUJfcCqe) (queue : UInt64 → CdmaUJettyQueue)
  | call (index : Nat) (crCnt : UInt32) (cr : UInt32 → DmaCr)
  | turn (index : Nat)
  | clean (index fuel : Nat) (jettyId : UInt32)
  | delete (index : Nat)

namespace JfcWorld

def live (w : JfcWorld) : List Nat := w.jfcs.map fun user => user.jfc.swDb

def use (w : JfcWorld) (index : Nat) (jfc : CdmaUJfc) (memory : Memory)
    (call : Option PollCall) : JfcWorld :=
  { w with
    host := { w.host with memory := memory }
    jfcs := w.jfcs.set index { jfc := jfc, call := call } }

def relist (w : JfcWorld) (host : Host) (jfcs : List JfcUser) (received : List UInt32) : JfcWorld :=
  { host := host, nodes := walk 0 host.nextPage (w.nodes.length + 1) host.ctx.page
    jfcs := jfcs, received := received }

/-- A queue is cleaned and deleted only when no call is running on it. -/
def step (w : JfcWorld) : JfcAction → Option JfcWorld
  | .create env ctx cfg =>
      if env.dbPage.Fresh w.host w.nodes then
        (cdmaUCreateJfc (w.nodes.length + 2) env w.host ctx cfg).map fun result =>
          w.relist result.host
            ((result.jfc.map fun jfc => { jfc := jfc, call := none }).toList ++ w.jfcs)
            ((result.received.map fun (cmd, memory) => memory.word cmd.dbAddr).toList ++
              w.received)
      else none
  | .outside cqe queue =>
      some { w with host := { w.host with
        memory := { w.host.memory with cqe := cqe, queue := queue } } }
  | .call index crCnt cr =>
      match w.jfcs[index]? with
      | some { jfc, call := none } =>
          some (w.use index jfc w.host.memory (some (.start crCnt cr)))
      | _ => none
  | .turn index =>
      match w.jfcs[index]? with
      | some { jfc, call := some call } =>
          match cdmaUPollJfcTurn jfc w.host.memory call with
          | .again jfc memory call => some (w.use index jfc memory (some call))
          | .exit jfc memory _ _ => some (w.use index jfc memory none)
      | _ => none
  | .clean index fuel jettyId =>
      match w.jfcs[index]? with
      | some { jfc, call := none } =>
          (cdmaUCleanJfc fuel jfc w.host.memory jettyId).map fun (jfc, memory) =>
            w.use index jfc memory none
      | _ => none
  | .delete index =>
      match w.jfcs[index]? with
      | some { jfc, call := none } =>
          (cdmaUDeleteJfc (w.nodes.length + 1) w.host (some jfc)).map fun (_, host) =>
            w.relist host (w.jfcs.eraseIdx index) w.received
      | _ => none

/-- A queue that is deleted while another one's doorbell keeps its page has a
doorbell that reads zero. -/
def LeavesClean (w : JfcWorld) : JfcAction → Prop
  | .delete index => ∀ user ∈ w.jfcs[index]?,
      w.host.memory.word user.jfc.swDb = 0 ∨ ∀ other ∈ w.live.eraseIdx index,
        dbPageStart w.host.ctx.pageSize other ≠ dbPageStart w.host.ctx.pageSize user.jfc.swDb
  | _ => True

instance (w : JfcWorld) (action : JfcAction) : Decidable (w.LeavesClean action) := by
  cases action <;> unfold LeavesClean <;> infer_instance

structure Initial (w : JfcWorld) : Prop where
  pageSize : ∃ shift, 6 ≤ shift ∧ shift < 32 ∧ w.host.ctx.pageSize.toNat = 2 ^ shift
  head : w.host.ctx.page = 0
  nodes : w.nodes = []
  jfcs : w.jfcs = []
  received : w.received = []

structure Inv (w : JfcWorld) : Prop where
  pages : Pages w.host w.nodes w.live
  clean : FreeClean w.host w.nodes w.live
  zero : ∀ word ∈ w.received, word = 0

theorem Initial.inv {w : JfcWorld} (initial : w.Initial) : w.Inv := by
  have live : w.live = [] := by rw [JfcWorld.live, initial.jfcs, List.map_nil]
  have start : DbWorld.Inv
      { host := w.host, nodes := w.nodes, live := w.live, acquired := [], released := [] } :=
    DbWorld.Initial.inv ⟨initial.pageSize, initial.head, initial.nodes, live, rfl, rfl⟩
  refine ⟨start, fun node inside => ?_, fun word inside => ?_⟩
  · rw [initial.nodes] at inside
    cases inside
  · rw [initial.received] at inside
    cases inside

variable {w next : JfcWorld}

theorem use_live {index : Nat} {user : JfcUser} (here : w.jfcs[index]? = some user)
    {jfc : CdmaUJfc} (same : jfc.swDb = user.jfc.swDb) (memory : Memory)
    (call : Option PollCall) : (w.use index jfc memory call).live = w.live := by
  unfold JfcWorld.use JfcWorld.live
  have doorbell : (w.jfcs.map fun user => user.jfc.swDb)[index]? = some user.jfc.swDb := by
    rw [List.getElem?_map, here]
    rfl
  obtain ⟨_, value⟩ := List.getElem?_eq_some_iff.mp doorbell
  rw [List.map_set, same, ← value, List.set_getElem_self]

theorem Inv.use (inv : w.Inv) {index : Nat} {user : JfcUser} (here : w.jfcs[index]? = some user)
    {jfc : CdmaUJfc} (same : jfc.swDb = user.jfc.swDb) {memory : Memory}
    (word : ∀ address, address ≠ user.jfc.swDb →
      memory.word address = w.host.memory.word address) (call : Option PollCall) :
    (w.use index jfc memory call).Inv := by
  have live := use_live here same memory call
  have inUse : user.jfc.swDb ∈ w.live :=
    List.mem_map_of_mem (List.mem_of_getElem? here)
  refine ⟨?_, ?_, inv.zero⟩
  · rw [live]
    exact inv.pages.setMemory memory
  · rw [live]
    exact inv.clean.setLive inUse word

theorem Inv.relist {host : Host} {order : List Nat} {jfcs : List JfcUser}
    {received : List UInt32} (bounded : order.length ≤ w.nodes.length + 1)
    (pages : Pages host order (jfcs.map fun user => user.jfc.swDb))
    (clean : FreeClean host order (jfcs.map fun user => user.jfc.swDb))
    (zero : ∀ word ∈ received, word = 0) : (w.relist host jfcs received).Inv := by
  have listed : walk 0 host.nextPage (w.nodes.length + 1) host.ctx.page = order :=
    walk_eq pages.linked bounded
  unfold JfcWorld.relist
  rw [listed]
  exact ⟨pages, clean, zero⟩

theorem Inv.create (inv : w.Inv) {env : CreateJfcEnv} {ctx : Option DmaContext}
    {cfg : Option DmaJfcCfg} (stepped : w.step (.create env ctx cfg) = some next) : next.Inv := by
  simp only [JfcWorld.step, Option.ite_none_right_eq_some, Option.map_eq_some_iff] at stepped
  obtain ⟨fresh, result, created, rfl⟩ := stepped
  obtain ⟨⟨order, bounded, pages, clean⟩, zero⟩ :=
    cdmaUCreateJfc_clean inv.clean inv.pages fresh (Nat.lt_succ_self _) created
  have live : ((result.jfc.map fun jfc => { jfc := jfc, call := none : JfcUser }).toList ++
      w.jfcs).map (fun user => user.jfc.swDb) =
      (result.jfc.map CdmaUJfc.swDb).toList ++ w.live := by
    cases result.jfc <;> rfl
  refine Inv.relist bounded (live ▸ pages) (live ▸ clean) (fun word member => ?_)
  rcases List.mem_append.mp member with newest | older
  · rw [Option.mem_toList, Option.map_eq_some_iff] at newest
    obtain ⟨⟨cmd, memory⟩, received, rfl⟩ := newest
    exact zero cmd memory received
  · exact inv.zero word older

theorem Inv.delete (inv : w.Inv) {index : Nat} (leaves : w.LeavesClean (.delete index))
    (stepped : w.step (.delete index) = some next) : next.Inv := by
  simp only [JfcWorld.step] at stepped
  split at stepped
  · rename_i jfc here
    simp only [cdmaUDeleteJfc, Option.map_map, Option.map_eq_some_iff] at stepped
    obtain ⟨host, freed, rfl⟩ := stepped
    have doorbell : w.live[index]? = some jfc.swDb := by
      rw [JfcWorld.live, List.getElem?_map, here]
      rfl
    obtain ⟨inside, value⟩ := List.getElem?_eq_some_iff.mp doorbell
    have erased : w.live.erase jfc.swDb = w.live.eraseIdx index := by
      rw [← value]
      exact inv.pages.liveDistinct.erase_getElem index inside
    have remaining : (w.jfcs.eraseIdx index).map (fun user => user.jfc.swDb) =
        w.live.erase jfc.swDb := by
      rw [erased, JfcWorld.live, List.eraseIdx_map]
    have dirty := leaves _ here
    rw [← erased] at dirty
    obtain ⟨order, fewer, pages, clean⟩ := inv.clean.give inv.pages
      (List.mem_of_getElem? doorbell) dirty (Nat.lt_succ_self _) freed
    exact Inv.relist (Nat.le_succ_of_le fewer) (remaining ▸ pages) (remaining ▸ clean) inv.zero
  · cases stepped

theorem Inv.step (inv : w.Inv) {action : JfcAction} (leaves : w.LeavesClean action)
    (stepped : w.step action = some next) : next.Inv := by
  cases action with
  | create env ctx cfg => exact inv.create stepped
  | outside cqe queue =>
      cases stepped
      exact ⟨inv.pages.setMemory _, inv.clean, inv.zero⟩
  | call index crCnt cr =>
      simp only [JfcWorld.step] at stepped
      split at stepped
      · rename_i jfc here
        cases stepped
        exact inv.use here rfl (fun _ _ => rfl) _
      · cases stepped
  | turn index =>
      simp only [JfcWorld.step] at stepped
      split at stepped
      · rename_i jfc call here
        obtain ⟨same, word⟩ := cdmaUPollJfcTurn_word jfc w.host.memory call
        split at stepped
        · rename_i turned
          rw [turned] at same word
          cases stepped
          exact inv.use here same word _
        · rename_i turned
          rw [turned] at same word
          cases stepped
          exact inv.use here same word _
      · cases stepped
  | clean index fuel jettyId =>
      simp only [JfcWorld.step] at stepped
      split at stepped
      · rename_i jfc here
        rw [Option.map_eq_some_iff] at stepped
        obtain ⟨⟨after, memory⟩, done, rfl⟩ := stepped
        rcases cdmaUCleanJfc_word done with ⟨rfl, word⟩ | ⟨same, word⟩
        · exact inv.use here rfl (fun address _ => congrFun word address) _
        · refine inv.use here same (fun address different => ?_) _
          rw [word]
          exact Function.update_of_ne different _ _
      · cases stepped
  | delete index => exact inv.delete leaves stepped

end JfcWorld

/-- Every queue handed to the kernel has a doorbell that reads zero, provided
that no queue leaves a published index behind in a page that stays mapped. -/
theorem cdmaUCreateJfc_doorbell {start final : JfcWorld} (initial : start.Initial)
    {actions : List JfcAction}
    (conforms : Conforms JfcWorld.step JfcWorld.LeavesClean start actions)
    (ran : run JfcWorld.step start actions = some final) : ∀ word ∈ final.received, word = 0 :=
  (run_invariant_of_conforms JfcWorld.step
    (fun _ _ _ leaves held stepped => JfcWorld.Inv.step held leaves stepped)
    conforms initial.inv ran).zero

def JfcWorld.idle : JfcWorld :=
  { host :=
      { ctx := { pageSize := 4096, page := 0, cqeSize := 64, dwqeEnable := 0 }
        memory := CqWorld.minDepth.memory
        dbPage := fun _ => .zeroed }
    nodes := [], jfcs := [], received := [] }

theorem JfcWorld.idle_initial : JfcWorld.idle.Initial :=
  ⟨⟨12, by decide, by decide, rfl⟩, rfl, rfl, rfl, rfl⟩

def JfcAction.createAt (buf : Nat) (dbPage : DbPageEnv) : JfcAction :=
  .create
    { calloc := true, lock := true, queueBuf := { wrid := none, buf := some buf }
      dbPage := dbPage, id := some 0 }
    (some
      { dmaDev := some
          { fd := 3
            devCap := { maxJfcDepth := 64, maxJfsDepth := 64, maxJfsSge := 1, ceqCnt := 1 } }
        tid := 0 })
    (some { depth := 1, ceqn := 0, jfce := some { fd := 4, id := 0 }, queueId := 0 })

/-- The device writes an entry into every slot of every ring. -/
def JfcAction.success : JfcAction :=
  .outside (fun _ => { CdmaUJfcCqe.success with owner := true }) fun _ => .empty

/-- A queue that has published nothing makes room for another one. -/
theorem cdmaUCreateJfc_doorbell_idle :
    ∃ final, run JfcWorld.step .idle
        [.createAt 8192 ⟨some 1, true, some 4096⟩, .createAt 16384 ⟨none, false, none⟩, .success,
          .call 0 1 fun _ => .blank, .turn 0, .turn 0, .delete 1,
          .createAt 24576 ⟨none, false, none⟩] = some final ∧
      final.received.length = 3 ∧ ∀ word ∈ final.received, word = 0 := by
  have runs : (run JfcWorld.step .idle
      [.createAt 8192 ⟨some 1, true, some 4096⟩, .createAt 16384 ⟨none, false, none⟩, .success,
        .call 0 1 fun _ => .blank, .turn 0, .turn 0, .delete 1,
        .createAt 24576 ⟨none, false, none⟩]).isSome := by decide
  obtain ⟨final, ran⟩ := Option.isSome_iff_exists.mp runs
  refine ⟨final, ran, ?_, cdmaUCreateJfc_doorbell JfcWorld.idle_initial (by decide) ran⟩
  cases ran
  rfl

/-- A queue that has published an index leaves it to the next one. -/
theorem cdmaUCreateJfc_inherits_doorbell :
    JfcWorld.idle.Initial ∧
    ∃ final, run JfcWorld.step .idle
        [.createAt 8192 ⟨some 1, true, some 4096⟩, .createAt 16384 ⟨none, false, none⟩, .success,
          .call 1 1 fun _ => .blank, .turn 1, .turn 1, .delete 1,
          .createAt 24576 ⟨none, false, none⟩] = some final ∧
      ¬∀ word ∈ final.received, word = 0 := by
  have inherits : (run JfcWorld.step .idle
      [.createAt 8192 ⟨some 1, true, some 4096⟩, .createAt 16384 ⟨none, false, none⟩, .success,
        .call 1 1 fun _ => .blank, .turn 1, .turn 1, .delete 1,
        .createAt 24576 ⟨none, false, none⟩]).any
      (fun final => final.received == [1, 0, 0]) = true := by decide +kernel
  obtain ⟨final, ran, received⟩ := (Option.any_eq_true ..).mp inherits
  refine ⟨JfcWorld.idle_initial, final, ran, fun zero => ?_⟩
  rw [beq_iff_eq.mp received] at zero
  exact absurd (zero 1 List.mem_cons_self) (by decide)

end Libcdma
