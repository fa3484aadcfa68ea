/-
The list of doorbell pages.

A page is pushed at the front when no page on the list has room, and it is taken
out, wherever it stands, and given back to the system when its last doorbell is.
So the list never carries a page without a doorbell, its links stay consistent both
ways, and whatever the pages hold is given back once.
-/

import Libcdma.DoorbellPages

namespace Libcdma

open WordBitmap NodeList Transition

/-- The list of a context as it should be: the pages from `ctx->page` on, each once,
linked both ways, and each with a doorbell in use. -/
structure DbWorld.WellLinked (w : DbWorld) : Prop where
  linked : Linked 0 w.host.nextPage w.host.prevPage 0 w.host.ctx.page w.nodes
  distinct : w.nodes.Nodup
  front : w.host.ctx.page ≠ 0 → w.host.prevPage w.host.ctx.page = 0
  forth : ∀ node ∈ w.nodes, w.host.nextPage node ≠ 0 →
    w.host.nextPage node ∈ w.nodes ∧ w.host.prevPage (w.host.nextPage node) = node
  back : ∀ node ∈ w.nodes, w.host.prevPage node ≠ 0 →
    w.host.prevPage node ∈ w.nodes ∧ w.host.nextPage (w.host.prevPage node) = node
  occupied : ∀ node ∈ w.nodes, ∃ db ∈ w.live, (w.host.dbPage node).owns db = true

def DbWorld.Full (w : DbWorld) : Prop :=
  ∀ node ∈ w.nodes, ∀ n, n < (w.host.dbPage node).numDb.toNat →
    (w.host.dbPage node).buf + n * 64 ∈ w.live

/-- The pages are in order, and none of them is there for nothing. -/
structure Occupied (host : Host) (nodes live : List Nat) : Prop where
  pages : Pages host nodes live
  occupied : ∀ node ∈ nodes, ∃ db ∈ live, (host.dbPage node).owns db = true

theorem Occupied.wellLinked {w : DbWorld} (inv : Occupied w.host w.nodes w.live) :
    w.WellLinked := by
  have linked := inv.pages.linked
  refine ⟨linked, inv.pages.distinct, linked.prev_first, fun node member some =>
    linked.prev_next member some, fun node member some => ?_, inv.occupied⟩
  rcases linked.next_prev member with ⟨_, back⟩ | before
  · exact absurd back some
  · exact before

section Calls

variable {host next : Host} {nodes live : List Nat} {node : Nat}

theorem Pages.slots_used (pages : Pages host nodes live) (member : node ∈ nodes)
    (full : ¬(host.dbPage node).useCnt < (host.dbPage node).numDb) {n : Nat}
    (inside : n < (host.dbPage node).numDb.toNat) : (host.dbPage node).slot n ∈ live := by
  by_contra unused
  have own := pages.page node member
  have slots : live.filter (host.dbPage node).owns ⊆
      ((List.range (host.dbPage node).numDb.toNat).map (host.dbPage node).slot).erase
        ((host.dbPage node).slot n) := by
    intro db still
    obtain ⟨inUse, owns⟩ := List.mem_filter.mp still
    obtain ⟨other, otherMember, m, within, rfl⟩ := pages.placed db inUse
    cases pages.node_eq_of_owns member otherMember owns
      ((pages.page other otherMember).owns_slot within)
    have different : (host.dbPage node).slot m ≠ (host.dbPage node).slot n := by
      intro same
      rw [same] at inUse
      exact unused inUse
    exact (List.mem_erase_of_ne different).mpr
      (List.mem_map.mpr ⟨m, List.mem_range.mpr within, rfl⟩)
  have count := (List.subperm_of_subset (pages.liveDistinct.filter _) slots).length_le
  rw [List.length_erase_of_mem (List.mem_map.mpr ⟨n, List.mem_range.mpr inside, rfl⟩),
    List.length_map, List.length_range, ← List.countP_eq_length_filter, ← own.useCnt_eq] at count
  rw [UInt32.lt_iff_toNat_lt] at full
  omega

/-- A new page changes no more of the others than the link back from the first one. -/
theorem AddedDbPage.field {buf : Nat} {bitmap : List UInt64} {bitmapCnt : UInt32}
    (added : AddedDbPage host next node buf bitmap bitmapCnt) {α : Type} (read : CdmaUDbPage → α)
    (links : ∀ page prev, read { page with prev := prev } = read page) {other : Nat}
    (different : other ≠ node) : read (next.dbPage other) = read (host.dbPage other) := by
  rw [added.others other different]
  exact links _ _

namespace Occupied

/-- An allocation leaves the list, or adds a page because all the others are full. -/
theorem alloc (inv : Occupied host nodes live) {env : DbPageEnv} (fresh : env.Fresh host nodes)
    {fuel : Nat} {answer : Option Nat}
    (allocated : cdmaUAllocSwDb fuel env host = some (answer, next)) :
    ∃ order, Occupied next order (answer.toList ++ live) ∧
      (∀ node ∈ nodes, (next.dbPage node).blocks = (host.dbPage node).blocks) ∧
      (order = nodes ∧ next.memory = host.memory ∨
        (∃ node, order = node :: nodes) ∧ ∀ node ∈ nodes, ∀ n,
          n < (host.dbPage node).numDb.toNat → (host.dbPage node).slot n ∈ live) := by
  rcases inv.pages.alloc fresh allocated with
    ⟨rfl, rfl⟩ | ⟨node, picked, order, n, member, origin, before, inside, _, rfl, rfl, pages⟩
  · exact ⟨nodes, inv, fun _ _ => rfl, .inl ⟨rfl, rfl⟩⟩
  have field {α : Type} (read : CdmaUDbPage → α)
      (same : read { picked.dbPage node with
        bitmap := remove (picked.dbPage node).bitmap n
        useCnt := (picked.dbPage node).useCnt + 1 } = read (picked.dbPage node)) :=
    picked.setDbPage_field read same
  refine ⟨order, ⟨pages, fun other otherMember => ?_⟩, fun other older => ?_, ?_⟩
  · rw [field CdmaUDbPage.owns rfl]
    by_cases here : other = node
    · rw [here]
      exact ⟨_, List.mem_cons_self, (before.page node member).owns_slot inside⟩
    · rcases origin with ⟨rfl, rfl⟩ | ⟨rfl, _, _, _, _, _, added⟩
      · obtain ⟨db, inUse, owned⟩ := inv.occupied other otherMember
        exact ⟨db, List.mem_cons_of_mem _ inUse, owned⟩
      · rw [added.field CdmaUDbPage.owns (fun _ _ => rfl) here]
        obtain ⟨db, inUse, owned⟩ :=
          inv.occupied other (List.mem_of_ne_of_mem here otherMember)
        exact ⟨db, List.mem_cons_of_mem _ inUse, owned⟩
  · rw [field CdmaUDbPage.blocks rfl]
    rcases origin with ⟨_, rfl⟩ | ⟨rfl, _, _, _, _, _, added⟩
    · rfl
    · refine added.field CdmaUDbPage.blocks (fun _ _ => rfl) ?_
      rintro rfl
      exact (List.nodup_cons.mp pages.distinct).1 older
  · rcases origin with ⟨rfl, rfl⟩ | ⟨rfl, full, _⟩
    · exact .inl ⟨rfl, rfl⟩
    · exact .inr ⟨⟨node, rfl⟩, fun other otherMember m within =>
        inv.pages.slots_used otherMember (full other otherMember) within⟩

/-- The page of a doorbell in use is found, and no other page has it. -/
theorem finds (inv : Occupied host nodes live) {db : Nat} (inUse : db ∈ live) {fuel : Nat}
    (enough : nodes.length < fuel) :
    ∃ node ∈ nodes, (host.dbPage node).owns db = true ∧
      (∀ other ∈ nodes, (host.dbPage other).owns db = true → other = node) ∧
      search 0 host.nextPage (fun other => decide (dbPageStart host.ctx.pageSize db =
        (host.dbPage other).buf)) fuel host.ctx.page = some (some node) := by
  obtain ⟨node, member, n, inside, rfl, found⟩ := inv.pages.owner inUse
  have owns := (inv.pages.page node member).owns_slot inside
  refine ⟨node, member, owns, fun other otherMember otherOwns =>
    inv.pages.node_eq_of_owns otherMember member otherOwns owns, ?_⟩
  rw [search_eq inv.pages.linked _ enough, found]

theorem free (inv : Occupied host nodes live) {db fuel : Nat} (inUse : db ∈ live)
    (enough : nodes.length < fuel) :
    ∃ next released order node, cdmaUFreeSwDb fuel host db = some (next, released) ∧
      Remains host next nodes order ∧ Occupied next order (live.erase db) ∧
      (∀ node ∈ order, (next.dbPage node).blocks = (host.dbPage node).blocks) ∧
      GivenBack host nodes order live released db node := by
  obtain ⟨next, released, order, freed, remains, pages, stays, node, back⟩ :=
    inv.pages.give inUse enough
  have length : ∀ other ∈ order, (next.dbPage other).length = (host.dbPage other).length := by
    intro other member
    rw [(pages.page other member).length_eq,
      (inv.pages.page other (remains.old other member)).length_eq, remains.pageSize]
  refine ⟨next, released, order, node, freed, remains, ⟨pages, fun other member => ?_⟩,
    fun other member => ?_, back⟩
  · by_cases owned : (next.dbPage other).owns db = true
    · exact stays other member owned
    · have same : (next.dbPage other).owns = (host.dbPage other).owns := by
        unfold CdmaUDbPage.owns
        rw [remains.buf other member, length other member]
      obtain ⟨kept, stillUsed, owns⟩ := inv.occupied other (remains.old other member)
      rw [← same] at owns
      have different : kept ≠ db := by
        rintro rfl
        exact owned owns
      exact ⟨kept, (List.mem_erase_of_ne different).mpr stillUsed, owns⟩
  · unfold CdmaUDbPage.blocks
    rw [remains.buf other member, length other member]

end Occupied

end Calls

/-! ### Runs -/

def Host.blocks (host : Host) (nodes : List Nat) : List DbBlock :=
  nodes.flatMap fun node => (host.dbPage node).blocks node

theorem Host.blocks_congr {host next : Host} {nodes : List Nat}
    (same : ∀ node ∈ nodes, (next.dbPage node).blocks = (host.dbPage node).blocks) :
    next.blocks nodes = host.blocks nodes :=
  List.flatMap_congr fun node member => congrFun (same node member) node

theorem Host.blocks_erase (host : Host) {nodes : List Nat} {node : Nat} (member : node ∈ nodes) :
    (host.blocks nodes).Perm ((host.dbPage node).blocks node ++ host.blocks (nodes.erase node)) :=
  (List.perm_cons_erase member).flatMap_right _

namespace DbWorld

variable {w next : DbWorld}

/-- What the pages acquired is held by a page on the list or has been given back,
each piece once. -/
def Accounted (w : DbWorld) : Prop :=
  w.acquired.Perm (w.released ++ w.host.blocks w.nodes)

theorem after_occupied {host : Host} {order live : List Nat} (inv : Occupied host order live)
    (bounded : order.length ≤ w.nodes.length + 1) (released : List DbBlock) :
    (w.after host live released).nodes = order ∧
      Occupied (w.after host live released).host (w.after host live released).nodes
        (w.after host live released).live := by
  have nodes : (w.after host live released).nodes = order := walk_eq inv.pages.linked bounded
  refine ⟨nodes, ?_⟩
  rw [nodes]
  exact inv

theorem after_acquired {host : Host} {order live : List Nat} {released : List DbBlock}
    (nodes : (w.after host live released).nodes = order) :
    (w.after host live released).acquired =
      w.acquired ++ host.blocks (order.filter (· ∉ w.nodes)) := by
  rw [← nodes]
  rfl

theorem filter_old {nodes order : List Nat} (old : ∀ node ∈ order, node ∈ nodes) :
    order.filter (· ∉ nodes) = [] :=
  List.filter_eq_nil_iff.mpr fun node member new =>
    of_decide_eq_true new (old node member)

/-- The pages of an allocation: those of before, or one more in front of them. -/
theorem Accounted.after_alloc (account : w.Accounted) {host : Host} {order live : List Nat}
    (nodes : (w.after host live []).nodes = order) (distinct : order.Nodup)
    (same : ∀ node ∈ w.nodes, (host.dbPage node).blocks = (w.host.dbPage node).blocks)
    (grown : order = w.nodes ∨ ∃ node, order = node :: w.nodes) :
    (w.after host live []).Accounted := by
  have held := Host.blocks_congr same
  have released : (w.after host live []).released = w.released := List.append_nil _
  unfold Accounted at account ⊢
  rw [after_acquired nodes, nodes, released]
  rcases grown with rfl | ⟨node, rfl⟩
  · rw [filter_old fun _ member => member, Host.blocks, List.flatMap_nil, List.append_nil]
    exact held ▸ account
  · have new : node ∉ w.nodes := (List.nodup_cons.mp distinct).1
    have joined : (node :: w.nodes).filter (· ∉ w.nodes) = [node] := by
      have rest := filter_old fun other (member : other ∈ w.nodes) => member
      simp only [List.filter_cons, new, not_false_eq_true, decide_true, if_true, rest]
    have split : host.blocks (node :: w.nodes) = host.blocks [node] ++ w.host.blocks w.nodes := by
      rw [← held]
      exact @List.flatMap_append _ _ [node] w.nodes _
    rw [joined]
    change (w.acquired ++ host.blocks [node]).Perm
      (w.released ++ host.blocks (node :: w.nodes))
    rw [split]
    refine (account.append_right _).trans ?_
    rw [List.append_assoc]
    exact List.perm_append_comm.append_left _

/-- What a doorbell given back releases is what its page held, when the page goes. -/
theorem Accounted.after_free (account : w.Accounted) {host : Host} {order live : List Nat}
    {released : List DbBlock} {db node : Nat}
    (nodes : (w.after host live released).nodes = order)
    (remains : Remains w.host host w.nodes order)
    (same : ∀ node ∈ order, (host.dbPage node).blocks = (w.host.dbPage node).blocks)
    (back : GivenBack w.host w.nodes order w.live released db node) :
    (w.after host live released).Accounted := by
  have held := Host.blocks_congr same
  unfold Accounted at account ⊢
  rw [after_acquired nodes, nodes, filter_old remains.old, Host.blocks, List.flatMap_nil,
    List.append_nil]
  change w.acquired.Perm (w.released ++ released ++ host.blocks order)
  rw [held, List.append_assoc]
  refine account.trans (List.Perm.append_left _ ?_)
  by_cases last : ∀ other ∈ w.live.erase db, (w.host.dbPage node).owns other = false
  · obtain ⟨rfl, rfl⟩ := back.goes last
    exact w.host.blocks_erase back.member
  · push Not at last
    obtain ⟨other, still, owns⟩ := last
    obtain ⟨rfl, rfl⟩ := back.stays other still (Bool.not_eq_false _ ▸ owns)
    exact .refl _

theorem step_alloc (inv : Occupied w.host w.nodes w.live) {env : DbPageEnv}
    (stepped : w.step (.alloc env) = some next) :
    Occupied next.host next.nodes next.live ∧ (w.Accounted → next.Accounted) ∧
      next.released = w.released ∧
      (next.nodes = w.nodes ∧ next.host.memory = w.host.memory ∨
        (∃ node, next.nodes = node :: w.nodes) ∧ w.Full) := by
  simp only [DbWorld.step, Option.ite_none_right_eq_some, Option.map_eq_some_iff] at stepped
  obtain ⟨fresh, ⟨answer, host⟩, allocated, rfl⟩ := stepped
  obtain ⟨order, occupied, same, grown⟩ := inv.alloc fresh allocated
  have shape : order = w.nodes ∨ ∃ node, order = node :: w.nodes := grown.imp And.left And.left
  have bounded : order.length ≤ w.nodes.length + 1 := by
    rcases shape with rfl | ⟨node, rfl⟩
    · exact Nat.le_succ _
    · exact le_rfl
  obtain ⟨nodes, after⟩ := after_occupied occupied bounded []
  refine ⟨after, fun account => ?_, List.append_nil _, ?_⟩
  · exact account.after_alloc nodes occupied.pages.distinct same shape
  · rw [nodes]
    exact grown

theorem step_free (inv : Occupied w.host w.nodes w.live) {db : Nat} (inUse : db ∈ w.live) :
    ∃ next released node, w.step (.free db) = some next ∧
      Occupied next.host next.nodes next.live ∧ (w.Accounted → next.Accounted) ∧
      next.released = w.released ++ released ∧
      GivenBack w.host w.nodes next.nodes w.live released db node := by
  obtain ⟨host, released, order, node, freed, remains, occupied, same, back⟩ :=
    inv.free inUse (Nat.lt_add_one w.nodes.length)
  obtain ⟨nodes, after⟩ := after_occupied occupied (Nat.le_succ_of_le remains.fewer) released
  refine ⟨w.after host (w.live.erase db) released, released, node, ?_, after,
    fun account => ?_, rfl, ?_⟩
  · refine (if_pos inUse).trans ?_
    rw [freed]
    rfl
  · exact account.after_free nodes remains same back
  · rw [nodes]
    exact back

/-- The list is in order, and nothing that its pages acquired is lost. -/
structure Sound (w : DbWorld) : Prop where
  occupied : Occupied w.host w.nodes w.live
  account : w.Accounted

theorem Initial.sound (initial : w.Initial) : w.Sound := by
  have pages := initial.inv
  obtain ⟨_, _, nodes, _, acquired, released⟩ := initial
  constructor
  · refine ⟨pages, fun node member => ?_⟩
    rw [nodes] at member
    exact absurd member List.not_mem_nil
  · unfold Accounted
    rw [nodes, acquired, released]
    exact .refl _

theorem Sound.step (inv : w.Sound) {action : DbAction} (stepped : w.step action = some next) :
    next.Sound := by
  cases action with
  | alloc env =>
      obtain ⟨occupied, account, _⟩ := step_alloc inv.occupied stepped
      exact ⟨occupied, account inv.account⟩
  | free db =>
      have inUse : db ∈ w.live := by
        simp only [DbWorld.step, Option.ite_none_right_eq_some] at stepped
        exact stepped.1
      obtain ⟨after, _, _, result, occupied, account, _⟩ := step_free inv.occupied inUse
      cases stepped.symm.trans result
      exact ⟨occupied, account inv.account⟩

/-- Whatever was allocated and given back before, the list is well formed and
every page on it is needed; what the pages acquired is held by a page on the list or
was given back, once; a page is added only when the others are full; and a doorbell
given back is found in its page, which leaves the list and is given back whole,
mapping, bitmap and node, exactly with its last doorbell. -/
theorem cdmaUFreeSwDb_run {start final : DbWorld} (initial : start.Initial)
    {actions : List DbAction} (ran : run DbWorld.step start actions = some final) :
    final.WellLinked ∧ final.Accounted ∧
    (∀ env next, final.step (.alloc env) = some next → next.released = final.released ∧
      (next.nodes = final.nodes ∧ next.host.memory = final.host.memory ∨
        (∃ node, next.nodes = node :: final.nodes) ∧ final.Full)) ∧
    (∀ db ∈ final.live, ∃ node ∈ final.nodes, (final.host.dbPage node).owns db = true ∧
      (∀ other ∈ final.nodes, (final.host.dbPage other).owns db = true → other = node) ∧
      search 0 final.host.nextPage (fun other => decide
        (dbPageStart final.host.ctx.pageSize db = (final.host.dbPage other).buf))
        (final.nodes.length + 1) final.host.ctx.page = some (some node) ∧
      ∃ next, final.step (.free db) = some next ∧
        if (final.live.erase db).any (final.host.dbPage node).owns then
          next.nodes = final.nodes ∧ next.released = final.released
        else
          next.nodes = final.nodes.erase node ∧
          next.released = final.released ++
            [.mapping (final.host.dbPage node).buf final.host.ctx.pageSize, .bitmap node,
              .node node]) := by
  have inv : final.Sound :=
    run_invariant DbWorld.step (fun _ _ _ held stepped => Sound.step held stepped) initial.sound ran
  refine ⟨inv.occupied.wellLinked, inv.account, fun env next stepped =>
    (step_alloc inv.occupied stepped).2.2, fun db inUse => ?_⟩
  obtain ⟨node, member, owns, unique, found⟩ :=
    inv.occupied.finds inUse (Nat.lt_succ_self final.nodes.length)
  obtain ⟨next, gone, other, stepped, _, _, released, back⟩ := step_free inv.occupied inUse
  cases unique other back.member back.owns
  refine ⟨node, member, owns, unique, found, next, stepped, ?_⟩
  rw [released]
  cases last : (final.live.erase db).any (final.host.dbPage node).owns with
  | true =>
      obtain ⟨kept, still, owned⟩ := List.any_eq_true.mp last
      obtain ⟨nodes, rfl⟩ := back.stays kept still owned
      exact ⟨nodes, List.append_nil _⟩
  | false =>
      obtain ⟨nodes, rfl⟩ := back.goes fun kept still => Bool.eq_false_iff.mpr fun owned =>
        Bool.eq_false_iff.mp last (List.any_eq_true.mpr ⟨kept, still, owned⟩)
      refine ⟨nodes, congrArg (final.released ++ ·) ?_⟩
      rw [CdmaUDbPage.blocks, (inv.occupied.pages.page node member).length_eq]

/-- Three pages of two doorbells, of which the middle one is emptied. -/
def threePages : List DbAction :=
  [.alloc ⟨some 1, true, some 4096⟩, .alloc ⟨none, false, none⟩,
    .alloc ⟨some 2, true, some 8192⟩, .alloc ⟨none, false, none⟩,
    .alloc ⟨some 3, true, some 12288⟩, .free 8192, .free 8256]

theorem cdmaUFreeSwDb_run_threePages :
    ∃ final, run DbWorld.step .twoSlots threePages = some final ∧ final.nodes = [3, 1] ∧
      final.released = [.mapping 8192 128, .bitmap 2, .node 2] ∧ final.WellLinked ∧
      final.Accounted := by
  have runs : (run DbWorld.step .twoSlots threePages).isSome := by decide
  obtain ⟨final, ran⟩ := Option.isSome_iff_exists.mp runs
  have initial : DbWorld.twoSlots.Initial :=
    ⟨⟨7, by decide, by decide, rfl⟩, rfl, rfl, rfl, rfl, rfl⟩
  have shape : (run DbWorld.step .twoSlots threePages).map
      (fun final => (final.nodes, final.released)) =
        some ([3, 1], [.mapping 8192 128, .bitmap 2, .node 2]) := by decide
  rw [ran, Option.map_some, Option.some.injEq, Prod.mk.injEq] at shape
  obtain ⟨linked, account, _⟩ := cdmaUFreeSwDb_run initial ran
  exact ⟨final, ran, shape.1, shape.2, linked, account⟩

end DbWorld

end Libcdma
