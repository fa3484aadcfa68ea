/-
What each constructor of a queue acquires, and that its error paths give back
exactly that.

Every call is described against the ledger it finds: a constructor puts the
resources of what it made on top, or leaves the ledger as it was, and a destructor
takes them off the top again.
-/

import Libcdma.DoorbellList
import Libcdma.DoorbellReuse
import Libcdma.Model.Queue
import Libcdma.QueueGeometry

namespace Libcdma

open Ledger WrapCounter

def Resource.Outside (buf size : Nat) : Resource → Prop
  | .mapping start length => buf + size ≤ start ∨ start + length ≤ buf
  | .swDb db => db < buf ∨ buf + size ≤ db
  | _ => True

def Resource.Valid : Resource → Prop
  | .queue handle => handle.toNat < 2 ^ 32
  | .jfce fd => 0 ≤ fd
  | .mapping buf _ => buf ≠ 0
  | _ => True

def Resource.Apart : Resource → Resource → Prop
  | .mapping buf size, other => other.Outside buf size
  | _, _ => True

instance (buf size : Nat) : DecidablePred (Resource.Outside buf size) := fun resource => by
  cases resource <;> unfold Resource.Outside <;> infer_instance

instance : DecidablePred Resource.Valid := fun resource => by
  cases resource <;> unfold Resource.Valid <;> infer_instance

instance : DecidableRel Resource.Apart := fun resource other => by
  cases resource <;> unfold Resource.Apart <;> infer_instance

/-- Handles of kernel queues fit the 32 bits in which they are passed on, open
descriptors are not negative, no mapping is at NULL, and a new mapping overlaps
neither another one nor a software doorbell. -/
def Resource.grants : Grants Resource := ⟨Resource.Valid, Resource.Apart⟩

instance : DecidablePred Resource.grants.valid := inferInstanceAs (DecidablePred Resource.Valid)

instance : DecidableRel Resource.grants.apart := inferInstanceAs (DecidableRel Resource.Apart)

theorem Resource.outside_of_fresh {ledger : List (Entry Resource)} {buf size : Nat}
    (fresh : Resource.grants.Fresh ledger (.mapping buf size)) :
    buf ≠ 0 ∧ ∀ resource ∈ live ledger, resource.Outside buf size :=
  ⟨fresh.2.1, fresh.2.2⟩

def Resource.Covers : Resource → Nat → Prop
  | .mapping buf size, address => buf ≤ address ∧ address < buf + size
  | .swDb db, address => address = db
  | _, _ => False

structure Undisturbed (held : List Resource) (before after : Memory) : Prop where
  queue : after.queue = before.queue
  inside : ∀ resource ∈ held, ∀ address, resource.Covers address →
    after.byte address = before.byte address ∧ after.cqe address = before.cqe address ∧
      after.word address = before.word address

namespace Undisturbed

variable {held : List Resource} {before between after : Memory}

theorem refl (held : List Resource) (memory : Memory) : Undisturbed held memory memory :=
  ⟨rfl, fun _ _ _ _ => ⟨rfl, rfl, rfl⟩⟩

theorem trans (first : Undisturbed held before between) (second : Undisturbed held between after) :
    Undisturbed held before after := by
  refine ⟨second.queue.trans first.queue, fun resource member address covers => ?_⟩
  obtain ⟨byte, cqe, word⟩ := first.inside resource member address covers
  obtain ⟨byte', cqe', word'⟩ := second.inside resource member address covers
  exact ⟨byte'.trans byte, cqe'.trans cqe, word'.trans word⟩

theorem congr (undisturbed : Undisturbed held before between) (same : after = between) :
    Undisturbed held before after := by
  rw [same]
  exact undisturbed

theorem subset (undisturbed : Undisturbed held before after) {few : List Resource}
    (among : few ⊆ held) : Undisturbed few before after :=
  ⟨undisturbed.queue, fun resource member => undisturbed.inside resource (among member)⟩

theorem mapFresh {buf size : Nat} (memory : Memory)
    (outside : ∀ resource ∈ held, resource.Outside buf size) :
    Undisturbed held memory (memory.mapFresh buf size) := by
  refine ⟨rfl, fun resource member address covers => ?_⟩
  have elsewhere : ¬(buf ≤ address ∧ address < buf + size) := by
    have apart := outside resource member
    cases resource with
    | mapping start length =>
        obtain ⟨first, last⟩ := covers
        simp only [Resource.Outside] at apart
        omega
    | swDb db =>
        cases covers
        simp only [Resource.Outside] at apart
        omega
    | _ => exact covers.elim
  exact ⟨if_neg elsewhere, if_neg elsewhere, if_neg elsewhere⟩

end Undisturbed

def HeldQueue.entries (q : HeldQueue) : List (Entry Resource) :=
  ⟨.mapping q.queue.qbuf q.queue.qbufSize.toNat, []⟩ ::
    (q.wrid.map fun wrid => ⟨.wrid wrid, []⟩).toList

namespace Ladder

variable {trusting : Prop} {ledger : List (Entry Resource)}

theorem cdmaUAllocBuf_meets (env : MapEnv) (memory : Memory) (bufSize : UInt32) :
    Logged.Meets Resource.grants True ledger (cdmaUAllocBuf env memory bufSize) fun result after =>
      (result = none ∧ after = ledger) ∨
      ∃ buf, result = some (buf, memory.mapFresh buf bufSize.toNat) ∧ buf ≠ 0 ∧
        after = ⟨.mapping buf bufSize.toNat, []⟩ :: ledger ∧
        Undisturbed (live ledger) memory (memory.mapFresh buf bufSize.toNat) := by
  unfold cdmaUAllocBuf
  cases env.mmap with
  | none => exact .pure (.inl ⟨rfl, rfl⟩)
  | some buf =>
      refine .granting (fun _ _ member => absurd member List.not_mem_nil) fun fresh => ?_
      obtain ⟨some, outside⟩ := Resource.outside_of_fresh fresh
      cases env.madvise with
      | true => exact .pure (.inr ⟨buf, rfl, some, rfl, .mapFresh memory outside⟩)
      | false => exact .leaving .release_top fun _ => .pure (.inl ⟨rfl, rfl⟩)

structure BufferMade (q : CdmaUJettyQueue) (maxCnt entrySize pageSize : UInt32) (wridEn : Bool)
    (held : HeldQueue) : Prop where
  queue : ∃ wrid, held.queue =
    { cdmaUQueueGeometry q maxCnt entrySize pageSize with
      wrid := wrid, qbuf := held.queue.qbuf, qbufCurr := held.queue.qbuf }
  notNull : held.queue.qbuf ≠ 0
  wrid : held.wrid.isSome = wridEn

theorem cdmaUAllocQueueBuf_meets (env : JettyBufEnv) (memory : Memory) (q : CdmaUJettyQueue)
    (maxCnt entrySize pageSize : UInt32) (wridEn : Bool) :
    Logged.Meets Resource.grants True ledger
      (cdmaUAllocQueueBuf env memory q maxCnt entrySize pageSize wridEn) fun result after =>
      (result = .error .enomem ∧ after = ledger) ∨
      ∃ held mapped, result = .ok (held, mapped) ∧
        mapped = memory.mapFresh held.queue.qbuf held.queue.qbufSize.toNat ∧
        BufferMade q maxCnt entrySize pageSize wridEn held ∧ after = held.entries ++ ledger ∧
        Undisturbed (live ledger) memory mapped := by
  unfold cdmaUAllocQueueBuf
  cases wridEn with
  | false =>
      refine .bind (cdmaUAllocBuf_meets ..) fun result middle allocated => ?_
      rcases allocated with ⟨rfl, rfl⟩ | ⟨buf, rfl, some, rfl, undisturbed⟩
      · exact .pure (.inl ⟨rfl, rfl⟩)
      · exact .pure (.inr ⟨_, _, rfl, rfl, ⟨⟨_, rfl⟩, some, rfl⟩, rfl, undisturbed⟩)
  | true =>
      cases env.wrid with
      | none => exact .pure (.inl ⟨rfl, rfl⟩)
      | some array =>
          obtain ⟨wrid, contents⟩ := array
          refine .granting (fun _ _ member => absurd member List.not_mem_nil) fun fresh => ?_
          refine .bind (cdmaUAllocBuf_meets ..) fun result middle allocated => ?_
          rcases allocated with ⟨rfl, rfl⟩ | ⟨buf, rfl, some, rfl, undisturbed⟩
          · exact .leaving .release_top fun _ => .pure (.inl ⟨rfl, rfl⟩)
          · exact .pure (.inr ⟨_, _, rfl, rfl, ⟨⟨contents, rfl⟩, some, rfl⟩, rfl,
              undisturbed.subset (List.subset_cons_self _ _)⟩)

theorem cdmaUFreeQueueBuf_meets (q : HeldQueue) (notNull : q.queue.qbuf ≠ 0) :
    Logged.Meets Resource.grants trusting (q.entries ++ ledger) (cdmaUFreeQueueBuf q) fun _ after =>
      after = ledger := by
  unfold cdmaUFreeQueueBuf
  rw [if_pos notNull]
  refine .leaving .release_top fun _ => ?_
  cases q.wrid with
  | none => exact .pure rfl
  | some wrid => exact .release_top

/-! ### Doorbells -/

def swDbs (ledger : List (Entry Resource)) : List Nat :=
  ledger.filterMap fun entry =>
    match entry.resource with
    | .swDb db => some db
    | _ => none

theorem mem_swDbs {ledger : List (Entry Resource)} {db : Nat} :
    db ∈ swDbs ledger ↔ Resource.swDb db ∈ live ledger := by
  simp only [swDbs, live, List.mem_filterMap, List.mem_map]
  constructor
  · rintro ⟨entry, member, found⟩
    refine ⟨entry, member, ?_⟩
    cases kind : entry.resource with
    | swDb other =>
        rw [kind, Option.some.injEq] at found
        rw [found]
    | _ => simp [kind] at found
  · rintro ⟨entry, member, same⟩
    exact ⟨entry, member, by rw [same]⟩

/-- The doorbell pages of a context serve the doorbells of the ledger, and a loop
over them ends within this many turns. -/
structure Stocked (fuel : Nat) (pageSize : UInt32) (host : Host) (ledger : List (Entry Resource)) :
    Prop where
  pageSize : host.ctx.pageSize = pageSize
  occupied : ∃ order, order.length < fuel ∧ Occupied host order (swDbs ledger)

structure Supplied (fuel : Nat) (env : DbPageEnv) (host : Host) (nodes : List Nat)
    (ledger : List (Entry Resource)) : Prop where
  occupied : Occupied host nodes (swDbs ledger)
  fresh : env.Fresh host nodes
  enough : nodes.length + 1 < fuel

end Ladder

theorem Occupied.setMemory {host : Host} {nodes live : List Nat} (inv : Occupied host nodes live)
    (memory : Memory) : Occupied { host with memory := memory } nodes live :=
  ⟨inv.pages.setMemory memory, inv.occupied⟩

namespace Ladder

variable {trusting : Prop} {ledger : List (Entry Resource)}

theorem swDbs_buffers (q : HeldQueue) : swDbs (q.entries ++ ledger) = swDbs ledger := by
  unfold HeldQueue.entries
  cases q.wrid <;> rfl

theorem Supplied.buffers {fuel : Nat} {env : DbPageEnv} {host : Host} {nodes : List Nat}
    (supply : Supplied fuel env host nodes ledger) (q : HeldQueue) (memory : Memory) :
    Supplied fuel env { host with memory := memory } nodes (q.entries ++ ledger) := by
  refine ⟨?_, supply.fresh, supply.enough⟩
  rw [swDbs_buffers]
  exact supply.occupied.setMemory memory

theorem Supplied.stocked {fuel : Nat} {env : DbPageEnv} {host : Host} {nodes : List Nat}
    (supply : Supplied fuel env host nodes ledger) :
    Stocked fuel host.ctx.pageSize host ledger :=
  ⟨rfl, nodes, Nat.lt_of_succ_lt supply.enough, supply.occupied⟩

theorem Stocked.congr {fuel : Nat} {pageSize : UInt32} {host : Host}
    {other : List (Entry Resource)} (stock : Stocked fuel pageSize host ledger)
    (same : swDbs other = swDbs ledger) : Stocked fuel pageSize host other := by
  obtain ⟨size, stocked⟩ := stock
  rw [← same] at stocked
  exact ⟨size, stocked⟩

theorem cdmaAddDbPage_meets {env : DbPageEnv} {host : Host}
    (apart : ∀ node ∈ env.node, node ≠ host.ctx.page) :
    Logged.Meets Resource.grants True ledger (cdmaAddDbPage env host) fun result after =>
      after = ledger ∧ Libcdma.cdmaAddDbPage env host = result ∧
        result.2.ctx.pageSize = host.ctx.pageSize ∧
        Undisturbed (live ledger) host.memory result.2.memory := by
  unfold cdmaAddDbPage
  rcases cdmaAddDbPage_cases env host apart with
    failed | ⟨node, buf, bitmap, bitmapCnt, next, answer, mapping, allocated, result, added⟩
  · rw [failed]
    dsimp only
    split
    · exact .pooling fun _ => .pure ⟨rfl, rfl, rfl, .refl _ _⟩
    · exact .pure ⟨rfl, rfl, rfl, .refl _ _⟩
  · have room : env.bitmap = true := by
      by_contra none
      rw [Bool.not_eq_true] at none
      rw [none] at allocated
      cases allocated
    rw [answer, mapping, room, result]
    refine .pooling fun fresh => .pure ⟨rfl, rfl, added.pageSize, ?_⟩
    rw [added.memory]
    exact .mapFresh _ (Resource.outside_of_fresh fresh).2

theorem cdmaUPickDbPage_meets {env : DbPageEnv} {host : Host} {nodes dbs : List Nat} {fuel : Nat}
    (pages : Pages host nodes dbs) (fresh : env.Fresh host nodes) (enough : nodes.length < fuel) :
    Logged.Meets Resource.grants True ledger (cdmaUPickDbPage fuel env host) fun result after =>
      after = ledger ∧ Libcdma.cdmaUPickDbPage fuel env host = some result ∧
        result.2.ctx.pageSize = host.ctx.pageSize ∧
        Undisturbed (live ledger) host.memory result.2.memory := by
  have complete : NodeList.search 0 (fun node => (host.dbPage node).next) _ fuel host.ctx.page = _ :=
    NodeList.search_eq pages.linked
      (fun node => decide ((host.dbPage node).useCnt < (host.dbPage node).numDb)) enough
  unfold cdmaUPickDbPage Libcdma.cdmaUPickDbPage
  simp only [complete]
  cases nodes.find? _ with
  | some node => exact .pure ⟨rfl, rfl, rfl, .refl _ _⟩
  | none =>
      have apart : ∀ node ∈ env.node, node ≠ host.ctx.page := by
        rintro node answer rfl
        obtain ⟨notNull, unused⟩ := fresh.1 _ answer
        exact unused (pages.head_mem notNull)
      refine (cdmaAddDbPage_meets apart).mono ?_
      rintro result _ ⟨rfl, added, kept⟩
      exact ⟨rfl, congrArg some added, kept⟩

theorem cdmaUAllocSwDb_meets {env : DbPageEnv} {host : Host} {nodes : List Nat} {fuel : Nat}
    (supply : Supplied fuel env host nodes ledger) :
    Logged.Meets Resource.grants True ledger (cdmaUAllocSwDb fuel env host) fun result after =>
      Undisturbed (live ledger) host.memory result.2.memory ∧
      Stocked fuel host.ctx.pageSize result.2 after ∧
      (result.1 = none ∧ after = ledger ∨
        ∃ db, result.1 = some db ∧ after = ⟨.swDb db, []⟩ :: ledger) := by
  obtain ⟨inv, fresh, enough⟩ := supply
  unfold cdmaUAllocSwDb
  refine .bind (cdmaUPickDbPage_meets inv.pages fresh (Nat.lt_of_succ_lt enough)) ?_
  rintro ⟨found, picked⟩ after ⟨rfl, pick, pageSize, undisturbed⟩
  have stocked {answer : Option Nat} {next : Host}
      (plain : Libcdma.cdmaUAllocSwDb fuel env host = some (answer, next)) :
      ∃ order, order.length < fuel ∧ Occupied next order (answer.toList ++ swDbs after) := by
    obtain ⟨order, occupied, _, grown⟩ := inv.alloc fresh plain
    refine ⟨order, ?_, occupied⟩
    rcases grown with ⟨rfl, _⟩ | ⟨⟨node, rfl⟩, _⟩
    · exact Nat.lt_of_succ_lt enough
    · exact enough
  cases found with
  | none =>
      have plain : Libcdma.cdmaUAllocSwDb fuel env host = some (none, picked) := by
        unfold Libcdma.cdmaUAllocSwDb
        rw [pick]
      exact .pure ⟨undisturbed, ⟨pageSize, stocked plain⟩, .inl ⟨rfl, rfl⟩⟩
  | some dbPage =>
      dsimp only
      cases used : cdmaBitmapUseIdx (picked.dbPage dbPage).bitmap
          (picked.dbPage dbPage).bitmapCnt (picked.dbPage dbPage).numDb 0 with
      | mk err marked =>
          obtain ⟨npos, bitmap⟩ := marked
          have plain : Libcdma.cdmaUAllocSwDb fuel env host = some
              (some ((picked.dbPage dbPage).buf + (npos * cdmaDbSize).toNat),
                picked.setDbPage dbPage
                  { picked.dbPage dbPage with
                    bitmap := bitmap, useCnt := (picked.dbPage dbPage).useCnt + 1 }) := by
            unfold Libcdma.cdmaUAllocSwDb
            simp only [pick, used]
          obtain ⟨order, short, occupied⟩ := stocked plain
          have absent := (List.nodup_cons.mp occupied.pages.liveDistinct).1
          exact .handing (fun listed => absent (mem_swDbs.mpr listed)) (.pure ⟨undisturbed,
            ⟨pageSize, order, short, occupied⟩, .inr ⟨_, rfl, rfl⟩⟩)

theorem cdmaUFreeSwDb_meets {host : Host} {fuel : Nat} {pageSize : UInt32} {db : Nat}
    (stock : Stocked fuel pageSize host (⟨.swDb db, []⟩ :: ledger)) :
    Logged.Meets Resource.grants trusting (⟨.swDb db, []⟩ :: ledger) (cdmaUFreeSwDb fuel host db)
      fun next after => next.memory = host.memory ∧ after = ledger ∧
        Stocked fuel pageSize next ledger := by
  obtain ⟨size, order, short, occupied⟩ := stock
  have inUse : db ∈ swDbs (⟨.swDb db, []⟩ :: ledger) := List.mem_cons_self
  obtain ⟨node, _, _, _, found⟩ := occupied.finds inUse short
  have complete : NodeList.search 0 (fun node => (host.dbPage node).next) _ fuel host.ctx.page = _ :=
    found
  obtain ⟨next, released, rest, _, freed, remains, given, _⟩ := occupied.free inUse short
  have erased : (swDbs (⟨.swDb db, []⟩ :: ledger)).erase db = swDbs ledger :=
    List.erase_cons_head ..
  rw [erased] at given
  unfold cdmaUFreeSwDb
  simp only [complete]
  refine .leaving .release_top fun _ => .lift (congrArg (Option.map Prod.fst) freed) ⟨remains.memory, rfl, ?_, rest, ?_, given⟩
  · rw [remains.pageSize, size]
  · exact Nat.lt_of_le_of_lt remains.fewer short

end Ladder

/-! ### Rings -/

def CdmaUJettyQueue.Inside (cq : CdmaUJettyQueue) : Prop :=
  ∀ n, cq.qbuf ≤ cdmaUGetBufEntry cq n ∧ cdmaUGetBufEntry cq n < cq.qbuf + cq.qbufSize.toNat

theorem alignPower2_byte {n : UInt32} (byte : n.toNat < 256) :
    ∃ shift, shift ≤ 8 ∧ alignPower2 (roundupPowOfTwo n.toUInt64).toUInt32 = counter shift := by
  by_cases positive : 0 < n.toNat
  · have small : n.toNat ≤ 2 ^ 8 := Nat.le_of_lt byte
    exact ⟨Nat.clog 2 n.toNat, Nat.clog_le_of_le_pow small,
      alignPower2_roundup positive (by omega)⟩
  · have none : n = 0 := UInt32.toNat_inj.mp (Nat.eq_zero_of_not_pos positive)
    rw [none]
    exact ⟨0, Nat.zero_le _, by decide⟩

theorem one_shiftLeft_mod (amount : UInt32) :
    (1 : UInt32) <<< amount = 1 <<< counter (amount.toNat % 32) := by
  rw [← UInt32.toNat_inj, UInt32.toNat_shiftLeft, UInt32.toNat_shiftLeft, toNat_counter]
  congr 2
  omega

theorem align_shift (amount : UInt32) : ∃ bits, bits < 32 ∧
    (align ((1 : UInt32) <<< amount).toUInt64 cdmaHwPageSize.toUInt64).toUInt32 =
      counter (2 ^ max 12 bits) := by
  have bounded : amount.toNat % 32 < 32 := Nat.mod_lt _ (by decide)
  refine ⟨amount.toNat % 32, bounded, ?_⟩
  rw [one_shiftLeft_mod]
  exact align_pow bounded

/-- Whatever wraps in the arithmetic of a buffer, its blocks fill it. -/
theorem cdmaUQueueGeometry_inside (q : CdmaUJettyQueue) (maxCnt : UInt32) {entrySize : UInt32}
    (byte : entrySize.toNat < 256) (buf : Nat) (wrid : UInt32 → UInt64) :
    { cdmaUQueueGeometry q maxCnt entrySize cdmaHwPageSize with
      wrid := wrid, qbuf := buf, qbufCurr := buf }.Inside := by
  obtain ⟨stride, short, strideEq⟩ := alignPower2_byte byte
  let cq : CdmaUJettyQueue := { cdmaUQueueGeometry q maxCnt entrySize cdmaHwPageSize with
    wrid := wrid, qbuf := buf, qbufCurr := buf }
  obtain ⟨bits, few, sizeEq⟩ : ∃ bits, bits < 32 ∧ cq.qbufSize = counter (2 ^ max 12 bits) :=
    align_shift _
  have size : cq.qbufSize.toNat = 2 ^ max 12 bits := by
    rw [sizeEq]
    exact toNat_counter_of_lt (Nat.pow_lt_pow_right Nat.one_lt_two (by omega))
  have geometry : CqGeometry cq (max 12 bits - stride) stride := by
    refine ⟨?_, rfl, strideEq, ?_⟩
    · change cq.qbufSize >>> alignPower2 _ = _
      rw [sizeEq, strideEq]
      exact counter_pow_shiftRight (by omega) (by omega)
    · rw [← Nat.pow_add]
      exact Nat.pow_le_pow_right Nat.two_pos (by omega)
  intro n
  have slot := Nat.mod_lt n.toNat (Nat.two_pow_pos (max 12 bits - stride))
  have strideValue : cq.baseblkShift.toNat = stride := by
    rw [geometry.shift_eq]
    exact toNat_counter_of_lt (by omega)
  have scaled := Nat.mul_lt_mul_of_pos_right slot (Nat.two_pow_pos stride)
  rw [← Nat.pow_add, Nat.sub_add_cancel (by omega)] at scaled
  rw [← counter_toNat n, cdmaUGetBufEntry_counter geometry]
  change buf ≤ buf + _ ∧ buf + _ < buf + cq.qbufSize.toNat
  rw [size, strideValue]
  exact ⟨Nat.le_add_right _ _, Nat.add_lt_add_left scaled _⟩

theorem Ladder.BufferMade.inside {q : CdmaUJettyQueue} {maxCnt entrySize : UInt32}
    {wridEn : Bool} {held : HeldQueue} (byte : entrySize.toNat < 256)
    (made : Ladder.BufferMade q maxCnt entrySize cdmaHwPageSize wridEn held) :
    held.queue.Inside := by
  obtain ⟨wrid, shape⟩ := made.queue
  rw [shape]
  exact cdmaUQueueGeometry_inside q maxCnt byte held.queue.qbuf wrid

theorem Ladder.BufferMade.ci {q : CdmaUJettyQueue} {maxCnt entrySize pageSize : UInt32}
    {wridEn : Bool} {held : HeldQueue}
    (made : Ladder.BufferMade q maxCnt entrySize pageSize wridEn held) :
    held.queue.ci = q.ci := by
  obtain ⟨wrid, shape⟩ := made.queue
  rw [shape]
  rfl

/-- The consumer has caught up with the device. -/
def CdmaUJfc.Drained (jfc : CdmaUJfc) (memory : Memory) : Prop :=
  cdmaUGetNextCqe jfc memory jfc.cq.ci = none

instance (jfc : CdmaUJfc) (memory : Memory) : Decidable (jfc.Drained memory) :=
  inferInstanceAs (Decidable (_ = none))

theorem CdmaUJfc.Drained.undisturbed {jfc : CdmaUJfc} {before after : Memory}
    (drained : jfc.Drained before) (inside : jfc.cq.Inside) {held : List Resource}
    (kept : Undisturbed held before after)
    (member : .mapping jfc.cq.qbuf jfc.cq.qbufSize.toNat ∈ held) : jfc.Drained after := by
  have same := (kept.inside _ member _ (inside jfc.cq.ci)).2.1
  unfold Drained cdmaUGetNextCqe at drained ⊢
  dsimp only at drained ⊢
  rw [same]
  exact drained

theorem CdmaUJfc.drained_fresh (jfc : CdmaUJfc) (inside : jfc.cq.Inside) (fresh : jfc.cq.ci = 0)
    (memory : Memory) :
    jfc.Drained (memory.mapFresh jfc.cq.qbuf jfc.cq.qbufSize.toNat) := by
  have zeroed : (memory.mapFresh jfc.cq.qbuf jfc.cq.qbufSize.toNat).cqe
      (cdmaUGetBufEntry jfc.cq jfc.cq.ci) = .zeroed := if_pos (inside jfc.cq.ci)
  unfold Drained cdmaUGetNextCqe
  dsimp only
  rw [zeroed, fresh]
  exact if_pos (by simp [CdmaUJfcCqe.zeroed, Bool.toUInt32])

theorem CdmaUJfc.Drained.clean {jfc : CdmaUJfc} {memory : Memory} (drained : jfc.Drained memory)
    (jettyId : UInt32) {fuel : Nat} (some : 0 < fuel) :
    cdmaUCleanJfc fuel jfc memory jettyId = .some (jfc, memory) := by
  obtain ⟨fuel, rfl⟩ := Nat.exists_eq_succ_of_ne_zero (Nat.ne_of_gt some)
  have next : cdmaUGetNextCqe jfc memory jfc.cq.ci = none := drained
  have stops : ¬(jfc.cq.ci - 1).toInt32 - jfc.cq.ci.toInt32 ≥ 0 := by
    have difference : jfc.cq.ci - 1 - jfc.cq.ci = 4294967295 := by grind
    rw [toInt32_sub_nonneg_iff, difference]
    decide
  simp only [cdmaUCleanJfc, cdmaUCleanScan, next, cdmaUCleanLoop, if_neg stops, ne_eq,
    not_true_eq_false, if_false]

namespace Ladder

variable {trusting : Prop} {ledger : List (Entry Resource)} {ctx : DmaContext}

theorem cmdCreate_meets {α : Type} (answer : Option α) {entry : α → Entry Resource}
    (refs : ∀ made, ∀ ref ∈ (entry made).refs, ref ∈ live ledger) :
    Logged.Meets Resource.grants True ledger (cmdCreate ctx answer entry) fun result after =>
      (result = none ∧ after = ledger) ∨ ∃ made, result = some made ∧ ctx.opened = true ∧
        Resource.grants.Fresh ledger (entry made).resource ∧ after = entry made :: ledger := by
  unfold cmdCreate
  cases opened : ctx.opened with
  | false => exact .pure (.inl ⟨rfl, rfl⟩)
  | true =>
      cases answer with
      | none => exact .pure (.inl ⟨rfl, rfl⟩)
      | some made =>
          exact .granting (fun _ => refs made) fun fresh =>
            .pure (.inr ⟨made, rfl, rfl, fresh, rfl⟩)

theorem cmdDelete_meets (opened : ctx.opened = true) {resource : Resource}
    {refs : List Resource} (top : List (Entry Resource))
    (unreferred : ∀ entry ∈ top, resource ∉ entry.refs) :
    Logged.Meets Resource.grants trusting (top ++ ⟨resource, refs⟩ :: ledger) (cmdDelete ctx resource)
      fun _ after => after = top ++ ledger := by
  unfold cmdDelete
  rw [if_pos opened]
  exact .leaving (.release top unreferred) fun _ => .pure rfl

theorem cmdDelete_top (opened : ctx.opened = true) {resource : Resource} {refs : List Resource} :
    Logged.Meets Resource.grants trusting (⟨resource, refs⟩ :: ledger) (cmdDelete ctx resource)
      fun _ after => after = ledger :=
  cmdDelete_meets opened [] fun _ member => absurd member List.not_mem_nil

theorem cdmaCmdDeleteJfc_meets (opened : ctx.opened = true) {id : UInt32} {refs : List Resource} :
    Logged.Meets Resource.grants trusting (⟨.jfc id, refs⟩ :: ledger) (cdmaCmdDeleteJfc ctx id)
      fun _ after => after = ledger :=
  cmdDelete_top opened

/-! ### Completion queues -/

theorem cdmaUCreateJfce_meets (env : JfceEnv) :
    Logged.Meets Resource.grants True ledger (cdmaUCreateJfce env ctx) fun result after =>
      (result = none ∧ after = ledger) ∨ ∃ jfce, result = some jfce ∧ ctx.opened = true ∧
        0 ≤ jfce.fd ∧ after = ⟨.jfce jfce.fd, []⟩ :: ledger := by
  unfold cdmaUCreateJfce
  split
  · refine (cmdCreate_meets env.answer fun _ _ member => absurd member List.not_mem_nil).mono ?_
    rintro result after (failed | ⟨jfce, rfl, opened, fresh, rfl⟩)
    · exact .inl failed
    · exact .inr ⟨jfce, rfl, opened, fresh.2.1, rfl⟩
  · exact .pure (.inl ⟨rfl, rfl⟩)

theorem cdmaUDeleteJfce_meets {jfce : DmaJfce} (valid : 0 ≤ jfce.fd) :
    Logged.Meets Resource.grants trusting (⟨.jfce jfce.fd, []⟩ :: ledger) (cdmaUDeleteJfce (some jfce))
      fun _ after => after = ledger := by
  unfold cdmaUDeleteJfce
  dsimp only
  rw [if_neg (Int.not_lt.mpr valid)]
  exact .leaving .release_top fun _ => .pure rfl

structure JfcReady (jfc : CdmaUJfc) (memory : Memory) : Prop where
  notNull : jfc.cq.qbuf ≠ 0
  inside : jfc.cq.Inside
  drained : jfc.Drained memory

def jfcBuffers (jfc : CdmaUJfc) : List (Entry Resource) :=
  [⟨.swDb jfc.swDb, []⟩, ⟨.mapping jfc.cq.qbuf jfc.cq.qbufSize.toNat, []⟩]

theorem cdmaUAllocJfcBuf_meets {env : JfcEnv} {host : Host} {nodes : List Nat} {fuel : Nat}
    (supply : Supplied fuel env.dbPage host nodes ledger) (cfg : DmaJfcCfg) {jfc : CdmaUJfc}
    (fresh : jfc.cq.ci = 0) :
    Logged.Meets Resource.grants True ledger (cdmaUAllocJfcBuf fuel env host cfg jfc)
      fun result after =>
      Undisturbed (live ledger) host.memory result.2.memory ∧
      Stocked fuel host.ctx.pageSize result.2 after ∧
      ((∃ err, result.1 = .error err) ∧ after = ledger ∨
        ∃ made, result.1 = .ok made ∧ JfcReady made result.2.memory ∧
          after = jfcBuffers made ++ ledger) := by
  unfold cdmaUAllocJfcBuf
  refine .bind (cdmaUAllocQueueBuf_meets ..) fun result middle allocated => ?_
  rcases allocated with ⟨rfl, rfl⟩ | ⟨⟨cq, wrid⟩, mapped, rfl, mapping, made, rfl, kept⟩
  · exact .pure ⟨.refl _ _, supply.stocked, .inl ⟨⟨_, rfl⟩, rfl⟩⟩
  cases wrid with
  | some wrid => cases made.wrid
  | none =>
      refine .bind (cdmaUAllocSwDb_meets (supply.buffers ⟨cq, none⟩ mapped)) ?_
      rintro ⟨answer, next⟩ after ⟨undisturbed, stock, taken⟩
      have among : live ledger ⊆ live (HeldQueue.entries ⟨cq, none⟩ ++ ledger) :=
        List.subset_cons_self _ _
      have whole := kept.trans (undisturbed.subset among)
      rcases taken with ⟨rfl, rfl⟩ | ⟨db, rfl, rfl⟩
      · exact .leaving (cdmaUFreeQueueBuf_meets _ made.notNull) fun _ =>
          .pure ⟨whole, stock.congr (swDbs_buffers _).symm, .inl ⟨⟨_, rfl⟩, rfl⟩⟩
      · have inside : cq.Inside := made.inside (by
          rw [UInt8.toNat_toUInt32]
          exact host.ctx.cqeSize.toNat_lt)
        have empty : cq.ci = 0 := made.ci.trans fresh
        refine .pure ⟨whole, stock, .inr ⟨_, rfl, ⟨made.notNull, inside, ?_⟩, rfl⟩⟩
        have drained := CdmaUJfc.drained_fresh { jfc with cq := cq, swDb := db } inside empty
          host.memory
        rw [← mapping] at drained
        exact drained.undisturbed inside undisturbed List.mem_cons_self

theorem cdmaUFreeJfcBuf_meets {host : Host} {fuel : Nat} {pageSize : UInt32} {jfc : CdmaUJfc}
    (stock : Stocked fuel pageSize host (jfcBuffers jfc ++ ledger)) (notNull : jfc.cq.qbuf ≠ 0) :
    Logged.Meets Resource.grants trusting (jfcBuffers jfc ++ ledger) (cdmaUFreeJfcBuf fuel host jfc)
      fun next after => next.memory = host.memory ∧ after = ledger ∧
        Stocked fuel pageSize next ledger := by
  unfold cdmaUFreeJfcBuf
  refine .bind (cdmaUFreeSwDb_meets stock) ?_
  rintro next _ ⟨memory, rfl, stock⟩
  exact .leaving (cdmaUFreeQueueBuf_meets ⟨jfc.cq, none⟩ notNull) fun _ =>
    .pure ⟨memory, rfl, stock.congr (swDbs_buffers ⟨jfc.cq, none⟩).symm⟩

def jfcEntries (queueId : UInt32) (jfce : DmaJfce) (jfc : CdmaUJfc) : List (Entry Resource) :=
  ⟨.jfc jfc.cq.idx, [.queue queueId.toUInt64, .mapping jfc.cq.qbuf jfc.cq.qbufSize.toNat,
    .swDb jfc.swDb, .jfce jfce.fd]⟩ :: jfcBuffers jfc

theorem cdmaCmdCreateJfc_meets (id : Option UInt32) (dev : DmaDevice) (tid : UInt32)
    (jfc : CdmaUJfc) {cfg : DmaJfcCfg} {jfce : DmaJfce} (tied : cfg.jfce = some jfce)
    (queue : .queue cfg.queueId.toUInt64 ∈ live ledger) (event : .jfce jfce.fd ∈ live ledger) :
    Logged.Meets Resource.grants True (jfcBuffers jfc ++ ledger) (cdmaCmdCreateJfc id dev tid jfc cfg)
      fun result after =>
      (result.1 = none ∧ after = jfcBuffers jfc ++ ledger) ∨ ∃ made, result.1 = some made ∧
        after = jfcEntries cfg.queueId jfce { jfc with cq := { jfc.cq with idx := made } } ++
          ledger := by
  unfold cdmaCmdCreateJfc Libcdma.cdmaCmdCreateJfc
  by_cases closed : dev.fd < 0
  · rw [if_pos closed]
    exact .pure (.inl ⟨rfl, rfl⟩)
  · rw [if_neg closed]
    cases id with
    | none => exact .pure (.inl ⟨rfl, rfl⟩)
    | some made =>
        refine .granting (fun _ ref refers => ?_) fun _ => .pure (.inr ⟨made, rfl, ?_⟩)
        · simp only [jfcRefs, tied, Option.map_some, Option.toList_some, List.cons_append,
            List.nil_append, List.mem_cons, List.not_mem_nil, or_false] at refers
          rcases refers with rfl | rfl | rfl | rfl
          · exact List.mem_cons_of_mem _ (List.mem_cons_of_mem _ queue)
          · exact List.mem_cons_of_mem _ List.mem_cons_self
          · exact List.mem_cons_self
          · exact List.mem_cons_of_mem _ (List.mem_cons_of_mem _ event)
        · simp only [jfcRefs, tied]
          rfl

theorem cdmaUCreateJfc_meets {env : JfcEnv} {host : Host} {nodes : List Nat} {fuel : Nat}
    (supply : Supplied fuel env.dbPage host nodes ledger) {cfg : DmaJfcCfg} {jfce : DmaJfce}
    (tied : cfg.jfce = some jfce) (queue : .queue cfg.queueId.toUInt64 ∈ live ledger)
    (event : .jfce jfce.fd ∈ live ledger) :
    Logged.Meets Resource.grants True ledger (cdmaUCreateJfc fuel env host (some ctx) (some cfg))
      fun made after =>
      Undisturbed (live ledger) host.memory made.host.memory ∧
      Stocked fuel host.ctx.pageSize made.host after ∧
      (made.jfc = none ∧ after = ledger ∨
        ∃ jfc, made.jfc = some jfc ∧ JfcReady jfc made.host.memory ∧
          after = jfcEntries cfg.queueId jfce jfc ++ ledger) := by
  unfold cdmaUCreateJfc
  split
  · rename_i dev tid given _ _ same
    cases same
    split
    · exact .pure ⟨.refl _ _, supply.stocked, .inl ⟨rfl, rfl⟩⟩
    refine .bind (cdmaUAllocJfcBuf_meets supply cfg rfl) ?_
    rintro ⟨result, next⟩ after ⟨undisturbed, stock, made⟩
    rcases made with ⟨⟨err, rfl⟩, rfl⟩ | ⟨jfc, rfl, ready, rfl⟩
    · exact .pure ⟨undisturbed, stock, .inl ⟨rfl, rfl⟩⟩
    refine .bind (cdmaCmdCreateJfc_meets env.id dev tid jfc tied queue event) ?_
    rintro ⟨id, cmd⟩ after (⟨rfl, rfl⟩ | ⟨id, rfl, rfl⟩)
    · refine .bind (cdmaUFreeJfcBuf_meets stock ready.notNull) ?_
      rintro final _ ⟨memory, rfl, left⟩
      exact .pure ⟨undisturbed.congr memory, left, .inl ⟨rfl, rfl⟩⟩
    · exact .pure ⟨undisturbed, stock.congr rfl,
        .inr ⟨_, rfl, ⟨ready.notNull, ready.inside, ready.drained⟩, rfl⟩⟩
  · exact .pure ⟨.refl _ _, supply.stocked, .inl ⟨rfl, rfl⟩⟩

theorem cdmaUDeleteJfc_meets (opened : ctx.opened = true) {host : Host} {fuel : Nat}
    {pageSize queueId : UInt32} {jfce : DmaJfce} {jfc : CdmaUJfc}
    (stock : Stocked fuel pageSize host (jfcEntries queueId jfce jfc ++ ledger))
    (notNull : jfc.cq.qbuf ≠ 0) :
    Logged.Meets Resource.grants trusting (jfcEntries queueId jfce jfc ++ ledger)
      (cdmaUDeleteJfc fuel host ctx (some jfc)) fun result after =>
      result.2.memory = host.memory ∧ after = ledger ∧ Stocked fuel pageSize result.2 ledger := by
  unfold cdmaUDeleteJfc
  refine .leaving (cdmaCmdDeleteJfc_meets opened) fun _ => ?_
  have buffers : Stocked fuel pageSize host (jfcBuffers jfc ++ ledger) := stock.congr rfl
  refine .bind (cdmaUFreeJfcBuf_meets buffers notNull) ?_
  rintro next _ ⟨memory, rfl, left⟩
  exact .pure ⟨memory, rfl, left⟩

def jfcResEntries (queueId : UInt32) (jfce : DmaJfce) (jfc : CdmaUJfc) : List (Entry Resource) :=
  jfcEntries queueId jfce jfc ++ [⟨.jfce jfce.fd, []⟩]

theorem cdmaUFreeJfcRes_meets (opened : ctx.opened = true) {host : Host} {fuel : Nat}
    {pageSize queueId : UInt32} {jfce : DmaJfce} {jfc : CdmaUJfc}
    (stock : Stocked fuel pageSize host (jfcResEntries queueId jfce jfc ++ ledger))
    (notNull : jfc.cq.qbuf ≠ 0) (valid : 0 ≤ jfce.fd) :
    Logged.Meets Resource.grants trusting (jfcResEntries queueId jfce jfc ++ ledger)
      (cdmaUFreeJfcRes fuel host ctx jfc jfce) fun next after =>
      next.memory = host.memory ∧ after = ledger ∧ Stocked fuel pageSize next ledger := by
  unfold cdmaUFreeJfcRes
  unfold jfcResEntries at stock ⊢
  rw [List.append_assoc] at stock ⊢
  refine .bind (cdmaUDeleteJfc_meets opened stock notNull) ?_
  rintro ⟨status, next⟩ _ ⟨memory, rfl, left⟩
  exact .leaving (cdmaUDeleteJfce_meets valid) fun _ => .pure ⟨memory, rfl, left.congr rfl⟩

theorem cdmaUAllocJfcRes_meets {env : QueueEnv} {host : Host} {nodes : List Nat} {fuel : Nat}
    (supply : Supplied fuel env.jfc.dbPage host nodes ledger) (cfg : QueueCfg)
    {jfcCfg : DmaJfcCfg} (queue : .queue jfcCfg.queueId.toUInt64 ∈ live ledger) :
    Logged.Meets Resource.grants True ledger (cdmaUAllocJfcRes fuel env host ctx cfg jfcCfg)
      fun result after =>
      Undisturbed (live ledger) host.memory result.2.memory ∧
      Stocked fuel host.ctx.pageSize result.2 after ∧
      ((∃ err, result.1 = .error err) ∧ after = ledger ∨
        ∃ jfce jfc, result.1 = .ok (jfce, jfc) ∧ ctx.opened = true ∧ 0 ≤ jfce.fd ∧
          JfcReady jfc result.2.memory ∧
          after = jfcResEntries jfcCfg.queueId jfce jfc ++ ledger) := by
  unfold cdmaUAllocJfcRes
  refine .bind (cdmaUCreateJfce_meets env.jfce) fun result middle created => ?_
  rcases created with ⟨rfl, rfl⟩ | ⟨jfce, rfl, opened, valid, rfl⟩
  · exact .pure ⟨.refl _ _, supply.stocked, .inl ⟨⟨_, rfl⟩, rfl⟩⟩
  have supplied : Supplied fuel env.jfc.dbPage host nodes (⟨.jfce jfce.fd, []⟩ :: ledger) :=
    ⟨supply.occupied, supply.fresh, supply.enough⟩
  have tied : { jfcCfg with jfce := some jfce }.jfce = some jfce := rfl
  refine .bind (cdmaUCreateJfc_meets supplied tied (List.mem_cons_of_mem _ queue)
    List.mem_cons_self) fun made after outcome => ?_
  obtain ⟨kept, stock, made⟩ := outcome
  have undisturbed := kept.subset (List.subset_cons_self _ _)
  rcases made with ⟨failed, rfl⟩ | ⟨jfc, created, ready, rfl⟩
  · rw [failed]
    exact .leaving (cdmaUDeleteJfce_meets valid) fun _ =>
      .pure ⟨undisturbed, stock.congr rfl, .inl ⟨⟨_, rfl⟩, rfl⟩⟩
  · rw [created]
    dsimp only
    split
    · refine .bind (cdmaUDeleteJfc_meets opened stock ready.notNull) ?_
      rintro ⟨status, next⟩ _ ⟨memory, rfl, left⟩
      exact .leaving (cdmaUDeleteJfce_meets valid) fun _ =>
        .pure ⟨undisturbed.congr memory, left.congr rfl, .inl ⟨⟨_, rfl⟩, rfl⟩⟩
    · refine .pure ⟨undisturbed, stock, .inr ⟨jfce, jfc, rfl, opened, valid, ready, ?_⟩⟩
      unfold jfcResEntries
      rw [List.append_assoc]
      rfl

/-! ### Send queues -/

def jfsEntry (queueId tpn jfcId id : UInt32) (sq : CdmaUJettyQueue) : Entry Resource :=
  ⟨.jfs id, [.queue queueId.toUInt64, .ctp tpn, .mapping sq.qbuf sq.qbufSize.toNat, .jfc jfcId]⟩

def dbEntries (pageSize : UInt32) (db : CdmaUDoorbell) : List (Entry Resource) :=
  (db.addr.map fun addr => ⟨.dsqe (addr - (cdmaGetDsqeDbOffset pageSize db.id).toNat), []⟩).toList

def jfsEntries (pageSize queueId tpn jfcId : UInt32) (jfs : CdmaUJfs) : List (Entry Resource) :=
  dbEntries pageSize jfs.db ++
    jfsEntry queueId tpn jfcId jfs.sq.queue.idx jfs.sq.queue :: jfs.sq.entries

theorem swDbs_jfsEntries (pageSize queueId tpn jfcId : UInt32) (jfs : CdmaUJfs) :
    swDbs (jfsEntries pageSize queueId tpn jfcId jfs ++ ledger) = swDbs ledger := by
  have buffers : swDbs (jfs.sq.entries ++ ledger) = swDbs ledger := swDbs_buffers jfs.sq
  unfold jfsEntries dbEntries
  cases jfs.db.addr <;> exact buffers

theorem cdmaUCreateSq_meets (lock : Bool) (env : JettyBufEnv) (memory : Memory)
    (sq : CdmaUJettyQueue) (cfg : DmaJfsCfg) :
    Logged.Meets Resource.grants True ledger (cdmaUCreateSq lock env memory sq cfg)
      fun result after =>
      ((∃ err, result = .error err) ∧ after = ledger) ∨
      ∃ held mapped, result = .ok (held, mapped) ∧ held.queue.qbuf ≠ 0 ∧
        after = held.entries ++ ledger ∧ Undisturbed (live ledger) memory mapped := by
  unfold cdmaUCreateSq
  split
  · exact .pure (.inl ⟨⟨_, rfl⟩, rfl⟩)
  refine .bind (cdmaUAllocQueueBuf_meets ..) fun result middle allocated => ?_
  rcases allocated with ⟨rfl, rfl⟩ | ⟨held, mapped, rfl, _, made, rfl, undisturbed⟩
  · exact .pure (.inl ⟨⟨_, rfl⟩, rfl⟩)
  · exact .pure (.inr ⟨held, mapped, rfl, made.notNull, rfl, undisturbed⟩)

theorem cdmaUExecCreateJfsCmd_meets (id : Option UInt32) (dev : DmaDevice) (sq : HeldQueue)
    {cfg : JfsCfg} {jfcId : UInt32} (tied : cfg.jfc = some jfcId)
    (queue : .queue cfg.queueId.toUInt64 ∈ live ledger) (ctp : .ctp cfg.tpn ∈ live ledger)
    (jfc : .jfc jfcId ∈ live ledger) :
    Logged.Meets Resource.grants True (sq.entries ++ ledger)
      (cdmaUExecCreateJfsCmd id dev sq.queue cfg) fun result after =>
      (result = none ∧ after = sq.entries ++ ledger) ∨ ∃ made, result = some made ∧ 0 ≤ dev.fd ∧
        after = jfsEntry cfg.queueId cfg.tpn jfcId made sq.queue :: sq.entries ++ ledger := by
  unfold cdmaUExecCreateJfsCmd Libcdma.cdmaUExecCreateJfsCmd
  by_cases closed : dev.fd < 0 ∨ cfg.jfc.isNone = true
  · rw [if_pos closed]
    exact .pure (.inl ⟨rfl, rfl⟩)
  · rw [if_neg closed]
    cases id with
    | none => exact .pure (.inl ⟨rfl, rfl⟩)
    | some made =>
        refine .granting (fun _ ref refers => ?_) fun _ =>
          .pure (.inr ⟨made, rfl, Int.not_lt.mp (not_or.mp closed).1, ?_⟩)
        · simp only [jfsRefs, tied, Option.map_some, Option.toList_some, List.cons_append,
            List.nil_append, List.mem_cons, List.not_mem_nil, or_false] at refers
          rw [live_append]
          rcases refers with rfl | rfl | rfl | rfl
          · exact List.mem_append_right _ queue
          · exact List.mem_append_right _ ctp
          · exact List.mem_append_left _ List.mem_cons_self
          · exact List.mem_append_right _ jfc
        · simp only [jfsRefs, tied]
          rfl

theorem cdmaUAllocDb_meets (env : Option Nat) (pageSize id : UInt32) :
    Logged.Meets Resource.grants True ledger (cdmaUAllocDb env pageSize id) fun result after =>
      (result = none ∧ after = ledger) ∨ ∃ addr, result = some addr ∧
        after = ⟨.dsqe (addr - (cdmaGetDsqeDbOffset pageSize id).toNat), []⟩ :: ledger := by
  unfold cdmaUAllocDb
  cases env with
  | none => exact .pure (.inl ⟨rfl, rfl⟩)
  | some page =>
      refine .granting (fun _ _ member => absurd member List.not_mem_nil) fun _ =>
        .pure (.inr ⟨_, rfl, ?_⟩)
      rw [Nat.add_sub_cancel]

theorem cdmaUCmdDeleteJfs_meets (opened : ctx.opened = true) {id : UInt32}
    {refs : List Resource} (pageSize : UInt32) (db : CdmaUDoorbell) :
    Logged.Meets Resource.grants trusting (dbEntries pageSize db ++ ⟨.jfs id, refs⟩ :: ledger)
      (cdmaUCmdDeleteJfs ctx id) fun _ after => after = dbEntries pageSize db ++ ledger := by
  refine cmdDelete_meets opened _ fun entry member => ?_
  unfold dbEntries at member
  cases mapped : db.addr with
  | none => simp [mapped] at member
  | some addr =>
      simp only [mapped, Option.map_some, Option.toList_some, List.mem_singleton] at member
      rw [member]
      exact List.not_mem_nil

theorem cdmaUFreeDb_meets (pageSize : UInt32) (db : CdmaUDoorbell) :
    Logged.Meets Resource.grants trusting (dbEntries pageSize db ++ ledger) (cdmaUFreeDb pageSize db)
      fun _ after => after = ledger := by
  unfold cdmaUFreeDb dbEntries
  cases db.addr with
  | none => exact .pure rfl
  | some addr => exact .release_top

theorem cdmaUCreateJfs_meets {env : JfsEnv} {host : Host} {fuel : Nat} {pageSize : UInt32}
    (stock : Stocked fuel pageSize host ledger) {cfg : JfsCfg} {jfcId : UInt32}
    (tied : cfg.jfc = some jfcId) (queue : .queue cfg.queueId.toUInt64 ∈ live ledger)
    (ctp : .ctp cfg.tpn ∈ live ledger) (jfc : .jfc jfcId ∈ live ledger) :
    Logged.Meets Resource.grants True ledger (cdmaUCreateJfs env host (some ctx) (some cfg))
      fun result after =>
      Undisturbed (live ledger) host.memory result.2.memory ∧
      Stocked fuel pageSize result.2 after ∧
      (result.1 = none ∧ after = ledger ∨
        ∃ jfs, result.1 = some jfs ∧ jfs.sq.queue.qbuf ≠ 0 ∧
          after = jfsEntries pageSize cfg.queueId cfg.tpn jfcId jfs ++ ledger) := by
  have mapped (memory : Memory) : Stocked fuel pageSize { host with memory := memory } ledger := by
    obtain ⟨size, order, short, occupied⟩ := stock
    exact ⟨size, order, short, occupied.setMemory memory⟩
  unfold cdmaUCreateJfs
  split
  · rename_i dev tid given context same
    cases context
    cases same
    split
    · exact .pure ⟨.refl _ _, stock, .inl ⟨rfl, rfl⟩⟩
    refine .bind (cdmaUCreateSq_meets ..) fun result middle created => ?_
    rcases created with ⟨⟨err, rfl⟩, rfl⟩ | ⟨sq, memory, rfl, notNull, rfl, undisturbed⟩
    · exact .pure ⟨.refl _ _, stock, .inl ⟨rfl, rfl⟩⟩
    refine .bind (cdmaUExecCreateJfsCmd_meets env.id dev sq tied queue ctp jfc)
      fun result after executed => ?_
    rcases executed with ⟨rfl, rfl⟩ | ⟨id, rfl, opened, rfl⟩
    · exact .leaving (cdmaUFreeQueueBuf_meets sq notNull) fun _ =>
        .pure ⟨undisturbed, mapped memory, .inl ⟨rfl, rfl⟩⟩
    refine .bind (cdmaUAllocDb_meets ..) fun result after allocated => ?_
    rcases allocated with ⟨rfl, rfl⟩ | ⟨addr, rfl, rfl⟩
    · have reached : DmaContext.opened ⟨some dev, tid⟩ = true := decide_eq_true opened
      exact .leaving (cdmaUCmdDeleteJfs_meets reached 0 ⟨id, none⟩) fun _ =>
        .leaving (cdmaUFreeQueueBuf_meets sq notNull) fun _ =>
          .pure ⟨undisturbed, mapped memory, .inl ⟨rfl, rfl⟩⟩
    · have held : Stocked fuel pageSize { host with memory := memory } (sq.entries ++ ledger) :=
        (mapped memory).congr (swDbs_buffers sq)
      refine .pure ⟨undisturbed, held.congr rfl, .inr ⟨_, rfl, notNull, ?_⟩⟩
      rw [← stock.pageSize]
      rfl
  · exact .pure ⟨.refl _ _, stock, .inl ⟨rfl, rfl⟩⟩

theorem cdmaUCleanJfc_meets {fuel : Nat} {jfc : CdmaUJfc} {memory : Memory} (some : 0 < fuel)
    (drained : jfc.Drained memory)
    (mapped : .mapping jfc.cq.qbuf jfc.cq.qbufSize.toNat ∈ live ledger) (jettyId : UInt32) :
    Logged.Meets Resource.grants trusting ledger (cdmaUCleanJfc fuel jfc memory jettyId)
      fun result after => result = (jfc, memory) ∧ after = ledger := by
  unfold cdmaUCleanJfc
  have cleaned : Logged.Meets Resource.grants trusting ledger
      (Logged.lift (Libcdma.cdmaUCleanJfc fuel jfc memory jettyId)) fun result after =>
      result = (jfc, memory) ∧ after = ledger :=
    .lift (drained.clean jettyId some) ⟨rfl, rfl⟩
  refine .leaving (.using mapped) fun _ => .bind cleaned ?_
  rintro _ _ ⟨rfl, rfl⟩
  dsimp only
  rw [if_neg (not_not_intro rfl)]
  exact .pure ⟨rfl, rfl⟩

theorem cdmaUDeleteJfs_meets (opened : ctx.opened = true) {host : Host} {fuel : Nat}
    {queueId tpn jfcId : UInt32} {jfs : CdmaUJfs} {jfc : CdmaUJfc} (some : 0 < fuel)
    (notNull : jfs.sq.queue.qbuf ≠ 0) (drained : jfc.Drained host.memory)
    (mapped : .mapping jfc.cq.qbuf jfc.cq.qbufSize.toNat ∈ live ledger) :
    Logged.Meets Resource.grants trusting
      (jfsEntries host.ctx.pageSize queueId tpn jfcId jfs ++ ledger)
      (cdmaUDeleteJfs fuel host ctx (.some jfs) jfc) fun result after =>
      result.2 = (jfc, host) ∧ after = ledger := by
  unfold cdmaUDeleteJfs jfsEntries
  rw [List.append_assoc]
  refine .leaving (cdmaUCmdDeleteJfs_meets opened _ _) fun _ => ?_
  have stillMapped : .mapping jfc.cq.qbuf jfc.cq.qbufSize.toNat ∈
      live (dbEntries host.ctx.pageSize jfs.db ++ (jfs.sq.entries ++ ledger)) := by
    rw [live_append, live_append]
    exact List.mem_append_right _ (List.mem_append_right _ mapped)
  have finish : Logged.Meets Resource.grants trusting
      (dbEntries host.ctx.pageSize jfs.db ++ (jfs.sq.entries ++ ledger))
      (do
        cdmaUFreeDb host.ctx.pageSize jfs.db
        cdmaUDeleteSq jfs.sq
        pure (none, jfc, host) : Call (Option Errno × CdmaUJfc × Host)) fun result after =>
      result.2 = (jfc, host) ∧ after = ledger :=
    .leaving (cdmaUFreeDb_meets ..) fun _ =>
      .leaving (cdmaUFreeQueueBuf_meets jfs.sq notNull) fun _ => .pure ⟨rfl, rfl⟩
  dsimp only
  split
  · refine .bind (cdmaUCleanJfc_meets some drained stillMapped _) ?_
    rintro _ _ ⟨rfl, rfl⟩
    exact finish
  · exact finish

/-! ### Queues -/

def queueParts (pageSize : UInt32) (queue : CdmaUQueue) : List (Entry Resource) :=
  jfsEntries pageSize queue.handle.toUInt32 queue.tp queue.jfc.cq.idx queue.jfs ++
    ⟨.ctp queue.tp, [.queue queue.handle.toUInt32.toUInt64]⟩ ::
      jfcResEntries queue.handle.toUInt32 queue.jfce queue.jfc

/-- Everything a queue holds, newest first. -/
def queueEntries (pageSize : UInt32) (queue : CdmaUQueue) : List (Entry Resource) :=
  queueParts pageSize queue ++ [⟨.queue queue.handle, []⟩]

structure QueueReady (ctx : DmaContext) (queue : CdmaUQueue) (memory : Memory) : Prop where
  opened : ctx.opened = true
  handle : queue.handle.toNat < 2 ^ 32
  valid : 0 ≤ queue.jfce.fd
  jfc : JfcReady queue.jfc memory
  jfs : queue.jfs.sq.queue.qbuf ≠ 0

theorem cdmaUCreateCtp_meets (env : CtpEnv) {queueId : UInt32}
    (queue : .queue queueId.toUInt64 ∈ live ledger) :
    Logged.Meets Resource.grants True ledger (cdmaUCreateCtp env ctx queueId) fun result after =>
      (result = none ∧ after = ledger) ∨ ∃ tp, result = some tp ∧
        after = ⟨.ctp tp, [.queue queueId.toUInt64]⟩ :: ledger := by
  unfold cdmaUCreateCtp
  split
  · refine (cmdCreate_meets env.tpn fun _ ref refers => ?_).mono ?_
    · rw [List.mem_singleton] at refers
      rw [refers]
      exact queue
    · rintro result after (failed | ⟨tp, rfl, _, _, rfl⟩)
      · exact .inl failed
      · exact .inr ⟨tp, rfl, rfl⟩
  · exact .pure (.inl ⟨rfl, rfl⟩)

theorem cdmaUDeleteCtp_meets (opened : ctx.opened = true) {tp : UInt32} {refs : List Resource} :
    Logged.Meets Resource.grants trusting (⟨.ctp tp, refs⟩ :: ledger) (cdmaUDeleteCtp ctx tp)
      fun _ after => after = ledger :=
  cmdDelete_top opened

theorem cdmaUCreateQueue_meets {env : QueueEnv} {host : Host} {nodes : List Nat} {fuel : Nat}
    (supply : Supplied fuel env.jfc.dbPage host nodes ledger) (cfg : QueueCfg) {handle : UInt64}
    (small : handle.toNat < 2 ^ 32) (queue : .queue handle.toUInt32.toUInt64 ∈ live ledger) :
    Logged.Meets Resource.grants True ledger (cdmaUCreateQueue fuel env host ctx cfg handle)
      fun result after =>
      Undisturbed (live ledger) host.memory result.2.memory ∧
      Stocked fuel host.ctx.pageSize result.2 after ∧
      ((∃ err, result.1 = .error err) ∧ after = ledger ∨
        ∃ queue, result.1 = .ok queue ∧ queue.handle = handle ∧
          QueueReady ctx queue result.2.memory ∧
          after = queueParts host.ctx.pageSize queue ++ ledger) := by
  unfold cdmaUCreateQueue
  cases ctx.dmaDev with
  | none => exact .pure ⟨.refl _ _, supply.stocked, .inl ⟨⟨_, rfl⟩, rfl⟩⟩
  | some dev =>
      refine .bind (cdmaUAllocJfcRes_meets supply cfg queue) ?_
      rintro ⟨result, next⟩ _ ⟨undisturbed, stock, made⟩
      rcases made with ⟨⟨err, rfl⟩, rfl⟩ | ⟨jfce, jfc, rfl, opened, valid, ready, rfl⟩
      · exact .pure ⟨undisturbed, stock, .inl ⟨⟨_, rfl⟩, rfl⟩⟩
      have still : .queue handle.toUInt32.toUInt64 ∈
          live (jfcResEntries handle.toUInt32 jfce jfc ++ ledger) := by
        rw [live_append]
        exact List.mem_append_right _ queue
      refine .bind (cdmaUCreateCtp_meets env.ctp still) fun result middle created => ?_
      rcases created with ⟨rfl, rfl⟩ | ⟨tp, rfl, rfl⟩
      · refine .bind (cdmaUFreeJfcRes_meets opened stock ready.notNull valid) ?_
        rintro final _ ⟨memory, rfl, left⟩
        exact .pure ⟨undisturbed.congr memory, left, .inl ⟨⟨_, rfl⟩, rfl⟩⟩
      have tied : { cdmaAssembleJfsCfg dev cfg handle.toUInt32 with
          jfc := some jfc.cq.idx, tpn := tp }.jfc = some jfc.cq.idx := rfl
      have connected : Stocked fuel host.ctx.pageSize next
          (⟨.ctp tp, [.queue handle.toUInt32.toUInt64]⟩ ::
            (jfcResEntries handle.toUInt32 jfce jfc ++ ledger)) := stock.congr rfl
      refine .bind (cdmaUCreateJfs_meets connected tied (List.mem_cons_of_mem _ still)
        List.mem_cons_self (List.mem_cons_of_mem _ List.mem_cons_self)) ?_
      rintro ⟨result, last⟩ _ ⟨kept, stock, made⟩
      have among : live ledger ⊆ live (⟨.ctp tp, [.queue handle.toUInt32.toUInt64]⟩ ::
          (jfcResEntries handle.toUInt32 jfce jfc ++ ledger)) := by
        rw [live_cons, live_append]
        exact fun resource member => List.mem_cons_of_mem _ (List.mem_append_right _ member)
      have whole := undisturbed.trans (kept.subset among)
      rcases made with ⟨rfl, rfl⟩ | ⟨jfs, rfl, notNull, rfl⟩
      · refine .leaving (cdmaUDeleteCtp_meets opened) fun _ => ?_
        have left : Stocked fuel host.ctx.pageSize last
            (jfcResEntries handle.toUInt32 jfce jfc ++ ledger) := stock.congr rfl
        refine .bind (cdmaUFreeJfcRes_meets opened left ready.notNull valid) ?_
        rintro final _ ⟨memory, rfl, left⟩
        exact .pure ⟨whole.congr memory, left, .inl ⟨⟨_, rfl⟩, rfl⟩⟩
      · have drained := ready.drained.undisturbed ready.inside kept
          (List.mem_cons_of_mem _ (List.mem_cons_of_mem _ (List.mem_cons_of_mem _
            List.mem_cons_self)))
        refine .pure ⟨whole, stock, .inr ⟨_, rfl, rfl, ⟨opened, small, valid,
          ⟨ready.notNull, ready.inside, drained⟩, notNull⟩, ?_⟩⟩
        unfold queueParts
        rw [List.append_assoc]
        rfl

theorem cdmaUDeleteQueue_meets {host : Host} {fuel : Nat} {queue : CdmaUQueue}
    (ready : QueueReady ctx queue host.memory) {pageSize : UInt32}
    (stock : Stocked fuel pageSize host (queueParts pageSize queue ++ ledger)) :
    Logged.Meets Resource.grants trusting (queueParts pageSize queue ++ ledger)
      (cdmaUDeleteQueue fuel host ctx queue) fun next after =>
      next.memory = host.memory ∧ after = ledger ∧ Stocked fuel pageSize next ledger := by
  cases stock.pageSize
  obtain ⟨order, short, _⟩ := stock.occupied
  unfold queueParts at stock ⊢
  rw [List.append_assoc] at stock ⊢
  have below : Stocked fuel host.ctx.pageSize host
      (⟨.ctp queue.tp, [.queue queue.handle.toUInt32.toUInt64]⟩ ::
        (jfcResEntries queue.handle.toUInt32 queue.jfce queue.jfc ++ ledger)) :=
    stock.congr (swDbs_jfsEntries ..).symm
  have gone : Stocked fuel host.ctx.pageSize host
      (jfcResEntries queue.handle.toUInt32 queue.jfce queue.jfc ++ ledger) := below.congr rfl
  unfold cdmaUDeleteQueue
  refine .bind (cdmaUDeleteJfs_meets ready.opened (Nat.zero_lt_of_lt short) ready.jfs
    ready.jfc.drained ?_) ?_
  · exact List.mem_cons_of_mem _ (List.mem_cons_of_mem _ (List.mem_cons_of_mem _
      List.mem_cons_self))
  rintro ⟨err, _, _⟩ _ ⟨same, rfl⟩
  cases same
  exact .leaving (cdmaUDeleteCtp_meets ready.opened) fun _ =>
    cdmaUFreeJfcRes_meets ready.opened gone ready.jfc.notNull ready.valid

theorem handle_passed {handle : UInt64} (small : handle.toNat < 2 ^ 32) :
    handle.toUInt32.toUInt64 = handle := by
  rw [← UInt64.toNat_inj, UInt32.toNat_toUInt64, UInt64.toNat_toUInt32]
  exact Nat.mod_eq_of_lt small

theorem cdmaAllocQueue_meets {env : QueueEnv} {host : Host} {nodes : List Nat} {fuel : Nat}
    (supply : Supplied fuel env.jfc.dbPage host nodes ledger) (cfg : QueueCfg) :
    Logged.Meets Resource.grants True ledger (cdmaAllocQueue fuel env host ctx cfg)
      fun result after =>
      Undisturbed (live ledger) host.memory result.2.memory ∧
      Stocked fuel host.ctx.pageSize result.2 after ∧
      (result.1 = none ∧ after = ledger ∨
        ∃ queue, result.1 = some queue ∧ QueueReady ctx queue result.2.memory ∧
          after = queueEntries host.ctx.pageSize queue ++ ledger) := by
  unfold cdmaAllocQueue
  split
  · exact .pure ⟨.refl _ _, supply.stocked, .inl ⟨rfl, rfl⟩⟩
  have noRefs : ∀ handle : UInt64, ∀ ref ∈ (⟨.queue handle, []⟩ : Entry Resource).refs,
      ref ∈ live ledger := fun _ _ member => absurd member List.not_mem_nil
  refine .bind (cmdCreate_meets env.handle noRefs) fun result middle created => ?_
  rcases created with ⟨rfl, rfl⟩ | ⟨handle, rfl, opened, fresh, rfl⟩
  · exact .pure ⟨.refl _ _, supply.stocked, .inl ⟨rfl, rfl⟩⟩
  have small : handle.toNat < 2 ^ 32 := fresh.2.1
  have supplied : Supplied fuel env.jfc.dbPage host nodes (⟨.queue handle, []⟩ :: ledger) :=
    ⟨supply.occupied, supply.fresh, supply.enough⟩
  refine .bind (cdmaUCreateQueue_meets supplied cfg small ?_) ?_
  · rw [handle_passed small]
    exact List.mem_cons_self
  rintro ⟨result, next⟩ _ ⟨kept, stock, made⟩
  have undisturbed := kept.subset (List.subset_cons_self _ _)
  rcases made with ⟨⟨err, rfl⟩, rfl⟩ | ⟨queue, rfl, rfl, ready, rfl⟩
  · exact .leaving (cmdDelete_top opened) fun _ =>
      .pure ⟨undisturbed, stock.congr rfl, .inl ⟨rfl, rfl⟩⟩
  · refine .pure ⟨undisturbed, stock, .inr ⟨queue, rfl, ready, ?_⟩⟩
    unfold queueEntries
    rw [List.append_assoc]
    rfl

theorem cdmaFreeQueue_meets {host : Host} {fuel : Nat} {queue : CdmaUQueue}
    (ready : QueueReady ctx queue host.memory) {pageSize : UInt32}
    (stock : Stocked fuel pageSize host (queueEntries pageSize queue ++ ledger)) :
    Logged.Meets Resource.grants trusting (queueEntries pageSize queue ++ ledger)
      (cdmaFreeQueue fuel host ctx queue) fun next after =>
      next.memory = host.memory ∧ after = ledger ∧ Stocked fuel pageSize next ledger := by
  unfold cdmaFreeQueue
  unfold queueEntries at stock ⊢
  rw [List.append_assoc] at stock ⊢
  refine .bind (cdmaUDeleteQueue_meets ready stock) ?_
  rintro next _ ⟨memory, rfl, left⟩
  exact .leaving (cmdDelete_top ready.opened) fun _ => .pure ⟨memory, rfl, left.congr rfl⟩

theorem dmaAllocQueue_meets {env : QueueEnv} {host : Host} {nodes : List Nat} {fuel : Nat}
    (supply : Supplied fuel env.jfc.dbPage host nodes ledger) (cfg : Option QueueCfg) :
    Logged.Meets Resource.grants True ledger (dmaAllocQueue fuel env host (some ctx) cfg)
      fun result after =>
      Undisturbed (live ledger) host.memory result.2.memory ∧
      Stocked fuel host.ctx.pageSize result.2 after ∧
      (result.1 = none ∧ after = ledger ∨
        ∃ queue, result.1 = some queue ∧ QueueReady ctx queue result.2.memory ∧
          after = queueEntries host.ctx.pageSize queue ++ ledger) := by
  cases cfg with
  | none => exact .pure ⟨.refl _ _, supply.stocked, .inl ⟨rfl, rfl⟩⟩
  | some cfg => exact cdmaAllocQueue_meets supply cfg

end Ladder

/-! ### The same calls without the record -/

def MapEnv.answer (env : MapEnv) : Option Nat := if env.madvise then env.mmap else none

def JettyBufEnv.plain (env : JettyBufEnv) : QueueBufEnv :=
  { wrid := env.wrid.map Prod.snd, buf := env.buf.answer }

def JfcEnv.plain (env : JfcEnv) : CreateJfcEnv :=
  { calloc := env.calloc, lock := env.lock, queueBuf := env.queueBuf.plain, dbPage := env.dbPage
    id := env.id }

def JfsEnv.plain (env : JfsEnv) : CreateJfsEnv :=
  { calloc := env.calloc, lock := env.lock, queueBuf := env.queueBuf.plain, id := env.id
    db := env.db.isSome }

namespace Ladder

theorem cdmaUAllocQueueBuf_value (env : JettyBufEnv) (memory : Memory) (q : CdmaUJettyQueue)
    (maxCnt entrySize pageSize : UInt32) (wridEn : Bool) :
    ∃ answer, (cdmaUAllocQueueBuf env memory q maxCnt entrySize pageSize wridEn).value =
        some answer ∧
      Libcdma.cdmaUAllocQueueBuf env.plain memory q maxCnt entrySize pageSize wridEn =
        answer.map fun made => (made.1.queue, made.2) := by
  obtain ⟨wrid, ⟨mmap, madvise⟩⟩ := env
  unfold cdmaUAllocQueueBuf Libcdma.cdmaUAllocQueueBuf
  cases wridEn <;> cases wrid <;> cases mmap <;> cases madvise <;> exact ⟨_, rfl, rfl⟩

theorem cdmaUFreeQueueBuf_value (q : HeldQueue) : (cdmaUFreeQueueBuf q).value = some () := by
  unfold cdmaUFreeQueueBuf
  dsimp only
  by_cases mapped : q.queue.qbuf ≠ 0
  · rw [if_pos mapped]
    cases q.wrid <;> rfl
  · rw [if_neg mapped]
    cases q.wrid <;> rfl

theorem cdmaAddDbPage_value (env : DbPageEnv) (host : Host) :
    (cdmaAddDbPage env host).value = some (Libcdma.cdmaAddDbPage env host) := by
  unfold cdmaAddDbPage
  dsimp only
  split <;> rfl

theorem cdmaUPickDbPage_value (fuel : Nat) (env : DbPageEnv) (host : Host) :
    (cdmaUPickDbPage fuel env host).value = Libcdma.cdmaUPickDbPage fuel env host := by
  unfold cdmaUPickDbPage Libcdma.cdmaUPickDbPage
  dsimp only
  cases NodeList.search 0 (fun node => (host.dbPage node).next) _ fuel host.ctx.page with
  | none => rfl
  | some found =>
      cases found with
      | none => exact cdmaAddDbPage_value env host
      | some dbPage => rfl

theorem cdmaUAllocSwDb_value (fuel : Nat) (env : DbPageEnv) (host : Host) :
    (cdmaUAllocSwDb fuel env host).value = Libcdma.cdmaUAllocSwDb fuel env host := by
  unfold cdmaUAllocSwDb Libcdma.cdmaUAllocSwDb
  rw [Logged.bind_value, cdmaUPickDbPage_value]
  cases Libcdma.cdmaUPickDbPage fuel env host with
  | none => rfl
  | some picked =>
      obtain ⟨found, next⟩ := picked
      cases found <;> rfl

theorem cdmaUFreeSwDb_value (fuel : Nat) (host : Host) (db : Nat) :
    (cdmaUFreeSwDb fuel host db).value =
      (Libcdma.cdmaUFreeSwDb fuel host db).map Prod.fst := by
  unfold cdmaUFreeSwDb
  dsimp only
  cases found : NodeList.search 0 (fun node => (host.dbPage node).next)
      (fun node => decide (dbPageStart host.ctx.pageSize db = (host.dbPage node).buf)) fuel
      host.ctx.page with
  | none =>
      unfold Libcdma.cdmaUFreeSwDb
      simp only [found]
      rfl
  | some answer =>
      cases answer with
      | none =>
          unfold Libcdma.cdmaUFreeSwDb
          simp only [found]
          rfl
      | some dbPage => rfl

theorem cdmaUAllocJfcBuf_value (fuel : Nat) (env : JfcEnv) (host : Host) (cfg : DmaJfcCfg)
    (jfc : CdmaUJfc) :
    (cdmaUAllocJfcBuf fuel env host cfg jfc).value =
      Libcdma.cdmaUAllocJfcBuf fuel env.plain host cfg jfc := by
  obtain ⟨made, answered, plain⟩ := cdmaUAllocQueueBuf_value env.queueBuf host.memory jfc.cq
    (if cfg.depth < cdmaUMinJfcDepth then cdmaUMinJfcDepth else cfg.depth)
    host.ctx.cqeSize.toUInt32 cdmaHwPageSize false
  unfold cdmaUAllocJfcBuf Libcdma.cdmaUAllocJfcBuf
  dsimp only
  have buffer : env.plain.queueBuf = env.queueBuf.plain := rfl
  rw [Logged.bind_value, answered, Option.bind_some, buffer, plain]
  cases made with
  | error err => rfl
  | ok buffer =>
      dsimp only [Except.map, JfcEnv.plain]
      rw [Logged.bind_value, cdmaUAllocSwDb_value]
      cases Libcdma.cdmaUAllocSwDb fuel env.dbPage { host with memory := buffer.2 } with
      | none => rfl
      | some answer =>
          obtain ⟨found, next⟩ := answer
          cases found with
          | none =>
              rw [Option.bind_some, Logged.bind_value, cdmaUFreeQueueBuf_value]
              rfl
          | some swDb => rfl

theorem cdmaUFreeJfcBuf_value (fuel : Nat) (host : Host) (jfc : CdmaUJfc) :
    (cdmaUFreeJfcBuf fuel host jfc).value = Libcdma.cdmaUFreeJfcBuf fuel host jfc := by
  unfold cdmaUFreeJfcBuf Libcdma.cdmaUFreeJfcBuf
  rw [Logged.bind_value, cdmaUFreeSwDb_value]
  cases Libcdma.cdmaUFreeSwDb fuel host jfc.swDb with
  | none => rfl
  | some freed =>
      rw [Option.map_some, Option.bind_some, Logged.bind_value, cdmaUFreeQueueBuf_value]
      rfl

theorem cdmaCmdCreateJfc_value (id : Option UInt32) (dev : DmaDevice) (tid : UInt32)
    (jfc : CdmaUJfc) (cfg : DmaJfcCfg) :
    (cdmaCmdCreateJfc id dev tid jfc cfg).value =
      some (Libcdma.cdmaCmdCreateJfc id dev tid jfc cfg) := by
  unfold cdmaCmdCreateJfc
  split
  · next made =>
      rw [made]
      rfl
  · rfl

theorem cdmaUCreateJfc_value (fuel : Nat) (env : JfcEnv) (host : Host) (ctx : Option DmaContext)
    (cfg : Option DmaJfcCfg) :
    (cdmaUCreateJfc fuel env host ctx cfg).value =
      Libcdma.cdmaUCreateJfc fuel env.plain host ctx cfg := by
  unfold cdmaUCreateJfc Libcdma.cdmaUCreateJfc
  cases checked : cdmaUCheckJfcCfg ctx cfg with
  | some err => rfl
  | none =>
      rcases ctx with _ | ⟨_ | dev, tid⟩
      · rfl
      · rfl
      · cases cfg with
        | none => rfl
        | some cfg =>
            have plain : (!env.plain.calloc || !env.plain.lock) = (!env.calloc || !env.lock) := rfl
            have same : env.plain.id = env.id := rfl
            dsimp only
            rw [plain, same]
            by_cases refused : (!env.calloc || !env.lock) = true
            · rw [if_pos refused, if_pos refused]
              rfl
            · rw [if_neg refused, if_neg refused, Logged.bind_value, cdmaUAllocJfcBuf_value]
              rcases Libcdma.cdmaUAllocJfcBuf fuel env.plain host cfg .zeroed with
                _ | ⟨err | jfc, next⟩
              · rfl
              · rfl
              · rw [Option.bind_some, Logged.bind_value, cdmaCmdCreateJfc_value, Option.bind_some]
                dsimp only
                cases made : (Libcdma.cdmaCmdCreateJfc env.id dev tid jfc cfg).1 with
                | some id => rfl
                | none =>
                    dsimp only
                    rw [Logged.bind_value, cdmaUFreeJfcBuf_value]
                    exact Option.map_eq_bind.symm

theorem cdmaUCreateSq_value (lock : Bool) (env : JettyBufEnv) (memory : Memory)
    (sq : CdmaUJettyQueue) (cfg : DmaJfsCfg) :
    ∃ answer, (cdmaUCreateSq lock env memory sq cfg).value = some answer ∧
      Libcdma.cdmaUCreateSq lock env.plain memory sq cfg =
        answer.map fun made => (made.1.queue, made.2) := by
  obtain ⟨made, answered, plain⟩ := cdmaUAllocQueueBuf_value env memory
    { cdmaUInitSq sq with sqeBbCnt := sqeBbCnt cfg, maxSgeNum := cfg.maxSge.toUInt32 }
    (roundupPowOfTwo (sqeBbCnt cfg * cfg.depth).toUInt64).toUInt32 cdmaJfsWqebb cdmaHwPageSize true
  unfold cdmaUCreateSq Libcdma.cdmaUCreateSq
  cases lock with
  | false => exact ⟨_, rfl, rfl⟩
  | true =>
      simp only [Bool.not_true, Bool.false_eq_true, if_false]
      rw [Logged.bind_value, answered, plain, Option.bind_some]
      cases made with
      | error err => exact ⟨_, rfl, rfl⟩
      | ok buffer => exact ⟨_, rfl, rfl⟩

theorem cdmaUExecCreateJfsCmd_value (id : Option UInt32) (dev : DmaDevice) (sq : CdmaUJettyQueue)
    (cfg : JfsCfg) :
    (cdmaUExecCreateJfsCmd id dev sq cfg).value =
      some (Libcdma.cdmaUExecCreateJfsCmd id dev cfg.toDmaJfsCfg) := by
  unfold cdmaUExecCreateJfsCmd
  cases Libcdma.cdmaUExecCreateJfsCmd id dev cfg.toDmaJfsCfg <;> rfl

theorem cdmaUCreateJfs_value (env : JfsEnv) (host : Host) (ctx : Option DmaContext)
    (cfg : Option JfsCfg) :
    (cdmaUCreateJfs env host ctx cfg).value.map
        (fun result => (result.1.map fun jfs => jfs.sq.queue, result.2.memory)) =
      some (Libcdma.cdmaUCreateJfs env.plain host.memory ctx (cfg.map JfsCfg.toDmaJfsCfg)) := by
  unfold cdmaUCreateJfs Libcdma.cdmaUCreateJfs
  rcases ctx with _ | ⟨_ | dev, tid⟩
  · rfl
  · rfl
  · cases cfg with
    | none => rfl
    | some cfg =>
        obtain ⟨made, answered, plain⟩ := cdmaUCreateSq_value env.lock env.queueBuf host.memory
          .zeroed cfg.toDmaJfsCfg
        have same : env.plain.calloc = env.calloc ∧ env.plain.lock = env.lock ∧
          env.plain.queueBuf = env.queueBuf.plain ∧ env.plain.id = env.id ∧
          env.plain.db = env.db.isSome := ⟨rfl, rfl, rfl, rfl, rfl⟩
        obtain ⟨calloc, lock, queueBuf, id, db⟩ := same
        simp only [Option.map_some]
        rw [calloc, lock, queueBuf, id, db, plain]
        by_cases refused : ((cdmaVerifyJfsParam dev.devCap cfg.toDmaJfsCfg).isSome ||
          !env.calloc) = true
        · rw [if_pos refused, if_pos refused]
          rfl
        · rw [if_neg refused, if_neg refused, Logged.bind_value, answered, Option.bind_some]
          cases made with
          | error err => rfl
          | ok sq =>
              obtain ⟨sq, memory⟩ := sq
              dsimp only [Except.map]
              rw [Logged.bind_value, cdmaUExecCreateJfsCmd_value, Option.bind_some]
              cases Libcdma.cdmaUExecCreateJfsCmd env.id dev cfg.toDmaJfsCfg with
              | none =>
                  dsimp only [cdmaUDeleteSq]
                  rw [Logged.bind_value, cdmaUFreeQueueBuf_value]
                  rfl
              | some id =>
                  cases env.db with
                  | some page => rfl
                  | none =>
                      have deleted : (cdmaUCmdDeleteJfs { dmaDev := some dev, tid := tid }
                          id).value.isSome := by
                        unfold cdmaUCmdDeleteJfs cmdDelete
                        split <;> rfl
                      obtain ⟨answer, deleted⟩ := Option.isSome_iff_exists.mp deleted
                      dsimp only [cdmaUAllocDb, cdmaUDeleteSq, Option.isSome_none]
                      rw [Logged.bind_value, Logged.pure_value, Option.bind_some]
                      dsimp only
                      rw [Logged.bind_value, deleted, Option.bind_some, Logged.bind_value,
                        cdmaUFreeQueueBuf_value]
                      rfl

end Ladder

end Libcdma
