/-
Software doorbells as an allocator of slots.

An allocation trusts the use count of a page to promise a free bit and ignores
the bitmap search's error.  The invariant below ties the count, the bitmap and
the list of pages to the slots in use, so the promise is always kept.
-/

import Mathlib.Data.List.Perm.Subperm
import Libcdma.Foundation.Transition
import Libcdma.Foundation.WrapCounter
import Libcdma.Model.Db

namespace Libcdma

open WordBitmap NodeList Transition WrapCounter

theorem cdmaBitmapUseIdx_eq {bitmap : List UInt64} {bitmapCnt nBits : UInt32} {n : Nat}
    (few : bitmapCnt.toNat ≤ 2 ^ 20) (inside : n < nBits.toNat)
    (covered : nBits.toNat ≤ bitmapCnt.toNat * 64) (member : has bitmap n = true)
    (idx : UInt32) :
    ∃ found, found < nBits.toNat ∧ has bitmap found = true ∧
      cdmaBitmapUseIdx bitmap bitmapCnt nBits idx =
        (none, counter found, remove bitmap found) := by
  have inWords : n / 64 < bitmapCnt.toNat := by omega
  obtain ⟨bit, found, low, inWord, isSet, least⟩ := least_of_has inWords member
  unfold cdmaBitmapUseIdx
  generalize firstWord bitmap bitmapCnt.toNat 0 = word at found low isSet least ⊢
  have bitNum : ffsl (bitmap.getD word 0) = counter (bit + 1) := by
    rw [ffsl, low]
    rfl
  have amount : (counter (bit + 1) - 1).toUInt64 = UInt64.ofNat bit := by
    rw [← UInt64.toNat_inj, UInt32.toNat_toUInt64]
    have shifted : counter (bit + 1) - 1 = counter bit := counter_sub (Nat.le_add_left 1 bit)
    rw [shifted, toNat_counter_of_lt (by omega), UInt64.toNat_ofNat',
      Nat.mod_eq_of_lt (by omega)]
  have index : (UInt32.ofNat word <<< cdmaBitsPerLongShift) + counter (bit + 1) - 1 =
      counter (word * 64 + bit) := by
    have scaled : UInt32.ofNat word <<< cdmaBitsPerLongShift = counter (word * 64) := by
      rw [← UInt32.toNat_inj, UInt32.toNat_shiftLeft, toNat_counter]
      have small : word < 2 ^ 32 := by omega
      change ((word % 2 ^ 32) <<< 6) % 2 ^ 32 = _
      rw [Nat.shiftLeft_eq, Nat.mod_eq_of_lt small]
    have positive : 1 ≤ word * 64 + (bit + 1) := by omega
    rw [scaled, counter_add]
    exact counter_sub positive
  have notPast : ¬counter (word * 64 + bit) ≥ nBits := by
    rw [ge_iff_le, UInt32.le_iff_toNat_le, toNat_counter_of_lt (by omega)]
    omega
  refine ⟨word * 64 + bit, by omega, isSet, ?_⟩
  simp only [if_neg (Nat.ne_of_lt found), bitNum, amount, index, if_neg notPast]
  have place : (word * 64 + bit) / 64 = word := by omega
  have offset : (word * 64 + bit) % 64 = bit := by omega
  rw [remove, place, offset]

theorem cdmaBitmapFreeIdx_eq {bitmap : List UInt64} {bitmapCnt : UInt32} {n : Nat}
    (small : n < 2 ^ 32) (inside : n / 64 < bitmapCnt.toNat) :
    cdmaBitmapFreeIdx bitmap bitmapCnt (counter n) = insert bitmap n := by
  have word : (counter n >>> cdmaBitsPerLongShift).toNat = n / 64 := by
    rw [UInt32.toNat_shiftRight, toNat_counter_of_lt small]
    change n >>> 6 = _
    rw [Nat.shiftRight_eq_div_pow]
  have bit : (counter n).toUInt64 % cdmaBitsPerLong = UInt64.ofNat (n % 64) := by
    have low : n % 64 < 2 ^ 64 := by omega
    rw [← UInt64.toNat_inj, UInt64.toNat_mod, UInt32.toNat_toUInt64, toNat_counter_of_lt small,
      UInt64.toNat_ofNat', Nat.mod_eq_of_lt low]
    rfl
  have within : ¬counter n >>> cdmaBitsPerLongShift ≥ bitmapCnt := by
    rw [ge_iff_le, UInt32.le_iff_toNat_le, word]
    omega
  unfold cdmaBitmapFreeIdx
  simp only [if_neg within, word, bit]
  rfl

/-- A fresh bitmap has room for every slot, and all of them are free. -/
theorem cdmaBitmapAlloc_eq {nBits : UInt32} (small : nBits.toNat ≤ 2 ^ 25)
    {bitmap : List UInt64} {bitmapCnt : UInt32} {room : Bool}
    (allocated : cdmaBitmapAlloc room nBits = some (bitmap, bitmapCnt)) :
    bitmap.length = bitmapCnt.toNat ∧ bitmapCnt.toNat ≤ 2 ^ 20 ∧
      nBits.toNat ≤ bitmapCnt.toNat * 64 ∧
      ∀ n, n < bitmapCnt.toNat * 64 → has bitmap n = true := by
  unfold cdmaBitmapAlloc at allocated
  simp only [Option.ite_none_right_eq_some, Option.some.injEq, Prod.mk.injEq] at allocated
  obtain ⟨_, rfl, rfl⟩ := allocated
  have aligned : (align nBits.toUInt64 cdmaBitsPerLong).toNat = (nBits.toNat + 63) / 64 * 64 := by
    have sum : (nBits.toUInt64 + 64 - 1).toNat = nBits.toNat + 63 := by
      have shifted : nBits.toUInt64 + 64 - 1 = nBits.toUInt64 + 63 := by grind
      have bounded : nBits.toNat + 63 < 2 ^ 64 := by omega
      rw [shifted, UInt64.toNat_add, UInt32.toNat_toUInt64]
      exact Nat.mod_eq_of_lt bounded
    have low : 6 < 64 := by decide
    have masked := toNat_clear_low low (nBits.toUInt64 + 64 - 1)
    rw [sum] at masked
    exact masked
  have count : ((align nBits.toUInt64 cdmaBitsPerLong / cdmaBitsPerLong).toUInt32).toNat =
      (nBits.toNat + 63) / 64 := by
    rw [UInt64.toNat_toUInt32, UInt64.toNat_div, aligned]
    change (nBits.toNat + 63) / 64 * 64 / 64 % 2 ^ 32 = _
    omega
  rw [count]
  refine ⟨List.length_replicate, by omega, by omega, fun n inside => ?_⟩
  have ones : ∀ bit, bit < 64 → (~~~(0 : UInt64)).toBitVec.getLsbD bit = true := by
    intro bit low
    rw [UInt64.toBitVec_not, BitVec.getLsbD_not, decide_eq_true low]
    exact congrArg (fun clear => true && !clear) BitVec.getLsbD_zero
  rw [has, List.getD_eq_getElem?_getD, List.getElem?_replicate_of_lt (by omega), Option.getD_some]
  exact ones _ (Nat.mod_lt n (by decide))

def CdmaUDbPage.slot (page : CdmaUDbPage) (n : Nat) : Nat := page.buf + n * 64

def CdmaUDbPage.owns (page : CdmaUDbPage) (db : Nat) : Bool :=
  decide (page.buf ≤ db ∧ db < page.buf + page.length.toNat)

def CdmaUDbPage.blocks (page : CdmaUDbPage) (node : Nat) : List DbBlock :=
  [.mapping page.buf page.length, .bitmap node, .node node]

theorem CdmaUDbPage.slot_injective (page : CdmaUDbPage) : Function.Injective page.slot := by
  intro left right same
  unfold CdmaUDbPage.slot at same
  omega

/-- A page of a context with this page size, when these doorbells are in use. -/
structure DbPageInv (pageSize : UInt32) (live : List Nat) (page : CdmaUDbPage) : Prop where
  mapped : page.buf ≠ 0
  aligned : pageSize.toNat ∣ page.buf
  below : page.buf + pageSize.toNat ≤ 2 ^ 64
  length_eq : page.length = pageSize
  numDb_eq : page.numDb.toNat * 64 = pageSize.toNat
  words : page.bitmap.length = page.bitmapCnt.toNat
  few : page.bitmapCnt.toNat ≤ 2 ^ 20
  covered : page.numDb.toNat ≤ page.bitmapCnt.toNat * 64
  free_iff : ∀ n, n < page.numDb.toNat → (has page.bitmap n = true ↔ page.slot n ∉ live)
  useCnt_eq : page.useCnt.toNat = live.countP page.owns

namespace DbPageInv

variable {pageSize : UInt32} {live : List Nat} {page : CdmaUDbPage}

theorem relink (inv : DbPageInv pageSize live page) (next prev : Nat) :
    DbPageInv pageSize live { page with next := next, prev := prev } :=
  ⟨inv.mapped, inv.aligned, inv.below, inv.length_eq, inv.numDb_eq, inv.words, inv.few, inv.covered,
    inv.free_iff, inv.useCnt_eq⟩

theorem owns_slot (inv : DbPageInv pageSize live page) {n : Nat} (inside : n < page.numDb.toNat) :
    page.owns (page.slot n) = true := by
  have size := inv.numDb_eq
  unfold CdmaUDbPage.owns CdmaUDbPage.slot
  rw [inv.length_eq, decide_eq_true_eq]
  omega

theorem exists_free (inv : DbPageInv pageSize live page) (room : page.useCnt < page.numDb) :
    ∃ n, n < page.numDb.toNat ∧ has page.bitmap n = true := by
  by_contra full
  have counted := inv.useCnt_eq
  rw [UInt32.lt_iff_toNat_lt] at room
  have distinct : ((List.range page.numDb.toNat).map page.slot).Nodup :=
    List.nodup_range.map page.slot_injective
  have used : (List.range page.numDb.toNat).map page.slot ⊆ live.filter page.owns := by
    intro db member
    obtain ⟨n, inRange, rfl⟩ := List.mem_map.mp member
    have inside := List.mem_range.mp inRange
    refine List.mem_filter.mpr ⟨?_, inv.owns_slot inside⟩
    by_contra free
    exact full ⟨n, inside, (inv.free_iff n inside).mpr free⟩
  have bound := (List.subperm_of_subset distinct used).length_le
  rw [List.length_map, List.length_range, ← List.countP_eq_length_filter] at bound
  omega

theorem take (inv : DbPageInv pageSize live page) {n : Nat} (inside : n < page.numDb.toNat)
    (room : page.useCnt < page.numDb) :
    DbPageInv pageSize (page.slot n :: live)
      { page with bitmap := remove page.bitmap n, useCnt := page.useCnt + 1 } := by
  have covered := inv.covered
  refine ⟨inv.mapped, inv.aligned, inv.below, inv.length_eq, inv.numDb_eq,
    (remove_length _ _).trans inv.words, inv.few, inv.covered, fun m within => ?_, ?_⟩
  · have word : n / 64 < page.bitmap.length := by
      rw [inv.words]
      omega
    change has (remove page.bitmap n) m = true ↔ page.slot m ∉ page.slot n :: live
    rw [has_remove word, Bool.and_eq_true, inv.free_iff m within, List.mem_cons, not_or,
      page.slot_injective.eq_iff, Bool.not_eq_true', decide_eq_false_iff_not]
    exact and_comm
  · change (page.useCnt + 1).toNat = (page.slot n :: live).countP page.owns
    rw [List.countP_cons_of_pos (inv.owns_slot inside), ← inv.useCnt_eq, toNat_succ_of_lt room]

theorem give (inv : DbPageInv pageSize live page) (distinct : live.Nodup) {n : Nat}
    (inside : n < page.numDb.toNat) (member : page.slot n ∈ live) :
    DbPageInv pageSize (live.erase (page.slot n))
      { page with bitmap := insert page.bitmap n, useCnt := page.useCnt - 1 } := by
  have covered := inv.covered
  refine ⟨inv.mapped, inv.aligned, inv.below, inv.length_eq, inv.numDb_eq,
    (insert_length _ _).trans inv.words, inv.few, inv.covered, fun m within => ?_, ?_⟩
  · have word : n / 64 < page.bitmap.length := by
      rw [inv.words]
      omega
    change has (insert page.bitmap n) m = true ↔ page.slot m ∉ live.erase (page.slot n)
    rw [has_insert word, Bool.or_eq_true, inv.free_iff m within, distinct.mem_erase_iff, not_and,
      decide_eq_true_eq, Ne, page.slot_injective.eq_iff]
    constructor
    · rintro (free | rfl) other
      · exact free
      · exact absurd rfl other
    · intro gone
      by_cases same : m = n
      · exact .inr same
      · exact .inl (gone same)
  · have used : 0 < live.countP page.owns :=
      List.countP_pos_iff.mpr ⟨_, member, inv.owns_slot inside⟩
    change (page.useCnt - 1).toNat = (live.erase (page.slot n)).countP page.owns
    rw [List.countP_erase, if_pos ⟨member, inv.owns_slot inside⟩, ← inv.useCnt_eq,
      UInt32.toNat_sub_of_le]
    · rfl
    · rw [UInt32.le_iff_toNat_le, inv.useCnt_eq]
      exact used

theorem elsewhere (inv : DbPageInv pageSize live page) {other : List Nat} {db : Nat}
    (apart : page.owns db = false) (same : ∀ address, address ≠ db →
      (address ∈ other ↔ address ∈ live))
    (count : other.countP page.owns = live.countP page.owns) :
    DbPageInv pageSize other page := by
  refine ⟨inv.mapped, inv.aligned, inv.below, inv.length_eq, inv.numDb_eq, inv.words, inv.few, inv.covered,
    fun n inside => ?_, inv.useCnt_eq.trans count.symm⟩
  have different : page.slot n ≠ db := by
    rintro rfl
    rw [inv.owns_slot inside] at apart
    cases apart
  rw [inv.free_iff n inside, same _ different]

end DbPageInv

/-! ### The pages of a context -/

theorem Host.setDbPage_self (host : Host) (node : Nat) (page : CdmaUDbPage) :
    (host.setDbPage node page).dbPage node = page := Function.update_self ..

theorem Host.setHead_dbPage (host : Host) (node : Nat) :
    (host.setHead node).dbPage = host.dbPage := rfl

theorem Host.setDbPage_of_ne (host : Host) {node other : Nat} (page : CdmaUDbPage)
    (different : other ≠ node) : (host.setDbPage node page).dbPage other = host.dbPage other :=
  Function.update_of_ne different ..

theorem Host.setDbPage_field (host : Host) {node : Nat} {page : CdmaUDbPage} {α : Type}
    (read : CdmaUDbPage → α) (same : read page = read (host.dbPage node)) (other : Nat) :
    read ((host.setDbPage node page).dbPage other) = read (host.dbPage other) := by
  by_cases here : other = node
  · rw [here, Host.setDbPage_self, same]
  · rw [host.setDbPage_of_ne page here]

def Host.nextPage (host : Host) (node : Nat) : Nat := (host.dbPage node).next

def Host.prevPage (host : Host) (node : Nat) : Nat := (host.dbPage node).prev

/-- The pages on the context's list, in order, and the doorbells in use. -/
structure Pages (host : Host) (nodes live : List Nat) : Prop where
  pageSize : ∃ shift, 6 ≤ shift ∧ shift < 32 ∧ host.ctx.pageSize.toNat = 2 ^ shift
  linked : Linked 0 host.nextPage host.prevPage 0 host.ctx.page nodes
  distinct : nodes.Nodup
  page : ∀ node ∈ nodes, DbPageInv host.ctx.pageSize live (host.dbPage node)
  apart : ∀ node ∈ nodes, ∀ other ∈ nodes,
    (host.dbPage node).buf = (host.dbPage other).buf → node = other
  liveDistinct : live.Nodup
  placed : ∀ db ∈ live, ∃ node ∈ nodes, ∃ n, n < (host.dbPage node).numDb.toNat ∧
    db = (host.dbPage node).slot n

private theorem aligned_unique {size left right db : Nat} (leftAligned : size ∣ left)
    (rightAligned : size ∣ right) (inLeft : left ≤ db ∧ db < left + size)
    (inRight : right ≤ db ∧ db < right + size) : left = right := by
  obtain ⟨count, rfl⟩ := leftAligned
  obtain ⟨other, rfl⟩ := rightAligned
  have start : db / size = count :=
    Nat.div_eq_of_lt_le (by rw [Nat.mul_comm]; omega) (by rw [Nat.succ_mul, Nat.mul_comm]; omega)
  have otherStart : db / size = other :=
    Nat.div_eq_of_lt_le (by rw [Nat.mul_comm]; omega) (by rw [Nat.succ_mul, Nat.mul_comm]; omega)
  rw [← start, ← otherStart]

theorem DbPageInv.buf_eq_of_owns {pageSize : UInt32} {live : List Nat} {page other : CdmaUDbPage}
    (inv : DbPageInv pageSize live page) (otherInv : DbPageInv pageSize live other) {db : Nat}
    (owns : page.owns db = true) (otherOwns : other.owns db = true) : page.buf = other.buf := by
  unfold CdmaUDbPage.owns at owns otherOwns
  rw [decide_eq_true_eq, inv.length_eq] at owns
  rw [decide_eq_true_eq, otherInv.length_eq] at otherOwns
  exact aligned_unique inv.aligned otherInv.aligned owns otherOwns

/-- The mask in `cdma_u_free_sw_db` finds the page of a doorbell. -/
theorem dbPageStart_eq {pageSize : UInt32} {shift : Nat} (bounded : shift < 32)
    (size : pageSize.toNat = 2 ^ shift) {live : List Nat} {page : CdmaUDbPage}
    (inv : DbPageInv pageSize live page) {db : Nat} (owns : page.owns db = true) :
    dbPageStart pageSize db = page.buf := by
  unfold CdmaUDbPage.owns at owns
  rw [decide_eq_true_eq, inv.length_eq, size] at owns
  obtain ⟨count, buf⟩ := inv.aligned
  have below := inv.below
  rw [size] at buf below
  have wide : pageSize.toUInt64 = UInt64.ofNat (2 ^ shift) := by
    rw [← UInt64.toNat_inj, UInt32.toNat_toUInt64, size, UInt64.toNat_ofNat', Nat.mod_eq_of_lt]
    exact Nat.pow_lt_pow_right Nat.one_lt_two (by omega)
  have start : db / 2 ^ shift = count :=
    Nat.div_eq_of_lt_le (by rw [Nat.mul_comm]; omega) (by rw [Nat.succ_mul, Nat.mul_comm]; omega)
  unfold dbPageStart
  rw [wide, toNat_clear_low (by omega), UInt64.toNat_ofNat', Nat.mod_eq_of_lt (by omega), start,
    buf, Nat.mul_comm]

namespace Pages

variable {host : Host} {nodes live : List Nat} {node : Nat}

theorem node_eq_of_owns (pages : Pages host nodes live) {other db : Nat} (member : node ∈ nodes)
    (otherMember : other ∈ nodes) (owns : (host.dbPage node).owns db = true)
    (otherOwns : (host.dbPage other).owns db = true) : node = other :=
  pages.apart node member other otherMember
    ((pages.page node member).buf_eq_of_owns (pages.page other otherMember) owns otherOwns)

theorem not_owns (pages : Pages host nodes live) {other n : Nat} (member : node ∈ nodes)
    (otherMember : other ∈ nodes) (different : other ≠ node)
    (inside : n < (host.dbPage node).numDb.toNat) :
    (host.dbPage other).owns ((host.dbPage node).slot n) = false := by
  by_contra owns
  exact different (pages.node_eq_of_owns otherMember member (Bool.not_eq_false _ ▸ owns)
    ((pages.page node member).owns_slot inside))

theorem setDbPage (pages : Pages host nodes live) {page : CdmaUDbPage} {after : List Nat}
    (next : page.next = (host.dbPage node).next)
    (prev : page.prev = (host.dbPage node).prev) (buf : page.buf = (host.dbPage node).buf)
    (numDb : page.numDb = (host.dbPage node).numDb)
    (own : DbPageInv host.ctx.pageSize after page)
    (others : ∀ other ∈ nodes, other ≠ node →
      DbPageInv host.ctx.pageSize after (host.dbPage other))
    (distinct : after.Nodup)
    (placed : ∀ db ∈ after, ∃ node ∈ nodes, ∃ n, n < (host.dbPage node).numDb.toNat ∧
      db = (host.dbPage node).slot n) :
    Pages (host.setDbPage node page) nodes after := by
  refine ⟨pages.pageSize, ?_, pages.distinct, fun other inside => ?_,
    fun left inLeft right inRight same => ?_, distinct, fun db inUse => ?_⟩
  · exact pages.linked.congr (fun other _ => host.setDbPage_field CdmaUDbPage.next next other)
      (fun other _ => host.setDbPage_field CdmaUDbPage.prev prev other)
  · change DbPageInv host.ctx.pageSize after ((host.setDbPage node page).dbPage other)
    by_cases here : other = node
    · rw [here, Host.setDbPage_self]
      exact own
    · rw [host.setDbPage_of_ne page here]
      exact others other inside here
  · rw [host.setDbPage_field CdmaUDbPage.buf buf, host.setDbPage_field CdmaUDbPage.buf buf] at same
    exact pages.apart left inLeft right inRight same
  · obtain ⟨place, inside, n, within, rfl⟩ := placed db inUse
    refine ⟨place, inside, n, ?_, ?_⟩
    · rw [host.setDbPage_field CdmaUDbPage.numDb numDb]
      exact within
    · unfold CdmaUDbPage.slot
      rw [host.setDbPage_field CdmaUDbPage.buf buf]

theorem take (pages : Pages host nodes live) (member : node ∈ nodes)
    (room : (host.dbPage node).useCnt < (host.dbPage node).numDb) :
    ∃ n, n < (host.dbPage node).numDb.toNat ∧ (host.dbPage node).slot n ∉ live ∧
      (counter n * cdmaDbSize).toNat = n * 64 ∧
      cdmaBitmapUseIdx (host.dbPage node).bitmap (host.dbPage node).bitmapCnt
          (host.dbPage node).numDb 0 =
        (none, counter n, remove (host.dbPage node).bitmap n) ∧
      Pages
        (host.setDbPage node
          { host.dbPage node with
            bitmap := remove (host.dbPage node).bitmap n
            useCnt := (host.dbPage node).useCnt + 1 })
        nodes ((host.dbPage node).slot n :: live) := by
  have own := pages.page node member
  obtain ⟨first, below, isFree⟩ := own.exists_free room
  obtain ⟨n, inside, free, taken⟩ := cdmaBitmapUseIdx_eq own.few below own.covered isFree 0
  have unused := (own.free_iff n inside).mp free
  have size := own.numDb_eq
  have bounded := host.ctx.pageSize.toNat_lt
  refine ⟨n, inside, unused, ?_, taken, ?_⟩
  · rw [UInt32.toNat_mul, toNat_counter_of_lt (by omega)]
    change n * 64 % 2 ^ 32 = n * 64
    exact Nat.mod_eq_of_lt (by omega)
  · refine pages.setDbPage rfl rfl rfl rfl (own.take inside room) (fun other otherMember different => ?_)
      (List.nodup_cons.mpr ⟨unused, pages.liveDistinct⟩) (fun db inUse => ?_)
    · have elsewhere := pages.not_owns member otherMember different inside
      refine (pages.page other otherMember).elsewhere elsewhere (fun address apart => ?_) ?_
      · rw [List.mem_cons, or_iff_right apart]
      · exact List.countP_cons_of_neg (by rw [elsewhere]; exact Bool.false_ne_true)
    · rcases List.mem_cons.mp inUse with rfl | older
      · exact ⟨node, member, n, inside, rfl⟩
      · exact pages.placed db older

theorem owner (pages : Pages host nodes live) {db : Nat} (inUse : db ∈ live) :
    ∃ node ∈ nodes, ∃ n, n < (host.dbPage node).numDb.toNat ∧ db = (host.dbPage node).slot n ∧
      nodes.find? (fun node => decide
        (dbPageStart host.ctx.pageSize db = (host.dbPage node).buf)) = some node := by
  obtain ⟨node, member, n, inside, rfl⟩ := pages.placed db inUse
  obtain ⟨shift, _, bounded, size⟩ := pages.pageSize
  have start := dbPageStart_eq bounded size (pages.page node member)
    ((pages.page node member).owns_slot inside)
  refine ⟨node, member, n, inside, rfl, ?_⟩
  rw [start]
  cases found : nodes.find? (fun other => decide
      ((host.dbPage node).buf = (host.dbPage other).buf)) with
  | none => exact absurd rfl (of_decide_eq_false (Bool.not_eq_true _ ▸
      List.find?_eq_none.mp found node member))
  | some other =>
      have same := List.find?_some found
      rw [decide_eq_true_eq] at same
      rw [pages.apart node member other (List.mem_of_find?_eq_some found) same]

end Pages

theorem cdmaUUnlinkDbPage_dbPage (host : Host) (node : Nat) {other : Nat} (some : other ≠ 0) :
    (cdmaUUnlinkDbPage host node).dbPage other =
      { host.dbPage other with
        next := if other = host.prevPage node then host.nextPage node else host.nextPage other
        prev := if other = host.nextPage node then host.prevPage node else host.prevPage other } := by
  unfold cdmaUUnlinkDbPage Host.nextPage Host.prevPage
  by_cases hasPrev : (host.dbPage node).prev = 0 <;> by_cases hasNext : (host.dbPage node).next = 0
  all_goals
    by_cases before : other = (host.dbPage node).prev <;>
      by_cases after : other = (host.dbPage node).next <;>
      simp_all [Host.setDbPage, Host.setHead, Function.update_apply]

theorem cdmaClearDbPage_unlinked {host : Host} {node : Nat} (some : node ≠ 0)
    (mapped : (host.dbPage node).buf ≠ 0) :
    cdmaClearDbPage (cdmaUUnlinkDbPage host node) node = (host.dbPage node).blocks node := by
  unfold cdmaClearDbPage
  rw [cdmaUUnlinkDbPage_dbPage host node some]
  exact congrArg (· ++ [DbBlock.node node]) (congrArg (· ++ [DbBlock.bitmap node]) (if_pos mapped))

theorem cdmaUUnlinkDbPage_head (host : Host) (node : Nat) :
    (cdmaUUnlinkDbPage host node).ctx.page =
      if host.prevPage node = 0 then host.nextPage node else host.ctx.page := by
  unfold cdmaUUnlinkDbPage Host.nextPage Host.prevPage
  by_cases hasPrev : (host.dbPage node).prev = 0 <;> by_cases hasNext : (host.dbPage node).next = 0
  all_goals simp [hasPrev, hasNext, Host.setDbPage, Host.setHead]

theorem cdmaUUnlinkDbPage_frame (host : Host) (node : Nat) :
    (cdmaUUnlinkDbPage host node).ctx.pageSize = host.ctx.pageSize ∧
      (cdmaUUnlinkDbPage host node).memory = host.memory := by
  unfold cdmaUUnlinkDbPage
  by_cases hasPrev : (host.dbPage node).prev = 0 <;> by_cases hasNext : (host.dbPage node).next = 0
  all_goals simp [hasPrev, hasNext, Host.setDbPage, Host.setHead]

namespace Pages

variable {host : Host} {nodes live : List Nat} {node : Nat}

theorem mem_of_unlink (pages : Pages host nodes live) {left right : List Nat}
    (order : nodes = left ++ node :: right) {other : Nat} (inside : other ∈ left ++ right) :
    other ∈ nodes ∧ other ≠ node := by
  subst order
  constructor
  · rcases List.mem_append.mp inside with before | behind
    · exact List.mem_append_left _ before
    · exact List.mem_append_right _ (List.mem_cons_of_mem _ behind)
  · rintro rfl
    exact (List.nodup_cons.mp (List.nodup_middle.mp pages.distinct)).1 inside

theorem unlink_dbPage (pages : Pages host nodes live) {left right : List Nat}
    (order : nodes = left ++ node :: right) (page : CdmaUDbPage)
    (next : page.next = host.nextPage node) (prev : page.prev = host.prevPage node) {other : Nat}
    (inside : other ∈ left ++ right) :
    (cdmaUUnlinkDbPage (host.setDbPage node page) node).dbPage other =
      { host.dbPage other with
        next := if other = host.prevPage node then host.nextPage node else host.nextPage other
        prev := if other = host.nextPage node then host.prevPage node else host.prevPage other } := by
  obtain ⟨member, different⟩ := pages.mem_of_unlink order inside
  have some : other ≠ 0 := fun null => pages.linked.null_not_mem (null ▸ member)
  have same := host.setDbPage_of_ne page different
  have nextNode : (host.setDbPage node page).nextPage node = host.nextPage node := by
    rw [← next, Host.nextPage, Host.setDbPage_self]
  have prevNode : (host.setDbPage node page).prevPage node = host.prevPage node := by
    rw [← prev, Host.prevPage, Host.setDbPage_self]
  have forth : (host.setDbPage node page).nextPage other = host.nextPage other :=
    congrArg CdmaUDbPage.next same
  have back : (host.setDbPage node page).prevPage other = host.prevPage other :=
    congrArg CdmaUDbPage.prev same
  rw [cdmaUUnlinkDbPage_dbPage _ _ some, nextNode, prevNode, forth, back, same]

theorem unlink (pages : Pages host nodes live) {left right after : List Nat}
    (order : nodes = left ++ node :: right) (page : CdmaUDbPage)
    (next : page.next = host.nextPage node) (prev : page.prev = host.prevPage node)
    (others : ∀ other ∈ nodes, other ≠ node →
      DbPageInv host.ctx.pageSize after (host.dbPage other))
    (distinct : after.Nodup)
    (placed : ∀ db ∈ after, ∃ other ∈ nodes, other ≠ node ∧ ∃ n,
      n < (host.dbPage other).numDb.toNat ∧ db = (host.dbPage other).slot n) :
    Pages (cdmaUUnlinkDbPage (host.setDbPage node page) node) (left ++ right) after := by
  have stays := fun {other : Nat} (inside : other ∈ left ++ right) =>
    pages.mem_of_unlink order inside
  have fields := fun {other : Nat} (inside : other ∈ left ++ right) =>
    pages.unlink_dbPage order page next prev inside
  have notNull := pages.linked.null_not_mem
  subst order
  obtain ⟨back, _⟩ := pages.linked.around
  have head : (cdmaUUnlinkDbPage (host.setDbPage node page) node).ctx.page =
      if left = [] then host.nextPage node else host.ctx.page := by
    rw [cdmaUUnlinkDbPage_head, Host.prevPage, Host.nextPage, Host.setDbPage_self, next, prev, back]
    cases last : left.getLast? with
    | none => rw [Option.getD_none, if_pos rfl, if_pos (List.getLast?_eq_none_iff.mp last)]
    | some inner =>
        have inside := List.mem_of_getLast? last
        have some : inner ≠ 0 := fun null => notNull (null ▸ List.mem_append_left _ inside)
        rw [Option.getD_some, if_neg some, if_neg (List.ne_nil_of_mem inside)]
        rfl
  have frame := (cdmaUUnlinkDbPage_frame (host.setDbPage node page) node).1
  refine ⟨?_, ?_, ?_, fun other inside => ?_, fun first inFirst second inSecond same => ?_,
    distinct, fun db inUse => ?_⟩
  · rw [frame]
    exact pages.pageSize
  · rw [head]
    refine pages.linked.unlink pages.distinct notNull (fun other inside => ?_)
      (fun other inside => ?_)
    · rw [Host.nextPage, fields inside]
    · rw [Host.prevPage, fields inside]
  · exact (List.nodup_cons.mp (List.nodup_middle.mp pages.distinct)).2
  · obtain ⟨member, different⟩ := stays inside
    rw [frame, fields inside]
    exact (others other member different).relink _ _
  · rw [fields inFirst, fields inSecond] at same
    exact pages.apart first (stays inFirst).1 second (stays inSecond).1 same
  · obtain ⟨other, member, different, n, inside, rfl⟩ := placed db inUse
    have remains : other ∈ left ++ right := by
      rcases List.mem_append.mp member with before | behind
      · exact List.mem_append_left _ before
      · exact List.mem_append_right _ (List.mem_of_ne_of_mem different behind)
    refine ⟨other, remains, n, ?_, ?_⟩ <;> rw [fields remains]
    · exact inside
    · rfl

end Pages

/-- The pages that are still on the list are the old ones, where they were. -/
structure Remains (host next : Host) (nodes order : List Nat) : Prop where
  memory : next.memory = host.memory
  pageSize : next.ctx.pageSize = host.ctx.pageSize
  fewer : order.length ≤ nodes.length
  old : ∀ node ∈ order, node ∈ nodes
  buf : ∀ node ∈ order, (next.dbPage node).buf = (host.dbPage node).buf
  numDb : ∀ node ∈ order, (next.dbPage node).numDb = (host.dbPage node).numDb

/-- The page that a doorbell came from, what its return does to the list, and what
it gives back to the system. -/
structure GivenBack (host : Host) (nodes order live : List Nat) (released : List DbBlock)
    (db node : Nat) : Prop where
  member : node ∈ nodes
  owns : (host.dbPage node).owns db = true
  stays : ∀ other ∈ live.erase db, (host.dbPage node).owns other = true →
    order = nodes ∧ released = []
  goes : (∀ other ∈ live.erase db, (host.dbPage node).owns other = false) →
    order = nodes.erase node ∧ released = (host.dbPage node).blocks node

/-- A doorbell has been taken back: a page that still owns it has others in use. -/
structure TakenBack (host next : Host) (nodes order live : List Nat) (released : List DbBlock)
    (db node : Nat) : Prop where
  remains : Remains host next nodes order
  pages : Pages next order (live.erase db)
  shared : ∀ node ∈ order, (next.dbPage node).owns db = true →
    ∃ other ∈ live.erase db, (next.dbPage node).owns other = true
  given : GivenBack host nodes order live released db node

namespace Pages

variable {host : Host} {nodes live : List Nat} {node : Nat}

section Give

variable (pages : Pages host nodes live) (member : node ∈ nodes) {n : Nat}
  (below : n < (host.dbPage node).numDb.toNat) (inUse : (host.dbPage node).slot n ∈ live)

include pages member below

theorem give_elsewhere (other : Nat) (otherMember : other ∈ nodes) (different : other ≠ node) :
    DbPageInv host.ctx.pageSize (live.erase ((host.dbPage node).slot n)) (host.dbPage other) := by
  have elsewhere := pages.not_owns member otherMember different below
  refine (pages.page other otherMember).elsewhere elsewhere
    (fun address apart => List.mem_erase_of_ne apart) ?_
  rw [List.countP_erase, if_neg (fun both => Bool.false_ne_true (elsewhere.symm.trans both.2)),
    Nat.sub_zero]

include inUse

theorem give_last (last : (host.dbPage node).useCnt - 1 = 0) :
    let unlinked := cdmaUUnlinkDbPage (host.setDbPage node
      { host.dbPage node with useCnt := (host.dbPage node).useCnt - 1 }) node
    ∃ order, TakenBack host unlinked nodes order live (cdmaClearDbPage unlinked node)
      ((host.dbPage node).slot n) node := by
  intro unlinked
  have own := pages.page node member
  have given := own.give pages.liveDistinct below inUse
  have others := pages.give_elsewhere member below
  have distinct := pages.liveDistinct.erase ((host.dbPage node).slot n)
  obtain ⟨left, right, order⟩ := List.append_of_mem member
  have fields {other : Nat} (inside : other ∈ left ++ right) :=
    pages.unlink_dbPage order
      { host.dbPage node with useCnt := (host.dbPage node).useCnt - 1 } rfl rfl inside
  have frame := cdmaUUnlinkDbPage_frame (host.setDbPage node
    { host.dbPage node with useCnt := (host.dbPage node).useCnt - 1 }) node
  have none : (live.erase ((host.dbPage node).slot n)).countP (host.dbPage node).owns = 0 := by
    refine given.useCnt_eq.symm.trans ?_
    rw [last]
    rfl
  have cleared : cdmaClearDbPage unlinked node = (host.dbPage node).blocks node := by
    have notNull : node ≠ 0 := fun null => pages.linked.null_not_mem (null ▸ member)
    have same := host.setDbPage_self node
      { host.dbPage node with useCnt := (host.dbPage node).useCnt - 1 }
    rw [cdmaClearDbPage_unlinked notNull (same.symm ▸ own.mapped), same]
    rfl
  refine ⟨left ++ right, ⟨frame.2, frame.1, ?_,
      fun other inside => (pages.mem_of_unlink order inside).1,
      fun other inside => by rw [fields inside], fun other inside => by rw [fields inside]⟩,
    pages.unlink order _ rfl rfl others distinct (fun db still => ?_),
    fun other inside owns => ?_, member, own.owns_slot below,
    fun other still owns => ?_, fun _ => ?_⟩
  · rw [order, List.length_append, List.length_append, List.length_cons]
    omega
  · obtain ⟨other, otherMember, m, within, rfl⟩ := pages.placed db (List.mem_of_mem_erase still)
    refine ⟨other, otherMember, ?_, m, within, rfl⟩
    rintro rfl
    exact List.countP_eq_zero.mp none _ still (own.owns_slot within)
  · obtain ⟨otherMember, different⟩ := pages.mem_of_unlink order inside
    rw [fields inside] at owns
    have elsewhere := pages.not_owns member otherMember different below
    exact absurd (elsewhere.symm.trans owns) Bool.false_ne_true
  · exact absurd owns (List.countP_eq_zero.mp none other still)
  · have notLeft : node ∉ left := fun inside =>
      (pages.mem_of_unlink order (List.mem_append_left right inside)).2 rfl
    refine ⟨?_, cleared⟩
    rw [order, List.erase_append_right _ notLeft, List.erase_cons_head]

theorem give_shared (shared : (host.dbPage node).useCnt - 1 ≠ 0) :
    TakenBack host
      (host.setDbPage node
        { host.dbPage node with
          useCnt := (host.dbPage node).useCnt - 1
          bitmap := insert (host.dbPage node).bitmap n })
      nodes nodes live [] ((host.dbPage node).slot n) node := by
  have own := pages.page node member
  have given := own.give pages.liveDistinct below inUse
  have others := pages.give_elsewhere member below
  have distinct := pages.liveDistinct.erase ((host.dbPage node).slot n)
  have some : 0 < (live.erase ((host.dbPage node).slot n)).countP (host.dbPage node).owns := by
    refine Nat.pos_of_ne_zero fun none => shared ?_
    rw [← UInt32.toNat_inj]
    exact given.useCnt_eq.trans none
  refine ⟨⟨rfl, rfl, le_rfl, fun _ inside => inside,
      fun other _ => host.setDbPage_field CdmaUDbPage.buf (by rfl) other,
      fun other _ => host.setDbPage_field CdmaUDbPage.numDb (by rfl) other⟩, ?_,
    fun other inside owns => ?_, member, own.owns_slot below, fun _ _ _ => ⟨rfl, rfl⟩,
    fun none => ?_⟩
  · refine pages.setDbPage rfl rfl rfl rfl given others distinct (fun db still => ?_)
    exact pages.placed db (List.mem_of_mem_erase still)
  · rw [host.setDbPage_field CdmaUDbPage.owns (by rfl) other] at owns ⊢
    cases pages.node_eq_of_owns inside member owns (own.owns_slot below)
    exact List.countP_pos_iff.mp some
  · obtain ⟨other, still, owns⟩ := List.countP_pos_iff.mp some
    exact absurd ((none other still).symm.trans owns) Bool.false_ne_true

end Give

theorem give (pages : Pages host nodes live) {db fuel : Nat} (inUse : db ∈ live)
    (enough : nodes.length < fuel) :
    ∃ next released order, cdmaUFreeSwDb fuel host db = some (next, released) ∧
      Remains host next nodes order ∧ Pages next order (live.erase db) ∧
      (∀ node ∈ order, (next.dbPage node).owns db = true →
        ∃ other ∈ live.erase db, (next.dbPage node).owns other = true) ∧
      ∃ node, GivenBack host nodes order live released db node := by
  obtain ⟨node, member, n, below, rfl, found⟩ := pages.owner inUse
  have own := pages.page node member
  have located : search 0 (fun node => (host.dbPage node).next)
      (fun other => decide (dbPageStart host.ctx.pageSize ((host.dbPage node).slot n) =
        (host.dbPage other).buf)) fuel host.ctx.page = some (some node) :=
    (search_eq pages.linked _ enough).trans (congrArg some found)
  unfold cdmaUFreeSwDb
  simp only [located]
  by_cases last : (host.dbPage node).useCnt - 1 = 0
  · obtain ⟨order, back⟩ := pages.give_last member below inUse last
    exact ⟨_, _, order, if_pos last, back.remains, back.pages, back.shared, node, back.given⟩
  · have size := own.numDb_eq
    have covered := own.covered
    have bounded := host.ctx.pageSize.toNat_lt
    have index : UInt32.ofNat (((host.dbPage node).slot n - (host.dbPage node).buf) /
        cdmaDbSize.toNat) = counter n := by
      have positive : 0 < cdmaDbSize.toNat := by decide
      rw [CdmaUDbPage.slot, Nat.add_sub_cancel_left]
      exact congrArg counter (Nat.mul_div_cancel n positive)
    have bit : cdmaBitmapFreeIdx (host.dbPage node).bitmap (host.dbPage node).bitmapCnt
        (counter n) = insert (host.dbPage node).bitmap n :=
      cdmaBitmapFreeIdx_eq (by omega) (by omega)
    have back := pages.give_shared member below inUse last
    refine ⟨_, [], nodes, if_neg last, ?_⟩
    rw [index, bit]
    exact ⟨back.remains, back.pages, back.shared, node, back.given⟩

end Pages

/-! ### New pages -/

/-- What an allocator may answer: a node not in use, and a mapping of one page
that is aligned and apart from the pages in use. -/
def DbPageEnv.Fresh (env : DbPageEnv) (host : Host) (nodes : List Nat) : Prop :=
  (∀ node ∈ env.node, node ≠ 0 ∧ node ∉ nodes) ∧
  (∀ buf ∈ env.buf, buf ≠ 0 ∧ host.ctx.pageSize.toNat ∣ buf ∧
    buf + host.ctx.pageSize.toNat ≤ 2 ^ 64 ∧
    ∀ other ∈ nodes, (host.dbPage other).buf ≠ buf)

instance (env : DbPageEnv) (host : Host) (nodes : List Nat) : Decidable (env.Fresh host nodes) :=
  inferInstanceAs (Decidable (_ ∧ _))

/-- A page that has just been added: empty, at the front of the list. -/
structure AddedDbPage (host next : Host) (node buf : Nat) (bitmap : List UInt64)
    (bitmapCnt : UInt32) : Prop where
  memory : next.memory = host.memory.mapFresh buf host.ctx.pageSize.toNat
  pageSize : next.ctx.pageSize = host.ctx.pageSize
  head : next.ctx.page = node
  own : next.dbPage node =
    { CdmaUDbPage.zeroed with
      next := host.ctx.page, buf := buf, length := host.ctx.pageSize
      numDb := host.ctx.pageSize / cdmaDbSize, bitmap := bitmap, bitmapCnt := bitmapCnt }
  others : ∀ other, other ≠ node → next.dbPage other =
    { host.dbPage other with
      prev :=
        if other = host.ctx.page ∧ other ≠ 0 then node else host.prevPage other }

theorem cdmaAddDbPage_cases (env : DbPageEnv) (host : Host)
    (fresh : ∀ node ∈ env.node, node ≠ host.ctx.page) :
    cdmaAddDbPage env host = (none, host) ∨
    ∃ node buf bitmap bitmapCnt next, env.node = some node ∧ env.buf = some buf ∧
      cdmaBitmapAlloc env.bitmap (host.ctx.pageSize / cdmaDbSize) = some (bitmap, bitmapCnt) ∧
      cdmaAddDbPage env host = (some node, next) ∧
      AddedDbPage host next node buf bitmap bitmapCnt := by
  unfold cdmaAddDbPage
  cases node : env.node with
  | none => exact .inl rfl
  | some dbPage =>
      have apart := fresh dbPage node
      cases room : cdmaBitmapAlloc env.bitmap (host.ctx.pageSize / cdmaDbSize) with
      | none =>
          left
          simp only [room]
      | some pair =>
          obtain ⟨bitmap, bitmapCnt⟩ := pair
          cases mapping : env.buf with
          | none =>
              left
              simp only [room, cdmaUAllocBuf]
          | some buf =>
              right
              simp only [room, cdmaUAllocBuf]
              by_cases empty : host.ctx.page = 0
              · rw [if_neg (by simpa using empty)]
                refine ⟨dbPage, buf, bitmap, bitmapCnt, _, rfl, rfl, rfl, rfl, rfl, rfl, rfl,
                  Host.setDbPage_self .., fun other different => ?_⟩
                have none : ¬(other = host.ctx.page ∧ other ≠ 0) := by
                  rintro ⟨rfl, some⟩
                  exact some empty
                rw [if_neg none]
                exact Host.setDbPage_of_ne _ _ different
              · rw [if_pos (by simpa using empty)]
                refine ⟨dbPage, buf, bitmap, bitmapCnt, _, rfl, rfl, rfl, rfl, rfl, rfl, rfl,
                  ?_, fun other different => ?_⟩
                · rw [Host.setDbPage_of_ne _ _ apart]
                  exact Host.setDbPage_self ..
                · by_cases first : other = host.ctx.page
                  · subst first
                    rw [Host.setDbPage_self, if_pos ⟨rfl, empty⟩]
                    simp only [Host.setHead_dbPage, Host.setDbPage_of_ne _ _ different]
                  · rw [Host.setDbPage_of_ne _ _ first, if_neg (fun both => first both.1)]
                    exact Host.setDbPage_of_ne _ _ different

namespace Pages

variable {host : Host} {nodes live : List Nat} {node : Nat}

theorem head_mem (pages : Pages host nodes live) (some : host.ctx.page ≠ 0) :
    host.ctx.page ∈ nodes := by
  have first := pages.linked.first_eq
  cases nodes with
  | nil => exact absurd first some
  | cons head rest =>
      rw [first]
      exact List.mem_cons_self

theorem added_page (pages : Pages host nodes live) {next : Host} {buf : Nat}
    {bitmap : List UInt64} {bitmapCnt : UInt32} {room : Bool} (mapped : buf ≠ 0)
    (aligned : host.ctx.pageSize.toNat ∣ buf) (below : buf + host.ctx.pageSize.toNat ≤ 2 ^ 64)
    (apart : ∀ other ∈ nodes, (host.dbPage other).buf ≠ buf)
    (allocated : cdmaBitmapAlloc room (host.ctx.pageSize / cdmaDbSize) = some (bitmap, bitmapCnt))
    (added : AddedDbPage host next node buf bitmap bitmapCnt) :
    DbPageInv host.ctx.pageSize live (next.dbPage node) := by
  obtain ⟨shift, atLeast, bounded, size⟩ := pages.pageSize
  have numDb : (host.ctx.pageSize / cdmaDbSize).toNat = host.ctx.pageSize.toNat / 64 :=
    UInt32.toNat_div ..
  have whole : host.ctx.pageSize.toNat / 64 * 64 = host.ctx.pageSize.toNat := by
    rw [size]
    exact Nat.div_mul_cancel (Nat.pow_dvd_pow 2 atLeast)
  have small : host.ctx.pageSize.toNat ≤ 2 ^ 31 :=
    size ▸ Nat.pow_le_pow_right Nat.two_pos (by omega)
  have doorbells : (host.ctx.pageSize / cdmaDbSize).toNat ≤ 2 ^ 25 := by omega
  obtain ⟨words, few, covered, full⟩ := cdmaBitmapAlloc_eq doorbells allocated
  have ownBuf : (next.dbPage node).buf = buf := by rw [added.own]
  have ownLength : (next.dbPage node).length = host.ctx.pageSize := by rw [added.own]
  have ownNumDb : (next.dbPage node).numDb.toNat = host.ctx.pageSize.toNat / 64 := by
    rw [added.own, numDb]
  -- a doorbell in use lies in its own page, and no two pages overlap
  have elsewhere : ∀ db ∈ live, (next.dbPage node).owns db = false := by
    intro db inUse
    by_contra owns
    obtain ⟨other, member, n, inside, rfl⟩ := pages.placed db inUse
    have own := pages.page other member
    have otherOwns := own.owns_slot inside
    rw [Bool.not_eq_false] at owns
    unfold CdmaUDbPage.owns at owns otherOwns
    rw [decide_eq_true_eq, ownBuf, ownLength] at owns
    rw [decide_eq_true_eq, own.length_eq] at otherOwns
    exact apart other member (aligned_unique own.aligned aligned otherOwns owns)
  refine ⟨?_, ?_, ?_, ownLength, ?_, ?_, ?_, ?_, fun n within => ?_, ?_⟩
  · rw [ownBuf]
    exact mapped
  · rw [ownBuf]
    exact aligned
  · rw [ownBuf]
    exact below
  · rw [ownNumDb]
    exact whole
  · rw [added.own]
    exact words
  · rw [added.own]
    exact few
  · rw [added.own]
    exact covered
  · have unused : (next.dbPage node).slot n ∉ live := by
      intro inUse
      have owns := elsewhere _ inUse
      unfold CdmaUDbPage.owns CdmaUDbPage.slot at owns
      rw [decide_eq_false_iff_not, ownLength] at owns
      omega
    refine iff_of_true ?_ unused
    rw [added.own]
    exact full n (by omega)
  · rw [List.countP_eq_zero.mpr (fun db inUse => Bool.eq_false_iff.mp (elsewhere db inUse)),
      added.own]
    rfl

theorem add (pages : Pages host nodes live) {next : Host} {buf : Nat} {bitmap : List UInt64}
    {bitmapCnt : UInt32} {room : Bool} (notNull : node ≠ 0) (fresh : node ∉ nodes)
    (mapped : buf ≠ 0) (aligned : host.ctx.pageSize.toNat ∣ buf) (below : buf + host.ctx.pageSize.toNat ≤ 2 ^ 64)
    (apart : ∀ other ∈ nodes, (host.dbPage other).buf ≠ buf)
    (allocated : cdmaBitmapAlloc room (host.ctx.pageSize / cdmaDbSize) = some (bitmap, bitmapCnt))
    (added : AddedDbPage host next node buf bitmap bitmapCnt) :
    Pages next (node :: nodes) live := by
  have ownBuf : (next.dbPage node).buf = buf := by rw [added.own]
  have fields : ∀ other ∈ nodes, other ≠ node ∧ next.dbPage other =
      { host.dbPage other with
        next := host.nextPage other
        prev := if other = host.ctx.page then node else host.prevPage other } := by
    intro other inside
    have different : other ≠ node := by
      rintro rfl
      exact fresh inside
    have some : other ≠ 0 := fun null => pages.linked.null_not_mem (null ▸ inside)
    refine ⟨different, ?_⟩
    simp only [added.others other different, ne_eq, some, not_false_eq_true, and_true]
    rfl
  refine ⟨?_, ?_, ?_, ?_, ?_, ?_, ?_⟩
  · rw [added.pageSize]
    exact pages.pageSize
  · rw [added.head]
    refine pages.linked.push pages.distinct notNull ?_ ?_ (fun some => ?_) (fun other inside => ?_)
      (fun other inside notFirst => ?_)
    · rw [Host.nextPage, added.own]
    · rw [Host.prevPage, added.own]
      rfl
    · rw [Host.prevPage, (fields _ (pages.head_mem some)).2, if_pos rfl]
    · rw [Host.nextPage, (fields other inside).2]
    · rw [Host.prevPage, (fields other inside).2, if_neg notFirst]
  · exact List.nodup_cons.mpr ⟨fresh, pages.distinct⟩
  · intro other inside
    rw [added.pageSize]
    rcases List.mem_cons.mp inside with rfl | older
    · exact pages.added_page mapped aligned below apart allocated added
    · rw [(fields other older).2]
      exact (pages.page other older).relink _ _
  · have old : ∀ other ∈ nodes, (next.dbPage other).buf = (host.dbPage other).buf := by
      intro other inside
      rw [(fields other inside).2]
    intro first inFirst second inSecond same
    rcases List.mem_cons.mp inFirst with rfl | firstOld <;>
      rcases List.mem_cons.mp inSecond with rfl | secondOld
    · rfl
    · rw [ownBuf, old second secondOld] at same
      exact absurd same.symm (apart second secondOld)
    · rw [ownBuf, old first firstOld] at same
      exact absurd same (apart first firstOld)
    · rw [old first firstOld, old second secondOld] at same
      exact pages.apart first firstOld second secondOld same
  · exact pages.liveDistinct
  · intro db inUse
    obtain ⟨other, member, n, inside, rfl⟩ := pages.placed db inUse
    refine ⟨other, List.mem_cons_of_mem _ member, n, ?_, ?_⟩ <;> rw [(fields other member).2]
    · exact inside
    · rfl

/-- Where an allocation finds its page: on the list, or in front of it, or nowhere. -/
theorem pick (pages : Pages host nodes live) {env : DbPageEnv} (fresh : env.Fresh host nodes)
    {fuel : Nat} {found : Option Nat} {next : Host}
    (picked : cdmaUPickDbPage fuel env host = some (found, next)) :
    (found = none ∧ next = host) ∨
    ∃ node order, found = some node ∧ node ∈ order ∧ Pages next order live ∧
      (next.dbPage node).useCnt < (next.dbPage node).numDb ∧
      (order = nodes ∧ next = host ∨
        order = node :: nodes ∧
          (∀ other ∈ nodes, ¬(host.dbPage other).useCnt < (host.dbPage other).numDb) ∧
          ∃ buf bitmap bitmapCnt, env.buf = some buf ∧
            AddedDbPage host next node buf bitmap bitmapCnt) := by
  unfold cdmaUPickDbPage at picked
  dsimp only at picked
  have complete := search_eq pages.linked
    (fun node => decide ((host.dbPage node).useCnt < (host.dbPage node).numDb))
    (Nat.lt_succ_self nodes.length)
  cases searched : search 0 (fun node => (host.dbPage node).next)
      (fun node => decide ((host.dbPage node).useCnt < (host.dbPage node).numDb)) fuel
      host.ctx.page with
  | none =>
      rw [searched] at picked
      cases picked
  | some result =>
      rw [searched] at picked
      have same := search_unique _ searched complete
      subst same
      cases first : nodes.find?
          (fun node => decide ((host.dbPage node).useCnt < (host.dbPage node).numDb)) with
      | some node =>
          rw [first] at picked
          cases picked
          have room := List.find?_some first
          rw [decide_eq_true_eq] at room
          exact .inr ⟨node, nodes, rfl, List.mem_of_find?_eq_some first, pages, room,
            .inl ⟨rfl, rfl⟩⟩
      | none =>
          rw [first] at picked
          have apart : ∀ node ∈ env.node, node ≠ host.ctx.page := by
            rintro node answer rfl
            obtain ⟨notNull, unused⟩ := fresh.1 _ answer
            exact unused (pages.head_mem notNull)
          rcases cdmaAddDbPage_cases env host apart with
            failed | ⟨node, buf, bitmap, bitmapCnt, after, answer, mapping, allocated, result, added⟩
          · rw [failed] at picked
            cases picked
            exact .inl ⟨rfl, rfl⟩
          · rw [result] at picked
            cases picked
            obtain ⟨notNull, unused⟩ := fresh.1 node answer
            obtain ⟨mapped, aligned, below, distinct⟩ := fresh.2 buf mapping
            have full : ∀ other ∈ nodes,
                ¬(host.dbPage other).useCnt < (host.dbPage other).numDb := fun other inside =>
              of_decide_eq_false (Bool.not_eq_true _ ▸ List.find?_eq_none.mp first other inside)
            refine .inr ⟨node, node :: nodes, rfl, List.mem_cons_self,
              pages.add notNull unused mapped aligned below distinct allocated added, ?_,
              .inr ⟨rfl, full, buf, bitmap, bitmapCnt, mapping, added⟩⟩
            obtain ⟨shift, atLeast, _, size⟩ := pages.pageSize
            have large : 2 ^ 6 ≤ host.ctx.pageSize.toNat :=
              size ▸ Nat.pow_le_pow_right Nat.two_pos atLeast
            rw [added.own, UInt32.lt_iff_toNat_lt]
            change 0 < (host.ctx.pageSize / cdmaDbSize).toNat
            rw [UInt32.toNat_div]
            exact Nat.div_pos large (by decide)

/-- An allocation either fails and changes nothing, or takes a slot not in use
of the page it picked. -/
theorem alloc (pages : Pages host nodes live) {env : DbPageEnv} (fresh : env.Fresh host nodes)
    {fuel : Nat} {answer : Option Nat} {next : Host}
    (allocated : cdmaUAllocSwDb fuel env host = some (answer, next)) :
    (answer = none ∧ next = host) ∨
    ∃ node picked order n, node ∈ order ∧
      (order = nodes ∧ picked = host ∨
        order = node :: nodes ∧
          (∀ other ∈ nodes, ¬(host.dbPage other).useCnt < (host.dbPage other).numDb) ∧
          ∃ buf bitmap bitmapCnt, env.buf = some buf ∧
            AddedDbPage host picked node buf bitmap bitmapCnt) ∧
      Pages picked order live ∧ n < (picked.dbPage node).numDb.toNat ∧
      (picked.dbPage node).slot n ∉ live ∧
      answer = some ((picked.dbPage node).slot n) ∧
      next = picked.setDbPage node
        { picked.dbPage node with
          bitmap := remove (picked.dbPage node).bitmap n
          useCnt := (picked.dbPage node).useCnt + 1 } ∧
      Pages next order ((picked.dbPage node).slot n :: live) := by
  unfold cdmaUAllocSwDb at allocated
  cases found : cdmaUPickDbPage fuel env host with
  | none =>
      rw [found] at allocated
      cases allocated
  | some result =>
      obtain ⟨answered, picked⟩ := result
      rw [found] at allocated
      rcases pages.pick fresh found with
        ⟨rfl, rfl⟩ | ⟨node, order, rfl, member, before, room, origin⟩
      · cases allocated
        exact .inl ⟨rfl, rfl⟩
      · obtain ⟨n, inside, unused, place, taken, after⟩ := before.take member room
        simp only [taken, place, Option.some.injEq, Prod.mk.injEq] at allocated
        obtain ⟨rfl, rfl⟩ := allocated
        exact .inr ⟨node, picked, order, n, member, origin, before, inside, unused, rfl, rfl, after⟩

theorem alloc_isSome (pages : Pages host nodes live) (env : DbPageEnv) {fuel : Nat}
    (enough : nodes.length < fuel) : (cdmaUAllocSwDb fuel env host).isSome := by
  unfold cdmaUAllocSwDb cdmaUPickDbPage
  have complete : search 0 (fun node => (host.dbPage node).next) _ fuel host.ctx.page = _ :=
    search_eq pages.linked
      (fun node => decide ((host.dbPage node).useCnt < (host.dbPage node).numDb)) enough
  simp only [complete]
  cases nodes.find? _ with
  | some node => rfl
  | none =>
      obtain ⟨found, next⟩ := cdmaAddDbPage env host
      cases found <;> rfl

end Pages

/-! ### Runs of allocations and frees -/

/-- A context, the pages on its list and the doorbells in use, with the history of
what the pages that joined the list held and of what was given back. -/
structure DbWorld where
  host : Host
  nodes : List Nat
  live : List Nat
  acquired : List DbBlock
  released : List DbBlock

inductive DbAction where
  | alloc (env : DbPageEnv)
  | free (db : Nat)

/-- The list is read again after each call. -/
def DbWorld.after (w : DbWorld) (host : Host) (live : List Nat) (released : List DbBlock) :
    DbWorld :=
  let nodes := walk 0 host.nextPage (w.nodes.length + 1) host.ctx.page
  { host := host, nodes := nodes, live := live
    acquired := w.acquired ++
      (nodes.filter (· ∉ w.nodes)).flatMap fun node => (host.dbPage node).blocks node
    released := w.released ++ released }

def DbWorld.step (w : DbWorld) : DbAction → Option DbWorld
  | .alloc env =>
      if env.Fresh w.host w.nodes then
        (cdmaUAllocSwDb (w.nodes.length + 1) env w.host).map fun (db, host) =>
          w.after host (db.toList ++ w.live) []
      else none
  | .free db =>
      if db ∈ w.live then
        (cdmaUFreeSwDb (w.nodes.length + 1) w.host db).map fun (host, released) =>
          w.after host (w.live.erase db) released
      else none

def DbWorld.Initial (w : DbWorld) : Prop :=
  (∃ shift, 6 ≤ shift ∧ shift < 32 ∧ w.host.ctx.pageSize.toNat = 2 ^ shift) ∧
  w.host.ctx.page = 0 ∧ w.nodes = [] ∧ w.live = [] ∧ w.acquired = [] ∧ w.released = []

def DbWorld.Inv (w : DbWorld) : Prop := Pages w.host w.nodes w.live

theorem Pages.empty {host : Host} (head : host.ctx.page = 0)
    (size : ∃ shift, 6 ≤ shift ∧ shift < 32 ∧ host.ctx.pageSize.toNat = 2 ^ shift) :
    Pages host [] [] :=
  ⟨size, head, List.nodup_nil, fun _ inside => absurd inside List.not_mem_nil,
    fun _ inside => absurd inside List.not_mem_nil, List.nodup_nil,
    fun _ inside => absurd inside List.not_mem_nil⟩

theorem DbWorld.Initial.inv {w : DbWorld} (initial : w.Initial) : w.Inv := by
  obtain ⟨size, head, nodes, live, _⟩ := initial
  unfold DbWorld.Inv
  rw [nodes, live]
  exact .empty head size

theorem DbWorld.after_inv {w : DbWorld} {host : Host} {order live : List Nat}
    (pages : Pages host order live) (bounded : order.length ≤ w.nodes.length + 1)
    (released : List DbBlock) : (w.after host live released).Inv := by
  unfold DbWorld.Inv DbWorld.after
  rw [walk_eq pages.linked bounded]
  exact pages

theorem DbWorld.Inv.step {w next : DbWorld} (inv : w.Inv) {action : DbAction}
    (stepped : w.step action = some next) : next.Inv := by
  cases action with
  | alloc env =>
      simp only [DbWorld.step, Option.ite_none_right_eq_some, Option.map_eq_some_iff] at stepped
      obtain ⟨fresh, ⟨answer, host⟩, allocated, rfl⟩ := stepped
      rcases Pages.alloc inv fresh allocated with
        ⟨rfl, rfl⟩ | ⟨node, picked, order, n, _, origin, _, _, _, rfl, _, pages⟩
      · exact DbWorld.after_inv inv (Nat.le_succ _) []
      · refine DbWorld.after_inv pages ?_ []
        rcases origin with ⟨rfl, _⟩ | ⟨rfl, _⟩
        · exact Nat.le_succ _
        · exact le_rfl
  | free db =>
      simp only [DbWorld.step, Option.ite_none_right_eq_some, Option.map_eq_some_iff] at stepped
      obtain ⟨inUse, ⟨host, released⟩, freed, rfl⟩ := stepped
      obtain ⟨after, _, order, result, remains, pages, _, _⟩ :=
        Pages.give inv inUse (Nat.lt_succ_self w.nodes.length)
      cases freed.symm.trans result
      exact DbWorld.after_inv pages (Nat.le_succ_of_le remains.fewer) released

/-- In every state that allocations and frees of doorbells in use can reach, the
doorbells are distinct slots of pages on the list, the bitmaps and the counts
say which ones are in use, and the next allocation finds a bit in the page it
picks or fails without a trace. -/
theorem cdmaUAllocSwDb_run {start final : DbWorld} (initial : start.Initial)
    {actions : List DbAction} (ran : run DbWorld.step start actions = some final) :
    Linked 0 final.host.nextPage final.host.prevPage 0 final.host.ctx.page final.nodes ∧
    final.live.Nodup ∧
    (∀ db ∈ final.live, ∃ node ∈ final.nodes, ∃ n, n < (final.host.dbPage node).numDb.toNat ∧
      db = (final.host.dbPage node).buf + n * 64) ∧
    (∀ node ∈ final.nodes, ∀ n, n < (final.host.dbPage node).numDb.toNat →
      (has (final.host.dbPage node).bitmap n = false ↔
        (final.host.dbPage node).buf + n * 64 ∈ final.live)) ∧
    (∀ node ∈ final.nodes, (final.host.dbPage node).useCnt.toNat =
      final.live.countP (final.host.dbPage node).owns) ∧
    (∀ env fuel node picked, env.Fresh final.host final.nodes →
      cdmaUPickDbPage fuel env final.host = some (some node, picked) →
      (cdmaBitmapUseIdx (picked.dbPage node).bitmap (picked.dbPage node).bitmapCnt
        (picked.dbPage node).numDb 0).1 = none) ∧
    (∀ env fuel next, env.Fresh final.host final.nodes →
      cdmaUAllocSwDb fuel env final.host = some (none, next) → next = final.host) ∧
    (∀ env fuel, final.nodes.length < fuel → (cdmaUAllocSwDb fuel env final.host).isSome) ∧
    (∀ db ∈ final.live, ∀ fuel, final.nodes.length < fuel →
      (cdmaUFreeSwDb fuel final.host db).isSome) := by
  have pages : Pages final.host final.nodes final.live :=
    run_invariant DbWorld.step (fun _ _ _ held stepped => DbWorld.Inv.step held stepped)
      initial.inv ran
  refine ⟨pages.linked, pages.liveDistinct, pages.placed, fun node member n inside => ?_,
    fun node member => (pages.page node member).useCnt_eq,
    fun env fuel node picked fresh found => ?_, fun env fuel next fresh failed => ?_,
    fun env fuel enough => pages.alloc_isSome env enough, fun db inUse fuel enough => ?_⟩
  · rw [← Bool.not_eq_true, (pages.page node member).free_iff n inside, not_not]
    rfl
  · rcases pages.pick fresh found with ⟨none, _⟩ | ⟨_, order, same, member, after, room, _⟩
    · cases none
    · cases same
      obtain ⟨n, _, _, _, taken, _⟩ := after.take member room
      rw [taken]
  · rcases pages.alloc fresh failed with ⟨_, same⟩ | ⟨_, _, _, _, _, _, _, _, _, some, _⟩
    · exact same
    · cases some
  · obtain ⟨next, _, _, freed, _⟩ := pages.give inUse enough
    rw [freed]
    rfl

def DbWorld.twoSlots : DbWorld :=
  { host :=
      { ctx := { pageSize := 128, page := 0, cqeSize := 64, dwqeEnable := 0 }
        memory :=
          { byte := fun _ => 0, cqe := fun _ => .zeroed, queue := fun _ => .zeroed
            word := fun _ => 0 }
        dbPage := fun _ => .zeroed }
    nodes := [], live := [], acquired := [], released := [] }

/-- Three doorbells on two pages, of which the older page goes again. -/
theorem cdmaUAllocSwDb_run_twoSlots :
    ∃ final, run DbWorld.step .twoSlots
        [.alloc ⟨some 1, true, some 4096⟩, .alloc ⟨none, false, none⟩,
          .alloc ⟨none, false, none⟩, .alloc ⟨some 2, true, some 8192⟩, .free 4096,
          .free 4160] = some final ∧
      final.live = [8192] ∧ final.nodes = [2] ∧ final.live.Nodup := by
  have runs : (run DbWorld.step .twoSlots
      [.alloc ⟨some 1, true, some 4096⟩, .alloc ⟨none, false, none⟩,
        .alloc ⟨none, false, none⟩, .alloc ⟨some 2, true, some 8192⟩, .free 4096,
        .free 4160]).isSome := by decide
  obtain ⟨final, ran⟩ := Option.isSome_iff_exists.mp runs
  have initial : DbWorld.twoSlots.Initial := ⟨⟨7, by decide, by decide, rfl⟩, rfl, rfl, rfl, rfl, rfl⟩
  have shape : (run DbWorld.step .twoSlots
      [.alloc ⟨some 1, true, some 4096⟩, .alloc ⟨none, false, none⟩,
        .alloc ⟨none, false, none⟩, .alloc ⟨some 2, true, some 8192⟩, .free 4096,
        .free 4160]).map (fun final => (final.live, final.nodes)) = some ([8192], [2]) := by decide
  rw [ran, Option.map_some, Option.some.injEq, Prod.mk.injEq] at shape
  exact ⟨final, ran, shape.1, shape.2, (cdmaUAllocSwDb_run initial ran).2.1⟩

end Libcdma
