/-
What the list of devices holds, and which descriptors stand behind it.

An entry of the device directory yields a device or nothing, whatever was tried in
the same element of the array before it.  The list is the devices yielded by the
second reading of the directory, cut off at the number counted in the first one,
and their descriptors are all that a call leaves open.
-/

import Mathlib.Data.List.Count
import Libcdma.Foundation.WrapCounter
import Libcdma.Model.Device

namespace Libcdma

open Ledger WrapCounter

/-- The system gives out descriptors and streams that are not open already. -/
def Descriptor.grants : Grants Descriptor := ⟨fun _ => True, fun _ _ => True⟩

instance : DecidablePred Descriptor.grants.valid := fun _ => instDecidableTrue

instance : DecidableRel Descriptor.grants.apart := fun _ _ => instDecidableTrue

def DirEntry.opens (entry : DirEntry) : Option Int :=
  match entry.realpath (cdevPath entry.name) with
  | none => none
  | some realPath =>
      if cdmaCdevPath.length < realPath.length ∧
          realPath.take cdmaCdevPath.length = cdmaCdevPath ∧ 0 ≤ entry.openPath realPath then
        some (entry.openPath realPath)
      else none

/-- Whether the query of a descriptor is answered, and with a number of units in range. -/
def DirEntry.Answers (entry : DirEntry) (fd : Int) : Prop :=
  (entry.query fd).1 = 0 ∧ (entry.query fd).2.euNum ≠ 0 ∧
    (entry.query fd).2.euNum ≤ cdmaMaxEuNum

instance (entry : DirEntry) (fd : Int) : Decidable (entry.Answers fd) :=
  inferInstanceAs (Decidable (_ ∧ _))

def paddedName (name : EntryName) : List UInt8 :=
  name.bytes ++ List.replicate (cdmaMaxDevNameLen - name.bytes.length) 0

def DirEntry.record (entry : DirEntry) (fd : Int) : ListedDevice :=
  { name := paddedName entry.name, fd := fd
    attr := CdmaDeviceAttr.zeroed.fill (entry.query fd).2 }

def DirEntry.device (entry : DirEntry) : Option ListedDevice :=
  if entry.name.hidden then none
  else entry.opens.bind fun fd => if entry.Answers fd then some (entry.record fd) else none

theorem DirEntry.opens_nonneg {entry : DirEntry} {fd : Int} (opened : entry.opens = some fd) :
    0 ≤ fd ∧ ∃ realPath, entry.realpath (cdevPath entry.name) = some realPath ∧
      fd = entry.openPath realPath := by
  unfold DirEntry.opens at opened
  cases resolved : entry.realpath (cdevPath entry.name) with
  | none =>
      rw [resolved] at opened
      cases opened
  | some realPath =>
      simp only [resolved, Option.ite_none_right_eq_some, Option.some.injEq] at opened
      obtain ⟨⟨_, _, open_⟩, rfl⟩ := opened
      exact ⟨open_, realPath, rfl, rfl⟩

/-- A device under the name of the entry it was opened from, with the attributes
that its own descriptor answered with. -/
structure OpenedFrom (entry : DirEntry) (dev : ListedDevice) : Prop where
  visible : entry.name.hidden = false
  nonneg : 0 ≤ dev.fd
  opened : ∃ realPath, entry.realpath (cdevPath entry.name) = some realPath ∧
    dev.fd = entry.openPath realPath
  size : dev.name.length = cdmaMaxDevNameLen
  name_eq : cString dev.name = entry.name.bytes
  answered : (entry.query dev.fd).1 = 0
  attr_eq : dev.attr = CdmaDeviceAttr.zeroed.fill (entry.query dev.fd).2
  euNum : 1 ≤ dev.attr.euNum ∧ dev.attr.euNum ≤ 64

theorem cString_paddedName (name : EntryName) : cString (paddedName name) = name.bytes := by
  have short := name.short
  have nonzero : ∀ byte ∈ name.bytes, decide (byte ≠ 0) = true := by
    intro byte member
    refine decide_eq_true ?_
    rintro rfl
    exact name.nonzero member
  have room : cdmaMaxDevNameLen - name.bytes.length = (299 - name.bytes.length) + 1 := by
    unfold cdmaMaxDevNameLen
    omega
  unfold cString paddedName
  rw [List.takeWhile_append_of_pos nonzero, room, List.replicate_succ, List.takeWhile_cons_of_neg
    (by decide), List.append_nil]

theorem paddedName_length (name : EntryName) : (paddedName name).length = cdmaMaxDevNameLen := by
  have short := name.short
  unfold paddedName cdmaMaxDevNameLen
  rw [List.length_append, List.length_replicate]
  omega

theorem DirEntry.openedFrom {entry : DirEntry} {dev : ListedDevice}
    (yields : entry.device = some dev) : OpenedFrom entry dev := by
  unfold DirEntry.device at yields
  cases hidden : entry.name.hidden with
  | true =>
      rw [hidden] at yields
      cases yields
  | false =>
      simp only [hidden, Bool.false_eq_true, if_false, Option.bind_eq_some_iff,
        Option.ite_none_right_eq_some, Option.some.injEq] at yields
      obtain ⟨fd, opened, answers, rfl⟩ := yields
      obtain ⟨nonneg, path⟩ := DirEntry.opens_nonneg opened
      obtain ⟨answered, some, bounded⟩ := answers
      have least : (1 : UInt8) ≤ (entry.query fd).2.euNum := by
        have positive : (entry.query fd).2.euNum.toNat ≠ 0 :=
          fun zero => some (UInt8.toNat_inj.mp zero)
        rw [UInt8.le_iff_toNat_le, UInt8.toNat_one]
        omega
      exact ⟨hidden, nonneg, path, paddedName_length _, cString_paddedName _, answered, rfl,
        least, bounded⟩

section Entries

variable {ledger : List (Entry Descriptor)} {trusting : Prop}

theorem cdmaGetDevsNum_meets (counting : Option (Nat × List EntryName)) :
    Logged.Meets Descriptor.grants True ledger (cdmaGetDevsNum counting)
      fun _ after => after = ledger := by
  unfold cdmaGetDevsNum
  cases counting with
  | none => exact .pure rfl
  | some reading =>
      refine .granting (fun _ _ member => absurd member List.not_mem_nil) fun _ => ?_
      exact .leaving .release_top fun _ => .pure rfl

theorem cdmaOpenCdev_meets (entry : DirEntry) :
    Logged.Meets Descriptor.grants True ledger (cdmaOpenCdev entry (cdevPath entry.name))
      fun fd after => (entry.opens = none ∧ fd < 0 ∧ after = ledger) ∨
        (entry.opens = some fd ∧ 0 ≤ fd ∧ after = ⟨.file fd, []⟩ :: ledger) := by
  unfold cdmaOpenCdev DirEntry.opens
  cases entry.realpath (cdevPath entry.name) with
  | none => exact .pure (.inl ⟨rfl, by decide, rfl⟩)
  | some realPath =>
      dsimp only
      by_cases long : realPath.length ≤ cdmaCdevPath.length
      · rw [if_pos long, if_neg (fun good => Nat.not_lt.mpr long good.1)]
        exact .pure (.inl ⟨rfl, by decide, rfl⟩)
      rw [if_neg long]
      by_cases inside : realPath.take cdmaCdevPath.length = cdmaCdevPath
      · rw [if_neg (not_not.mpr inside)]
        by_cases failed : entry.openPath realPath < 0
        · rw [if_pos failed, if_neg (fun good => Int.not_lt.mpr good.2.2 failed)]
          exact .pure (.inl ⟨rfl, failed, rfl⟩)
        · have nonneg := Int.not_lt.mp failed
          rw [if_neg failed, if_pos ⟨Nat.not_le.mp long, inside, nonneg⟩]
          refine .granting (fun _ _ member => absurd member List.not_mem_nil) fun _ => ?_
          exact .pure (.inr ⟨rfl, nonneg, rfl⟩)
      · rw [if_pos inside, if_neg (fun good => inside good.2.1)]
        exact .pure (.inl ⟨rfl, by decide, rfl⟩)

theorem cdmaQueryDeviceInfo_meets (entry : DirEntry) {dev : ListedDevice}
    (held : .file dev.fd ∈ live ledger) :
    Logged.Meets Descriptor.grants True ledger (cdmaQueryDeviceInfo entry dev)
      fun result after => after = ledger ∧
        ((entry.Answers dev.fd ∧ result = (0, { dev with
            attr := dev.attr.fill (entry.query dev.fd).2 })) ∨
          (¬entry.Answers dev.fd ∧ result.1 ≠ 0 ∧ result.2 = dev)) := by
  unfold cdmaQueryDeviceInfo
  refine .leaving (.using held) fun _ => ?_
  by_cases failed : (entry.query dev.fd).1 = 0
  · by_cases none : (entry.query dev.fd).2.euNum = 0 ∨ (entry.query dev.fd).2.euNum > cdmaMaxEuNum
    · simp only [failed, ne_eq, not_true, if_false, if_pos none]
      have error : Errno.einval.value ≠ 0 := by decide
      refine .pure ⟨rfl, .inr ⟨fun answers => ?_, error, rfl⟩⟩
      rcases none with zero | many
      · exact answers.2.1 zero
      · exact UInt8.not_lt.mpr answers.2.2 many
    · simp only [failed, ne_eq, not_true, if_false, if_neg none]
      rw [not_or, gt_iff_lt, UInt8.not_lt] at none
      exact .pure ⟨rfl, .inl ⟨⟨failed, none⟩, rfl⟩⟩
  · simp only [ne_eq, failed, not_false_iff, if_true]
    exact .pure ⟨rfl, .inr ⟨fun answers => failed answers.1, failed, rfl⟩⟩

end Entries

/-- An element that no device has been put in: only its descriptor and the padded
part of its name may have been written. -/
structure ListedDevice.Free (dev : ListedDevice) : Prop where
  attr : dev.attr = .zeroed
  last : dev.name.drop (cdmaMaxDevNameLen - 1) = [0]

theorem ListedDevice.Free.zeroed : ListedDevice.zeroed.Free :=
  ⟨rfl, by decide⟩

theorem paddedName_split (name : EntryName) :
    paddedName name = name.bytes ++
      List.replicate (cdmaMaxDevNameLen - 1 - name.bytes.length) 0 ++ [0] := by
  have short := name.short
  have room : cdmaMaxDevNameLen - name.bytes.length =
      (cdmaMaxDevNameLen - 1 - name.bytes.length) + 1 := by
    unfold cdmaMaxDevNameLen
    omega
  unfold paddedName
  rw [room, List.replicate_succ', List.append_assoc]

theorem ListedDevice.Free.strncpy_eq {dev : ListedDevice} (free : dev.Free) (name : EntryName) :
    strncpy dev.name name.bytes (cdmaMaxDevNameLen - 1) = paddedName name := by
  have bounded : name.bytes.length ≤ cdmaMaxDevNameLen - 1 := Nat.le_trans name.short (by decide)
  unfold strncpy
  rw [free.last, List.take_of_length_le bounded, paddedName_split]

theorem ListedDevice.Free.retry {dev : ListedDevice} (free : dev.Free) (name : EntryName)
    (fd : Int) : ListedDevice.Free
      { dev with fd := fd, name := strncpy dev.name name.bytes (cdmaMaxDevNameLen - 1) } := by
  refine ⟨free.attr, ?_⟩
  have bounded : name.bytes.length ≤ cdmaMaxDevNameLen - 1 := Nat.le_trans name.short (by decide)
  change (strncpy dev.name name.bytes (cdmaMaxDevNameLen - 1)).drop (cdmaMaxDevNameLen - 1) = [0]
  rw [free.strncpy_eq, paddedName_split, List.drop_left']
  rw [List.length_append, List.length_replicate]
  omega

def FreeFrom (devList : List ListedDevice) (i : Nat) : Prop :=
  ∀ index, i ≤ index → ∀ dev, devList[index]? = some dev → dev.Free

theorem FreeFrom.set {devList : List ListedDevice} {i : Nat} (free : FreeFrom devList i)
    {dev : ListedDevice} (freed : dev.Free) : FreeFrom (devList.set i dev) i := by
  intro index above other found
  by_cases same : i = index
  · subst same
    rw [List.getElem?_set] at found
    simp only [if_true] at found
    split at found
    · cases found
      exact freed
    · cases found
  · rw [List.getElem?_set_ne same] at found
    exact free index above other found

theorem FreeFrom.taken {devList : List ListedDevice} {i : Nat} (free : FreeFrom devList i)
    (dev : ListedDevice) : FreeFrom (devList.set i dev) (i + 1) := by
  intro index above other found
  rw [List.getElem?_set_ne (by omega)] at found
  exact free index (by omega) other found

/-! ### The loop -/

def ListedDevice.entry (dev : ListedDevice) : Entry Descriptor := ⟨.file dev.fd, []⟩

def openEntries (devs : List ListedDevice) : List (Entry Descriptor) :=
  (devs.map ListedDevice.entry).reverse

theorem openEntries_cons (dev : ListedDevice) (devs : List ListedDevice)
    (ledger : List (Entry Descriptor)) :
    openEntries (dev :: devs) ++ ledger = openEntries devs ++ dev.entry :: ledger := by
  unfold openEntries
  rw [List.map_cons, List.reverse_cons, List.append_assoc, List.singleton_append]

/-- From some element on, the loop puts down the devices that the entries yield, as
many as there is room for, and leaves open what these were opened with. -/
structure Opened (numDevices : UInt32) (entries : List DirEntry) (i : UInt32)
    (devList : List ListedDevice) (ledger : List (Entry Descriptor))
    (result : UInt32 × List ListedDevice) (after : List (Entry Descriptor))
    (found : List ListedDevice) : Prop where
  found_eq : found = (entries.filterMap DirEntry.device).take (numDevices.toNat - i.toNat)
  count : result.1.toNat = i.toNat + found.length
  length : result.2.length = numDevices.toNat
  listed : result.2.take result.1.toNat = devList.take i.toNat ++ found
  after_eq : after = openEntries found ++ ledger

namespace Opened

variable {numDevices i : UInt32} {entry : DirEntry} {rest : List DirEntry}
  {devList : List ListedDevice} {dev : ListedDevice} {ledger after : List (Entry Descriptor)}
  {result : UInt32 × List ListedDevice} {found : List ListedDevice}

theorem skip {tried : List ListedDevice} (nothing : entry.device = none)
    (same : tried.take i.toNat = devList.take i.toNat)
    (opened : Opened numDevices rest i tried ledger result after found) :
    Opened numDevices (entry :: rest) i devList ledger result after found := by
  refine ⟨?_, opened.count, opened.length, ?_, opened.after_eq⟩
  · rw [List.filterMap_cons_none nothing]
    exact opened.found_eq
  · rw [← same]
    exact opened.listed

theorem cons (yields : entry.device = some dev) (more : i.toNat + 1 < numDevices.toNat)
    (length : devList.length = numDevices.toNat) (next : (i + 1).toNat = i.toNat + 1)
    (opened : Opened numDevices rest (i + 1) (devList.set i.toNat dev) (dev.entry :: ledger)
      result after found) :
    Opened numDevices (entry :: rest) i devList ledger result after (dev :: found) := by
  obtain ⟨found_eq, count, size, listed, after_eq⟩ := opened
  rw [next] at found_eq count listed
  refine ⟨?_, ?_, size, ?_, ?_⟩
  · have room : numDevices.toNat - i.toNat = numDevices.toNat - (i.toNat + 1) + 1 := by omega
    rw [List.filterMap_cons_some yields, room, List.take_succ_cons, found_eq]
  · rw [count, List.length_cons]
    omega
  · have inside : i.toNat < devList.length := by omega
    rw [listed, List.take_add_one, List.take_set_of_le (Nat.le_refl _), List.getElem?_set_self inside,
      List.append_assoc]
    rfl
  · rw [openEntries_cons]
    exact after_eq

theorem last (yields : entry.device = some dev) (full : numDevices.toNat = i.toNat + 1)
    (length : devList.length = numDevices.toNat) (next : (i + 1).toNat = i.toNat + 1) :
    Opened numDevices (entry :: rest) i devList ledger (i + 1, devList.set i.toNat dev)
      (dev.entry :: ledger) [dev] := by
  refine ⟨?_, next, ?_, ?_, rfl⟩
  · have room : numDevices.toNat - i.toNat = 0 + 1 := by omega
    rw [List.filterMap_cons_some yields, room, List.take_succ_cons, List.take_zero]
  · rw [List.length_set, length]
  · have inside : i.toNat < devList.length := by omega
    rw [next, List.take_add_one, List.take_set_of_le (Nat.le_refl _),
      List.getElem?_set_self inside]
    rfl

end Opened

section Loop

variable {numDevices i : UInt32} {entry : DirEntry} {rest : List DirEntry}
  {devList : List ListedDevice} {dev : ListedDevice} {ledger : List (Entry Descriptor)}

/-- An entry that is not hidden is tried in the next free element, and either leaves
it free or puts its device there. -/
theorem cdmaOpenDevices_try {post : UInt32 × List ListedDevice → List (Entry Descriptor) → Prop}
    (visible : ¬entry.name.hidden = true) (element : devList[i.toNat]? = some dev)
    (vacant : dev.Free)
    (skips : ∀ tried : ListedDevice, tried.Free → entry.device = none →
      Logged.Meets Descriptor.grants True ledger
        (cdmaOpenDevices numDevices rest i (devList.set i.toNat tried)) post)
    (puts : ∀ device, entry.device = some device →
      Logged.Meets Descriptor.grants True (device.entry :: ledger)
        (if i + 1 ≥ numDevices then pure (i + 1, devList.set i.toNat device)
          else cdmaOpenDevices numDevices rest (i + 1) (devList.set i.toNat device)) post) :
    Logged.Meets Descriptor.grants True ledger
      (cdmaOpenDevices numDevices (entry :: rest) i devList) post := by
  rw [cdmaOpenDevices, if_neg visible]
  have slot : Logged.Meets Descriptor.grants True ledger (Logged.lift devList[i.toNat]?)
      fun value after => value = dev ∧ after = ledger := .lift element ⟨rfl, rfl⟩
  refine .bind slot ?_
  rintro dev _ ⟨rfl, rfl⟩
  refine .bind (cdmaOpenCdev_meets entry) ?_
  rintro fd _ (⟨unopened, failed, rfl⟩ | ⟨opens, nonneg, rfl⟩)
  · have nothing : entry.device = none := by
      unfold DirEntry.device
      rw [if_neg visible, unopened]
      rfl
    rw [if_pos failed]
    exact skips _ ⟨vacant.attr, vacant.last⟩ nothing
  · have yields : entry.device = if entry.Answers fd then some (entry.record fd) else none := by
      unfold DirEntry.device
      rw [if_neg visible, opens]
      rfl
    rw [if_neg (Int.not_lt.mpr nonneg)]
    refine .bind (cdmaQueryDeviceInfo_meets entry List.mem_cons_self) ?_
    rintro ⟨ret, answered⟩ _ ⟨rfl, ⟨answers, same⟩ | ⟨unanswered, error, same⟩⟩
    · cases same
      have filled : ListedDevice.mk
          (strncpy dev.name entry.name.bytes (cdmaMaxDevNameLen - 1)) fd
          (dev.attr.fill (entry.query fd).2) = entry.record fd := by
        rw [vacant.strncpy_eq, vacant.attr]
        rfl
      rw [if_pos answers] at yields
      dsimp only
      rw [if_neg (not_not.mpr rfl), filled]
      exact puts _ yields
    · cases same
      rw [if_neg unanswered] at yields
      dsimp only at error ⊢
      rw [if_pos error]
      refine .leaving .release_top fun _ => ?_
      exact skips _ (vacant.retry entry.name (-1)) yields

theorem cdmaOpenDevices_meets {entries : List DirEntry} (room : i < numDevices)
    (length : devList.length = numDevices.toNat) (free : FreeFrom devList i.toNat) :
    Logged.Meets Descriptor.grants True ledger (cdmaOpenDevices numDevices entries i devList)
      fun result after => ∃ found,
        Opened numDevices entries i devList ledger result after found := by
  induction entries generalizing i devList ledger with
  | nil =>
      refine .pure ⟨[], by simp, by simp, length, by simp, rfl⟩
  | cons entry rest ih =>
      by_cases hidden : entry.name.hidden = true
      · rw [cdmaOpenDevices, if_pos hidden]
        refine (ih room length free).mono ?_
        rintro result after ⟨found, opened⟩
        exact ⟨found, opened.skip (if_pos hidden) rfl⟩
      have below := UInt32.lt_iff_toNat_lt.mp room
      obtain ⟨dev, element⟩ : ∃ dev, devList[i.toNat]? = some dev :=
        ⟨_, List.getElem?_eq_getElem (Nat.lt_of_lt_of_eq below length.symm)⟩
      have vacant := free i.toNat (Nat.le_refl _) dev element
      refine cdmaOpenDevices_try hidden element vacant (fun tried spare nothing => ?_)
        fun device yields => ?_
      · have unchanged : (devList.set i.toNat tried).length = numDevices.toNat := by
          rw [List.length_set, length]
        refine (ih room unchanged (free.set spare)).mono ?_
        rintro result after ⟨found, opened⟩
        exact ⟨found, opened.skip nothing (List.take_set_of_le (Nat.le_refl _))⟩
      · have next := toNat_succ_of_lt room
        by_cases full : i + 1 ≥ numDevices
        · rw [if_pos full]
          rw [ge_iff_le, UInt32.le_iff_toNat_le, next] at full
          exact .pure ⟨_, .last yields (by omega) length next⟩
        · rw [if_neg full]
          rw [ge_iff_le, UInt32.not_le] at full
          have taken : FreeFrom (devList.set i.toNat device) (i + 1).toNat := by
            rw [next]
            exact free.taken device
          refine (ih full (by rw [List.length_set, length]) taken).mono ?_
          rintro result after ⟨found, opened⟩
          rw [UInt32.lt_iff_toNat_lt, next] at full
          exact ⟨_, .cons yields full length next opened⟩

end Loop

/-! ### The list -/

def DeviceListEnv.entries (env : DeviceListEnv) : List DirEntry :=
  match env.opening with
  | none => []
  | some (_, entries) => entries

theorem FreeFrom.replicate (count : Nat) :
    FreeFrom (List.replicate count ListedDevice.zeroed) 0 := by
  intro index _ dev found
  rw [List.eq_of_mem_replicate (List.mem_of_getElem? found)]
  exact .zeroed

/-- A call that returns a list has put into it what the entries yield, cut off at the
number of elements, and leaves the descriptors of these devices open; a call that
returns none leaves nothing. -/
theorem cdmaGetDeviceList_meets (env : DeviceListEnv) {ledger : List (Entry Descriptor)} :
    Logged.Meets Descriptor.grants True ledger (cdmaGetDeviceList env) fun result after =>
      (result.1 = none ∧ after = ledger) ∨
      ∃ devList, result.1 = some devList ∧ result.2.toNat ≤ devList.length ∧
        devList.take result.2.toNat =
          (env.entries.filterMap DirEntry.device).take devList.length ∧
        after = openEntries (devList.take result.2.toNat) ++ ledger := by
  unfold cdmaGetDeviceList DeviceListEnv.entries
  refine .bind (cdmaGetDevsNum_meets env.counting) ?_
  rintro numDevices _ rfl
  by_cases none : numDevices = 0
  · rw [if_pos none]
    exact .pure (.inl ⟨rfl, rfl⟩)
  rw [if_neg none]
  cases env.opening with
  | none => exact .pure (.inl ⟨rfl, rfl⟩)
  | some reading =>
      obtain ⟨dir, entries⟩ := reading
      refine .granting (fun _ _ member => absurd member List.not_mem_nil) fun _ => ?_
      cases env.calloc with
      | false => exact .leaving .release_top fun _ => .pure (.inl ⟨rfl, rfl⟩)
      | true =>
          have some : 0 < numDevices := by
            rw [UInt32.lt_iff_toNat_lt]
            exact Nat.pos_of_ne_zero fun zero => none (UInt32.toNat_inj.mp zero)
          refine .bind (cdmaOpenDevices_meets some List.length_replicate (FreeFrom.replicate _)) ?_
          rintro ⟨i, devList⟩ _ ⟨found, found_eq, count, length, listed, rfl⟩
          have number : (if i ≠ numDevices then i else numDevices) = i := by
            split
            · rfl
            · rename_i same
              exact (not_not.mp same).symm
          refine .leaving (.release (openEntries found) fun entry member => ?_) fun _ => ?_
          · obtain ⟨dev, _, rfl⟩ := List.mem_map.mp (List.mem_reverse.mp member)
            exact List.not_mem_nil
          · change devList.length = numDevices.toNat at length
            change devList.take i.toNat = [] ++ found at listed
            change i.toNat = 0 + found.length at count
            have short : found.length ≤ numDevices.toNat := by
              rw [found_eq]
              exact List.length_take_le _ _
            refine .pure (.inr ⟨devList, rfl, ?_⟩)
            dsimp only
            rw [number, listed, List.nil_append, length]
            exact ⟨by omega, found_eq, rfl⟩

theorem openEntries_perm (devs : List ListedDevice) :
    (openEntries devs).Perm (devs.map ListedDevice.entry) :=
  List.reverse_perm _

theorem live_openEntries_perm (devs : List ListedDevice) :
    (live (openEntries devs)).Perm (devs.map fun dev => .file dev.fd) := by
  have entries := (openEntries_perm devs).map Entry.resource
  rw [List.map_map] at entries
  exact entries

/-- The list and the descriptors behind it: every element counted is a device opened
from its entry, the descriptors differ, and beside what was open before they are all
that is open; each other one was closed as often as it was opened. -/
structure Discovered (env : DeviceListEnv) (ledger : List (Entry Descriptor))
    (trace : List (Event Descriptor)) (devList : List ListedDevice) (numDevices : UInt32) :
    Prop where
  within : numDevices.toNat ≤ devList.length
  each : ∀ dev ∈ devList.take numDevices.toNat, ∃ entry ∈ env.entries, OpenedFrom entry dev
  distinct : ((devList.take numDevices.toNat).map ListedDevice.fd).Nodup
  left_open : (replay trace ledger).Perm
    ((devList.take numDevices.toNat).map ListedDevice.entry ++ ledger)
  balance : ∀ fd, trace.countP (Event.acquires (.file fd)) =
    trace.countP (Event.releases (.file fd)) +
      ((devList.take numDevices.toNat).map ListedDevice.fd).count fd

/-- Whatever the directory holds at either reading and whichever opens and queries
fail, a call returns, writes inside its array and closes nothing twice, and the list
and the descriptors left open go together. -/
theorem cdmaGetDeviceList_descriptors (env : DeviceListEnv) {ledger : List (Entry Descriptor)}
    (sound : Sound ledger)
    (fresh : Along (Event.Fresh Descriptor.grants) (cdmaGetDeviceList env).trace ledger) :
    Along Event.Legal (cdmaGetDeviceList env).trace ledger ∧
    ∃ devList numDevices, (cdmaGetDeviceList env).value = some (devList, numDevices) ∧
      ∀ listed ∈ devList, Discovered env ledger (cdmaGetDeviceList env).trace listed numDevices := by
  obtain ⟨_, legal, ⟨devList, numDevices⟩, done, outcome⟩ :=
    (cdmaGetDeviceList_meets env).outcome sound fun _ => fresh
  refine ⟨legal, devList, numDevices, done, ?_⟩
  rintro listed ⟨⟩
  rcases outcome with ⟨none, _⟩ | ⟨_, some, within, taken, after⟩
  · cases none
  cases some
  have open_ := (sound.replay fresh legal).distinct
  rw [after] at open_
  have files := live_openEntries_perm (listed.take numDevices.toNat)
  have injective : Function.Injective Descriptor.file := fun _ _ => Descriptor.file.inj
  have fds : (listed.take numDevices.toNat).map (fun dev => Descriptor.file dev.fd) =
      ((listed.take numDevices.toNat).map ListedDevice.fd).map .file := List.map_map.symm
  refine ⟨within, fun dev member => ?_, ?_, ?_, fun fd => ?_⟩
  · rw [taken] at member
    obtain ⟨entry, found, yields⟩ := List.mem_filterMap.mp (List.mem_of_mem_take member)
    exact ⟨entry, found, entry.openedFrom yields⟩
  · have distinct := open_
    rw [live_append] at distinct
    have opened := files.nodup_iff.mp (List.nodup_append.mp distinct).1
    rw [fds] at opened
    exact opened.of_map _
  · rw [after]
    exact (openEntries_perm _).append_right ledger
  · have counts := acquired_eq_released fresh legal (.file fd)
    rw [after, held_append open_, files.count_eq, fds,
      List.count_map_of_injective _ _ injective] at counts
    omega

def EntryName.numbered (digit : Fin 10) : EntryName :=
  { bytes := [99, 100, 109, 97, UInt8.ofNat (48 + digit.val)]
    nonzero := by revert digit; decide
    short := show 5 ≤ 255 by decide }

/-- A node that opens as this descriptor and answers, if it does, with one unit. -/
def DirEntry.node (digit : Fin 10) (fd : Int) (answers : Bool) : DirEntry :=
  { name := .numbered digit
    realpath := some
    openPath := fun _ => fd
    query := fun _ => if answers then (0, { CdmaDeviceAttr.zeroed with euNum := 1 })
      else (-1, .zeroed) }

/-- A directory in which the first of two nodes does not answer. -/
def DeviceListEnv.twoNodes : DeviceListEnv :=
  { counting := some (1, [.numbered 0, .numbered 1])
    opening := some (1, [.node 0 3 false, .node 1 3 true])
    calloc := true }

def DeviceListEnv.oneNode (fd : Int) : DeviceListEnv :=
  { counting := some (1, [.numbered 0])
    opening := some (1, [.node 0 fd true])
    calloc := true }

def DirEntry.unit (digit : Fin 10) (fd : Int) (eid : DevEid) : DirEntry :=
  { DirEntry.node digit fd true with
    query := fun _ =>
      (0, { CdmaDeviceAttr.zeroed with euNum := 1, eus := fun _ => { EuInfo.zeroed with eid } }) }

def DeviceListEnv.twoUnits : DeviceListEnv :=
  { DeviceListEnv.twoNodes with
    opening := some (1, [.unit 0 3 .zeroed, .unit 1 4 ⟨1, 0, 0, 0⟩]) }

theorem cdmaGetDeviceList_descriptors_twoNodes :
    ∃ devList, (cdmaGetDeviceList .twoNodes).value = some (some devList, 1) ∧
      (devList.take 1).map ListedDevice.fd = [3] ∧
      Along Event.Legal (cdmaGetDeviceList .twoNodes).trace [] ∧
      Discovered .twoNodes [] (cdmaGetDeviceList .twoNodes).trace devList 1 := by
  have sound : Sound ([] : List (Entry Descriptor)) := trivial
  obtain ⟨legal, listed, numDevices, done, discovered⟩ :=
    cdmaGetDeviceList_descriptors .twoNodes sound (by decide)
  obtain ⟨devList, found, fds⟩ : ∃ devList,
      (cdmaGetDeviceList .twoNodes).value = some (some devList, 1) ∧
      (devList.take 1).map ListedDevice.fd = [3] := ⟨_, rfl, rfl⟩
  cases done.symm.trans found
  exact ⟨devList, found, fds, legal, discovered devList rfl⟩

end Libcdma
