/-
Looking up one device and closing the others.

A lookup moves one element out of the list and gives the rest of it back, with or
without a result.  What is given back is closed only where its descriptor is above
zero, so a lookup keeps its books exactly when no listed device has descriptor zero.
-/

import Libcdma.DeviceDiscovery

namespace Libcdma

open Ledger

def closing (devs : List ListedDevice) : List Descriptor :=
  (devs.filter fun dev => 0 < dev.fd).map fun dev => .file dev.fd

theorem closing_append (left right : List ListedDevice) :
    closing (left ++ right) = closing left ++ closing right := by
  unfold closing
  rw [List.filter_append, List.map_append]

theorem closing_eq_map {devs : List ListedDevice} (positive : ∀ dev ∈ devs, 0 < dev.fd) :
    closing devs = devs.map fun dev => .file dev.fd := by
  unfold closing
  rw [List.filter_eq_self.mpr fun dev member => decide_eq_true (positive dev member)]

theorem file_zero_not_mem_closing (devs : List ListedDevice) : .file 0 ∉ closing devs := by
  intro member
  obtain ⟨dev, kept, same⟩ := List.mem_map.mp member
  have positive := of_decide_eq_true (List.mem_filter.mp kept).2
  rw [Descriptor.file.inj same] at positive
  exact Int.lt_irrefl _ positive

theorem closeDevices_take {spares : Nat → Bool} {i count : Nat} {devs : List ListedDevice}
    (inside : count ≤ devs.length) :
    closeDevices spares i count devs =
      closeDevices spares i (devs.take count).length (devs.take count) := by
  induction count generalizing i devs with
  | zero => rfl
  | succ count ih =>
      cases devs with
      | nil => exact absurd inside (Nat.not_succ_le_zero count)
      | cons dev rest =>
          rw [List.take_succ_cons, List.length_cons, closeDevices, closeDevices,
            ih (Nat.le_of_succ_le_succ inside)]

theorem closeDevices_cons (spares : Nat → Bool) (i : Nat) (dev : ListedDevice)
    (rest : List ListedDevice) {closed : List Descriptor}
    (later : closeDevices spares (i + 1) rest.length rest =
      ⟨some (), closed.map .released⟩) :
    closeDevices spares i (dev :: rest).length (dev :: rest) =
      ⟨some (), ((if spares i then [] else closing [dev]) ++ closed).map .released⟩ := by
  rw [List.length_cons, closeDevices, later]
  cases spared : spares i with
  | true => simp
  | false =>
      by_cases positive : dev.fd > 0
      · rw [if_pos ⟨positive, rfl⟩, Logged.bind_eq (Logged.emit_value _)]
        simp [closing, positive, Logged.emit]
      · rw [if_neg fun both => positive both.1]
        simp [closing, positive]

theorem closeDevices_all {spares : Nat → Bool} {i : Nat} (devs : List ListedDevice)
    (unspared : ∀ index, i ≤ index → spares index = false) :
    closeDevices spares i devs.length devs = ⟨some (), (closing devs).map .released⟩ := by
  induction devs generalizing i with
  | nil => rfl
  | cons dev rest ih =>
      have later := ih fun index above => unspared index (Nat.le_of_succ_le above)
      rw [closeDevices_cons _ _ _ _ later, unspared i (Nat.le_refl i),
        if_neg Bool.false_ne_true, ← closing_append, List.singleton_append]

theorem closeDevices_except {i idx : Nat} {before after : List ListedDevice} {dev : ListedDevice}
    (place : idx = i + before.length) :
    closeDevices (fun index => index == idx) i (before ++ dev :: after).length
        (before ++ dev :: after) =
      ⟨some (), (closing (before ++ after)).map .released⟩ := by
  induction before generalizing i with
  | nil =>
      have here : idx = i := place
      have unspared (index : Nat) (above : i + 1 ≤ index) : (index == idx) = false :=
        beq_false_of_ne (by omega)
      have later := closeDevices_all after unspared
      rw [List.nil_append, closeDevices_cons _ _ _ _ later, if_pos (beq_iff_eq.mpr here.symm)]
      rfl
  | cons first before ih =>
      rw [List.length_cons] at place
      have further : idx = i + 1 + before.length := by omega
      have later := ih further
      have different : ¬(i == idx) = true := fun same => by
        rw [beq_iff_eq] at same
        omega
      rw [List.cons_append, closeDevices_cons _ _ _ _ later, if_neg different, ← closing_append]
      rfl

/-- The first listed device with a unit of this EID, under the first such unit. -/
def firstByEid (eid : DevEid) (listed : List ListedDevice) : Option ListedDevice :=
  listed.findSome? fun dev => (cdmaFindSeidInEus dev eid).map dev.withEu

section Search

variable {calloc : Bool} {eid : DevEid} {devList : List ListedDevice} {numDevices : UInt32}

theorem findDevice_take {i count : Nat} {devs : List ListedDevice} (inside : count ≤ devs.length) :
    findDevice calloc eid devList numDevices i count devs =
      findDevice calloc eid devList numDevices i (devs.take count).length (devs.take count) := by
  induction count generalizing i devs with
  | zero => rfl
  | succ count ih =>
      cases devs with
      | nil => exact absurd inside (Nat.not_succ_le_zero count)
      | cons dev rest =>
          rw [List.take_succ_cons, List.length_cons, findDevice, findDevice,
            ih (Nat.le_of_succ_le_succ inside)]

theorem findDevice_none {i : Nat} {devs : List ListedDevice}
    (nothing : ∀ dev ∈ devs, cdmaFindSeidInEus dev eid = none) :
    findDevice calloc eid devList numDevices i devs.length devs =
      (do cdmaFreeDeviceList devList numDevices; pure none) := by
  induction devs generalizing i with
  | nil => rfl
  | cons dev rest ih =>
      rw [List.length_cons, findDevice, nothing dev List.mem_cons_self]
      exact ih fun other member => nothing other (List.mem_cons_of_mem _ member)

theorem findDevice_some {i : Nat} {before after : List ListedDevice} {dev : ListedDevice}
    {eu : EuInfo} (unmatched : ∀ other ∈ before, cdmaFindSeidInEus other eid = none)
    (found : cdmaFindSeidInEus dev eid = some eu) :
    findDevice calloc eid devList numDevices i (before ++ dev :: after).length
        (before ++ dev :: after) =
      if !calloc then (do cdmaFreeDeviceList devList numDevices; pure none)
      else (do
        cdmaFreeDeviceListExceptOne devList numDevices (i + before.length)
        pure (some (dev.withEu eu))) := by
  induction before generalizing i with
  | nil =>
      rw [List.nil_append, List.length_cons, findDevice, found]
      rfl
  | cons first before ih =>
      have place : i + (first :: before).length = i + 1 + before.length := by
        rw [List.length_cons]
        omega
      rw [List.cons_append, List.length_cons, findDevice, unmatched first List.mem_cons_self, place]
      exact ih fun other member => unmatched other (List.mem_cons_of_mem _ member)

/-- A search gives back all of the list but for what it returns. -/
theorem findDevice_cases (calloc : Bool) (eid : DevEid)
    (inside : numDevices.toNat ≤ devList.length) :
    ∃ closed kept, (devList.take numDevices.toNat).Perm (closed ++ kept) ∧
      findDevice calloc eid devList numDevices 0 numDevices.toNat devList =
        ⟨some (if calloc then firstByEid eid (devList.take numDevices.toNat) else none),
          (closing closed).map .released⟩ ∧
      kept.map ListedDevice.entry = (if calloc then
        firstByEid eid (devList.take numDevices.toNat) else none).toList.map ListedDevice.entry := by
  have free : cdmaFreeDeviceList devList numDevices = _ :=
    (closeDevices_take inside).trans (closeDevices_all _ fun _ _ => rfl)
  have nothing : (do cdmaFreeDeviceList devList numDevices; pure none) =
      (⟨some none, (closing (devList.take numDevices.toNat)).map .released⟩ :
        Logged Descriptor (Option ListedDevice)) := by
    rw [free]
    exact Logged.mk_bind_pure _ _ _
  have whole : (devList.take numDevices.toNat).Perm (devList.take numDevices.toNat ++ []) := by
    rw [List.append_nil]
  cases first : firstByEid eid (devList.take numDevices.toNat) with
  | none =>
      have unmatched (dev : ListedDevice) (member : dev ∈ devList.take numDevices.toNat) :
          cdmaFindSeidInEus dev eid = none :=
        Option.map_eq_none_iff.mp (List.findSome?_eq_none_iff.mp first dev member)
      refine ⟨_, [], whole, ?_, by rw [ite_self]; rfl⟩
      rw [findDevice_take inside, findDevice_none unmatched, nothing, ite_self]
  | some result =>
      obtain ⟨before, dev, after, split, matched, unmatched⟩ :=
        List.findSome?_eq_some_iff.mp first
      obtain ⟨eu, found, rfl⟩ := Option.map_eq_some_iff.mp matched
      have apart (other : ListedDevice) (member : other ∈ before) :
          cdmaFindSeidInEus other eid = none :=
        Option.map_eq_none_iff.mp (unmatched other member)
      have search : findDevice calloc eid devList numDevices 0 numDevices.toNat devList = _ :=
        findDevice_take inside
      rw [split, findDevice_some apart found] at search
      cases calloc with
      | false => exact ⟨_, [], whole, search.trans nothing, rfl⟩
      | true =>
          have others :
              cdmaFreeDeviceListExceptOne devList numDevices (0 + before.length) = _ :=
            closeDevices_take inside
          rw [split, closeDevices_except rfl] at others
          refine ⟨before ++ after, [dev], ?_, ?_, rfl⟩
          · have moved : ([dev] ++ after).Perm (after ++ [dev]) := List.perm_append_comm
            rw [split, List.append_assoc]
            exact moved.append_left before
          · rw [search, others]
            exact Logged.mk_bind_pure _ _ _

end Search

/-! ### The descriptors -/

theorem ListedDevice.not_mem_refs (dev : ListedDevice) (file : Descriptor) :
    file ∉ dev.entry.refs :=
  List.not_mem_nil

theorem closing_leaves {current ledger : List (Entry Descriptor)} {closed : List ListedDevice}
    (kept : List ListedDevice) (currentSound : Sound current) (sound : Sound ledger)
    (entries : current.Perm
      (closed.map ListedDevice.entry ++ (kept.map ListedDevice.entry ++ ledger)))
    (positive : ∀ dev ∈ closed, 0 < dev.fd) :
    Along Event.Legal ((closing closed).map .released) current ∧
      Sound (replay ((closing closed).map .released) current) ∧
      (replay ((closing closed).map .released) current).Perm
        (kept.map ListedDevice.entry ++ ledger) := by
  have closes : closing closed = live (closed.map ListedDevice.entry) := by
    rw [closing_eq_map positive]
    unfold live
    rw [List.map_map]
    rfl
  have distinct := (entries.map Entry.resource).nodup_iff.mp currentSound.distinct
  change (live (_ ++ _)).Nodup at distinct
  rw [live_append, ← closes] at distinct
  obtain ⟨single, _, apart⟩ := List.nodup_append.mp distinct
  have held (file : Descriptor) (member : file ∈ closing closed) : file ∈ live current := by
    rw [mem_live_perm entries, live_append, ← closes]
    exact List.mem_append_left _ member
  have unreferred (file : Descriptor) (member : file ∈ closing closed)
      (entry : Entry Descriptor) (listed : entry ∈ current) : file ∉ entry.refs := by
    have absent : file ∉ live (kept.map ListedDevice.entry ++ ledger) :=
      fun other => apart file member file other rfl
    rw [live_append, List.mem_append, not_or] at absent
    rw [entries.mem_iff, List.mem_append, List.mem_append] at listed
    rcases listed with first | rest | under
    · obtain ⟨dev, _, rfl⟩ := List.mem_map.mp first
      exact dev.not_mem_refs file
    · obtain ⟨dev, _, rfl⟩ := List.mem_map.mp rest
      exact dev.not_mem_refs file
    · exact sound.unreferred absent.2 entry under
  have legal := legal_released single held unreferred
  refine ⟨legal, currentSound.replay (fresh_released Descriptor.grants _ _) legal, ?_⟩
  have gone : (closed.map ListedDevice.entry).filter
      (fun entry => entry.resource ∉ closing closed) = [] := by
    refine List.filter_eq_nil_iff.mpr fun entry listed => ?_
    rw [decide_eq_true_eq, not_not, closes]
    exact List.mem_map_of_mem listed
  have left : (kept.map ListedDevice.entry ++ ledger).filter
      (fun entry => entry.resource ∉ closing closed) = kept.map ListedDevice.entry ++ ledger := by
    refine List.filter_eq_self.mpr fun entry listed => decide_eq_true fun member => ?_
    exact apart _ member _ (List.mem_map_of_mem listed) rfl
  have filtered := entries.filter fun entry => entry.resource ∉ closing closed
  rw [List.filter_append (closed.map _), gone, left] at filtered
  rw [replay_released]
  exact filtered

theorem dmaFreeDeviceList_one (result : Option ListedDevice) :
    dmaFreeDeviceList (result.map fun dev => [dev]) 1 =
      ⟨some (), (closing result.toList).map .released⟩ := by
  cases result with
  | none => rfl
  | some dev => exact closeDevices_all [dev] fun _ _ => rfl

def lookupAndFree (env : DeviceListEnv) (calloc : Bool) (eid : DevEid) :
    Logged Descriptor Unit := do
  let result ← cdmaGetDeviceByEid env calloc eid
  dmaFreeDeviceList (result.map fun dev => [dev]) 1

/-- A lookup returns the first device of the list with this EID, if it is given memory
for it, and of the list only what it returns stays open, until that is given back;
nothing is closed that is not open. -/
structure FindsByEid (env : DeviceListEnv) (calloc : Bool) (eid : DevEid)
    (ledger : List (Entry Descriptor)) (listed : List ListedDevice) : Prop where
  returned : (cdmaGetDeviceByEid env calloc eid).value =
    some (if calloc then firstByEid eid listed else none)
  open_eq : (replay (cdmaGetDeviceByEid env calloc eid).trace ledger).Perm
    ((if calloc then firstByEid eid listed else none).toList.map ListedDevice.entry ++ ledger)
  legal : Along Event.Legal (lookupAndFree env calloc eid).trace ledger
  freed : (lookupAndFree env calloc eid).value = some () ∧
    (replay (lookupAndFree env calloc eid).trace ledger).Perm ledger

theorem listed_nonneg {env : DeviceListEnv} {devs : List ListedDevice} {count : Nat}
    (taken : devs = (env.entries.filterMap DirEntry.device).take count) :
    ∀ dev ∈ devs, 0 ≤ dev.fd := by
  subst taken
  intro dev member
  obtain ⟨entry, _, yields⟩ := List.mem_filterMap.mp (List.mem_of_mem_take member)
  exact (DirEntry.openedFrom yields).nonneg

/-- How a lookup on a list went: what it closed and what it kept, on top of what was
open before. -/
structure LookedUp (env : DeviceListEnv) (calloc : Bool) (eid : DevEid)
    (ledger : List (Entry Descriptor)) (listed closed kept : List ListedDevice)
    (result : Option ListedDevice) : Prop where
  legal : Along Event.Legal (cdmaGetDeviceList env).trace ledger
  after_eq : replay (cdmaGetDeviceList env).trace ledger = openEntries listed ++ ledger
  sound : Sound (openEntries listed ++ ledger)
  split : listed.Perm (closed ++ kept)
  kept_eq : kept.map ListedDevice.entry = result.toList.map ListedDevice.entry
  lookup_eq : cdmaGetDeviceByEid env calloc eid =
    ⟨some result, (cdmaGetDeviceList env).trace ++ (closing closed).map .released⟩
  free_eq : lookupAndFree env calloc eid =
    ⟨some (), (cdmaGetDeviceList env).trace ++ (closing closed).map .released ++
      (closing result.toList).map .released⟩

namespace LookedUp

variable {env : DeviceListEnv} {calloc : Bool} {eid : DevEid} {ledger : List (Entry Descriptor)}
  {listed closed kept : List ListedDevice} {result : Option ListedDevice}

/-- Descriptor zero is never closed. -/
theorem nonzero (lookup : LookedUp env calloc eid ledger listed closed kept result)
    (freed : (replay (lookupAndFree env calloc eid).trace ledger).Perm ledger) :
    ∀ dev ∈ listed, dev.fd ≠ 0 := by
  intro dev member zero
  have opened : .file 0 ∈ live (openEntries listed) := by
    rw [(live_openEntries_perm _).mem_iff, ← zero]
    exact List.mem_map_of_mem member
  have under : .file 0 ∈ live (openEntries listed ++ ledger) := by
    rw [live_append]
    exact List.mem_append_left _ opened
  have kept := mem_live_replay_released (file_zero_not_mem_closing closed) under
  have stays := mem_live_replay_released (file_zero_not_mem_closing result.toList) kept
  rw [lookup.free_eq, replay_append, replay_append, lookup.after_eq] at freed
  rw [mem_live_perm freed] at stays
  have distinct := lookup.sound.distinct
  rw [live_append] at distinct
  exact (List.nodup_append.mp distinct).2.2 _ opened _ stays rfl

theorem closes (lookup : LookedUp env calloc eid ledger listed closed kept result)
    (sound : Sound ledger) (positive : ∀ dev ∈ listed, 0 < dev.fd) :
    (replay (cdmaGetDeviceByEid env calloc eid).trace ledger).Perm
        (result.toList.map ListedDevice.entry ++ ledger) ∧
      Along Event.Legal (lookupAndFree env calloc eid).trace ledger ∧
      (replay (lookupAndFree env calloc eid).trace ledger).Perm ledger := by
  have entries : (openEntries listed ++ ledger).Perm
      (closed.map ListedDevice.entry ++ (kept.map ListedDevice.entry ++ ledger)) := by
    rw [← List.append_assoc, ← List.map_append]
    exact ((openEntries_perm _).trans (lookup.split.map _)).append_right ledger
  have others (dev : ListedDevice) (member : dev ∈ closed) : 0 < dev.fd :=
    positive dev (lookup.split.mem_iff.mpr (List.mem_append_left _ member))
  have copied (dev : ListedDevice) (member : dev ∈ result.toList) : 0 < dev.fd := by
    have entry : dev.entry ∈ result.toList.map ListedDevice.entry := List.mem_map_of_mem member
    rw [← lookup.kept_eq] at entry
    obtain ⟨original, there, same⟩ := List.mem_map.mp entry
    rw [← Descriptor.file.inj (congrArg Entry.resource same)]
    exact positive original (lookup.split.mem_iff.mpr (List.mem_append_right _ there))
  obtain ⟨legalClosing, keptSound, keptOpen⟩ :=
    closing_leaves kept lookup.sound sound entries others
  rw [lookup.kept_eq] at keptOpen
  obtain ⟨legalFreeing, _, nothingOpen⟩ := closing_leaves [] keptSound sound keptOpen copied
  rw [lookup.lookup_eq, lookup.free_eq, replay_append, replay_append, replay_append, along_append,
    along_append, replay_append, lookup.after_eq]
  exact ⟨keptOpen, ⟨⟨lookup.legal, legalClosing⟩, legalFreeing⟩, nothingOpen⟩

end LookedUp

theorem cdmaGetDeviceByEid_lookedUp (env : DeviceListEnv) (calloc : Bool) (eid : DevEid)
    {ledger : List (Entry Descriptor)} (sound : Sound ledger)
    (fresh : Along (Event.Fresh Descriptor.grants) (cdmaGetDeviceList env).trace ledger)
    {devList : List ListedDevice} {numDevices : UInt32}
    (listing : (cdmaGetDeviceList env).value = some (some devList, numDevices)) :
    (∀ dev ∈ devList.take numDevices.toNat, 0 ≤ dev.fd) ∧
    ∃ closed kept, LookedUp env calloc eid ledger (devList.take numDevices.toNat) closed kept
      (if calloc then firstByEid eid (devList.take numDevices.toNat) else none) := by
  obtain ⟨_, legal, _, done, outcome⟩ :=
    (cdmaGetDeviceList_meets env).outcome sound fun _ => fresh
  cases listing.symm.trans done
  rcases outcome with ⟨none, _⟩ | ⟨_, same, inside, taken, after⟩
  · cases none
  cases same
  refine ⟨listed_nonneg taken, ?_⟩
  obtain ⟨closed, kept, split, search, returned⟩ := findDevice_cases calloc eid inside
  have listedSound := sound.replay fresh legal
  rw [after] at listedSound
  have lookup : cdmaGetDeviceByEid env calloc eid =
      ⟨some (if calloc then firstByEid eid (devList.take numDevices.toNat) else none),
        (cdmaGetDeviceList env).trace ++ (closing closed).map .released⟩ := by
    unfold cdmaGetDeviceByEid
    rw [Logged.bind_eq listing]
    dsimp only
    rw [search]
  refine ⟨closed, kept, legal, after, listedSound, split, returned, lookup, ?_⟩
  unfold lookupAndFree
  rw [lookup, Logged.bind_eq rfl, dmaFreeDeviceList_one]

/-- A lookup keeps to the list exactly when no listed device has descriptor zero. -/
theorem cdmaGetDeviceByEid_finds_iff (env : DeviceListEnv) (calloc : Bool) (eid : DevEid)
    {ledger : List (Entry Descriptor)} (sound : Sound ledger)
    (fresh : Along (Event.Fresh Descriptor.grants) (cdmaGetDeviceList env).trace ledger)
    {devList : List ListedDevice} {numDevices : UInt32}
    (listing : (cdmaGetDeviceList env).value = some (some devList, numDevices)) :
    FindsByEid env calloc eid ledger (devList.take numDevices.toNat) ↔
      ∀ dev ∈ devList.take numDevices.toNat, dev.fd ≠ 0 := by
  obtain ⟨nonneg, closed, kept, lookup⟩ :=
    cdmaGetDeviceByEid_lookedUp env calloc eid sound fresh listing
  constructor
  · intro finds
    exact lookup.nonzero finds.freed.2
  · intro nonzero
    have positive (dev : ListedDevice) (member : dev ∈ devList.take numDevices.toNat) :
        0 < dev.fd := by
      have atLeast := nonneg dev member
      have different := nonzero dev member
      omega
    obtain ⟨open_eq, legal, freed⟩ := lookup.closes sound positive
    have returned := congrArg Logged.value lookup.lookup_eq
    have ends := congrArg Logged.value lookup.free_eq
    exact ⟨returned, open_eq, legal, ends, freed⟩

/-- The second of two devices is found, and the first one closed. -/
theorem cdmaGetDeviceByEid_finds_iff_twoUnits :
    ∃ devList, (cdmaGetDeviceList .twoUnits).value = some (some devList, 2) ∧
      (devList.take 2).map ListedDevice.fd = [3, 4] ∧
      (cdmaGetDeviceByEid .twoUnits true ⟨1, 0, 0, 0⟩).value.map (Option.map ListedDevice.fd) =
        some (some 4) ∧
      FindsByEid .twoUnits true ⟨1, 0, 0, 0⟩ [] (devList.take 2) :=
  have sound : Sound ([] : List (Entry Descriptor)) := trivial
  have finds := cdmaGetDeviceByEid_finds_iff .twoUnits true ⟨1, 0, 0, 0⟩ sound (by decide) rfl
  ⟨_, rfl, rfl, by decide, finds.mpr (by decide)⟩

/-- A device opened as descriptor zero: neither a lookup that does not find it nor
giving back what a lookup found closes it. -/
theorem cdmaGetDeviceByEid_keeps_zero :
    Along (Event.Fresh Descriptor.grants) (cdmaGetDeviceList (.oneNode 0)).trace [] ∧
    ∃ devList numDevices,
      (cdmaGetDeviceList (.oneNode 0)).value = some (some devList, numDevices) ∧
      (cdmaGetDeviceByEid (.oneNode 0) true ⟨1, 0, 0, 0⟩).value.map Option.isNone = some true ∧
      live (replay (cdmaGetDeviceByEid (.oneNode 0) true ⟨1, 0, 0, 0⟩).trace []) = [.file 0] ∧
      live (replay (lookupAndFree (.oneNode 0) true .zeroed).trace []) = [.file 0] ∧
      ¬FindsByEid (.oneNode 0) true .zeroed [] (devList.take numDevices.toNat) := by
  have left : live (replay (lookupAndFree (.oneNode 0) true .zeroed).trace []) = [.file 0] := by
    decide
  refine ⟨by decide, _, _, rfl, by decide, by decide, left, fun finds => ?_⟩
  have empty := finds.freed.2.map Entry.resource
  change (live _).Perm [] at empty
  rw [left] at empty
  exact absurd empty.length_eq (by decide)

end Libcdma
