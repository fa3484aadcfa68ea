/-
Finding devices (`cdma_u_device.c`, with its entry points in `cdma_u_lib.c`).

The device directory is read twice, and may change between the two readings.  Each
entry of the second one comes with what the system answers when that entry is
resolved, opened and queried.  The computations record the directory streams and
the descriptors they open and close; what is on the heap is not recorded.  An element
past the end of an array has no value, so a call that has one stayed inside.
-/

import Libcdma.Foundation.Ledger
import Libcdma.Model.Types

namespace Libcdma

open Ledger

structure DevEid where
  dw0 : UInt32
  dw1 : UInt32
  dw2 : UInt32
  dw3 : UInt32
  deriving DecidableEq

structure EuInfo where
  eidIdx : UInt32
  eid : DevEid
  upi : UInt32
  deriving DecidableEq

def cdmaMaxEuNum : UInt8 := 64

structure CdmaDeviceAttr where
  euNum : UInt8
  eid : DevEid
  eu : EuInfo
  eus : Fin 64 → EuInfo
  devCap : CdmaDeviceCap

/-- `struct dma_device` with its name, as it stands in the list. -/
structure ListedDevice where
  name : List UInt8
  fd : Int
  attr : CdmaDeviceAttr

def DevEid.zeroed : DevEid := { dw0 := 0, dw1 := 0, dw2 := 0, dw3 := 0 }

def EuInfo.zeroed : EuInfo := { eidIdx := 0, eid := .zeroed, upi := 0 }

def CdmaDeviceAttr.zeroed : CdmaDeviceAttr :=
  { euNum := 0, eid := .zeroed, eu := .zeroed, eus := fun _ => .zeroed
    devCap := { maxJfcDepth := 0, maxJfsDepth := 0, maxJfsSge := 0, ceqCnt := 0 } }

def cdmaMaxDevNameLen : Nat := 300

def ListedDevice.zeroed : ListedDevice :=
  { name := List.replicate cdmaMaxDevNameLen 0, fd := 0, attr := .zeroed }

/-! ### Names and paths -/

structure EntryName where
  bytes : List UInt8
  nonzero : 0 ∉ bytes
  short : bytes.length ≤ 255

def EntryName.hidden (name : EntryName) : Bool := name.bytes.head? == some 46

/-- "/dev/cdma" -/
def cdmaCdevPath : List UInt8 := [47, 100, 101, 118, 47, 99, 100, 109, 97]

/-- What `snprintf` leaves in the path buffer for "%s/%s". -/
def cdevPath (name : EntryName) : List UInt8 :=
  (cdmaCdevPath ++ 47 :: name.bytes).take (cdmaMaxDevNameLen - 1)

/-- A source shorter than the count is padded with zeros. -/
def strncpy (dest source : List UInt8) (count : Nat) : List UInt8 :=
  source.take count ++ List.replicate (count - source.length) 0 ++ dest.drop count

def cString (bytes : List UInt8) : List UInt8 := bytes.takeWhile fun byte => byte ≠ 0

/-- A negative descriptor is a failure; `query` answers the ioctl on a descriptor. -/
structure DirEntry where
  name : EntryName
  realpath : List UInt8 → Option (List UInt8)
  openPath : List UInt8 → Int
  query : Int → Int × CdmaDeviceAttr

/-- Each reading comes with the stream it goes through, unless the directory cannot
be opened. -/
structure DeviceListEnv where
  counting : Option (Nat × List EntryName)
  opening : Option (Nat × List DirEntry)
  calloc : Bool

inductive Descriptor where
  | stream (dir : Nat)
  | file (fd : Int)
  deriving DecidableEq

def eio : Int := 5

/-! ### Building the list -/

def countDevs : List EntryName → UInt32 → UInt32
  | [], numDevices => numDevices
  | name :: rest, numDevices =>
      if name.hidden then countDevs rest numDevices else countDevs rest (numDevices + 1)

def cdmaGetDevsNum (counting : Option (Nat × List EntryName)) : Logged Descriptor UInt32 :=
  match counting with
  | none => pure 0
  | some (dir, names) => do
      Logged.emit (.granted ⟨.stream dir, []⟩)
      let numDevices := countDevs names 0
      Logged.emit (.released (.stream dir))
      pure numDevices

def cdmaOpenCdev (entry : DirEntry) (path : List UInt8) : Logged Descriptor Int :=
  match entry.realpath path with
  | none => pure (-eio)
  | some realPath =>
      if realPath.length ≤ cdmaCdevPath.length then pure (-eio)
      else if realPath.take cdmaCdevPath.length ≠ cdmaCdevPath then pure (-eio)
      else
        let fd := entry.openPath realPath
        if fd < 0 then pure fd
        else do
          Logged.emit (.granted ⟨.file fd, []⟩)
          pure fd

/-- What a query copies into the attributes of a device: of the units, as many as
are counted. -/
def CdmaDeviceAttr.fill (attr info : CdmaDeviceAttr) : CdmaDeviceAttr :=
  { euNum := info.euNum, eid := info.eid, eu := info.eus 0
    eus := fun index => if index.val < info.euNum.toNat then info.eus index else attr.eus index
    devCap := info.devCap }

def cdmaQueryDeviceInfo (entry : DirEntry) (dev : ListedDevice) :
    Logged Descriptor (Int × ListedDevice) := do
  Logged.emit (.used (.file dev.fd))
  let (ret, info) := entry.query dev.fd
  if ret ≠ 0 then pure (ret, dev)
  else if info.euNum = 0 ∨ info.euNum > cdmaMaxEuNum then pure (Errno.einval.value, dev)
  else pure (0, { dev with attr := dev.attr.fill info })

/-- The loop over the entries of the second reading, with the next free element and
the array. -/
def cdmaOpenDevices (numDevices : UInt32) :
    List DirEntry → UInt32 → List ListedDevice → Logged Descriptor (UInt32 × List ListedDevice)
  | [], i, devList => pure (i, devList)
  | entry :: rest, i, devList =>
      if entry.name.hidden then cdmaOpenDevices numDevices rest i devList
      else do
        let dev ← Logged.lift devList[i.toNat]?
        let fd ← cdmaOpenCdev entry (cdevPath entry.name)
        let dev := { dev with fd := fd }
        if fd < 0 then cdmaOpenDevices numDevices rest i (devList.set i.toNat dev)
        else do
          let dev := { dev with
            name := strncpy dev.name entry.name.bytes (cdmaMaxDevNameLen - 1) }
          let (ret, dev) ← cdmaQueryDeviceInfo entry dev
          if ret ≠ 0 then do
            Logged.emit (.released (.file dev.fd))
            cdmaOpenDevices numDevices rest i (devList.set i.toNat { dev with fd := -1 })
          else
            let devList := devList.set i.toNat dev
            if i + 1 ≥ numDevices then pure (i + 1, devList)
            else cdmaOpenDevices numDevices rest (i + 1) devList

/-- The list, which may be NULL, and the number written to `num_devices`. -/
def cdmaGetDeviceList (env : DeviceListEnv) :
    Logged Descriptor (Option (List ListedDevice) × UInt32) := do
  let numDevices ← cdmaGetDevsNum env.counting
  if numDevices = 0 then pure (none, 0)
  else
    match env.opening with
    | none => pure (none, numDevices)
    | some (dir, entries) => do
        Logged.emit (.granted ⟨.stream dir, []⟩)
        if !env.calloc then do
          Logged.emit (.released (.stream dir))
          pure (none, numDevices)
        else do
          let (i, devList) ← cdmaOpenDevices numDevices entries 0
            (List.replicate numDevices.toNat .zeroed)
          Logged.emit (.released (.stream dir))
          pure (some devList, if i ≠ numDevices then i else numDevices)

/-! ### Giving the list back -/

/-- The loop over so many elements, the first of which has index `i`: close their
descriptors, but for those spared. -/
def closeDevices (spares : Nat → Bool) : Nat → Nat → List ListedDevice → Logged Descriptor Unit
  | _, 0, _ => pure ()
  | _, _ + 1, [] => Logged.running
  | i, count + 1, dev :: rest =>
      if dev.fd > 0 ∧ spares i = false then do
        Logged.emit (.released (.file dev.fd))
        closeDevices spares (i + 1) count rest
      else closeDevices spares (i + 1) count rest

def cdmaFreeDeviceList (devList : List ListedDevice) (numDevices : UInt32) :
    Logged Descriptor Unit :=
  closeDevices (fun _ => false) 0 numDevices.toNat devList

def cdmaFreeDeviceListExceptOne (devList : List ListedDevice) (numDevices : UInt32) (idx : Nat) :
    Logged Descriptor Unit :=
  closeDevices (fun i => i == idx) 0 numDevices.toNat devList

def dmaFreeDeviceList (devList : Option (List ListedDevice)) (numDevices : UInt32) :
    Logged Descriptor Unit :=
  match devList with
  | none => pure ()
  | some devList => cdmaFreeDeviceList devList numDevices

/-! ### Finding one device -/

def cdmaFindSeidInEus (dev : ListedDevice) (eid : DevEid) : Option EuInfo :=
  ((List.ofFn dev.attr.eus).take dev.attr.euNum.toNat).find? fun eu => eu.eid = eid

def ListedDevice.withEu (dev : ListedDevice) (eu : EuInfo) : ListedDevice :=
  { dev with attr := { dev.attr with eu := eu } }

def findDevice (calloc : Bool) (eid : DevEid) (devList : List ListedDevice)
    (numDevices : UInt32) :
    Nat → Nat → List ListedDevice → Logged Descriptor (Option ListedDevice)
  | _, 0, _ => do
      cdmaFreeDeviceList devList numDevices
      pure none
  | _, _ + 1, [] => Logged.running
  | i, count + 1, dev :: rest =>
      match cdmaFindSeidInEus dev eid with
      | none => findDevice calloc eid devList numDevices (i + 1) count rest
      | some eu =>
          if !calloc then do
            cdmaFreeDeviceList devList numDevices
            pure none
          else do
            cdmaFreeDeviceListExceptOne devList numDevices i
            pure (some (dev.withEu eu))

/-- `calloc` answers the allocation of the copy that is returned. -/
def cdmaGetDeviceByEid (env : DeviceListEnv) (calloc : Bool) (eid : DevEid) :
    Logged Descriptor (Option ListedDevice) := do
  let (devList, numDevices) ← cdmaGetDeviceList env
  match devList with
  | none => pure none
  | some devList => findDevice calloc eid devList numDevices 0 numDevices.toNat devList

end Libcdma
