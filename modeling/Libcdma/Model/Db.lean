/-
Software doorbells (`cdma_u_db.c`): pages of doorbell slots, each with a bitmap
of its free slots, on a doubly linked list that hangs off the context.

Pages are nodes of a heap, addressed by natural numbers, with zero for NULL.  A
call that frees a page answers with what it gave back to the system: the mapping,
the bitmap and the node, none of which is read again.  The context's mutex is held
throughout each of the two calls.
-/

import Libcdma.Foundation.NodeList
import Libcdma.Foundation.WordBitmap
import Libcdma.Model.Common

namespace Libcdma

open WordBitmap

def cdmaBitsPerLong : UInt64 := 64
def cdmaBitsPerLongShift : UInt32 := 6
def cdmaDbSize : UInt32 := 64

structure CdmaUDbPage where
  prev : Nat
  next : Nat
  buf : Nat
  length : UInt32
  numDb : UInt32
  useCnt : UInt32
  bitmap : List UInt64
  bitmapCnt : UInt32

def CdmaUDbPage.zeroed : CdmaUDbPage :=
  { prev := 0, next := 0, buf := 0, length := 0, numDb := 0, useCnt := 0, bitmap := []
    bitmapCnt := 0 }

/-- The context, the memory shared with the device, and the heap of page nodes. -/
structure Host where
  ctx : CdmaUContext
  memory : Memory
  dbPage : Nat → CdmaUDbPage

def Host.setDbPage (host : Host) (node : Nat) (page : CdmaUDbPage) : Host :=
  { host with dbPage := Function.update host.dbPage node page }

def Host.setHead (host : Host) (node : Nat) : Host :=
  { host with ctx := { host.ctx with page := node } }

/-- A piece of memory that a page holds: its mapping goes back by `munmap`, which is
given the size again, and the bitmap and the node of a page by `free`. -/
inductive DbBlock where
  | mapping (buf : Nat) (size : UInt32)
  | bitmap (dbPage : Nat)
  | node (dbPage : Nat)
  deriving DecidableEq

/-- What the allocator answers to a new page: its node, whether there is room for
the bitmap, and the address of the mapping. -/
structure DbPageEnv where
  node : Option Nat
  bitmap : Bool
  buf : Option Nat

/-! ### The bitmap of a page -/

def cdmaBitmapAlloc (room : Bool) (nBits : UInt32) : Option (List UInt64 × UInt32) :=
  let bitmapCnt := (align nBits.toUInt64 cdmaBitsPerLong / cdmaBitsPerLong).toUInt32
  if room then some (List.replicate bitmapCnt.toNat (~~~0), bitmapCnt) else none

/-- One more than the index of the lowest set bit, zero for no bit. -/
def ffsl (word : UInt64) : UInt32 :=
  match lowest word with
  | none => 0
  | some bit => UInt32.ofNat (bit + 1)

/-- The error, the index written through the pointer, and the bitmap.  A bit past
`nBits` writes its index before the call fails. -/
def cdmaBitmapUseIdx (bitmap : List UInt64) (bitmapCnt nBits idx : UInt32) :
    Option Errno × UInt32 × List UInt64 :=
  let i := firstWord bitmap bitmapCnt.toNat 0
  if i = bitmapCnt.toNat then (some .enomem, idx, bitmap)
  else
    let bitNum := ffsl (bitmap.getD i 0)
    let idx := (UInt32.ofNat i <<< cdmaBitsPerLongShift) + bitNum - 1
    if idx ≥ nBits then (some .enomem, idx, bitmap)
    else
      let word := bitmap.getD i 0 &&& ~~~((1 : UInt64) <<< (bitNum - 1).toUInt64)
      (none, idx, bitmap.set i word)

def cdmaBitmapFreeIdx (bitmap : List UInt64) (bitmapCnt idx : UInt32) : List UInt64 :=
  let bitmapNum := idx >>> cdmaBitsPerLongShift
  if bitmapNum ≥ bitmapCnt then bitmap
  else
    let bitNum := idx.toUInt64 % cdmaBitsPerLong
    bitmap.set bitmapNum.toNat (bitmap.getD bitmapNum.toNat 0 ||| ((1 : UInt64) <<< bitNum))

/-! ### The list of pages -/

def cdmaAddDbPage (env : DbPageEnv) (host : Host) : Option Nat × Host :=
  match env.node with
  | none => (none, host)
  | some dbPage =>
      let pageSize := host.ctx.pageSize
      let numDb := pageSize / cdmaDbSize
      match cdmaBitmapAlloc env.bitmap numDb with
      | none => (none, host)
      | some (bitmap, bitmapCnt) =>
          match cdmaUAllocBuf env.buf host.memory pageSize with
          | none => (none, host)
          | some (buf, memory) =>
              let next := host.ctx.page
              let page :=
                { CdmaUDbPage.zeroed with
                  next := next, buf := buf, length := pageSize, numDb := numDb
                  bitmap := bitmap, bitmapCnt := bitmapCnt }
              let host := ({ host with memory := memory }.setDbPage dbPage page).setHead dbPage
              if next ≠ 0 then
                (some dbPage, host.setDbPage next { host.dbPage next with prev := dbPage })
              else (some dbPage, host)

/-- The page that an allocation takes its slot from: the first with a free one,
or a new one.  No answer means that the loop over the pages is still running. -/
def cdmaUPickDbPage (fuel : Nat) (env : DbPageEnv) (host : Host) : Option (Option Nat × Host) :=
  let room := fun node => decide ((host.dbPage node).useCnt < (host.dbPage node).numDb)
  match NodeList.search 0 (fun node => (host.dbPage node).next) room fuel host.ctx.page with
  | none => none
  | some (some dbPage) => some (some dbPage, host)
  | some none => some (cdmaAddDbPage env host)

def cdmaUAllocSwDb (fuel : Nat) (env : DbPageEnv) (host : Host) : Option (Option Nat × Host) :=
  match cdmaUPickDbPage fuel env host with
  | none => none
  | some (none, host) => some (none, host)
  | some (some dbPage, host) =>
      let page := host.dbPage dbPage
      let (_, npos, bitmap) := cdmaBitmapUseIdx page.bitmap page.bitmapCnt page.numDb 0
      let db := page.buf + (npos * cdmaDbSize).toNat
      some (some db, host.setDbPage dbPage { page with bitmap := bitmap, useCnt := page.useCnt + 1 })

def dbPageStart (pageSize : UInt32) (db : Nat) : Nat :=
  (UInt64.ofNat db &&& ~~~(pageSize.toUInt64 - 1)).toNat

def cdmaUFreeBuf (buf : Nat) (bufSize : UInt32) : List DbBlock := [.mapping buf bufSize]

def cdmaBitmapFree (dbPage : Nat) : List DbBlock := [.bitmap dbPage]

/-- What is given back, in this order, when the page at a node is cleared. -/
def cdmaClearDbPage (host : Host) (dbPage : Nat) : List DbBlock :=
  let page := host.dbPage dbPage
  (if page.buf ≠ 0 then cdmaUFreeBuf page.buf page.length else []) ++
    cdmaBitmapFree dbPage ++ [.node dbPage]

def cdmaUUnlinkDbPage (host : Host) (dbPage : Nat) : Host :=
  let page := host.dbPage dbPage
  let host :=
    if page.prev ≠ 0 then
      host.setDbPage page.prev { host.dbPage page.prev with next := page.next }
    else host.setHead page.next
  if page.next ≠ 0 then
    host.setDbPage page.next { host.dbPage page.next with prev := page.prev }
  else host

def cdmaUFreeSwDb (fuel : Nat) (host : Host) (db : Nat) : Option (Host × List DbBlock) :=
  let around := fun node => decide (dbPageStart host.ctx.pageSize db = (host.dbPage node).buf)
  match NodeList.search 0 (fun node => (host.dbPage node).next) around fuel host.ctx.page with
  | none => none
  | some none => some (host, [])
  | some (some dbPage) =>
      let page := { host.dbPage dbPage with useCnt := (host.dbPage dbPage).useCnt - 1 }
      if page.useCnt = 0 then
        let host := cdmaUUnlinkDbPage (host.setDbPage dbPage page) dbPage
        some (host, cdmaClearDbPage host dbPage)
      else
        let npos := UInt32.ofNat ((db - page.buf) / cdmaDbSize.toNat)
        let bitmap := cdmaBitmapFreeIdx page.bitmap page.bitmapCnt npos
        some (host.setDbPage dbPage { page with bitmap := bitmap }, [])

end Libcdma
