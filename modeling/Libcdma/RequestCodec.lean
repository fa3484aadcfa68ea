/-
The device's reading of a work request.

The decoder is written from the layouts alone: bit positions in the control
structure, segments of 16 bytes after it, atomic operands at byte 64.  Every
request that posting accepts is recovered from the blocks it occupies.
-/

import Libcdma.SendRing

namespace Libcdma

open WrapCounter ByteImage BlockRing

structure WqeSge where
  length : UInt32
  tokenId : UInt32
  va : UInt64
  deriving DecidableEq, Repr

inductive SqeBody where
  | write (sges : List WqeSge)
  | writeNotify (tokenId tokenValue : UInt32) (addr data : UInt64) (sges : List WqeSge)
  | read (sges : List WqeSge)
  | cas (sge : WqeSge) (swap cmp : List UInt8)
  | faa (sge : WqeSge) (operand : List UInt8)
  deriving DecidableEq, Repr

structure SqeView where
  cqe : Bool
  fence : Bool
  compOrder : Bool
  se : Bool
  placeOdr : BitVec 2
  tpn : UInt32
  rmtEid : UInt32
  toid : UInt32
  tokenEn : Bool
  rmtTokenValue : UInt32
  rmtAddr : UInt64
  body : SqeBody
  deriving DecidableEq, Repr

def word32 (bytes : List UInt8) (offset : Nat) : UInt32 := UInt32.ofNat (ofLe (slice bytes offset 4))

def word64 (bytes : List UInt8) (offset : Nat) : UInt64 := UInt64.ofNat (ofLe (slice bytes offset 8))

def decodeSge (bytes : List UInt8) (offset : Nat) : WqeSge :=
  { length := word32 bytes offset
    tokenId := word32 bytes (offset + 4)
    va := word64 bytes (offset + 8) }

def decodeSges (bytes : List UInt8) (offset count : Nat) : List WqeSge :=
  (List.range count).map (fun index => decodeSge bytes (offset + index * 16))

def decodeCas (bytes : List UInt8) : SqeBody :=
  let sge := decodeSge bytes 48
  .cas sge (slice bytes 64 sge.length.toNat)
    (slice bytes (64 + sge.length.toNat) sge.length.toNat)

def decodeFaa (bytes : List UInt8) : SqeBody :=
  let sge := decodeSge bytes 48
  .faa sge (slice bytes 64 sge.length.toNat)

def decodeNotify (bytes : List UInt8) (count : Nat) : SqeBody :=
  let token := bits (ofLe (slice bytes 48 4)) 0 20
  .writeNotify (UInt32.ofBitVec (token.setWidth 32)) (word32 bytes 52) (word64 bytes 56)
    (word64 bytes 64) (decodeSges bytes 80 count)

def decodeBody (opcode : Nat) (bytes : List UInt8) (count : Nat) : Option SqeBody :=
  match opcode with
  | 0x03 => some (.write (decodeSges bytes 48 count))
  | 0x05 => some (decodeNotify bytes count)
  | 0x06 => some (.read (decodeSges bytes 48 count))
  | 0x07 => some (decodeCas bytes)
  | 0x0b => some (decodeFaa bytes)
  | _ => none

def decodeSqe (bytes : List UInt8) : Option SqeView :=
  let header := ofLe (slice bytes 0 48)
  (decodeBody (bits header 40 8).toNat bytes (bits header 88 8).toNat).map fun body =>
    { cqe := bits header 21 1 == 1
      fence := bits header 19 1 == 1
      compOrder := bits header 18 1 == 1
      se := bits header 20 1 == 1
      placeOdr := bits header 16 2
      tpn := UInt32.ofBitVec ((bits header 64 24).setWidth 32)
      rmtEid := UInt32.ofBitVec (bits header 128 32)
      toid := UInt32.ofBitVec ((bits header 96 20).setWidth 32)
      tokenEn := bits header 28 1 == 1
      rmtTokenValue := UInt32.ofBitVec (bits header 256 32)
      rmtAddr := UInt64.ofBitVec (bits header 352 32 ++ bits header 320 32)
      body := body }

def DmaSge.view (sge : DmaSge) : WqeSge :=
  { length := sge.len, tokenId := sge.seg.tid, va := sge.addr }

/-- The segments that are not empty, in order. -/
def DmaSg.live (sg : DmaSg) : List DmaSge :=
  ((List.range sg.numSge.toNat).map sg.sge).filter (fun sge => sge.len ≠ 0)

namespace DmaJfsWr

def remote (wr : DmaJfsWr) : DmaSge :=
  match wr.opcode with
  | .read => wr.rw.src.sge 0
  | .cas => wr.cas.dst
  | .fadd => wr.faa.dst
  | _ => wr.rw.dst.sge 0

def localSges (wr : DmaJfsWr) : List DmaSge :=
  match wr.opcode with
  | .read => wr.rw.dst.live
  | .cas => [wr.cas.src]
  | .fadd => [wr.faa.src]
  | _ => wr.rw.src.live

/-- The bytes of an atomic operand: the low bytes of the word, or what the word points to. -/
def operandBytes (memory : Bytes) (word : UInt64) (len : UInt32) : List UInt8 :=
  if len ≤ 8 then leBytes len.toNat word.toNat else load memory word.toNat len.toNat

def body (memory : Bytes) (wr : DmaJfsWr) : Option SqeBody :=
  let sges := wr.localSges.map DmaSge.view
  match wr.opcode with
  | .write => some (.write sges)
  | .writeNotify =>
      some (.writeNotify wr.rw.notifyTokenid wr.rw.notifyTokenvalue wr.rw.notifyAddr
        wr.rw.notifyData sges)
  | .read => some (.read sges)
  | .cas =>
      some (.cas wr.cas.src.view (operandBytes memory wr.cas.swapData wr.cas.src.len)
        (operandBytes memory wr.cas.cmpData wr.cas.src.len))
  | .fadd => some (.faa wr.faa.src.view (operandBytes memory wr.faa.operand wr.faa.src.len))
  | _ => none

def view (memory : Bytes) (wr : DmaJfsWr) : Option SqeView :=
  (wr.body memory).map fun body =>
    { cqe := wr.flag.completeEnable
      fence := wr.flag.fence
      compOrder := wr.flag.compOrder
      se := wr.flag.solicitedEnable
      placeOdr := wr.flag.placeOrder
      tpn := wr.tpn
      rmtEid := wr.rmtEid
      toid := wr.remote.seg.tid
      tokenEn := wr.remote.seg.tokenValueValid
      rmtTokenValue := wr.remote.seg.tokenValue
      rmtAddr := wr.remote.addr
      body := body }

/-- The values that the fields of the encoding are wide enough for. -/
structure Encodable (wr : DmaJfsWr) : Prop where
  tpn : wr.tpn.toNat < 2 ^ 24
  remoteTid : wr.remote.seg.tid.toNat < 2 ^ 20
  notifyTid : wr.opcode = .writeNotify → wr.rw.notifyTokenid.toNat < 2 ^ 20
  segments : wr.localSges.length ≤ 13

end DmaJfsWr

def sqeCtlWidths : List Nat :=
  [16, 2, 1, 1, 1, 1, 1, 5, 1, 2, 1, 8, 8, 6, 10, 24, 8, 20, 12, 32, 32, 32, 32, 32, 32, 32, 32]

theorem CdmaJfsSqeCtl.layout (ctl : CdmaJfsSqeCtl) :
    ctl.fields.map Sigma.fst = sqeCtlWidths := rfl

theorem rmtEid_words : 0 < 4 := by decide

theorem CdmaJfsSqeCtl.bits_fields (ctl : CdmaJfsSqeCtl) :
    bits (pack ctl.fields) 16 2 = ctl.placeOdr ∧
    bits (pack ctl.fields) 18 1 = BitVec.ofBool ctl.compOrder ∧
    bits (pack ctl.fields) 19 1 = BitVec.ofBool ctl.fence ∧
    bits (pack ctl.fields) 20 1 = BitVec.ofBool ctl.se ∧
    bits (pack ctl.fields) 21 1 = BitVec.ofBool ctl.cqe ∧
    bits (pack ctl.fields) 28 1 = BitVec.ofBool ctl.tokenEn ∧
    bits (pack ctl.fields) 40 8 = ctl.opcode ∧
    bits (pack ctl.fields) 64 24 = ctl.tpn ∧
    bits (pack ctl.fields) 88 8 = ctl.sgeNum ∧
    bits (pack ctl.fields) 96 20 = ctl.toid ∧
    bits (pack ctl.fields) 128 32 = ctl.rmtEid.get ⟨0, rmtEid_words⟩ ∧
    bits (pack ctl.fields) 256 32 = ctl.rmtTokenValue ∧
    bits (pack ctl.fields) 320 32 = ctl.rmtAddrLOrTid ∧
    bits (pack ctl.fields) 352 32 = ctl.rmtAddrHOrTval :=
  ⟨bits_pack_at ctl.layout 1 ⟨2, ctl.placeOdr⟩ rfl (by decide),
    bits_pack_at ctl.layout 2 (flagField ctl.compOrder) rfl (by decide),
    bits_pack_at ctl.layout 3 (flagField ctl.fence) rfl (by decide),
    bits_pack_at ctl.layout 4 (flagField ctl.se) rfl (by decide),
    bits_pack_at ctl.layout 5 (flagField ctl.cqe) rfl (by decide),
    bits_pack_at ctl.layout 8 (flagField ctl.tokenEn) rfl (by decide),
    bits_pack_at ctl.layout 12 ⟨8, ctl.opcode⟩ rfl (by decide),
    bits_pack_at ctl.layout 15 ⟨24, ctl.tpn⟩ rfl (by decide),
    bits_pack_at ctl.layout 16 ⟨8, ctl.sgeNum⟩ rfl (by decide),
    bits_pack_at ctl.layout 17 ⟨20, ctl.toid⟩ rfl (by decide),
    bits_pack_at ctl.layout 19 ⟨32, ctl.rmtEid.get ⟨0, rmtEid_words⟩⟩ rfl (by decide),
    bits_pack_at ctl.layout 23 ⟨32, ctl.rmtTokenValue⟩ rfl (by decide),
    bits_pack_at ctl.layout 25 ⟨32, ctl.rmtAddrLOrTid⟩ rfl (by decide),
    bits_pack_at ctl.layout 26 ⟨32, ctl.rmtAddrHOrTval⟩ rfl (by decide)⟩

theorem ofBool_beq_one (flag : Bool) : (BitVec.ofBool flag == 1) = flag := by
  cases flag <;> rfl

theorem setWidth_of_lt {word : UInt32} {width : Nat} (fits : word.toNat < 2 ^ width) :
    UInt32.ofBitVec ((word.toBitVec.setWidth width).setWidth 32) = word := by
  apply UInt32.toNat_inj.mp
  change ((word.toBitVec.setWidth width).setWidth 32).toNat = word.toNat
  rw [BitVec.toNat_setWidth, BitVec.toNat_setWidth]
  change word.toNat % 2 ^ width % 2 ^ 32 = word.toNat
  have bounded := word.toNat_lt
  rw [Nat.mod_eq_of_lt fits, Nat.mod_eq_of_lt bounded]

theorem addr_halves (addr : UInt64) :
    UInt64.ofBitVec ((addr >>> 32).toBitVec.setWidth 32 ++ addr.toBitVec.setWidth 32) = addr := by
  apply UInt64.toNat_inj.mp
  change ((addr >>> 32).toBitVec.setWidth 32 ++ addr.toBitVec.setWidth 32).toNat = addr.toNat
  have bounded := addr.toNat_lt
  have high : (addr >>> 32).toNat = addr.toNat / 2 ^ 32 := by
    rw [UInt64.toNat_shiftRight]
    change addr.toNat >>> 32 = _
    rw [Nat.shiftRight_eq_div_pow]
  rw [BitVec.toNat_append, BitVec.toNat_setWidth, BitVec.toNat_setWidth]
  change ((addr >>> 32).toNat % 2 ^ 32) <<< 32 ||| addr.toNat % 2 ^ 32 = _
  rw [high, ← Nat.shiftLeft_add_eq_or_of_lt (Nat.mod_lt _ (by decide)), Nat.shiftLeft_eq]
  omega

/-! ### Reading the blocks of a staging buffer -/

theorem TmpSq.slice_header (tmp : TmpSq) {size : Nat} (long : 48 ≤ size) :
    ofLe (slice (load tmp.bytes 0 size) 0 48) = pack tmp.ctl.fields := by
  have header : load tmp.bytes 0 48 = image 48 tmp.ctl.fields := by
    apply List.ext_getElem
    · rw [load_length, image_length]
    · intro offset left right
      rw [image_length] at right
      simp [load, TmpSq.bytes, right]
  rw [slice_load _ (by omega), Nat.zero_add, header, ofLe_image]
  rw [packWidth_eq_sum, tmp.ctl.layout]
  decide

theorem TmpSq.slice_raw (tmp : TmpSq) {size offset count : Nat} (above : 48 ≤ offset)
    (within : offset + count ≤ size) :
    slice (load tmp.bytes 0 size) offset count = load tmp.raw offset count := by
  rw [slice_load _ within]
  apply load_congr
  intro index _
  rw [Nat.zero_add, TmpSq.bytes, if_neg (by omega)]

theorem word32_of_slice {bytes : List UInt8} {offset : Nat} {word : UInt32}
    (here : slice bytes offset 4 = leBytes 4 word.toNat) : word32 bytes offset = word := by
  unfold word32
  rw [here, ofLe_leBytes_of_lt word.toNat_lt]
  exact UInt32.ofNat_toNat

theorem word64_of_slice {bytes : List UInt8} {offset : Nat} {word : UInt64}
    (here : slice bytes offset 8 = leBytes 8 word.toNat) : word64 bytes offset = word := by
  unfold word64
  rw [here, ofLe_leBytes_of_lt word.toNat_lt]
  exact UInt64.ofNat_toNat

theorem DmaSge.wqeSge_length (sge : DmaSge) : sge.wqeSge.length = 16 := by
  simp [DmaSge.wqeSge]

theorem decodeSge_of_slice {bytes : List UInt8} {offset : Nat} {sge : DmaSge}
    (here : slice bytes offset 16 = sge.wqeSge) : decodeSge bytes offset = sge.view := by
  have part (start count : Nat) (within : start + count ≤ 16) :
      slice bytes (offset + start) count = slice sge.wqeSge start count := by
    rw [← here, slice_slice bytes within]
  have length : slice bytes offset 4 = leBytes 4 sge.len.toNat := by
    have first := part 0 4 (by decide)
    rw [Nat.add_zero, DmaSge.wqeSge, List.append_assoc,
      slice_append_left (leBytes_length _ _)] at first
    exact first
  have token : slice bytes (offset + 4) 4 = leBytes 4 sge.seg.tid.toNat := by
    rw [part 4 4 (by decide), DmaSge.wqeSge]
    simp [slice]
  have address : slice bytes (offset + 8) 8 = leBytes 8 sge.addr.toNat := by
    rw [part 8 8 (by decide), DmaSge.wqeSge]
    exact slice_append_right (by simp) (leBytes_length _ _)
  unfold decodeSge DmaSge.view
  rw [word32_of_slice length, word32_of_slice token, word64_of_slice address]

/-- Segments laid out one after another from an offset on, nothing below touched. -/
structure LaidOut (sges : List DmaSge) (offset : Nat) (before after : Bytes) : Prop where
  here : ∀ index (inside : index < sges.length),
    load after (offset + index * 16) 16 = sges[index].wqeSge
  below : ∀ address, address < offset → after address = before address

theorem fillSges_laidOut (sge : Nat → DmaSge) (left i offset : Nat) (raw : Bytes)
    (sgeNum : UInt32) :
    LaidOut (((List.range' i left).map sge).filter (fun sge => sge.len ≠ 0)) offset raw
        (fillSges sge left i offset raw sgeNum).1 ∧
      (fillSges sge left i offset raw sgeNum).2 = sgeNum +
        counter (((List.range' i left).map sge).filter (fun sge => sge.len ≠ 0)).length := by
  induction left generalizing i offset raw sgeNum with
  | zero =>
      refine ⟨⟨fun index inside => absurd inside (Nat.not_lt_zero _), fun _ _ => rfl⟩, ?_⟩
      exact (UInt32.add_zero _).symm
  | succ left ih =>
      rw [fillSges, List.range'_succ, List.map_cons]
      by_cases empty : (sge i).len = 0
      · rw [if_pos empty, List.filter_cons_of_neg (by simp [empty])]
        exact ih (i + 1) offset raw sgeNum
      · rw [if_neg empty, List.filter_cons_of_pos (by simp [empty])]
        obtain ⟨laidOut, count⟩ :=
          ih (i + 1) (offset + 16) (store raw offset (sge i).wqeSge) (sgeNum + 1)
        refine ⟨⟨fun index inside => ?_, fun address lower => ?_⟩, ?_⟩
        · cases index with
          | zero =>
              have kept : load (fillSges sge left (i + 1) (offset + 16)
                  (store raw offset (sge i).wqeSge) (sgeNum + 1)).1 offset 16 =
                  load (store raw offset (sge i).wqeSge) offset 16 :=
                load_congr (fun byte within => laidOut.below _ (by omega))
              have stored := load_store_same raw offset (sge i).wqeSge
              rw [DmaSge.wqeSge_length] at stored
              have place : offset + 0 * 16 = offset := by omega
              rw [place, kept, stored]
              rfl
          | succ index =>
              rw [List.length_cons] at inside
              have later := laidOut.here index (by omega)
              have place : offset + (index + 1) * 16 = offset + 16 + index * 16 := by omega
              rw [place, later]
              rfl
        · rw [laidOut.below address (by omega)]
          exact copy_outside _ _ (.inl lower)
        · rw [count, List.length_cons, ← counter_succ]
          grind

theorem decodeSges_of_laidOut {sges : List DmaSge} {offset : Nat} {bytes : List UInt8}
    (here : ∀ index (inside : index < sges.length),
      slice bytes (offset + index * 16) 16 = sges[index].wqeSge) :
    decodeSges bytes offset sges.length = sges.map DmaSge.view := by
  unfold decodeSges
  apply List.ext_getElem
  · simp
  · intro index left right
    rw [List.length_map] at right
    rw [List.getElem_map, List.getElem_map, List.getElem_range]
    exact decodeSge_of_slice (here index right)

structure CtlOf (wr : DmaJfsWr) (ctl : CdmaJfsSqeCtl) : Prop where
  cqe : ctl.cqe = wr.flag.completeEnable
  fence : ctl.fence = wr.flag.fence
  compOrder : ctl.compOrder = wr.flag.compOrder
  se : ctl.se = wr.flag.solicitedEnable
  placeOdr : ctl.placeOdr = wr.flag.placeOrder
  opcode : ctl.opcode = (cdmaParseJfsOpcode wr.opcode).value
  tpn : ctl.tpn = wr.tpn.toBitVec.setWidth 24
  rmtEid : ctl.rmtEid.get ⟨0, rmtEid_words⟩ = wr.rmtEid.toBitVec
  toid : ctl.toid = wr.remote.seg.tid.toBitVec.setWidth 20
  tokenEn : ctl.tokenEn = wr.remote.seg.tokenValueValid
  rmtTokenValue : ctl.rmtTokenValue = wr.remote.seg.tokenValue.toBitVec
  rmtAddrL : ctl.rmtAddrLOrTid = wr.remote.addr.toBitVec.setWidth 32
  rmtAddrH : ctl.rmtAddrHOrTval = (wr.remote.addr >>> 32).toBitVec.setWidth 32

theorem ctlOf_cdmaSetSqe {memory : Bytes} {sq : CdmaUJettyQueue} {wr : DmaJfsWr} {tmp : TmpSq}
    (built : cdmaSetSqe memory .zeroed sq wr (cdmaParseJfsOpcode wr.opcode) = .ok tmp) :
    CtlOf wr tmp.ctl := by
  unfold cdmaSetSqe cdmaFillNormalSge at built
  cases opcode : wr.opcode with
  | write =>
      have remote : wr.remote = wr.rw.dst.sge 0 := by rw [DmaJfsWr.remote, opcode]
      simp only [opcode, cdmaUFillWriteSqe, reduceCtorEq, if_false] at built
      cases built
      constructor <;> first | rfl | (rw [opcode]; rfl) | (rw [remote]; rfl)
  | writeNotify =>
      have remote : wr.remote = wr.rw.dst.sge 0 := by rw [DmaJfsWr.remote, opcode]
      simp only [opcode, cdmaUFillWriteSqe, if_true] at built
      cases built
      constructor <;> first | rfl | (rw [opcode]; rfl) | (rw [remote]; rfl)
  | read =>
      have remote : wr.remote = wr.rw.src.sge 0 := by rw [DmaJfsWr.remote, opcode]
      simp only [opcode, cdmaUFillReadSqe] at built
      cases built
      constructor <;> first | rfl | (rw [opcode]; rfl) | (rw [remote]; rfl)
  | cas =>
      have remote : wr.remote = wr.cas.dst := by rw [DmaJfsWr.remote, opcode]
      simp only [opcode, cdmaUFillCasSqe] at built
      split at built
      · cases built
      · cases built
        constructor <;> first | rfl | (rw [opcode]; rfl) | (rw [remote]; rfl)
  | fadd =>
      have remote : wr.remote = wr.faa.dst := by rw [DmaJfsWr.remote, opcode]
      simp only [opcode, cdmaUFillFaaSqe] at built
      split at built
      · cases built
      · cases built
        constructor <;> first | rfl | (rw [opcode]; rfl) | (rw [remote]; rfl)
  | swap => simp [opcode] at built
  | last => simp [opcode] at built
  | unlisted => simp [opcode] at built

/-- A request is recovered when its body is. -/
theorem decodeSqe_of_body {wr : DmaJfsWr} {ctl : CdmaJfsSqeCtl} (ctlOf : CtlOf wr ctl)
    (encodable : wr.Encodable) {bytes : List UInt8} {memory : Bytes}
    (header : ofLe (slice bytes 0 48) = pack ctl.fields)
    (decoded : decodeBody (cdmaParseJfsOpcode wr.opcode).value.toNat bytes ctl.sgeNum.toNat =
      wr.body memory) : decodeSqe bytes = wr.view memory := by
  obtain ⟨placeOdr, compOrder, fence, se, cqe, tokenEn, opcode, tpn, sgeNum, toid, rmtEid,
    rmtTokenValue, addrL, addrH⟩ := ctl.bits_fields
  unfold decodeSqe DmaJfsWr.view
  simp only [header, placeOdr, compOrder, fence, se, cqe, tokenEn, opcode, tpn, sgeNum, toid,
    rmtEid, rmtTokenValue, addrL, addrH, decoded, ctlOf.cqe, ctlOf.fence, ctlOf.compOrder,
    ctlOf.se, ctlOf.placeOdr, ctlOf.opcode, ctlOf.tpn, ctlOf.rmtEid, ctlOf.toid, ctlOf.tokenEn,
    ctlOf.rmtTokenValue, ctlOf.rmtAddrL, ctlOf.rmtAddrH, ofBool_beq_one,
    setWidth_of_lt encodable.tpn, setWidth_of_lt encodable.remoteTid, addr_halves]

/-! ### The bodies -/

theorem DmaSg.live_eq (sg : DmaSg) :
    sg.live = ((List.range' 0 sg.numSge.toNat).map sg.sge).filter (fun sge => sge.len ≠ 0) := by
  unfold DmaSg.live
  rw [List.range_eq_range']

theorem TmpSq.fillSg_laidOut (tmp : TmpSq) (sg : DmaSg) (offset : Nat) :
    LaidOut sg.live offset tmp.raw (tmp.fillSg sg offset).raw ∧
      (tmp.fillSg sg offset).ctl.sgeNum = (counter sg.live.length).toBitVec.setWidth 8 := by
  obtain ⟨laidOut, count⟩ := fillSges_laidOut sg.sge sg.numSge.toNat 0 offset tmp.raw 0
  rw [← sg.live_eq] at laidOut count
  refine ⟨laidOut, ?_⟩
  unfold TmpSq.fillSg
  simp only [count, UInt32.zero_add]

theorem sgeNum_toNat {count : Nat} (few : count < 256) :
    ((counter count).toBitVec.setWidth 8).toNat = count := by
  rw [BitVec.toNat_setWidth]
  change (counter count).toNat % 2 ^ 8 = count
  rw [toNat_counter_of_lt (by omega), Nat.mod_eq_of_lt (by omega)]

theorem LaidOut.decodeSges {sges : List DmaSge} {offset size : Nat} {before : Bytes}
    {tmp : TmpSq} (laidOut : LaidOut sges offset before tmp.raw) (above : 48 ≤ offset)
    (within : offset + sges.length * 16 ≤ size) :
    Libcdma.decodeSges (load tmp.bytes 0 size) offset sges.length = sges.map DmaSge.view := by
  apply decodeSges_of_laidOut
  intro index inside
  rw [tmp.slice_raw (by omega) (by omega)]
  exact laidOut.here index inside

/-- Enough blocks are counted for the control structure and the segments. -/
theorem wqebbCnt_covers {wr : DmaJfsWr} {ctl : CdmaJfsSqeCtl} {count : Nat}
    (sgeNum : cdmaGetNormalSgeNum wr.opcode ctl = counter count)
    (few : count ≤ if wr.opcode = .writeNotify then 11 else 13) :
    (if wr.opcode = .writeNotify then 80 else 48) + count * 16 ≤ (wqebbCnt wr ctl).toNat * 64 := by
  have plain : ∀ count : Fin 14, 48 + count.1 * 16 ≤
      (if cdmaSqCalWqebbNum 48 (counter count) 64 > maxSqeBbNum then maxSqeBbNum
        else cdmaSqCalWqebbNum 48 (counter count) 64).toNat * 64 := by decide
  have notify : ∀ count : Fin 12, 80 + count.1 * 16 ≤
      (if cdmaSqCalWqebbNum 80 (counter count) 64 > maxSqeBbNum then maxSqeBbNum
        else cdmaSqCalWqebbNum 80 (counter count) 64).toNat * 64 := by decide
  unfold wqebbCnt cdmaGetWqebbCnt cdmaGetCtlLen
  rw [sgeNum]
  by_cases isNotify : wr.opcode = .writeNotify
  · rw [if_pos isNotify] at few
    rw [if_pos isNotify, if_pos isNotify]
    exact notify ⟨count, by omega⟩
  · rw [if_neg isNotify] at few
    rw [if_neg isNotify, if_neg isNotify]
    exact plain ⟨count, by omega⟩

theorem normalSgeNum_of_plain {wr : DmaJfsWr} {ctl : CdmaJfsSqeCtl} {count : Nat}
    (plain : wr.opcode ≠ .cas ∧ wr.opcode ≠ .fadd)
    (sgeNum : ctl.sgeNum = (counter count).toBitVec.setWidth 8) (few : count < 256) :
    cdmaGetNormalSgeNum wr.opcode ctl = counter count := by
  have value : cdmaGetNormalSgeNum wr.opcode ctl = UInt32.ofBitVec (ctl.sgeNum.setWidth 32) := by
    unfold cdmaGetNormalSgeNum
    split
    · exact absurd ‹_› plain.1
    · exact absurd ‹_› plain.2
    · rfl
  rw [value, ← UInt32.toNat_inj]
  change (ctl.sgeNum.setWidth 32).toNat = _
  rw [BitVec.toNat_setWidth, sgeNum, sgeNum_toNat few, toNat_counter]

variable {memory : Bytes} {sq : CdmaUJettyQueue} {wr : DmaJfsWr} {start tmp : TmpSq}

def blockBytes (wr : DmaJfsWr) (tmp : TmpSq) : List UInt8 :=
  load tmp.bytes 0 ((wqebbCnt wr tmp.ctl).toNat * 64)

theorem cdmaSetSqe_write (opcode : wr.opcode = .write)
    (built : cdmaSetSqe memory start sq wr .write = .ok tmp) :
    LaidOut wr.rw.src.live 48 start.raw tmp.raw ∧
      tmp.ctl.sgeNum = (counter wr.rw.src.live.length).toBitVec.setWidth 8 := by
  simp only [cdmaSetSqe, cdmaFillNormalSge, opcode, cdmaUFillWriteSqe, cdmaFillMultiSge,
    cdmaGetCtlLen, reduceCtorEq, if_false] at built
  cases built
  exact TmpSq.fillSg_laidOut (start.setCtl sq wr .write) wr.rw.src 48

theorem cdmaSetSqe_read (opcode : wr.opcode = .read)
    (built : cdmaSetSqe memory start sq wr .read = .ok tmp) :
    LaidOut wr.rw.dst.live 48 start.raw tmp.raw ∧
      tmp.ctl.sgeNum = (counter wr.rw.dst.live.length).toBitVec.setWidth 8 := by
  simp only [cdmaSetSqe, cdmaFillNormalSge, opcode, cdmaUFillReadSqe] at built
  cases built
  exact TmpSq.fillSg_laidOut (start.setCtl sq wr .read) wr.rw.dst 48

theorem cdmaSetSqe_writeNotify (opcode : wr.opcode = .writeNotify)
    (built : cdmaSetSqe memory start sq wr .writeWithNotify = .ok tmp) :
    ∃ filled, LaidOut wr.rw.src.live 80 start.raw filled ∧
      tmp.raw = store (store (store filled 48
        (tokenInfo filled wr.rw.notifyTokenid wr.rw.notifyTokenvalue)) 56
        (leBytes 8 wr.rw.notifyAddr.toNat)) 64 (leBytes 8 wr.rw.notifyData.toNat) ∧
      tmp.ctl.sgeNum = (counter wr.rw.src.live.length).toBitVec.setWidth 8 := by
  simp only [cdmaSetSqe, cdmaFillNormalSge, opcode, cdmaUFillWriteSqe, cdmaFillMultiSge,
    cdmaGetCtlLen, if_true] at built
  cases built
  obtain ⟨laidOut, sgeNum⟩ :=
    TmpSq.fillSg_laidOut (start.setCtl sq wr .writeWithNotify) wr.rw.src 80
  exact ⟨_, laidOut, rfl, sgeNum⟩

theorem cdmaSetSqe_cas (opcode : wr.opcode = .cas)
    (built : cdmaSetSqe memory start sq wr .cas = .ok tmp) :
    cdmaCheckAtomicLen wr.cas.src.len .cas = true ∧
      tmp.raw = store (store (store start.raw 48 wr.cas.src.wqeSge) 64
        (atomicOperand memory wr.cas.swapData wr.cas.src.len)) (64 + wr.cas.src.len.toNat)
        (atomicOperand memory wr.cas.cmpData wr.cas.src.len) := by
  simp only [cdmaSetSqe, cdmaFillNormalSge, opcode, cdmaUFillCasSqe] at built
  split at built
  · cases built
  · rename_i checked
    cases built
    exact ⟨by simpa using checked, rfl⟩

theorem cdmaSetSqe_faa (opcode : wr.opcode = .fadd)
    (built : cdmaSetSqe memory start sq wr .faa = .ok tmp) :
    cdmaCheckAtomicLen wr.faa.src.len .fadd = true ∧
      tmp.raw = store (store start.raw 48 wr.faa.src.wqeSge) 64
        (atomicOperand memory wr.faa.operand wr.faa.src.len) := by
  simp only [cdmaSetSqe, cdmaFillNormalSge, opcode, cdmaUFillFaaSqe] at built
  split at built
  · cases built
  · rename_i checked
    cases built
    exact ⟨by simpa using checked, rfl⟩

theorem decodeSges_plain {sges : List DmaSge} (plain : wr.opcode = .write ∨ wr.opcode = .read)
    (laidOut : LaidOut sges 48 TmpSq.zeroed.raw tmp.raw)
    (sgeNum : tmp.ctl.sgeNum = (counter sges.length).toBitVec.setWidth 8)
    (few : sges.length ≤ 13) :
    decodeSges (blockBytes wr tmp) 48 tmp.ctl.sgeNum.toNat = sges.map DmaSge.view := by
  have notAtomic : wr.opcode ≠ .cas ∧ wr.opcode ≠ .fadd := by
    rcases plain with opcode | opcode <;> simp [opcode]
  have notNotify : wr.opcode ≠ .writeNotify := by
    rcases plain with opcode | opcode <;> simp [opcode]
  have covers := wqebbCnt_covers (normalSgeNum_of_plain notAtomic sgeNum (by omega))
    (by rw [if_neg notNotify]; exact few)
  rw [if_neg notNotify] at covers
  rw [sgeNum, sgeNum_toNat (by omega)]
  exact laidOut.decodeSges (Nat.le_refl _) covers

theorem decodeBody_write (opcode : wr.opcode = .write)
    (built : cdmaSetSqe memory .zeroed sq wr .write = .ok tmp) (few : wr.localSges.length ≤ 13) :
    decodeBody 0x03 (blockBytes wr tmp) tmp.ctl.sgeNum.toNat = wr.body memory := by
  obtain ⟨laidOut, sgeNum⟩ := cdmaSetSqe_write opcode built
  have locals : wr.localSges = wr.rw.src.live := by rw [DmaJfsWr.localSges, opcode]
  rw [locals] at few
  have decoded := decodeSges_plain (.inl opcode) laidOut sgeNum few
  simp only [decodeBody, DmaJfsWr.body, decoded, opcode, locals]

theorem decodeBody_read (opcode : wr.opcode = .read)
    (built : cdmaSetSqe memory .zeroed sq wr .read = .ok tmp) (few : wr.localSges.length ≤ 13) :
    decodeBody 0x06 (blockBytes wr tmp) tmp.ctl.sgeNum.toNat = wr.body memory := by
  obtain ⟨laidOut, sgeNum⟩ := cdmaSetSqe_read opcode built
  have locals : wr.localSges = wr.rw.dst.live := by rw [DmaJfsWr.localSges, opcode]
  rw [locals] at few
  have decoded := decodeSges_plain (.inr opcode) laidOut sgeNum few
  simp only [decodeBody, DmaJfsWr.body, decoded, opcode, locals]

/-! ### Notifications and atomic operands -/

theorem LaidOut.store_below {sges : List DmaSge} {offset : Nat} {before after : Bytes}
    (laidOut : LaidOut sges offset before after) (dest : Nat) (bytes : List UInt8)
    (lower : dest + bytes.length ≤ offset) :
    LaidOut sges offset (store after dest bytes) (store after dest bytes) := by
  refine ⟨fun index inside => ?_, fun _ _ => rfl⟩
  rw [load_store_outside _ _ (.inr (by omega))]
  exact laidOut.here index inside

theorem tokenInfo_length (raw : Bytes) (tokenId tokenValue : UInt32) :
    (tokenInfo raw tokenId tokenValue).length = 8 := by
  simp [tokenInfo]

theorem tokenInfo_id (raw : Bytes) (tokenId tokenValue : UInt32)
    (fits : tokenId.toNat < 2 ^ 20) :
    UInt32.ofBitVec ((bits (ofLe (slice (tokenInfo raw tokenId tokenValue) 0 4)) 0 20).setWidth
      32) = tokenId := by
  unfold tokenInfo
  rw [slice_append_left (image_length _ _), ofLe_image (by rfl)]
  have layout : [(⟨20, tokenId.toBitVec.setWidth 20⟩ : Field),
      ⟨12, bits (ofLe (load raw sqeNotifyTokenIdField 4)) 20 12⟩].map Sigma.fst = [20, 12] := rfl
  have place : ([20, 12].take 0).sum = 0 := rfl
  have token := bits_pack_at layout 0 ⟨20, tokenId.toBitVec.setWidth 20⟩ rfl place
  rw [token]
  exact setWidth_of_lt fits

theorem tokenInfo_value (raw : Bytes) (tokenId tokenValue : UInt32) :
    slice (tokenInfo raw tokenId tokenValue) 4 4 = leBytes 4 tokenValue.toNat := by
  unfold tokenInfo
  exact slice_append_right (image_length _ _) (leBytes_length _ _)

theorem decodeSges_notify (opcode : wr.opcode = .writeNotify)
    (built : cdmaSetSqe memory .zeroed sq wr .writeWithNotify = .ok tmp)
    (few : wr.rw.src.live.length ≤ 11) :
    decodeSges (blockBytes wr tmp) 80 tmp.ctl.sgeNum.toNat = wr.rw.src.live.map DmaSge.view := by
  obtain ⟨filled, laidOut, raw, sgeNum⟩ := cdmaSetSqe_writeNotify opcode built
  have notAtomic : wr.opcode ≠ .cas ∧ wr.opcode ≠ .fadd := by simp [opcode]
  have covers := wqebbCnt_covers (normalSgeNum_of_plain notAtomic sgeNum (by omega))
    (by rw [if_pos opcode]; exact few)
  rw [if_pos opcode] at covers
  have infoLength := tokenInfo_length filled wr.rw.notifyTokenid wr.rw.notifyTokenvalue
  have aboveInfo := laidOut.store_below 48
    (tokenInfo filled wr.rw.notifyTokenid wr.rw.notifyTokenvalue) (by omega)
  have aboveAddr := aboveInfo.store_below 56 (leBytes 8 wr.rw.notifyAddr.toNat) (by simp)
  have above := aboveAddr.store_below 64 (leBytes 8 wr.rw.notifyData.toNat) (by simp)
  rw [← raw] at above
  rw [sgeNum, sgeNum_toNat (by omega)]
  exact above.decodeSges (by decide) covers

theorem decodeBody_writeNotify (opcode : wr.opcode = .writeNotify)
    (built : cdmaSetSqe memory .zeroed sq wr .writeWithNotify = .ok tmp)
    (few : wr.localSges.length ≤ 11) (fits : wr.rw.notifyTokenid.toNat < 2 ^ 20) :
    decodeBody 0x05 (blockBytes wr tmp) tmp.ctl.sgeNum.toNat = wr.body memory := by
  obtain ⟨filled, _, raw, sgeNum⟩ := cdmaSetSqe_writeNotify opcode built
  have locals : wr.localSges = wr.rw.src.live := by rw [DmaJfsWr.localSges, opcode]
  rw [locals] at few
  have notAtomic : wr.opcode ≠ .cas ∧ wr.opcode ≠ .fadd := by simp [opcode]
  have covers := wqebbCnt_covers (normalSgeNum_of_plain notAtomic sgeNum (by omega))
    (by rw [if_pos opcode]; exact few)
  rw [if_pos opcode] at covers
  have infoLength := tokenInfo_length filled wr.rw.notifyTokenid wr.rw.notifyTokenvalue
  have info : load tmp.raw 48 8 =
      tokenInfo filled wr.rw.notifyTokenid wr.rw.notifyTokenvalue := by
    have stored := load_store_same filled 48
      (tokenInfo filled wr.rw.notifyTokenid wr.rw.notifyTokenvalue)
    rw [infoLength] at stored
    rw [raw, load_store_outside _ _ (.inl (by decide)), load_store_outside _ _ (.inl (by decide)),
      stored]
  have addr : load tmp.raw 56 8 = leBytes 8 wr.rw.notifyAddr.toNat := by
    have stored := load_store_same (store filled 48
      (tokenInfo filled wr.rw.notifyTokenid wr.rw.notifyTokenvalue)) 56
      (leBytes 8 wr.rw.notifyAddr.toNat)
    rw [leBytes_length] at stored
    rw [raw, load_store_outside _ _ (.inl (by decide)), stored]
  have data : load tmp.raw 64 8 = leBytes 8 wr.rw.notifyData.toNat := by
    have stored := load_store_same (store (store filled 48
      (tokenInfo filled wr.rw.notifyTokenid wr.rw.notifyTokenvalue)) 56
      (leBytes 8 wr.rw.notifyAddr.toNat)) 64 (leBytes 8 wr.rw.notifyData.toNat)
    rw [leBytes_length] at stored
    rw [raw, stored]
  have sges := decodeSges_notify opcode built few
  have token : slice (blockBytes wr tmp) 48 4 =
      slice (tokenInfo filled wr.rw.notifyTokenid wr.rw.notifyTokenvalue) 0 4 := by
    rw [← info, slice_load _ (by decide)]
    exact tmp.slice_raw (by decide) (by omega)
  have value : slice (blockBytes wr tmp) 52 4 = leBytes 4 wr.rw.notifyTokenvalue.toNat := by
    rw [← tokenInfo_value filled wr.rw.notifyTokenid, ← info, slice_load _ (by decide)]
    exact tmp.slice_raw (by decide) (by omega)
  have addr64 : slice (blockBytes wr tmp) 56 8 = leBytes 8 wr.rw.notifyAddr.toNat := by
    rw [← addr]
    exact tmp.slice_raw (by decide) (by omega)
  have data64 : slice (blockBytes wr tmp) 64 8 = leBytes 8 wr.rw.notifyData.toNat := by
    rw [← data]
    exact tmp.slice_raw (by decide) (by omega)
  simp only [decodeBody, decodeNotify, DmaJfsWr.body, opcode, locals, token,
    tokenInfo_id _ _ _ fits, word32_of_slice value, word64_of_slice addr64,
    word64_of_slice data64, sges]

/-- The two ways of giving an operand come to the same bytes. -/
theorem atomicOperand_eq (memory : Bytes) (word : UInt64) (len : UInt32) :
    atomicOperand memory word len = DmaJfsWr.operandBytes memory word len := by
  unfold atomicOperand DmaJfsWr.operandBytes
  change (if len ≤ 8 then _ else _) = _
  by_cases inWord : len ≤ 8
  · have small := UInt32.le_iff_toNat_le.mp inWord
    have fits : len.toNat + (8 - len.toNat) = 8 := by
      change len.toNat ≤ 8 at small
      omega
    have low := leBytes_take len.toNat (8 - len.toNat) word.toNat
    rw [fits] at low
    rw [if_pos inWord, if_pos inWord, low]
  · rw [if_neg inWord, if_neg inWord]

theorem operandBytes_length (memory : Bytes) (word : UInt64) (len : UInt32) :
    (DmaJfsWr.operandBytes memory word len).length = len.toNat := by
  unfold DmaJfsWr.operandBytes
  split <;> simp

theorem cdmaCheckAtomicLen_le {len : UInt32} {opcode : DmaWrOpcode}
    (checked : cdmaCheckAtomicLen len opcode = true) : len.toNat ≤ 16 := by
  unfold cdmaCheckAtomicLen at checked
  split at checked
  · simp only [Bool.or_eq_true, beq_iff_eq] at checked
    rcases checked with (rfl | rfl) | rfl <;> decide
  · split at checked
    · simp only [Bool.or_eq_true, beq_iff_eq] at checked
      rcases checked with rfl | rfl <;> decide
    · cases checked

theorem wqebbCnt_atomic (atomic : wr.opcode = .cas ∨ wr.opcode = .fadd) (ctl : CdmaJfsSqeCtl) :
    128 ≤ (wqebbCnt wr ctl).toNat * 64 := by
  have notNotify : wr.opcode ≠ .writeNotify := by
    rcases atomic with opcode | opcode <;> simp [opcode]
  have two : cdmaGetNormalSgeNum wr.opcode ctl = counter 2 := by
    rcases atomic with opcode | opcode <;> simp only [cdmaGetNormalSgeNum, opcode] <;> rfl
  have covers := wqebbCnt_covers two (by rw [if_neg notNotify]; decide)
  rw [if_neg notNotify] at covers
  omega

theorem decodeSge_atomic {sge : DmaSge} (atomic : wr.opcode = .cas ∨ wr.opcode = .fadd)
    (here : load tmp.raw 48 16 = sge.wqeSge) :
    decodeSge (blockBytes wr tmp) 48 = sge.view := by
  have long := wqebbCnt_atomic atomic tmp.ctl
  apply decodeSge_of_slice
  rw [← here]
  exact tmp.slice_raw (by decide) (by omega)

theorem decodeBody_cas (opcode : wr.opcode = .cas)
    (built : cdmaSetSqe memory .zeroed sq wr .cas = .ok tmp) :
    decodeBody 0x07 (blockBytes wr tmp) tmp.ctl.sgeNum.toNat = wr.body memory := by
  obtain ⟨checked, raw⟩ := cdmaSetSqe_cas opcode built
  rw [atomicOperand_eq, atomicOperand_eq] at raw
  have small := cdmaCheckAtomicLen_le checked
  have long := wqebbCnt_atomic (.inl opcode) tmp.ctl
  have swapLength := operandBytes_length memory wr.cas.swapData wr.cas.src.len
  have cmpLength := operandBytes_length memory wr.cas.cmpData wr.cas.src.len
  have sgeLength := wr.cas.src.wqeSge_length
  have sge : load tmp.raw 48 16 = wr.cas.src.wqeSge := by
    have stored := load_store_same TmpSq.zeroed.raw 48 wr.cas.src.wqeSge
    rw [sgeLength] at stored
    rw [raw, load_store_outside _ _ (.inl (by omega)), load_store_outside _ _ (.inl (by omega)),
      stored]
  have swap : slice (blockBytes wr tmp) 64 wr.cas.src.len.toNat =
      DmaJfsWr.operandBytes memory wr.cas.swapData wr.cas.src.len := by
    have stored := load_store_same (store TmpSq.zeroed.raw 48 wr.cas.src.wqeSge) 64
      (DmaJfsWr.operandBytes memory wr.cas.swapData wr.cas.src.len)
    rw [swapLength] at stored
    refine (tmp.slice_raw (by decide) (by omega)).trans ?_
    rw [raw, load_store_outside _ _ (.inl (by omega)), stored]
  have cmp : slice (blockBytes wr tmp) (64 + wr.cas.src.len.toNat) wr.cas.src.len.toNat =
      DmaJfsWr.operandBytes memory wr.cas.cmpData wr.cas.src.len := by
    have stored := load_store_same (store (store TmpSq.zeroed.raw 48 wr.cas.src.wqeSge) 64
      (DmaJfsWr.operandBytes memory wr.cas.swapData wr.cas.src.len))
      (64 + wr.cas.src.len.toNat) (DmaJfsWr.operandBytes memory wr.cas.cmpData wr.cas.src.len)
    rw [cmpLength] at stored
    refine (tmp.slice_raw (by omega) (by omega)).trans ?_
    rw [raw, stored]
  have view := decodeSge_atomic (.inl opcode) sge
  simp only [decodeBody, decodeCas, DmaJfsWr.body, opcode, view, DmaSge.view, swap, cmp]

theorem decodeBody_faa (opcode : wr.opcode = .fadd)
    (built : cdmaSetSqe memory .zeroed sq wr .faa = .ok tmp) :
    decodeBody 0x0b (blockBytes wr tmp) tmp.ctl.sgeNum.toNat = wr.body memory := by
  obtain ⟨checked, raw⟩ := cdmaSetSqe_faa opcode built
  rw [atomicOperand_eq] at raw
  have small := cdmaCheckAtomicLen_le checked
  have long := wqebbCnt_atomic (.inr opcode) tmp.ctl
  have length := operandBytes_length memory wr.faa.operand wr.faa.src.len
  have sge : load tmp.raw 48 16 = wr.faa.src.wqeSge := by
    have stored := load_store_same TmpSq.zeroed.raw 48 wr.faa.src.wqeSge
    rw [wr.faa.src.wqeSge_length] at stored
    rw [raw, load_store_outside _ _ (.inl (by decide)), stored]
  have operand : slice (blockBytes wr tmp) 64 wr.faa.src.len.toNat =
      DmaJfsWr.operandBytes memory wr.faa.operand wr.faa.src.len := by
    have stored := load_store_same (store TmpSq.zeroed.raw 48 wr.faa.src.wqeSge) 64
      (DmaJfsWr.operandBytes memory wr.faa.operand wr.faa.src.len)
    rw [length] at stored
    refine (tmp.slice_raw (by decide) (by omega)).trans ?_
    rw [raw, stored]
  have view := decodeSge_atomic (.inr opcode) sge
  simp only [decodeBody, decodeFaa, DmaJfsWr.body, opcode, view, DmaSge.view, operand]

/-! ### Accepted requests -/

theorem live_length_le (sg : DmaSg) : sg.live.length ≤ sg.numSge.toNat := by
  unfold DmaSg.live
  refine Nat.le_trans (List.length_filter_le _ _) ?_
  simp

theorem decodeSqe_blockBytes (accepted : cdmaParseJfsOpcode wr.opcode ≠ .invalid)
    (checked : cdmaCheckSgeNum (cdmaParseJfsOpcode wr.opcode) sq wr = false)
    (built : cdmaSetSqe memory .zeroed sq wr (cdmaParseJfsOpcode wr.opcode) = .ok tmp)
    (encodable : wr.Encodable) :
    decodeSqe (blockBytes wr tmp) = wr.view memory := by
  have bounds := wqebbCnt_bounds wr tmp.ctl
  refine decodeSqe_of_body (ctlOf_cdmaSetSqe built) encodable
    (tmp.slice_header (by omega)) ?_
  cases opcode : wr.opcode with
  | write =>
      rw [opcode] at built
      exact decodeBody_write opcode built encodable.segments
  | writeNotify =>
      rw [opcode] at built checked
      have few : wr.localSges.length ≤ 11 := by
        have locals : wr.localSges = wr.rw.src.live := by rw [DmaJfsWr.localSges, opcode]
        rw [locals]
        refine Nat.le_trans (live_length_le _) ?_
        simp only [cdmaParseJfsOpcode, cdmaCheckSgeNum, Bool.or_eq_false_iff,
          decide_eq_false_iff_not, gt_iff_lt, UInt32.lt_iff_toNat_lt, Nat.not_lt] at checked
        exact checked.1
      exact decodeBody_writeNotify opcode built few (encodable.notifyTid opcode)
  | read =>
      rw [opcode] at built
      exact decodeBody_read opcode built encodable.segments
  | cas =>
      rw [opcode] at built
      exact decodeBody_cas opcode built
  | fadd =>
      rw [opcode] at built
      exact decodeBody_faa opcode built
  | swap => exact absurd (by rw [opcode]; rfl) accepted
  | last => exact absurd (by rw [opcode]; rfl) accepted
  | unlisted => exact absurd (by rw [opcode]; rfl) accepted

theorem view_isSome (memory : Bytes) (accepted : cdmaParseJfsOpcode wr.opcode ≠ .invalid) :
    ∃ view, wr.view memory = some view := by
  unfold DmaJfsWr.view DmaJfsWr.body
  cases opcode : wr.opcode with
  | swap => exact absurd (by rw [opcode]; rfl) accepted
  | last => exact absurd (by rw [opcode]; rfl) accepted
  | unlisted => exact absurd (by rw [opcode]; rfl) accepted
  | _ => exact ⟨_, rfl⟩

/-- Decoding exactly the blocks that posting copied into the ring gives the request back. -/
theorem cdmaPostOneWr_decodes {ctx : CdmaUContext} {locals after : PostLocals}
    {shift ci pi : Nat} (ring : SqAt shift locals.sq ci pi)
    (posted : cdmaPostOneWr ctx locals wr = (after, none)) (encodable : wr.Encodable) :
    ∃ view, wr.view locals.memory = some view ∧
      decodeSqe (ringRead locals.sq.qbuf 64 (2 ^ shift) after.memory pi
        (after.sq.pi - locals.sq.pi).toNat) = some view := by
  rcases cdmaPostOneWr_cases ring ctx wr with
    ⟨err, dwqeEnable, refused⟩ | ⟨request, passed, room, done⟩
  · rw [refused] at posted
    cases posted
  · rw [done] at posted
    cases posted
    obtain ⟨accepted, checked, found⟩ := requestChecked_eq_some passed
    obtain ⟨wr_eq, starts, _, built⟩ := requestOf_eq_some found
    have few := request.blocks_bounds
    have count : ((locals.accept ctx shift request).sq.pi - locals.sq.pi).toNat =
        request.blocks := by
      have moved : (locals.accept ctx shift request).sq.pi = counter request.next := rfl
      rw [moved, ring.pi_eq, SqRequest.next, starts, toNat_counter_sub (by omega) (by omega)]
      omega
    obtain ⟨view, asked⟩ := view_isSome locals.memory accepted
    refine ⟨view, asked, ?_⟩
    have encoding : request.encoding = blockBytes wr request.tmp := by
      rw [← wr_eq]
      rfl
    rw [count, ringRead_accept ring ctx starts room, encoding, ← asked]
    exact decodeSqe_blockBytes accepted checked built encodable

/-- A write with a notice, of three segments of which the second is empty. -/
def notifyThree : DmaJfsWr :=
  { writeOne with
    opcode := .writeNotify
    rw :=
      { writeOne.rw with
        src :=
          { sge := fun i =>
              if i = 1 then { segmentAt 65600 with len := 0 } else segmentAt (65536 + i.toUInt64 * 64)
            numSge := 3 }
        notifyData := 9, notifyAddr := 131136, notifyTokenid := 5, notifyTokenvalue := 6 } }

def PostLocals.lastBlock : PostLocals :=
  ⟨fun _ => 0, { SqWorld.fourBlocks.sq with maxSgeNum := 3 }, none, false⟩

/-- The two blocks of a request lie on both sides of the end of the ring. -/
theorem cdmaPostOneWr_decodes_notifyThree :
    ∃ view, notifyThree.view PostLocals.lastBlock.memory = some view ∧
      decodeSqe (ringRead 4096 64 (2 ^ 2)
        (cdmaPostOneWr SqWorld.fourBlocks.ctx .lastBlock notifyThree).1.memory
        4294967295 2) = some view := by
  have ring : SqAt 2 PostLocals.lastBlock.sq 4294967295 4294967295 :=
    ⟨⟨rfl, rfl, rfl, rfl, by decide⟩, rfl, rfl, by decide, by decide, rfl⟩
  have posted : cdmaPostOneWr SqWorld.fourBlocks.ctx .lastBlock notifyThree =
      ((cdmaPostOneWr SqWorld.fourBlocks.ctx .lastBlock notifyThree).1, none) :=
    Prod.ext rfl rfl
  have count : ((cdmaPostOneWr SqWorld.fourBlocks.ctx .lastBlock notifyThree).1.sq.pi -
      PostLocals.lastBlock.sq.pi).toNat = 2 := rfl
  have decodes := cdmaPostOneWr_decodes ring posted ⟨by decide, by decide, by decide, by decide⟩
  rw [count] at decodes
  exact decodes

end Libcdma
