/-
The bytes of a completion entry.

A completion entry is 16 words of bit fields, none of which crosses a word, so the whole
is one numeral, and reading an entry is a bijection between 64 bytes and the values of its
fields.  The owner is the third bit of the first byte.
-/

import Libcdma.Foundation.BitFields
import Libcdma.Model.Types

namespace Libcdma

open ByteImage

def cdmaCqeSize : Nat := 64

def cqeWidths : List Nat :=
  [1, 1, 1, 1, 3, 1, 8, 8, 8, 16, 16, 4, 20, 8, 24, 8, 32, 32, 32, 32, 32, 32, 32, 32, 32, 32, 32,
    32]

namespace CdmaUJfcCqe

def fields (cqe : CdmaUJfcCqe) : List Field :=
  [⟨1, .ofBool cqe.sR⟩, ⟨1, .ofBool cqe.isJetty⟩, ⟨1, .ofBool cqe.owner⟩, ⟨1, .ofBool cqe.inlineEn⟩,
    ⟨3, cqe.opcode⟩, ⟨1, .ofBool cqe.fd⟩, ⟨8, cqe.rsv.toBitVec⟩, ⟨8, cqe.substatus.toBitVec⟩,
    ⟨8, cqe.status.toBitVec⟩, ⟨16, cqe.entryIdx.toBitVec⟩, ⟨16, cqe.localNumL.toBitVec⟩,
    ⟨4, cqe.localNumH⟩, ⟨20, cqe.rmtIdx⟩, ⟨8, cqe.rsv1.toBitVec⟩, ⟨24, cqe.tpn⟩,
    ⟨8, cqe.rsv2.toBitVec⟩, ⟨32, cqe.byteCnt.toBitVec⟩, ⟨32, cqe.userDataL.toBitVec⟩,
    ⟨32, cqe.userDataH.toBitVec⟩, ⟨32, (cqe.rmtEid.getD 0 0).toBitVec⟩,
    ⟨32, (cqe.rmtEid.getD 1 0).toBitVec⟩, ⟨32, (cqe.rmtEid.getD 2 0).toBitVec⟩,
    ⟨32, (cqe.rmtEid.getD 3 0).toBitVec⟩, ⟨32, cqe.immDataL.toBitVec⟩,
    ⟨32, cqe.immDataH.toBitVec⟩, ⟨32, (cqe.inlineData.getD 0 0).toBitVec⟩,
    ⟨32, (cqe.inlineData.getD 1 0).toBitVec⟩, ⟨32, (cqe.inlineData.getD 2 0).toBitVec⟩]

def encode (cqe : CdmaUJfcCqe) : List UInt8 := image cdmaCqeSize cqe.fields

def ofNumbers (numbers : List Nat) : CdmaUJfcCqe :=
  let number := fun index => numbers.getD index 0
  let flag := fun index => number index == 1
  { sR := flag 0, isJetty := flag 1, owner := flag 2, inlineEn := flag 3
    opcode := BitVec.ofNat 3 (number 4), fd := flag 5, rsv := UInt8.ofNat (number 6)
    substatus := UInt8.ofNat (number 7), status := UInt8.ofNat (number 8)
    entryIdx := UInt16.ofNat (number 9), localNumL := UInt16.ofNat (number 10)
    localNumH := BitVec.ofNat 4 (number 11), rmtIdx := BitVec.ofNat 20 (number 12)
    rsv1 := UInt8.ofNat (number 13), tpn := BitVec.ofNat 24 (number 14)
    rsv2 := UInt8.ofNat (number 15), byteCnt := UInt32.ofNat (number 16)
    userDataL := UInt32.ofNat (number 17), userDataH := UInt32.ofNat (number 18)
    rmtEid := #v[UInt32.ofNat (number 19), UInt32.ofNat (number 20), UInt32.ofNat (number 21),
      UInt32.ofNat (number 22)]
    immDataL := UInt32.ofNat (number 23), immDataH := UInt32.ofNat (number 24)
    inlineData := #v[UInt32.ofNat (number 25), UInt32.ofNat (number 26), UInt32.ofNat (number 27)] }

def decode (bytes : List UInt8) : CdmaUJfcCqe :=
  ofNumbers ((unpackFrom (ofLe bytes) 0 cqeWidths).map fun field => field.2.toNat)

theorem toNat_ofBool (value : Bool) : ((BitVec.ofBool value).toNat == 1) = value := by
  cases value <;> rfl

theorem ofBool_toNat (bit : BitVec 1) : BitVec.ofBool (bit.toNat == 1) = bit := by
  have both : ∀ bit : BitVec 1, BitVec.ofBool (bit.toNat == 1) = bit := by decide
  exact both bit

theorem getD_toArray {size : Nat} (words : List UInt32) (whole : words.toArray.size = size)
    (index : Nat) : (Vector.mk words.toArray whole).getD index 0 = words.getD index 0 := by
  simp only [Vector.getD, Array.getD_eq_getD_getElem?, List.getElem?_toArray,
    List.getD_eq_getElem?_getD]

theorem vector_four (words : Vector UInt32 4) :
    #v[words.getD 0 0, words.getD 1 0, words.getD 2 0, words.getD 3 0] = words := by
  ext index inside
  match index, inside with
  | 0, _ | 1, _ | 2, _ | 3, _ => simp [Vector.getD]

theorem vector_three (words : Vector UInt32 3) : #v[words.getD 0 0, words.getD 1 0, words.getD 2 0] = words := by
  ext index inside
  match index, inside with
  | 0, _ | 1, _ | 2, _ => simp [Vector.getD]

theorem ofNumbers_fields (cqe : CdmaUJfcCqe) :
    ofNumbers (cqe.fields.map fun field => field.2.toNat) = cqe := by
  simp only [ofNumbers, fields, List.map_cons, List.map_nil, List.getD_cons_zero,
    List.getD_cons_succ, toNat_ofBool, vector_four, vector_three, UInt8.toNat_toBitVec,
    UInt16.toNat_toBitVec, UInt32.toNat_toBitVec, UInt8.ofNat_toNat, UInt16.ofNat_toNat,
    UInt32.ofNat_toNat, BitVec.ofNat_toNat, BitVec.setWidth_eq]

theorem toBitVec_byte (field : BitVec 8) : (UInt8.ofNat field.toNat).toBitVec = field := by
  simp

theorem toBitVec_half (field : BitVec 16) : (UInt16.ofNat field.toNat).toBitVec = field := by
  simp

theorem toBitVec_word (field : BitVec 32) : (UInt32.ofNat field.toNat).toBitVec = field := by
  simp

theorem fields_ofNumbers (value : Nat) :
    (ofNumbers ((unpackFrom value 0 cqeWidths).map fun field => field.2.toNat)).fields =
      unpackFrom value 0 cqeWidths := by
  simp only [ofNumbers, fields, cqeWidths, unpackFrom, List.map_cons, List.map_nil,
    List.getD_cons_zero, List.getD_cons_succ, ofBool_toNat, BitVec.ofNat_toNat, BitVec.setWidth_eq,
    toBitVec_byte, toBitVec_half, toBitVec_word, getD_toArray]

theorem map_fst_fields (cqe : CdmaUJfcCqe) : cqe.fields.map Sigma.fst = cqeWidths := by
  simp only [fields, List.map_cons, List.map_nil, cqeWidths]

theorem decode_encode (cqe : CdmaUJfcCqe) : decode cqe.encode = cqe := by
  have whole : packWidth cqe.fields = 8 * cdmaCqeSize := by
    rw [packWidth_eq_sum, map_fst_fields]
    rfl
  have read := unpackFrom_pack cqe.fields
  rw [map_fst_fields] at read
  unfold decode encode
  rw [ofLe_image whole, read, ofNumbers_fields]

theorem encode_decode {bytes : List UInt8} (length : bytes.length = cdmaCqeSize) :
    (decode bytes).encode = bytes := by
  have whole : cqeWidths.sum = 8 * bytes.length := by
    rw [length]
    rfl
  unfold encode decode
  rw [fields_ofNumbers, ← length]
  exact image_unpackFrom whole

def ownerBit (byte : UInt8) : Bool := byte.toNat / 4 % 2 == 1

def withOwnerBit (byte : UInt8) (owner : Bool) : UInt8 :=
  (byte &&& 0xfb) ||| if owner then 4 else 0

theorem withOwnerBit_toNat (byte : UInt8) (owner : Bool) :
    (withOwnerBit byte owner).toNat + 4 * (ownerBit byte).toNat =
      byte.toNat + 4 * owner.toNat := by
  have every : ∀ (bits : BitVec 8) (owner : Bool),
      (withOwnerBit ⟨bits⟩ owner).toNat + 4 * (ownerBit ⟨bits⟩).toNat =
        (⟨bits⟩ : UInt8).toNat + 4 * owner.toNat := by decide +kernel
  exact every byte.toBitVec owner

theorem owner_decode (byte : UInt8) (rest : List UInt8) :
    (decode (byte :: rest)).owner = ownerBit byte := by
  have low : (byte.toNat + 256 * ofLe rest) / 4 % 2 = byte.toNat / 4 % 2 := by omega
  change ((bits (ofLe (byte :: rest)) 2 1).toNat == 1) = ownerBit byte
  rw [bits, BitVec.toNat_ofNat, ofLe]
  change ((byte.toNat + 256 * ofLe rest) / 4 % 2 == 1) = ownerBit byte
  rw [low]
  rfl

theorem pack_withOwner (cqe : CdmaUJfcCqe) (owner : Bool) :
    pack { cqe with owner := owner }.fields + 4 * cqe.owner.toNat =
      pack cqe.fields + 4 * owner.toNat := by
  have bit : ∀ value : Bool, (BitVec.ofBool value).toNat = value.toNat := fun value => by
    cases value <;> rfl
  have replaced := pack_replace (cqe.fields.take 2) (cqe.fields.drop 3) (.ofBool cqe.owner)
    (.ofBool owner)
  rw [bit, bit] at replaced
  exact replaced

theorem pack_encode {cqe : CdmaUJfcCqe} {bytes : List UInt8} (whole : cqe.encode = bytes) :
    pack cqe.fields = ofLe bytes := by
  rw [← whole, encode, ofLe_image]
  rw [packWidth_eq_sum, map_fst_fields]
  rfl

theorem encode_withOwner {cqe : CdmaUJfcCqe} {byte : UInt8} {rest : List UInt8} (owner : Bool)
    (whole : cqe.encode = byte :: rest) :
    encode { cqe with owner := owner } = withOwnerBit byte owner :: rest := by
  have length : (withOwnerBit byte owner :: rest).length = cdmaCqeSize := by
    rw [List.length_cons, ← List.length_cons (a := byte), ← whole]
    exact image_length _ _
  have read : cqe.owner = ownerBit byte := by
    rw [← decode_encode cqe, whole, owner_decode]
  have moved := pack_withOwner cqe owner
  have bit := withOwnerBit_toNat byte owner
  have numeral : pack { cqe with owner := owner }.fields =
      ofLe (withOwnerBit byte owner :: rest) := by
    rw [pack_encode whole, read] at moved
    simp only [ofLe] at moved ⊢
    omega
  unfold encode ByteImage.image
  rw [numeral, ← length, leBytes_ofLe]

/-- Rewriting the owner bit of the first byte is the assignment to the field. -/
theorem decode_withOwnerBit {byte : UInt8} {rest : List UInt8} (owner : Bool)
    (length : rest.length + 1 = cdmaCqeSize) :
    decode (withOwnerBit byte owner :: rest) =
      { decode (byte :: rest) with owner := owner } := by
  rw [← encode_withOwner owner (encode_decode length), decode_encode]

end CdmaUJfcCqe

end Libcdma
