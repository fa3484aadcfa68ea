/-
Bit fields read back in order.

A structure of bit fields is the numeral of its fields, lowest bits first.  Reading the
fields of a layout one after the other undoes packing, and packing what was read gives the
bytes back when the layout leaves no bits out.
-/

import Libcdma.Foundation.ByteImage

namespace Libcdma.ByteImage

def unpackFrom (value : Nat) : Nat → List Nat → List Field
  | _, [] => []
  | start, width :: rest => ⟨width, bits value start width⟩ :: unpackFrom value (start + width) rest

theorem unpackFrom_above {low high skip : Nat} (small : low < 2 ^ skip) (start : Nat)
    (widths : List Nat) :
    unpackFrom (low + 2 ^ skip * high) (skip + start) widths = unpackFrom high start widths := by
  induction widths generalizing start with
  | nil => rfl
  | cons width rest ih =>
      have here : bits (low + 2 ^ skip * high) (skip + start) width = bits high start width := by
        rw [bits_above small (Nat.le_add_right skip start), Nat.add_sub_cancel_left]
      rw [unpackFrom, unpackFrom, here, Nat.add_assoc, ih]

theorem unpackFrom_pack (fields : List Field) :
    unpackFrom (pack fields) 0 (fields.map Sigma.fst) = fields := by
  induction fields with
  | nil => rfl
  | cons field rest ih =>
      have first : bits (pack (field :: rest)) 0 field.1 = field.2 := bits_pack [] field rest
      have others : unpackFrom (field.2.toNat + 2 ^ field.1 * pack rest) (field.1 + 0)
          (rest.map Sigma.fst) = unpackFrom (pack rest) 0 (rest.map Sigma.fst) :=
        unpackFrom_above field.2.isLt 0 (rest.map Sigma.fst)
      rw [Nat.add_zero, ih] at others
      rw [List.map_cons, unpackFrom, first, Nat.zero_add]
      exact congrArg _ others

theorem pack_unpackFrom (value start : Nat) (widths : List Nat) :
    pack (unpackFrom value start widths) = value / 2 ^ start % 2 ^ widths.sum := by
  induction widths generalizing start with
  | nil =>
      rw [List.sum_nil, Nat.pow_zero, Nat.mod_one]
      rfl
  | cons width rest ih =>
      have low : (bits value start width).toNat = value / 2 ^ start % 2 ^ width :=
        BitVec.toNat_ofNat ..
      rw [unpackFrom, pack, ih, low, List.sum_cons, Nat.pow_add 2 start width,
        ← Nat.div_div_eq_div_mul, Nat.pow_add 2 width, Nat.mod_mul]

theorem load_cons (memory : Bytes) (address size : Nat) :
    load memory address (size + 1) = memory address :: load memory (address + 1) size := by
  rw [Nat.add_comm, load_append]
  rfl

theorem leBytes_ofLe (bytes : List UInt8) : leBytes bytes.length (ofLe bytes) = bytes := by
  induction bytes with
  | nil => rfl
  | cons byte rest ih =>
      have low : byte.toNat < 256 := byte.toNat_lt
      have high : (byte.toNat + 256 * ofLe rest) / 256 = ofLe rest := by omega
      have first : UInt8.ofNat (byte.toNat + 256 * ofLe rest) = byte := by
        apply UInt8.toNat_inj.mp
        rw [UInt8.toNat_ofNat']
        omega
      rw [List.length_cons, ofLe, leBytes, high, ih, first]

theorem pack_replace (before after : List Field) {width : Nat} (old new : BitVec width) :
    pack (before ++ ⟨width, new⟩ :: after) + 2 ^ packWidth before * old.toNat =
      pack (before ++ ⟨width, old⟩ :: after) + 2 ^ packWidth before * new.toNat := by
  rw [pack_append, pack_append, pack, pack, Nat.mul_add, Nat.mul_add]
  dsimp only
  omega

theorem image_unpackFrom {bytes : List UInt8} {widths : List Nat}
    (whole : widths.sum = 8 * bytes.length) :
    image bytes.length (unpackFrom (ofLe bytes) 0 widths) = bytes := by
  have small := ofLe_lt bytes
  have bound : ofLe bytes < 2 ^ widths.sum := by
    rw [whole, Nat.pow_mul]
    exact small
  unfold image
  rw [pack_unpackFrom, Nat.pow_zero, Nat.div_one, Nat.mod_eq_of_lt bound, leBytes_ofLe]

end Libcdma.ByteImage
