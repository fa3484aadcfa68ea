/-
Byte memories, little-endian numbers and packed bit fields.

A C structure of bit fields on a little-endian machine is one long binary
numeral: each field occupies the bits after the fields declared before it.  The
main rule reads one field back from the bytes of such a structure, wherever the
structure was copied to.
-/

import Mathlib.Data.Nat.Bitwise
import Mathlib.Data.List.Basic

namespace Libcdma.ByteImage

abbrev Bytes := Nat → UInt8

def copy (memory : Bytes) (dest : Nat) (source : Bytes) (size : Nat) : Bytes :=
  fun address =>
    if dest ≤ address ∧ address < dest + size then source (address - dest) else memory address

def store (memory : Bytes) (dest : Nat) (bytes : List UInt8) : Bytes :=
  copy memory dest (fun offset => bytes.getD offset 0) bytes.length

def load (memory : Bytes) (address size : Nat) : List UInt8 :=
  (List.range size).map (fun offset => memory (address + offset))

theorem copy_inside (memory source : Bytes) {dest size offset : Nat} (within : offset < size) :
    copy memory dest source size (dest + offset) = source offset := by
  unfold copy
  rw [if_pos ⟨by omega, by omega⟩, Nat.add_sub_cancel_left]

theorem copy_outside (memory source : Bytes) {dest size address : Nat}
    (outside : address < dest ∨ dest + size ≤ address) :
    copy memory dest source size address = memory address := by
  unfold copy
  rw [if_neg (by omega)]

@[simp] theorem load_length (memory : Bytes) (address size : Nat) :
    (load memory address size).length = size := by
  simp [load]

theorem load_getD {memory : Bytes} {address size offset : Nat} (within : offset < size) :
    (load memory address size).getD offset 0 = memory (address + offset) := by
  simp [load, List.getD_eq_getElem?_getD, within]

theorem load_congr {memory other : Bytes} {address source size : Nat}
    (same : ∀ offset, offset < size → memory (address + offset) = other (source + offset)) :
    load memory address size = load other source size := by
  apply List.map_congr_left
  intro offset member
  exact same offset (List.mem_range.mp member)

theorem load_append (memory : Bytes) (address left right : Nat) :
    load memory address (left + right) =
      load memory address left ++ load memory (address + left) right := by
  simp only [load, List.range_add, List.map_append, List.map_map]
  congr 1
  apply List.map_congr_left
  intro offset _
  simp only [Function.comp, Nat.add_assoc]

theorem load_drop (memory : Bytes) (address size count : Nat) :
    (load memory address (count + size)).drop count = load memory (address + count) size := by
  rw [load_append, List.drop_left' (load_length _ _ _)]

def slice (bytes : List UInt8) (offset size : Nat) : List UInt8 := (bytes.drop offset).take size

theorem slice_load (memory : Bytes) {address size total offset : Nat}
    (within : offset + size ≤ total) :
    slice (load memory address total) offset size = load memory (address + offset) size := by
  have split : total = offset + (size + (total - offset - size)) := by omega
  unfold slice
  rw [split, load_drop, load_append, List.take_left' (load_length _ _ _)]

theorem slice_slice (bytes : List UInt8) {offset size start count : Nat}
    (within : start + count ≤ size) :
    slice (slice bytes offset size) start count = slice bytes (offset + start) count := by
  unfold slice
  rw [List.drop_take, List.take_take, List.drop_drop, Nat.min_eq_left (by omega)]

theorem slice_append_left {left right : List UInt8} {size : Nat} (whole : left.length = size) :
    slice (left ++ right) 0 size = left := by
  unfold slice
  rw [List.drop_zero, List.take_left' whole]

theorem slice_append_right {left right : List UInt8} {start size : Nat}
    (before : left.length = start) (whole : right.length = size) :
    slice (left ++ right) start size = right := by
  unfold slice
  rw [List.drop_left' before, List.take_of_length_le (Nat.le_of_eq whole)]

theorem slice_append_after {left : List UInt8} (right : List UInt8) {start : Nat} (size : Nat)
    (before : left.length ≤ start) :
    slice (left ++ right) start size = slice right (start - left.length) size := by
  unfold slice
  rw [List.drop_append, List.drop_of_length_le before, List.nil_append]

theorem load_copy_outside (memory source : Bytes) {dest size address count : Nat}
    (outside : address + count ≤ dest ∨ dest + size ≤ address) :
    load (copy memory dest source size) address count = load memory address count :=
  load_congr (fun _ within => copy_outside memory source (by omega))

theorem load_store_same (memory : Bytes) (dest : Nat) (bytes : List UInt8) :
    load (store memory dest bytes) dest bytes.length = bytes := by
  apply List.ext_getElem
  · simp
  · intro offset left right
    simp only [load, List.getElem_map, List.getElem_range, store]
    rw [copy_inside memory _ right]
    simp [right]

theorem load_store_outside (memory : Bytes) {dest address count : Nat} (bytes : List UInt8)
    (outside : address + count ≤ dest ∨ dest + bytes.length ≤ address) :
    load (store memory dest bytes) address count = load memory address count :=
  load_copy_outside memory _ outside

theorem load_store_front (memory : Bytes) (address rest : Nat) (bytes : List UInt8) :
    load (store memory address bytes) address (bytes.length + rest) =
      bytes ++ (load memory address (bytes.length + rest)).drop bytes.length := by
  rw [load_append, load_store_same, load_drop,
    load_store_outside memory bytes (.inr (Nat.le_refl _))]

def leBytes : Nat → Nat → List UInt8
  | 0, _ => []
  | size + 1, value => UInt8.ofNat value :: leBytes size (value / 256)

def ofLe : List UInt8 → Nat
  | [] => 0
  | byte :: rest => byte.toNat + 256 * ofLe rest

@[simp] theorem leBytes_length (size value : Nat) : (leBytes size value).length = size := by
  induction size generalizing value with
  | zero => rfl
  | succ size ih => simp [leBytes, ih]

theorem ofLe_leBytes (size value : Nat) : ofLe (leBytes size value) = value % 256 ^ size := by
  induction size generalizing value with
  | zero => simp [leBytes, ofLe, Nat.mod_one]
  | succ size ih =>
      rw [leBytes, ofLe, ih, Nat.pow_succ', Nat.mod_mul]
      simp

theorem ofLe_leBytes_of_lt {size value : Nat} (fits : value < 256 ^ size) :
    ofLe (leBytes size value) = value := by
  rw [ofLe_leBytes, Nat.mod_eq_of_lt fits]

theorem ofLe_append (left right : List UInt8) :
    ofLe (left ++ right) = ofLe left + 256 ^ left.length * ofLe right := by
  induction left with
  | nil => simp [ofLe]
  | cons byte rest ih =>
      rw [List.cons_append, ofLe, ofLe, ih, List.length_cons, Nat.pow_succ', Nat.mul_add,
        Nat.mul_assoc, Nat.add_assoc]

theorem ofLe_lt (bytes : List UInt8) : ofLe bytes < 256 ^ bytes.length := by
  induction bytes with
  | nil => exact Nat.one_pos
  | cons byte rest ih =>
      have low : byte.toNat < 256 := byte.toNat_lt
      rw [ofLe, List.length_cons, Nat.pow_succ']
      omega

theorem leBytes_take (size extra value : Nat) :
    (leBytes (size + extra) value).take size = leBytes size value := by
  induction size generalizing value with
  | zero => simp [leBytes]
  | succ size ih =>
      rw [Nat.add_right_comm, leBytes, leBytes, List.take_succ_cons, ih]

theorem leBytes_getD {size index : Nat} (within : index < size) (value : Nat) :
    (leBytes size value).getD index 0 = UInt8.ofNat (value / 256 ^ index) := by
  induction size generalizing index value with
  | zero => omega
  | succ size ih =>
      cases index with
      | zero => simp [leBytes]
      | succ index =>
          rw [leBytes, List.getD_cons_succ, ih (by omega), Nat.pow_succ', Nat.div_div_eq_div_mul]

/-! ### Packed bit fields -/

abbrev Field := Σ width, BitVec width

def packWidth : List Field → Nat
  | [] => 0
  | field :: rest => field.1 + packWidth rest

/-- The numeral of a list of fields, the first one in the lowest bits. -/
def pack : List Field → Nat
  | [] => 0
  | field :: rest => field.2.toNat + 2 ^ field.1 * pack rest

def bits (value start width : Nat) : BitVec width := BitVec.ofNat width (value / 2 ^ start)

theorem bits_above {low high skip : Nat} (small : low < 2 ^ skip) {start : Nat}
    (above : skip ≤ start) (width : Nat) :
    bits (low + 2 ^ skip * high) start width = bits high (start - skip) width := by
  have split : start = skip + (start - skip) := by omega
  unfold bits
  rw [split, Nat.pow_add, ← Nat.div_div_eq_div_mul, Nat.add_mul_div_left _ _ (Nat.two_pow_pos _),
    Nat.div_eq_of_lt small, Nat.zero_add, Nat.add_sub_cancel_left]

theorem pack_lt (fields : List Field) : pack fields < 2 ^ packWidth fields := by
  induction fields with
  | nil => simp [pack, packWidth]
  | cons field rest ih =>
      have low := field.2.isLt
      have high : 2 ^ field.1 * (pack rest + 1) ≤ 2 ^ field.1 * 2 ^ packWidth rest :=
        Nat.mul_le_mul_left _ ih
      rw [Nat.mul_add, Nat.mul_one] at high
      rw [pack, packWidth, Nat.pow_add]
      omega

theorem pack_append (before after : List Field) :
    pack (before ++ after) = pack before + 2 ^ packWidth before * pack after := by
  induction before with
  | nil => simp [pack, packWidth]
  | cons field rest ih =>
      rw [List.cons_append, pack, pack, packWidth, ih, Nat.pow_add, Nat.mul_add, Nat.mul_assoc]
      omega

theorem bits_pack (before : List Field) (field : Field) (after : List Field) :
    bits (pack (before ++ field :: after)) (packWidth before) field.1 = field.2 := by
  unfold bits
  rw [pack_append, Nat.add_mul_div_left _ _ (Nat.two_pow_pos _),
    Nat.div_eq_of_lt (pack_lt before), Nat.zero_add, pack]
  apply BitVec.eq_of_toNat_eq
  rw [BitVec.toNat_ofNat, Nat.add_mul_mod_self_left, Nat.mod_eq_of_lt field.2.isLt]

theorem packWidth_eq_sum (fields : List Field) :
    packWidth fields = (fields.map Sigma.fst).sum := by
  induction fields with
  | nil => rfl
  | cons field rest ih => rw [packWidth, ih, List.map_cons, List.sum_cons]

theorem bits_pack_at {fields : List Field} {widths : List Nat}
    (layout : fields.map Sigma.fst = widths) (index : Nat) (field : Field)
    (here : fields[index]? = some field) {start : Nat}
    (position : (widths.take index).sum = start) :
    bits (pack fields) start field.1 = field.2 := by
  obtain ⟨inside, value⟩ := List.getElem?_eq_some_iff.mp here
  have split : fields = fields.take index ++ field :: fields.drop (index + 1) := by
    rw [← value, ← List.drop_eq_getElem_cons inside, List.take_append_drop]
  have read := bits_pack (fields.take index) field (fields.drop (index + 1))
  rw [← split, packWidth_eq_sum, List.map_take, layout, position] at read
  exact read

def image (size : Nat) (fields : List Field) : List UInt8 := leBytes size (pack fields)

@[simp] theorem image_length (size : Nat) (fields : List Field) :
    (image size fields).length = size :=
  leBytes_length _ _

theorem ofLe_image {size : Nat} {fields : List Field} (whole : packWidth fields = 8 * size) :
    ofLe (image size fields) = pack fields := by
  apply ofLe_leBytes_of_lt
  have bound := pack_lt fields
  rw [whole, Nat.pow_mul] at bound
  exact bound

end Libcdma.ByteImage
