/-
  Kds.Lib.Buffer

  A buffer filled field by field: `patch` overwrites a range, `slice` reads one, `setBitAt` and
  `bitAt` a bit of a byte.  A field written where a prefix ends is read back there, and neither
  disturbs what lies before it or behind it.
-/

import Kds.Lib.Bytes

namespace Kds.Lib

open List

/-- The bytes over the ones at an offset. -/
def patch (buf : Bytes) (offset : Nat) (bytes : Bytes) : Bytes :=
  buf.take offset ++ bytes ++ buf.drop (offset + bytes.length)

/-- The bytes from `first` up to `last`. -/
def slice (buf : Bytes) (first last : Nat) : Bytes := (buf.drop first).take (last - first)

/-- A bit set, of a byte: `|= 1 << bit`. -/
def setBitAt (buf : Bytes) (byte bit : Nat) : Bytes :=
  buf.modify byte fun b => UInt8.ofNat (b.toNat ||| 2 ^ bit)

/-- `(b >> bit) & 1`, of a byte. -/
def bitAt (buf : Bytes) (byte bit : Nat) : Bool := (buf.getD byte 0).toNat.testBit bit

section

variable {pre hole rest bytes field bitmap buf : Bytes} {byte bit byte' bit' : Nat}

theorem patch_append (h : hole.length = bytes.length) :
    patch (pre ++ (hole ++ rest)) pre.length bytes = pre ++ (bytes ++ rest) := by
  rw [patch, take_left' rfl, append_assoc, ← h, ← append_assoc pre hole rest,
    ← length_append, drop_left' rfl]

theorem slice_append : slice (pre ++ (field ++ rest)) pre.length (pre.length + field.length) =
    field := by
  rw [slice, drop_left' rfl, Nat.add_sub_cancel_left, take_left' rfl]

@[simp] theorem length_setBitAt (buf : Bytes) (byte bit : Nat) :
    (setBitAt buf byte bit).length = buf.length := by
  rw [setBitAt, length_modify]

theorem setBitAt_append (byte bit : Nat) :
    setBitAt (pre ++ buf) (pre.length + byte) bit = pre ++ setBitAt buf byte bit := by
  induction pre with
  | nil => simp
  | cons b pre ih =>
    rw [cons_append, length_cons, Nat.succ_add, setBitAt, modify_succ_cons]
    exact congrArg (b :: ·) ih

theorem bitAt_append (byte bit : Nat) :
    bitAt (pre ++ buf) (pre.length + byte) bit = bitAt buf byte bit := by
  rw [bitAt, bitAt, getD_eq_getElem?_getD, getD_eq_getElem?_getD,
    List.getElem?_append_right (Nat.le_add_right _ _), Nat.add_sub_cancel_left]

theorem bitAt_setBitAt (hbyte : byte < buf.length) (hbit' : bit' < 8) :
    bitAt (setBitAt buf byte bit) byte' bit' =
      (decide (byte = byte' ∧ bit = bit') || bitAt buf byte' bit') := by
  rw [bitAt, bitAt, setBitAt, getD_eq_getElem?_getD, getD_eq_getElem?_getD,
    List.getElem?_modify]
  by_cases hsame : byte = byte'
  · subst hsame
    rw [List.getElem?_eq_getElem hbyte]
    simp only [if_true, true_and, Option.map_eq_map, Option.map_some, Option.getD_some]
    rw [UInt8.toNat_ofNat', Nat.testBit_mod_two_pow, Nat.testBit_or, Nat.testBit_two_pow]
    simp [hbit', Bool.or_comm]
  · simp only [if_neg hsame]
    cases buf[byte']? <;> simp [hsame]

theorem bitAt_zeros (n byte bit : Nat) : bitAt (List.replicate n 0) byte bit = false := by
  rw [bitAt, getD_eq_getElem?_getD, List.getElem?_replicate]
  split_ifs <;> simp

end

-- A write and what it leaves

section Frame

variable {buf bytes : Bytes} {offset first last width n : Nat}

theorem load_eq_leNat_slice (width : Nat) (buf : Bytes) (offset : Nat) :
    load width buf offset = leNat (slice buf offset (offset + width)) := by
  rw [load, slice, Nat.add_sub_cancel_left]

theorem length_patch (h : offset + bytes.length ≤ buf.length) :
    (patch buf offset bytes).length = buf.length := by
  simp only [patch, length_append, length_take, length_drop]
  omega

theorem slice_patch_self (h : offset + bytes.length ≤ buf.length)
    (hlast : last = offset + bytes.length) :
      slice (patch buf offset bytes) offset last = bytes := by
  have htake : (buf.take offset).length = offset := by rw [length_take]; omega
  have hread : slice (buf.take offset ++ (bytes ++ buf.drop (offset + bytes.length)))
      (buf.take offset).length ((buf.take offset).length + bytes.length) = bytes := slice_append
  rw [htake, ← append_assoc] at hread
  rw [hlast, patch, hread]

theorem slice_patch_of_disjoint (h : offset + bytes.length ≤ buf.length)
    (hapart : last ≤ offset ∨ offset + bytes.length ≤ first) :
    slice (patch buf offset bytes) first last = slice buf first last := by
  apply ext_getElem?
  intro i
  simp only [slice, patch, List.getElem?_take, List.getElem?_drop]
  split
  · rename_i hi
    rcases hapart with hbefore | hafter
    · rw [append_assoc, List.getElem?_append_left (by rw [length_take]; omega),
        List.getElem?_take, if_pos (by omega)]
    · have hlen : (buf.take offset ++ bytes).length = offset + bytes.length := by
        rw [length_append, length_take]; omega
      rw [List.getElem?_append_right (by omega), hlen, List.getElem?_drop]
      congr 1
      omega
  · rfl

theorem load_patch_self (h : offset + width ≤ buf.length) :
    load width (patch buf offset (storeLE width n)) offset = n % 256 ^ width := by
  rw [load_eq_leNat_slice, slice_patch_self (by rw [length_storeLE]; exact h)
    (by rw [length_storeLE]), leNat_storeLE]

end Frame

end Kds.Lib
