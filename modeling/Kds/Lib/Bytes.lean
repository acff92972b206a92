/-
  Kds.Lib.Bytes

  Byte strings with little-endian fields, as on-disk structures read and write them: `load`
  reads a fixed-width field at an offset, `storeLE` lays one out.
-/

import Mathlib.Data.List.Basic
import Mathlib.Tactic.Ring

namespace Kds.Lib

abbrev Bytes := List UInt8

/-- The number some bytes spell, least significant first. -/
def leNat : Bytes → Nat
  | [] => 0
  | b :: bs => b.toNat + 256 * leNat bs

/-- The field of `width` bytes at `offset`. -/
def load (width : Nat) (bytes : Bytes) (offset : Nat) : Nat :=
  leNat ((bytes.drop offset).take width)

/-- The `width` bytes of a field, least significant first. -/
def storeLE : Nat → Nat → Bytes
  | 0, _ => []
  | width + 1, n => UInt8.ofNat (n % 256) :: storeLE width (n / 256)

@[simp] theorem length_storeLE (width n : Nat) : (storeLE width n).length = width := by
  induction width generalizing n with
  | zero => rfl
  | succ width ih => rw [storeLE, List.length_cons, ih]

theorem leNat_lt (bytes : Bytes) : leNat bytes < 256 ^ bytes.length := by
  induction bytes with
  | nil => decide
  | cons b bs ih =>
    have hb : b.toNat < 256 := b.toNat_lt
    rw [leNat, List.length_cons, Nat.pow_succ]
    omega

theorem load_lt (width : Nat) (bytes : Bytes) (offset : Nat) :
    load width bytes offset < 256 ^ width := by
  have hlen : ((bytes.drop offset).take width).length ≤ width := List.length_take_le ..
  calc load width bytes offset < 256 ^ ((bytes.drop offset).take width).length := leNat_lt _
    _ ≤ 256 ^ width := Nat.pow_le_pow_right (by decide) hlen

theorem leNat_storeLE (width n : Nat) : leNat (storeLE width n) = n % 256 ^ width := by
  induction width generalizing n with
  | zero => simp [storeLE, leNat, Nat.mod_one]
  | succ width ih =>
    have hbyte : (UInt8.ofNat (n % 256)).toNat = n % 256 :=
      UInt8.toNat_ofNat_of_lt' (Nat.mod_lt n (by decide))
    rw [storeLE, leNat, ih, hbyte, Nat.pow_succ', Nat.mod_mul]

theorem load_zero (width : Nat) (bytes : Bytes) : load width bytes 0 = leNat (bytes.take width) :=
  rfl

theorem load_append_right {before rest : Bytes} {offset : Nat} (width : Nat)
    (h : before.length ≤ offset) :
    load width (before ++ rest) offset = load width rest (offset - before.length) := by
  unfold load
  rw [List.drop_append, List.drop_eq_nil_of_le h, List.nil_append]

theorem load_storeLE (width n : Nat) (rest : Bytes) :
    load width (storeLE width n ++ rest) 0 = n % 256 ^ width := by
  rw [load_zero, List.take_left' (length_storeLE width n), leNat_storeLE]

theorem load_append_left {before rest : Bytes} {width offset : Nat}
    (h : offset + width ≤ before.length) :
    load width (before ++ rest) offset = load width before offset := by
  unfold load
  rw [List.drop_append_of_le_length (by omega), List.take_append_of_le_length]
  rw [List.length_drop]
  omega

end Kds.Lib
