/-
  Kds.Storage.Crc32c

  The checksum of pages and log records (`src/storage/crc32c.cpp`): the Castagnoli CRC, in the
  byte-at-a-time table form; the hardware path computes the same function.  The 32-bit register
  is a natural number, which no step here takes past its width.

  Two texts of one length that differ in four adjacent bytes at most have different checksums
  (`Burst.crc32cExtend_ne`): what a byte leaves in the register tells the byte, for a row of the
  table is told by its top byte.
-/

import Kds.Lib.Bytes
import Mathlib.Data.List.Nodup
import Mathlib.Data.Nat.Bitwise
import Mathlib.Tactic.SplitIfs

namespace Kds.Storage

open Lib

/-- The Castagnoli polynomial, bit-reflected. -/
def castagnoliReflected : Nat := 0x82F63B78

/-- One row of `MakeTable`: `bits` steps of the shift register. -/
def crcTableStep : Nat → Nat → Nat
  | 0, crc => crc
  | bits + 1, crc =>
    crcTableStep bits (if crc % 2 = 1 then castagnoliReflected ^^^ (crc >>> 1) else crc >>> 1)

/-- `kTable[i]`. -/
def crcTable (i : Nat) : Nat := crcTableStep 8 i

/-- `~crc`. -/
def complement32 (crc : Nat) : Nat := 0xFFFFFFFF ^^^ crc

/-- `Crc32cExtendSoftware`. -/
def crc32cExtend (crc : Nat) (data : Bytes) : Nat :=
  complement32 (data.foldl
    (fun state b => crcTable ((state ^^^ b.toNat) &&& 0xFF) ^^^ (state >>> 8)) (complement32 crc))

def crc32c (data : Bytes) : Nat := crc32cExtend 0 data

/-- One byte of `Crc32cExtendSoftware`. -/
def crcByte (state : Nat) (b : UInt8) : Nat :=
  crcTable ((state ^^^ b.toNat) &&& 0xFF) ^^^ (state >>> 8)

variable {crc : Nat}

theorem crcTableStep_lt (bits : Nat) (h : crc < 2 ^ 32) : crcTableStep bits crc < 2 ^ 32 := by
  induction bits generalizing crc with
  | zero => exact h
  | succ bits ih =>
    have hshift : crc >>> 1 < 2 ^ 32 := Nat.lt_of_le_of_lt (Nat.shiftRight_le crc 1) h
    rw [crcTableStep]
    split_ifs
    · exact ih (Nat.xor_lt_two_pow (by decide) hshift)
    · exact ih hshift

theorem complement32_lt (h : crc < 2 ^ 32) : complement32 crc < 2 ^ 32 :=
  Nat.xor_lt_two_pow (by decide) h

theorem crcByte_lt {state : Nat} (h : state < 2 ^ 32) (b : UInt8) : crcByte state b < 2 ^ 32 := by
  have hbyte : (state ^^^ b.toNat) &&& 0xFF ≤ 0xFF := Nat.and_le_right
  exact Nat.xor_lt_two_pow (crcTableStep_lt 8 (by omega))
    (Nat.lt_of_le_of_lt (Nat.shiftRight_le state 8) h)

theorem crcBytes_lt {s : Nat} (h : s < 2 ^ 32) (w : Bytes) : w.foldl crcByte s < 2 ^ 32 := by
  induction w generalizing s with
  | nil => exact h
  | cons b w ih => exact ih (crcByte_lt h b)

theorem crc32cExtend_lt (h : crc < 2 ^ 32) (data : Bytes) : crc32cExtend crc data < 2 ^ 32 :=
  complement32_lt (crcBytes_lt (complement32_lt h) data)

theorem crc32c_lt (data : Bytes) : crc32c data < 2 ^ 32 := crc32cExtend_lt (by decide) data

-- the check value every CRC-32C agrees on: "123456789"
example : crc32c [49, 50, 51, 52, 53, 54, 55, 56, 57] = 0xE3069283 := by decide +kernel

-- What a byte leaves tells the byte

/-- The table's 256 words differ in their highest byte. -/
theorem crcTable_inj {i j : Nat} (hi : i < 256) (hj : j < 256)
    (h : crcTable i >>> 24 = crcTable j >>> 24) : i = j := by
  have hrows : ((List.range 256).map fun i => crcTable i >>> 24).Nodup := by decide +kernel
  exact List.inj_on_of_nodup_map hrows (List.mem_range.mpr hi) (List.mem_range.mpr hj) h

/-- What a byte leaves above bit `k` fixes the state above bit `k + 8` and the table's index. -/
theorem crcByte_back {s t k : Nat} {b c : UInt8} (hs : s < 2 ^ 32) (ht : t < 2 ^ 32) (hk : k ≤ 24)
    (h : crcByte s b >>> k = crcByte t c >>> k) :
    s >>> (k + 8) = t >>> (k + 8) ∧ (s ^^^ b.toNat) &&& 0xFF = (t ^^^ c.toNat) &&& 0xFF := by
  have hrow : ∀ {state : Nat} (b : UInt8), state < 2 ^ 32 →
      crcByte state b >>> k >>> (24 - k) = crcTable ((state ^^^ b.toNat) &&& 0xFF) >>> 24 := by
    intro state b hstate
    rw [← Nat.shiftRight_add, Nat.add_sub_of_le hk, crcByte, Nat.shiftRight_xor_distrib,
      ← Nat.shiftRight_add, Nat.shiftRight_eq_div_pow, Nat.shiftRight_eq_div_pow,
      Nat.div_eq_of_lt (show state < 2 ^ (8 + 24) from hstate), Nat.xor_zero]
  have hindex : (s ^^^ b.toNat) &&& 0xFF = (t ^^^ c.toNat) &&& 0xFF := by
    apply crcTable_inj (Nat.lt_succ_of_le Nat.and_le_right) (Nat.lt_succ_of_le Nat.and_le_right)
    rw [← hrow b hs, ← hrow c ht, h]
  refine ⟨?_, hindex⟩
  rw [crcByte, crcByte, hindex, Nat.shiftRight_xor_distrib, Nat.shiftRight_xor_distrib,
    ← Nat.shiftRight_add, ← Nat.shiftRight_add, Nat.add_comm 8 k] at h
  exact Nat.xor_right_injective h

theorem and_ff_xor (s : Nat) (b : UInt8) :
    ((s ^^^ b.toNat) &&& 0xFF) ^^^ (s &&& 0xFF) = b.toNat := by
  have hb : b.toNat &&& 0xFF = b.toNat := by
    rw [show (0xFF : Nat) = 2 ^ 8 - 1 from rfl, Nat.and_two_pow_sub_one_eq_mod]
    exact Nat.mod_eq_of_lt b.toNat_lt
  rw [Nat.and_xor_distrib_right, hb, Nat.xor_comm, ← Nat.xor_assoc, Nat.xor_self, Nat.zero_xor]

/-- Byte by byte from the last: up to four bytes are known from the two states around them. -/
theorem crcBytes_back {u v : Bytes} {s t k : Nat} (hs : s < 2 ^ 32) (ht : t < 2 ^ 32)
    (hlen : u.length = v.length) (hk : k + 8 * u.length ≤ 32)
    (h : u.foldl crcByte s >>> k = v.foldl crcByte t >>> k) :
    s >>> (k + 8 * u.length) = t >>> (k + 8 * u.length) ∧ (s = t → u = v) := by
  induction u generalizing v s t with
  | nil =>
    obtain rfl := List.length_eq_zero_iff.mp hlen.symm
    exact ⟨h, fun _ => rfl⟩
  | cons b u ih =>
    cases v with
    | nil => cases hlen
    | cons c v =>
      rw [List.length_cons] at hk
      obtain ⟨hlater, hsame⟩ := ih (crcByte_lt hs b) (crcByte_lt ht c) (Nat.succ.inj hlen)
        (by omega) h
      obtain ⟨hbefore, hindex⟩ := crcByte_back hs ht (by omega) hlater
      refine ⟨?_, fun heq => ?_⟩
      · rw [List.length_cons, Nat.mul_succ, ← Nat.add_assoc]
        exact hbefore
      · subst heq
        have hb : b = c := by
          apply UInt8.toNat_inj.mp
          rw [← and_ff_xor s b, ← and_ff_xor s c, hindex]
        subst hb
        rw [hsame rfl]

/-- The same bytes take different states to different states. -/
theorem crcBytes_inj {w : Bytes} {s t : Nat} (hs : s < 2 ^ 32) (ht : t < 2 ^ 32)
    (h : w.foldl crcByte s = w.foldl crcByte t) : s = t := by
  induction w generalizing s t with
  | nil => exact h
  | cons b w ih =>
    have hstep : crcByte s b >>> 0 = crcByte t b >>> 0 := ih (crcByte_lt hs b) (crcByte_lt ht b) h
    obtain ⟨hhigh, hindex⟩ := crcByte_back hs ht (Nat.zero_le _) hstep
    have hlow : s &&& 2 ^ 8 - 1 = t &&& 2 ^ 8 - 1 := by
      have hs' := and_ff_xor s b
      rw [hindex] at hs'
      exact Nat.xor_right_injective (hs'.trans (and_ff_xor t b).symm)
    rw [Nat.and_two_pow_sub_one_eq_mod, Nat.and_two_pow_sub_one_eq_mod] at hlow
    rw [Nat.zero_add, Nat.shiftRight_eq_div_pow, Nat.shiftRight_eq_div_pow] at hhigh
    rw [← Nat.div_add_mod s (2 ^ 8), ← Nat.div_add_mod t (2 ^ 8), hhigh, hlow]

/-- Two texts of one length that differ in four adjacent bytes at most. -/
def Burst (a b : Bytes) : Prop :=
  ∃ pre u v post, a = pre ++ u ++ post ∧ b = pre ++ v ++ post ∧ u.length = v.length ∧
    u.length ≤ 4 ∧ u ≠ v

/-- A burst of at most four bytes changes the checksum. -/
theorem Burst.crc32cExtend_ne {a b : Bytes} (h : Burst a b) (hcrc : crc < 2 ^ 32) :
    crc32cExtend crc a ≠ crc32cExtend crc b := by
  obtain ⟨pre, u, v, post, rfl, rfl, hlen, hshort, hne⟩ := h
  intro heq
  apply hne
  have hstart := crcBytes_lt (complement32_lt hcrc) pre
  have hregister : (pre ++ u ++ post).foldl crcByte (complement32 crc) =
      (pre ++ v ++ post).foldl crcByte (complement32 crc) := Nat.xor_right_injective heq
  simp only [List.foldl_append] at hregister
  have hmiddle := crcBytes_inj (crcBytes_lt hstart u) (crcBytes_lt hstart v) hregister
  have hback := @crcBytes_back u v _ _ 0 hstart hstart hlen (by omega) (congrArg (· >>> 0) hmiddle)
  exact hback.2 rfl

theorem complement32_complement32 (crc : Nat) : complement32 (complement32 crc) = crc := by
  unfold complement32
  rw [← Nat.xor_assoc, Nat.xor_self, Nat.zero_xor]

/-- A checksum taken in two calls is that of the bytes together. -/
theorem crc32cExtend_append (crc : Nat) (a b : Bytes) :
    crc32cExtend (crc32cExtend crc a) b = crc32cExtend crc (a ++ b) := by
  unfold crc32cExtend
  rw [complement32_complement32, List.foldl_append]

end Kds.Storage
