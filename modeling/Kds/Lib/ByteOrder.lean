/-
  Kds.Lib.ByteOrder

  Byte strings as `memcmp` orders them, and the encodings that carry an order of values over to
  it: big-endian numbers of one width (`memcmp_putBE`), and texts cut and zero-padded to one width
  (`zeroPad_le`).  Strings of one width are totally preordered by `memcmp`, and equal where it
  says so.
-/

import Kds.Lib.Bytes
import Mathlib.Tactic.SplitIfs

namespace Kds.Lib

open List

/-- `memcmp`, as far as the shorter string goes. -/
def memcmp : Bytes → Bytes → Ordering
  | a :: as, b :: bs => if a < b then .lt else if b < a then .gt else memcmp as bs
  | _, _ => .eq

/-- The first string does not come after the second. -/
abbrev memcmpLE (a b : Bytes) : Prop := memcmp a b ≠ .gt

-- The order

theorem memcmp_cons (c d : UInt8) (cs ds : Bytes) :
    memcmp (c :: cs) (d :: ds) = if c < d then .lt else if d < c then .gt else memcmp cs ds := rfl

@[simp] theorem memcmp_self (a : Bytes) : memcmp a a = .eq := by
  induction a with
  | nil => rfl
  | cons c cs ih => simp [memcmp_cons, UInt8.lt_irrefl, ih]

theorem memcmp_swap (a b : Bytes) : (memcmp a b).swap = memcmp b a := by
  induction a generalizing b with
  | nil => cases b <;> rfl
  | cons c cs ih =>
    cases b with
    | nil => rfl
    | cons d ds =>
      rw [memcmp_cons, memcmp_cons]
      by_cases hlt : c < d
      · rw [if_pos hlt, if_neg (UInt8.lt_asymm hlt), if_pos hlt]
        rfl
      · rw [if_neg hlt]
        by_cases hgt : d < c
        · rw [if_pos hgt, if_pos hgt]
          rfl
        · rw [if_neg hgt, if_neg hgt, if_neg hlt]
          exact ih ds

theorem memcmpLE_refl (a : Bytes) : memcmpLE a a := by
  rw [memcmpLE, memcmp_self]
  decide

theorem memcmp_ne_lt {a b : Bytes} : memcmp a b ≠ .lt ↔ memcmpLE b a := by
  rw [memcmpLE, ← memcmp_swap a b]
  cases memcmp a b <;> simp

theorem memcmp_cons_ne_gt {c d : UInt8} {cs ds : Bytes} :
    memcmpLE (c :: cs) (d :: ds) ↔ c < d ∨ c = d ∧ memcmpLE cs ds := by
  rw [memcmpLE, memcmp_cons]
  by_cases hlt : c < d
  · simp [hlt]
  · rw [if_neg hlt]
    by_cases hgt : d < c
    · have hne : c ≠ d := fun h => UInt8.lt_irrefl c (h ▸ hgt)
      simp [hgt, hlt, hne]
    · have heq : c = d := UInt8.le_antisymm (UInt8.not_lt.mp hgt) (UInt8.not_lt.mp hlt)
      simp [heq, UInt8.lt_irrefl]

theorem memcmpLE_antisymm {a b : Bytes} (hlen : a.length = b.length) (h₁ : memcmpLE a b)
    (h₂ : memcmpLE b a) : a = b := by
  induction a generalizing b with
  | nil => exact (length_eq_zero_iff.mp hlen.symm).symm
  | cons x xs ih =>
    obtain ⟨y, ys, rfl⟩ := exists_cons_of_length_eq_add_one (hlen.symm.trans rfl)
    rw [memcmp_cons_ne_gt] at h₁ h₂
    rcases h₁ with h₁ | ⟨rfl, h₁⟩
    · rcases h₂ with h₂ | ⟨rfl, -⟩
      · exact absurd h₁ (UInt8.lt_asymm h₂)
      · exact absurd h₁ (UInt8.lt_irrefl _)
    · rcases h₂ with h₂ | ⟨-, h₂⟩
      · exact absurd h₂ (UInt8.lt_irrefl _)
      · rw [ih (by simpa using hlen) h₁ h₂]

theorem memcmpLE_append {a b c d : Bytes} (hlen : a.length = b.length) (hab : memcmpLE a b)
    (hcd : a = b → memcmpLE c d) : memcmpLE (a ++ c) (b ++ d) := by
  induction a generalizing b with
  | nil =>
    obtain rfl := length_eq_zero_iff.mp hlen.symm
    exact hcd rfl
  | cons x xs ih =>
    obtain ⟨y, ys, rfl⟩ := exists_cons_of_length_eq_add_one (hlen.symm.trans rfl)
    rw [memcmp_cons_ne_gt] at hab
    rw [cons_append, cons_append, memcmp_cons_ne_gt]
    rcases hab with hab | ⟨rfl, hab⟩
    · exact .inl hab
    · exact .inr ⟨rfl, ih (by simpa using hlen) hab fun h => hcd (by rw [h])⟩

theorem memcmpLE_zeros (b : Bytes) (n : Nat) : memcmpLE (List.replicate n 0) b := by
  induction n generalizing b with
  | zero => exact fun h => (by cases h)
  | succ n ih =>
    cases b with
    | nil => exact fun h => (by cases h)
    | cons d ds =>
      rw [replicate_succ, memcmp_cons_ne_gt]
      by_cases hzero : d = 0
      · exact .inr ⟨hzero.symm, ih ds⟩
      · exact .inl (UInt8.pos_iff_ne_zero.mpr hzero)

theorem memcmpLE_ones (a : Bytes) (n : Nat) : memcmpLE a (List.replicate n 255) := by
  induction n generalizing a with
  | zero =>
    cases a with
    | nil => exact memcmpLE_refl _
    | cons c cs => exact fun h => (by cases h)
  | succ n ih =>
    cases a with
    | nil => exact fun h => (by cases h)
    | cons c cs =>
      rw [replicate_succ, memcmp_cons_ne_gt]
      by_cases hlast : c = 255
      · exact .inr ⟨hlast, ih cs⟩
      · refine .inl (UInt8.lt_iff_toNat_lt.mpr ?_)
        have hne : c.toNat ≠ 255 := fun h => hlast (UInt8.toNat_inj.mp h)
        have hlt := c.toNat_lt
        show c.toNat < 255
        omega

-- Numbers

/-- The low `width` bytes of a number, most significant first. -/
def putBE : Nat → Nat → Bytes
  | 0, _ => []
  | width + 1, n => UInt8.ofNat (n / 256 ^ width % 256) :: putBE width n

theorem putBE_succ (width n : Nat) :
    putBE (width + 1) n = UInt8.ofNat (n / 256 ^ width % 256) :: putBE width n := rfl

@[simp] theorem length_putBE (width n : Nat) : (putBE width n).length = width := by
  induction width with
  | zero => rfl
  | succ width ih => rw [putBE_succ, length_cons, ih]

theorem putBE_le {width x y : Nat} (h : x % 256 ^ width ≤ y % 256 ^ width) :
    memcmpLE (putBE width x) (putBE width y) := by
  induction width with
  | zero => exact memcmpLE_refl _
  | succ width ih =>
    rw [putBE_succ, putBE_succ, memcmp_cons_ne_gt]
    have hx : x % 256 ^ (width + 1) = x % 256 ^ width + 256 ^ width * (x / 256 ^ width % 256) :=
      Nat.mod_pow_succ
    have hy : y % 256 ^ (width + 1) = y % 256 ^ width + 256 ^ width * (y / 256 ^ width % 256) :=
      Nat.mod_pow_succ
    have hxlow : x % 256 ^ width < 256 ^ width := Nat.mod_lt _ (Nat.pow_pos (by decide))
    have hxdigit : x / 256 ^ width % 256 < 256 := Nat.mod_lt _ (by decide)
    have hydigit : y / 256 ^ width % 256 < 256 := Nat.mod_lt _ (by decide)
    rw [hx, hy] at h
    generalize x / 256 ^ width % 256 = dx at *
    generalize y / 256 ^ width % 256 = dy at *
    have htop : dx ≤ dy := by
      by_contra hgt
      have hstep : 256 ^ width * (dy + 1) ≤ 256 ^ width * dx := Nat.mul_le_mul_left _ (by omega)
      have hylow : y % 256 ^ width < 256 ^ width := Nat.mod_lt _ (Nat.pow_pos (by decide))
      rw [Nat.mul_add] at hstep
      omega
    rcases Nat.lt_or_eq_of_le htop with hlt | rfl
    · refine .inl (UInt8.lt_iff_toNat_lt.mpr ?_)
      rw [UInt8.toNat_ofNat_of_lt' hxdigit, UInt8.toNat_ofNat_of_lt' hydigit]
      exact hlt
    · exact .inr ⟨rfl, ih (by omega)⟩

theorem putBE_inj {width x y : Nat} (h : putBE width x = putBE width y) :
    x % 256 ^ width = y % 256 ^ width := by
  induction width with
  | zero => rw [Nat.pow_zero, Nat.mod_one, Nat.mod_one]
  | succ width ih =>
    rw [putBE_succ, putBE_succ, List.cons.injEq] at h
    have hdigit : x / 256 ^ width % 256 = y / 256 ^ width % 256 := by
      have hbyte := congrArg UInt8.toNat h.1
      rwa [UInt8.toNat_ofNat_of_lt' (Nat.mod_lt _ (by decide)),
        UInt8.toNat_ofNat_of_lt' (Nat.mod_lt _ (by decide))] at hbyte
    rw [Nat.mod_pow_succ, Nat.mod_pow_succ, ih h.2, hdigit]

-- Texts

/-- The first `width` bytes of a text, with zeros where it is shorter. -/
def zeroPad : Nat → Bytes → Bytes
  | 0, _ => []
  | width + 1, [] => 0 :: zeroPad width []
  | width + 1, c :: cs => c :: zeroPad width cs

theorem zeroPad_nil (width : Nat) : zeroPad (width + 1) [] = 0 :: zeroPad width [] := rfl

theorem zeroPad_cons (width : Nat) (c : UInt8) (cs : Bytes) :
    zeroPad (width + 1) (c :: cs) = c :: zeroPad width cs := rfl

@[simp] theorem length_zeroPad (width : Nat) (s : Bytes) : (zeroPad width s).length = width := by
  induction width generalizing s with
  | zero => rfl
  | succ width ih =>
    cases s with
    | nil => rw [zeroPad_nil, length_cons, ih]
    | cons c cs => rw [zeroPad_cons, length_cons, ih]

theorem zeroPad_le {width : Nat} {a b : Bytes} (h : ¬ b < a) :
    memcmpLE (zeroPad width a) (zeroPad width b) := by
  induction width generalizing a b with
  | zero => exact memcmpLE_refl _
  | succ width ih =>
    cases a with
    | nil =>
      cases b with
      | nil => exact memcmpLE_refl _
      | cons d ds =>
        rw [zeroPad_nil, zeroPad_cons, memcmp_cons_ne_gt]
        by_cases hzero : d = 0
        · exact .inr ⟨hzero.symm, ih (not_lt_nil ds)⟩
        · exact .inl (UInt8.pos_iff_ne_zero.mpr hzero)
    | cons c cs =>
      cases b with
      | nil => exact absurd (nil_lt_cons c cs) h
      | cons d ds =>
        rw [cons_lt_cons_iff, not_or, not_and] at h
        rw [zeroPad_cons, zeroPad_cons, memcmp_cons_ne_gt]
        by_cases hlt : c < d
        · exact .inl hlt
        · have heq : d = c :=
            UInt8.le_antisymm (UInt8.not_lt.mp hlt) (UInt8.not_lt.mp h.1)
          exact .inr ⟨heq.symm, ih (h.2 heq)⟩

end Kds.Lib
