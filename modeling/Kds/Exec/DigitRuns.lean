/-
  Kds.Exec.DigitRuns

  Runs of decimal digits as the type literals write and read them (`src/exec/type_literals.cpp`):
  `std::to_string`'s digits, a number padded to a width, and a run of a fixed width read back.
-/

import Kds.Exec.DecimalLiteral

namespace Kds.Exec.Literals

open Lib List

/-- The digits `std::to_string` writes; the wide decimals' formatter peels the same ones off by
    hand. -/
def toDecimal (n : Nat) : Bytes :=
  if n < 10 then [UInt8.ofNat (48 + n)] else toDecimal (n / 10) ++ [UInt8.ofNat (48 + n % 10)]

/-- `std::to_string` of a signed number. -/
def toDecimalInt (value : Int) : Bytes :=
  if value < 0 then 45 :: toDecimal value.natAbs else toDecimal value.toNat

/-- `Pad`. -/
def pad (value : Int) (width : Nat) : Bytes :=
  let digits := toDecimalInt value
  if width ≤ digits.length then digits
  else List.replicate (width - digits.length) 48 ++ digits

/-- `ReadFixedDigits`: exactly `count` digits. -/
def readFixedDigits (text : Bytes) (at_ count : Nat) : Option Nat :=
  if text.length < at_ + count then none
  else if ((text.drop at_).take count).all isDigit then
    some (digitsNat ((text.drop at_).take count))
  else none

-- A number at a width

/-- The last `width` digits of a number. -/
def fixedDigits : Nat → Nat → Bytes
  | 0, _ => []
  | width + 1, n => fixedDigits width (n / 10) ++ [UInt8.ofNat (48 + n % 10)]

variable {run : Bytes} {width n : Nat}

theorem digit_spec {d : Nat} (h : d < 10) :
    isDigit (UInt8.ofNat (48 + d)) = true ∧ digitOf (UInt8.ofNat (48 + d)) = d := by
  interval_cases d <;> decide

theorem digit_of_digitOf {c : UInt8} (h : isDigit c = true) : UInt8.ofNat (48 + digitOf c) = c := by
  simp only [isDigit, Bool.and_eq_true, decide_eq_true_eq] at h
  rw [digitOf, Nat.add_sub_cancel' h.1, UInt8.ofNat_toNat]

theorem digitsNat_concat (run : Bytes) (c : UInt8) :
    digitsNat (run ++ [c]) = 10 * digitsNat run + digitOf c := by
  rw [digitsNat, foldl_append]
  rfl

@[simp] theorem length_fixedDigits (width n : Nat) : (fixedDigits width n).length = width := by
  induction width generalizing n with
  | zero => rfl
  | succ width ih => rw [fixedDigits, length_append, ih]; rfl

theorem isDigit_fixedDigits (width n : Nat) : ∀ c ∈ fixedDigits width n, isDigit c = true := by
  induction width generalizing n with
  | zero => exact fun c hc => (by cases hc)
  | succ width ih =>
    intro c hc
    rcases Lib.mem_snoc.mp hc with hc | rfl
    · exact ih _ c hc
    · exact (digit_spec (Nat.mod_lt n (by decide))).1

theorem digitsNat_fixedDigits (width n : Nat) :
    digitsNat (fixedDigits width n) = n % 10 ^ width := by
  induction width generalizing n with
  | zero => rw [Nat.pow_zero, Nat.mod_one]; rfl
  | succ width ih =>
    rw [fixedDigits, digitsNat_concat, ih, (digit_spec (Nat.mod_lt n (by decide))).2,
      Nat.pow_succ', Nat.mod_mul]
    omega

theorem digitsNat_lt (h : ∀ c ∈ run, isDigit c = true) : digitsNat run < 10 ^ run.length := by
  induction run using List.reverseRecOn with
  | nil => decide
  | append_singleton run c ih =>
    have hrun := ih fun x hx => h x (mem_append_left _ hx)
    have hc := digitOf_lt (h c (mem_append_right _ (mem_singleton_self c)))
    rw [digitsNat_concat, length_append, length_singleton, Nat.pow_succ]
    omega

theorem fixedDigits_digitsNat (h : ∀ c ∈ run, isDigit c = true) :
    fixedDigits run.length (digitsNat run) = run := by
  induction run using List.reverseRecOn with
  | nil => rfl
  | append_singleton run c ih =>
    have hrun := ih fun x hx => h x (mem_append_left _ hx)
    have hc := h c (mem_append_right _ (mem_singleton_self c))
    have hlast : (10 * digitsNat run + digitOf c) % 10 = digitOf c := by
      have := digitOf_lt hc
      omega
    have hfirst : (10 * digitsNat run + digitOf c) / 10 = digitsNat run := by
      have := digitOf_lt hc
      omega
    rw [length_append, length_singleton, digitsNat_concat, fixedDigits, hfirst, hlast,
      hrun, digit_of_digitOf hc]

theorem eq_fixedDigits (h : ∀ c ∈ run, isDigit c = true) (hlen : run.length = width)
    (hn : digitsNat run = n) : run = fixedDigits width n := by
  rw [← hlen, ← hn, fixedDigits_digitsNat h]

-- A number's own digits

theorem isDigit_toDecimal (n : Nat) : ∀ c ∈ toDecimal n, isDigit c = true := by
  induction n using toDecimal.induct with
  | case1 n hn =>
    rw [toDecimal, if_pos hn]
    intro c hc
    rw [mem_singleton.mp hc]
    exact (digit_spec hn).1
  | case2 n hn ih =>
    rw [toDecimal, if_neg hn]
    intro c hc
    rcases Lib.mem_snoc.mp hc with hc | rfl
    · exact ih c hc
    · exact (digit_spec (Nat.mod_lt n (by decide))).1

theorem digitsNat_toDecimal (n : Nat) : digitsNat (toDecimal n) = n := by
  induction n using toDecimal.induct with
  | case1 n hn =>
    rw [toDecimal, if_pos hn]
    have hd := (digit_spec hn).2
    rw [← nil_append [_], digitsNat_concat, hd]
    exact Nat.zero_add n
  | case2 n hn ih =>
    rw [toDecimal, if_neg hn, digitsNat_concat, ih, (digit_spec (Nat.mod_lt n (by decide))).2]
    omega

theorem toDecimal_ne_nil (n : Nat) : toDecimal n ≠ [] := by
  unfold toDecimal
  split <;> simp

theorem length_toDecimal_le (h : n < 10 ^ (width + 1)) : (toDecimal n).length ≤ width + 1 := by
  induction width generalizing n with
  | zero =>
    rw [toDecimal, if_pos (by simpa using h)]
    exact Nat.le_refl 1
  | succ width ih =>
    rw [toDecimal]
    split
    · exact Nat.le_add_left 1 _
    · have hq : n / 10 < 10 ^ (width + 1) := by
        rw [Nat.pow_succ] at h
        exact Nat.div_lt_of_lt_mul (by rwa [Nat.mul_comm])
      rw [length_append, length_singleton]
      exact Nat.succ_le_succ (ih hq)

theorem head_toDecimal (h : (toDecimal n).head? = some 48) : n = 0 := by
  induction n using toDecimal.induct with
  | case1 n hn =>
    rw [toDecimal, if_pos hn, List.head?_cons, Option.some.injEq] at h
    have hd := (digit_spec hn).2
    rw [h] at hd
    exact hd.symm
  | case2 n hn ih =>
    rw [toDecimal, if_neg hn, List.head?_append_of_ne_nil _ (toDecimal_ne_nil _)] at h
    have hq := ih h
    omega

theorem digitsNat_zeros (k : Nat) (run : Bytes) :
    digitsNat (List.replicate k 48 ++ run) = digitsNat run := by
  induction k with
  | zero => rfl
  | succ k ih => exact ih

theorem pad_eq (width : Nat) (h : n < 10 ^ (width + 1)) :
    pad (n : Int) (width + 1) = fixedDigits (width + 1) n := by
  have hlen := length_toDecimal_le h
  have hdigits : toDecimalInt n = toDecimal n := if_neg (Int.not_lt.mpr (Int.natCast_nonneg n))
  rw [pad, hdigits]
  split
  · exact eq_fixedDigits (isDigit_toDecimal n) (by omega) (digitsNat_toDecimal n)
  · apply eq_fixedDigits
    · intro c hc
      rcases mem_append.mp hc with hc | hc
      · rw [(mem_replicate.mp hc).2]
        decide
      · exact isDigit_toDecimal n c hc
    · rw [length_append, length_replicate]
      omega
    · rw [digitsNat_zeros, digitsNat_toDecimal]

-- Reading

theorem readFixedDigits_eq_some {text : Bytes} {at_ count v : Nat} (hcount : 0 < count) :
    readFixedDigits text at_ count = some v ↔ v < 10 ^ count ∧
      (text.drop at_).take count = fixedDigits count v := by
  unfold readFixedDigits
  constructor
  · intro h
    split at h
    · cases h
    · rename_i hroom
      split at h
      · rename_i hdigits
        rw [all_eq_true] at hdigits
        have hlen : ((text.drop at_).take count).length = count := by
          rw [length_take, length_drop]
          omega
        cases h
        refine ⟨?_, eq_fixedDigits hdigits hlen rfl⟩
        have hlt := digitsNat_lt hdigits
        rwa [hlen] at hlt
      · cases h
  · rintro ⟨hv, htext⟩
    have hlen := congrArg List.length htext
    rw [length_fixedDigits, length_take, length_drop] at hlen
    have hall : ((text.drop at_).take count).all isDigit = true := by
      rw [htext, all_eq_true]
      exact isDigit_fixedDigits count v
    have hroom : ¬ text.length < at_ + count := by omega
    rw [if_neg hroom, if_pos hall, htext, digitsNat_fixedDigits, Nat.mod_eq_of_lt hv]

end Kds.Exec.Literals
