/-
  Kds.Exec.DecimalLiteral

  The decimal literals (`src/exec/type_literals.cpp`): the one digit walk both decimal widths
  share, with every signed operation checked against the integer that carries it.

  In the source an operation that leaves its signed type is undefined.  Here such a parse is
  `none`, so that a parse with a value or a refusal is one whose operations all stayed in range.
  `parsesExactly_iff` says exactly which texts those are, and `parseDecimalInto_exact` what
  a parsed value is.
-/

import Kds.Exec.FkCheck
import Kds.Lib.Bytes
import Mathlib.Data.Nat.Digits.Lemmas
import Mathlib.Tactic.FieldSimp
import Mathlib.Tactic.Positivity
import Mathlib.Tactic.SplitIfs

namespace Kds.Exec.Literals

open Lib List

-- The literals and what they denote

/-- `IsDigit`. -/
def isDigit (c : UInt8) : Bool := 48 ≤ c.toNat && c.toNat ≤ 57

/-- `c - '0'`. -/
def digitOf (c : UInt8) : Nat := c.toNat - 48

/-- The number a run of digits spells. -/
def digitsNat (run : Bytes) : Nat := run.foldl (fun n c => 10 * n + digitOf c) 0

/-- A decimal literal: its sign and the digits on either side of its point. -/
structure DecimalLiteral where
  negative : Bool
  whole : Bytes
  frac : Bytes
  deriving DecidableEq

namespace DecimalLiteral

/-- The literal's digits read as one number. -/
def units (lit : DecimalLiteral) : Nat := digitsNat (lit.whole ++ lit.frac)

/-- The number the literal denotes. -/
def value (lit : DecimalLiteral) : ℚ :=
  (if lit.negative then -1 else 1) * lit.units / 10 ^ lit.frac.length

/-- A text spells a literal: an optional sign, digits, and a point wherever digits follow it. -/
structure SpelledBy (lit : DecimalLiteral) (text : Bytes) : Prop where
  digits : ∀ c ∈ lit.whole ++ lit.frac, isDigit c = true
  nonempty : lit.whole ++ lit.frac ≠ []
  text : ∃ sign point : Bytes,
    (lit.negative = true ∧ sign = [45] ∨ lit.negative = false ∧ (sign = [] ∨ sign = [43])) ∧
    (point = [46] ∨ point = [] ∧ lit.frac = []) ∧
    text = sign ++ (lit.whole ++ (point ++ lit.frac))

end DecimalLiteral

-- The parser

/-- The two decimal types. -/
inductive DecimalWidth where
  | narrow | wide
  deriving DecidableEq

/-- The bits of `Acc`: an `int64`, or an `Int128`. -/
def DecimalWidth.bits : DecimalWidth → Nat
  | .narrow => 64
  | .wide => 128

/-- `kMinDecimalPrecision`, `kMinDecimalPrecisionWide`. -/
def DecimalWidth.minPrecision : DecimalWidth → Nat
  | .narrow => 1
  | .wide => 19

/-- `kMaxDecimalPrecision`, `kMaxDecimalPrecisionWide`: the `digit_cap` as well. -/
def DecimalWidth.digitCap : DecimalWidth → Nat
  | .narrow => 18
  | .wide => 38

/-- A signed operation's result, if the carrier can hold it. -/
def DecimalWidth.checked (w : DecimalWidth) (v : Int) : Option Int :=
  if -2 ^ (w.bits - 1) ≤ v ∧ v < 2 ^ (w.bits - 1) then some v else none

/-- `BadLiteral`. -/
def badLiteral (text : Bytes) (want : String) : Status :=
  .invalidArgument ("'" ++ textOf text ++ "' is not a valid " ++ want)

/-- A digit more than the representation carries. -/
def tooManyDigits (text : Bytes) (digitCap : Nat) : Status :=
  .outOfRange ("'" ++ textOf text ++ "' has more significant digits than a decimal can hold (max "
    ++ toString digitCap ++ ")")

/-- The optional sign at the front of a text. -/
def splitSign : Bytes → Bool × Bytes
  | [] => (false, [])
  | c :: rest =>
    if c = 45 then (true, rest) else if c = 43 then (false, rest) else (false, c :: rest)

/-- The digits before the first point and those after it. -/
def splitPoint : Bytes → Bytes × Bytes
  | [] => ([], [])
  | c :: rest => if c = 46 then ([], rest) else (c :: (splitPoint rest).1, (splitPoint rest).2)

/-- `absorb`: the walk over a run of digits. -/
def absorb (w : DecimalWidth) (text : Bytes) : Bytes → Int → Nat → Option (StatusOr (Int × Nat))
  | [], unscaled, digits => some (.ok (unscaled, digits))
  | c :: run, unscaled, digits =>
    if isDigit c = false then some (.error (badLiteral text "decimal"))
    else
      -- Leading zeros are not significant.
      let digits' := if digits ≠ 0 ∨ c ≠ 48 then digits + 1 else digits
      if digits' > w.digitCap then some (.error (tooManyDigits text w.digitCap))
      else
        match (w.checked (unscaled * 10)).bind fun u => w.checked (u + digitOf c) with
        | none => none
        | some unscaled' => absorb w text run unscaled' digits'

/-- The loop that scales a literal shorter than the scale. -/
def scaleUp (w : DecimalWidth) : Nat → Int → Nat → Option (Int × Nat)
  | 0, unscaled, digits => some (unscaled, digits)
  | missing + 1, unscaled, digits =>
    (w.checked (unscaled * 10)).bind fun u => scaleUp w missing u (digits + 1)

/-- The precision check and the sign. -/
def finish (w : DecimalWidth) (text : Bytes) (precision : Nat) (negative : Bool)
    (unscaled : Int) (digits : Nat) : Option (StatusOr Int) :=
  if digits > precision then
    some (.error (.outOfRange ("'" ++ textOf text ++ "' needs " ++ toString digits ++
      " significant digits, more than the column's precision " ++ toString precision)))
  else if negative then (w.checked (-unscaled)).map .ok
  else some (.ok unscaled)

/-- `ParseDecimalInto`; `none` where a signed operation leaves the carrier. -/
def parseDecimalInto (w : DecimalWidth) (text : Bytes) (precision scale : Nat) :
    Option (StatusOr Int) :=
  let (negative, rest) := splitSign text
  let (whole, frac) := splitPoint rest
  if text = [] ∨ whole = [] ∧ frac = [] then some (.error (badLiteral text "decimal"))
  else if frac.length > scale then
    some (.error (.invalidArgument ("'" ++ textOf text ++ "' has " ++ toString frac.length ++
      " fractional digits but the column's scale is " ++ toString scale ++
      "; this engine does not round a literal to make it fit")))
  else
    match absorb w text whole 0 0 with
    | none => none
    | some (.error e) => some (.error e)
    | some (.ok (unscaled, digits)) =>
      match absorb w text frac unscaled digits with
      | none => none
      | some (.error e) => some (.error e)
      | some (.ok (unscaled, digits)) =>
        match scaleUp w (scale - frac.length) unscaled digits with
        | none => none
        | some (unscaled, digits) => finish w text precision negative unscaled digits

/-- `CheckDecimalPrecisionScale`, `CheckDecimalWidePrecisionScale`: what the schema admits. -/
def DecimalWidth.Admits (w : DecimalWidth) (precision scale : Nat) : Prop :=
  w.minPrecision ≤ precision ∧ precision ≤ w.digitCap ∧ scale ≤ precision

instance (w : DecimalWidth) (precision scale : Nat) : Decidable (w.Admits precision scale) :=
  inferInstanceAs (Decidable (_ ∧ _ ∧ _))

-- The walk

/-- The number a run of digits spells behind a number. -/
def readOn (n : Nat) (run : Bytes) : Nat := run.foldl (fun n c => 10 * n + digitOf c) n

@[simp] theorem readOn_nil (n : Nat) : readOn n [] = n := rfl

theorem readOn_cons (n : Nat) (c : UInt8) (run : Bytes) :
    readOn n (c :: run) = readOn (10 * n + digitOf c) run := by
  rw [readOn, foldl_cons, readOn]

theorem readOn_append (n : Nat) (run more : Bytes) :
    readOn n (run ++ more) = readOn (readOn n run) more := foldl_append

theorem le_readOn (n : Nat) (run : Bytes) : n ≤ readOn n run := by
  induction run generalizing n with
  | nil => exact Nat.le_refl n
  | cons c run ih =>
    have hstep : n ≤ 10 * n + digitOf c := by omega
    exact hstep.trans (ih _)

/-- The significant digits of a number. -/
def significant (n : Nat) : Nat := (Nat.digits 10 n).length

@[simp] theorem significant_zero : significant 0 = 0 := by
  rw [significant, Nat.digits_zero, length_nil]

theorem significant_le {n k : Nat} : significant n ≤ k ↔ n < 10 ^ k :=
  Nat.digits_length_le_iff (by decide) n

theorem significant_eq_zero {n : Nat} : significant n = 0 ↔ n = 0 := by
  have h : significant n ≤ 0 ↔ n < 10 ^ 0 := significant_le
  rw [Nat.pow_zero] at h
  omega

variable {c : UInt8} {run : Bytes}

theorem digitOf_lt (h : isDigit c = true) : digitOf c < 10 := by
  simp only [isDigit, Bool.and_eq_true, decide_eq_true_eq] at h
  rw [digitOf]
  omega

theorem digitOf_eq_zero (h : isDigit c = true) : digitOf c = 0 ↔ c = 48 := by
  simp only [isDigit, Bool.and_eq_true, decide_eq_true_eq] at h
  have hc : c = 48 ↔ c.toNat = 48 := UInt8.toNat_inj.symm
  rw [digitOf, hc]
  omega

theorem significant_step (n : Nat) (h : isDigit c = true) :
    (if significant n ≠ 0 ∨ c ≠ 48 then significant n + 1 else significant n) =
      significant (10 * n + digitOf c) := by
  have hlt := digitOf_lt h
  by_cases hlead : significant n ≠ 0 ∨ c ≠ 48
  · have hne : digitOf c ≠ 0 ∨ n ≠ 0 := by
      refine hlead.symm.imp (fun hc => ?_) (fun hn => ?_)
      · exact (digitOf_eq_zero h).not.mpr hc
      · exact significant_eq_zero.not.mp hn
    rw [if_pos hlead, significant, significant, Nat.add_comm (10 * n),
      Nat.digits_add 10 (by decide) _ _ hlt hne, length_cons]
  · obtain ⟨hn, hc⟩ := not_or.mp hlead
    have hzero : n = 0 := significant_eq_zero.mp (not_not.mp hn)
    have hdigit : digitOf c = 0 := (digitOf_eq_zero h).mpr (not_not.mp hc)
    rw [if_neg hlead, hzero, hdigit]

namespace DecimalWidth

variable (w : DecimalWidth)

theorem cap_fits : 10 ^ w.digitCap ≤ 2 ^ (w.bits - 1) := by
  cases w <;> decide

theorem checked_natCast (n : Nat) :
    w.checked n = if n < 2 ^ (w.bits - 1) then some (n : Int) else none := by
  have hpow : ((2 ^ (w.bits - 1) : Nat) : Int) = 2 ^ (w.bits - 1) := by push_cast; rfl
  rw [checked]
  by_cases h : n < 2 ^ (w.bits - 1)
  · rw [if_pos h, if_pos]
    omega
  · rw [if_neg h, if_neg]
    omega

theorem checked_neg {n : Nat} (h : n < 2 ^ (w.bits - 1)) :
    w.checked (-(n : Int)) = some (-(n : Int)) := by
  have hpow : ((2 ^ (w.bits - 1) : Nat) : Int) = 2 ^ (w.bits - 1) := by push_cast; rfl
  rw [checked, if_pos]
  omega

end DecimalWidth

section

variable {w : DecimalWidth} {text : Bytes}

/-- The walk never leaves the carrier, and comes through exactly when the run is digits and what
it spells behind the number is within the digits the representation carries. -/
theorem absorb_spec (w : DecimalWidth) (text run : Bytes) (n : Nat) (hn : n < 10 ^ w.digitCap) :
    ∃ r, absorb w text run n (significant n) = some r ∧
      ∀ p, r = .ok p ↔ (∀ c ∈ run, isDigit c = true) ∧ readOn n run < 10 ^ w.digitCap ∧
        p = ((readOn n run : Int), significant (readOn n run)) := by
  induction run generalizing n with
  | nil =>
    refine ⟨.ok (n, significant n), rfl, fun p => ⟨fun h => ?_, fun h => ?_⟩⟩
    · exact ⟨by simp, hn, (Except.ok.inj h).symm⟩
    · rw [h.2.2, readOn_nil]
  | cons c run ih =>
    by_cases hc : isDigit c = true
    · have hstep := significant_step n hc
      have hcap : significant (10 * n + digitOf c) > w.digitCap ↔
          10 ^ w.digitCap ≤ 10 * n + digitOf c := by
        rw [gt_iff_lt, ← Nat.not_le, significant_le, Nat.not_lt]
      rw [absorb, if_neg (by rw [hc]; decide)]
      simp only [hstep, hcap]
      by_cases hfull : 10 ^ w.digitCap ≤ 10 * n + digitOf c
      · -- The digit is one more than the representation carries.
        rw [if_pos hfull]
        refine ⟨_, rfl, fun p => ⟨fun h => (by cases h), fun h => ?_⟩⟩
        have hread : readOn (10 * n + digitOf c) run < 10 ^ w.digitCap := h.2.1
        have hle := le_readOn (10 * n + digitOf c) run
        omega
      · have hbits := w.cap_fits
        have hmul : w.checked ((n : Int) * 10) = some ((n * 10 : Nat) : Int) := by
          have h := w.checked_natCast (n * 10)
          rw [if_pos (by omega)] at h
          exact_mod_cast h
        have hadd : w.checked (((n * 10 : Nat) : Int) + (digitOf c : Int)) =
            some ((10 * n + digitOf c : Nat) : Int) := by
          have h := w.checked_natCast (10 * n + digitOf c)
          rw [if_pos (by omega)] at h
          rw [← h]
          congr 1
          push_cast
          ring
        obtain ⟨r, hr, hspec⟩ := ih (10 * n + digitOf c) (by omega)
        rw [if_neg hfull, hmul, Option.bind_some, hadd]
        refine ⟨r, hr, fun p => (hspec p).trans ?_⟩
        rw [forall_mem_cons, readOn_cons]
        exact ⟨fun h => ⟨⟨hc, h.1⟩, h.2⟩, fun h => ⟨h.1.2, h.2⟩⟩
    · rw [absorb, if_pos (by simpa using hc)]
      refine ⟨_, rfl, fun p => ⟨fun h => (by cases h), fun h => ?_⟩⟩
      exact absurd (h.1 c mem_cons_self) hc

theorem scaleUp_eq (missing n digits : Nat) (hn : n < 2 ^ (w.bits - 1)) :
    scaleUp w missing n digits =
      if n * 10 ^ missing < 2 ^ (w.bits - 1) then
        some (((n * 10 ^ missing : Nat) : Int), digits + missing)
      else none := by
  induction missing generalizing n digits with
  | zero => rw [scaleUp, Nat.pow_zero, Nat.mul_one, if_pos hn, Nat.add_zero]
  | succ missing ih =>
    have hpow : n * 10 ^ (missing + 1) = n * 10 * 10 ^ missing := by ring
    have hmul : w.checked ((n : Int) * 10) =
        if n * 10 < 2 ^ (w.bits - 1) then some ((n * 10 : Nat) : Int) else none := by
      have h := w.checked_natCast (n * 10)
      exact_mod_cast h
    rw [scaleUp, hmul, hpow]
    by_cases hfits : n * 10 < 2 ^ (w.bits - 1)
    · rw [if_pos hfits, Option.bind_some, ih _ _ hfits, Nat.add_right_comm, Nat.add_assoc]
    · have hbig : ¬ n * 10 * 10 ^ missing < 2 ^ (w.bits - 1) := by
        have hle : n * 10 ≤ n * 10 * 10 ^ missing := Nat.le_mul_of_pos_right _ (by positivity)
        omega
      rw [if_neg hfits, if_neg hbig, Option.bind_none]

end

-- The text

/-- The literal a text would be, as its sign and its first point cut it. -/
def literalOf (text : Bytes) : DecimalLiteral :=
  { negative := (splitSign text).1
    whole := (splitPoint (splitSign text).2).1
    frac := (splitPoint (splitSign text).2).2 }

theorem digit_ne (h : isDigit c = true) : c ≠ 45 ∧ c ≠ 43 ∧ c ≠ 46 := by
  refine ⟨?_, ?_, ?_⟩ <;> rintro rfl <;> exact absurd h (by decide)

theorem splitPoint_of_digits (h : ∀ c ∈ run, isDigit c = true) : splitPoint run = (run, []) := by
  induction run with
  | nil => rfl
  | cons c run ih =>
    have hc := (digit_ne (h c mem_cons_self)).2.2
    rw [splitPoint, if_neg hc, ih fun x hx => h x (mem_cons_of_mem _ hx)]

theorem splitPoint_of_point (rest : Bytes) (h : ∀ c ∈ run, isDigit c = true) :
    splitPoint (run ++ 46 :: rest) = (run, rest) := by
  induction run with
  | nil => rfl
  | cons c run ih =>
    have hc := (digit_ne (h c mem_cons_self)).2.2
    rw [cons_append, splitPoint, if_neg hc, ih fun x hx => h x (mem_cons_of_mem _ hx)]

theorem splitPoint_spec (rest : Bytes) :
    (∃ point, (point = [46] ∨ point = [] ∧ (splitPoint rest).2 = []) ∧
      rest = (splitPoint rest).1 ++ (point ++ (splitPoint rest).2)) := by
  induction rest with
  | nil => exact ⟨[], .inr ⟨rfl, rfl⟩, rfl⟩
  | cons c rest ih =>
    rw [splitPoint]
    by_cases hc : c = 46
    · rw [if_pos hc, hc]
      exact ⟨[46], .inl rfl, rfl⟩
    · obtain ⟨point, hpoint, hrest⟩ := ih
      rw [if_neg hc]
      exact ⟨point, hpoint, by rw [cons_append, ← hrest]⟩

theorem splitSign_spec (text : Bytes) :
    ∃ sign, ((splitSign text).1 = true ∧ sign = [45] ∨
        (splitSign text).1 = false ∧ (sign = [] ∨ sign = [43])) ∧
      text = sign ++ (splitSign text).2 := by
  cases text with
  | nil => exact ⟨[], .inr ⟨rfl, .inl rfl⟩, rfl⟩
  | cons c rest =>
    rw [splitSign]
    by_cases hminus : c = 45
    · rw [if_pos hminus, hminus]
      exact ⟨[45], .inl ⟨rfl, rfl⟩, rfl⟩
    · rw [if_neg hminus]
      by_cases hplus : c = 43
      · rw [if_pos hplus, hplus]
        exact ⟨[43], .inr ⟨rfl, .inr rfl⟩, rfl⟩
      · rw [if_neg hplus]
        exact ⟨[], .inr ⟨rfl, .inl rfl⟩, rfl⟩

theorem splitSign_unsigned {rest : Bytes} (h : ∀ c ∈ rest.head?, c ≠ 45 ∧ c ≠ 43) :
    splitSign rest = (false, rest) := by
  cases rest with
  | nil => rfl
  | cons c rest =>
    obtain ⟨hminus, hplus⟩ := h c rfl
    rw [splitSign, if_neg hminus, if_neg hplus]

theorem spelledBy_iff {lit : DecimalLiteral} {text : Bytes} :
    lit.SpelledBy text ↔ lit = literalOf text ∧
      (∀ c ∈ lit.whole ++ lit.frac, isDigit c = true) ∧ lit.whole ++ lit.frac ≠ [] := by
  constructor
  · rintro ⟨hdigits, hne, sign, point, hsign, hpoint, rfl⟩
    refine ⟨?_, hdigits, hne⟩
    have hwhole : ∀ c ∈ lit.whole, isDigit c = true := fun c hc =>
      hdigits c (mem_append_left _ hc)
    have hsplit : splitPoint (lit.whole ++ (point ++ lit.frac)) = (lit.whole, lit.frac) := by
      rcases hpoint with rfl | ⟨rfl, hfrac⟩
      · exact splitPoint_of_point _ hwhole
      · rw [hfrac, append_nil, append_nil]
        exact splitPoint_of_digits hwhole
    -- What follows the sign begins with a digit or the point.
    have hhead : ∀ c ∈ (lit.whole ++ (point ++ lit.frac)).head?, c ≠ 45 ∧ c ≠ 43 := by
      intro c hc
      have hmem : c ∈ lit.whole ++ (point ++ lit.frac) := mem_of_mem_head? hc
      have hpointMem : c ∈ point → c = 46 := by
        rcases hpoint with rfl | ⟨rfl, -⟩
        · exact mem_singleton.mp
        · exact fun h => absurd h not_mem_nil
      rcases mem_append.mp hmem with h | h
      · exact ⟨(digit_ne (hwhole c h)).1, (digit_ne (hwhole c h)).2.1⟩
      · rcases mem_append.mp h with h | h
        · rw [hpointMem h]
          decide
        · have hd := digit_ne (hdigits c (mem_append_right _ h))
          exact ⟨hd.1, hd.2.1⟩
    have hcut : splitSign (sign ++ (lit.whole ++ (point ++ lit.frac))) =
        (lit.negative, lit.whole ++ (point ++ lit.frac)) := by
      rcases hsign with ⟨hneg, rfl⟩ | ⟨hneg, rfl | rfl⟩
      · rw [hneg]
        rfl
      · rw [hneg]
        exact splitSign_unsigned hhead
      · rw [hneg]
        rfl
    rw [literalOf, hcut, hsplit]
  · rintro ⟨hlit, hdigits, hne⟩
    obtain ⟨sign, hsign, htext⟩ := splitSign_spec text
    obtain ⟨point, hpoint, hrest⟩ := splitPoint_spec (splitSign text).2
    rw [hrest] at htext
    subst hlit
    exact ⟨hdigits, hne, sign, point, hsign, hpoint, htext⟩

-- What a parse returns

namespace DecimalLiteral

/-- A literal that the walk and the scaling take: within the scale and the digits the
representation carries. -/
def Walkable (lit : DecimalLiteral) (w : DecimalWidth) (scale : Nat) : Prop :=
  lit.frac.length ≤ scale ∧ lit.units < 10 ^ w.digitCap

/-- The literal's units at a column's scale. -/
def scaled (lit : DecimalLiteral) (scale : Nat) : Nat :=
  lit.units * 10 ^ (scale - lit.frac.length)

theorem scaled_value {lit : DecimalLiteral} {scale : Nat} (h : lit.frac.length ≤ scale) :
    (if lit.negative then -(lit.scaled scale : ℚ) else lit.scaled scale) =
      lit.value * 10 ^ scale := by
  have hscale : (10 : ℚ) ^ scale =
      10 ^ lit.frac.length * 10 ^ (scale - lit.frac.length) := by
    rw [← pow_add, Nat.add_sub_cancel' h]
  rw [value, hscale, scaled]
  push_cast
  cases lit.negative
  · simp
    field_simp
  · simp
    field_simp

theorem abs_value (lit : DecimalLiteral) : |lit.value| = lit.units / 10 ^ lit.frac.length := by
  rw [value, abs_div, abs_mul, abs_of_nonneg (by positivity : (0 : ℚ) ≤ 10 ^ lit.frac.length),
    Nat.abs_cast]
  cases lit.negative <;> simp

theorem scaled_eq_abs {lit : DecimalLiteral} {scale : Nat} (h : lit.frac.length ≤ scale) :
    (lit.scaled scale : ℚ) = |lit.value| * 10 ^ scale := by
  have hvalue := congrArg abs (scaled_value h)
  rw [abs_mul, abs_of_nonneg (by positivity : (0 : ℚ) ≤ 10 ^ scale)] at hvalue
  rw [← hvalue]
  cases lit.negative <;> simp

end DecimalLiteral

section

variable {w : DecimalWidth} {text : Bytes} {precision scale : Nat}

theorem absorb_append (run more : Bytes) (unscaled : Int) (digits : Nat) :
    absorb w text (run ++ more) unscaled digits =
      match absorb w text run unscaled digits with
      | none => none
      | some (.error e) => some (.error e)
      | some (.ok (unscaled, digits)) => absorb w text more unscaled digits := by
  induction run generalizing unscaled digits with
  | nil => rfl
  | cons c run ih =>
    rw [cons_append, absorb, absorb]
    by_cases hc : isDigit c = false
    · rw [if_pos hc, if_pos hc]
    · rw [if_neg hc, if_neg hc]
      dsimp only
      by_cases hfull : (if digits ≠ 0 ∨ c ≠ 48 then digits + 1 else digits) > w.digitCap
      · rw [if_pos hfull, if_pos hfull]
      · rw [if_neg hfull, if_neg hfull]
        cases (w.checked (unscaled * 10)).bind fun u => w.checked (u + digitOf c) with
        | none => rfl
        | some unscaled' => exact ih _ _

theorem parseDecimalInto_eq : parseDecimalInto w text precision scale =
    if text = [] ∨ (literalOf text).whole = [] ∧ (literalOf text).frac = [] then
      some (.error (badLiteral text "decimal"))
    else if (literalOf text).frac.length > scale then
      some (.error (.invalidArgument ("'" ++ textOf text ++ "' has " ++
        toString (literalOf text).frac.length ++ " fractional digits but the column's scale is " ++
        toString scale ++ "; this engine does not round a literal to make it fit")))
    else
      match absorb w text ((literalOf text).whole ++ (literalOf text).frac) 0 0 with
      | none => none
      | some (.error e) => some (.error e)
      | some (.ok (unscaled, digits)) =>
        match scaleUp w (scale - (literalOf text).frac.length) unscaled digits with
        | none => none
        | some (unscaled, digits) =>
          finish w text precision (literalOf text).negative unscaled digits := by
  rw [absorb_append, parseDecimalInto, literalOf]
  rcases splitSign text with ⟨negative, rest⟩
  dsimp only
  rcases splitPoint rest with ⟨whole, frac⟩
  dsimp only
  refine if_congr Iff.rfl rfl (if_congr Iff.rfl rfl ?_)
  cases absorb w text whole 0 0 with
  | none => rfl
  | some r =>
    cases r with
    | error e => rfl
    | ok p => rfl

/-- What a parse comes to: a refusal of a text that spells no literal the walk takes, and
otherwise the scaling of the literal's units and the last check. -/
theorem parseDecimalInto_cases (w : DecimalWidth) (text : Bytes) (precision scale : Nat) :
    (∃ e, parseDecimalInto w text precision scale = some (.error e)) ∧
        (∀ lit : DecimalLiteral, lit.SpelledBy text → ¬ lit.Walkable w scale) ∨
      ∃ lit : DecimalLiteral, lit.SpelledBy text ∧ lit.Walkable w scale ∧
        parseDecimalInto w text precision scale =
          if lit.scaled scale < 2 ^ (w.bits - 1) then
            finish w text precision lit.negative (lit.scaled scale)
              (significant lit.units + (scale - lit.frac.length))
          else none := by
  have hunits (lit : DecimalLiteral) : readOn 0 (lit.whole ++ lit.frac) = lit.units := rfl
  rw [parseDecimalInto_eq]
  by_cases hempty : text = [] ∨ (literalOf text).whole = [] ∧ (literalOf text).frac = []
  · left
    refine ⟨⟨_, if_pos hempty⟩, fun lit hlit => absurd (spelledBy_iff.mp hlit) ?_⟩
    rintro ⟨rfl, -, hne⟩
    rcases hempty with rfl | ⟨hwhole, hfrac⟩
    · exact hne rfl
    · rw [hwhole, hfrac] at hne
      exact hne rfl
  · rw [if_neg hempty]
    have hne : (literalOf text).whole ++ (literalOf text).frac ≠ [] := fun h =>
      hempty (.inr (append_eq_nil_iff.mp h))
    by_cases hfrac : (literalOf text).frac.length > scale
    · left
      refine ⟨⟨_, if_pos hfrac⟩, fun lit hlit hwalk => ?_⟩
      rw [(spelledBy_iff.mp hlit).1] at hwalk
      exact absurd hwalk.1 (Nat.not_le.mpr hfrac)
    · rw [if_neg hfrac]
      obtain ⟨r, hr, hspec⟩ := absorb_spec w text
        ((literalOf text).whole ++ (literalOf text).frac) 0 (Nat.pow_pos (by decide))
      rw [significant_zero] at hr
      rw [Nat.cast_zero] at hr
      rw [hr]
      cases r with
      | error e =>
        left
        refine ⟨⟨e, rfl⟩, fun lit hlit hwalk => ?_⟩
        obtain ⟨hcut, hdigits, -⟩ := spelledBy_iff.mp hlit
        rw [hcut] at hdigits hwalk
        cases (hspec _).mpr ⟨hdigits, hwalk.2, rfl⟩
      | ok p =>
        right
        obtain ⟨hdigits, hcap, hp⟩ := (hspec p).mp rfl
        refine ⟨literalOf text, spelledBy_iff.mpr ⟨rfl, hdigits, hne⟩,
          ⟨Nat.not_lt.mp hfrac, hcap⟩, ?_⟩
        rw [hunits] at hp hcap
        rw [hp]
        dsimp only
        rw [scaleUp_eq _ _ _ (hcap.trans_le w.cap_fits), ← DecimalLiteral.scaled]
        by_cases hfits : (literalOf text).scaled scale < 2 ^ (w.bits - 1)
        · simp only [if_pos hfits]
        · simp only [if_neg hfits]

theorem finish_spec (text : Bytes) (precision : Nat) (negative : Bool) {n : Nat} (digits : Nat)
    (hn : n < 2 ^ (w.bits - 1)) :
    ∃ r, finish w text precision negative n digits = some r ∧
      ∀ m, r = .ok m ↔ digits ≤ precision ∧ m = if negative then -(n : Int) else n := by
  rw [finish]
  by_cases hdigits : digits > precision
  · rw [if_pos hdigits]
    exact ⟨_, rfl, fun m => ⟨fun h => (by cases h), fun h => absurd h.1 (Nat.not_le.mpr hdigits)⟩⟩
  · rw [if_neg hdigits]
    cases negative with
    | true =>
      rw [if_pos rfl, w.checked_neg hn]
      refine ⟨_, rfl, fun m => ⟨fun h => ?_, fun h => ?_⟩⟩
      · exact ⟨Nat.not_lt.mp hdigits, (Except.ok.inj h).symm⟩
      · rw [h.2]
        rfl
    | false =>
      rw [if_neg (by decide)]
      refine ⟨_, rfl, fun m => ⟨fun h => ?_, fun h => ?_⟩⟩
      · exact ⟨Nat.not_lt.mp hdigits, (Except.ok.inj h).symm⟩
      · rw [h.2]
        rfl

theorem parseDecimalInto_exact {m : Int}
    (h : parseDecimalInto w text precision scale = some (.ok m)) :
    ∃ lit : DecimalLiteral, lit.SpelledBy text ∧ (m : ℚ) / 10 ^ scale = lit.value ∧
      |m| < 10 ^ precision := by
  rcases parseDecimalInto_cases w text precision scale with ⟨⟨e, he⟩, -⟩ | ⟨lit, hspelled, hwalk,
    hparse⟩
  · rw [he] at h
    cases h
  · rw [hparse] at h
    by_cases hfits : lit.scaled scale < 2 ^ (w.bits - 1)
    · obtain ⟨r, hr, hspec⟩ := finish_spec text precision lit.negative
        (significant lit.units + (scale - lit.frac.length)) hfits
      rw [if_pos hfits, hr] at h
      obtain ⟨hdigits, hm⟩ := (hspec m).mp (Option.some.inj h)
      refine ⟨lit, hspelled, ?_, ?_⟩
      · rw [div_eq_iff (by positivity), ← lit.scaled_value hwalk.1, hm]
        cases lit.negative <;> simp
      · -- The digits the check counts are those of the scaled number.
        have hunits : lit.units < 10 ^ significant lit.units := significant_le.mp le_rfl
        have hscaled : lit.scaled scale < 10 ^ precision := by
          calc lit.scaled scale
              < 10 ^ significant lit.units * 10 ^ (scale - lit.frac.length) :=
                Nat.mul_lt_mul_of_pos_right hunits (Nat.pow_pos (by decide))
            _ = 10 ^ (significant lit.units + (scale - lit.frac.length)) := by rw [Nat.pow_add]
            _ ≤ 10 ^ precision := Nat.pow_le_pow_right (by decide) hdigits
        have habs : |m| = (lit.scaled scale : Int) := by
          rw [hm]
          cases lit.negative <;> simp
        rw [habs]
        exact_mod_cast hscaled
    · rw [if_neg hfits] at h
      cases h

theorem parseDecimalInto_eq_none : parseDecimalInto w text precision scale = none ↔
    ∃ lit : DecimalLiteral, lit.SpelledBy text ∧ lit.Walkable w scale ∧
      2 ^ (w.bits - 1) ≤ lit.scaled scale := by
  rcases parseDecimalInto_cases w text precision scale with ⟨⟨e, he⟩, hnone⟩ | ⟨lit, hspelled,
    hwalk, hparse⟩
  · rw [he]
    refine ⟨fun h => (by cases h), ?_⟩
    rintro ⟨lit, hspelled, hwalk, -⟩
    exact absurd hwalk (hnone lit hspelled)
  · rw [hparse]
    by_cases hfits : lit.scaled scale < 2 ^ (w.bits - 1)
    · obtain ⟨r, hr, -⟩ := finish_spec text precision lit.negative
        (significant lit.units + (scale - lit.frac.length)) hfits
      rw [if_pos hfits, hr]
      refine ⟨fun h => (by cases h), ?_⟩
      rintro ⟨other, hother, -, hbig⟩
      rw [(spelledBy_iff.mp hother).1, ← (spelledBy_iff.mp hspelled).1] at hbig
      omega
    · rw [if_neg hfits]
      exact ⟨fun _ => ⟨lit, hspelled, hwalk, Nat.not_lt.mp hfits⟩, fun _ => rfl⟩

/-- Exact and in range: no operation leaves the carrier, and a parsed value is the literal's, with
no more digits than the precision. -/
def ParsesExactly (w : DecimalWidth) (text : Bytes) (precision scale : Nat) : Prop :=
  ∃ r, parseDecimalInto w text precision scale = some r ∧ ∀ m, r = .ok m →
    ∃ lit : DecimalLiteral, lit.SpelledBy text ∧ (m : ℚ) / 10 ^ scale = lit.value ∧
      |m| < 10 ^ precision

/-- A parse is exact and in range if and only if the text spells no literal within the scale and
the representation's digits whose value the carrier cannot hold at the scale. -/
theorem parsesExactly_iff : ParsesExactly w text precision scale ↔
    ∀ lit : DecimalLiteral, lit.SpelledBy text → lit.frac.length ≤ scale →
      lit.units < 10 ^ w.digitCap → |lit.value| * 10 ^ scale < 2 ^ (w.bits - 1) := by
  have hdefined : ParsesExactly w text precision scale ↔
      parseDecimalInto w text precision scale ≠ none := by
    constructor
    · rintro ⟨r, hr, -⟩ hnone
      rw [hnone] at hr
      cases hr
    · intro hdef
      obtain ⟨r, hr⟩ := Option.ne_none_iff_exists'.mp hdef
      refine ⟨r, hr, fun m hm => ?_⟩
      rw [hm] at hr
      exact parseDecimalInto_exact hr
  have hbound (lit : DecimalLiteral) (h : lit.frac.length ≤ scale) :
      |lit.value| * 10 ^ scale < 2 ^ (w.bits - 1) ↔ lit.scaled scale < 2 ^ (w.bits - 1) := by
    rw [← lit.scaled_eq_abs h]
    norm_cast
  rw [hdefined, Ne, parseDecimalInto_eq_none]
  constructor
  · intro h lit hspelled hscale hcap
    refine (hbound lit hscale).mpr (Nat.lt_of_not_le fun hbig => ?_)
    exact h ⟨lit, hspelled, ⟨hscale, hcap⟩, hbig⟩
  · rintro h ⟨lit, hspelled, hwalk, hbig⟩
    have hfits := (hbound lit hwalk.1).mp (h lit hspelled hwalk.1 hwalk.2)
    omega

end

/-- Eighteen nines for a `decimal(18, 18)`: scaling them leaves the `int64`. -/
theorem nines_leave_the_carrier : DecimalWidth.narrow.Admits 18 18 ∧
    ¬ ParsesExactly .narrow (List.replicate 18 57) 18 18 := by
  refine ⟨by decide, ?_⟩
  rintro ⟨r, hr, -⟩
  have hnone : parseDecimalInto .narrow (List.replicate 18 57) 18 18 = none := by decide +kernel
  rw [hnone] at hr
  cases hr

end Kds.Exec.Literals
