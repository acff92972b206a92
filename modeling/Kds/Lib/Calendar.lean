/-
  Kds.Lib.Calendar

  The proleptic Gregorian calendar: its dates, their order, the date after a date, and what a
  numbering of the days is once it counts up by one and can be undone.
-/

import Mathlib.Order.Basic
import Mathlib.Order.Monotone.Basic
import Mathlib.Tactic.IntervalCases
import Mathlib.Tactic.Ring
import Mathlib.Tactic.SplitIfs

namespace Kds.Lib

/-- Every fourth year, of the hundredth ones only every fourth. -/
def IsLeapYear (y : Int) : Prop := 4 ∣ y ∧ ¬ 100 ∣ y ∨ 400 ∣ y

instance (y : Int) : Decidable (IsLeapYear y) := inferInstanceAs (Decidable (_ ∨ _))

/-- The days of a month, numbered from one. -/
def daysInMonth (y : Int) (m : Nat) : Nat :=
  if m = 2 then (if IsLeapYear y then 29 else 28)
  else if m = 4 ∨ m = 6 ∨ m = 9 ∨ m = 11 then 30 else 31

structure CivilDate where
  year : Int
  month : Nat
  day : Nat
  deriving DecidableEq

namespace CivilDate

/-- A date of the calendar. -/
structure Valid (date : CivilDate) : Prop where
  month : 1 ≤ date.month ∧ date.month ≤ 12
  day : 1 ≤ date.day ∧ date.day ≤ daysInMonth date.year date.month

/-- The earlier date: by year, then month, then day. -/
def Before (a b : CivilDate) : Prop :=
  a.year < b.year ∨ a.year = b.year ∧
    (a.month < b.month ∨ a.month = b.month ∧ a.day < b.day)

/-- The day after. -/
def next (date : CivilDate) : CivilDate :=
  if date.day < daysInMonth date.year date.month then { date with day := date.day + 1 }
  else if date.month < 12 then ⟨date.year, date.month + 1, 1⟩
  else ⟨date.year + 1, 1, 1⟩

variable {a b c : CivilDate}

theorem Before.trans (h : a.Before b) (h' : b.Before c) : a.Before c := by
  unfold Before at *
  omega

theorem not_before_self (a : CivilDate) : ¬ a.Before a := by
  unfold Before
  omega

theorem before_next (date : CivilDate) : date.Before date.next := by
  unfold Before next
  split
  · simp
  · split
    · simp
    · left
      exact Int.lt_succ _

theorem daysInMonth_pos (y : Int) (m : Nat) : 1 ≤ daysInMonth y m := by
  unfold daysInMonth
  split_ifs <;> decide

theorem Valid.next (h : a.Valid) : a.next.Valid := by
  obtain ⟨hmonth, hday⟩ := h
  unfold CivilDate.next
  split
  · exact ⟨hmonth, ⟨Nat.le_add_left 1 _, by assumption⟩⟩
  · split
    · exact ⟨⟨Nat.le_add_left 1 _, by assumption⟩, ⟨Nat.le_refl 1, daysInMonth_pos ..⟩⟩
    · exact ⟨⟨Nat.le_refl 1, Nat.le_add_left 1 11⟩, ⟨Nat.le_refl 1, daysInMonth_pos ..⟩⟩

-- Numberings of the days

/-- A numbering of the calendar's days that counts up by one and can be undone. -/
structure Numbering (days : CivilDate → Int) (civil : Int → CivilDate) : Prop where
  valid : ∀ n, (civil n).Valid
  days_civil : ∀ n, days (civil n) = n
  civil_days : ∀ date : CivilDate, date.Valid → civil (days date) = date
  next : ∀ date : CivilDate, date.Valid → days date.next = days date + 1

variable {days : CivilDate → Int} {civil : Int → CivilDate}

theorem Numbering.civil_succ (h : Numbering days civil) (n : Int) :
    civil (n + 1) = (civil n).next := by
  have hnext := h.next (civil n) (h.valid n)
  rw [h.days_civil] at hnext
  rw [← hnext, h.civil_days _ (h.valid n).next]

theorem Numbering.before_of_lt (h : Numbering days civil) {n m : Int} (hlt : n < m) :
    (civil n).Before (civil m) := by
  obtain ⟨k, rfl⟩ := Int.lt.dest hlt
  clear hlt
  induction k with
  | zero =>
    rw [Nat.cast_one, h.civil_succ]
    exact before_next _
  | succ k ih =>
    have hsplit : n + ((k + 1).succ : Nat) = n + (k.succ : Nat) + 1 := by push_cast; ring
    rw [hsplit, h.civil_succ]
    exact ih.trans (before_next _)

/-- **Chronological order is the order of the numbers.** -/
theorem Numbering.before_iff (h : Numbering days civil) (ha : a.Valid) (hb : b.Valid) :
    a.Before b ↔ days a < days b := by
  constructor
  · intro hbefore
    rcases lt_trichotomy (days a) (days b) with hlt | heq | hgt
    · exact hlt
    · have hsame : a = b := by rw [← h.civil_days a ha, heq, h.civil_days b hb]
      rw [hsame] at hbefore
      exact absurd hbefore (not_before_self b)
    · have hback := h.before_of_lt hgt
      rw [h.civil_days a ha, h.civil_days b hb] at hback
      exact absurd (hbefore.trans hback) (not_before_self a)
  · intro hlt
    have hbefore := h.before_of_lt hlt
    rwa [h.civil_days a ha, h.civil_days b hb] at hbefore

end CivilDate

end Kds.Lib
