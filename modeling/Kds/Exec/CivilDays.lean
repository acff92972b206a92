/-
  Kds.Exec.CivilDays

  The calendar arithmetic of `src/exec/type_literals.cpp`: the day number of a date and the date of
  a day number. Years begin in March there, so that the leap day is a year's last.
-/

import Kds.Lib.Calendar
import Mathlib.Tactic.Linarith

namespace Kds.Exec.Literals

open Lib

-- The source's functions

/-- `IsLeapYear`. -/
def isLeapYear (y : Int) : Bool := y.tmod 4 = 0 && y.tmod 100 ≠ 0 || y.tmod 400 = 0

/-- `DaysInMonth`. -/
def monthDays (y : Int) (m : Nat) : Nat :=
  if m = 2 && isLeapYear y then 29
  else [31, 28, 31, 30, 31, 30, 31, 31, 30, 31, 30, 31].getD (m - 1) 0

/-- `DaysFromCivil`. The month is unsigned, so that its shift wraps. -/
def daysFromCivil (date : CivilDate) : Int :=
  let y := if date.month ≤ 2 then date.year - 1 else date.year
  let era := (if 0 ≤ y then y else y - 399).tdiv 400
  let yoe := (y - era * 400).toNat
  let m := (date.month + (if 2 < date.month then 2 ^ 32 - 3 else 9)) % 2 ^ 32
  let doy := (153 * m + 2) / 5 + date.day - 1
  let doe := yoe * 365 + yoe / 4 - yoe / 100 + doy
  era * 146097 + doe - 719468

/-- `CivilFromDays`. -/
def civilFromDays (z : Int) : CivilDate :=
  let z := z + 719468
  let era := (if 0 ≤ z then z else z - 146096).tdiv 146097
  let doe := (z - era * 146097).toNat
  let yoe := (doe - doe / 1460 + doe / 36524 - doe / 146096) / 365
  let yr := yoe + era * 400
  let doy := doe - (365 * yoe + yoe / 4 - yoe / 100)
  let mp := (5 * doy + 2) / 153
  let d := doy - (153 * mp + 2) / 5 + 1
  let m := (mp + (if mp < 10 then 3 else 2 ^ 32 - 9)) % 2 ^ 32
  ⟨if m ≤ 2 then yr + 1 else yr, m, d⟩

-- The pieces

theorem isLeapYear_iff (y : Int) : isLeapYear y = true ↔ IsLeapYear y := by
  simp only [isLeapYear, IsLeapYear, Bool.or_eq_true, Bool.and_eq_true, decide_eq_true_eq,
    ← Int.dvd_iff_tmod_eq_zero, ne_eq]

theorem monthDays_eq {y : Int} {m : Nat} (h : 1 ≤ m ∧ m ≤ 12) :
    monthDays y m = daysInMonth y m := by
  obtain ⟨hlow, hhigh⟩ := h
  unfold monthDays daysInMonth
  by_cases hleap : IsLeapYear y
  · have hbool : isLeapYear y = true := (isLeapYear_iff y).mpr hleap
    interval_cases m <;> simp [hbool, hleap]
  · have hbool : isLeapYear y = false := by
      rw [← Bool.not_eq_true, isLeapYear_iff]
      exact hleap
    interval_cases m <;> simp [hbool, hleap]

theorem tdiv_floor (x : Int) {k : Int} (hk : 0 < k) :
    (if 0 ≤ x then x else x - (k - 1)).tdiv k = x / k := by
  split
  · rename_i h
    exact Int.tdiv_eq_ediv_of_nonneg h
  · rename_i h
    have hneg : x - (k - 1) = -((k - 1) - x) := by ring
    rw [hneg, Int.neg_tdiv, Int.tdiv_eq_ediv_of_nonneg (by omega)]
    have hbelow := Int.mul_ediv_self_le (x := k - 1 - x) (ne_of_gt hk)
    have habove := Int.lt_mul_ediv_self_add (x := k - 1 - x) hk
    have hturn : -((k - 1 - x) / k) * k = -(k * ((k - 1 - x) / k)) := by ring
    apply Eq.symm
    rw [Int.ediv_eq_iff_of_pos hk, hturn]
    omega

theorem yearOfEra (g f r doy doe : Nat) (hg : g ≤ 3) (hf : f ≤ 24) (hr : r ≤ 3) (hdoy : doy ≤ 365)
    (hleap : doy = 365 → r = 3 ∧ (f = 24 → g = 3))
    (hdoe : doe = 36524 * g + 1461 * f + 365 * r + doy) :
    (doe - doe / 1460 + doe / 36524 - doe / 146096) / 365 = 100 * g + 4 * f + r := by
  have h1 : doe / 1460 = 25 * g + f + if 1460 ≤ 24 * g + f + 365 * r + doy then 1 else 0 := by
    split <;> omega
  have h2 : doe / 36524 = g + if 36524 ≤ 1461 * f + 365 * r + doy then 1 else 0 := by
    split <;> omega
  have h3 : doe / 146096 = if 36524 ≤ 1461 * f + 365 * r + doy then 1 else 0 := by
    split <;> omega
  rw [h1, h2, h3]
  split <;> split <;> omega

/-- Where a month starts in the year that begins in March. -/
def monthStart (mp : Nat) : Nat := (153 * mp + 2) / 5

theorem monthOfYear {mp d : Nat} (hmp : mp ≤ 11) (hd : monthStart mp + d < monthStart (mp + 1)) :
    (5 * (monthStart mp + d) + 2) / 153 = mp := by
  unfold monthStart at *
  interval_cases mp <;> omega

/-- A date as the source counts: the year and month with March first, and the day from zero. -/
structure MarchDate where
  year : Int
  month : Nat
  day : Nat

def MarchDate.ofCivil (date : CivilDate) : MarchDate :=
  if date.month ≤ 2 then ⟨date.year - 1, date.month + 9, date.day - 1⟩
  else ⟨date.year, date.month - 3, date.day - 1⟩

def MarchDate.civil (date : MarchDate) : CivilDate :=
  if date.month < 10 then ⟨date.year, date.month + 3, date.day + 1⟩
  else ⟨date.year + 1, date.month - 9, date.day + 1⟩

/-- The day's number in its year. -/
def MarchDate.dayOfYear (date : MarchDate) : Nat := monthStart date.month + date.day

/-- The days before a year, and those of the year. -/
def MarchDate.number (date : MarchDate) : Int :=
  365 * date.year + date.year / 4 - date.year / 100 + date.year / 400 + date.dayOfYear - 719468

/-- A date of the calendar: only February, the year's last month, is cut short. -/
structure MarchDate.Valid (date : MarchDate) : Prop where
  month : date.month ≤ 11
  day : monthStart date.month + date.day < monthStart (date.month + 1)
  february : date.dayOfYear ≤ 364 ∨ date.dayOfYear = 365 ∧ IsLeapYear (date.year + 1)

theorem daysFromCivil_eq {date : CivilDate} (h : date.Valid) :
    daysFromCivil date = (MarchDate.ofCivil date).number := by
  obtain ⟨⟨hm, hm'⟩, hd, -⟩ := h
  have hshift : (date.month + (if 2 < date.month then 2 ^ 32 - 3 else 9)) % 2 ^ 32 =
      (MarchDate.ofCivil date).month := by
    unfold MarchDate.ofCivil
    split_ifs <;> simp only <;> omega
  have hyear : (if date.month ≤ 2 then date.year - 1 else date.year) =
      (MarchDate.ofCivil date).year := by
    unfold MarchDate.ofCivil
    split_ifs <;> rfl
  have hday : date.day = (MarchDate.ofCivil date).day + 1 := by
    unfold MarchDate.ofCivil
    split_ifs <;> simp only <;> omega
  have hfloor := tdiv_floor (MarchDate.ofCivil date).year (k := 400) (by decide)
  rw [daysFromCivil, hyear, hshift]
  simp only [hday]
  rw [MarchDate.number, MarchDate.dayOfYear, monthStart]
  generalize (MarchDate.ofCivil date).year = y at *
  simp only [Int.reduceSub] at hfloor
  rw [hfloor]
  omega

namespace MarchDate

variable {date : MarchDate} {c : CivilDate}

theorem civil_ofCivil (h : c.Valid) : (ofCivil c).civil = c := by
  obtain ⟨⟨hm, hm'⟩, hd, -⟩ := h
  obtain ⟨y, m, d⟩ := c
  simp only at hm hm' hd
  by_cases hearly : m ≤ 2
  · have hlast : ¬ m + 9 < 10 := by omega
    have hback : m + 9 - 9 = m := by omega
    simp [ofCivil, MarchDate.civil, hearly, hlast, hback, Nat.sub_add_cancel hd]
  · have hfirst : m - 3 < 10 := by omega
    have hback : m - 3 + 3 = m := by omega
    simp [ofCivil, MarchDate.civil, hearly, hfirst, hback, Nat.sub_add_cancel hd]

theorem ofCivil_civil (h : date.Valid) : ofCivil date.civil = date := by
  have hmonth := h.month
  obtain ⟨y, m, d⟩ := date
  by_cases hfirst : m < 10
  · have hlate : ¬ m + 3 ≤ 2 := by omega
    simp [ofCivil, MarchDate.civil, hfirst, hlate]
  · have hearly : m - 9 ≤ 2 := Nat.sub_le_iff_le_add.mpr hmonth
    have hback : m - 9 + 9 = m := by omega
    simp [ofCivil, MarchDate.civil, hfirst, hearly, hback]

theorem valid_ofCivil (h : c.Valid) : (ofCivil c).Valid := by
  obtain ⟨⟨hm, hm'⟩, hd, hlen⟩ := h
  obtain ⟨y, m, d⟩ := c
  simp only at *
  unfold daysInMonth at hlen
  have hyear : y - 1 + 1 = y := by ring
  by_cases hleap : IsLeapYear y
  · rw [if_pos hleap] at hlen
    refine ⟨?_, ?_, ?_⟩ <;> interval_cases m <;>
      simp [ofCivil, dayOfYear, monthStart, hyear, hleap] at hlen ⊢ <;> omega
  · rw [if_neg hleap] at hlen
    refine ⟨?_, ?_, ?_⟩ <;> interval_cases m <;>
      simp [ofCivil, dayOfYear, monthStart, hyear, hleap] at hlen ⊢ <;> omega

theorem Valid.civil (h : date.Valid) : date.civil.Valid := by
  obtain ⟨hm, hday, hfeb⟩ := h
  obtain ⟨y, m, d⟩ := date
  simp only [dayOfYear, monthStart] at *
  by_cases hleap : IsLeapYear (y + 1)
  · refine ⟨?_, ?_⟩ <;> interval_cases m <;>
      simp [MarchDate.civil, daysInMonth, hleap] at hfeb hday ⊢ <;> omega
  · refine ⟨?_, ?_⟩ <;> interval_cases m <;>
      simp [MarchDate.civil, daysInMonth, hleap] at hfeb hday ⊢ <;> omega

theorem number_eq {y : Int} {yoe : Nat} (hyoe : y % 400 = yoe) (m d : Nat) :
    number ⟨y, m, d⟩ + 719468 =
      y / 400 * 146097 + (yoe * 365 + yoe / 4 - yoe / 100 + (monthStart m + d) : Nat) := by
  have hfours : y / 4 = 100 * (y / 400) + (yoe / 4 : Nat) := by omega
  have hhundreds : y / 100 = 4 * (y / 400) + (yoe / 100 : Nat) := by omega
  have hyears : y = 400 * (y / 400) + yoe := by omega
  have hle : yoe / 100 ≤ yoe * 365 + yoe / 4 := by omega
  simp only [number, dayOfYear, hfours, hhundreds]
  push_cast [Nat.cast_sub hle]
  linarith

theorem civilFromDays_number (h : date.Valid) : civilFromDays date.number = date.civil := by
  obtain ⟨hmonth, hday, hfeb⟩ := h
  obtain ⟨y, m, d⟩ := date
  simp only [dayOfYear] at *
  -- The era, the century in it, the leap cycle in that, and the year in that.
  obtain ⟨yoe, hyoe⟩ := Int.eq_ofNat_of_zero_le (Int.emod_nonneg y (by decide : (400 : Int) ≠ 0))
  have hyoeLt : yoe < 400 := by omega
  have hdoyLe : monthStart m + d ≤ 365 := by omega
  obtain ⟨doy, hdoy⟩ : ∃ doy, doy = monthStart m + d := ⟨_, rfl⟩
  obtain ⟨doe, hdoe⟩ : ∃ doe, doe = yoe * 365 + yoe / 4 - yoe / 100 + doy := ⟨_, rfl⟩
  have hleap : doy = 365 → yoe % 4 = 3 ∧ (yoe % 100 / 4 = 24 → yoe / 100 = 3) := by
    intro hlast
    have hleapYear : IsLeapYear (y + 1) := by
      rcases hfeb with hfeb | ⟨-, hleapYear⟩
      · omega
      · exact hleapYear
    unfold IsLeapYear at hleapYear
    omega
  have hcycles : doe = 36524 * (yoe / 100) + 1461 * (yoe % 100 / 4) + 365 * (yoe % 4) + doy := by
    clear * - hdoe
    omega
  have hdoyMax : doy ≤ 365 := hdoy ▸ hdoyLe
  have hyear := yearOfEra (yoe / 100) (yoe % 100 / 4) (yoe % 4) doy doe
    (Nat.le_of_lt_succ (Nat.div_lt_of_lt_mul hyoeLt)) (by clear * -; omega)
    (Nat.le_of_lt_succ (Nat.mod_lt yoe (by decide))) hdoyMax hleap hcycles
  have hparts : 100 * (yoe / 100) + 4 * (yoe % 100 / 4) + yoe % 4 = yoe := by omega
  rw [hparts] at hyear
  have hnumber : number ⟨y, m, d⟩ + 719468 = y / 400 * 146097 + doe := by
    rw [hdoe, hdoy]
    exact number_eq hyoe m d
  have hdoeLt : doe < 146097 := by
    clear * - hdoe hyoeLt hdoyMax hleap
    omega
  have hera : (number ⟨y, m, d⟩ + 719468) / 146097 = y / 400 := by
    clear * - hnumber hdoeLt
    omega
  have hfloor := tdiv_floor (number ⟨y, m, d⟩ + 719468) (k := 146097) (by decide)
  rw [hera] at hfloor
  have hinEra : (y / 400 * 146097 + (doe : Int) - y / 400 * 146097).toNat = doe := by omega
  have hmp : (5 * doy + 2) / 153 = m := by
    rw [hdoy]
    exact monthOfYear hmonth hday
  have hinYear : doe - (365 * yoe + yoe / 4 - yoe / 100) = doy := by
    clear * - hdoe
    omega
  have hback : (yoe : Int) + y / 400 * 400 = y := by omega
  simp only [Int.reduceSub] at hfloor
  simp only [civilFromDays, hfloor]
  rw [hnumber, hinEra, hyear, hinYear, hmp, hback]
  have hd : doy - (153 * m + 2) / 5 + 1 = d + 1 := by
    rw [hdoy, monthStart]
    omega
  rw [hd, MarchDate.civil]
  by_cases hfirst : m < 10
  · have hlate : ¬ m + 3 ≤ 2 := Nat.not_le.mpr (Nat.le_add_left 3 m)
    have hwrap : (m + 3) % 2 ^ 32 = m + 3 := Nat.mod_eq_of_lt (by clear * - hfirst; omega)
    simp only [hfirst, if_true, if_neg hlate, hwrap]
  · have hearly : (m + (2 ^ 32 - 9)) % 2 ^ 32 = m - 9 := by
      clear * - hfirst hmonth
      omega
    have hlow : m - 9 ≤ 2 := Nat.sub_le_of_le_add hmonth
    simp only [hfirst, if_false, hearly, if_pos hlow]

theorem exists_number (n : Int) : ∃ date : MarchDate, date.Valid ∧ date.number = n := by
  obtain ⟨doe, hdoe⟩ := Int.eq_ofNat_of_zero_le
    (Int.emod_nonneg (n + 719468) (by decide : (146097 : Int) ≠ 0))
  have hdoeLt : doe < 146097 := by omega
  -- The fourth century of an era, and the fourth year of a leap cycle, take the day that is over.
  obtain ⟨g, hg⟩ : ∃ g, g = min (doe / 36524) 3 := ⟨_, rfl⟩
  obtain ⟨inCentury, hinCentury⟩ : ∃ k, k = doe - 36524 * g := ⟨_, rfl⟩
  obtain ⟨f, hf⟩ : ∃ f, f = inCentury / 1461 := ⟨_, rfl⟩
  obtain ⟨inCycle, hinCycle⟩ : ∃ k, k = inCentury - 1461 * f := ⟨_, rfl⟩
  obtain ⟨r, hr⟩ : ∃ r, r = min (inCycle / 365) 3 := ⟨_, rfl⟩
  obtain ⟨doy, hdoy⟩ : ∃ doy, doy = inCycle - 365 * r := ⟨_, rfl⟩
  have hsum : doe = 36524 * g + 1461 * f + 365 * r + doy := by omega
  have hdoyLe : doy ≤ 365 := by omega
  have hbounds : g ≤ 3 ∧ f ≤ 24 ∧ r ≤ 3 := by omega
  obtain ⟨era, hera⟩ : ∃ era, era = (n + 719468) / 146097 := ⟨_, rfl⟩
  obtain ⟨m, hm⟩ : ∃ m, m = (5 * doy + 2) / 153 := ⟨_, rfl⟩
  have hstart : monthStart m ≤ doy := by
    unfold monthStart
    omega
  refine ⟨⟨era * 400 + (100 * g + 4 * f + r : Nat), m, doy - monthStart m⟩, ⟨?_, ?_, ?_⟩, ?_⟩
  · simp only
    omega
  · simp only [monthStart] at *
    omega
  · simp only [dayOfYear, Nat.add_sub_cancel' hstart]
    by_cases hlast : doy = 365
    · right
      refine ⟨hlast, ?_⟩
      have hcycle : r = 3 ∧ (f = 24 → g = 3) := by omega
      unfold IsLeapYear
      omega
    · left
      omega
  · have hfours : (era * 400 + (100 * g + 4 * f + r : Nat)) / 4 = 100 * era + 25 * g + f := by omega
    have hhundreds : (era * 400 + (100 * g + 4 * f + r : Nat)) / 100 = 4 * era + g := by omega
    have heras : (era * 400 + (100 * g + 4 * f + r : Nat)) / 400 = era := by omega
    simp only [number, dayOfYear, Nat.add_sub_cancel' hstart, hfours, hhundreds, heras]
    omega

theorem number_next (h : c.Valid) : (ofCivil c.next).number = (ofCivil c).number + 1 := by
  obtain ⟨⟨hm, hm'⟩, hd, hlen⟩ := h
  obtain ⟨y, m, d⟩ := c
  simp only at hm hm' hd hlen
  unfold CivilDate.next
  by_cases hday : d < daysInMonth y m
  · rw [if_pos hday]
    unfold ofCivil
    split_ifs <;> simp only [number, dayOfYear] <;> omega
  · have hlast : d = daysInMonth y m := Nat.le_antisymm hlen (Nat.not_lt.mp hday)
    rw [if_neg hday]
    by_cases hmonth : m < 12
    · rw [if_pos hmonth]
      unfold daysInMonth at hlast
      by_cases hleap : IsLeapYear y
      · rw [if_pos hleap] at hlast
        unfold IsLeapYear at hleap
        interval_cases m <;>
          simp [ofCivil, number, dayOfYear, monthStart] at hlast ⊢ <;> omega
      · rw [if_neg hleap] at hlast
        unfold IsLeapYear at hleap
        interval_cases m <;>
          simp [ofCivil, number, dayOfYear, monthStart] at hlast ⊢ <;> omega
    · obtain rfl : m = 12 := Nat.le_antisymm hm' (Nat.not_lt.mp hmonth)
      simp [daysInMonth] at hlast
      simp [ofCivil, number, dayOfYear, monthStart]
      omega

end MarchDate

theorem civil_numbering : CivilDate.Numbering daysFromCivil civilFromDays := by
  have hcivil (n : Int) : ∃ date : MarchDate, date.Valid ∧ date.number = n ∧
      civilFromDays n = date.civil := by
    obtain ⟨date, hvalid, rfl⟩ := MarchDate.exists_number n
    exact ⟨date, hvalid, rfl, MarchDate.civilFromDays_number hvalid⟩
  refine ⟨fun n => ?_, fun n => ?_, fun date hdate => ?_, fun date hdate => ?_⟩
  · obtain ⟨date, hvalid, -, hdate⟩ := hcivil n
    rw [hdate]
    exact hvalid.civil
  · obtain ⟨date, hvalid, hnumber, hdate⟩ := hcivil n
    rw [hdate, daysFromCivil_eq hvalid.civil, MarchDate.ofCivil_civil hvalid, hnumber]
  · have hmarch := MarchDate.valid_ofCivil hdate
    rw [daysFromCivil_eq hdate, MarchDate.civilFromDays_number hmarch,
      MarchDate.civil_ofCivil hdate]
  · rw [daysFromCivil_eq hdate, daysFromCivil_eq hdate.next, MarchDate.number_next hdate]

end Kds.Exec.Literals
