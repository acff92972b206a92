/-
  Kds.Exec.CivilTexts

  Dates and timestamps as texts (`src/exec/type_literals.cpp`): what a text of either kind is, the
  number it is stored as, and the text a stored number is written as.
-/

import Kds.Exec.CivilDays
import Kds.Exec.DigitRuns

namespace Kds.Exec.Literals

open Lib List

-- The source's functions

/-- `ParseCivilDate`. -/
def parseCivilDate (text : Bytes) : StatusOr Int :=
  if text.length < 10 ∨ text.getD 4 0 ≠ 45 ∨ text.getD 7 0 ≠ 45 then
    .error (badLiteral text "date (expected YYYY-MM-DD)")
  else
    match readFixedDigits text 0 4, readFixedDigits text 5 2, readFixedDigits text 8 2 with
    | some y, some m, some d =>
      if m < 1 ∨ 12 < m then
        .error (.invalidArgument ("month " ++ toString m ++ " in '" ++ textOf text ++
          "' is out of range 1..12"))
      else if d < 1 ∨ monthDays y m < d then
        .error (.invalidArgument ("day " ++ toString d ++ " in '" ++ textOf text ++
          "' is out of range for that month (" ++ toString (monthDays y m) ++ " days)"))
      else .ok (daysFromCivil ⟨y, m, d⟩)
    | _, _, _ => .error (badLiteral text "date (expected YYYY-MM-DD)")

/-- `ParseDateLiteral`. -/
def parseDateLiteral (text : Bytes) : StatusOr Int :=
  if text.length ≠ 10 then .error (badLiteral text "date (expected exactly YYYY-MM-DD)")
  else do
    let day ← parseCivilDate text
    if day < kMinEpochDay ∨ kMaxEpochDay < day then
      .error (.outOfRange ("date '" ++ textOf text ++
        "' is outside the supported range 1900-01-01..2999-12-31"))
    else .ok day

/-- The microseconds behind the seconds: a short fraction scales up. -/
def parseFraction (text : Bytes) : StatusOr Nat :=
  if text.length ≤ 19 then .ok 0
  else if text.getD 19 0 ≠ 46 then
    .error (badLiteral text "timestamp (expected '.' before fractional seconds)")
  else
    let frac := text.drop 20
    if frac = [] ∨ 6 < frac.length then
      .error (.invalidArgument ("'" ++ textOf text ++ "' has " ++ toString frac.length ++
        " fractional digits; a timestamp carries one to six (microseconds)"))
    else if frac.all isDigit then .ok (digitsNat frac * 10 ^ (6 - frac.length))
    else .error (badLiteral text "timestamp (fractional part)")

/-- `ParseTimestampLiteral`. -/
def parseTimestampLiteral (text : Bytes) : StatusOr Int := do
  let day ← parseCivilDate text
  if text.length < 19 ∨ (text.getD 10 0 ≠ 32 ∧ text.getD 10 0 ≠ 84) ∨ text.getD 13 0 ≠ 58 ∨
      text.getD 16 0 ≠ 58 then
    .error (badLiteral text "timestamp (expected YYYY-MM-DD HH:MM:SS[.ffffff])")
  else
    match readFixedDigits text 11 2, readFixedDigits text 14 2, readFixedDigits text 17 2 with
    | some hh, some mm, some ss =>
      if 23 < hh ∨ 59 < mm ∨ 59 < ss then
        .error (.invalidArgument ("time in '" ++ textOf text ++
          "' is out of range (00:00:00..23:59:59)"))
      else do
        let micros ← parseFraction text
        let seconds := day * 86400 + hh * 3600 + mm * 60 + ss
        let value := seconds * 1000000 + micros
        if value < kMinEpochMicros ∨ kMaxEpochMicros < value then
          .error (.outOfRange ("timestamp '" ++ textOf text ++
            "' is outside the supported range"))
        else .ok value
    | _, _, _ => .error (badLiteral text "timestamp (expected YYYY-MM-DD HH:MM:SS[.ffffff])")

/-- `FormatDate`. -/
def formatDate (epochDay : Int) : Bytes :=
  let date := civilFromDays epochDay
  pad date.year 4 ++ (45 :: (pad date.month 2 ++ (45 :: pad date.day 2)))

/-- `FormatTimestamp`: the day an instant falls in, also before the epoch. -/
def formatTimestamp (epochMicros : Int) : Bytes :=
  let day := epochMicros.tdiv 86400000000
  let rest := epochMicros.tmod 86400000000
  let (day, rest) := if rest < 0 then (day - 1, rest + 86400000000) else (day, rest)
  let micros := rest.tmod 1000000
  let seconds := rest.tdiv 1000000
  formatDate day ++ (32 :: (pad (seconds.tdiv 3600) 2 ++ (58 ::
    (pad ((seconds.tdiv 60).tmod 60) 2 ++ (58 :: (pad (seconds.tmod 60) 2 ++
      if micros ≠ 0 then 46 :: pad micros 6 else []))))))

-- The texts

/-- A date that four digits can write the year of. -/
structure Written (date : CivilDate) : Prop where
  valid : date.Valid
  year : 0 ≤ date.year ∧ date.year < 10000

/-- `YYYY-MM-DD`. -/
def dateText (date : CivilDate) : Bytes :=
  fixedDigits 4 date.year.toNat ++ (45 :: (fixedDigits 2 date.month ++ (45 ::
    fixedDigits 2 date.day)))

variable {date : CivilDate}

theorem Written.month_lt (h : Written date) : date.month < 10 ^ 2 := by
  have := h.valid.month.2
  omega

theorem Written.day_lt (h : Written date) : date.day < 10 ^ 2 := by
  have hlen : daysInMonth date.year date.month ≤ 31 := by
    unfold daysInMonth
    split_ifs <;> decide
  have := h.valid.day.2
  omega

@[simp] theorem length_dateText (date : CivilDate) : (dateText date).length = 10 := by
  simp [dateText]

theorem drop_eq_cons {text : Bytes} (i : Nat) (h : i < text.length) :
    text.drop i = text.getD i 0 :: text.drop (i + 1) := by
  have hget : text.getD i 0 = text[i] := by simp [List.getD, h]
  rw [hget]
  exact drop_eq_getElem_cons h

theorem drop_eq_append (text : Bytes) (i count : Nat) :
    text.drop i = (text.drop i).take count ++ text.drop (i + count) := by
  rw [← drop_drop, take_append_drop]

variable {before : Bytes} {rest frac : Bytes} {micros : Nat}

theorem take_drop_append {part : Bytes} {i count : Nat} (hi : before.length = i)
    (hcount : part.length = count) : ((before ++ (part ++ rest)).drop i).take count = part := by
  subst hi hcount
  rw [drop_left, take_left]

theorem getD_append_cons {c : UInt8} {i : Nat} (hi : before.length = i) :
    (before ++ c :: rest).getD i 0 = c := by
  subst hi
  simp [List.getD]

theorem readFixedDigits_append (before : Bytes) {i count v : Nat} (hcount : 0 < count)
    (hi : before.length = i) (hv : v < 10 ^ count) :
    readFixedDigits (before ++ (fixedDigits count v ++ rest)) i count = some v :=
  (readFixedDigits_eq_some hcount).mpr ⟨hv, take_drop_append hi (length_fixedDigits count v)⟩

variable {n : Int}

theorem parseCivilDate_eq_ok {text : Bytes} :
    parseCivilDate text = .ok n ↔ ∃ date rest, Written date ∧ text = dateText date ++ rest ∧
      n = daysFromCivil date := by
  unfold parseCivilDate
  constructor
  · intro h
    split at h
    · cases h
    · rename_i hshape
      rw [not_or, not_or, Nat.not_lt, not_not, not_not] at hshape
      obtain ⟨hlen, hdash, hdash'⟩ := hshape
      split at h
      · rename_i y m d hy hm hd
        obtain ⟨hy, hyText⟩ := (readFixedDigits_eq_some (by decide)).mp hy
        obtain ⟨-, hmText⟩ := (readFixedDigits_eq_some (by decide)).mp hm
        obtain ⟨-, hdText⟩ := (readFixedDigits_eq_some (by decide)).mp hd
        split at h
        · cases h
        · rename_i hmonth
          have hmonth : 1 ≤ m ∧ m ≤ 12 := by omega
          split at h
          · cases h
          · rename_i hday
            rw [monthDays_eq hmonth] at hday
            cases h
            have hday : 1 ≤ d ∧ d ≤ daysInMonth y m := by omega
            have hyear : 0 ≤ (y : Int) ∧ (y : Int) < 10000 := by omega
            refine ⟨⟨y, m, d⟩, text.drop 10, ⟨⟨hmonth, hday⟩, hyear⟩, ?_, rfl⟩
            · have h0 := drop_eq_append text 0 4
              have h4 := drop_eq_cons 4 (show _ < text.length by omega)
              have h5 := drop_eq_append text 5 2
              have h7 := drop_eq_cons 7 (show _ < text.length by omega)
              have h8 := drop_eq_append text 8 2
              rw [hyText] at h0
              rw [hdash] at h4
              rw [hmText] at h5
              rw [hdash'] at h7
              rw [hdText] at h8
              rw [drop_zero] at h0
              calc text = fixedDigits 4 y ++ (45 :: (fixedDigits 2 m ++ (45 ::
                    (fixedDigits 2 d ++ text.drop 10)))) := by rw [← h8, ← h7, ← h5, ← h4, ← h0]
                _ = dateText ⟨y, m, d⟩ ++ text.drop 10 := by simp [dateText]
      · cases h
  · rintro ⟨date, rest, hdate, rfl, rfl⟩
    have hyear : date.year.toNat < 10 ^ 4 := by
      have := hdate.year
      omega
    have htext : dateText date ++ rest = fixedDigits 4 date.year.toNat ++ (45 ::
        (fixedDigits 2 date.month ++ (45 :: (fixedDigits 2 date.day ++ rest)))) := by
      simp [dateText]
    have hy : readFixedDigits (dateText date ++ rest) 0 4 = some date.year.toNat := by
      rw [htext]
      exact readFixedDigits_append [] (by decide) rfl hyear
    have hm : readFixedDigits (dateText date ++ rest) 5 2 = some date.month := by
      rw [htext, append_cons]
      exact readFixedDigits_append _ (by decide) (by simp) hdate.month_lt
    have hd : readFixedDigits (dateText date ++ rest) 8 2 = some date.day := by
      rw [htext, append_cons, ← append_assoc, append_cons]
      exact readFixedDigits_append _ (by decide) (by simp) hdate.day_lt
    have hdash : (dateText date ++ rest).getD 4 0 = 45 := by
      rw [htext]
      exact getD_append_cons (by simp)
    have hdash' : (dateText date ++ rest).getD 7 0 = 45 := by
      rw [htext, append_cons, ← append_assoc]
      exact getD_append_cons (by simp)
    have hlen : ¬ (dateText date ++ rest).length < 10 := by simp
    have hmonth := hdate.valid.month
    have hday := hdate.valid.day
    rw [if_neg (not_or.mpr ⟨hlen, not_or.mpr ⟨not_not.mpr hdash, not_not.mpr hdash'⟩⟩), hy, hm, hd]
    have hback : ((date.year.toNat : Nat) : Int) = date.year := Int.toNat_of_nonneg hdate.year.1
    simp only [hback, monthDays_eq hmonth]
    rw [if_neg (by omega), if_neg (by omega)]

-- Dates

/-- The days in range are those of the dates in range. -/
theorem supported_iff (h : date.Valid) :
    ¬ date.Before ⟨1900, 1, 1⟩ ∧ ¬ (⟨2999, 12, 31⟩ : CivilDate).Before date ↔
      kMinEpochDay ≤ daysFromCivil date ∧ daysFromCivil date ≤ kMaxEpochDay := by
  have hfirst : (⟨1900, 1, 1⟩ : CivilDate).Valid := ⟨by decide, by decide⟩
  have hlast : (⟨2999, 12, 31⟩ : CivilDate).Valid := ⟨by decide, by decide⟩
  have hfirstDay : daysFromCivil ⟨1900, 1, 1⟩ = kMinEpochDay := by decide
  have hlastDay : daysFromCivil ⟨2999, 12, 31⟩ = kMaxEpochDay := by decide
  rw [civil_numbering.before_iff h hfirst, civil_numbering.before_iff hlast h, hfirstDay, hlastDay,
    not_lt, not_lt]

theorem year_of_supported (h : date.Valid) (hmin : kMinEpochDay ≤ daysFromCivil date)
    (hmax : daysFromCivil date ≤ kMaxEpochDay) : 1900 ≤ date.year ∧ date.year ≤ 2999 := by
  obtain ⟨hbefore, hafter⟩ := (supported_iff h).mpr ⟨hmin, hmax⟩
  unfold CivilDate.Before at hbefore hafter
  simp only at hbefore hafter
  omega

theorem written_civilFromDays (hmin : kMinEpochDay ≤ n) (hmax : n ≤ kMaxEpochDay) :
    Written (civilFromDays n) := by
  have hdays := civil_numbering.days_civil n
  have hyear := year_of_supported (civil_numbering.valid n) (by rwa [hdays]) (by rwa [hdays])
  exact ⟨civil_numbering.valid n, by omega⟩

theorem parseDateLiteral_dateText (h : Written date) :
    parseDateLiteral (dateText date) =
      if daysFromCivil date < kMinEpochDay ∨ kMaxEpochDay < daysFromCivil date then
        .error (.outOfRange ("date '" ++ textOf (dateText date) ++
          "' is outside the supported range 1900-01-01..2999-12-31"))
      else .ok (daysFromCivil date) := by
  have hparse : parseCivilDate (dateText date) = .ok (daysFromCivil date) :=
    parseCivilDate_eq_ok.mpr ⟨date, [], h, (append_nil _).symm, rfl⟩
  rw [parseDateLiteral, if_neg (not_not.mpr (length_dateText date)), hparse]
  rfl

theorem parseDateLiteral_eq_ok {text : Bytes} :
    parseDateLiteral text = .ok n ↔ ∃ date, Written date ∧ text = dateText date ∧
      n = daysFromCivil date ∧ kMinEpochDay ≤ n ∧ n ≤ kMaxEpochDay := by
  constructor
  · intro h
    unfold parseDateLiteral at h
    split at h
    · cases h
    · rename_i hlen
      rw [not_not] at hlen
      obtain ⟨day, hday, h⟩ := bind_eq_ok.mp h
      obtain ⟨date, rest, hwritten, htext, rfl⟩ := parseCivilDate_eq_ok.mp hday
      split at h
      · cases h
      · rename_i hrange
        cases h
        have hrest : rest = [] := by
          have hlength := congrArg List.length htext
          rw [hlen, length_append, length_dateText] at hlength
          exact eq_nil_of_length_eq_zero (by omega)
        rw [hrest, append_nil] at htext
        exact ⟨date, hwritten, htext, rfl, by omega, by omega⟩
  · rintro ⟨date, hwritten, rfl, rfl, hmin, hmax⟩
    rw [parseDateLiteral_dateText hwritten]
    exact if_neg (by omega)

theorem formatDate_eq (hmin : kMinEpochDay ≤ n) (hmax : n ≤ kMaxEpochDay) :
    formatDate n = dateText (civilFromDays n) := by
  have hwritten := written_civilFromDays hmin hmax
  obtain ⟨y, hy⟩ := Int.eq_ofNat_of_zero_le hwritten.year.1
  have hyear : y < 10 ^ 4 := by
    have := hwritten.year.2
    omega
  rw [formatDate, dateText, hy, pad_eq 3 hyear, pad_eq 1 hwritten.month_lt,
    pad_eq 1 hwritten.day_lt]
  rfl

-- Timestamps

/-- An instant by the clock. -/
structure CivilTime where
  date : CivilDate
  hour : Nat
  minute : Nat
  second : Nat
  micros : Nat
  deriving DecidableEq

namespace CivilTime

structure Valid (t : CivilTime) : Prop where
  date : Written t.date
  hour : t.hour ≤ 23
  minute : t.minute ≤ 59
  second : t.second ≤ 59
  micros : t.micros < 1000000

/-- The microseconds since the epoch. -/
def instant (t : CivilTime) : Int :=
  (daysFromCivil t.date * 86400 + t.hour * 3600 + t.minute * 60 + t.second) * 1000000 + t.micros

/-- The earlier instant: by date, then by the clock. -/
def Before (a b : CivilTime) : Prop :=
  a.date.Before b.date ∨ a.date = b.date ∧ (a.hour < b.hour ∨ a.hour = b.hour ∧
    (a.minute < b.minute ∨ a.minute = b.minute ∧ (a.second < b.second ∨ a.second = b.second ∧
      a.micros < b.micros)))

/-- The clock's part up to the seconds. -/
def clockText (t : CivilTime) : Bytes :=
  fixedDigits 2 t.hour ++ (58 :: (fixedDigits 2 t.minute ++ (58 :: fixedDigits 2 t.second)))

/-- **The canonical text**: six digits behind the point, or no point. -/
def text (t : CivilTime) : Bytes :=
  dateText t.date ++ (32 :: (t.clockText ++
    if t.micros = 0 then [] else 46 :: fixedDigits 6 t.micros))

/-- A text of the instant: a blank or a `T` before the clock, and one to six digits behind a
    point, or no point. -/
def SpelledBy (t : CivilTime) (text : Bytes) : Prop :=
  ∃ separator frac, (separator = 32 ∨ separator = 84) ∧
    text = dateText t.date ++ (separator :: (t.clockText ++ frac)) ∧
    (frac = [] ∧ t.micros = 0 ∨ ∃ digits : Bytes, frac = 46 :: digits ∧ digits ≠ [] ∧
      digits.length ≤ 6 ∧ (∀ c ∈ digits, isDigit c = true) ∧
        t.micros = digitsNat digits * 10 ^ (6 - digits.length))

variable {t t' : CivilTime}

theorem before_iff (h : t.Valid) (h' : t'.Valid) : t.Before t' ↔ t.instant < t'.instant := by
  have hdate := civil_numbering.before_iff h.date.valid h'.date.valid
  have hsame : t.date = t'.date ↔ daysFromCivil t.date = daysFromCivil t'.date := by
    refine ⟨fun heq => by rw [heq], fun heq => ?_⟩
    rw [← civil_numbering.civil_days _ h.date.valid, heq,
      civil_numbering.civil_days _ h'.date.valid]
  obtain ⟨-, hh, hm, hs, hus⟩ := h
  obtain ⟨-, hh', hm', hs', hus'⟩ := h'
  unfold Before instant
  rw [hdate, hsame]
  generalize daysFromCivil t.date = day
  generalize daysFromCivil t'.date = day'
  omega

theorem eq_of_instant (h : t.Valid) (h' : t'.Valid) (hsame : t.instant = t'.instant) : t = t' := by
  have hdate : t.date = t'.date := by
    rw [← civil_numbering.civil_days _ h.date.valid, ← civil_numbering.civil_days _ h'.date.valid]
    apply congrArg
    obtain ⟨-, hh, hm, hs, hus⟩ := h
    obtain ⟨-, hh', hm', hs', hus'⟩ := h'
    unfold instant at hsame
    omega
  obtain ⟨-, hh, hm, hs, hus⟩ := h
  obtain ⟨-, hh', hm', hs', hus'⟩ := h'
  obtain ⟨date, hour, minute, second, micros⟩ := t
  obtain ⟨date', hour', minute', second', micros'⟩ := t'
  simp only at hdate hh hm hs hus hh' hm' hs' hus'
  subst hdate
  simp only [instant] at hsame
  -- The clock in the units of the microsecond, one place after another.
  have hmicros : micros = micros' := by omega
  have hsecond : second = second' := by omega
  have hminute : minute = minute' := by omega
  have hhour : hour = hour' := by omega
  rw [hmicros, hsecond, hminute, hhour]

theorem Valid.spelled (h : t.Valid) : t.SpelledBy t.text := by
  refine ⟨32, _, .inl rfl, rfl, ?_⟩
  by_cases hzero : t.micros = 0
  · exact .inl ⟨if_pos hzero, hzero⟩
  · refine .inr ⟨fixedDigits 6 t.micros, if_neg hzero, ?_, ?_, isDigit_fixedDigits _ _, ?_⟩
    · exact ne_nil_of_length_pos (by rw [length_fixedDigits]; decide)
    · rw [length_fixedDigits]
    · rw [length_fixedDigits, digitsNat_fixedDigits, Nat.sub_self, Nat.pow_zero, Nat.mul_one,
        Nat.mod_eq_of_lt (show t.micros < 10 ^ 6 from h.micros)]

/-- The clock of so many microseconds of a day. -/
def ofDay (date : CivilDate) (rest : Nat) : CivilTime :=
  ⟨date, rest / 1000000 / 3600, rest / 1000000 / 60 % 60, rest / 1000000 % 60, rest % 1000000⟩

theorem length_clockText (t : CivilTime) : t.clockText.length = 8 := by
  simp [clockText]

end CivilTime

theorem parseFraction_eq_ok (hlen : before.length = 19) :
    parseFraction (before ++ frac) = .ok micros ↔
      (frac = [] ∧ micros = 0 ∨ ∃ digits : Bytes, frac = 46 :: digits ∧ digits ≠ [] ∧
        digits.length ≤ 6 ∧ (∀ c ∈ digits, isDigit c = true) ∧
          micros = digitsNat digits * 10 ^ (6 - digits.length)) := by
  unfold parseFraction
  cases frac with
  | nil =>
    rw [append_nil, if_pos (Nat.le_of_eq hlen)]
    simp only [Except.ok.injEq, true_and, reduceCtorEq, false_and, exists_false, or_false]
    exact eq_comm
  | cons c digits =>
    have hlong : ¬ (before ++ c :: digits).length ≤ 19 := by
      rw [length_append, hlen, length_cons]
      omega
    have hpoint : (before ++ c :: digits).getD 19 0 = c := getD_append_cons hlen
    have hdrop : (before ++ c :: digits).drop 20 = digits := by
      rw [append_cons]
      exact drop_left' (by rw [length_append, hlen]; rfl)
    rw [if_neg hlong, hpoint, hdrop]
    constructor
    · intro h
      right
      refine ⟨digits, ?_⟩
      split at h
      · cases h
      · rename_i hc
        dsimp only at h
        split at h
        · cases h
        · rename_i hcount
          split at h
          · rename_i hdigits
            rw [not_or] at hcount
            exact ⟨by rw [not_not.mp hc], hcount.1, by omega, all_eq_true.mp hdigits,
              (Except.ok.inj h).symm⟩
          · cases h
    · rintro (⟨hnil, -⟩ | ⟨digits', heq, hne, hcount, hdigits, rfl⟩)
      · cases hnil
      · obtain ⟨rfl, rfl⟩ := List.cons.inj heq
        rw [if_neg (not_not.mpr rfl)]
        dsimp only
        rw [if_neg (not_or.mpr ⟨hne, by omega⟩), if_pos (all_eq_true.mpr hdigits)]

theorem micros_lt
    (h : frac = [] ∧ micros = 0 ∨ ∃ digits : Bytes, frac = 46 :: digits ∧ digits ≠ [] ∧
      digits.length ≤ 6 ∧ (∀ c ∈ digits, isDigit c = true) ∧
        micros = digitsNat digits * 10 ^ (6 - digits.length)) : micros < 1000000 := by
  rcases h with ⟨-, rfl⟩ | ⟨digits, -, -, hcount, hdigits, rfl⟩
  · decide
  · calc digitsNat digits * 10 ^ (6 - digits.length)
        < 10 ^ digits.length * 10 ^ (6 - digits.length) :=
          Nat.mul_lt_mul_of_pos_right (digitsNat_lt hdigits) (Nat.pow_pos (by decide))
      _ = 1000000 := by rw [← Nat.pow_add, Nat.add_sub_cancel' hcount]

theorem parseTimestampLiteral_spelled {t : CivilTime} {text : Bytes} (hvalid : t.Valid)
    (hspelled : t.SpelledBy text) :
    parseTimestampLiteral text =
      if t.instant < kMinEpochMicros ∨ kMaxEpochMicros < t.instant then
        .error (.outOfRange ("timestamp '" ++ textOf text ++ "' is outside the supported range"))
      else .ok t.instant := by
  unfold parseTimestampLiteral
  obtain ⟨separator, frac, hsep, rfl, hfrac⟩ := hspelled
  have hparse : parseCivilDate (dateText t.date ++ (separator :: (t.clockText ++ frac))) =
      .ok (daysFromCivil t.date) :=
    parseCivilDate_eq_ok.mpr ⟨t.date, _, hvalid.date, rfl, rfl⟩
  have htext : dateText t.date ++ (separator :: (t.clockText ++ frac)) =
      dateText t.date ++ (separator :: (fixedDigits 2 t.hour ++ (58 ::
        (fixedDigits 2 t.minute ++ (58 :: (fixedDigits 2 t.second ++ frac)))))) := by
    simp [CivilTime.clockText]
  have hbefore : (dateText t.date ++ separator :: t.clockText).length = 19 := by
    rw [length_append, length_cons, length_dateText, CivilTime.length_clockText]
  have hfraction : parseFraction (dateText t.date ++ (separator :: (t.clockText ++ frac))) =
      .ok t.micros := by
    have hread := (parseFraction_eq_ok hbefore).mpr hfrac
    rwa [append_assoc, cons_append] at hread
  have hlen : ¬ (dateText t.date ++ (separator :: (t.clockText ++ frac))).length < 19 := by
    rw [length_append, length_cons, length_append, length_dateText,
      CivilTime.length_clockText]
    omega
  rw [hparse, hfraction]
  rw [htext] at hlen ⊢
  have hsepAt : (dateText t.date ++ (separator :: (fixedDigits 2 t.hour ++ (58 ::
      (fixedDigits 2 t.minute ++ (58 :: (fixedDigits 2 t.second ++ frac))))))).getD 10 0 =
        separator := getD_append_cons (length_dateText _)
  obtain ⟨hhour, hminute, hsecond⟩ : t.hour < 10 ^ 2 ∧ t.minute < 10 ^ 2 ∧ t.second < 10 ^ 2 := by
    have := hvalid.hour
    have := hvalid.minute
    have := hvalid.second
    omega
  have hreadHour : readFixedDigits (dateText t.date ++ (separator :: (fixedDigits 2 t.hour ++
      (58 :: (fixedDigits 2 t.minute ++ (58 :: (fixedDigits 2 t.second ++ frac))))))) 11 2 =
        some t.hour := by
    rw [append_cons]
    exact readFixedDigits_append _ (by decide) (by simp) hhour
  have hreadMinute : readFixedDigits (dateText t.date ++ (separator :: (fixedDigits 2 t.hour ++
      (58 :: (fixedDigits 2 t.minute ++ (58 :: (fixedDigits 2 t.second ++ frac))))))) 14 2 =
        some t.minute := by
    rw [append_cons, ← append_assoc, append_cons]
    exact readFixedDigits_append _ (by decide) (by simp) hminute
  have hreadSecond : readFixedDigits (dateText t.date ++ (separator :: (fixedDigits 2 t.hour ++
      (58 :: (fixedDigits 2 t.minute ++ (58 :: (fixedDigits 2 t.second ++ frac))))))) 17 2 =
        some t.second := by
    rw [append_cons, ← append_assoc, append_cons, ← append_assoc,
      append_cons]
    exact readFixedDigits_append _ (by decide) (by simp) hsecond
  have hcolon : (dateText t.date ++ (separator :: (fixedDigits 2 t.hour ++ (58 ::
      (fixedDigits 2 t.minute ++ (58 :: (fixedDigits 2 t.second ++ frac))))))).getD 13 0 =
        58 := by
    rw [append_cons, ← append_assoc]
    exact getD_append_cons (by simp)
  have hcolon' : (dateText t.date ++ (separator :: (fixedDigits 2 t.hour ++ (58 ::
      (fixedDigits 2 t.minute ++ (58 :: (fixedDigits 2 t.second ++ frac))))))).getD 16 0 =
        58 := by
    rw [append_cons, ← append_assoc, append_cons, ← append_assoc]
    exact getD_append_cons (by simp)
  have hblank : ¬ (separator ≠ 32 ∧ separator ≠ 84) := by
    rintro ⟨hne, hne'⟩
    rcases hsep with h | h
    · exact hne h
    · exact hne' h
  have hclock : ¬ (23 < t.hour ∨ 59 < t.minute ∨ 59 < t.second) := by
    have := hvalid.hour
    have := hvalid.minute
    have := hvalid.second
    omega
  change (if _ then _ else _ : StatusOr Int) = _
  rw [hsepAt, hcolon, hcolon', hreadHour, hreadMinute, hreadSecond, if_neg
    (not_or.mpr ⟨hlen, not_or.mpr ⟨hblank, not_or.mpr ⟨not_not.mpr rfl, not_not.mpr rfl⟩⟩⟩)]
  change (if _ then _ else _ : StatusOr Int) = _
  rw [if_neg hclock]
  rfl

theorem parseTimestampLiteral_eq_ok {text : Bytes} :
    parseTimestampLiteral text = .ok n ↔ ∃ t : CivilTime, t.Valid ∧ t.SpelledBy text ∧
      n = t.instant ∧ kMinEpochMicros ≤ n ∧ n ≤ kMaxEpochMicros := by
  constructor
  · intro h
    unfold parseTimestampLiteral at h
    obtain ⟨day, hday, h⟩ := bind_eq_ok.mp h
    obtain ⟨date, rest, hwritten, rfl, rfl⟩ := parseCivilDate_eq_ok.mp hday
    split at h
    · cases h
    · rename_i hshape
      rw [not_or, not_or, not_or, Nat.not_lt, not_not, not_not] at hshape
      obtain ⟨hlen, hsep, hcolon, hcolon'⟩ := hshape
      split at h
      · rename_i hh mm ss hhour hminute hsecond
        obtain ⟨-, hhText⟩ := (readFixedDigits_eq_some (by decide)).mp hhour
        obtain ⟨-, hmText⟩ := (readFixedDigits_eq_some (by decide)).mp hminute
        obtain ⟨-, hsText⟩ := (readFixedDigits_eq_some (by decide)).mp hsecond
        split at h
        · cases h
        · rename_i hclock
          obtain ⟨micros, hmicros, h⟩ := bind_eq_ok.mp h
          dsimp only at h
          split at h
          · cases h
          · rename_i hrange
            cases h
            obtain ⟨text, htext⟩ : ∃ text, text = dateText date ++ rest := ⟨_, rfl⟩
            rw [← htext] at hlen hsep hcolon hcolon' hhText hmText hsText hmicros ⊢
            -- The text from its eleventh character on, cut at the places of a clock.
            have hrest : rest = text.drop 10 := by
              rw [htext]
              exact (drop_left' (length_dateText date)).symm
            have h10 := drop_eq_cons 10 (show _ < text.length by omega)
            have h11 := drop_eq_append text 11 2
            have h13 := drop_eq_cons 13 (show _ < text.length by omega)
            have h14 := drop_eq_append text 14 2
            have h16 := drop_eq_cons 16 (show _ < text.length by omega)
            have h17 := drop_eq_append text 17 2
            rw [hhText] at h11
            rw [hcolon] at h13
            rw [hmText] at h14
            rw [hcolon'] at h16
            rw [hsText] at h17
            rw [← take_append_drop 19 text] at hmicros
            have hfrac := (parseFraction_eq_ok (length_take_of_le hlen)).mp hmicros
            refine ⟨⟨date, hh, mm, ss, micros⟩,
              ⟨hwritten, by dsimp only; omega, by dsimp only; omega, by dsimp only; omega,
                micros_lt hfrac⟩,
              ⟨text.getD 10 0, text.drop 19, ?_, ?_, hfrac⟩, rfl, ?_, ?_⟩
            · by_cases hblank : text.getD 10 0 = 32
              · exact .inl hblank
              · exact .inr (not_not.mp fun hother => hsep ⟨hblank, hother⟩)
            · calc text = dateText date ++ text.drop 10 := by rw [← hrest, ← htext]
                _ = _ := by
                    rw [h10, h11, h13, h14, h16, h17, CivilTime.clockText]
                    simp
            · omega
            · omega
      · cases h
  · rintro ⟨t, hvalid, hspelled, rfl, hmin, hmax⟩
    rw [parseTimestampLiteral_spelled hvalid hspelled]
    exact if_neg (by omega)

theorem floor_cut (n : Int) :
    (if n.tmod 86400000000 < 0 then
        (n.tdiv 86400000000 - 1, n.tmod 86400000000 + 86400000000)
      else (n.tdiv 86400000000, n.tmod 86400000000)) = (n / 86400000000, n % 86400000000) := by
  have hsum := Int.mul_tdiv_add_tmod n 86400000000
  have hneg := Int.tmod_nonneg (a := n) 86400000000
  have hlt := Int.tmod_lt_of_pos n (by decide : (0 : Int) < 86400000000)
  have hgt : -86400000000 < n.tmod 86400000000 := Int.lt_tmod_of_pos n (by decide)
  split <;> rw [Prod.mk.injEq] <;> omega

theorem formatTimestamp_eq (hmin : kMinEpochMicros ≤ n) (hmax : n ≤ kMaxEpochMicros) :
    ∃ t : CivilTime, t.Valid ∧ t.instant = n ∧ formatTimestamp n = t.text := by
  obtain ⟨rest, hrest⟩ := Int.eq_ofNat_of_zero_le
    (Int.emod_nonneg n (by decide : (86400000000 : Int) ≠ 0))
  obtain ⟨day, hday⟩ : ∃ day, day = n / 86400000000 := ⟨_, rfl⟩
  have hrestLt : rest < 86400000000 := by omega
  have hdayMin : kMinEpochDay ≤ day := by
    unfold kMinEpochMicros at hmin
    omega
  have hdayMax : day ≤ kMaxEpochDay := by
    unfold kMaxEpochMicros at hmax
    omega
  have hwritten := written_civilFromDays hdayMin hdayMax
  refine ⟨.ofDay (civilFromDays day) rest, ⟨hwritten, ?_, ?_, ?_, ?_⟩, ?_, ?_⟩
  · simp only [CivilTime.ofDay]
    omega
  · simp only [CivilTime.ofDay]
    omega
  · simp only [CivilTime.ofDay]
    omega
  · simp only [CivilTime.ofDay]
    omega
  · simp only [CivilTime.ofDay, CivilTime.instant, civil_numbering.days_civil]
    omega
  · have hmicros : (rest : Int).tmod 1000000 = (rest % 1000000 : Nat) := rfl
    have hhour : ((rest : Int).tdiv 1000000).tdiv 3600 = (rest / 1000000 / 3600 : Nat) := rfl
    have hminute : (((rest : Int).tdiv 1000000).tdiv 60).tmod 60 =
        (rest / 1000000 / 60 % 60 : Nat) := rfl
    have hsecond : ((rest : Int).tdiv 1000000).tmod 60 = (rest / 1000000 % 60 : Nat) := rfl
    unfold formatTimestamp
    dsimp only
    rw [floor_cut, hrest, ← hday]
    dsimp only
    rw [hmicros, hhour, hminute, hsecond, formatDate_eq hdayMin hdayMax,
      pad_eq 1 (by omega), pad_eq 1 (by omega), pad_eq 1 (by omega),
      pad_eq 5 (by omega), CivilTime.text, CivilTime.clockText]
    by_cases hzero : rest % 1000000 = 0
    · simp [CivilTime.ofDay, hzero]
    · have hne : ((rest % 1000000 : Nat) : Int) ≠ 0 := by exact_mod_cast hzero
      rw [if_pos hne]
      simp [CivilTime.ofDay, hzero]

end Kds.Exec.Literals
