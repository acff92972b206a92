/-
  Kds.Exec.DecimalText

  Decimals as texts (`src/exec/type_literals.cpp`): the text a stored decimal is written as, and
  that it is the one canonical text of its value at the column's scale.
-/

import Kds.Exec.CivilTexts
import Mathlib.Data.Int.ConditionallyCompleteOrder
import Mathlib.Data.Set.Function
import Mathlib.Order.Interval.Set.Defs

namespace Kds.Exec.Literals

open Lib List

-- The source's functions

/-- `CheckDecimalPrecisionScale`, `CheckDecimalWidePrecisionScale`. -/
def checkPrecisionScale (w : DecimalWidth) (precision scale : Nat) : StatusOr Unit :=
  if precision < w.minPrecision ∨ w.digitCap < precision then
    .error (.invalidArgument (match w with
      | .narrow => "decimal precision " ++ toString precision ++ " is outside 1.." ++
          toString w.digitCap ++ "; a wider decimal needs an int128 representation, which is a " ++
          "separate type rather than a widening of this one (docs/spec/types.md TY2)"
      | .wide => "wide decimal precision " ++ toString precision ++ " is outside " ++
          toString w.minPrecision ++ ".." ++ toString w.digitCap ++ "; up to " ++
          toString DecimalWidth.narrow.digitCap ++ " digits is the 8-byte decimal(p, s), and " ++
          "beyond " ++ toString w.digitCap ++ " digits exceeds an int128"))
  else if precision < scale then
    .error (.invalidArgument ("decimal scale " ++ toString scale ++ " exceeds its precision " ++
      toString precision))
  else .ok ()

/-- `ParseDecimalLiteral`, `ParseDecimalLiteralWide`; `none` where a signed operation leaves the
    carrier. -/
def parseDecimalLiteral (w : DecimalWidth) (text : Bytes) (precision scale : Nat) :
    Option (StatusOr Int) :=
  match checkPrecisionScale w precision scale with
  | .error e => some (.error e)
  | .ok () => parseDecimalInto w text precision scale

/-- The magnitude, through the unsigned type of the carrier's width. -/
def magnitudeOf (w : DecimalWidth) (unscaled : Int) : Nat :=
  let bits := (unscaled % 2 ^ w.bits).toNat
  if unscaled < 0 then (2 ^ w.bits - 1 - bits + 1) % 2 ^ w.bits else bits

/-- `FormatDecimal`, `FormatDecimalWide`: the point goes in front of the last `scale` digits. -/
def formatDecimal (w : DecimalWidth) (unscaled : Int) (scale : Nat) : Bytes :=
  let digits := toDecimal (magnitudeOf w unscaled)
  let shown :=
    if scale = 0 then digits
    else
      let digits := if digits.length ≤ scale
        then List.replicate (scale + 1 - digits.length) 48 ++ digits else digits
      digits.take (digits.length - scale) ++ 46 :: digits.drop (digits.length - scale)
  if unscaled < 0 then 45 :: shown else shown

-- Canonical texts

namespace DecimalLiteral

/-- A literal as a column of the scale shows it: at least one whole digit, no leading zero but a
    lone one, every digit of the scale, and no negative zero. -/
structure Canonical (lit : DecimalLiteral) (scale : Nat) : Prop where
  digits : ∀ c ∈ lit.whole ++ lit.frac, isDigit c = true
  whole : lit.whole ≠ []
  zero : lit.whole.head? = some 48 → lit.whole.length = 1
  frac : lit.frac.length = scale
  sign : lit.negative = true → lit.units ≠ 0

/-- Its text: no plus, and a point only in front of digits. -/
def text (lit : DecimalLiteral) : Bytes :=
  (if lit.negative then [45] else []) ++
    (lit.whole ++ ((if lit.frac = [] then [] else [46]) ++ lit.frac))

variable {lit lit' : DecimalLiteral} {scale : Nat}

theorem Canonical.spelled (h : lit.Canonical scale) : lit.SpelledBy lit.text := by
  refine ⟨h.digits, append_ne_nil_of_left_ne_nil h.whole _, _, _, ?_, ?_, rfl⟩
  · cases lit.negative
    · exact .inr ⟨rfl, .inl rfl⟩
    · exact .inl ⟨rfl, rfl⟩
  · by_cases hfrac : lit.frac = []
    · exact .inr ⟨if_pos hfrac, hfrac⟩
    · exact .inl (if_neg hfrac)

end DecimalLiteral

theorem readOn_eq (n : Nat) (run : Bytes) : readOn n run = n * 10 ^ run.length + digitsNat run := by
  induction run using List.reverseRecOn with
  | nil => simp [readOn, digitsNat]
  | append_singleton run c ih =>
    rw [readOn_append, ih, digitsNat_concat, length_append, length_singleton,
      Nat.pow_succ, readOn_cons]
    have hnil (k : Nat) : readOn k [] = k := rfl
    rw [hnil]
    ring

theorem le_digitsNat {c : UInt8} (run : Bytes) (hc : isDigit c = true) (hne : c ≠ 48) :
    10 ^ run.length ≤ digitsNat (c :: run) := by
  have hpos : 1 ≤ digitOf c := Nat.one_le_iff_ne_zero.mpr fun h => hne ((digitOf_eq_zero hc).mp h)
  have hread : digitsNat (c :: run) = readOn (digitOf c) run := by
    change readOn 0 (c :: run) = _
    rw [readOn_cons]
    simp
  rw [hread, readOn_eq]
  calc 10 ^ run.length ≤ digitOf c * 10 ^ run.length := Nat.le_mul_of_pos_left _ hpos
    _ ≤ _ := Nat.le_add_right ..

namespace DecimalLiteral

variable {lit lit' : DecimalLiteral} {scale : Nat}

theorem Canonical.length_le (h : lit.Canonical scale) (h' : lit'.Canonical scale)
    (hunits : lit.units = lit'.units) :
    (lit.whole ++ lit.frac).length ≤ (lit'.whole ++ lit'.frac).length := by
  have hpos := length_pos_of_ne_nil h'.whole
  rw [length_append, length_append, h.frac, h'.frac]
  cases hwhole : lit.whole with
  | nil => exact absurd hwhole h.whole
  | cons c run =>
    by_cases hc : c = 48
    · have hone := h.zero (by rw [hwhole, hc]; rfl)
      rw [hwhole] at hone
      omega
    · have hdigit : isDigit c = true :=
        h.digits c (mem_append_left _ (by rw [hwhole]; exact mem_cons_self))
      have hlow := le_digitsNat (run ++ lit.frac) hdigit hc
      have hhigh := digitsNat_lt h'.digits
      have hsame : digitsNat (c :: (run ++ lit.frac)) = digitsNat (lit'.whole ++ lit'.frac) := by
        rw [units, hwhole] at hunits
        exact hunits
      have hlt := (Nat.pow_lt_pow_iff_right (by decide : 1 < 10)).mp
        (hlow.trans_lt (hsame ▸ hhigh))
      rw [length_append, length_append, h.frac, h'.frac] at hlt
      rw [length_cons]
      omega

theorem Canonical.unique (h : lit.Canonical scale) (h' : lit'.Canonical scale)
    (hvalue : lit.value = lit'.value) : lit = lit' := by
  have hten : (0 : ℚ) < 10 ^ scale := by positivity
  have hunits : lit.units = lit'.units := by
    have habs := congrArg abs hvalue
    rw [abs_value, abs_value, h.frac, h'.frac, div_left_inj' (ne_of_gt hten)] at habs
    exact_mod_cast habs
  have hsign (l : DecimalLiteral) (hl : l.Canonical scale) : l.negative = true ↔ l.value < 0 := by
    unfold value
    rw [hl.frac]
    constructor
    · intro hneg
      have hunit : (0 : ℚ) < l.units := by exact_mod_cast Nat.pos_of_ne_zero (hl.sign hneg)
      rw [hneg, if_pos rfl]
      exact div_neg_of_neg_of_pos (by linarith) hten
    · intro hlt
      by_contra hneg
      rw [if_neg hneg] at hlt
      exact absurd hlt (not_lt.mpr (by positivity))
  have hnegative : lit.negative = lit'.negative := by
    rw [Bool.eq_iff_iff, hsign lit h, hsign lit' h', hvalue]
  have hlength := Nat.le_antisymm (h.length_le h' hunits) (h'.length_le h hunits.symm)
  have hdigits : lit.whole ++ lit.frac = lit'.whole ++ lit'.frac := by
    rw [eq_fixedDigits h.digits rfl rfl, eq_fixedDigits h'.digits rfl rfl, hlength]
    exact congrArg _ hunits
  have hwhole : lit.whole.length = lit'.whole.length := by
    rw [length_append, length_append, h.frac, h'.frac] at hlength
    omega
  obtain ⟨hw, hf⟩ := append_inj hdigits hwhole
  cases lit
  cases lit'
  simp only at hnegative hw hf
  rw [hnegative, hw, hf]

end DecimalLiteral

-- What is written

section

variable {w : DecimalWidth} {n : Int} {precision scale : Nat}

theorem magnitudeOf_eq (hmin : -2 ^ (w.bits - 1) ≤ n) (hmax : n < 2 ^ (w.bits - 1)) :
    magnitudeOf w n = n.natAbs := by
  unfold magnitudeOf
  cases w <;> simp only [DecimalWidth.bits] at * <;> split <;> omega

/-- The digits that are shown: as many as the scale and one more. -/
def shownDigits (n : Int) (scale : Nat) : Bytes :=
  if (toDecimal n.natAbs).length ≤ scale
    then List.replicate (scale + 1 - (toDecimal n.natAbs).length) 48 ++ toDecimal n.natAbs
    else toDecimal n.natAbs

theorem shownDigits_spec (n : Int) (scale : Nat) :
    (∀ c ∈ shownDigits n scale, isDigit c = true) ∧ digitsNat (shownDigits n scale) = n.natAbs ∧
      scale < (shownDigits n scale).length ∧
      ((shownDigits n scale).head? = some 48 → (shownDigits n scale).length = scale + 1) := by
  unfold shownDigits
  split
  · rename_i hshort
    refine ⟨fun c hc => ?_, ?_, ?_, fun _ => ?_⟩
    · rcases mem_append.mp hc with hc | hc
      · rw [(mem_replicate.mp hc).2]
        decide
      · exact isDigit_toDecimal _ c hc
    · rw [digitsNat_zeros, digitsNat_toDecimal]
    · rw [length_append, length_replicate]
      omega
    · rw [length_append, length_replicate]
      omega
  · rename_i hlong
    refine ⟨isDigit_toDecimal _, digitsNat_toDecimal _, Nat.not_le.mp hlong, fun hhead => ?_⟩
    have hzero := head_toDecimal hhead
    rw [hzero] at hlong ⊢
    have hone : (toDecimal 0).length = 1 := by
      rw [toDecimal, if_pos (by decide)]
      rfl
    omega

/-- The literal that a stored decimal is written as. -/
def literalOfUnits (n : Int) (scale : Nat) : DecimalLiteral where
  negative := n < 0
  whole := (shownDigits n scale).take ((shownDigits n scale).length - scale)
  frac := (shownDigits n scale).drop ((shownDigits n scale).length - scale)

theorem units_literalOfUnits (n : Int) (scale : Nat) :
    (literalOfUnits n scale).units = n.natAbs := by
  rw [DecimalLiteral.units, literalOfUnits, take_append_drop]
  exact (shownDigits_spec n scale).2.1

theorem canonical_literalOfUnits (n : Int) (scale : Nat) :
    (literalOfUnits n scale).Canonical scale := by
  obtain ⟨hdigits, -, hlong, hzero⟩ := shownDigits_spec n scale
  have hlen : (literalOfUnits n scale).whole.length = (shownDigits n scale).length - scale := by
    rw [literalOfUnits, length_take]
    omega
  refine ⟨?_, ?_, ?_, ?_, ?_⟩
  · rw [literalOfUnits, take_append_drop]
    exact hdigits
  · apply ne_nil_of_length_pos
    omega
  · intro hhead
    rw [literalOfUnits, List.head?_take, if_neg (by omega)] at hhead
    have := hzero hhead
    omega
  · rw [literalOfUnits, length_drop]
    omega
  · intro hneg
    rw [units_literalOfUnits]
    have hlt : n < 0 := of_decide_eq_true hneg
    omega

theorem value_literalOfUnits (n : Int) (scale : Nat) :
    (literalOfUnits n scale).value = n / 10 ^ scale := by
  have hcanon := canonical_literalOfUnits n scale
  rw [DecimalLiteral.value, units_literalOfUnits, hcanon.frac]
  congr 1
  by_cases hneg : n < 0
  · have hsign : (literalOfUnits n scale).negative = true := decide_eq_true hneg
    rw [hsign, if_pos rfl, Nat.cast_natAbs, abs_of_neg hneg]
    push_cast
    ring
  · have hsign : ¬ (literalOfUnits n scale).negative = true := by simpa [literalOfUnits] using hneg
    rw [if_neg hsign, Nat.cast_natAbs, abs_of_nonneg (not_lt.mp hneg)]
    ring

theorem formatDecimal_eq (hmin : -2 ^ (w.bits - 1) ≤ n) (hmax : n < 2 ^ (w.bits - 1)) :
    formatDecimal w n scale = (literalOfUnits n scale).text := by
  have hlen := length_pos_of_ne_nil (toDecimal_ne_nil n.natAbs)
  have hshown : (if scale = 0 then toDecimal n.natAbs
      else (shownDigits n scale).take ((shownDigits n scale).length - scale) ++
        46 :: (shownDigits n scale).drop ((shownDigits n scale).length - scale)) =
      (literalOfUnits n scale).whole ++ ((if (literalOfUnits n scale).frac = [] then []
        else [46]) ++ (literalOfUnits n scale).frac) := by
    have hfrac := (canonical_literalOfUnits n scale).frac
    by_cases hscale : scale = 0
    · have hnil : (literalOfUnits n scale).frac = [] := eq_nil_of_length_eq_zero (by omega)
      have hwhole : (literalOfUnits n scale).whole = toDecimal n.natAbs := by
        rw [literalOfUnits, shownDigits, if_neg (by omega)]
        exact take_of_length_le (by omega)
      rw [if_pos hscale, hnil, if_pos rfl, hwhole, append_nil, append_nil]
    · have hne : (literalOfUnits n scale).frac ≠ [] := by
        intro hnil
        rw [hnil] at hfrac
        exact hscale hfrac.symm
      rw [if_neg hscale, if_neg hne]
      rfl
  unfold formatDecimal DecimalLiteral.text
  rw [magnitudeOf_eq hmin hmax, ← hshown]
  by_cases hneg : n < 0
  · have hsign : (literalOfUnits n scale).negative = true := decide_eq_true hneg
    rw [if_pos hneg, if_pos hsign]
    rfl
  · have hsign : ¬ (literalOfUnits n scale).negative = true := by simpa [literalOfUnits] using hneg
    rw [if_neg hneg, if_neg hsign]
    rfl

theorem checkPrecisionScale_eq_ok :
    checkPrecisionScale w precision scale = .ok () ↔ w.Admits precision scale := by
  unfold checkPrecisionScale DecimalWidth.Admits
  by_cases hprecision : precision < w.minPrecision ∨ w.digitCap < precision
  · rw [if_pos hprecision]
    exact ⟨nofun, fun h => by omega⟩
  · rw [if_neg hprecision]
    by_cases hscale : precision < scale
    · rw [if_pos hscale]
      exact ⟨nofun, fun h => by omega⟩
    · rw [if_neg hscale]
      exact ⟨fun _ => by omega, fun _ => rfl⟩

theorem carrier_of_abs_lt (hcap : precision ≤ w.digitCap) (hn : |n| < 10 ^ precision) :
    n.natAbs < 10 ^ precision ∧ n.natAbs < 2 ^ (w.bits - 1) ∧
      -2 ^ (w.bits - 1) ≤ n ∧ n < 2 ^ (w.bits - 1) := by
  have hunits : n.natAbs < 10 ^ precision := by
    rw [Int.abs_eq_natAbs] at hn
    exact_mod_cast hn
  have hpow : 10 ^ precision ≤ 10 ^ w.digitCap := Nat.pow_le_pow_right (by decide) hcap
  have hfits : n.natAbs < 2 ^ (w.bits - 1) := hunits.trans_le (hpow.trans w.cap_fits)
  have hcast : ((n.natAbs : Nat) : Int) < 2 ^ (w.bits - 1) := by exact_mod_cast hfits
  exact ⟨hunits, hfits, by omega, by omega⟩

theorem parse_formatDecimal (h : w.Admits precision scale) (hn : |n| < 10 ^ precision) :
    parseDecimalLiteral w (formatDecimal w n scale) precision scale = some (.ok n) := by
  obtain ⟨hunits, hfits, hmin, hmax⟩ := carrier_of_abs_lt h.2.1 hn
  have hcanon := canonical_literalOfUnits n scale
  have hspelled := hcanon.spelled
  rw [← formatDecimal_eq hmin hmax] at hspelled
  have hwalk : (literalOfUnits n scale).Walkable w scale :=
    ⟨Nat.le_of_eq hcanon.frac, by
      rw [units_literalOfUnits]
      exact hunits.trans_le (Nat.pow_le_pow_right (by decide) h.2.1)⟩
  rw [parseDecimalLiteral, checkPrecisionScale_eq_ok.mpr h]
  dsimp only
  rcases parseDecimalInto_cases w (formatDecimal w n scale) precision scale with
    ⟨-, hnone⟩ | ⟨lit, hlit, -, hparse⟩
  · exact absurd hwalk (hnone _ hspelled)
  · obtain rfl : lit = literalOfUnits n scale := by
      rw [(spelledBy_iff.mp hlit).1, ← (spelledBy_iff.mp hspelled).1]
    have hscaled : (literalOfUnits n scale).scaled scale = n.natAbs := by
      rw [DecimalLiteral.scaled, units_literalOfUnits, hcanon.frac, Nat.sub_self, Nat.pow_zero,
        Nat.mul_one]
    obtain ⟨r, hr, hspec⟩ := finish_spec (formatDecimal w n scale) precision
      (literalOfUnits n scale).negative (significant (literalOfUnits n scale).units +
        (scale - (literalOfUnits n scale).frac.length)) hfits
    rw [hparse, hscaled, if_pos hfits, hr, Option.some.injEq, hspec]
    constructor
    · rw [units_literalOfUnits, hcanon.frac, Nat.sub_self, Nat.add_zero, significant_le]
      exact hunits
    · by_cases hneg : n < 0
      · have hsign : (literalOfUnits n scale).negative = true := decide_eq_true hneg
        rw [if_pos hsign]
        omega
      · have hsign : ¬ (literalOfUnits n scale).negative = true := by
          simpa [literalOfUnits] using hneg
        rw [if_neg hsign]
        omega

/-- What it reads fits the carrier. -/
theorem parseDecimalLiteral_range {text : Bytes}
    (h : parseDecimalLiteral w text precision scale = some (.ok n)) :
    -2 ^ (w.bits - 1) ≤ n ∧ n < 2 ^ (w.bits - 1) := by
  unfold parseDecimalLiteral at h
  split at h
  · cases h
  · rename_i hcheck
    obtain ⟨-, -, -, hn⟩ := parseDecimalInto_exact h
    exact (carrier_of_abs_lt (checkPrecisionScale_eq_ok.mp hcheck).2.1 hn).2.2

theorem format_parseDecimal {text : Bytes}
    (h : parseDecimalLiteral w text precision scale = some (.ok n)) :
    ∃ lit canonical : DecimalLiteral, lit.SpelledBy text ∧ canonical.Canonical scale ∧
      canonical.value = lit.value ∧ formatDecimal w n scale = canonical.text := by
  obtain ⟨hmin, hmax⟩ := parseDecimalLiteral_range h
  unfold parseDecimalLiteral at h
  split at h
  · cases h
  · obtain ⟨lit, hlit, hvalue, hn⟩ := parseDecimalInto_exact h
    refine ⟨lit, literalOfUnits n scale, hlit, canonical_literalOfUnits n scale, ?_,
      formatDecimal_eq hmin hmax⟩
    rw [value_literalOfUnits, hvalue]

end

-- The text forms

/-- The dates from 1900-01-01 to 2999-12-31. -/
def supportedDates : Set CivilDate :=
  {date | date.Valid ∧ ¬ date.Before ⟨1900, 1, 1⟩ ∧ ¬ (⟨2999, 12, 31⟩ : CivilDate).Before date}

/-- The supported dates and the day numbers are one to one, day after day. -/
structure CivilBijection : Prop where
  bijOn : Set.BijOn daysFromCivil supportedDates (Set.Icc kMinEpochDay kMaxEpochDay)
  inverse : Set.InvOn civilFromDays daysFromCivil supportedDates (Set.Icc kMinEpochDay kMaxEpochDay)
  epoch : daysFromCivil ⟨1970, 1, 1⟩ = 0
  next : ∀ date ∈ supportedDates, daysFromCivil date.next = daysFromCivil date + 1
  order : ∀ date ∈ supportedDates, ∀ date' ∈ supportedDates,
    (date.Before date' ↔ daysFromCivil date < daysFromCivil date')

/-- A date's text and its day. -/
structure DateTexts : Prop where
  parse_format : ∀ n, kMinEpochDay ≤ n → n ≤ kMaxEpochDay → parseDateLiteral (formatDate n) = .ok n
  format_parse : ∀ text n, parseDateLiteral text = .ok n →
    ∃ date ∈ supportedDates, text = dateText date ∧ n = daysFromCivil date ∧
      formatDate n = dateText date
  order : ∀ date date' n n', Written date → Written date' →
    parseDateLiteral (dateText date) = .ok n → parseDateLiteral (dateText date') = .ok n' →
      (date.Before date' ↔ n < n')

/-- A timestamp's texts and its microseconds. -/
structure TimestampTexts : Prop where
  parse_format : ∀ n, kMinEpochMicros ≤ n → n ≤ kMaxEpochMicros →
    parseTimestampLiteral (formatTimestamp n) = .ok n
  format_parse : ∀ text n, parseTimestampLiteral text = .ok n →
    ∃ t : CivilTime, t.Valid ∧ t.SpelledBy text ∧ n = t.instant ∧ formatTimestamp n = t.text
  order : ∀ (t t' : CivilTime) text text' n n', t.Valid → t'.Valid → t.SpelledBy text →
    t'.SpelledBy text' → parseTimestampLiteral text = .ok n → parseTimestampLiteral text' = .ok n' →
      (t.Before t' ↔ n < n')

/-- A decimal's texts and its units. -/
structure DecimalTexts (w : DecimalWidth) : Prop where
  parse_format : ∀ precision scale n, w.Admits precision scale → |n| < 10 ^ precision →
    parseDecimalLiteral w (formatDecimal w n scale) precision scale = some (.ok n)
  format_parse : ∀ precision scale text n,
    parseDecimalLiteral w text precision scale = some (.ok n) →
      ∃ lit canonical : DecimalLiteral, lit.SpelledBy text ∧ canonical.Canonical scale ∧
        canonical.value = lit.value ∧ formatDecimal w n scale = canonical.text
  unique : ∀ (lit lit' : DecimalLiteral) scale, lit.Canonical scale → lit'.Canonical scale →
    lit.value = lit'.value → lit = lit'

theorem mem_supportedDates {date : CivilDate} : date ∈ supportedDates ↔ date.Valid ∧
    kMinEpochDay ≤ daysFromCivil date ∧ daysFromCivil date ≤ kMaxEpochDay :=
  and_congr_right supported_iff

theorem civil_bijection : CivilBijection := by
  have hmaps : Set.MapsTo daysFromCivil supportedDates (Set.Icc kMinEpochDay kMaxEpochDay) :=
    fun date hdate => (mem_supportedDates.mp hdate).2
  have hback : Set.MapsTo civilFromDays (Set.Icc kMinEpochDay kMaxEpochDay) supportedDates := by
    intro n hn
    have hdays := civil_numbering.days_civil n
    exact mem_supportedDates.mpr ⟨civil_numbering.valid n, by rwa [hdays]⟩
  have hinverse : Set.InvOn civilFromDays daysFromCivil supportedDates
      (Set.Icc kMinEpochDay kMaxEpochDay) :=
    ⟨fun date hdate => civil_numbering.civil_days date hdate.1,
      fun n _ => civil_numbering.days_civil n⟩
  exact {
    bijOn := hinverse.bijOn hmaps hback
    inverse := hinverse
    epoch := by decide
    next := fun date hdate => civil_numbering.next date hdate.1
    order := fun date hdate date' hdate' => civil_numbering.before_iff hdate.1 hdate'.1 }

theorem date_texts : DateTexts where
  parse_format n hmin hmax := by
    have hwritten := written_civilFromDays hmin hmax
    refine parseDateLiteral_eq_ok.mpr ⟨_, hwritten, formatDate_eq hmin hmax, ?_, hmin, hmax⟩
    exact (civil_numbering.days_civil n).symm
  format_parse text n h := by
    obtain ⟨date, hwritten, htext, rfl, hmin, hmax⟩ := parseDateLiteral_eq_ok.mp h
    refine ⟨date, mem_supportedDates.mpr ⟨hwritten.valid, hmin, hmax⟩, htext, rfl, ?_⟩
    rw [formatDate_eq hmin hmax, civil_numbering.civil_days date hwritten.valid]
  order date date' n n' hdate hdate' h h' := by
    rw [parseDateLiteral_dateText hdate] at h
    rw [parseDateLiteral_dateText hdate'] at h'
    split at h
    · cases h
    · split at h'
      · cases h'
      · cases h
        cases h'
        exact civil_numbering.before_iff hdate.valid hdate'.valid

theorem timestamp_texts : TimestampTexts where
  parse_format n hmin hmax := by
    obtain ⟨t, hvalid, rfl, hformat⟩ := formatTimestamp_eq hmin hmax
    rw [hformat]
    exact parseTimestampLiteral_eq_ok.mpr ⟨t, hvalid, hvalid.spelled, rfl, hmin, hmax⟩
  format_parse text n h := by
    obtain ⟨t, hvalid, hspelled, rfl, hmin, hmax⟩ := parseTimestampLiteral_eq_ok.mp h
    obtain ⟨t', hvalid', hinstant, hformat⟩ := formatTimestamp_eq hmin hmax
    obtain rfl : t' = t := CivilTime.eq_of_instant hvalid' hvalid hinstant
    exact ⟨t', hvalid, hspelled, rfl, hformat⟩
  order t t' text text' n n' ht ht' hspelled hspelled' h h' := by
    rw [parseTimestampLiteral_spelled ht hspelled] at h
    rw [parseTimestampLiteral_spelled ht' hspelled'] at h'
    split at h
    · cases h
    · split at h'
      · cases h'
      · cases h
        cases h'
        exact CivilTime.before_iff ht ht'

theorem decimal_texts (w : DecimalWidth) : DecimalTexts w where
  parse_format _ _ _ hadmits hn := parse_formatDecimal hadmits hn
  format_parse _ _ _ _ h := format_parseDecimal h
  unique _ _ _ h h' hvalue := h.unique h' hvalue

/-- **Dates, timestamps and decimals**: their texts and their stored integers are inverse. -/
theorem type_texts_inverse :
    CivilBijection ∧ DateTexts ∧ TimestampTexts ∧ ∀ w, DecimalTexts w :=
  ⟨civil_bijection, date_texts, timestamp_texts, decimal_texts⟩

end Kds.Exec.Literals
