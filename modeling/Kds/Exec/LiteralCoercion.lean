/-
  Kds.Exec.LiteralCoercion

  Storing a literal and comparing with it.  What `EncodeOneValue` stores of a literal reads back as
  a value, and `CoerceLiteralToColumn` makes the literal a value to compare with: the two are equal,
  but for a day or an instant whose digits the encoder does not look at, and a `char` with a zero
  byte in it (`treatedAlike_iff`).
-/

import Kds.Exec.DecimalText
import Kds.Exec.IndexKey
import Mathlib.Data.List.TakeWhile

namespace Kds.Exec.Codec

open Lib

-- What is promised

section

variable (lits : TypeLiterals) (inlineCellWidth : Nat) (col : SysColumnRow)

/-- A value that a row of the column holds: what the cell of an accepted value reads back as. -/
def StoredIn (w : Cell) : Prop :=
  ∃ u heap cell heap', AstValue.Fits u ∧
    encodeOneValue lits inlineCellWidth col u heap = .ok (cell, heap') ∧
    decodeStored heap' col (some cell) = .ok w

/-- `col = v`, of a stored value: the literal is coerced once, and compared. -/
def whereEquals (v : AstValue) (w : Cell) : StatusOr Bool :=
  (coerceLiteralToColumn lits col v).map fun c => compareValues col.typeVal w.val c .eq

/-- The encoder refuses the literal, or the coercion does. -/
def Refuses (v : AstValue) : Prop :=
  (∀ heap out, encodeOneValue lits inlineCellWidth col v heap ≠ .ok out) ∨
    ∀ c, coerceLiteralToColumn lits col v ≠ .ok c

/-- An integer literal and a stored decimal that its own digits spell. -/
def SpellsDecimal (v : AstValue) (w : Cell) : Prop :=
  let digits := if v.rawIntText = [] then decimalText v.intVal else v.rawIntText
  v.type = .int ∧
    ((col.kind = some .decimal ∧ ∃ u,
        lits.parseDecimal digits (decimalPrecisionOf col.len) (decimalScaleOf col.len) = .ok u ∧
        w.val.intVal = u) ∨
      (col.kind = some .decimalWide ∧ ∃ u,
        lits.parseDecimalWide digits (decimalPrecisionOf col.len) (decimalScaleOf col.len) = .ok u ∧
        int128FromHalves w.val.decHi w.val.intVal = u))

/-- The literal is stored and compared alike: what is stored of it is found by it; the coercion
    changes a coerced value no more; and where it is refused it finds nothing, but the decimal that
    it spells. -/
structure TreatedAlike (v : AstValue) : Prop where
  found : ∀ heap cell heap', encodeOneValue lits inlineCellWidth col v heap = .ok (cell, heap') →
    ∃ w, (∀ later, decodeStored (heap' ++ later) col (some cell) = .ok w) ∧
      whereEquals lits col v w = .ok true
  again : ∀ c, coerceLiteralToColumn lits col v = .ok c → coerceLiteralToColumn lits col c = .ok c
  refused : Refuses lits inlineCellWidth col v → ∀ w, StoredIn lits inlineCellWidth col w →
    whereEquals lits col v w = .ok true → SpellsDecimal lits col v w

end

/-- An integer given for a day or an instant, in range, whose digits are not the number's own:
    it wrapped in the lexer, or has leading zeros. -/
def DayMisspelt (col : SysColumnRow) (v : AstValue) : Prop :=
  v.type = .int ∧ intLiteralWrapped v = true ∧
    (col.kind = some .date ∧ kMinEpochDay ≤ v.intVal ∧ v.intVal ≤ kMaxEpochDay ∨
      col.kind = some .timestamp ∧ kMinEpochMicros ≤ v.intVal ∧ v.intVal ≤ kMaxEpochMicros)

/-- A text with a zero byte, for a `char` that has room for it. -/
def HoldsNul (col : SysColumnRow) (v : AstValue) : Prop :=
  col.kind = some .char ∧ v.type = .str ∧ v.strVal.length ≤ col.len ∧ 0 ∈ v.strVal

-- Comparison under a column's type

section Compare

variable {kind : ColumnKind} {typeVal : TypeVal} {a b : AstValue} {op : CompareOp}

theorem compareValues_eq_kindCompare (hkind : kindOf typeVal = some kind)
    (ha : a.type = kindType kind) (hb : b.type = kindType kind)
    (hscale : kind = .decimal ∨ kind = .decimalWide → a.scale = b.scale)
    (hop : op ≠ .isNull ∧ op ≠ .isNotNull) :
    compareValues typeVal a b op = kindCompare kind a b op := by
  have huint := kindOf_uint64 hkind
  rw [compareValues, if_neg hop.1, if_neg hop.2, ha, hb]
  by_cases hu : kind = .uint64
  · rw [if_pos (huint.mpr hu)]
    subst hu
    rfl
  · rw [if_neg (mt huint.mp hu)]
    cases kind <;> simp_all [kindType, kindCompare]

theorem compareValues_int (htype : typeVal ≠ typeValUint64) (ha : a.type = .int)
    (h : compareValues typeVal a b .eq = true) : b.type = .int ∧ a.intVal = b.intVal := by
  rw [compareValues, if_neg (by decide), if_neg (by decide), if_neg htype] at h
  rcases hb : b.type <;> simp_all [applyCompare]

theorem compareValues_str (htype : typeVal ≠ typeValUint64) (ha : a.type = .str)
    (h : compareValues typeVal a b .eq = true) : b.type = .str ∧ a.strVal = b.strVal := by
  rw [compareValues, if_neg (by decide), if_neg (by decide), if_neg htype] at h
  rcases hb : b.type <;> simp_all [applyCompare]

theorem compareValues_of_sameStored (hkind : kindOf typeVal = some kind)
    (h : SameStored kind a b) (huint : kind = .uint64 → ∃ n, valueAsUint64 a = some n)
    (hnul : kind = .char → a.strVal.takeWhile (· ≠ 0) = a.strVal) :
    compareValues typeVal b a .eq = true := by
  have htypes : a.type = kindType kind ∧ b.type = kindType kind := by
    cases kind <;> exact ⟨h.1, h.2.1⟩
  rw [compareValues_eq_kindCompare hkind htypes.2 htypes.1 (fun hdec => ?_) (by decide)]
  · cases kind with
    | uint64 =>
      obtain ⟨n, hn⟩ := huint rfl
      have hread : valueAsUint64 b = some n := h.2.2.trans hn
      simp [kindCompare, hn, hread, applyCompare]
    | char => exact decide_eq_true (h.2.2.trans (hnul rfl))
    | varchar => simp [kindCompare, applyCompare, h.2.2]
    | decimal => simp [kindCompare, applyCompare, h.2.2.2]
    | decimalWide => simp [kindCompare, applyCompare, h.2.2.2.1, h.2.2.2.2]
    | _ => simp [kindCompare, applyCompare, h.2.2]
  · rcases hdec with rfl | rfl
    · exact h.2.2.1
    · exact h.2.2.1

end Compare

-- The coercion

section

variable {lits : TypeLiterals} {inlineCellWidth : Nat} {col : SysColumnRow} {kind : ColumnKind}
  {v c : AstValue} {heap heap' : VarHeap} {cell : StoredCell} {w : Cell}

theorem not_wrapped_of_nil (h : v.rawIntText = []) : intLiteralWrapped v = false := by
  simp [intLiteralWrapped, h]

theorem coerceLiteralToColumn_eq (hnull : v.type ≠ .null) (hparam : v.type ≠ .param)
    (hkind : col.kind = some kind) :
    coerceLiteralToColumn lits col v = coerceByKind lits col v kind := by
  rw [coerceLiteralToColumn, if_neg (by simp [hnull, hparam]), hkind]

theorem coerceByKind_again (h : coerceByKind lits col v kind = .ok c) :
    coerceByKind lits col c kind = .ok c := by
  cases kind with
  | date =>
    rw [coerceByKind] at h
    split at h
    · next htype =>
      split_ifs at h with hrange
      cases h
      rw [coerceByKind, htype]
      exact if_neg hrange
    · obtain ⟨days, hparsed, rfl⟩ := map_eq_ok.mp h
      obtain ⟨day, -, hday⟩ := bind_eq_ok.mp hparsed
      cases hday
      have hdays := day.2
      rw [coerceByKind]
      refine if_neg ?_
      rw [not_wrapped_of_nil rfl]
      simp only [Bool.false_eq_true, false_or]
      omega
    · cases h
  | timestamp =>
    rw [coerceByKind] at h
    split at h
    · next htype =>
      split_ifs at h with hrange
      cases h
      rw [coerceByKind, htype]
      exact if_neg hrange
    · obtain ⟨micros, hparsed, rfl⟩ := map_eq_ok.mp h
      obtain ⟨instant, -, hinstant⟩ := bind_eq_ok.mp hparsed
      cases hinstant
      have hmicros := instant.2
      rw [coerceByKind]
      refine if_neg ?_
      rw [not_wrapped_of_nil rfl]
      simp only [Bool.false_eq_true, false_or]
      omega
    · cases h
  | decimal =>
    have hparsed : ∀ u : Int, coerceByKind lits col { v with
        type := .decimal, intVal := u, scale := decimalScaleOf col.len, strVal := []
        rawIntText := [] } .decimal = .ok { v with
        type := .decimal, intVal := u, scale := decimalScaleOf col.len, strVal := []
        rawIntText := [] } := by
      intro u
      rw [coerceByKind]
      exact if_neg (not_not_intro rfl)
    rw [coerceByKind] at h
    dsimp only at h
    split at h
    · next htype =>
      split_ifs at h with hscale
      cases h
      rw [coerceByKind, htype]
      exact if_neg hscale
    · split_ifs at h
      obtain ⟨u, -, rfl⟩ := map_eq_ok.mp h
      exact hparsed u
    · obtain ⟨u, -, rfl⟩ := map_eq_ok.mp h
      exact hparsed u
    · cases h
  | decimalWide =>
    have hparsed : ∀ lo hi : Int, coerceByKind lits col { v with
        type := .decimalWide, intVal := lo, decHi := hi, scale := decimalScaleOf col.len
        strVal := [], rawIntText := [] } .decimalWide = .ok { v with
        type := .decimalWide, intVal := lo, decHi := hi, scale := decimalScaleOf col.len
        strVal := [], rawIntText := [] } := by
      intro lo hi
      rw [coerceByKind]
      exact if_neg (not_not_intro rfl)
    rw [coerceByKind] at h
    dsimp only at h
    split at h
    · next htype =>
      split_ifs at h with hscale
      cases h
      rw [coerceByKind, htype]
      exact if_neg hscale
    · obtain ⟨u, -, rfl⟩ := map_eq_ok.mp h
      exact hparsed _ _
    · obtain ⟨u, -, rfl⟩ := map_eq_ok.mp h
      exact hparsed _ _
    · cases h
  | _ =>
    cases h
    rfl

theorem coerceLiteralToColumn_again (h : coerceLiteralToColumn lits col v = .ok c) :
    coerceLiteralToColumn lits col c = .ok c := by
  rw [coerceLiteralToColumn] at h
  by_cases hnone : v.type = .param ∨ v.type = .null
  · rw [if_pos hnone] at h
    cases h
    rw [coerceLiteralToColumn, if_pos hnone]
  · rw [if_neg hnone] at h
    cases hkind : col.kind with
    | none =>
      rw [hkind] at h
      cases h
      rw [coerceLiteralToColumn, if_neg hnone, hkind]
    | some kind =>
      rw [hkind] at h
      rw [coerceLiteralToColumn, hkind]
      by_cases hnone' : c.type = .param ∨ c.type = .null
      · rw [if_pos hnone']
      · rw [if_neg hnone']
        exact coerceByKind_again h

theorem encodeOneValue_eq (hnull : v.type ≠ .null) (hparam : v.type ≠ .param)
    (hkind : col.kind = some kind) (h : Encodes lits inlineCellWidth col v heap kind cell heap') :
    encodeOneValue lits inlineCellWidth col v heap = .ok (cell, heap') := by
  rw [encodeOneValue, if_neg hnull, if_neg hparam, hkind]
  exact encodeByKind_eq_ok.mpr h

theorem exists_coerce (hkind : col.kind = some kind) (hday : ¬ DayMisspelt col v)
    (h : Encodes lits inlineCellWidth col v heap kind cell heap') :
    ∃ c, coerceByKind lits col v kind = .ok c := by
  cases h with
  | dateText htype hparsed =>
    rw [coerceByKind, htype, hparsed]
    exact ⟨_, rfl⟩
  | date htype hrange =>
    have hplain : ¬ intLiteralWrapped v = true := fun hwrapped =>
      hday ⟨htype, hwrapped, .inl ⟨hkind, hrange⟩⟩
    rw [coerceByKind, htype]
    refine ⟨v, if_neg ?_⟩
    rw [not_or, not_or]
    exact ⟨hplain, by omega, by omega⟩
  | timestampText htype hparsed =>
    rw [coerceByKind, htype, hparsed]
    exact ⟨_, rfl⟩
  | timestamp htype hrange =>
    have hplain : ¬ intLiteralWrapped v = true := fun hwrapped =>
      hday ⟨htype, hwrapped, .inr ⟨hkind, hrange⟩⟩
    rw [coerceByKind, htype]
    refine ⟨v, if_neg ?_⟩
    rw [not_or, not_or]
    exact ⟨hplain, by omega, by omega⟩
  | decimalText htype hparsed | decimalWideText htype hparsed =>
    rw [coerceByKind, htype]
    dsimp only
    rw [hparsed]
    exact ⟨_, rfl⟩
  | decimal htype hscale | decimalWide htype hscale =>
    rw [coerceByKind, htype]
    exact ⟨v, if_neg (not_not_intro hscale)⟩
  | _ => exact ⟨v, rfl⟩

-- Stored and found

/-- **A literal that was stored is found**, but for a misspelt day and a text with a zero byte. -/
theorem found_of_encode (hfits : AstValue.Fits v) (hday : ¬ DayMisspelt col v)
    (hnul : ¬ HoldsNul col v)
    (h : encodeOneValue lits inlineCellWidth col v heap = .ok (cell, heap')) :
    ∃ w, (∀ later, decodeStored (heap' ++ later) col (some cell) = .ok w) ∧
      whereEquals lits col v w = .ok true := by
  obtain ⟨hnull, hparam, kind, hkind, hcell⟩ := encodeOneValue_eq_ok h
  obtain ⟨-, -, kind', hkind', added, w, -, hdecode, hsame⟩ := readsBack_of_encode hfits h
  cases hkind.symm.trans hkind'
  obtain ⟨c, hc⟩ := exists_coerce hkind hday hcell
  refine ⟨w, hdecode, ?_⟩
  rw [whereEquals, coerceLiteralToColumn_eq hnull hparam hkind, hc]
  refine congrArg Except.ok (compareValues_of_sameStored hkind (hsame c hc) ?_ ?_)
  · rintro rfl
    cases hc
    cases hcell with | uint64 _ hn => exact ⟨_, hn⟩
  · rintro rfl
    cases hc
    cases hcell with | char htype hlong =>
    refine List.takeWhile_eq_self_iff.mpr fun b hb => ?_
    refine decide_eq_true fun hzero => hnul ⟨hkind, htype, Nat.not_lt.mp hlong, ?_⟩
    rw [← hzero]
    exact hb

theorem StoredIn.source (h : StoredIn lits inlineCellWidth col w) (hkind : col.kind = some kind) :
    ∃ u heap cell heap',
      Encodes lits inlineCellWidth col u heap kind cell heap' ∧
        ∀ c, coerceByKind lits col u kind = .ok c → SameStored kind c w.val := by
  obtain ⟨u, heap, cell, heap', hfits, hencode, hdecode⟩ := h
  obtain ⟨-, -, kind', hkind', hcell⟩ := encodeOneValue_eq_ok hencode
  cases hkind.symm.trans hkind'
  obtain ⟨-, -, kind'', hkind'', added, d, rfl, hread, hsame⟩ := readsBack_of_encode hfits hencode
  cases hkind.symm.trans hkind''
  have hnow := hread []
  rw [List.append_nil, hdecode] at hnow
  cases hnow
  exact ⟨u, heap, cell, _, hcell, hsame⟩

theorem int128FromHalves_of (u : Int) : int128FromHalves (int128High u) (int128Low u) = u := by
  unfold int128FromHalves int128High int128Low
  split_ifs <;> omega

-- A literal that finds a value is one that its column stores

section Finds

variable {u : AstValue}

theorem encodes_of_equal_int (huint : col.typeVal ≠ typeValUint64)
    (hcell : Encodes lits inlineCellWidth col u heap kind cell heap')
    (hkind : (∃ width, kind = .signed width) ∨ kind = .bool)
    (hsame : w.val.type = .int ∧ w.val.intVal = u.intVal)
    (h : compareValues col.typeVal w.val v .eq = true) :
    ∃ cell heap', Encodes lits inlineCellWidth col v [] kind cell heap' := by
  obtain ⟨htype, heq⟩ := compareValues_int huint hsame.1 h
  have hval : u.intVal = v.intVal := hsame.2.symm.trans heq
  rcases hkind with ⟨width, rfl⟩ | rfl
  · cases hcell with | signed _ hfits => exact ⟨_, _, .signed htype (hval ▸ hfits)⟩
  · cases hcell with | bool _ hbit => exact ⟨_, _, .bool htype (hval ▸ hbit)⟩

theorem encodes_of_equal_uint64 (huint : col.typeVal = typeValUint64)
    (h : compareValues col.typeVal w.val v .eq = true) :
    ∃ cell heap', Encodes lits inlineCellWidth col v [] .uint64 cell heap' := by
  rw [compareValues, if_neg (by decide), if_neg (by decide), if_pos huint] at h
  split_ifs at h
  split at h
  · next a n ha hn =>
    refine ⟨_, _, .uint64 ?_ hn⟩
    by_contra hne
    rw [valueAsUint64, if_pos hne] at hn
    cases hn
  · cases h

theorem encodes_of_equal_text (huint : col.typeVal ≠ typeValUint64)
    (hcell : Encodes lits inlineCellWidth col u heap kind cell heap')
    (hkind : kind = .char ∧ w.val.strVal = u.strVal.takeWhile (· ≠ 0) ∨
      kind = .varchar ∧ w.val.strVal = u.strVal)
    (hstr : w.val.type = .str) (h : compareValues col.typeVal w.val v .eq = true) :
    ∃ cell heap', Encodes lits inlineCellWidth col v [] kind cell heap' := by
  obtain ⟨htype, heq⟩ := compareValues_str huint hstr h
  rcases hkind with ⟨rfl, hval⟩ | ⟨rfl, hval⟩
  · cases hcell with | char _ hroom =>
    have hshort : v.strVal.length ≤ u.strVal.length := by
      rw [← heq, hval]
      exact (List.takeWhile_prefix _).length_le
    exact ⟨_, _, .char htype (by omega)⟩
  · have hsame : u.strVal = v.strVal := hval.symm.trans heq
    cases hcell with
    | inlined _ hroom => exact ⟨_, _, .inlined htype (hsame ▸ hroom)⟩
    | spilled _ hlong hroom => exact ⟨_, _, .spilled htype (hsame ▸ hlong) (hsame ▸ hroom)⟩

theorem encodes_of_coerce_date (hcoerce : coerceByKind lits col v .date = .ok c) :
    ∃ cell heap', Encodes lits inlineCellWidth col v [] .date cell heap' := by
  rw [coerceByKind] at hcoerce
  split at hcoerce
  · next htype =>
    split_ifs at hcoerce with hrange
    rw [not_or, not_or] at hrange
    exact ⟨_, _, .date htype (by omega)⟩
  · next htype =>
    obtain ⟨days, hparsed, -⟩ := map_eq_ok.mp hcoerce
    obtain ⟨day, hday, -⟩ := bind_eq_ok.mp hparsed
    exact ⟨_, _, .dateText htype hday⟩
  · cases hcoerce

theorem encodes_of_coerce_timestamp (hcoerce : coerceByKind lits col v .timestamp = .ok c) :
    ∃ cell heap', Encodes lits inlineCellWidth col v [] .timestamp cell heap' := by
  rw [coerceByKind] at hcoerce
  split at hcoerce
  · next htype =>
    split_ifs at hcoerce with hrange
    rw [not_or, not_or] at hrange
    exact ⟨_, _, .timestamp htype (by omega)⟩
  · next htype =>
    obtain ⟨micros, hparsed, -⟩ := map_eq_ok.mp hcoerce
    obtain ⟨instant, hinstant, -⟩ := bind_eq_ok.mp hparsed
    exact ⟨_, _, .timestampText htype hinstant⟩
  · cases hcoerce

/-- An integer is coerced to a decimal by its digits, though a decimal column stores none. -/
theorem encodes_or_spells_decimal (hkind : col.kind = some .decimal)
    (hcoerce : coerceByKind lits col v .decimal = .ok c)
    (h : compareValues col.typeVal w.val c .eq = true) :
    (∃ cell heap', Encodes lits inlineCellWidth col v [] .decimal cell heap') ∨
      SpellsDecimal lits col v w := by
  have huint : col.typeVal ≠ typeValUint64 := (kindOf_uint64 hkind).not.mpr (by decide)
  rw [coerceByKind] at hcoerce
  dsimp only at hcoerce
  split at hcoerce
  · next htype =>
    split_ifs at hcoerce with hscale
    exact .inl ⟨_, _, .decimal htype (not_not.mp hscale)⟩
  · next htype =>
    split_ifs at hcoerce with hwrapped
    obtain ⟨unscaled, hparsed, rfl⟩ := map_eq_ok.mp hcoerce
    obtain ⟨u', hu', hval⟩ := bind_eq_ok.mp hparsed
    cases hval
    refine .inr ⟨htype, .inl ⟨hkind, u', ?_, ?_⟩⟩
    · by_cases hraw : v.rawIntText = []
      · rw [if_pos hraw]
        exact hu'
      · rw [if_neg hraw]
        have hplain : v.rawIntText = decimalText v.intVal := by
          by_contra hne
          exact hwrapped (decide_eq_true ⟨htype, hraw, hne⟩)
        rw [hplain]
        exact hu'
    · rw [compareValues, if_neg (by decide), if_neg (by decide), if_neg huint] at h
      simp only [applyCompare, reduceCtorEq, or_false, or_true, if_true] at h
      split_ifs at h
      exact of_decide_eq_true h
  · next htype =>
    obtain ⟨unscaled, hparsed, -⟩ := map_eq_ok.mp hcoerce
    obtain ⟨u', hu', -⟩ := bind_eq_ok.mp hparsed
    exact .inl ⟨_, _, .decimalText htype hu'⟩
  · cases hcoerce

theorem encodes_or_spells_decimalWide (hkind : col.kind = some .decimalWide)
    (hcoerce : coerceByKind lits col v .decimalWide = .ok c)
    (h : compareValues col.typeVal w.val c .eq = true) :
    (∃ cell heap', Encodes lits inlineCellWidth col v [] .decimalWide cell heap') ∨
      SpellsDecimal lits col v w := by
  have huint : col.typeVal ≠ typeValUint64 := (kindOf_uint64 hkind).not.mpr (by decide)
  rw [coerceByKind] at hcoerce
  dsimp only at hcoerce
  split at hcoerce
  · next htype =>
    split_ifs at hcoerce with hscale
    exact .inl ⟨_, _, .decimalWide htype (not_not.mp hscale)⟩
  · next htype =>
    obtain ⟨unscaled, hparsed, rfl⟩ := map_eq_ok.mp hcoerce
    obtain ⟨u', hu', hval⟩ := bind_eq_ok.mp hparsed
    cases hval
    refine .inr ⟨htype, .inr ⟨hkind, u', hu', ?_⟩⟩
    rw [compareValues, if_neg (by decide), if_neg (by decide), if_neg huint] at h
    simp only [applyCompare, reduceCtorEq, or_false, or_true, if_true] at h
    split_ifs at h with hnull hnarrow hother hother'
    · rw [hnarrow] at hother
      exact absurd (.inl (by decide)) hother
    · exact (of_decide_eq_true h).trans (int128FromHalves_of _)
  · next htype =>
    obtain ⟨unscaled, hparsed, -⟩ := map_eq_ok.mp hcoerce
    obtain ⟨u', hu', -⟩ := bind_eq_ok.mp hparsed
    exact .inl ⟨_, _, .decimalWideText htype hu'⟩
  · cases hcoerce

/-- A literal that finds a stored value is one that the encoder accepts, or an integer that
    spells the stored decimal. -/
theorem encodes_or_spells (hkind : col.kind = some kind)
    (hcoerce : coerceByKind lits col v kind = .ok c) (hstored : StoredIn lits inlineCellWidth col w)
    (h : compareValues col.typeVal w.val c .eq = true) :
    (∃ cell heap', Encodes lits inlineCellWidth col v [] kind cell heap') ∨
      SpellsDecimal lits col v w := by
  have huint : col.typeVal = typeValUint64 ↔ kind = .uint64 := kindOf_uint64 hkind
  obtain ⟨u, heap, cell, heap', hcell, hsame⟩ := hstored.source hkind
  cases kind with
  | signed width =>
    cases hcoerce
    exact .inl (encodes_of_equal_int (huint.not.mpr (by simp)) hcell (.inl ⟨width, rfl⟩)
      (hsame u rfl).2 h)
  | bool =>
    cases hcoerce
    exact .inl (encodes_of_equal_int (huint.not.mpr (by simp)) hcell (.inr rfl) (hsame u rfl).2 h)
  | uint64 =>
    cases hcoerce
    exact .inl (encodes_of_equal_uint64 (huint.mpr rfl) h)
  | char =>
    cases hcoerce
    obtain ⟨-, hstr, hval⟩ := hsame u rfl
    exact .inl (encodes_of_equal_text (huint.not.mpr (by decide)) hcell (.inl ⟨rfl, hval⟩) hstr h)
  | varchar =>
    cases hcoerce
    obtain ⟨-, hstr, hval⟩ := hsame u rfl
    exact .inl (encodes_of_equal_text (huint.not.mpr (by decide)) hcell (.inr ⟨rfl, hval⟩) hstr h)
  | date => exact .inl (encodes_of_coerce_date hcoerce)
  | timestamp => exact .inl (encodes_of_coerce_timestamp hcoerce)
  | decimal => exact encodes_or_spells_decimal hkind hcoerce h
  | decimalWide => exact encodes_or_spells_decimalWide hkind hcoerce h

end Finds

theorem DayMisspelt.coerce_error (h : DayMisspelt col v) :
    ∃ e, coerceLiteralToColumn lits col v = .error e := by
  obtain ⟨htype, hwrapped, hday⟩ := h
  have hnull : v.type ≠ .null := by rw [htype]; decide
  have hparam : v.type ≠ .param := by rw [htype]; decide
  rcases hday with ⟨hkind, hrange⟩ | ⟨hkind, hrange⟩
  · refine ⟨.outOfRange "date is outside the supported range", ?_⟩
    rw [coerceLiteralToColumn_eq hnull hparam hkind, coerceByKind, htype]
    exact if_pos (.inl hwrapped)
  · refine ⟨.outOfRange "timestamp is outside the supported range", ?_⟩
    rw [coerceLiteralToColumn_eq hnull hparam hkind, coerceByKind, htype]
    exact if_pos (.inl hwrapped)

/-- **What is read of a stored literal is found by it**, exactly where it is no misspelt day and no
    text with a zero byte. -/
theorem found_iff (hfits : AstValue.Fits v)
    (h : encodeOneValue lits inlineCellWidth col v heap = .ok (cell, heap'))
    (hdecode : decodeStored heap' col (some cell) = .ok w) :
    whereEquals lits col v w = .ok true ↔ ¬ DayMisspelt col v ∧ ¬ HoldsNul col v := by
  constructor
  · refine fun hfound => ⟨fun hday => ?_, ?_⟩
    · obtain ⟨e, he⟩ := hday.coerce_error
      rw [whereEquals, he] at hfound
      cases hfound
    · rintro ⟨hkind, htype, -, hzero⟩
      obtain ⟨hnull, hparam, kind, hkind', added, d, -, hread, hsame⟩ := readsBack_of_encode hfits h
      cases hkind.symm.trans hkind'
      have hnow := hread []
      rw [List.append_nil, hdecode] at hnow
      cases hnow
      obtain ⟨-, hstr, hval⟩ := hsame v rfl
      rw [whereEquals, coerceLiteralToColumn_eq hnull hparam hkind] at hfound
      have huint : col.typeVal ≠ typeValUint64 :=
        (kindOf_uint64 (show kindOf col.typeVal = some .char from hkind)).not.mpr (by decide)
      obtain ⟨-, hequal⟩ := compareValues_str huint hstr (Except.ok.inj hfound)
      rw [hval, List.takeWhile_eq_self_iff] at hequal
      exact absurd rfl (of_decide_eq_true (hequal 0 hzero))
  · rintro ⟨hday, hnul⟩
    obtain ⟨w', hread, hfound⟩ := found_of_encode hfits hday hnul h
    have hnow := hread []
    rw [List.append_nil, hdecode] at hnow
    cases hnow
    exact hfound

theorem DayMisspelt.not_treatedAlike (h : DayMisspelt col v) :
    ¬ TreatedAlike lits inlineCellWidth col v := by
  obtain ⟨htype, hwrapped, hday⟩ := id h
  intro halike
  have hlost : ∀ bytes, encodeOneValue lits inlineCellWidth col v [] = .ok (.fixed bytes, []) →
      False := by
    intro bytes hencode
    obtain ⟨w, -, hfound⟩ := halike.found _ _ _ hencode
    obtain ⟨e, he⟩ := h.coerce_error
    rw [whereEquals, he] at hfound
    cases hfound
  have hnull : v.type ≠ .null := by rw [htype]; decide
  have hparam : v.type ≠ .param := by rw [htype]; decide
  rcases hday with ⟨hkind, hrange⟩ | ⟨hkind, hrange⟩
  · refine hlost (putLE 4 v.intVal) ?_
    exact encodeOneValue_eq hnull hparam hkind (.date htype hrange)
  · refine hlost (putLE 8 v.intVal) ?_
    exact encodeOneValue_eq hnull hparam hkind (.timestamp htype hrange)

theorem HoldsNul.not_treatedAlike (h : HoldsNul col v) (hfits : AstValue.Fits v) :
    ¬ TreatedAlike lits inlineCellWidth col v := by
  obtain ⟨hkind, htype, hroom, -⟩ := id h
  intro halike
  have hnull : v.type ≠ .null := by rw [htype]; decide
  have hparam : v.type ≠ .param := by rw [htype]; decide
  have hencode : encodeOneValue lits inlineCellWidth col v [] =
      .ok (.fixed (v.strVal ++ List.replicate (col.len - v.strVal.length) 0), []) :=
    encodeOneValue_eq hnull hparam hkind (.char htype (Nat.not_lt.mpr hroom))
  obtain ⟨w, hread, hfound⟩ := halike.found _ _ _ hencode
  exact ((found_iff hfits hencode (hread [])).mp hfound).2 h

/-- **What is stored of a literal is what is compared with it**, exactly where the literal is no
    misspelt day and no text with a zero byte. -/
theorem treatedAlike_iff (lits : TypeLiterals) (inlineCellWidth : Nat) (col : SysColumnRow)
    (v : AstValue) (hfits : AstValue.Fits v) :
    TreatedAlike lits inlineCellWidth col v ↔ ¬ DayMisspelt col v ∧ ¬ HoldsNul col v := by
  constructor
  · exact fun halike => ⟨fun h => h.not_treatedAlike halike,
      fun h => h.not_treatedAlike hfits halike⟩
  · rintro ⟨hday, hnul⟩
    refine ⟨fun heap cell heap' h => found_of_encode hfits hday hnul h,
      fun c h => coerceLiteralToColumn_again h, fun hrefuses w hstored hfound => ?_⟩
    obtain ⟨c, hc, hequal⟩ := map_eq_ok.mp hfound
    rcases hrefuses with hrefused | hrefused
    · by_cases hnone : v.type = .param ∨ v.type = .null
      · -- neither a parameter nor a NULL equals anything
        rw [coerceLiteralToColumn, if_pos hnone] at hc
        cases hc
        refine absurd hequal ?_
        rw [compareValues, if_neg (by decide), if_neg (by decide)]
        rcases hnone with htype | htype
        · rcases hw : w.val.type <;> simp [hw, htype, valueAsUint64]
        · simp [htype]
      · obtain ⟨hparam, hnull⟩ := not_or.mp hnone
        obtain ⟨u, heap, cell, heap', -, hencode, -⟩ := id hstored
        obtain ⟨-, -, kind, hkind, -⟩ := encodeOneValue_eq_ok hencode
        rw [coerceLiteralToColumn_eq hnull hparam hkind] at hc
        refine (encodes_or_spells hkind hc hstored hequal).resolve_left ?_
        rintro ⟨cell', heap'', hcell⟩
        exact hrefused [] _ (encodeOneValue_eq hnull hparam hkind hcell)
    · exact absurd hc (hrefused c)

end

-- The engine's parsers

/-- A number that is read, with the range it is known to keep to. -/
def ranged {p : Int → Prop} (r : StatusOr Int) (h : ∀ n, r = .ok n → p n) : StatusOr { n // p n } :=
  match r, h with
  | .ok n, h => .ok ⟨n, h n rfl⟩
  | .error e, _ => .error e

/-- A decimal literal's number; what a signed operation leaves its carrier on is refused. -/
def carried (r : Option (StatusOr Int)) : StatusOr Int :=
  r.getD (.error (.outOfRange "decimal literal leaves its carrier"))

theorem carried_eq_ok {r : Option (StatusOr Int)} {n : Int} (h : carried r = .ok n) :
    r = some (.ok n) := by
  cases r with
  | none => cases h
  | some r => exact congrArg some h

/-- The parsers of `type_literals.cpp`. -/
def engineLiterals : TypeLiterals where
  parseDate text := ranged (Literals.parseDateLiteral text) fun _ h =>
    (Literals.parseDateLiteral_eq_ok.mp h).choose_spec.2.2.2
  parseTimestamp text := ranged (Literals.parseTimestampLiteral text) fun _ h =>
    (Literals.parseTimestampLiteral_eq_ok.mp h).choose_spec.2.2.2
  parseDecimal text precision scale :=
    ranged (carried (Literals.parseDecimalLiteral .narrow text precision scale.toNat)) fun _ h =>
      Literals.parseDecimalLiteral_range (carried_eq_ok h)
  parseDecimalWide text precision scale :=
    ranged (carried (Literals.parseDecimalLiteral .wide text precision scale.toNat)) fun _ h =>
      Literals.parseDecimalLiteral_range (carried_eq_ok h)

/-- Parsers that take no text; the literals below are integers and plain strings. -/
def noTexts : TypeLiterals where
  parseDate _ := .error (.invalidArgument "expected a date")
  parseTimestamp _ := .error (.invalidArgument "expected a timestamp")
  parseDecimal _ _ _ := .error (.invalidArgument "expected a decimal")
  parseDecimalWide _ _ _ := .error (.invalidArgument "expected a decimal")

def dateColumn : SysColumnRow := { name := "d", typeVal := 11 }
def charColumn : SysColumnRow := { name := "c", typeVal := 10, len := 4 }

/-- The literal `18446744073709551616`, which wraps to zero in the lexer. -/
def wrappedDay : AstValue where
  type := .int
  intVal := 0
  rawIntText := [49, 56, 52, 52, 54, 55, 52, 52, 48, 55, 51, 55, 48, 57, 53, 53, 49, 54, 49, 54]

/-- A one-letter text and one with a zero byte behind the letter. -/
def letterText : AstValue := { type := .str, strVal := [97] }
def nulText : AstValue := { type := .str, strVal := [97, 0] }

theorem letterText_treatedAlike : TreatedAlike noTexts 16 charColumn letterText := by
  refine (treatedAlike_iff noTexts 16 charColumn letterText ⟨by decide, by decide⟩).mpr ⟨?_, ?_⟩
  · rintro ⟨htype, -⟩
    cases htype
  · rintro ⟨-, -, -, hzero⟩
    exact absurd hzero (by decide)

/-- The day that a wrapped literal stores is not found by it, nor the text with a zero byte. -/
theorem wrappedDay_not_treatedAlike : ¬ TreatedAlike noTexts 16 dateColumn wrappedDay ∧
    ¬ TreatedAlike noTexts 16 charColumn nulText := by
  constructor
  · have hday : DayMisspelt dateColumn wrappedDay :=
      ⟨rfl, by decide +kernel, .inl ⟨rfl, by decide, by decide⟩⟩
    exact hday.not_treatedAlike
  · have hnul : HoldsNul charColumn nulText := ⟨rfl, rfl, by decide, by decide⟩
    exact hnul.not_treatedAlike ⟨by decide, by decide⟩

end Kds.Exec.Codec
