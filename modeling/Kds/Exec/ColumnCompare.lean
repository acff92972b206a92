/-
  Kds.Exec.ColumnCompare

  Two columns compared (`EvaluateConjunct`, `src/exec/chain_frame.cpp`; `CompareValues`,
  `src/exec/row_codec.cpp`).  The type that decides is the left column's where its relation is of
  this chain, and none where it is of an enclosing one.  Read as `uint64`s, two numbers compare as
  they are unless one is negative, which fails; read by their signed fields, they compare as they
  are unless just one is past the fields' range.  `speltAlike_iff` says when a comparison and its
  mirror image answer alike, and right.
-/

import Kds.Exec.IndexKeyOrder
import Kds.Exec.RowBytes

namespace Kds.Exec

-- Operators

/-- The operator of the comparison written the other way round. -/
def CompareOp.mirror : CompareOp → CompareOp
  | .lt => .gt
  | .lte => .gte
  | .gt => .lt
  | .gte => .lte
  | op => op

/-- The operators between two values. -/
def CompareOp.Relational (op : CompareOp) : Prop := op ≠ .isNull ∧ op ≠ .isNotNull

instance (op : CompareOp) : Decidable op.Relational := by
  unfold CompareOp.Relational; infer_instance

variable {op : CompareOp}

theorem CompareOp.Relational.mirror (h : op.Relational) : op.mirror.Relational := by
  cases op <;> first | exact h | decide

theorem applyCompare_mirror {α : Type} [DecidableEq α] [LT α] [DecidableLT α] (a b : α)
    (hop : op.Relational) : applyCompare b a op.mirror = applyCompare a b op := by
  cases op with
  | isNull => exact absurd rfl hop.1
  | isNotNull => exact absurd rfl hop.2
  | eq => simp [applyCompare, CompareOp.mirror, eq_comm]
  | neq => simp [applyCompare, CompareOp.mirror, eq_comm]
  | lt => rfl
  | lte => rfl
  | gt => rfl
  | gte => rfl

end Kds.Exec

namespace Kds.Exec.Codec

open Lib

-- What a column holds

/-- A value that a row shows of a column: a NULL, a stored value, or the primary key that the
    Keystone word carries, whose column is of an integer type. -/
inductive ColumnValue (lits : TypeLiterals) (inlineCellWidth : Nat) (col : SysColumnRow) :
    Cell → Prop where
  | null : ColumnValue lits inlineCellWidth col nullCell
  | stored {w : Cell} (h : StoredIn lits inlineCellWidth col w) :
      ColumnValue lits inlineCellWidth col w
  | pk (id : Nat) (h : isIntegerTypeVal col.typeVal = true) :
      ColumnValue lits inlineCellWidth col (keystoneCell id)

/-- The number stored in a column of integers: a `uint64`'s is its digits' where it has them. -/
def storedNumber (col : SysColumnRow) (v : AstValue) : Option Int :=
  if v.type ≠ .int then none
  else if col.typeVal = typeValUint64 then (valueAsUint64 v).map Int.ofNat
  else some v.intVal

/-- What the signed field shows of a number: itself, or it less `2^64`. -/
def signedField (x : Int) : Int := if x < 2 ^ 63 then x else x - 2 ^ 64

section Values

variable {lits : TypeLiterals} {inlineCellWidth : Nat} {col : SysColumnRow} {w : Cell} {x : Int}

theorem StoredIn.rawIntText (h : StoredIn lits inlineCellWidth col w)
    (htype : col.typeVal ≠ typeValUint64) : w.val.rawIntText = [] := by
  obtain ⟨u, heap, cell, heap', -, hencode, hdecode⟩ := id h
  obtain ⟨-, -, kind, hkind, -⟩ := encodeOneValue_eq_ok hencode
  have huint : kind ≠ .uint64 := fun hu => htype ((kindOf_uint64 hkind).mpr hu)
  by_cases hvarchar : kind = .varchar
  · subst hvarchar
    obtain ⟨text, rfl⟩ := decodeStored_varchar hkind hdecode
    rfl
  · obtain ⟨out, hout, hdecode⟩ := bind_eq_ok.mp hdecode
    rw [decodeOneValueInto, hkind] at hout
    cases kind <;> cases cell <;> first
      | exact absurd rfl huint
      | exact absurd rfl hvarchar
      | cases hout
    all_goals
      cases hdecode
      rfl

/-- What a comparison reads of a value that stores a number. -/
structure ReadsAs (v : AstValue) (x : Int) : Prop where
  type : v.type = .int
  field : v.intVal = signedField x
  unsigned : valueAsUint64 v = if x < 0 then none else some x.toNat
  range : -2 ^ 63 ≤ x ∧ x < 2 ^ 64

variable {v : AstValue}

theorem readsAs_of_field (htype : v.type = .int) (htext : v.rawIntText = [])
    (hrange : -2 ^ 63 ≤ v.intVal ∧ v.intVal < 2 ^ 63) : ReadsAs v v.intVal := by
  refine ⟨htype, (if_pos hrange.2).symm, ?_, by omega⟩
  rw [valueAsUint64, if_neg (not_not.mpr htype), if_neg (not_not.mpr htext)]

theorem readsAs_of_uint64 (hdecoded : AstValue.Decoded v) {n : Nat}
    (hn : valueAsUint64 v = some n) : ReadsAs v n := by
  obtain ⟨htype, hlt, hfield⟩ := hdecoded.intVal_of_uint64 hn
  refine ⟨htype, ?_, ?_, by omega⟩
  · rw [hfield, signedField]
    split_ifs <;> omega
  · rw [hn, if_neg (by omega), Int.toNat_natCast]

theorem ColumnValue.readsAs (h : ColumnValue lits inlineCellWidth col w)
    (hx : storedNumber col w.val = some x) : ReadsAs w.val x := by
  rw [storedNumber] at hx
  split_ifs at hx with htype huint
  · obtain ⟨n, hn, rfl⟩ := Option.map_eq_some_iff.mp hx
    exact readsAs_of_uint64 w.property hn
  · cases hx
    have hint := not_not.mp htype
    cases h with
    | null => cases hint
    | stored h => exact readsAs_of_field hint (h.rawIntText huint) w.property.intRange
    | pk id _ => exact readsAs_of_field rfl rfl (keystoneCell id).property.intRange

theorem ColumnValue.type_ne_int (h : ColumnValue lits inlineCellWidth col w)
    (hx : storedNumber col w.val = none) : w.val.type ≠ .int := by
  intro htype
  rw [storedNumber, if_neg (not_not.mpr htype)] at hx
  split_ifs at hx with huint
  have hnone : valueAsUint64 w.val = none := Option.map_eq_none_iff.mp hx
  cases h with
  | null => cases htype
  | stored h =>
    obtain ⟨_, _, _, _, -, hencode, -⟩ := id h
    obtain ⟨-, -, kind, hkind, -⟩ := encodeOneValue_eq_ok hencode
    obtain rfl := (kindOf_uint64 hkind).mp huint
    obtain ⟨n, hn⟩ := (h.inStorage hkind).holds
    rw [hn] at hnone
    cases hnone
  | pk id _ =>
    have hreads := readsAs_of_field (v := (keystoneCell id).val) rfl rfl
      (keystoneCell id).property.intRange
    have hpos : ¬ (keystoneCell id).val.intVal < 0 := by
      show ¬ ((id % 2 ^ 40 : Nat) : Int) < 0
      omega
    rw [hreads.unsigned, if_neg hpos] at hnone
    cases hnone

theorem ColumnValue.type_of_uint64 (h : ColumnValue lits inlineCellWidth col w)
    (huint : col.typeVal = typeValUint64) : w.val.type = .null ∨ w.val.type = .int := by
  cases h with
  | null => exact Or.inl rfl
  | stored h =>
    obtain ⟨_, _, _, _, -, hencode, -⟩ := id h
    obtain ⟨-, -, kind, hkind, -⟩ := encodeOneValue_eq_ok hencode
    obtain rfl := (kindOf_uint64 hkind).mp huint
    exact Or.inr (h.inStorage hkind).type
  | pk id _ => exact Or.inr rfl

end Values

-- Comparing

section Compare

variable {typeVal : TypeVal} {a b : AstValue} {x y : Int} {op : CompareOp}

theorem compareValues_untyped (h : typeVal ≠ typeValUint64) (a b : AstValue) (op : CompareOp) :
    compareValues typeVal a b op = compareValues 0 a b op := by
  rw [compareValues, compareValues, if_neg h, if_neg (show ¬(0 : Nat) = typeValUint64 by decide)]

theorem compareValues_signed (ha : ReadsAs a x) (hb : ReadsAs b y) (hop : op.Relational) :
    compareValues 0 a b op = applyCompare (signedField x) (signedField y) op := by
  rw [compareValues, if_neg hop.1, if_neg hop.2, if_neg (by simp [ha.type, hb.type]),
    if_neg (by decide), if_neg (by simp [ha.type, hb.type]), if_neg (by simp [ha.type, hb.type]),
    if_pos ⟨ha.type, hb.type⟩, ha.field, hb.field]

theorem compareValues_uint64 (ha : ReadsAs a x) (hb : ReadsAs b y) (hop : op.Relational) :
    compareValues typeValUint64 a b op =
      if x < 0 ∨ y < 0 then false else applyCompare x y op := by
  rw [compareValues, if_neg hop.1, if_neg hop.2, if_neg (by simp [ha.type, hb.type]),
    if_pos rfl, ha.unsigned, hb.unsigned]
  by_cases hx : x < 0
  · rw [if_pos hx, if_pos (Or.inl hx)]
  · by_cases hy : y < 0
    · rw [if_neg hx, if_pos hy, if_pos (Or.inr hy)]
    · rw [if_neg hx, if_neg hy, if_neg (by simp [hx, hy])]
      have hnat : ∀ (m n : Nat), applyCompare m n op = applyCompare (m : Int) (n : Int) op := by
        intro m n
        cases op <;> simp [applyCompare]
      have htoNat := hnat x.toNat y.toNat
      rw [Int.toNat_of_nonneg (by omega), Int.toNat_of_nonneg (by omega)] at htoNat
      exact htoNat

theorem compareValues_mirror_untyped (hop : op.Relational) :
    compareValues 0 b a op.mirror = compareValues 0 a b op := by
  have hop' := hop.mirror
  have hzero : ¬(0 : TypeVal) = typeValUint64 := by decide
  rw [compareValues, compareValues, if_neg hop'.1, if_neg hop'.2, if_neg hop.1, if_neg hop.2,
    if_neg hzero, if_neg hzero]
  by_cases hnull : a.type = .null ∨ b.type = .null
  · rw [if_pos hnull, if_pos hnull.symm]
  · rw [if_neg hnull, if_neg (fun h => hnull h.symm)]
    by_cases hdec : a.type = .decimal ∨ b.type = .decimal
    · rw [if_pos hdec, if_pos hdec.symm]
      by_cases hsame : a.type ≠ b.type ∨ a.scale ≠ b.scale
      · rw [if_pos hsame, if_pos (hsame.imp Ne.symm Ne.symm)]
      · rw [if_neg hsame, if_neg (fun h => hsame (h.imp Ne.symm Ne.symm)),
          applyCompare_mirror _ _ hop]
    · rw [if_neg hdec, if_neg (fun h => hdec h.symm)]
      by_cases hwide : a.type = .decimalWide ∨ b.type = .decimalWide
      · rw [if_pos hwide, if_pos hwide.symm]
        by_cases hsame : a.type ≠ b.type ∨ a.scale ≠ b.scale
        · rw [if_pos hsame, if_pos (hsame.imp Ne.symm Ne.symm)]
        · rw [if_neg hsame, if_neg (fun h => hsame (h.imp Ne.symm Ne.symm)),
            applyCompare_mirror _ _ hop]
      · rw [if_neg hwide, if_neg (fun h => hwide h.symm)]
        by_cases hint : a.type = .int ∧ b.type = .int
        · rw [if_pos hint, if_pos hint.symm, applyCompare_mirror _ _ hop]
        · rw [if_neg hint, if_neg (fun h => hint h.symm)]
          by_cases hstr : a.type = .str ∧ b.type = .str
          · rw [if_pos hstr, if_pos hstr.symm, applyCompare_mirror _ _ hop]
          · rw [if_neg hstr, if_neg (fun h => hstr h.symm)]

theorem compareValues_kinds (hint : a.type = .int ∧ b.type ≠ .int ∨ a.type ≠ .int ∧ b.type = .int)
    (hop : op.Relational) : compareValues typeVal a b op = false := by
  have hnone : ∀ v : AstValue, v.type ≠ .int → valueAsUint64 v = none := by
    intro v hv
    rw [valueAsUint64, if_pos hv]
  rw [compareValues, if_neg hop.1, if_neg hop.2]
  rcases hint with ⟨ha, hb⟩ | ⟨ha, hb⟩
  · rw [hnone b hb]
    cases htype : b.type <;> simp_all
  · rw [hnone a ha]
    cases htype : a.type <;> simp_all

end Compare

-- When the number read is the number stored

/-- Lowered by `2^64`, a number that stood above another still stands to it as the operator
    asks. -/
def StaysAbove (d y : Int) : CompareOp → Prop
  | .eq | .neq => d ≠ y
  | .lt | .gte => y ≤ d
  | .lte | .gt => y < d
  | .isNull | .isNotNull => True

/-- The signed fields stand as the numbers do: neither number is past the field's range, or both
    are, or lowering the one that is does not take it past the other. -/
def FieldsAgree (x y : Int) (op : CompareOp) : Prop :=
  (x < 2 ^ 63 ↔ y < 2 ^ 63) ∨
    2 ^ 63 ≤ x ∧ y < 2 ^ 63 ∧ StaysAbove (x - 2 ^ 64) y op ∨
    x < 2 ^ 63 ∧ 2 ^ 63 ≤ y ∧ StaysAbove (y - 2 ^ 64) x op.mirror

theorem applyCompare_fields {x y : Int} {op : CompareOp} (hx : -2 ^ 63 ≤ x ∧ x < 2 ^ 64)
    (hy : -2 ^ 63 ≤ y ∧ y < 2 ^ 64) (hop : op.Relational) :
    applyCompare (signedField x) (signedField y) op = applyCompare x y op ↔ FieldsAgree x y op := by
  rw [FieldsAgree, signedField, signedField, Bool.eq_iff_iff]
  cases op with
  | isNull => exact absurd rfl hop.1
  | isNotNull => exact absurd rfl hop.2
  | _ =>
    simp only [applyCompare, StaysAbove, CompareOp.mirror, decide_eq_true_eq, Bool.not_eq_true',
      decide_eq_false_iff_not, ne_eq, decide_not]
    split_ifs <;> omega

/-- `x op y` is read right: with a `uint64` of this chain on its left, `y` is not negative or the
    operator holds of no negative `y`; else the signed fields stand as the numbers do. -/
def ReadRight (asUint64 : Prop) (x y : Int) (op : CompareOp) : Prop :=
  (asUint64 → 0 ≤ y ∨ op = .eq ∨ op = .lt ∨ op = .lte) ∧ (¬asUint64 → FieldsAgree x y op)

-- A comparison and its mirror image

section Spelling

variable (columns : ColumnRef → SysColumnRow) (slot : Nat) (o : OuterRow) (r : Row)

def scopeOf : Scope := fun ref => ⟨(columns ref).typeVal, (columns ref).len⟩

/-- `a op b` as a conjunct of the step at `slot`. -/
def compared (a b : ColumnRef) (op : CompareOp) : Bool :=
  evaluateConjunct (scopeOf columns) slot ⟨a, op, .column b⟩ o r

/-- The left column is a `uint64` whose schema is in reach. -/
def AsUint64 (a : ColumnRef) : Prop := a.up = 0 ∧ (columns a).typeVal = typeValUint64

/-- `KeyFromOperand`: the value as a primary key to probe. -/
def keyFromOperand (v : AstValue) : StatusOr Nat :=
  if v.type = .param then
    .error (.corruption "a declared pattern's chain reached execution")
  else if v.type ≠ .int ∨ v.intVal < 0 then
    .error (.notFound "probe key is not a non-negative integer")
  else .ok v.intVal.toNat

/-- Any key made of one value finds the other: a cabin's or a build's, an index's, a primary
    key's. -/
structure KeysAgree (v w : Cell) : Prop where
  value : ∃ k, makeValueKey v.val = some k ∧ makeValueKey w.val = some k
  index : ∀ col kv kw, encodeIndexKeyColumn col v.val = .ok kv →
    encodeIndexKeyColumn col w.val = .ok kw → kv = kw
  probe : ∀ id, v = keystoneCell id → keyFromOperand w.val = .ok (id % 2 ^ 40)

/-- The comparison does not depend on how it is spelled: its mirror image answers the same, between
    numbers the answer is the numbers', and where two values are equal their keys are. -/
structure SpeltAlike (a b : ColumnRef) (op : CompareOp) : Prop where
  mirrored : compared columns slot o r a b op = compared columns slot o r b a op.mirror
  exact : ∀ x y, storedNumber (columns a) (frameGet slot o r a).val = some x →
    storedNumber (columns b) (frameGet slot o r b).val = some y →
    compared columns slot o r a b op = applyCompare x y op
  keyed : compared columns slot o r a b .eq = true ∨ compared columns slot o r b a .eq = true →
    KeysAgree (frameGet slot o r a) (frameGet slot o r b) ∧
      KeysAgree (frameGet slot o r b) (frameGet slot o r a)

/-- Where one of the two values is no number; or both spellings read the numbers right. -/
def ReadRightBothWays (a b : ColumnRef) (op : CompareOp) : Prop :=
  ∀ x y, storedNumber (columns a) (frameGet slot o r a).val = some x →
    storedNumber (columns b) (frameGet slot o r b).val = some y →
    ReadRight (AsUint64 columns a) x y op ∧ ReadRight (AsUint64 columns b) y x op.mirror

end Spelling

section Settled

variable {columns : ColumnRef → SysColumnRow} {slot : Nat} {o : OuterRow} {r : Row}
  {a b : ColumnRef} {op : CompareOp} {lits : TypeLiterals} {inlineCellWidth : Nat} {v w : Cell}

theorem keyFromOperand_of_key {id : Nat} {k : CabinKey}
    (hpk : makeValueKey (keystoneCell id).val = some k) (hw : makeValueKey w.val = some k) :
    keyFromOperand w.val = .ok (id % 2 ^ 40) := by
  cases hpk
  have hint : w.val.type = .int ∧ w.val.intVal = ((id % 2 ^ 40 : Nat) : Int) := by
    rw [makeValueKey] at hw
    cases htype : w.val.type <;> rw [htype] at hw <;> simp at hw
    exact ⟨rfl, hw⟩
  rw [keyFromOperand, hint.1, hint.2, if_neg (by decide),
    if_neg (by simp only [ne_eq, not_true, false_or]; omega), Int.toNat_natCast]

theorem keysAgree_of_eq {typeVal : TypeVal} (h : compareValues typeVal v.val w.val .eq = true) :
    KeysAgree v w ∧ KeysAgree w v := by
  obtain ⟨k, hv, hw⟩ := makeValueKey_of_eq v.property w.property h
  have hindex : ∀ col kv kw, encodeIndexKeyColumn col v.val = .ok kv →
      encodeIndexKeyColumn col w.val = .ok kw → kv = kw := by
    intro col kv kw hkv hkw
    obtain ⟨-, kind, pv, -, hkind, -, -, hpv, rfl⟩ := encodeIndexKeyColumn_eq_ok hkv
    obtain ⟨-, kind', pw, -, hkind', -, -, hpw, rfl⟩ := encodeIndexKeyColumn_eq_ok hkw
    cases hkind.symm.trans hkind'
    rw [encodeKeyPayload_eq (keyEqual_of_decoded v.property w.property hpv hpw h) hpv hpw]
  constructor
  · refine ⟨⟨k, hv, hw⟩, hindex, ?_⟩
    rintro id rfl
    exact keyFromOperand_of_key hv hw
  · refine ⟨⟨k, hw, hv⟩, fun col kw kv hkw hkv => (hindex col kv kw hkv hkw).symm, ?_⟩
    rintro id rfl
    exact keyFromOperand_of_key hw hv

theorem compared_eq : compared columns slot o r a b op =
    compareValues (if a.up = 0 then (columns a).typeVal else 0) (frameGet slot o r a).val
      (frameGet slot o r b).val op := rfl

theorem compared_uint64 (h : AsUint64 columns a) : compared columns slot o r a b op =
    compareValues typeValUint64 (frameGet slot o r a).val (frameGet slot o r b).val op := by
  rw [compared_eq, if_pos h.1, h.2]

theorem compared_untyped (h : ¬AsUint64 columns a) : compared columns slot o r a b op =
    compareValues 0 (frameGet slot o r a).val (frameGet slot o r b).val op := by
  rw [compared_eq]
  by_cases hup : a.up = 0
  · rw [if_pos hup]
    exact compareValues_untyped (fun htype => h ⟨hup, htype⟩) _ _ _
  · rw [if_neg hup]

theorem compared_exact_iff {x y : Int} (ha : ColumnValue lits inlineCellWidth (columns a)
      (frameGet slot o r a)) (hb : ColumnValue lits inlineCellWidth (columns b)
      (frameGet slot o r b)) (hop : op.Relational)
    (hx : storedNumber (columns a) (frameGet slot o r a).val = some x)
    (hy : storedNumber (columns b) (frameGet slot o r b).val = some y) :
    compared columns slot o r a b op = applyCompare x y op ↔
      ReadRight (AsUint64 columns a) x y op := by
  have hra := ha.readsAs hx
  have hrb := hb.readsAs hy
  by_cases huint : AsUint64 columns a
  · have hpos : 0 ≤ x := by
      rw [storedNumber, if_neg (not_not.mpr hra.type), if_pos huint.2] at hx
      obtain ⟨n, -, rfl⟩ := Option.map_eq_some_iff.mp hx
      exact Int.natCast_nonneg n
    rw [compared_uint64 huint, compareValues_uint64 hra hrb hop, ReadRight]
    by_cases hneg : y < 0
    · rw [if_pos (Or.inr hneg)]
      cases op with
      | isNull => exact absurd rfl hop.1
      | isNotNull => exact absurd rfl hop.2
      | _ =>
        simp only [applyCompare, huint]
        simp
        omega
    · rw [if_neg (by omega)]
      simp only [huint, not_true, false_implies, and_true, true_implies, true_iff]
      exact Or.inl (by omega)
  · rw [compared_untyped huint, compareValues_signed hra hrb hop,
      applyCompare_fields hra.range hrb.range hop, ReadRight]
    simp [huint]

theorem compared_mirror_of_not_numbers (ha : ColumnValue lits inlineCellWidth (columns a)
      (frameGet slot o r a)) (hb : ColumnValue lits inlineCellWidth (columns b)
      (frameGet slot o r b)) (hop : op.Relational)
    (hne : ¬((frameGet slot o r a).val.type = .int ∧ (frameGet slot o r b).val.type = .int)) :
    compared columns slot o r a b op = compared columns slot o r b a op.mirror := by
  by_cases huint : AsUint64 columns a ∨ AsUint64 columns b
  · -- a `uint64` column shows an integer or a NULL
    have hfalse : ∀ typeVal typeVal', compareValues typeVal (frameGet slot o r a).val
          (frameGet slot o r b).val op = false ∧
        compareValues typeVal' (frameGet slot o r b).val (frameGet slot o r a).val op.mirror =
          false := by
      intro typeVal typeVal'
      by_cases hnull : (frameGet slot o r a).val.type = .null ∨
          (frameGet slot o r b).val.type = .null
      · constructor
        · rw [compareValues, if_neg hop.1, if_neg hop.2, if_pos hnull]
        · rw [compareValues, if_neg hop.mirror.1, if_neg hop.mirror.2, if_pos hnull.symm]
      · rw [not_or] at hnull
        rcases huint with hu | hu
        · have hint := (ha.type_of_uint64 hu.2).resolve_left hnull.1
          have hother : (frameGet slot o r b).val.type ≠ .int := fun h => hne ⟨hint, h⟩
          exact ⟨compareValues_kinds (Or.inl ⟨hint, hother⟩) hop,
            compareValues_kinds (Or.inr ⟨hother, hint⟩) hop.mirror⟩
        · have hint := (hb.type_of_uint64 hu.2).resolve_left hnull.2
          have hother : (frameGet slot o r a).val.type ≠ .int := fun h => hne ⟨h, hint⟩
          exact ⟨compareValues_kinds (Or.inr ⟨hother, hint⟩) hop,
            compareValues_kinds (Or.inl ⟨hint, hother⟩) hop.mirror⟩
    rw [compared_eq, compared_eq, (hfalse _ 0).1, (hfalse 0 _).2]
  · rw [not_or] at huint
    rw [compared_untyped huint.1, compared_untyped huint.2, compareValues_mirror_untyped hop]

/-- **A comparison is spelled either way alike exactly where both spellings read the numbers
    right.** -/
theorem speltAlike_iff (lits : TypeLiterals) (inlineCellWidth : Nat)
    (ha : ColumnValue lits inlineCellWidth (columns a) (frameGet slot o r a))
    (hb : ColumnValue lits inlineCellWidth (columns b) (frameGet slot o r b))
    (hop : op.Relational) :
    SpeltAlike columns slot o r a b op ↔ ReadRightBothWays columns slot o r a b op := by
  constructor
  · intro h x y hx hy
    have hexact := h.exact x y hx hy
    refine ⟨(compared_exact_iff ha hb hop hx hy).mp hexact, ?_⟩
    rw [← compared_exact_iff hb ha hop.mirror hy hx, ← h.mirrored, hexact,
      applyCompare_mirror _ _ hop]
  · intro h
    refine ⟨?_, ?_, ?_⟩
    · by_cases hints : (frameGet slot o r a).val.type = .int ∧ (frameGet slot o r b).val.type = .int
      · obtain ⟨x, hx⟩ := Option.ne_none_iff_exists'.mp fun hnone =>
          ha.type_ne_int hnone hints.1
        obtain ⟨y, hy⟩ := Option.ne_none_iff_exists'.mp fun hnone =>
          hb.type_ne_int hnone hints.2
        obtain ⟨hright, hright'⟩ := h x y hx hy
        rw [(compared_exact_iff ha hb hop hx hy).mpr hright,
          (compared_exact_iff hb ha hop.mirror hy hx).mpr hright', applyCompare_mirror _ _ hop]
      · exact compared_mirror_of_not_numbers ha hb hop hints
    · intro x y hx hy
      exact (compared_exact_iff ha hb hop hx hy).mpr (h x y hx hy).1
    · rintro (heq | heq)
      · exact keysAgree_of_eq heq
      · exact (keysAgree_of_eq heq).symm

end Settled

-- A number and a `uint64` past the signed field

/-- A signed column and a `uint64` column, of one relation. -/
def signedAndUnsigned (ref : ColumnRef) : SysColumnRow :=
  if ref.colPos = 1 then { name := "a", typeVal := typeValInt64 }
  else { name := "b", typeVal := typeValUint64 }

/-- A row with a number in the one and a `uint64` in the other. -/
def numberRow (x : Int) (n : Nat) : Row :=
  [keystoneCell 7, signedCell .w64 (putLE 8 x), uint64Cell (storeLE 8 n)]

/-- The digits of `2^64 - 1`. -/
def lastDigits : Bytes :=
  [49, 56, 52, 52, 54, 55, 52, 52, 48, 55, 51, 55, 48, 57, 53, 53, 49, 54, 49, 53]

theorem minusOne_stored : ColumnValue noTexts 64 (signedAndUnsigned ⟨0, 0, 1⟩)
    (signedCell .w64 (putLE 8 (-1))) :=
  .stored ⟨.ofInt (-1), [], .fixed (putLE 8 (-1)), [], ⟨by decide, by decide⟩,
    by decide +kernel, rfl⟩

theorem lastUint64_stored : ColumnValue noTexts 64 (signedAndUnsigned ⟨0, 0, 2⟩)
    (uint64Cell (storeLE 8 (2 ^ 64 - 1))) :=
  .stored ⟨{ type := .int, intVal := -1, rawIntText := lastDigits }, [],
    .fixed (storeLE 8 (2 ^ 64 - 1)), [], ⟨by decide, by decide⟩, by decide +kernel, rfl⟩

theorem minusOne_number : storedNumber (signedAndUnsigned ⟨0, 0, 1⟩)
    (signedCell .w64 (putLE 8 (-1))).val = some (-1) := by decide +kernel

theorem lastUint64_number : storedNumber (signedAndUnsigned ⟨0, 0, 2⟩)
    (uint64Cell (storeLE 8 (2 ^ 64 - 1))).val = some (2 ^ 64 - 1) := by
  have hvalue := valueAsUint64_of_bytes (storeLE 8 (2 ^ 64 - 1))
  have hload : load 8 (storeLE 8 (2 ^ 64 - 1)) 0 = 2 ^ 64 - 1 := by decide +kernel
  rw [hload] at hvalue
  have hreads := readsAs_of_uint64 (uint64Cell (storeLE 8 (2 ^ 64 - 1))).property hvalue
  rw [storedNumber, if_neg (not_not.mpr hreads.type), if_pos (by decide), hvalue]
  rfl

/-- No outer row. -/
def noOuter : OuterRow := fun _ => nullCell

/-- `a = b` holds of -1 and `2^64 - 1`, and `b = a` does not. -/
theorem minusOne_not_speltAlike :
    ColumnValue noTexts 64 (signedAndUnsigned ⟨0, 0, 1⟩)
        (frameGet 0 noOuter (numberRow (-1) (2 ^ 64 - 1)) ⟨0, 0, 1⟩) ∧
      ColumnValue noTexts 64 (signedAndUnsigned ⟨0, 0, 2⟩)
        (frameGet 0 noOuter (numberRow (-1) (2 ^ 64 - 1)) ⟨0, 0, 2⟩) ∧
      compared signedAndUnsigned 0 noOuter (numberRow (-1) (2 ^ 64 - 1)) ⟨0, 0, 1⟩ ⟨0, 0, 2⟩ .eq =
        true ∧
      compared signedAndUnsigned 0 noOuter (numberRow (-1) (2 ^ 64 - 1)) ⟨0, 0, 2⟩ ⟨0, 0, 1⟩ .eq =
        false ∧
      ¬ SpeltAlike signedAndUnsigned 0 noOuter (numberRow (-1) (2 ^ 64 - 1)) ⟨0, 0, 1⟩ ⟨0, 0, 2⟩
        .eq := by
  have ha : ColumnValue noTexts 64 (signedAndUnsigned ⟨0, 0, 1⟩)
      (frameGet 0 noOuter (numberRow (-1) (2 ^ 64 - 1)) ⟨0, 0, 1⟩) := minusOne_stored
  have hb : ColumnValue noTexts 64 (signedAndUnsigned ⟨0, 0, 2⟩)
      (frameGet 0 noOuter (numberRow (-1) (2 ^ 64 - 1)) ⟨0, 0, 2⟩) := lastUint64_stored
  have hra := ha.readsAs minusOne_number
  have hrb := hb.readsAs lastUint64_number
  have htrue : compared signedAndUnsigned 0 noOuter (numberRow (-1) (2 ^ 64 - 1)) ⟨0, 0, 1⟩
      ⟨0, 0, 2⟩ .eq = true := by
    rw [compared_untyped (by rw [AsUint64]; decide), compareValues_signed hra hrb (by decide)]
    decide
  have hfalse : compared signedAndUnsigned 0 noOuter (numberRow (-1) (2 ^ 64 - 1)) ⟨0, 0, 2⟩
      ⟨0, 0, 1⟩ .eq = false := by
    rw [compared_uint64 ⟨rfl, by decide⟩, compareValues_uint64 hrb hra (by decide)]
    decide
  refine ⟨ha, hb, htrue, hfalse, fun h => ?_⟩
  have hsame := h.mirrored
  rw [htrue, show CompareOp.mirror .eq = .eq from rfl, hfalse] at hsame
  cases hsame

theorem fives_stored (ref : ColumnRef) :
    ColumnValue noTexts 64 (signedAndUnsigned ref) (Row.cell (numberRow 5 5) ref.colPos) := by
  have hsigned : StoredIn noTexts 64 (signedAndUnsigned ⟨0, 0, 1⟩) (signedCell .w64 (putLE 8 5)) :=
    ⟨.ofInt 5, [], .fixed (putLE 8 5), [], ⟨by decide, by decide⟩, by decide +kernel, rfl⟩
  have hunsigned : StoredIn noTexts 64 (signedAndUnsigned ⟨0, 0, 2⟩) (uint64Cell (storeLE 8 5)) :=
    ⟨.ofInt 5, [], .fixed (storeLE 8 5), [], ⟨by decide, by decide⟩, by decide +kernel, rfl⟩
  obtain ⟨up, relSlot, _ | _ | _ | n⟩ := ref
  · exact .pk 7 rfl
  · exact .stored hsigned
  · exact .stored hunsigned
  · exact .null

/-- `a < b` and `b > a` agree on 5 and 5. -/
theorem five_speltAlike : SpeltAlike signedAndUnsigned 0 noOuter (numberRow 5 5) ⟨0, 0, 1⟩
    ⟨0, 0, 2⟩ .lt := by
  have hx : ColumnValue noTexts 64 (signedAndUnsigned ⟨0, 0, 1⟩)
      (frameGet 0 noOuter (numberRow 5 5) ⟨0, 0, 1⟩) := fives_stored _
  have hy : ColumnValue noTexts 64 (signedAndUnsigned ⟨0, 0, 2⟩)
      (frameGet 0 noOuter (numberRow 5 5) ⟨0, 0, 2⟩) := fives_stored _
  apply (speltAlike_iff noTexts 64 hx hy (by decide)).mpr
  intro x y hx hy
  have hx' : storedNumber (signedAndUnsigned ⟨0, 0, 1⟩)
      (frameGet 0 noOuter (numberRow 5 5) ⟨0, 0, 1⟩).val = some 5 := by decide +kernel
  have hy' : storedNumber (signedAndUnsigned ⟨0, 0, 2⟩)
      (frameGet 0 noOuter (numberRow 5 5) ⟨0, 0, 2⟩).val = some 5 := by decide +kernel
  cases hx.symm.trans hx'
  cases hy.symm.trans hy'
  exact ⟨⟨fun _ => Or.inl (by decide), fun _ => Or.inl Iff.rfl⟩,
    ⟨fun _ => Or.inl (by decide), fun _ => Or.inl Iff.rfl⟩⟩

end Kds.Exec.Codec
