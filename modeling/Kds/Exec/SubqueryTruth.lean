/-
  Kds.Exec.SubqueryTruth

  Subquery predicates (`EvaluateSubChain` and `Collapse`, `src/exec/step_vm.cpp`; their lowering,
  `src/exec/step_compiler.cpp`): the walk over the inner rows, stopped by each form where it is
  settled, and the three-valued answer collapsed once.  The comparison has no column type in hand,
  so a `uint64` meets the negative number that its signed field shows; a NULL on the left is unlike
  every value to `NOT IN`; and decimals that no predicate may compare are compared.
  `followsSql_iff` says when the answer is SQL's.
-/

import Kds.Exec.ColumnCompare

namespace Kds.Exec.Codec

open List

-- The statement

/-- `enum class PredicateKind`. -/
inductive PredicateKind where
  | compareValue | compareSubquery | inSubquery | notInSubquery | existsSubquery
  | notExistsSubquery | between
  deriving DecidableEq

/-- The kinds with a subquery. -/
def PredicateKind.hasSubquery : PredicateKind → Bool
  | .compareValue | .between => false
  | _ => true

/-- The forms that test a column. -/
def PredicateKind.testsColumn : PredicateKind → Bool
  | .existsSubquery | .notExistsSubquery => false
  | _ => true

def isDecimal (typeVal : TypeVal) : Bool :=
  kindOf typeVal = some .decimal || kindOf typeVal = some .decimalWide

/-- `CoercePredicate`, of a column against a column. -/
def coerceColumns (lhs rhs : SysColumnRow) (position : String) : StatusOr Unit :=
  if isDecimal lhs.typeVal && isDecimal rhs.typeVal then
    if lhs.typeVal ≠ rhs.typeVal then
      .error (.unsupported ("cannot compare decimal columns of different width: '" ++ lhs.name ++
        "' and '" ++ rhs.name ++ "' are on opposite sides of the 18-digit precision split; this " ++
        "engine does not rescale" ++ position))
    else if decimalScaleOf lhs.len ≠ decimalScaleOf rhs.len then
      .error (.unsupported ("cannot compare decimal columns of different scale: '" ++ lhs.name ++
        "' has scale " ++ toString (decimalScaleOf lhs.len).toNat ++ " and '" ++ rhs.name ++
        "' has scale " ++ toString (decimalScaleOf rhs.len).toNat ++
        "; this engine does not rescale" ++ position))
    else .ok ()
  else .ok ()

/-- The lowering of a subquery used as a value: all that is asked of its projection. -/
def lowerSubquery (kind : PredicateKind) (projection : List ColumnRef) (position : String) :
    StatusOr (Option ColumnRef) :=
  if kind.testsColumn then
    match projection with
    | [value] => .ok (some value)
    | _ => .error (.unsupported
        ("a subquery used as a value must project exactly one column" ++ position))
  else .ok none

-- Its evaluation

inductive TriState where
  | isFalse | isTrue | isUnknown
  deriving DecidableEq

/-- `Collapse`: unknown is false. -/
def collapse (value : TriState) : Bool := decide (value = .isTrue)

/-- What the walk over the inner rows accumulates. -/
structure Collected where
  sawRow : Bool := false
  sawMatch : Bool := false
  sawNull : Bool := false
  scalarRows : Nat := 0
  scalarValue : AstValue := .null

def isNull (v : AstValue) : Bool := decide (v.type = .null)

def notSubChain : Status := .corruption "a plain comparison is not a sub-chain"

/-- `collect`: what one inner row adds, and whether the walk stops. -/
def collect (kind : PredicateKind) (probe : AstValue) (seen : Collected) (candidate : AstValue) :
    StatusOr (Collected × Bool) :=
  let seen := { seen with sawRow := true }
  match kind with
  | .existsSubquery | .notExistsSubquery => .ok (seen, true)
  | .inSubquery | .notInSubquery =>
    if isNull candidate then .ok ({ seen with sawNull := true }, false)
    else if !isNull probe && compareValues 0 probe candidate .eq then
      .ok ({ seen with sawMatch := true }, true)
    else .ok (seen, false)
  | .compareSubquery =>
    let value := if seen.scalarRows = 0 then candidate else seen.scalarValue
    .ok ({ seen with scalarRows := seen.scalarRows + 1, scalarValue := value },
      decide (2 ≤ seen.scalarRows + 1))
  | .compareValue | .between => .error notSubChain

/-- The inner chain run into `collect`, until a row stops it or its rows end. -/
def walkRows (kind : PredicateKind) (probe : AstValue) : Collected → List AstValue →
    StatusOr Collected
  | seen, [] => .ok seen
  | seen, row :: rows => do
    let (seen, stop) ← collect kind probe seen row
    if stop then .ok seen else walkRows kind probe seen rows

/-- The answer of what was seen. -/
def verdict (kind : PredicateKind) (op : CompareOp) (probe : AstValue) (seen : Collected) :
    StatusOr TriState :=
  match kind with
  | .existsSubquery => .ok (if seen.sawRow then .isTrue else .isFalse)
  | .notExistsSubquery => .ok (if seen.sawRow then .isFalse else .isTrue)
  | .inSubquery =>
    .ok (if seen.sawMatch then .isTrue else if seen.sawNull then .isUnknown else .isFalse)
  | .notInSubquery =>
    .ok (if seen.sawMatch then .isFalse else if seen.sawNull then .isUnknown else .isTrue)
  | .compareSubquery =>
    if 1 < seen.scalarRows then
      .error ⟨.cardinalityViolation, "a scalar subquery returned more than one row; parse " ++
        "time cannot prove cardinality, so this is checked per execution"⟩
    else if seen.scalarRows = 0 then .ok .isUnknown
    else if isNull probe || isNull seen.scalarValue then .ok .isUnknown
    else .ok (if compareValues 0 probe seen.scalarValue op then .isTrue else .isFalse)
  | .compareValue | .between => .error (.corruption "unhandled sub-chain kind")

/-- `EvaluateSubChain`, of the outer value and the values that the inner rows show. -/
def evaluateSubChain (kind : PredicateKind) (op : CompareOp) (probe : AstValue)
    (rows : List AstValue) : StatusOr TriState := do
  let seen ← walkRows kind probe {} rows
  verdict kind op probe seen

-- What SQL says

/-- `x op s` as a join predicate would compare them; of a NULL it does not hold. -/
def JoinHolds (typeVal : TypeVal) (op : CompareOp) (x s : AstValue) : Prop :=
  compareValues typeVal x s op = true

/-- The truth of a subquery predicate. -/
def SqlHolds (typeVal : TypeVal) (kind : PredicateKind) (op : CompareOp) (x : AstValue)
    (rows : List AstValue) : Prop :=
  match kind with
  | .existsSubquery => rows ≠ []
  | .notExistsSubquery => rows = []
  | .inSubquery => x.type ≠ .null ∧ ∃ s ∈ rows, JoinHolds typeVal .eq x s
  | .notInSubquery =>
    rows = [] ∨ x.type ≠ .null ∧ ∀ s ∈ rows, s.type ≠ .null ∧ ¬ JoinHolds typeVal .eq x s
  | .compareSubquery =>
    ∃ s, rows = [s] ∧ x.type ≠ .null ∧ s.type ≠ .null ∧ JoinHolds typeVal op x s
  | .compareValue | .between => False

/-- The row is accepted exactly where SQL accepts it, and a second scalar is an error. -/
structure AnswersSql (typeVal : TypeVal) (kind : PredicateKind) (op : CompareOp) (x : AstValue)
    (rows : List AstValue) : Prop where
  second : kind = .compareSubquery → 2 ≤ rows.length →
    ∃ text, evaluateSubChain kind op x rows = .error ⟨.cardinalityViolation, text⟩
  accepts : ¬(kind = .compareSubquery ∧ 2 ≤ rows.length) →
    ∃ answer, evaluateSubChain kind op x rows = .ok answer ∧
      (collapse answer = true ↔ SqlHolds typeVal kind op x rows)

section Evaluation

variable {kind : PredicateKind} {op : CompareOp} {probe : AstValue} {rows : List AstValue}
  {seen : Collected}

/-- The probe meets a value, as the walk compares them. -/
def Meets (probe candidate : AstValue) : Prop :=
  probe.type ≠ .null ∧ candidate.type ≠ .null ∧ compareValues 0 probe candidate .eq = true

instance (probe candidate : AstValue) : Decidable (Meets probe candidate) := by
  unfold Meets; infer_instance

theorem walkRows_in (hkind : kind = .inSubquery ∨ kind = .notInSubquery) (probe : AstValue)
    (rows : List AstValue) (seen : Collected) (hseen : seen.sawMatch = false) :
    ∃ seen', walkRows kind probe seen rows = .ok seen' ∧
      (seen'.sawMatch = true ↔ ∃ s ∈ rows, Meets probe s) ∧
      (seen'.sawMatch = false → (seen'.sawNull = true ↔
        seen.sawNull = true ∨ ∃ s ∈ rows, s.type = .null)) := by
  induction rows generalizing seen with
  | nil => exact ⟨seen, rfl, by simp [hseen], by simp⟩
  | cons s rows ih =>
    have hcollect : collect kind probe seen s =
        if isNull s then .ok ({ seen with sawRow := true, sawNull := true }, false)
        else if !isNull probe && compareValues 0 probe s .eq then
          .ok ({ seen with sawRow := true, sawMatch := true }, true)
        else .ok ({ seen with sawRow := true }, false) := by
      rcases hkind with rfl | rfl <;> rfl
    rw [walkRows, hcollect]
    by_cases hnull : s.type = .null
    · -- a NULL is noted, and the walk goes on
      have hisNull : isNull s = true := decide_eq_true hnull
      obtain ⟨seen', hwalk, hmatch, hnulls⟩ :=
        ih { seen with sawRow := true, sawNull := true } hseen
      rw [if_pos hisNull]
      refine ⟨seen', hwalk, ?_, ?_⟩
      · rw [hmatch, exists_mem_cons_iff]
        simp [Meets, hnull]
      · intro hno
        rw [hnulls hno]
        simp [hnull]
    · have hisNull : ¬isNull s = true := by simp [isNull, hnull]
      rw [if_neg hisNull]
      by_cases hmeets : Meets probe s
      · -- a match ends it
        have hboth : (!isNull probe && compareValues 0 probe s .eq) = true := by
          simp [isNull, hmeets.1, hmeets.2.2]
        rw [if_pos hboth]
        refine ⟨_, rfl, ?_, ?_⟩
        · exact ⟨fun _ => ⟨s, mem_cons_self, hmeets⟩, fun _ => rfl⟩
        · intro hno
          cases hno
      · have hboth : ¬(!isNull probe && compareValues 0 probe s .eq) = true := by
          intro hboth
          rw [Bool.and_eq_true] at hboth
          exact hmeets ⟨by simpa [isNull] using hboth.1, hnull, hboth.2⟩
        obtain ⟨seen', hwalk, hmatch, hnulls⟩ := ih { seen with sawRow := true } hseen
        rw [if_neg hboth]
        refine ⟨seen', hwalk, ?_, ?_⟩
        · rw [hmatch, exists_mem_cons_iff]
          simp [hmeets]
        · intro hno
          rw [hnulls hno]
          simp [hnull]

theorem evaluate_in (op : CompareOp) (probe : AstValue) (rows : List AstValue) :
    ∃ answer, evaluateSubChain .inSubquery op probe rows = .ok answer ∧
      (collapse answer = true ↔ ∃ s ∈ rows, Meets probe s) := by
  obtain ⟨seen', hwalk, hmatch, -⟩ :=
    walkRows_in (Or.inl (rfl : PredicateKind.inSubquery = _)) probe rows {} rfl
  rw [evaluateSubChain, hwalk]
  refine ⟨_, rfl, ?_⟩
  rw [← hmatch, collapse, decide_eq_true_eq]
  cases seen'.sawMatch <;> cases seen'.sawNull <;> decide

theorem evaluate_notIn (op : CompareOp) (probe : AstValue) (rows : List AstValue) :
    ∃ answer, evaluateSubChain .notInSubquery op probe rows = .ok answer ∧
      (collapse answer = true ↔ ∀ s ∈ rows, s.type ≠ .null ∧ ¬Meets probe s) := by
  obtain ⟨seen', hwalk, hmatch, hnulls⟩ :=
    walkRows_in (Or.inr (rfl : PredicateKind.notInSubquery = _)) probe rows {} rfl
  rw [evaluateSubChain, hwalk]
  refine ⟨_, rfl, ?_⟩
  have hsplit : (∀ s ∈ rows, s.type ≠ .null ∧ ¬Meets probe s) ↔
      ¬(∃ s ∈ rows, Meets probe s) ∧ ¬∃ s ∈ rows, s.type = .null := by
    constructor
    · exact fun h => ⟨fun ⟨s, hs, hm⟩ => (h s hs).2 hm, fun ⟨s, hs, hn⟩ => (h s hs).1 hn⟩
    · exact fun h s hs => ⟨fun hn => h.2 ⟨s, hs, hn⟩, fun hm => h.1 ⟨s, hs, hm⟩⟩
  rw [hsplit, ← hmatch, collapse, decide_eq_true_eq]
  cases hm : seen'.sawMatch with
  | true => simp
  | false =>
    have hnull := hnulls hm
    rw [or_iff_right (by decide)] at hnull
    rw [← hnull]
    cases seen'.sawNull <;> decide

theorem evaluate_exists (op : CompareOp) (probe : AstValue) (rows : List AstValue) :
    ∃ answer, evaluateSubChain .existsSubquery op probe rows = .ok answer ∧
      (collapse answer = true ↔ rows ≠ []) := by
  cases rows with
  | nil => exact ⟨.isFalse, rfl, by decide⟩
  | cons s rows => exact ⟨.isTrue, rfl, by simp [collapse]⟩

theorem evaluate_notExists (op : CompareOp) (probe : AstValue) (rows : List AstValue) :
    ∃ answer, evaluateSubChain .notExistsSubquery op probe rows = .ok answer ∧
      (collapse answer = true ↔ rows = []) := by
  cases rows with
  | nil => exact ⟨.isTrue, rfl, by decide⟩
  | cons s rows => exact ⟨.isFalse, rfl, by simp [collapse]⟩

theorem evaluate_second (op : CompareOp) (probe : AstValue) (hrows : 2 ≤ rows.length) :
    ∃ text, evaluateSubChain .compareSubquery op probe rows =
      .error ⟨.cardinalityViolation, text⟩ := by
  match rows, hrows with
  | first :: second :: rest, _ => exact ⟨_, rfl⟩

theorem evaluate_scalar (op : CompareOp) (probe : AstValue) (hrows : ¬2 ≤ rows.length) :
    ∃ answer, evaluateSubChain .compareSubquery op probe rows = .ok answer ∧
      (collapse answer = true ↔ ∃ s, rows = [s] ∧ probe.type ≠ .null ∧ s.type ≠ .null ∧
        compareValues 0 probe s op = true) := by
  match rows, hrows with
  | [], _ => exact ⟨.isUnknown, rfl, by simp [collapse]⟩
  | [s], _ =>
    by_cases hnull : (isNull probe || isNull s) = true
    · refine ⟨.isUnknown, ?_, ?_⟩
      · show (if (isNull probe || isNull s) = true then _ else _) = _
        rw [if_pos hnull]
      · rw [Bool.or_eq_true, isNull, isNull, decide_eq_true_eq, decide_eq_true_eq] at hnull
        constructor
        · intro h
          cases h
        · rintro ⟨s', hs', hp, hs, -⟩
          obtain rfl := (List.cons.inj hs').1
          exact absurd hnull (not_or.mpr ⟨hp, hs⟩)
    · refine ⟨if compareValues 0 probe s op then .isTrue else .isFalse, ?_, ?_⟩
      · show (if (isNull probe || isNull s) = true then _ else _) = _
        rw [if_neg hnull]
        rfl
      · rw [Bool.or_eq_true, isNull, isNull, decide_eq_true_eq, decide_eq_true_eq, not_or]
          at hnull
        constructor
        · intro h
          refine ⟨s, rfl, hnull.1, hnull.2, ?_⟩
          by_contra hno
          rw [if_neg hno] at h
          cases h
        · rintro ⟨s', hs', -, -, hcompare⟩
          obtain rfl := (List.cons.inj hs').1
          rw [if_pos hcompare]
          rfl
  | first :: second :: rest, hrows => exact absurd (by simp) hrows

end Evaluation

-- What the comparison without a type makes of it

section Settled

variable (colX colS : SysColumnRow) (up : Nat)

/-- The type that a join predicate with the column on its left compares under. -/
def joinType : TypeVal := if up = 0 then colX.typeVal else 0

/-- The outer value is a `uint64` whose signed field shows the inner value, a negative number. -/
def WrapsOnto (x s : AstValue) : Prop :=
  joinType colX up = typeValUint64 ∧ ∃ y, y < 0 ∧ storedNumber colS s = some y ∧
    storedNumber colX x = some (y + 2 ^ 64)

/-- The signed fields of an outer `uint64` and an inner number compare as they do themselves; with
    a negative one, not at all. -/
def FieldsServe (op : CompareOp) (x s : AstValue) : Prop :=
  joinType colX up = typeValUint64 → ∀ n y, storedNumber colX x = some n →
    storedNumber colS s = some y →
    (0 ≤ y → FieldsAgree n y op) ∧ (y < 0 → applyCompare (signedField n) y op = false)

/-- Two decimals that a predicate may not compare. -/
def DecimalsApart : Prop :=
  isDecimal colX.typeVal = true ∧ isDecimal colS.typeVal = true ∧
    (colX.typeVal ≠ colS.typeVal ∨ decimalScaleOf colX.len ≠ decimalScaleOf colS.len)

/-- The statement is refused where a join predicate would be, and answered as SQL says. -/
structure FollowsSql (value : ColumnRef) (position : String) (kind : PredicateKind)
    (op : CompareOp) (x : AstValue) (rows : List AstValue) : Prop where
  refused : kind.testsColumn = true → (∃ e, coerceColumns colX colS position = .error e) →
    ∃ e, lowerSubquery kind [value] position = .error e
  answers : AnswersSql (joinType colX up) kind op x rows

/-- The inputs on which nothing goes wrong. -/
structure ReadsAsJoin (kind : PredicateKind) (op : CompareOp) (x : AstValue)
    (rows : List AstValue) : Prop where
  decimals : kind.testsColumn = true → ¬DecimalsApart colX colS
  inValues : kind = .inSubquery → ∀ s ∈ rows, ¬WrapsOnto colX colS up x s
  notInNull : kind = .notInSubquery → x.type = .null → rows = [] ∨ ∃ s ∈ rows, s.type = .null
  notInValues : kind = .notInSubquery → (∃ s ∈ rows, WrapsOnto colX colS up x s) →
    ∃ s ∈ rows, s.type = .null
  scalar : kind = .compareSubquery → ∀ s, rows = [s] → FieldsServe colX colS up op x s

variable {colX colS up} {lits : TypeLiterals} {inlineCellWidth : Nat} {x s : Cell}
  {rows : List Cell} {op : CompareOp} {p : AstValue → Prop}

theorem joinHolds_not_null {typeVal : TypeVal} {x s : AstValue} (hop : op.Relational)
    (h : JoinHolds typeVal op x s) : x.type ≠ .null ∧ s.type ≠ .null := by
  rw [JoinHolds, compareValues, if_neg hop.1, if_neg hop.2] at h
  split_ifs at h with hnull
  all_goals exact not_or.mp hnull

theorem storedNumber_sign {col : SysColumnRow} {w : Cell} {z : Int}
    (hw : ColumnValue lits inlineCellWidth col w) (hz : storedNumber col w.val = some z) :
    (col.typeVal = typeValUint64 → 0 ≤ z) ∧ (col.typeVal ≠ typeValUint64 → z < 2 ^ 63) := by
  have htype := (hw.readsAs hz).type
  rw [storedNumber, if_neg (not_not.mpr htype)] at hz
  constructor
  · intro hcol
    rw [if_pos hcol] at hz
    obtain ⟨n, -, rfl⟩ := Option.map_eq_some_iff.mp hz
    exact Int.natCast_nonneg n
  · intro hcol
    rw [if_neg hcol] at hz
    cases hz
    exact w.property.intRange.2

theorem typeVal_of_joinType (h : joinType colX up = typeValUint64) :
    colX.typeVal = typeValUint64 := by
  rw [joinType] at h
  split_ifs at h
  · exact h
  · cases h

/-- **Under a `uint64`, values that are not both integers never meet**, with a type or without. -/
theorem compare_of_not_ints (typeVal : TypeVal) (hx : ColumnValue lits inlineCellWidth colX x)
    (hu : joinType colX up = typeValUint64)
    (hints : ¬(x.val.type = .int ∧ s.val.type = .int)) (hop : op.Relational) :
    compareValues typeVal x.val s.val op = false := by
  rcases hx.type_of_uint64 (typeVal_of_joinType hu) with hnull | hint
  · rw [compareValues, if_neg hop.1, if_neg hop.2, if_pos (Or.inl hnull)]
  · exact compareValues_kinds (Or.inl ⟨hint, fun h => hints ⟨hint, h⟩⟩) hop

theorem compare_of_ne_uint64 (hu : joinType colX up ≠ typeValUint64) (x s : AstValue)
    (op : CompareOp) : JoinHolds (joinType colX up) op x s ↔ compareValues 0 x s op = true := by
  rw [JoinHolds, compareValues_untyped hu]

theorem meets_iff (hx : ColumnValue lits inlineCellWidth colX x)
    (hs : ColumnValue lits inlineCellWidth colS s) : Meets x.val s.val ↔
      JoinHolds (joinType colX up) .eq x.val s.val ∨ WrapsOnto colX colS up x.val s.val := by
  have heq : CompareOp.eq.Relational := by decide
  by_cases hu : joinType colX up = typeValUint64
  · by_cases hints : x.val.type = .int ∧ s.val.type = .int
    · obtain ⟨n, hn⟩ := Option.ne_none_iff_exists'.mp fun hnone => hx.type_ne_int hnone hints.1
      obtain ⟨y, hy⟩ := Option.ne_none_iff_exists'.mp fun hnone => hs.type_ne_int hnone hints.2
      have hrn := hx.readsAs hn
      have hry := hs.readsAs hy
      have hn0 := (storedNumber_sign hx hn).1 (typeVal_of_joinType hu)
      have hnr := hrn.range
      have hyr := hry.range
      have hmeets : Meets x.val s.val ↔ signedField n = signedField y := by
        rw [Meets, compareValues_signed hrn hry heq, hrn.type, hry.type]
        simp [applyCompare]
      have hjoin : JoinHolds (joinType colX up) .eq x.val s.val ↔ 0 ≤ y ∧ n = y := by
        rw [JoinHolds, hu, compareValues_uint64 hrn hry heq]
        by_cases hneg : y < 0
        · rw [if_pos (Or.inr hneg)]
          constructor
          · intro h
            cases h
          · rintro ⟨h, -⟩
            omega
        · rw [if_neg (by omega)]
          simp only [applyCompare, decide_eq_true_eq]
          omega
      have hwraps : WrapsOnto colX colS up x.val s.val ↔ y < 0 ∧ n = y + 2 ^ 64 := by
        constructor
        · rintro ⟨-, z, hz, hsz, hxz⟩
          cases hsz.symm.trans hy
          exact ⟨hz, Option.some.inj (hn.symm.trans hxz)⟩
        · rintro ⟨hneg, hny⟩
          exact ⟨hu, y, hneg, hy, hn.trans (congrArg some hny)⟩
      rw [hmeets, hjoin, hwraps, signedField, signedField]
      split_ifs <;> omega
    · have hmeets : ¬Meets x.val s.val := by
        intro h
        have hfalse := compare_of_not_ints 0 hx hu hints heq
        rw [h.2.2] at hfalse
        cases hfalse
      have hjoin : ¬JoinHolds (joinType colX up) .eq x.val s.val := by
        rw [JoinHolds, compare_of_not_ints _ hx hu hints heq]
        decide
      have hwraps : ¬WrapsOnto colX colS up x.val s.val := by
        rintro ⟨-, y, -, hsy, hxy⟩
        exact hints ⟨(hx.readsAs hxy).type, (hs.readsAs hsy).type⟩
      simp [hmeets, hjoin, hwraps]
  · have hwraps : ¬WrapsOnto colX colS up x.val s.val := fun h => hu h.1
    rw [or_iff_left hwraps, compare_of_ne_uint64 hu]
    constructor
    · exact fun h => h.2.2
    · intro h
      have hnull := joinHolds_not_null heq ((compare_of_ne_uint64 hu _ _ _).mpr h)
      exact ⟨hnull.1, hnull.2, h⟩

theorem WrapsOnto.not_joinHolds (hx : ColumnValue lits inlineCellWidth colX x)
    (hrows : ∀ s ∈ rows, ColumnValue lits inlineCellWidth colS s) (hs : s ∈ rows)
    (h : WrapsOnto colX colS up x.val s.val) :
    ∀ t ∈ rows, ¬JoinHolds (joinType colX up) .eq x.val t.val := by
  obtain ⟨hu, y, hneg, hsy, hxy⟩ := h
  have hsigned : colS.typeVal ≠ typeValUint64 := by
    intro hcol
    have hpos := (storedNumber_sign (hrows s hs) hsy).1 hcol
    omega
  intro t ht hjoin
  have htc := hrows t ht
  by_cases hints : x.val.type = .int ∧ t.val.type = .int
  · obtain ⟨z, hz⟩ := Option.ne_none_iff_exists'.mp fun hnone => htc.type_ne_int hnone hints.2
    have hrx := hx.readsAs hxy
    have hrz := htc.readsAs hz
    have hzr := (storedNumber_sign htc hz).2 hsigned
    have hyr := ((hrows s hs).readsAs hsy).range
    rw [JoinHolds, hu, compareValues_uint64 hrx hrz (by decide)] at hjoin
    split_ifs at hjoin
    simp only [applyCompare, decide_eq_true_eq] at hjoin
    omega
  · rw [JoinHolds, compare_of_not_ints _ hx hu hints (by decide)] at hjoin
    cases hjoin

/-- **A lone scalar is compared as the join predicate compares it** exactly where the signed fields
    serve. -/
theorem scalar_iff (hx : ColumnValue lits inlineCellWidth colX x)
    (hs : ColumnValue lits inlineCellWidth colS s) (hop : op.Relational) :
    (compareValues 0 x.val s.val op = true ↔ JoinHolds (joinType colX up) op x.val s.val) ↔
      FieldsServe colX colS up op x.val s.val := by
  by_cases hu : joinType colX up = typeValUint64
  · by_cases hints : x.val.type = .int ∧ s.val.type = .int
    · obtain ⟨n, hn⟩ := Option.ne_none_iff_exists'.mp fun hnone => hx.type_ne_int hnone hints.1
      obtain ⟨y, hy⟩ := Option.ne_none_iff_exists'.mp fun hnone => hs.type_ne_int hnone hints.2
      have hrn := hx.readsAs hn
      have hry := hs.readsAs hy
      have hn0 := (storedNumber_sign hx hn).1 (typeVal_of_joinType hu)
      have hserve : FieldsServe colX colS up op x.val s.val ↔
          (0 ≤ y → FieldsAgree n y op) ∧ (y < 0 → applyCompare (signedField n) y op = false) := by
        constructor
        · exact fun h => h hu n y hn hy
        · intro h _ n' y' hn' hy'
          cases hn.symm.trans hn'
          cases hy.symm.trans hy'
          exact h
      rw [hserve, JoinHolds, hu, compareValues_signed hrn hry hop, compareValues_uint64 hrn hry hop,
        ← Bool.eq_iff_iff]
      by_cases hneg : y < 0
      · -- the join predicate finds no negative `uint64`
        have hfield : signedField y = y := if_pos (by omega)
        rw [if_pos (Or.inr hneg), hfield]
        constructor
        · exact fun h => ⟨fun h0 => absurd hneg (by omega), fun _ => h⟩
        · exact fun h => h.2 hneg
      · rw [if_neg (by omega), applyCompare_fields hrn.range hry.range hop]
        constructor
        · exact fun h => ⟨fun _ => h, fun h0 => absurd h0 hneg⟩
        · exact fun h => h.1 (by omega)
    · have hserve : FieldsServe colX colS up op x.val s.val := by
        intro _ n y hn hy
        exact absurd ⟨(hx.readsAs hn).type, (hs.readsAs hy).type⟩ hints
      rw [JoinHolds, compare_of_not_ints _ hx hu hints hop, compare_of_not_ints _ hx hu hints hop]
      exact iff_of_true Iff.rfl hserve
  · have hserve : FieldsServe colX colS up op x.val s.val := fun h => absurd h hu
    exact iff_of_true (compare_of_ne_uint64 hu _ _ _).symm hserve

/-- What the lowering does not refuse is refused by no join predicate exactly where the two columns
    are no decimals apart. -/
theorem refused_iff (value : ColumnRef) (position : String) (kind : PredicateKind) :
    (kind.testsColumn = true → (∃ e, coerceColumns colX colS position = .error e) →
      ∃ e, lowerSubquery kind [value] position = .error e) ↔
      (kind.testsColumn = true → ¬DecimalsApart colX colS) := by
  have hrefused : (∃ e, coerceColumns colX colS position = .error e) ↔ DecimalsApart colX colS := by
    rw [coerceColumns, DecimalsApart]
    by_cases hdec : (isDecimal colX.typeVal && isDecimal colS.typeVal) = true
    · rw [if_pos hdec]
      rw [Bool.and_eq_true] at hdec
      by_cases htype : colX.typeVal = colS.typeVal
      · by_cases hscale : decimalScaleOf colX.len = decimalScaleOf colS.len
        · simp [htype, hscale]
        · simp [htype, hscale, hdec]
      · simp [htype, hdec]
    · rw [if_neg hdec]
      rw [Bool.and_eq_true, not_and] at hdec
      simp only [reduceCtorEq, exists_false, false_iff]
      exact fun h => hdec h.1 h.2.1
  rw [hrefused]
  refine forall_congr' fun htests => ?_
  have hlowered : ¬∃ e, lowerSubquery kind [value] position = .error e := by
    rintro ⟨e, he⟩
    rw [lowerSubquery, if_pos htests] at he
    cases he
  constructor
  · exact fun h hapart => hlowered (h hapart)
  · exact fun h hapart => absurd hapart h

theorem answers_in_iff (hx : ColumnValue lits inlineCellWidth colX x)
    (hrows : ∀ s ∈ rows, ColumnValue lits inlineCellWidth colS s) :
    ((∃ s ∈ rows, Meets x.val s.val) ↔
      x.val.type ≠ .null ∧ ∃ s ∈ rows, JoinHolds (joinType colX up) .eq x.val s.val) ↔
      ∀ s ∈ rows, ¬WrapsOnto colX colS up x.val s.val := by
  constructor
  · intro h s hs hwraps
    obtain ⟨-, t, ht, hjoin⟩ := h.mp ⟨s, hs, (meets_iff hx (hrows s hs)).mpr (Or.inr hwraps)⟩
    exact hwraps.not_joinHolds hx hrows hs t ht hjoin
  · intro h
    constructor
    · rintro ⟨s, hs, hmeets⟩
      have hjoin := ((meets_iff hx (hrows s hs)).mp hmeets).resolve_right (h s hs)
      exact ⟨hmeets.1, s, hs, hjoin⟩
    · rintro ⟨-, s, hs, hjoin⟩
      exact ⟨s, hs, (meets_iff hx (hrows s hs)).mpr (Or.inl hjoin)⟩

theorem answers_notIn_iff (hx : ColumnValue lits inlineCellWidth colX x)
    (hrows : ∀ s ∈ rows, ColumnValue lits inlineCellWidth colS s) :
    ((∀ s ∈ rows, s.val.type ≠ .null ∧ ¬Meets x.val s.val) ↔
      rows = [] ∨ x.val.type ≠ .null ∧ ∀ s ∈ rows, s.val.type ≠ .null ∧
        ¬JoinHolds (joinType colX up) .eq x.val s.val) ↔
      (x.val.type = .null → rows = [] ∨ ∃ s ∈ rows, s.val.type = .null) ∧
        ((∃ s ∈ rows, WrapsOnto colX colS up x.val s.val) → ∃ s ∈ rows, s.val.type = .null) := by
  constructor
  · intro h
    constructor
    · intro hnull
      by_contra hno
      rw [not_or, not_exists] at hno
      -- a NULL is unlike every value, so the row is accepted
      have haccepts : ∀ s ∈ rows, s.val.type ≠ .null ∧ ¬Meets x.val s.val := fun s hs =>
        ⟨fun hs' => hno.2 s ⟨hs, hs'⟩, fun hmeets => hmeets.1 hnull⟩
      exact (h.mp haccepts).elim hno.1 fun hsql => hsql.1 hnull
    · rintro ⟨s, hs, hwraps⟩
      by_contra hno
      rw [not_exists] at hno
      have hnone : x.val.type ≠ .null := by
        obtain ⟨-, y, -, -, hxy⟩ := hwraps
        rw [(hx.readsAs hxy).type]
        decide
      have hsql := h.mpr (Or.inr ⟨hnone, fun t ht =>
        ⟨fun ht' => hno t ⟨ht, ht'⟩, hwraps.not_joinHolds hx hrows hs t ht⟩⟩)
      exact (hsql s hs).2 ((meets_iff hx (hrows s hs)).mpr (Or.inr hwraps))
  · rintro ⟨hnulls, hvalues⟩
    constructor
    · intro haccepts
      have hnonull : ¬∃ s ∈ rows, s.val.type = .null := fun ⟨s, hs, hs'⟩ => (haccepts s hs).1 hs'
      by_cases hempty : rows = []
      · exact Or.inl hempty
      · refine Or.inr ⟨fun hnull => (hnulls hnull).elim hempty hnonull, fun s hs => ?_⟩
        exact ⟨(haccepts s hs).1, fun hjoin =>
          (haccepts s hs).2 ((meets_iff hx (hrows s hs)).mpr (Or.inl hjoin))⟩
    · rintro (rfl | ⟨-, hsql⟩)
      · exact forall_mem_nil _
      · intro s hs
        refine ⟨(hsql s hs).1, fun hmeets => ?_⟩
        rcases (meets_iff hx (hrows s hs)).mp hmeets with hjoin | hwraps
        · exact (hsql s hs).2 hjoin
        · obtain ⟨t, ht, htnull⟩ := hvalues ⟨s, hs, hwraps⟩
          exact (hsql t ht).1 htnull

/-- The values that the inner rows show. -/
def valuesOf (rows : List Cell) : List AstValue := rows.map (·.val)

theorem exists_mem_valuesOf : (∃ s ∈ valuesOf rows, p s) ↔ ∃ s ∈ rows, p s.val := by
  simp only [valuesOf, mem_map, exists_exists_and_eq_and]

theorem forall_mem_valuesOf :
    (∀ s ∈ valuesOf rows, p s) ↔ ∀ s ∈ rows, p s.val := forall_mem_map

theorem valuesOf_eq_nil : valuesOf rows = [] ↔ rows = [] := map_eq_nil_iff

theorem answersSql_iff {typeVal : TypeVal} {kind : PredicateKind} {v : AstValue}
    {values : List AstValue} {accepted : Prop} {answer : TriState}
    (hone : ¬(kind = .compareSubquery ∧ 2 ≤ values.length))
    (hanswer : evaluateSubChain kind op v values = .ok answer)
    (haccepted : collapse answer = true ↔ accepted) :
    AnswersSql typeVal kind op v values ↔ (accepted ↔ SqlHolds typeVal kind op v values) := by
  constructor
  · intro h
    obtain ⟨answer', hanswer', hsql⟩ := h.accepts hone
    cases hanswer.symm.trans hanswer'
    exact haccepted.symm.trans hsql
  · intro h
    exact ⟨fun hkind hlen => absurd ⟨hkind, hlen⟩ hone, fun _ =>
      ⟨answer, hanswer, haccepted.trans h⟩⟩

/-- **A subquery predicate reads as its join predicate would exactly where no NULL, no value past
    the signed field and no pair of decimals stands in the way.** -/
theorem followsSql_iff (value : ColumnRef) (position : String) (kind : PredicateKind)
    (hkind : kind.hasSubquery = true) (hop : op.Relational)
    (hx : ColumnValue lits inlineCellWidth colX x)
    (hrows : ∀ s ∈ rows, ColumnValue lits inlineCellWidth colS s) :
    FollowsSql colX colS up value position kind op x.val (valuesOf rows) ↔
      ReadsAsJoin colX colS up kind op x.val (valuesOf rows) := by
  have hsplit : FollowsSql colX colS up value position kind op x.val (valuesOf rows) ↔
      (kind.testsColumn = true → ¬DecimalsApart colX colS) ∧
        AnswersSql (joinType colX up) kind op x.val (valuesOf rows) := by
    rw [← refused_iff value position kind]
    exact ⟨fun h => ⟨h.refused, h.answers⟩, fun h => ⟨h.1, h.2⟩⟩
  rw [hsplit]
  cases kind with
  | compareValue => cases hkind
  | between => cases hkind
  | existsSubquery =>
    obtain ⟨answer, hanswer, haccepts⟩ := evaluate_exists op x.val (valuesOf rows)
    rw [answersSql_iff (by simp) hanswer haccepts]
    exact iff_of_true ⟨fun h => absurd h (by decide), Iff.rfl⟩
      ⟨fun h => absurd h (by decide), nofun, nofun, nofun, nofun⟩
  | notExistsSubquery =>
    obtain ⟨answer, hanswer, haccepts⟩ := evaluate_notExists op x.val (valuesOf rows)
    rw [answersSql_iff (by simp) hanswer haccepts]
    exact iff_of_true ⟨fun h => absurd h (by decide), Iff.rfl⟩
      ⟨fun h => absurd h (by decide), nofun, nofun, nofun, nofun⟩
  | inSubquery =>
    obtain ⟨answer, hanswer, haccepts⟩ := evaluate_in op x.val (valuesOf rows)
    rw [answersSql_iff (by simp) hanswer haccepts]
    simp only [SqlHolds, exists_mem_valuesOf]
    rw [answers_in_iff hx hrows,
      ← forall_mem_valuesOf (p := fun s => ¬WrapsOnto colX colS up x.val s)]
    exact ⟨fun h => ⟨h.1, fun _ => h.2, nofun, nofun, nofun⟩,
      fun h => ⟨h.decimals, h.inValues rfl⟩⟩
  | notInSubquery =>
    obtain ⟨answer, hanswer, haccepts⟩ := evaluate_notIn op x.val (valuesOf rows)
    rw [answersSql_iff (by simp) hanswer haccepts]
    simp only [SqlHolds, forall_mem_valuesOf, valuesOf_eq_nil]
    rw [answers_notIn_iff hx hrows,
      ← exists_mem_valuesOf (p := fun s => WrapsOnto colX colS up x.val s),
      ← exists_mem_valuesOf (p := fun s => s.type = .null), ← valuesOf_eq_nil]
    exact ⟨fun h => ⟨h.1, nofun, fun _ => h.2.1, fun _ => h.2.2, nofun⟩,
      fun h => ⟨h.decimals, h.notInNull rfl, h.notInValues rfl⟩⟩
  | compareSubquery =>
    have hcond : ReadsAsJoin colX colS up .compareSubquery op x.val (valuesOf rows) ↔
        (PredicateKind.testsColumn .compareSubquery = true → ¬DecimalsApart colX colS) ∧
          ∀ s, valuesOf rows = [s] → FieldsServe colX colS up op x.val s :=
      ⟨fun h => ⟨h.decimals, h.scalar rfl⟩,
        fun h => ⟨h.1, nofun, nofun, nofun, fun _ => h.2⟩⟩
    rw [hcond]
    refine and_congr_right fun _ => ?_
    by_cases hlen : 2 ≤ (valuesOf rows).length
    · -- a second row is an error, whatever the values
      have hlone : ∀ s, valuesOf rows ≠ [s] := by
        intro s hs
        rw [hs] at hlen
        exact absurd hlen (by simp)
      exact iff_of_true ⟨fun _ _ => evaluate_second op x.val hlen,
        fun h => absurd ⟨rfl, hlen⟩ h⟩ fun s hs => absurd hs (hlone s)
    · obtain ⟨answer, hanswer, haccepts⟩ := evaluate_scalar op x.val hlen
      rw [answersSql_iff (fun h => hlen h.2) hanswer haccepts]
      match rows, hrows, hlen with
      | [], _, _ => simp [SqlHolds, valuesOf]
      | [s], hrows, _ =>
        have hs := hrows s mem_cons_self
        have hcompare : ∀ typeVal, (x.val.type ≠ .null ∧ s.val.type ≠ .null ∧
            compareValues typeVal x.val s.val op = true) ↔
            compareValues typeVal x.val s.val op = true := fun typeVal =>
          ⟨fun h => h.2.2, fun h =>
            ⟨(joinHolds_not_null hop h).1, (joinHolds_not_null hop h).2, h⟩⟩
        simp only [valuesOf, map_cons, map_nil, SqlHolds, List.cons.injEq, and_true,
          exists_eq_left', forall_eq']
        rw [hcompare, JoinHolds, hcompare]
        exact scalar_iff hx hs hop
      | _ :: _ :: _, _, hlen => exact absurd (by simp [valuesOf]) hlen

end Settled

-- A NULL and a value

/-- An outer column of integers, and an inner one. -/
def outerNumbers : SysColumnRow := { name := "x", typeVal := typeValInt64 }

def innerNumbers : SysColumnRow := { name := "s", typeVal := typeValInt64 }

/-- NULL is `NOT IN` {1}. -/
theorem null_notIn_one : ColumnValue noTexts 64 outerNumbers nullCell ∧
    (∀ s ∈ [signedCell .w64 (putLE 8 1)], ColumnValue noTexts 64 innerNumbers s) ∧
    (∃ answer, evaluateSubChain .notInSubquery .eq nullCell.val
      (valuesOf [signedCell .w64 (putLE 8 1)]) = .ok answer ∧ collapse answer = true) ∧
    ¬FollowsSql outerNumbers innerNumbers 0 ⟨0, 0, 1⟩ "" .notInSubquery .eq nullCell.val
      (valuesOf [signedCell .w64 (putLE 8 1)]) := by
  have hanswer : ∃ answer, evaluateSubChain .notInSubquery .eq nullCell.val
      (valuesOf [signedCell .w64 (putLE 8 1)]) = .ok answer ∧ collapse answer = true :=
    ⟨.isTrue, rfl, rfl⟩
  refine ⟨.null, ?_, hanswer, fun h => ?_⟩
  · intro s hs
    obtain rfl := mem_singleton.mp hs
    exact .stored ⟨.ofInt 1, [], .fixed (putLE 8 1), [], ⟨by decide, by decide⟩,
      by decide +kernel, rfl⟩
  · obtain ⟨answer, hrun, haccepts⟩ := hanswer
    obtain ⟨answer', hrun', hsql⟩ := h.answers.accepts (by decide)
    cases hrun.symm.trans hrun'
    exact (hsql.mp haccepts).elim nofun fun h => h.1 rfl

/-- 5 is `NOT IN` {1}. -/
theorem five_notIn_one : FollowsSql outerNumbers innerNumbers 0 ⟨0, 0, 1⟩ "" .notInSubquery .eq
    (signedCell .w64 (putLE 8 5)).val (valuesOf [signedCell .w64 (putLE 8 1)]) := by
  have hx : ColumnValue noTexts 64 outerNumbers (signedCell .w64 (putLE 8 5)) :=
    .stored ⟨.ofInt 5, [], .fixed (putLE 8 5), [], ⟨by decide, by decide⟩, by decide +kernel, rfl⟩
  have hrows : ∀ s ∈ [signedCell .w64 (putLE 8 1)], ColumnValue noTexts 64 innerNumbers s := by
    intro s hs
    obtain rfl := mem_singleton.mp hs
    exact .stored ⟨.ofInt 1, [], .fixed (putLE 8 1), [], ⟨by decide, by decide⟩,
      by decide +kernel, rfl⟩
  apply (followsSql_iff ⟨0, 0, 1⟩ "" .notInSubquery rfl (by decide) hx hrows).mpr
  have hwraps : ¬joinType outerNumbers 0 = typeValUint64 := by decide
  exact ⟨fun _ h => absurd h.1 (by decide), nofun, nofun,
    fun _ ⟨_, _, h⟩ => absurd h.1 hwraps, nofun⟩

end Kds.Exec.Codec
