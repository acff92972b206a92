/-
  Kds.Exec.StepChain

  A compiled step's residual and how it is evaluated on a located row (`step_chain.hpp`,
  `src/exec/chain_frame.cpp`), and the annotation that lets a walked inner side be built into
  a map once per statement (`BuildKeyOf`, `src/exec/step_compiler.cpp`).

  While a step's relation is read, the frame holds one row of that relation and, for every
  other reference, the outer row: earlier steps' columns and enclosing chains'.  A compiled
  chain resolves every reference, so the frame is total and the source's malformed-chain
  errors have no counterpart.
-/

import Kds.Exec.Compare

namespace Kds.Exec

/-- `struct ColumnRef`: how many chains out, which step there, which column. -/
structure ColumnRef where
  up : Nat
  relSlot : Nat
  colPos : Nat
  deriving DecidableEq

inductive Operand where
  | literal (v : AstValue)
  | column (ref : ColumnRef)
  deriving DecidableEq

/-- One conjunct. -/
structure StepPredicate where
  lhs : ColumnRef
  op : CompareOp
  rhs : Operand
  deriving DecidableEq

/-- What a column's descriptor says about its bytes. -/
structure ColumnDesc where
  typeVal : TypeVal
  len : Nat := 0
  deriving DecidableEq

/-- The relations in scope, by `ColumnAt`. -/
abbrev Scope := ColumnRef → ColumnDesc

-- Evaluation

/-- The outer row: every reference that is not the step's own relation's. -/
abbrev OuterRow := ColumnRef → Cell

/-- One decoded row of the step's relation. -/
abbrev Row := List Cell

def nullCell : Cell := ⟨.null, by decide, .inl rfl⟩

def Row.cell (r : Row) (colPos : Nat) : Cell := r.getD colPos nullCell

/-- `IsOwnColumn`. -/
def ColumnRef.IsOwn (ref : ColumnRef) (slot : Nat) : Prop := ref.up = 0 ∧ ref.relSlot = slot

instance (ref : ColumnRef) (slot : Nat) : Decidable (ref.IsOwn slot) := by
  unfold ColumnRef.IsOwn; infer_instance

/-- `ChainFrame::Get` while the step at `slot` holds the row `r`. -/
def frameGet (slot : Nat) (o : OuterRow) (r : Row) (ref : ColumnRef) : Cell :=
  if ref.IsOwn slot then r.cell ref.colPos else o ref

/-- `EvaluateConjunct`: an outward left side compares by value kinds alone (type 0). -/
def evaluateConjunct (scope : Scope) (slot : Nat) (pred : StepPredicate) (o : OuterRow)
    (r : Row) : Bool :=
  let typeVal := if pred.lhs.up = 0 then (scope pred.lhs).typeVal else 0
  let rhs := match pred.rhs with
    | .literal v => v
    | .column ref => (frameGet slot o r ref).val
  compareValues typeVal (frameGet slot o r pred.lhs).val rhs pred.op

/-- `EvaluateAll`. -/
def evaluateAll (scope : Scope) (slot : Nat) (residual : List StepPredicate) (o : OuterRow)
    (r : Row) : Bool :=
  residual.all fun pred => evaluateConjunct scope slot pred o r

/-- `EvaluateAllExcept`, from conjunct number `i` on. -/
def evaluateAllExceptFrom (scope : Scope) (slot : Nat) (o : OuterRow) (r : Row) (skip : Nat) :
    Nat → List StepPredicate → Bool
  | _, [] => true
  | i, pred :: preds =>
    (i == skip || evaluateConjunct scope slot pred o r) &&
      evaluateAllExceptFrom scope slot o r skip (i + 1) preds

def evaluateAllExcept (scope : Scope) (slot : Nat) (residual : List StepPredicate) (o : OuterRow)
    (r : Row) (skip : Nat) : Bool :=
  evaluateAllExceptFrom scope slot o r skip 0 residual

theorem evaluateAllExceptFrom_of_lt (scope : Scope) (slot : Nat) (o : OuterRow) (r : Row)
    {skip i : Nat} (h : skip < i) (preds : List StepPredicate) :
    evaluateAllExceptFrom scope slot o r skip i preds = evaluateAll scope slot preds o r := by
  induction preds generalizing i with
  | nil => rfl
  | cons pred preds ih =>
    rw [evaluateAllExceptFrom, ih (by omega), evaluateAll, evaluateAll, List.all_cons]
    have hne : (i == skip) = false := by simp; omega
    rw [hne, Bool.false_or]

variable {scope : Scope} {slot : Nat} {pred : StepPredicate} {residual : List StepPredicate}
    {eq : CorrelatedEquality}

theorem evaluateAll_eq_except {skip : Nat} (hpred : residual[skip]? = some pred) (o : OuterRow)
    (r : Row) :
    evaluateAll scope slot residual o r =
      (evaluateAllExcept scope slot residual o r skip && evaluateConjunct scope slot pred o r) := by
  suffices h : ∀ (preds : List StepPredicate) (i j : Nat), skip = i + j → preds[j]? = some pred →
      evaluateAll scope slot preds o r =
        (evaluateAllExceptFrom scope slot o r skip i preds &&
          evaluateConjunct scope slot pred o r) from h residual 0 skip (by omega) hpred
  intro preds
  induction preds with
  | nil => intro i j _ hj; simp at hj
  | cons p preds ih =>
    intro i j hij hj
    rw [evaluateAllExceptFrom]
    cases j with
    | zero =>
      obtain rfl : p = pred := by simpa using hj
      obtain rfl : skip = i := by omega
      rw [evaluateAllExceptFrom_of_lt scope slot o r (Nat.lt_succ_self skip)]
      simp only [evaluateAll, List.all_cons, beq_self_eq_true, Bool.true_or, Bool.true_and]
      exact Bool.and_comm _ _
    | succ j =>
      have hne : (i == skip) = false := by simp; omega
      have hrest := ih (i + 1) j (by omega) (by simpa using hj)
      rw [hne, Bool.false_or, Bool.and_assoc, ← hrest, evaluateAll, evaluateAll, List.all_cons]

-- The build annotation

structure CorrelatedEquality where
  own : ColumnRef
  other : ColumnRef

/-- `CorrelatedEqualityOf`: an equality between an own column and one that is bound before the
    step runs. -/
def correlatedEqualityOf (pred : StepPredicate) (slot : Nat) : Option CorrelatedEquality :=
  if pred.op ≠ .eq then none
  else
    match pred.rhs with
    | .literal _ => none
    | .column rhs =>
      let sides : Option CorrelatedEquality :=
        if pred.lhs.IsOwn slot then some ⟨pred.lhs, rhs⟩
        else if rhs.IsOwn slot then some ⟨rhs, pred.lhs⟩
        else none
      match sides with
      | none => none
      | some eq => if eq.other.up = 0 ∧ slot ≤ eq.other.relSlot then none else some eq

/-- `struct BuildKey`. -/
structure BuildKey where
  colPos : Nat
  keyFrom : ColumnRef
  residualPos : Nat
  deriving DecidableEq

/-- The loop of `BuildKeyOf` from conjunct number `i` on: `seen` is a correlated equality met so
    far, `out` the key it gave.  A second correlated equality declines outright. -/
def buildKeyLoop (scope : Scope) (slot : Nat) :
    Nat → Bool → Option BuildKey → List StepPredicate → Option BuildKey
  | _, _, out, [] => out
  | i, seen, out, pred :: preds =>
    match correlatedEqualityOf pred slot with
    | none => buildKeyLoop scope slot (i + 1) seen out preds
    | some eq =>
      if eq.own.colPos = 0 then buildKeyLoop scope slot (i + 1) seen out preds
      else if seen then none
      else if 0xFFFF < i then none
      else if scope eq.own ≠ scope eq.other then
        buildKeyLoop scope slot (i + 1) true out preds
      else buildKeyLoop scope slot (i + 1) true (some ⟨eq.own.colPos, eq.other, i⟩) preds

def buildKeyOf (scope : Scope) (residual : List StepPredicate) (slot : Nat) : Option BuildKey :=
  buildKeyLoop scope slot 0 false none residual

theorem correlatedEqualityOf_spec (h : correlatedEqualityOf pred slot = some eq) :
    pred.op = .eq ∧ eq.own.IsOwn slot ∧ ¬ eq.other.IsOwn slot ∧
      ((pred.lhs = eq.own ∧ pred.rhs = .column eq.other) ∨
        (pred.lhs = eq.other ∧ pred.rhs = .column eq.own)) := by
  have hop : pred.op = .eq := by
    by_contra hne
    simp [correlatedEqualityOf, hne] at h
  rw [correlatedEqualityOf, if_neg (not_not.mpr hop)] at h
  cases hrhs : pred.rhs with
  | literal v => simp [hrhs] at h
  | column rhs =>
    rw [hrhs] at h
    by_cases hl : pred.lhs.IsOwn slot
    · simp only [hl, if_true] at h
      split_ifs at h with hlate
      cases h
      exact ⟨hop, hl, fun hown => hlate ⟨hown.1, Nat.le_of_eq hown.2.symm⟩, .inl ⟨rfl, rfl⟩⟩
    · by_cases hr : rhs.IsOwn slot
      · simp only [hl, hr, if_true, if_false] at h
        split_ifs at h with hlate
        cases h
        exact ⟨hop, hr, hl, .inr ⟨rfl, rfl⟩⟩
      · simp [hl, hr] at h

/-- What a build key says: the conjunct it names is an equality between the own column it is
    keyed on and the outer column it is probed with. -/
structure BuildKey.Names (key : BuildKey) (residual : List StepPredicate) (slot : Nat) : Prop where
  exists_pred : ∃ pred eq, residual[key.residualPos]? = some pred ∧
    correlatedEqualityOf pred slot = some eq ∧ eq.own.colPos = key.colPos ∧ eq.other = key.keyFrom

theorem buildKeyOf_names {key : BuildKey} (h : buildKeyOf scope residual slot = some key) :
    key.Names residual slot := by
  suffices hloop : ∀ (preds done : List StepPredicate) (seen : Bool) (out : Option BuildKey),
      residual = done ++ preds → (∀ k, out = some k → k.Names residual slot) →
      buildKeyLoop scope slot done.length seen out preds = some key → key.Names residual slot from
    hloop residual [] false none rfl (fun k hk => by cases hk) h
  intro preds
  induction preds with
  | nil =>
    intro done seen out _ hout hrun
    exact hout key hrun
  | cons pred preds ih =>
    intro done seen out hsplit hout hrun
    have hsplit' : residual = (done ++ [pred]) ++ preds := by simp [hsplit]
    have hlen : (done ++ [pred]).length = done.length + 1 := by simp
    rw [buildKeyLoop] at hrun
    split at hrun
    · exact ih (done ++ [pred]) seen out hsplit' hout (hlen ▸ hrun)
    · next eq heq =>
      split_ifs at hrun with hpk hseen hwide hdesc
      · exact ih (done ++ [pred]) seen out hsplit' hout (hlen ▸ hrun)
      · exact ih (done ++ [pred]) true out hsplit' hout (hlen ▸ hrun)
      · refine ih (done ++ [pred]) true _ hsplit' ?_ (hlen ▸ hrun)
        intro k hk
        cases hk
        exact ⟨pred, eq, by simp [hsplit], heq, rfl, rfl⟩

/-- **The keyed conjunct and the map's key agree**: where the conjunct holds, the inner row and
    the outer row have the same, existing, value key. -/
theorem keys_of_keyed (heq : correlatedEqualityOf pred slot = some eq) {o : OuterRow} {r : Row}
    (h : evaluateConjunct scope slot pred o r = true) :
    ∃ k, makeValueKey (r.cell eq.own.colPos).val = some k ∧
      makeValueKey (o eq.other).val = some k := by
  obtain ⟨hop, hown, hother, hsides⟩ := correlatedEqualityOf_spec heq
  have hgetOwn : frameGet slot o r eq.own = r.cell eq.own.colPos := if_pos hown
  have hgetOther : frameGet slot o r eq.other = o eq.other := if_neg hother
  rw [evaluateConjunct, hop] at h
  rcases hsides with ⟨hl, hr⟩ | ⟨hl, hr⟩
  · rw [hl, hr] at h
    dsimp only at h
    rw [hgetOwn, hgetOther] at h
    exact makeValueKey_of_eq (r.cell eq.own.colPos).2 (o eq.other).2 h
  · rw [hl, hr] at h
    dsimp only at h
    rw [hgetOwn, hgetOther] at h
    obtain ⟨k, hk, hk'⟩ := makeValueKey_of_eq (o eq.other).2 (r.cell eq.own.colPos).2 h
    exact ⟨k, hk', hk⟩

end Kds.Exec
