/-
  Kds.Exec.EqualityClasses

  Equality propagation (`PropagateEqualities`, `src/exec/step_compiler.cpp`): columns joined by
  written equalities form classes, and a column without a literal of its own takes the first
  literal written for a column of its class and descriptor.  Values that compare equal under any
  type are the same but for their scale's and digits' form, so a class's columns show the same
  value wherever the written conjuncts hold, and the conjuncts derived hold with them.
-/

import Kds.Exec.ColumnCompare
import Kds.Lib.Classes

namespace Kds.Exec.Codec

open Lib List

-- Propagation

/-- A conjunct of the list, and whether it was derived. -/
structure LoweredPredicate extends StepPredicate where
  derived : Bool := false
  deriving DecidableEq

/-- A written equality of two columns of this chain joins their classes. -/
def noteEquality (classes : List (List ColumnRef)) (pred : StepPredicate) :
    List (List ColumnRef) :=
  if pred.op ≠ .eq then classes
  else
    match pred.rhs with
    | .literal _ => classes
    | .column rhs =>
      if pred.lhs.up ≠ 0 ∨ rhs.up ≠ 0 then classes else joinClasses classes pred.lhs rhs

def equalityClasses (written : List StepPredicate) : List (List ColumnRef) :=
  written.foldl noteEquality []

/-- An equality of a column to a literal. -/
def literalEquality (pred : StepPredicate) : Bool :=
  match pred.rhs with
  | .literal _ => pred.op = .eq
  | .column _ => false

/-- `has_own_literal`. -/
def hasOwnLiteral (written : List StepPredicate) (ref : ColumnRef) : Bool :=
  written.any fun pred => literalEquality pred && decide (pred.lhs = ref)

/-- The conjunct derived for a member of a class: the first literal written for a column of the
    class with the member's descriptor. -/
def derivedFor (scope : Scope) (written : List StepPredicate) (cls : List ColumnRef)
    (member : ColumnRef) : Option StepPredicate :=
  if hasOwnLiteral written member then none
  else
    (written.find? fun pred => literalEquality pred && decide (pred.lhs ∈ cls) &&
      decide (scope member = scope pred.lhs)).map fun pred => ⟨member, .eq, pred.rhs⟩

def derivedPredicates (scope : Scope) (written : List StepPredicate) : List StepPredicate :=
  (equalityClasses written).flatMap fun cls => cls.filterMap (derivedFor scope written cls)

/-- `PropagateEqualities`. -/
def propagateEqualities (scope : Scope) (written : List StepPredicate) : List LoweredPredicate :=
  (written.map fun pred => { pred with derived := false }) ++
    (derivedPredicates scope written).map fun pred => { pred with derived := true }

-- Evaluation

/-- `EvaluateConjunct`, its refusal of an unbound parameter included. -/
def evaluateLowered (scope : Scope) (slot : Nat) (pred : StepPredicate) (o : OuterRow) (r : Row) :
    StatusOr Bool :=
  match pred.rhs with
  | .literal v =>
    if v.type = .param then
      .error (.corruption ("a declared pattern's chain reached execution: parameter '$" ++
        textOf v.strVal ++ "' has no bound value"))
    else .ok (evaluateConjunct scope slot pred o r)
  | .column _ => .ok (evaluateConjunct scope slot pred o r)

/-- `EvaluateAll`: the first false ends it. -/
def evaluateAllLowered (scope : Scope) (slot : Nat) (o : OuterRow) (r : Row) :
    List StepPredicate → StatusOr Bool
  | [] => .ok true
  | pred :: preds => do
    let matched ← evaluateLowered scope slot pred o r
    if matched then evaluateAllLowered scope slot o r preds else .ok false

/-- The rows shown satisfy the conjuncts. -/
def Satisfied (scope : Scope) (slot : Nat) (o : OuterRow) (r : Row) (preds : List StepPredicate) :
    Prop := evaluateAllLowered scope slot o r preds = .ok true

instance (scope : Scope) (slot : Nat) (o : OuterRow) (r : Row) (preds : List StepPredicate) :
    Decidable (Satisfied scope slot o r preds) := by
  unfold Satisfied; infer_instance

section Evaluation

variable {scope : Scope} {slot : Nat} {o : OuterRow} {r : Row} {preds more : List StepPredicate}
  {pred : StepPredicate}

theorem satisfied_iff : Satisfied scope slot o r preds ↔
    ∀ pred ∈ preds, evaluateLowered scope slot pred o r = .ok true := by
  induction preds with
  | nil => simp [Satisfied, evaluateAllLowered]
  | cons pred preds ih =>
    rw [Satisfied, evaluateAllLowered, forall_mem_cons, ← ih, Satisfied]
    cases hpred : evaluateLowered scope slot pred o r with
    | error e => exact ⟨fun h => (by cases h), fun h => (by cases h.1)⟩
    | ok matched => cases matched <;> simp [bind, Except.bind]

theorem compare_of_evaluateLowered (h : evaluateLowered scope slot pred o r = .ok true) :
    evaluateConjunct scope slot pred o r = true := by
  rw [evaluateLowered] at h
  split at h
  · split_ifs at h
    exact Except.ok.inj h
  · exact Except.ok.inj h

end Evaluation

-- Values that compare equal

/-- The same value, but for its digits: what a comparison reads of a value by its kind. -/
structure SameValue (a b : AstValue) : Prop where
  type : a.type = b.type
  field : a.type ≠ .str → a.intVal = b.intVal
  text : a.type = .str → a.strVal = b.strVal
  scale : a.type = .decimal ∨ a.type = .decimalWide → a.scale = b.scale
  high : a.type = .decimalWide → a.decHi = b.decHi

section Same

variable {a b c : AstValue} {typeVal : TypeVal}

theorem SameValue.symm (h : SameValue a b) : SameValue b a :=
  ⟨h.type.symm, fun ht => (h.field (h.type ▸ ht)).symm, fun ht => (h.text (h.type.trans ht)).symm,
    fun ht => (h.scale (h.type ▸ ht)).symm, fun ht => (h.high (h.type.trans ht)).symm⟩

theorem SameValue.trans (hab : SameValue a b) (hbc : SameValue b c) : SameValue a c :=
  ⟨hab.type.trans hbc.type, fun ht => (hab.field ht).trans (hbc.field (hab.type ▸ ht)),
    fun ht => (hab.text ht).trans (hbc.text (hab.type ▸ ht)),
    fun ht => (hab.scale ht).trans (hbc.scale (hab.type ▸ ht)),
    fun ht => (hab.high ht).trans (hbc.high (hab.type ▸ ht))⟩

theorem sameValue_of_eq (ha : AstValue.Decoded a) (hb : AstValue.Decoded b)
    (h : compareValues typeVal a b .eq = true) : SameValue a b := by
  rw [compareValues, if_neg (by decide), if_neg (by decide)] at h
  split_ifs at h with hnull huint hdec hdec' hwide hwide' hint hstr
  · -- as `uint64`s
    split at h
    · rename_i m n hm hn
      obtain rfl : m = n := by simpa [applyCompare] using h
      obtain ⟨hval, hta, htb⟩ := valueAsUint64_inj ha hb hm hn
      refine ⟨hta.trans htb.symm, fun _ => hval, ?_, ?_, ?_⟩ <;> simp [hta]
    · cases h
  · -- decimals
    obtain ⟨htype, hscale⟩ := not_or.mp hdec'
    have hval : a.intVal = b.intVal := by simpa [applyCompare] using h
    have hta : a.type = .decimal := hdec.elim id fun hb' => (not_not.mp htype).trans hb'
    refine ⟨not_not.mp htype, fun _ => hval, ?_, fun _ => not_not.mp hscale, ?_⟩ <;> simp [hta]
  · -- wide decimals
    obtain ⟨htype, hscale⟩ := not_or.mp hwide'
    have hval : int128FromHalves a.decHi a.intVal = int128FromHalves b.decHi b.intVal := by
      simpa [applyCompare] using h
    obtain ⟨hhi, hlo⟩ := int128FromHalves_inj ha.intRange hb.intRange hval
    have hta : a.type = .decimalWide := hwide.elim id fun hb' => (not_not.mp htype).trans hb'
    refine ⟨not_not.mp htype, fun _ => hlo, ?_, fun _ => not_not.mp hscale, fun _ => hhi⟩
    simp [hta]
  · -- integers
    have hval : a.intVal = b.intVal := by simpa [applyCompare] using h
    refine ⟨hint.1.trans hint.2.symm, fun _ => hval, ?_, ?_, ?_⟩ <;> simp [hint.1]
  · -- texts
    have hval : a.strVal = b.strVal := by simpa [applyCompare] using h
    refine ⟨hstr.1.trans hstr.2.symm, ?_, fun _ => hval, ?_, ?_⟩ <;> simp [hstr.1]

theorem SameValue.compareValues_eq (h : SameValue a b)
    (huint : typeVal = typeValUint64 → valueAsUint64 a = valueAsUint64 b) (c : AstValue)
    (op : CompareOp) : compareValues typeVal a c op = compareValues typeVal b c op := by
  have htype := h.type
  rw [compareValues, compareValues, ← htype]
  by_cases hu : typeVal = typeValUint64
  · rw [if_pos hu, if_pos hu, huint hu]
  · rw [if_neg hu, if_neg hu]
    cases hta : a.type with
    | null => simp
    | param => cases hc : c.type <;> simp
    | int => cases hc : c.type <;> simp [h.field (by rw [hta]; decide)]
    | str => cases hc : c.type <;> simp [h.text hta]
    | decimal => simp [h.field (by rw [hta]; decide), h.scale (Or.inl hta)]
    | decimalWide => simp [h.field (by rw [hta]; decide), h.scale (Or.inr hta), h.high hta]

end Same

section Columns

variable {lits : TypeLiterals} {inlineCellWidth : Nat} {col col' : SysColumnRow} {v w : Cell}

theorem valueAsUint64_of_same (hv : ColumnValue lits inlineCellWidth col v)
    (hw : ColumnValue lits inlineCellWidth col' w) (hcol : col.typeVal = typeValUint64)
    (hcol' : col'.typeVal = typeValUint64) (hsame : SameValue v.val w.val) :
    valueAsUint64 v.val = valueAsUint64 w.val := by
  by_cases htype : v.val.type = .int
  · obtain ⟨x, hx⟩ := Option.ne_none_iff_exists'.mp fun hnone => hv.type_ne_int hnone htype
    obtain ⟨y, hy⟩ := Option.ne_none_iff_exists'.mp fun hnone =>
      hw.type_ne_int hnone (hsame.type ▸ htype)
    have hrx := hv.readsAs hx
    have hry := hw.readsAs hy
    have hfield := hsame.field (by rw [htype]; decide)
    rw [hrx.field, hry.field, signedField, signedField] at hfield
    have hpos : ∀ {col : SysColumnRow} {u : AstValue} {z : Int}, col.typeVal = typeValUint64 →
        u.type = .int → storedNumber col u = some z → 0 ≤ z := by
      intro col u z hcol hu hz
      rw [storedNumber, if_neg (not_not.mpr hu), if_pos hcol] at hz
      obtain ⟨n, -, rfl⟩ := Option.map_eq_some_iff.mp hz
      exact Int.natCast_nonneg n
    have hx0 := hpos hcol hrx.type hx
    have hy0 := hpos hcol' hry.type hy
    have hxr := hrx.range
    have hyr := hry.range
    have hxy : x = y := by
      split_ifs at hfield <;> omega
    rw [hrx.unsigned, hry.unsigned, hxy]
  · rw [valueAsUint64, if_pos htype, valueAsUint64, if_pos (hsame.type ▸ htype)]

end Columns

-- Classes of columns

section Propagation

variable {columns : ColumnRef → SysColumnRow} {slot : Nat} {o : OuterRow} {r : Row}
  {written : List StepPredicate} {lits : TypeLiterals} {inlineCellWidth : Nat}
    {pred : StepPredicate} {scope : Scope} {cls : List ColumnRef}

/-- The columns show the same value. -/
def Shown (slot : Nat) (o : OuterRow) (r : Row) (a b : ColumnRef) : Prop :=
  SameValue (frameGet slot o r a).val (frameGet slot o r b).val

theorem shown_of_holds {rhs : ColumnRef} (hop : pred.op = .eq) (hrhs : pred.rhs = .column rhs)
    (h : evaluateLowered scope slot pred o r = .ok true) : Shown slot o r pred.lhs rhs := by
  have hholds := compare_of_evaluateLowered h
  rw [evaluateConjunct, hop, hrhs] at hholds
  exact sameValue_of_eq (frameGet slot o r pred.lhs).property (frameGet slot o r rhs).property
    hholds

/-- **Where the written conjuncts hold, a class's columns show the same value**: by induction on
    the conjuncts noted. -/
theorem classed_equalityClasses {R : ColumnRef → ColumnRef → Prop}
    (htrans : ∀ u v w, R u v → R v w → R u w) (hsymm : ∀ u v, R u v → R v u)
    (hholds : ∀ pred ∈ written, ∀ rhs, pred.op = .eq → pred.rhs = .column rhs →
      pred.lhs.up = 0 → rhs.up = 0 → R pred.lhs rhs) : Classed R (equalityClasses written) := by
  suffices h : ∀ (preds : List StepPredicate) (classes : List (List ColumnRef)),
      (∀ pred ∈ preds, ∀ rhs, pred.op = .eq → pred.rhs = .column rhs → pred.lhs.up = 0 →
        rhs.up = 0 → R pred.lhs rhs) → Classed R classes →
      Classed R (preds.foldl noteEquality classes) from
    h written [] hholds classed_nil
  intro preds
  induction preds with
  | nil => exact fun _ _ hclassed => hclassed
  | cons pred preds ih =>
    intro classes hpreds hclassed
    rw [foldl_cons]
    apply ih _ fun p hp => hpreds p (mem_cons_of_mem _ hp)
    rw [noteEquality]
    split_ifs with hop
    · exact hclassed
    · split
      · exact hclassed
      · rename_i rhs hrhs
        split_ifs with hup
        · exact hclassed
        · rw [not_or, not_not, not_not] at hup
          exact hclassed.joinClasses htrans hsymm
            (hpreds pred mem_cons_self rhs (not_not.mp hop) hrhs hup.1 hup.2)

theorem up_of_mem_class (hcls : cls ∈ equalityClasses written) {ref : ColumnRef}
    (href : ref ∈ cls) : ref.up = 0 := by
  have hclassed : Classed (fun u v : ColumnRef => u.up = 0 ∧ v.up = 0) (equalityClasses written) :=
    classed_equalityClasses (fun _ _ _ h h' => ⟨h.1, h'.2⟩) (fun _ _ h => ⟨h.2, h.1⟩)
      fun _ _ _ _ _ hup hup' => ⟨hup, hup'⟩
  exact (hclassed.related cls hcls ref href ref href).1

theorem derivedFor_eq_some {member : ColumnRef}
    (h : derivedFor scope written cls member = some pred) :
    hasOwnLiteral written member = false ∧ ∃ source ∈ written, literalEquality source = true ∧
      source.lhs ∈ cls ∧ scope member = scope source.lhs ∧ pred = ⟨member, .eq, source.rhs⟩ := by
  rw [derivedFor] at h
  split_ifs at h with hown
  obtain ⟨source, hfind, rfl⟩ := Option.map_eq_some_iff.mp h
  have hsource := List.find?_some hfind
  simp only [Bool.and_eq_true, decide_eq_true_eq] at hsource
  exact ⟨Bool.eq_false_iff.mpr hown, source, mem_of_find?_eq_some hfind, hsource.1.1,
    hsource.1.2, hsource.2, rfl⟩

theorem nodup_derived (scope : Scope) (written : List StepPredicate) :
    ((derivedPredicates scope written).map StepPredicate.lhs).Nodup := by
  have hclassed : Classed (fun _ _ => True) (equalityClasses written) :=
    classed_equalityClasses (fun _ _ _ _ _ => trivial) (fun _ _ _ => trivial)
      fun _ _ _ _ _ _ _ => trivial
  have hlhs : ∀ cls : List ColumnRef, ((cls.filterMap (derivedFor scope written cls)).map
      StepPredicate.lhs).Sublist cls := by
    intro cls
    have hgeneral : ∀ members : List ColumnRef,
        ((members.filterMap (derivedFor scope written cls)).map StepPredicate.lhs).Sublist
          members := by
      intro members
      induction members with
      | nil => exact List.Sublist.refl _
      | cons member members ih =>
        rw [filterMap_cons]
        split
        · exact ih.cons member
        · rename_i pred hpred
          obtain ⟨-, source, -, -, -, -, rfl⟩ := derivedFor_eq_some hpred
          exact ih.cons_cons member
    exact hgeneral cls
  have hsub : ((derivedPredicates scope written).map StepPredicate.lhs).Sublist
      (equalityClasses written).flatten := by
    rw [derivedPredicates, map_flatMap]
    induction equalityClasses written with
    | nil => exact List.Sublist.refl _
    | cons cls classes ih =>
      rw [flatMap_cons, flatten_cons]
      exact (hlhs cls).append ih
  exact hclassed.nodup_flatten.sublist hsub

theorem derived_holds (hcolumns : ∀ ref, ColumnValue lits inlineCellWidth (columns ref)
      (frameGet slot o r ref)) (hwritten : Satisfied (scopeOf columns) slot o r written)
    (hpred : pred ∈ derivedPredicates (scopeOf columns) written) :
    evaluateLowered (scopeOf columns) slot pred o r = .ok true := by
  have hall := satisfied_iff.mp hwritten
  have hclassed : Classed (Shown slot o r) (equalityClasses written) :=
    classed_equalityClasses (fun _ _ _ h h' => h.trans h') (fun _ _ h => h.symm)
      fun p hp rhs hop hrhs _ _ => shown_of_holds hop hrhs (hall p hp)
  obtain ⟨cls, hcls, hin⟩ := mem_flatMap.mp hpred
  obtain ⟨member, hmember, hderived⟩ := mem_filterMap.mp hin
  obtain ⟨-, source, hsource, hliteral, hlhs, hdesc, rfl⟩ := derivedFor_eq_some hderived
  have hshown := hclassed.related cls hcls member hmember source.lhs hlhs
  have hholds := hall source hsource
  rw [literalEquality] at hliteral
  split at hliteral
  · rename_i v hrhs
    have hop : source.op = .eq := of_decide_eq_true hliteral
    have htypes : (columns member).typeVal = (columns source.lhs).typeVal :=
      congrArg ColumnDesc.typeVal hdesc
    have hsource' := compare_of_evaluateLowered hholds
    rw [evaluateConjunct, hop, hrhs, if_pos (up_of_mem_class hcls hlhs)] at hsource'
    rw [evaluateLowered, hrhs] at hholds ⊢
    dsimp only at hholds ⊢
    split_ifs at hholds with hparam
    rw [if_neg hparam, evaluateConjunct, if_pos (up_of_mem_class hcls hmember)]
    refine congrArg Except.ok ?_
    show compareValues (columns member).typeVal (frameGet slot o r member).val v .eq = true
    rw [htypes, SameValue.compareValues_eq hshown fun hu => ?_]
    · exact hsource'
    · exact valueAsUint64_of_same (hcolumns member) (hcolumns source.lhs) (htypes.trans hu) hu
        hshown
  · cases hliteral

/-- The conjuncts of a list, as they are evaluated. -/
def conjuncts (preds : List LoweredPredicate) : List StepPredicate :=
  preds.map LoweredPredicate.toStepPredicate

theorem conjuncts_propagateEqualities (scope : Scope) (written : List StepPredicate) :
    conjuncts (propagateEqualities scope written) =
      written ++ derivedPredicates scope written := by
  simp [conjuncts, propagateEqualities, Function.comp_def]

/-- The columns of the derived conjuncts. -/
def derivedColumns (preds : List LoweredPredicate) : List ColumnRef :=
  (preds.filter LoweredPredicate.derived).map fun pred => pred.lhs

theorem derivedColumns_propagateEqualities (scope : Scope) (written : List StepPredicate) :
    derivedColumns (propagateEqualities scope written) =
      (derivedPredicates scope written).map StepPredicate.lhs := by
  rw [derivedColumns, propagateEqualities, filter_append, filter_map, filter_map]
  simp [Function.comp_def]

/-- **Equality propagation preserves meaning.**  Whatever a chain's relations show, of any column
    types and with NULLs, the list propagated is satisfied exactly where the written list is, in
    whatever order its conjuncts are tested; it derives at most one conjunct for a column, and none
    for a column with a literal of its own. -/
theorem propagateEqualities_sound (lits : TypeLiterals) (inlineCellWidth : Nat)
    (columns : ColumnRef → SysColumnRow) (written : List StepPredicate) :
    (∀ (slot : Nat) (o : OuterRow) (r : Row),
      (∀ ref, ColumnValue lits inlineCellWidth (columns ref) (frameGet slot o r ref)) →
      ∀ preds : List StepPredicate,
        preds.Perm (conjuncts (propagateEqualities (scopeOf columns) written)) →
        (Satisfied (scopeOf columns) slot o r preds ↔
          Satisfied (scopeOf columns) slot o r written)) ∧
      (derivedColumns (propagateEqualities (scopeOf columns) written)).Nodup ∧
      ∀ ref ∈ derivedColumns (propagateEqualities (scopeOf columns) written),
        hasOwnLiteral written ref = false := by
  refine ⟨?_, ?_, ?_⟩
  · intro slot o r hcolumns preds hperm
    rw [conjuncts_propagateEqualities] at hperm
    constructor
    · intro h
      rw [satisfied_iff] at h ⊢
      exact fun pred hpred => h pred (hperm.mem_iff.mpr (mem_append_left _ hpred))
    · intro h
      rw [satisfied_iff]
      intro pred hpred
      rcases mem_append.mp (hperm.mem_iff.mp hpred) with hold | hnew
      · exact satisfied_iff.mp h pred hold
      · exact derived_holds hcolumns h hnew
  · rw [derivedColumns_propagateEqualities]
    exact nodup_derived _ written
  · rw [derivedColumns_propagateEqualities]
    intro ref href
    obtain ⟨pred, hpred, rfl⟩ := mem_map.mp href
    obtain ⟨cls, -, hin⟩ := mem_flatMap.mp hpred
    obtain ⟨member, -, hderived⟩ := mem_filterMap.mp hin
    obtain ⟨hown, source, -, -, -, -, rfl⟩ := derivedFor_eq_some hderived
    exact hown

end Propagation

/-- `x.a = y.a AND x.a = 5`, of two relations. -/
def joinOnFive : List StepPredicate :=
  [⟨⟨0, 0, 1⟩, .eq, .column ⟨0, 1, 1⟩⟩, ⟨⟨0, 0, 1⟩, .eq, .literal (.ofInt 5)⟩]

/-- `y.a = 5` is derived, and it holds with the others, in another order. -/
theorem propagateEqualities_sound_five :
    derivedColumns (propagateEqualities (scopeOf signedAndUnsigned) joinOnFive) = [⟨0, 1, 1⟩] ∧
      Satisfied (scopeOf signedAndUnsigned) 1 (fun ref => (numberRow 5 5).cell ref.colPos)
        (numberRow 5 5)
        (conjuncts (propagateEqualities (scopeOf signedAndUnsigned) joinOnFive)).reverse := by
  refine ⟨by decide +kernel, ?_⟩
  refine ((propagateEqualities_sound noTexts 64 signedAndUnsigned joinOnFive).1 1 _ _ (fun ref =>
    ?_) _ (reverse_perm _)).mpr (by decide +kernel)
  rw [frameGet]
  split_ifs
  · exact fives_stored ref
  · exact fives_stored ref

end Kds.Exec.Codec
