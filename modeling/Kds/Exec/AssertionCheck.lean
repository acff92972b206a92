/-
  Kds.Exec.AssertionCheck

  The write hook of assertion enforcement (`src/exec/assertion_check.cpp`): the registry of
  live assertions and, per transaction, the reservations it holds.

  * `admitInsert` compares every assertion on the relation, changing nothing;
  * `reserveInsert`, `admitAndReserveUpdate` and `reserveDelete` append entries and move the
    group headers, assertion by assertion, stopping at the first refusal with what was
    already reserved left in place;
  * `commitTxn` forgets a transaction's reservations, `abortTxn` reverses them, newest first.

  Left out: the entry pages and the log records (`chain.Append` is the parameter `chainAppend`,
  which answers the place of the n-th entry appended, or its error) and the counters that only
  SHOW ASSERTIONS prints.  The text of a value in a refusal is the parameter `formatValue`.
-/

import Kds.Exec.BoundCabin
import Mathlib.Data.List.Forall2

namespace Kds.Exec

abbrev TxnId := Nat
abbrev Oid := Nat

-- Declarations

/-- What `LiveAssertion` carries besides the directory: the published declaration. -/
structure AssertionDecl where
  assertionId : Nat
  targetOid : Oid
  name : String
  aggregate : BoundAggregate
  bound : Int
  groupCols : List Nat
  sumCol : Nat := 0
  sumColName : String := ""
  groupColNames : List String := []
  groupTypeVals : List Nat := []
  deriving DecidableEq

structure LiveAssertion where
  decl : AssertionDecl
  cabin : BoundCabin
  deriving DecidableEq

/-- Schema position to the caller's value: INSERT hands the columns after the pk
    (`firstColPos` 1), UPDATE and DELETE the decoded row (`firstColPos` 0). -/
def valueAt (values : List AstValue) (firstColPos schemaPos : Nat) : AstValue :=
  values.getD (schemaPos - firstColPos) .null

namespace AssertionDecl

def keyFor (d : AssertionDecl) (values : List AstValue) (firstColPos : Nat) : List UInt8 :=
  encodeGroupKey (d.groupCols.map (valueAt values firstColPos))

def contributionOf (d : AssertionDecl) (values : List AstValue) (firstColPos : Nat) : Int :=
  match d.aggregate with
  | .count => 1
  | .sum => sumContribution (valueAt values firstColPos d.sumCol)

/-- The columns the declaration reads lie past the pk.  INSERT's VALUES list does not hold the
    pk, and the source reads before the list's start for a declaration that names it. -/
def PastPk (d : AssertionDecl) : Prop :=
  (∀ c ∈ d.groupCols, 1 ≤ c) ∧ (d.aggregate = .sum → 1 ≤ d.sumCol)

instance (d : AssertionDecl) : Decidable d.PastPk := by unfold PastPk; infer_instance

/-- A row without its primary key, read one column on, makes the same group key. -/
theorem keyFor_tail {d : AssertionDecl} (h : d.PastPk) (row : List AstValue) :
    d.keyFor row.tail 1 = d.keyFor row 0 := by
  unfold keyFor
  congr 1
  refine List.map_congr_left fun c hc => ?_
  have hpos := h.1 c hc
  obtain ⟨n, rfl⟩ : ∃ n, c = n + 1 := ⟨c - 1, by omega⟩
  cases row <;> simp [valueAt]

/-- And the same contribution. -/
theorem contributionOf_tail {d : AssertionDecl} (h : d.PastPk) (row : List AstValue) :
    d.contributionOf row.tail 1 = d.contributionOf row 0 := by
  unfold contributionOf
  cases hagg : d.aggregate with
  | count => rfl
  | sum =>
    obtain ⟨n, hn⟩ : ∃ n, d.sumCol = n + 1 := ⟨d.sumCol - 1, by have := h.2 hagg; omega⟩
    cases row <;> simp [valueAt, hn]

end AssertionDecl

-- Reservations

/-- One applied reservation, remembered so commit and abort can find it. -/
structure Reservation where
  assertionId : Nat
  key : List UInt8
  departure : Bool
  value : Int
  loc : EntryAt
  deriving DecidableEq

/-- What a statement's reservations move besides the assertion's own directory: the writing
    transaction's pending list and the number of entries appended so far. -/
structure Reserving where
  pending : List Reservation
  appended : Nat

/-- The outcome of a step that may stop halfway: what it left behind, and the error if any. -/
abbrev Outcome (α : Type) := α × Option Status

section Enforcer

variable (chainAppend : Nat → StatusOr EntryAt) (formatValue : Nat → AstValue → String)

/-- `Refuse`: the violation, naming the assertion, the group and the bound. -/
def refuse (d : AssertionDecl) (values : List AstValue) (firstColPos : Nat) : Status :=
  let parts := d.groupCols.zipIdx.map fun (col, i) =>
    d.groupColNames.getD i "" ++ "=" ++
      formatValue (d.groupTypeVals.getD i 0) (valueAt values firstColPos col)
  let subject := match d.aggregate with
    | .count => "COUNT(*)"
    | .sum => "SUM(" ++ d.sumColName ++ ")"
  .assertionViolation ("assertion \"" ++ d.name ++ "\" group (" ++ ", ".intercalate parts ++
    "): " ++ subject ++ " would exceed bound " ++ toString d.bound)

/-- The admission check of one assertion: an overflow or a refusal is an error. -/
def LiveAssertion.check (a : LiveAssertion) (key : List UInt8) (delta : Int)
    (values : List AstValue) (firstColPos : Nat) : Option Status :=
  match a.cabin.admitDelta a.decl.aggregate a.decl.bound key delta with
  | .error e => some e
  | .ok r => if r.admitted then none else some (refuse formatValue a.decl values firstColPos)

/-- `ReserveOne`: append the entry, move the header, remember the reservation. -/
def reserveOne (key : List UInt8) (departure : Bool) (value : Int) (a : LiveAssertion)
    (st : Reserving) : Outcome (LiveAssertion × Reserving) :=
  -- the entry carries its group's id, so an arrival's group is born before the append
  let a₁ := if departure then a else { a with cabin := a.cabin.ensureGroup key }
  let st₁ := { st with appended := st.appended + 1 }
  match chainAppend st.appended with
  | .error e => ((a₁, st₁), some e)
  | .ok loc =>
    match if departure then a₁.cabin.applyDeparture key value loc
          else a₁.cabin.apply key value loc with
    | .error e => ((a₁, st₁), some e)
    | .ok cabin =>
      let r : Reservation := ⟨a.decl.assertionId, key, departure, value, loc⟩
      (({ a with cabin := cabin }, { st₁ with pending := st.pending ++ [r] }), none)

/-- The loop over the assertions on `oid`, in order, stopping at the first error. -/
def forEachOn (oid : Oid)
    (body : LiveAssertion → Reserving → Outcome (LiveAssertion × Reserving)) :
    List LiveAssertion → Reserving → Outcome (List LiveAssertion × Reserving)
  | [], st => (([], st), none)
  | a :: rest, st =>
    if a.decl.targetOid = oid then
      match body a st with
      | ((a', st'), some e) => ((a' :: rest, st'), some e)
      | ((a', st'), none) =>
        let r := forEachOn oid body rest st'
        ((a' :: r.1.1, r.1.2), r.2)
    else
      let r := forEachOn oid body rest st
      ((a :: r.1.1, r.1.2), r.2)

/-- `AdmitInsert`: every assertion on the relation is checked, nothing moves. -/
def admitInsert (oid : Oid) (values : List AstValue) : List LiveAssertion → Option Status
  | [] => none
  | a :: rest =>
    if a.decl.targetOid = oid then
      match a.check formatValue (a.decl.keyFor values 1) (a.decl.contributionOf values 1)
          values 1 with
      | some e => some e
      | none => admitInsert oid values rest
    else admitInsert oid values rest

/-- `ReserveInsert`: the arrival entry of every assertion on the relation. -/
def reserveInsert (oid : Oid) (values : List AstValue) :
    List LiveAssertion → Reserving → Outcome (List LiveAssertion × Reserving) :=
  forEachOn oid fun a =>
    reserveOne chainAppend (a.decl.keyFor values 1) false (a.decl.contributionOf values 1) a

/-- Departure, then arrival: the mutation an UPDATE makes once it was admitted. -/
def reserveMove (oldKey newKey : List UInt8) (oldContrib newContrib : Int) (a : LiveAssertion)
    (st : Reserving) : Outcome (LiveAssertion × Reserving) :=
  match reserveOne chainAppend oldKey true oldContrib a st with
  | (left, some e) => (left, some e)
  | (left, none) => reserveOne chainAppend newKey false newContrib left.1 left.2

/-- One assertion's part of `AdmitAndReserveUpdate`. -/
def updateOne (oldRow newRow : List AstValue) (a : LiveAssertion) (st : Reserving) :
    Outcome (LiveAssertion × Reserving) :=
  let oldKey := a.decl.keyFor oldRow 0
  let newKey := a.decl.keyFor newRow 0
  let oldContrib := a.decl.contributionOf oldRow 0
  let newContrib := a.decl.contributionOf newRow 0
  if oldKey = newKey then
    if oldContrib = newContrib then ((a, st), none)
    else
      match checkedAdd newContrib (-oldContrib) with
      | none => ((a, st), some (.outOfRange
          ("assertion \"" ++ a.decl.name ++ "\": SUM delta overflows int64")))
      | some delta =>
        match if 0 < delta then a.check formatValue newKey delta newRow 0 else none with
        | some e => ((a, st), some e)
        | none => reserveMove chainAppend oldKey newKey oldContrib newContrib a st
  else
    match a.check formatValue newKey newContrib newRow 0 with
    | some e => ((a, st), some e)
    | none => reserveMove chainAppend oldKey newKey oldContrib newContrib a st

/-- `AdmitAndReserveUpdate`. -/
def admitAndReserveUpdate (oid : Oid) (oldRow newRow : List AstValue) :
    List LiveAssertion → Reserving → Outcome (List LiveAssertion × Reserving) :=
  forEachOn oid (updateOne chainAppend formatValue oldRow newRow)

/-- `ReserveDelete`: the departure entry of every assertion on the relation, unchecked. -/
def reserveDelete (oid : Oid) (oldRow : List AstValue) :
    List LiveAssertion → Reserving → Outcome (List LiveAssertion × Reserving) :=
  forEachOn oid fun a =>
    reserveOne chainAppend (a.decl.keyFor oldRow 0) true (a.decl.contributionOf oldRow 0) a

end Enforcer

/-- Reverse one reservation in its assertion's directory. -/
def unreserve (r : Reservation) (c : BoundCabin) : StatusOr BoundCabin :=
  if r.departure then c.unapplyDeparture r.key r.value r.loc else c.unapply r.key r.value r.loc

/-- Reverse one reservation wherever its assertion is held; one that was dropped is skipped. -/
def unreserveIn (r : Reservation) : List LiveAssertion → StatusOr (List LiveAssertion)
  | [] => .ok []
  | a :: rest =>
    if a.decl.assertionId = r.assertionId then
      match unreserve r a.cabin with
      | .error e => .error e
      | .ok cabin => .ok ({ a with cabin := cabin } :: rest)
    else
      match unreserveIn r rest with
      | .error e => .error e
      | .ok rest' => .ok (a :: rest')

/-- `AbortTxn`'s loop over the reservations already put in reverse order: it stops at the first
    error with what was reversed so far. -/
def abortTxn : List Reservation → List LiveAssertion → Outcome (List LiveAssertion)
  | [], live => (live, none)
  | r :: rest, live =>
    match unreserveIn r live with
    | .error e => (live, some e)
    | .ok live' => abortTxn rest live'

end Kds.Exec
