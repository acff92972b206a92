/-
  Kds.Server.FkWrites

  The writes a foreign key guards (`InsertOneRow`, `SortedFillInner`, `UpdateInner`, `DeleteInner`,
  `src/server/command_dispatcher.cpp`), each with the check that comes before it, and the core they
  run on: transactions begin, write rows one at a time, commit and roll back in any order, and
  Cabins observe values in between.

  A row's write is one step.  A statement is the steps of its rows, and one that fails half-way is
  the steps it took: the check view a statement mints once is the view each of its rows would
  mint, since nothing begins or ends while it runs.  Two things can stop in the middle of a row: an
  INSERT that has placed its tuple and not yet its trail entry, and a compensation of a rollback.
-/

import Kds.Exec.FkCheck
import Kds.Txn.Manager

namespace Kds.Server

open Exec Txn

/-- A core: its transactions, its rows, the rows each transaction has written (newest first), and
    what the Cabins have observed. -/
structure FkState where
  manager : TransactionManager
  tables : Tables
  trail : Nat → List (Nat × Nat)
  observed : Observed

/-- A database before its first row. -/
def FkState.empty : FkState where
  manager := { nextId := alwaysVisibleTrxId + 1 }
  tables := { rows := fun _ _ => [], walk := fun _ => [] }
  trail := fun _ => []
  observed := fun _ _ _ => none

/-- A literal as the parser hands it over: its signed field is the wrapped value of its digits. -/
structure Literal where
  value : AstValue
  range : -2 ^ 63 ≤ value.intVal ∧ value.intVal < 2 ^ 63
  digits : ∀ n, parseUint64Text value.rawIntText = some n →
    value.intVal = if n < 2 ^ 63 then (n : Int) else n - 2 ^ 64

/-- One assignment of a SET list. -/
structure Assignment where
  colName : String
  val : Literal

-- The checks of a statement

def relationNameOf (cat : Catalog) (oid : Nat) : String :=
  match cat.tables oid with
  | some access => access.name
  | none => ""

def columnNameOf (access : TableAccess) (columnNo : Nat) : String :=
  match access.columns[columnNo]? with
  | some column => column.name
  | none => toString columnNo

/-- `CheckForeignKeyOnWrite`: a value that is no id is left to the codec. -/
def checkForeignKeyOnWrite (cat : Catalog) (db : Tables) (child : TableAccess) (fk : ForeignKey)
    (value : AstValue) (view : ReadView) : StatusOr Unit :=
  if value.type ≠ .int ∨ value.intVal < 0 then .ok ()
  else do
    let parent ← cat.initTableAccess fk.parentOid
    match checkParentPresent db parent fk.parentOid value.intVal.toNat view with
    | .pass => .ok ()
    | .busy => .error (.txnConflict ("row id=" ++ toString value.intVal ++ " of '" ++
        relationNameOf cat fk.parentOid ++
        "' is being written by another transaction, so the foreign key on '" ++
        columnNameOf child fk.columnNo ++ "' cannot be checked yet"))
    | .violation => .error (.fkViolation ("'" ++ columnNameOf child fk.columnNo ++
        "' references row id=" ++ toString value.intVal ++ " of '" ++
        relationNameOf cat fk.parentOid ++ "', which does not exist"))

/-- `CheckNoChildrenBeforeDelete`: each relation that may name the row, in turn. -/
def checkNoChildrenBeforeDelete (cat : Catalog) (db : Tables) (parentPk : Nat) (view : ReadView)
    (hintOk : Nat → Bool) : List ForeignKey → Observed → StatusOr Observed
  | [], observed => .ok observed
  | fk :: rest, observed => do
    let child ← cat.initTableAccess fk.childOid
    let outcome ← checkNoChildReferences db observed child fk.childOid fk.columnNo parentPk view
      hintOk
    match outcome.verdict with
    | .pass => checkNoChildrenBeforeDelete cat db parentPk view hintOk rest outcome.observed
    | .busy => .error (.txnConflict ("a row of '" ++ relationNameOf cat fk.childOid ++
        "' referencing id=" ++ toString parentPk ++
        " is being written by another transaction"))
    | .violation => .error (.fkViolation ("row id=" ++ toString parentPk ++
        " is still referenced by '" ++ relationNameOf cat fk.childOid ++ "." ++
        columnNameOf child fk.columnNo ++ "'"))

/-- The forward checks of a row to insert; VALUES has the columns after the key. -/
def checkInsert (cat : Catalog) (db : Tables) (access : TableAccess) (oid : Nat)
    (body : List AstValue) (view : ReadView) : StatusOr Unit :=
  (cat.fkeysOut oid).forM fun fk =>
    match if fk.columnNo = 0 then none else body[fk.columnNo - 1]? with
    | none => .ok ()
    | some value => checkForeignKeyOnWrite cat db access fk value view

/-- The first value a SET list gives a column, by name. -/
def firstAssigned (access : TableAccess) (assignments : List Assignment) (columnNo : Nat) :
    Option AstValue :=
  match access.columns[columnNo]? with
  | none => none
  | some column => (assignments.find? (·.colName = column.name)).map (·.val.value)

/-- The forward checks of a row to update: each foreign key whose column is assigned, with the
    first value assigned to it. -/
def checkUpdate (cat : Catalog) (db : Tables) (access : TableAccess) (oid : Nat)
    (assignments : List Assignment) (view : ReadView) : StatusOr Unit :=
  (cat.fkeysOut oid).forM fun fk =>
    match firstAssigned access assignments fk.columnNo with
    | none => .ok ()
    | some value => checkForeignKeyOnWrite cat db access fk value view

/-- `CompileAssignments`. -/
def compileAssignments (access : TableAccess) (assignments : List Assignment) : StatusOr Unit :=
  assignments.forM fun a =>
    if !access.columns.any (·.name = a.colName) then
      .error (.invalidArgument ("unknown column '" ++ a.colName ++ "'"))
    else if (access.columns.head?.map (·.name)) = some a.colName then
      .error (.unsupported ("primary-key column '" ++ a.colName ++
        "' cannot be updated; it is the tuple's identity, not a field of it"))
    else .ok ()

/-- The SET list over a decoded row: one assignment after the other. -/
def applyAssignments (access : TableAccess) (assignments : List Assignment)
    (row : List AstValue) : List AstValue :=
  assignments.foldl (fun row a =>
    match access.columns.findIdx? (·.name = a.colName) with
    | some c => row.set c a.val.value
    | none => row) row

-- The writes

/-- Whether a write changed a column's value; an INSERT has no value before it. -/
def valueMoved (column : Column) (previous : Option AstValue) (v : AstValue) : Bool :=
  match previous with
  | some before => !compareValues column.type.typeVal before v .eq
  | none => true

/-- `NoteCabinWrite`: the key joins the set of each value it now has, unless the column's value
    did not move; a set at its cap is un-observed. -/
def noteCabinWrite (cat : Catalog) (access : TableAccess) (oid pk : Nat)
    (values previous : List AstValue) (observed : Observed) : Observed :=
  fun oid' columnNo value =>
    let moved :=
      match access.columns[columnNo]?, values[columnNo]? with
      | some column, some v =>
        access.cabined columnNo && columnNo != 0 &&
          valueMoved column previous[columnNo]? v &&
          decide (v.type = .int ∧ v.intVal = value)
      | _, _ => false
    if oid' = oid ∧ moved = true then
      (observed oid' columnNo value).bind fun entries =>
        if cat.maxEntriesPerValue ≤ entries.length then none else some (entries ++ [pk])
    else observed oid' columnNo value

def setRow (db : Tables) (oid pk : Nat) (versions : List RowVersion) : Tables :=
  { db with rows := fun oid' pk' =>
      if oid' = oid ∧ pk' = pk then versions else db.rows oid' pk' }

def setWalk (db : Tables) (oid : Nat) (walk : List Nat) : Tables :=
  { db with walk := fun oid' => if oid' = oid then walk else db.walk oid' }

def noteWrite (trail : Nat → List (Nat × Nat)) (id oid pk : Nat) : Nat → List (Nat × Nat) :=
  fun id' => if id' = id then (oid, pk) :: trail id' else trail id'

/-- Where a walk meets a new row is the storage's choice: a leaf division may reorder the rest. -/
def placedWalk (db : Tables) (oid pk : Nat) (walk : List Nat) : Bool :=
  walk.all (fun k => k == pk || (db.walk oid).contains k) && walk.contains pk &&
    (db.walk oid).all walk.contains

/-- A row of a statement: its key, the columns after it, and the walk with it in place. -/
structure NewRow where
  pk : Nat
  body : List Literal
  walk : List Nat

def NewRow.values (row : NewRow) : List AstValue := row.body.map (·.value)

/-- The placement of an encoded row. -/
def placeRow (s : FkState) (id oid pk : Nat) (values : List AstValue) (walk : List Nat) :
    StatusOr FkState :=
  if !(s.tables.rows oid pk).isEmpty then
    .error ⟨.alreadyExists, "duplicate primary key " ++ toString pk ++ " already present"⟩
  else if !placedWalk s.tables oid pk walk then
    .error (.corruption "the walk does not reach the row")
  else
    .ok { s with
      tables := setWalk (setRow s.tables oid pk [{ trxId := id, values := values }]) oid walk
      trail := noteWrite s.trail id oid pk }

/-- `InsertOneRow`, from the forward check on. -/
def insertOneRow (cat : Catalog) (s : FkState) (txn : Transaction) (access : TableAccess)
    (oid : Nat) (row : NewRow) : StatusOr FkState := do
  let view ← s.manager.mintReadView txn.id
  checkInsert cat s.tables access oid row.values view
  let values ← encodeRow access.columns row.pk row.values
  let s ← placeRow s txn.id oid row.pk values row.walk
  .ok { s with observed :=
    noteCabinWrite cat access oid row.pk (.ofInt row.pk :: row.values) [] s.observed }

/-- `SortedFillEligible`, as far as this model goes. -/
def sortedFillEligible (access : TableAccess) : Bool :=
  !access.clustered && (List.range access.columns.length).all fun c => !access.cabined c

/-- `SortedFillInner`: every row is checked before the first is placed.  No Cabin is told, and
    none is there to be told (`sortedFillEligible`). -/
def sortedFill (cat : Catalog) (s : FkState) (txn : Transaction) (access : TableAccess) (oid : Nat)
    (rows : List NewRow) : StatusOr FkState := do
  rows.forM fun row => do
    let view ← s.manager.mintReadView txn.id
    checkInsert cat s.tables access oid row.values view
  rows.foldlM (fun s row => do
    let values ← encodeRow access.columns row.pk row.values
    placeRow s txn.id oid row.pk values row.walk) s

/-- `InsertParsed`: a multi-row statement that leaves its keys out may fill. -/
def insertParsed (cat : Catalog) (s : FkState) (txn : Transaction) (oid : Nat)
    (rows : List NewRow) (omitsPk : Bool) : StatusOr FkState := do
  let access ← cat.initTableAccess oid
  if 1 < rows.length && omitsPk && sortedFillEligible access then
    sortedFill cat s txn access oid rows
  else rows.foldlM (fun s row => insertOneRow cat s txn access oid row) s

/-- Whether a row has an undo pointer: something lies under its version. -/
def undoPtrOf (older : List RowVersion) : Nat :=
  if older.isEmpty then noUndoPtr else noUndoPtr + 1

/-- `apply` of `UpdateInner`, on a row that matched. -/
def updateRow (cat : Catalog) (s : FkState) (txn : Transaction) (oid pk : Nat)
    (assignments : List Assignment) : StatusOr FkState := do
  let access ← cat.initTableAccess oid
  compileAssignments access assignments
  match s.tables.rows oid pk with
  | [] => .ok s
  | tuple :: older =>
    if classify txn.view tuple.trxId tuple.deleted (undoPtrOf older) = .noVersion then .ok s
    else do
      checkWriteConflict txn tuple.trxId pk
      let view ← s.manager.mintReadView txn.id
      checkUpdate cat s.tables access oid assignments view
      let row := applyAssignments access assignments tuple.values
      let values ← encodeRow access.columns pk row.tail
      .ok { s with
        tables := setRow s.tables oid pk
          ({ trxId := txn.id, values := values } :: tuple :: older)
        trail := noteWrite s.trail txn.id oid pk
        observed := noteCabinWrite cat access oid pk row tuple.values s.observed }

/-- `mark` of `DeleteInner`, on a row that matched. -/
def deleteRow (cat : Catalog) (s : FkState) (txn : Transaction) (oid pk : Nat)
    (hintOk : Nat → Bool) : StatusOr FkState :=
  match s.tables.rows oid pk with
  | [] => .ok s
  | tuple :: older =>
    if classify txn.view tuple.trxId tuple.deleted (undoPtrOf older) = .noVersion then .ok s
    else do
      checkWriteConflict txn tuple.trxId pk
      let view ← s.manager.mintReadView txn.id
      let observed ← checkNoChildrenBeforeDelete cat s.tables pk view hintOk (cat.fkeysIn oid)
        s.observed
      .ok { s with
        tables := setRow s.tables oid pk
          ({ trxId := txn.id, deleted := true, values := tuple.values } :: tuple :: older)
        trail := noteWrite s.trail txn.id oid pk
        observed := observed }

/-- The loop of `Abort`: each entry, newest first, takes its row back by one version. -/
def unwindTrail (db : Tables) : List (Nat × Nat) → Tables
  | [] => db
  | (oid, pk) :: older => unwindTrail (setRow db oid pk (db.rows oid pk).tail) older

/-- The rows after a rollback whose compensations were in part refused: on each row so many of the
    transaction's versions are left, the oldest of them. -/
def stuckRows (db : Tables) (id : Nat) (left : Nat → Nat → Nat) : Tables :=
  { db with rows := fun oid pk =>
      let written := (db.rows oid pk).takeWhile (·.trxId = id)
      (db.rows oid pk).drop (written.length - left oid pk) }

-- Cabins

/-- The row a snapshot reads. -/
def readRow (view : ReadView) (versions : List RowVersion) : Option RowVersion :=
  (versions.find? fun v => view.visible v.trxId).filter fun v => !v.deleted

/-- `Commit`: a set over the cap is not observed. -/
def commitSet (cat : Catalog) (observed : Observed) (oid columnNo : Nat) (value : Int)
    (entries : List Nat) : Observed :=
  fun oid' columnNo' value' =>
    if oid' = oid ∧ columnNo' = columnNo ∧ value' = value then
      if cat.maxEntriesPerValue < entries.length then none else some entries
    else observed oid' columnNo' value'

/-- `WalkAndRecord`: the rows with the value that the walk's view reads.  A view with a transaction
    in flight, or with one of its own, records nothing. -/
def walkAndRecord (cat : Catalog) (s : FkState) (oid columnNo : Nat) (value : Int) (own : Nat) :
    StatusOr FkState := do
  let view ← s.manager.mintReadView own
  if view.inFlight.length ≠ 0 ∨ view.ownTrxId ≠ noTrxId then .ok s
  else
    let entries := (s.tables.walk oid).filter fun pk =>
      (readRow view (s.tables.rows oid pk)).any (hasKey columnNo value)
    .ok { s with observed := commitSet cat s.observed oid columnNo value entries }

/-- The optimizer's build (`cabin_optimizer_exec.cpp`): one row of a transaction in flight defers
    the whole build. -/
def buildValue (cat : Catalog) (s : FkState) (oid columnNo : Nat) (value : Int) :
    StatusOr FkState := do
  let view ← s.manager.mintReadView noTrxId
  let verdict (pk : Nat) : Option (CheckVerdict × RowVersion) :=
    (s.tables.rows oid pk).head?.map fun v => (checkVisibility view v.trxId v.deleted, v)
  if (s.tables.walk oid).any fun pk => (verdict pk).any (·.1 = .busy) then .ok s
  else
    let entries := (s.tables.walk oid).filter fun pk =>
      (verdict pk).any fun v => v.1 = .live && hasKey columnNo value v.2
    .ok { s with observed := commitSet cat s.observed oid columnNo value entries }

-- The core

/-- How an `Abort` ends: with every row back, or with compensations refused. -/
inductive RollbackEnd where
  | done
  | stuck (left : Nat → Nat → Nat)

/-- An INSERT names how many of its last rows were `stranded`: placed when the statement was
    refused, and in no trail. -/
inductive FkAction where
  | begin (isolation : IsolationLevel)
  | startStatement (id : Nat)
  | insert (id oid : Nat) (rows : List NewRow) (omitsPk : Bool) (stranded : Nat := 0)
  | update (id oid pk : Nat) (assignments : List Assignment)
  | delete (id oid pk : Nat) (hintOk : Nat → Bool)
  | commit (id : Nat)
  | abort (id : Nat) (ending : RollbackEnd := .done)
  | record (oid columnNo : Nat) (value : Int) (own : Nat)
  | build (oid columnNo : Nat) (value : Int)
  | unobserve (oid columnNo : Nat) (value : Int)

namespace FkState

/-- A step of an open transaction. -/
def withTxn (s : FkState) (id : Nat) (f : Transaction → StatusOr FkState) : Option FkState :=
  match s.manager.find id with
  | none => none
  | some txn => if txn.active then (f txn).toOption else none

/-- A transaction ends: its handle stays, no longer active, with nothing to take back. -/
def finish (s : FkState) (txn : Transaction) (tables : Tables) : FkState :=
  { s with
    manager := s.manager.update { txn with trail := [], active := false }
    tables := tables
    trail := fun id => if id = txn.id then [] else s.trail id }

def step (cat : Catalog) (s : FkState) : FkAction → Option FkState
  | .begin isolation =>
    ((s.manager.begin isolation).map fun out => { s with manager := out.1 }).toOption
  | .startStatement id => s.withTxn id fun txn =>
    (s.manager.startStatement txn).map fun txn => { s with manager := s.manager.update txn }
  | .insert id oid rows omitsPk stranded => s.withTxn id fun txn =>
    (insertParsed cat s txn oid rows omitsPk).map fun s => { s with
      trail := fun id => if id = txn.id then (s.trail id).drop stranded else s.trail id }
  | .update id oid pk assignments => s.withTxn id fun txn =>
    updateRow cat s txn oid pk assignments
  | .delete id oid pk hintOk => s.withTxn id fun txn => deleteRow cat s txn oid pk hintOk
  | .commit id => s.withTxn id fun txn => .ok (s.finish txn s.tables)
  | .abort id ending => s.withTxn id fun txn =>
    .ok (s.finish txn (match ending with
      | .done => unwindTrail s.tables (s.trail txn.id)
      | .stuck left => stuckRows s.tables txn.id left))
  | .record oid columnNo value own => (walkAndRecord cat s oid columnNo value own).toOption
  | .build oid columnNo value => (buildValue cat s oid columnNo value).toOption
  | .unobserve oid columnNo value =>
    some { s with observed := Exec.unobserve s.observed oid columnNo value }

end FkState

end Kds.Server
