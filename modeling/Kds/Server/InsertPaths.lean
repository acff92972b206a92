/-
  Kds.Server.InsertPaths

  INSERT with every step that can refuse it (`InsertOneRow`, `SortedFillInner` and `InsertParsed`,
  `src/server/command_dispatcher.cpp`), the trail its rows are taken back by, and the ends of a
  transaction (`EndWrite`; `TransactionManager::Abort`, `src/txn/manager.cpp`).

  A tuple is in its page before the trail has it: index maintenance, the assertion reservation and
  the undo record come between the two.  What a step answers is a parameter of the row it is taken
  for.  Rows are stacks of versions under their key; where a tuple is placed is left out, since a
  compensation finds its row by the key.
-/

import Kds.Lib.Run
import Kds.Server.FkWrites

namespace Kds.Server

open Exec Txn

-- State

/-- One entry of a trail: the row, and the versions its compensation puts back. -/
structure TrailRow where
  oid : Nat
  pk : Nat
  prior : List RowVersion
  deriving DecidableEq

/-- A core: its transactions, its rows, each transaction's trail (newest first), and the
    transactions a statement of which has failed. -/
structure InsertState where
  manager : TransactionManager
  rows : Nat → Nat → List RowVersion := fun _ _ => []
  trail : Nat → List TrailRow := fun _ => []
  failed : List Nat := []

/-- A core before its first row. -/
def InsertState.empty : InsertState where
  manager := { nextId := alwaysVisibleTrxId + 1 }

namespace InsertState

def setRow (s : InsertState) (oid pk : Nat) (versions : List RowVersion) : InsertState :=
  { s with rows := Function.update s.rows oid (Function.update (s.rows oid) pk versions) }

/-- An entry at the head of a transaction's trail. -/
def note (s : InsertState) (t oid pk : Nat) (prior : List RowVersion) : InsertState :=
  { s with trail := Function.update s.trail t (⟨oid, pk, prior⟩ :: s.trail t) }

def fail (s : InsertState) (t : Nat) : InsertState :=
  { s with failed := t :: s.failed }

end InsertState

-- INSERT

/-- The steps of a row's INSERT that can refuse it.  `promoteSeparator` is the tail of a clustered
    insertion, with the tuple in its leaf already. -/
inductive InsertStep where
  | checkArity | checkForeignKeys | admitInsert | rowId | encodeRow | insertIntoRelation
  | promoteSeparator | maintainIndexes | reserveInsert | appendUndo
  | logInsert | updateRelationDescPage
  deriving DecidableEq

namespace InsertStep

/-- The steps before the tuple is in its page. -/
def beforePlacement : List InsertStep :=
  [checkArity, checkForeignKeys, admitInsert, rowId, encodeRow, insertIntoRelation]

/-- The steps with the tuple in its page and not in the trail. -/
def beforeTrail : List InsertStep :=
  [promoteSeparator, maintainIndexes, reserveInsert, appendUndo]

/-- The steps with the tuple in the trail. -/
def afterTrail : List InsertStep :=
  [logInsert, updateRelationDescPage]

/-- `InsertOneRow`, in order. -/
def order : List InsertStep := beforePlacement ++ (beforeTrail ++ afterTrail)

end InsertStep

/-- A row of a statement, and what each step answers for it. -/
structure InsertRow where
  pk : Nat
  values : List AstValue
  answers : InsertStep → Option Status

/-- What a step answers: a key that is taken is refused by the storage. -/
def InsertRow.answer (row : InsertRow) (taken : Nat → Bool) (step : InsertStep) : Option Status :=
  if step = .insertIntoRelation && taken row.pk then
    some ⟨.alreadyExists, "duplicate primary key " ++ toString row.pk ++ " already present"⟩
  else row.answers step

/-- A statement.  `sorted` is `SortedFillEligible` with every row leaving its key out, and the next
    fields are the answers of a fill's own steps: the range of ids, the batch (with the number of
    rows it has placed when it fails), the page images. -/
structure InsertStatement where
  oid : Nat
  rows : List InsertRow
  sorted : Bool := false
  rowIdRange : Option Status := none
  chainAppendBatch : Option (Nat × Status) := none
  logFullPageImage : Option Status := none

/-- What a statement leaves: the keys it has placed, and the refusal it has met. -/
structure InsertOutcome where
  state : InsertState
  placed : List Nat := []
  status : Option Status := none

def InsertStatement.fills (stmt : InsertStatement) : Bool :=
  decide (1 < stmt.rows.length) && stmt.sorted

namespace InsertState

def taken (s : InsertState) (oid pk : Nat) : Bool := !(s.rows oid pk).isEmpty

/-- The tuple in its page, with its writer's id. -/
def place (s : InsertState) (t oid : Nat) (row : InsertRow) : InsertState :=
  s.setRow oid row.pk [{ trxId := t, values := row.values }]

/-- `InsertOneRow`. -/
def insertOneRow (s : InsertState) (t oid : Nat) (row : InsertRow) : InsertOutcome :=
  let answer := row.answer (s.taken oid)
  match InsertStep.beforePlacement.findSome? answer with
  | some e => { state := s, status := some e }
  | none =>
    let placed := s.place t oid row
    match InsertStep.beforeTrail.findSome? answer with
    | some e => { state := placed, placed := [row.pk], status := some e }
    | none =>
      { state := placed.note t oid row.pk [], placed := [row.pk]
        status := InsertStep.afterTrail.findSome? answer }

/-- The row loop of `InsertParsed`: the first refusal ends the statement. -/
def insertRows (t oid : Nat) : List InsertRow → InsertState → InsertOutcome
  | [], s => { state := s }
  | row :: rest, s =>
    let one := s.insertOneRow t oid row
    match one.status with
    | some _ => one
    | none =>
      let later := insertRows t oid rest one.state
      { later with placed := one.placed ++ later.placed }

/-- The trail loop of `SortedFillInner`. -/
def noteRows (t oid : Nat) : List InsertRow → InsertState → InsertState × Option Status
  | [], s => (s, none)
  | row :: rest, s =>
    match row.answers .appendUndo with
    | some e => (s, some e)
    | none => noteRows t oid rest (s.note t oid row.pk [])

/-- What refuses a fill before its first tuple is placed. -/
def fillRefused (stmt : InsertStatement) : Option Status :=
  (stmt.rows.findSome? fun row => row.answers .checkArity <|> row.answers .checkForeignKeys) <|>
    stmt.rowIdRange <|> stmt.rows.findSome? fun row => row.answers .encodeRow

/-- `SortedFillInner`: all checks, one range of ids, all rows encoded, then the batch, and only
    then the trail, row for row. -/
def sortedFill (s : InsertState) (t : Nat) (stmt : InsertStatement) : InsertOutcome :=
  match fillRefused stmt with
  | some e => { state := s, status := some e }
  | none =>
    match stmt.chainAppendBatch with
    | some (n, e) =>
      let rows := stmt.rows.take n
      { state := rows.foldl (fun s row => s.place t stmt.oid row) s
        placed := rows.map (·.pk), status := some e }
    | none =>
      let placed := stmt.rows.foldl (fun s row => s.place t stmt.oid row) s
      let noted := noteRows t stmt.oid stmt.rows placed
      { state := noted.1, placed := stmt.rows.map (·.pk)
        status := noted.2 <|> stmt.logFullPageImage }

/-- `AllocateRowIdRange`: the ids it hands out are new. -/
def rangeFresh (s : InsertState) (stmt : InsertStatement) : Bool :=
  decide (stmt.rows.map (·.pk)).Nodup && stmt.rows.all fun row => !s.taken stmt.oid row.pk

/-- `InsertParsed` from the row loop on. -/
def insertParsed (s : InsertState) (t : Nat) (stmt : InsertStatement) : InsertOutcome :=
  if stmt.fills then s.sortedFill t stmt else insertRows t stmt.oid stmt.rows s

-- The other writes, and the ends

/-- One row of an UPDATE (`values`) or a DELETE (`none`): the trail entry, and the new version.
    `refused` is what a step before the trail answers. -/
def overwriteRow (s : InsertState) (txn : Transaction) (oid pk : Nat)
    (values : Option (List AstValue)) (refused : Option Status) : InsertState :=
  match s.rows oid pk with
  | [] => s
  | tuple :: older =>
    if classify txn.view tuple.trxId tuple.deleted (undoPtrOf older) = .noVersion then s
    else
      match checkWriteConflict txn tuple.trxId pk with
      | .error _ => s.fail txn.id
      | .ok _ =>
        if refused.isSome then s.fail txn.id
        else
          let version : RowVersion :=
            { trxId := txn.id, deleted := values.isNone, values := values.getD tuple.values }
          (s.note txn.id oid pk (tuple :: older)).setRow oid pk (version :: tuple :: older)

/-- The loop of `Abort`: each entry, newest first, puts back what was there before it. -/
def unwindRows : List TrailRow → InsertState → InsertState
  | [], s => s
  | entry :: older, s => unwindRows older (s.setRow entry.oid entry.pk entry.prior)

/-- A transaction ends: its handle stays, no longer active, with nothing to take back. -/
def finish (s : InsertState) (txn : Transaction) : InsertState :=
  { s with
    manager := s.manager.update { txn with trail := [], active := false }
    trail := Function.update s.trail txn.id [] }

end InsertState

/-- `begin` is BEGIN, or the start of an autocommit statement's scope; `rollback` is ROLLBACK, or
    `EndWrite` of an autocommit statement that has failed, once the enforcer has released its
    reservations. -/
inductive InsertAction where
  | begin (isolation : IsolationLevel)
  | startStatement (t : Nat)
  | insert (t : Nat) (stmt : InsertStatement)
  | overwrite (t oid pk : Nat) (values : Option (List AstValue)) (refused : Option Status)
  | commit (t : Nat)
  | rollback (t : Nat)

namespace InsertState

/-- A step of an open transaction; one that has failed takes back what it wrote, and no other. -/
def withTxn (s : InsertState) (t : Nat) (evenFailed : Bool)
    (f : Transaction → InsertState) : Option InsertState :=
  match s.manager.find t with
  | none => none
  | some txn =>
    if txn.active && (evenFailed || !s.failed.contains t) then some (f txn) else none

/-- The statement's outcome, in a transaction that may run one. -/
def runInsert (s : InsertState) (t : Nat) (stmt : InsertStatement) : Option InsertOutcome :=
  match s.manager.find t with
  | none => none
  | some txn =>
    if txn.active && !s.failed.contains t && (!stmt.fills || s.rangeFresh stmt) then
      some (s.insertParsed t stmt)
    else none

/-- The state after a statement, its transaction marked when the statement has failed. -/
def afterInsert (t : Nat) (out : InsertOutcome) : InsertState :=
  match out.status with
  | some _ => out.state.fail t
  | none => out.state

/-- One step; `none` where the action cannot be taken. -/
def step (s : InsertState) : InsertAction → Option InsertState
  | .begin isolation =>
    ((s.manager.begin isolation).map fun out => { s with manager := out.1 }).toOption
  | .startStatement t =>
    match s.manager.find t with
    | none => none
    | some txn =>
      if s.failed.contains t then none
      else ((s.manager.startStatement txn).map fun txn =>
        { s with manager := s.manager.update txn }).toOption
  | .insert t stmt => (s.runInsert t stmt).map (afterInsert t)
  | .overwrite t oid pk values refused =>
    s.withTxn t false fun txn => s.overwriteRow txn oid pk values refused
  | .commit t => s.withTxn t false fun txn => s.finish txn
  | .rollback t => s.withTxn t true fun txn => (unwindRows (s.trail t) s).finish txn

end InsertState

end Kds.Server
