/-
  Kds.Server.CommitPaths

  How a transaction ends: `HandleCommit`, `HandleRollback` and `EndWrite`
  (`src/server/command_dispatcher.cpp`), over the assertion enforcer's `CommitTxn` and `AbortTxn`
  (`src/exec/assertion_check.cpp`) and the transaction manager's `Commit`, `Abort` and `Release`
  (`src/txn/manager.cpp`).

  Three things can refuse a commit: the enforcer (a cabin page or its log record), the commit
  record (or, for the strict class, its sync), and, for the group class, the wait for the device
  once everything else is done.  What each leaves behind differs between an explicit transaction
  and a statement that is its own.

  Two fields of the state are history: what the steps of a transaction have moved of each group's
  header, and the version of a row before a transaction first wrote it.  A compensation is taken
  to succeed; the pages, the log and the durability of its records are left out.
-/

import Kds.Exec.AssertionLedger
import Kds.Lib.Run

namespace Kds.Server

open Exec
open Function (update)

-- State

/-- What a row's slot holds: the values, `none` before its insert and after its delete, and the
    writer's id. -/
structure StoredRow where
  values : Option (List AstValue) := none
  writer : TxnId := 0
  deriving DecidableEq

/-- One entry of a transaction's trail: the row and what a rollback puts back. -/
structure WriteEntry where
  row : Nat
  prior : StoredRow
  deriving DecidableEq

/-- Who holds a transaction's handle: a session's BEGIN, the statement it is, or nobody. -/
inductive Holder where
  | session | statement | nobody
  deriving DecidableEq

/-- A transaction of the manager's live set.  `failed` is the session's poisoned state, or the
    statement's error. -/
structure TxnEntry where
  active : Bool := true
  trail : List WriteEntry := []
  holder : Holder
  failed : Bool := false
  deriving DecidableEq

/-- A group's count and sum, both zero where there is no such assertion or group. -/
def headerOf (live : List LiveAssertion) (id : Nat) (key : List UInt8) : Int × Int :=
  match live.find? fun a => a.decl.assertionId = id with
  | some a => (a.cabin.countOf key, a.cabin.sumOf key)
  | none => (0, 0)

/-- One core: the enforcer's registry and reservations, the rows, the manager's live set. -/
structure CommitState where
  live : List LiveAssertion
  pending : TxnId → List Reservation := fun _ => []
  appended : Nat := 0
  rows : Nat → StoredRow := fun _ => {}
  txns : TxnId → Option TxnEntry := fun _ => none
  nextTrxId : TxnId := 2
  /-- By how much the steps of a transaction have moved a group's count and sum. -/
  moved : TxnId → Nat → List UInt8 → Int × Int := fun _ _ _ => (0, 0)
  /-- What a row held before the transaction first wrote it. -/
  original : TxnId → Nat → Option StoredRow := fun _ _ => none

namespace CommitState

def setTxn (s : CommitState) (t : TxnId) (entry : TxnEntry) : CommitState :=
  { s with txns := update s.txns t (some entry) }

/-- The transaction's current statement has failed: a session is poisoned by it. -/
def fail (s : CommitState) (t : TxnId) (entry : TxnEntry) : CommitState :=
  s.setTxn t { entry with failed := true }

/-- First-updater-wins: a row is writable unless another transaction in flight wrote it. -/
def writableBy (s : CommitState) (t : TxnId) (row : Nat) : Bool :=
  (s.rows row).writer == t ||
    !((s.txns (s.rows row).writer).any fun entry => entry.active)

/-- The new version of a row, its predecessor kept as history the first time. -/
def writeRow (s : CommitState) (t : TxnId) (row : Nat) (values : Option (List AstValue)) :
    CommitState :=
  { s with
    rows := update s.rows row { values := values, writer := t }
    original := update s.original t (update (s.original t) row
      (some ((s.original t row).getD (s.rows row)))) }

def reserving (s : CommitState) (t : TxnId) : Reserving :=
  { pending := s.pending t, appended := s.appended }

/-- The enforcer's side of a statement, whether it ran through or stopped. -/
def putReserved (s : CommitState) (t : TxnId) (out : Outcome (List LiveAssertion × Reserving)) :
    CommitState :=
  { s with
    live := out.1.1, pending := update s.pending t out.1.2.pending
    appended := out.1.2.appended }

-- Statements

section

variable (chainAppend : Nat → StatusOr EntryAt) (formatValue : Nat → AstValue → String)

/-- One row of an INSERT: admitted, placed, reserved, and only then in the trail, once its undo
    record is written (`undoOk`). -/
def insertRow (s : CommitState) (t : TxnId) (entry : TxnEntry) (oid : Oid) (row : Nat)
    (values : List AstValue) (undoOk : Bool) : CommitState :=
  match admitInsert formatValue oid values.tail s.live with
  | some _ => s.fail t entry
  | none =>
    let placed := s.writeRow t row (some values)
    let out := reserveInsert chainAppend oid values.tail s.live (s.reserving t)
    let reserved := placed.putReserved t out
    if out.2.isSome || !undoOk then reserved.fail t entry
    else reserved.setTxn t { entry with trail := ⟨row, s.rows row⟩ :: entry.trail }

/-- One row of an UPDATE or a DELETE: reserved, then the undo record and the trail, then the
    overwrite. -/
def overwriteRow (s : CommitState) (t : TxnId) (entry : TxnEntry) (row : Nat)
    (out : Outcome (List LiveAssertion × Reserving)) (values : Option (List AstValue))
    (undoOk : Bool) : CommitState :=
  let reserved := s.putReserved t out
  if out.2.isSome || !undoOk then reserved.fail t entry
  else (reserved.writeRow t row values).setTxn t
    { entry with trail := ⟨row, s.rows row⟩ :: entry.trail }

end

-- Ends

/-- What a commit meets outside: per cabin page the settling of its entries, the commit record with
    the strict class's sync, and the group class's wait for the device. -/
structure CommitEnv where
  settlePage : Nat × PageId → List Nat → Option Status := fun _ _ => none
  commitRecord : Option Status := none
  durabilityWait : Option Status := none

/-- `CommitTxn`'s batches: the entries of the assertions still held, by assertion and page. -/
def byPage (live : List LiveAssertion) (reservations : List Reservation) :
    List ((Nat × PageId) × List Nat) :=
  let held := reservations.filter fun r => live.any fun a => a.decl.assertionId = r.assertionId
  let places := (held.map fun r => (r.assertionId, r.loc.1)).dedup
  places.map fun place =>
    (place, (held.filter fun r => (r.assertionId, r.loc.1) = place).map (·.loc.2))

/-- `AssertionEnforcer::CommitTxn`: the reservations are out of the pending list before the first
    page is settled, and no header moves. -/
def commitTxn (env : CommitEnv) (s : CommitState) (t : TxnId) : CommitState × Option Status :=
  ({ s with pending := update s.pending t [] },
    (byPage s.live (s.pending t)).findSome? fun batch => env.settlePage batch.1 batch.2)

/-- `AssertionEnforcer::AbortTxn`: the reservations are out of the pending list before the first is
    reversed.  `stop` is the number of reversals after which a page or its record refuses. -/
def enforcerAbort (s : CommitState) (t : TxnId) (stop : Option (Nat × Status)) :
    CommitState × Option Status :=
  if s.pending t = [] then (s, none)
  else
    let reversed := (s.pending t).reverse
    let s' := { s with pending := update s.pending t [] }
    match stop with
    | none =>
      let out := abortTxn reversed s.live
      ({ s' with live := out.1 }, out.2)
    | some (n, status) =>
      let out := abortTxn (reversed.take n) s.live
      ({ s' with live := out.1 }, some (out.2.getD status))

/-- `TransactionManager::Abort`'s compensations, the trail's newest entry first. -/
def unwind : List WriteEntry → (Nat → StoredRow) → Nat → StoredRow
  | [], rows => rows
  | entry :: rest, rows => unwind rest (update rows entry.row entry.prior)

/-- `TransactionManager::Abort` and then `Release`. -/
def abortAndRelease (s : CommitState) (t : TxnId) (entry : TxnEntry) : CommitState :=
  { s with rows := unwind entry.trail s.rows, txns := update s.txns t none }

/-- `TransactionManager::Commit`: refused, it changes nothing. -/
def managerCommit (env : CommitEnv) (s : CommitState) (t : TxnId) (entry : TxnEntry) :
    CommitState × Option Status :=
  match env.commitRecord with
  | some status => (s, some status)
  | none => (s.setTxn t { entry with active := false, trail := [] }, none)

/-- `TransactionManager::Release`: an active transaction is not erased. -/
def release (s : CommitState) (t : TxnId) : CommitState :=
  match s.txns t with
  | some entry => if entry.active then s else { s with txns := update s.txns t none }
  | none => s

/-- `HandleCommit`, and the wait of `Dispatch` behind it. -/
def handleCommit (env : CommitEnv) (s : CommitState) (t : TxnId) (entry : TxnEntry) :
    CommitState × Option Status :=
  match commitTxn env s t with
  | (s₁, some status) => (s₁, some status)
  | (s₁, none) =>
    match managerCommit env s₁ t entry with
    | (s₂, some status) => (s₂.abortAndRelease t entry, some status)
    | (s₂, none) => (s₂.release t, env.durabilityWait)

/-- `HandleRollback`. -/
def handleRollback (s : CommitState) (t : TxnId) (entry : TxnEntry)
    (stop : Option (Nat × Status)) : CommitState × Option Status :=
  match s.enforcerAbort t stop with
  | (s₁, some status) => (s₁, some status)
  | (s₁, none) => (s₁.abortAndRelease t entry, none)

/-- `EndWrite` of an autocommit statement that ran through: a commit refused returns at once, and
    what the statement's scope held is then nobody's. -/
def endWriteOk (env : CommitEnv) (s : CommitState) (t : TxnId) (entry : TxnEntry) :
    CommitState × Option Status :=
  match commitTxn env s t with
  | (s₁, some status) => (s₁.setTxn t { entry with holder := .nobody }, some status)
  | (s₁, none) =>
    match managerCommit env s₁ t entry with
    | (s₂, some status) =>
      ((s₂.setTxn t { entry with holder := .nobody }).release t, some status)
    | (s₂, none) => (s₂.release t, env.durabilityWait)

/-- `EndWrite` of an autocommit statement that failed. -/
def endWriteFailed (s : CommitState) (t : TxnId) (entry : TxnEntry)
    (stop : Option (Nat × Status)) : CommitState × Option Status :=
  match s.enforcerAbort t stop with
  | (s₁, some status) => (s₁.setTxn t { entry with holder := .nobody }, some status)
  | (s₁, none) => (s₁.abortAndRelease t entry, none)

/-- A transaction whose statements have all succeeded commits: an explicit one by COMMIT, a
    statement of its own at its end. -/
def commitEnd (env : CommitEnv) (s : CommitState) (t : TxnId) (entry : TxnEntry) :
    CommitState × Option Status :=
  match entry.holder with
  | .session => s.handleCommit env t entry
  | .statement => s.endWriteOk env t entry
  | .nobody => (s, none)

/-- The client's ROLLBACK: it reaches a transaction only through the session that holds it. -/
def clientRollback (s : CommitState) (t : TxnId) (stop : Option (Nat × Status)) : CommitState :=
  match s.txns t with
  | some entry => if entry.holder = .session then (s.handleRollback t entry stop).1 else s
  | none => s

-- The run

/-- Charge a step of `t` for what it moved of the headers. -/
def account (t : TxnId) (s s' : CommitState) : CommitState :=
  { s' with
    moved := update s.moved t fun id key =>
      s.moved t id key + (headerOf s'.live id key - headerOf s.live id key) }

end CommitState

inductive CommitAction where
  | begin (holder : Holder)
  | insert (t : TxnId) (row : Nat) (values : List AstValue) (undoOk : Bool)
  | update (t : TxnId) (row : Nat) (values : List AstValue) (undoOk : Bool)
  | delete (t : TxnId) (row : Nat) (undoOk : Bool)
  /-- A statement of `t` fails before it writes. -/
  | fail (t : TxnId)
  | commit (t : TxnId) (env : CommitState.CommitEnv)
  | rollback (t : TxnId) (stop : Option (Nat × Status))
  | endFailed (t : TxnId) (stop : Option (Nat × Status))

section

variable (chainAppend : Nat → StatusOr EntryAt) (formatValue : Nat → AstValue → String)
  (relationOf : Nat → Oid)

/-- A transaction that can run a statement or commit. -/
def TxnEntry.isOpen (entry : TxnEntry) : Bool :=
  entry.active && !entry.failed && entry.holder != .nobody

/-- A step of `t`, which must be in the live set, in a state `allowed` admits. -/
def stepOf (s : CommitState) (t : TxnId) (allowed : TxnEntry → Bool)
    (body : TxnEntry → CommitState) : Option CommitState :=
  match s.txns t with
  | some entry => if allowed entry then some (s.account t (body entry)) else none
  | none => none

/-- An UPDATE or a DELETE of a row, `reserve` being its enforcer call on the old values. -/
def writeStep (s : CommitState) (t : TxnId) (row : Nat) (values : Option (List AstValue))
    (undoOk : Bool) (reserve : List AstValue → Outcome (List LiveAssertion × Reserving)) :
    Option CommitState :=
  match (s.rows row).values with
  | some old =>
    stepOf s t TxnEntry.isOpen fun entry =>
      if s.writableBy t row then s.overwriteRow t entry row (reserve old) values undoOk
      else s.fail t entry
  | none => none

/-- One step; `none` where the action cannot be taken. -/
def commitStep (s : CommitState) : CommitAction → Option CommitState
  | .begin holder =>
    if holder = .nobody then none
    else some { s.setTxn s.nextTrxId { holder := holder } with nextTrxId := s.nextTrxId + 1 }
  | .insert t row values undoOk =>
    if s.rows row = {} then
      stepOf s t TxnEntry.isOpen fun entry =>
        s.insertRow chainAppend formatValue t entry (relationOf row) row values undoOk
    else none
  | .update t row values undoOk =>
    writeStep s t row (some values) undoOk fun old =>
      admitAndReserveUpdate chainAppend formatValue (relationOf row) old values s.live
        (s.reserving t)
  | .delete t row undoOk =>
    writeStep s t row none undoOk fun old =>
      reserveDelete chainAppend (relationOf row) old s.live (s.reserving t)
  | .fail t => stepOf s t TxnEntry.isOpen fun entry => s.fail t entry
  | .commit t env => stepOf s t TxnEntry.isOpen fun entry => (s.commitEnd env t entry).1
  | .rollback t stop =>
    stepOf s t (fun entry => entry.holder == .session) fun entry =>
      (s.handleRollback t entry stop).1
  | .endFailed t stop =>
    stepOf s t (fun entry => entry.holder == .statement && entry.failed) fun entry =>
      (s.endWriteFailed t entry stop).1

end
end Kds.Server
