/-
  Kds.Catalog.ObjectOids

  Object oids (`GenerateUserOid`, `src/catalog/catalog.cpp`).  There is no stored counter: the first
  CREATE TABLE after a mount reads back the highest oid that the rows of `sys.objects` and
  `sys.columns` carry, and counts on from there in memory.

  A relation's oid is stamped on its pages and in log records before its rows are written, and a
  column's oid in its row.  Rows go away in several ways: a rollback retires them, a DROP TABLE
  retires or delete-marks the columns and retypes the object row, sweeps retire settled marks, and a
  crash takes what the log did not keep.
-/

import Kds.Base.Status
import Kds.Catalog.RowIds
import Mathlib.Data.List.Basic

namespace Kds.Catalog

def kUserOidStart : Oid := 4000
def kNamespacePublic : Oid := 1
def kTypeTable : Oid := 21
def kTypeDroppedTable : Oid := 34

/-- The writer of rows that no transaction writes. -/
def kBootstrapXid : Nat := 1

/-- The rows that carry a generated oid as their own. -/
inductive CatalogRow where
  | object (oid namespaceOid typeOid : Oid)
  | column (oid relId : Oid)
  deriving DecidableEq

def CatalogRow.oid : CatalogRow → Oid
  | .object oid _ _ => oid
  | .column oid _ => oid

/-- A row in its slot; of a delete-marked row, `trxId` is the deleter. -/
structure CatalogTuple where
  row : CatalogRow
  trxId : Nat
  deleted : Bool := false
  deriving DecidableEq

/-- What the log says of a slot: what a write leaves there, `none` for a dead slot; what an undo
    record puts back; and how transactions ended. -/
inductive CatalogRecord where
  | write (env slot : Nat) (after : Option CatalogTuple)
  | undo (trxId slot : Nat) (before : Option CatalogTuple)
  | commit (trxId : Nat)
  | abort (trxId : Nat)
  deriving DecidableEq

/-- How far one catalog write gets: refused before the page is touched, refused by the undo hook, or
    refused by the log with the page changed. -/
inductive WriteOutcome where
  | done
  | refused (e : Status)
  | undoRefused (e : Status)
  | logRefused (e : Status)
  deriving DecidableEq

/-- What the steps of a CREATE TABLE meet, one outcome for each column of the schema. -/
structure CreatePlan where
  /-- The scan of `HighestIssuedUserOid`, where there is one. -/
  scan : Option Status := none
  /-- Allocating and formatting the root page. -/
  root : Option Status := none
  /-- Everything from the stamped root page to the rows: PAGE_INIT, var-heap root, anchor. -/
  pages : Option Status := none
  object : WriteOutcome := .done
  /-- The `sys.tables` row. -/
  relation : Option Status := none
  columns : List WriteOutcome
  deriving DecidableEq

structure OidState where
  /-- The slots of the two relations' chains. -/
  slots : List (Option CatalogTuple)
  base : List (Option CatalogTuple)
  /-- `next_user_oid_`. -/
  next : Option Oid := none
  /-- Newest first. -/
  log : List CatalogRecord := []
  synced : Nat := 0
  images : Nat → List (Nat × Option CatalogTuple) := fun _ => []
  nextTrxId : Nat := 2
  live : List Nat := []
  /-- The trails of the live transactions, newest first: a slot and what its compensation puts
      back. -/
  trail : List (Nat × Nat × Option CatalogTuple) := []
  /-- The oids that were stamped on a page, a row or a record. -/
  stamped : List Oid := []
  /-- What `GenerateUserOid` returned, and whether that was stamped already. -/
  issued : List (Oid × Bool) := []

namespace OidState

-- GenerateUserOid

/-- The rows an unfiltered `ScanAll` answers with: a mark counts once its deleter is settled. -/
def shown (s : OidState) : List CatalogTuple :=
  (s.slots.filterMap id).filter fun tuple => !tuple.deleted || s.live.contains tuple.trxId

/-- `HighestIssuedUserOid`. -/
def highestIssuedUserOid (s : OidState) : Oid :=
  s.shown.foldl (fun highest tuple => max highest tuple.row.oid) (kUserOidStart - 1)

def issueOid (s : OidState) (oid : Oid) : OidState :=
  { s with next := some (oid + 1), issued := (oid, s.stamped.contains oid) :: s.issued }

/-- `GenerateUserOid`. -/
def generateUserOid (s : OidState) (scan : Option Status) : OidState × StatusOr Oid :=
  match s.next with
  | some oid => (s.issueOid oid, .ok oid)
  | none =>
    match scan with
    | some e => (s, .error e)
    | none => (s.issueOid (s.highestIssuedUserOid + 1), .ok (s.highestIssuedUserOid + 1))

-- Catalog writes

def stamp (s : OidState) (oid : Oid) : OidState := { s with stamped := oid :: s.stamped }

def setSlot (s : OidState) (slot : Nat) (after : Option CatalogTuple) : OidState :=
  { s with slots := s.slots.set slot after }

/-- The DDL undo hook, installed where a transaction brackets the write. -/
def appendUndo (s : OidState) (trxId slot : Nat) (before : Option CatalogTuple) : OidState :=
  if trxId = kBootstrapXid then s else { s with log := .undo trxId slot before :: s.log }

def appendWrite (s : OidState) (trxId slot : Nat) (after : Option CatalogTuple) : OidState :=
  { s with log := .write trxId slot after :: s.log }

/-- A write that its transaction's rollback has to take back. -/
def note (s : OidState) (trxId slot : Nat) (before : Option CatalogTuple) : OidState :=
  if trxId = kBootstrapXid then s else { s with trail := (trxId, slot, before) :: s.trail }

/-- `InsertRow`: the row is on its page before the hook and the log are asked, and on the trail
    only if they agree. -/
def insertRow (s : OidState) (trxId : Nat) (row : CatalogRow) (outcome : WriteOutcome) :
    OidState × StatusOr Unit :=
  let slot := s.slots.length
  let tuple : CatalogTuple := { row := row, trxId := trxId }
  let placed := { s.stamp row.oid with slots := s.slots ++ [some tuple] }
  match outcome with
  | .refused e => (s, .error e)
  | .undoRefused e => (placed, .error e)
  | .logRefused e => (placed.appendUndo trxId slot none, .error e)
  | .done =>
    (((placed.appendUndo trxId slot none).appendWrite trxId slot (some tuple)).note trxId slot none,
      .ok ())

/-- A row overwritten, marked or retired: the hook first, then the page, then the log. -/
def changeRow (s : OidState) (trxId slot : Nat) (before after : Option CatalogTuple)
    (outcome : WriteOutcome) : OidState × StatusOr Unit :=
  match outcome with
  | .refused e => (s, .error e)
  | .undoRefused e => (s, .error e)
  | .logRefused e => ((s.appendUndo trxId slot before).setSlot slot after, .error e)
  | .done =>
    ((((s.appendUndo trxId slot before).setSlot slot after).appendWrite trxId slot after).note
      trxId slot before, .ok ())

-- CREATE TABLE

/-- The columns of a relation, each under an oid of its own. -/
def createColumns (s : OidState) (trxId : Nat) (relId : Oid) :
    List WriteOutcome → OidState × StatusOr Unit
  | [] => (s, .ok ())
  | outcome :: rest =>
    match s.generateUserOid none with
    | (s, .error e) => (s, .error e)
    | (s, .ok oid) =>
      match s.insertRow trxId (.column oid relId) outcome with
      | (s, .error e) => (s, .error e)
      | (s, .ok _) => s.createColumns trxId relId rest

/-- `CreateTable`, past the checks of the schema. -/
def createTable (s : OidState) (trxId : Nat) (plan : CreatePlan) : OidState × StatusOr Oid :=
  match s.generateUserOid plan.scan with
  | (s, .error e) => (s, .error e)
  | (s, .ok oid) =>
    match plan.root with
    | some e => (s, .error e)
    | none =>
      -- the root page carries the oid from here on
      let s := s.stamp oid
      match plan.pages with
      | some e => (s, .error e)
      | none =>
        match s.insertRow trxId (.object oid kNamespacePublic kTypeTable) plan.object with
        | (s, .error e) => (s, .error e)
        | (s, .ok _) =>
          match plan.relation with
          | some e => (s, .error e)
          | none =>
            match s.createColumns trxId oid plan.columns with
            | (s, .error e) => (s, .error e)
            | (s, .ok _) => (s, .ok oid)

-- DROP TABLE and sweeps

/-- A pass over the slots that changes those that match, up to the first refusal. -/
def sweepSlots (s : OidState) (trxId : Nat) (pick : CatalogTuple → Bool)
    (change : CatalogTuple → Option CatalogTuple) (outcome : Nat → WriteOutcome) :
    List Nat → OidState × StatusOr Unit
  | [] => (s, .ok ())
  | slot :: rest =>
    match (s.slots[slot]?).join with
    | none => s.sweepSlots trxId pick change outcome rest
    | some tuple =>
      if pick tuple then
        match s.changeRow trxId slot (some tuple) (change tuple) (outcome slot) with
        | (s, .error e) => (s, .error e)
        | (s, .ok _) => s.sweepSlots trxId pick change outcome rest
      else s.sweepSlots trxId pick change outcome rest

def isTableRow (table : Oid) (tuple : CatalogTuple) : Bool :=
  match tuple.row with
  | .object oid _ typeOid => decide (typeOid = kTypeTable ∧ oid = table)
  | .column .. => false

def isColumnOf (table : Oid) (tuple : CatalogTuple) : Bool :=
  match tuple.row with
  | .object .. => false
  | .column _ relId => decide (relId = table) && !tuple.deleted

def isSystemRow (tuple : CatalogTuple) : Bool :=
  match tuple.row with
  | .object _ namespaceOid _ => decide (namespaceOid ≠ kNamespacePublic)
  | .column .. => false

/-- The tombstone: retyped, and stamped with the dropping transaction when there is one. -/
def retyped (trxId : Nat) (tuple : CatalogTuple) : CatalogTuple :=
  match tuple.row with
  | .object oid namespaceOid _ =>
    { tuple with
      row := .object oid namespaceOid kTypeDroppedTable
      trxId := if trxId = kBootstrapXid then tuple.trxId else trxId }
  | .column .. => tuple

/-- A dependent row of a dropped table: retired outright, or marked by its transaction. -/
def droppedRow (trxId : Nat) (tuple : CatalogTuple) : Option CatalogTuple :=
  if trxId = kBootstrapXid then none else some { tuple with trxId := trxId, deleted := true }

/-- `DropTable`. -/
def dropTable (s : OidState) (table : Oid) (trxId : Nat) (retype : WriteOutcome)
    (outcome : Nat → WriteOutcome) : OidState × StatusOr Unit :=
  match s.slots.findIdx? fun slot => slot.any (isTableRow table) with
  | none => (s, .error (.notFound "no sys.objects row for this relation"))
  | some slot =>
    match (s.slots[slot]?).join with
    | none => (s, .error (.notFound "no sys.objects row for this relation"))
    | some tuple =>
      if isSystemRow tuple then
        (s, .error (.invalidArgument "a system relation cannot be dropped"))
      else
        match s.changeRow trxId slot (some tuple) (some (retyped trxId tuple)) retype with
        | (s, .error e) => (s, .error e)
        | (s, .ok _) =>
          s.sweepSlots trxId (isColumnOf table) (droppedRow trxId) outcome
            (List.range s.slots.length)

/-- `RetireDeleteMarksBelow`. -/
def retireDeleteMarksBelow (s : OidState) (horizon : Nat) (outcome : Nat → WriteOutcome) :
    OidState :=
  (s.sweepSlots kBootstrapXid (fun tuple => tuple.deleted && decide (tuple.trxId < horizon))
    (fun _ => none) outcome (List.range s.slots.length)).1

-- How transactions end

def endTrx (s : OidState) (trxId : Nat) (record : CatalogRecord) : OidState :=
  { s with
    live := s.live.erase trxId
    trail := s.trail.filter fun entry => entry.1 != trxId
    log := record :: s.log }

/-- The compensations of a rollback, newest first; on catalog pages none is logged. -/
def compensate (s : OidState) (trxId : Nat) : OidState :=
  (s.trail.filter fun entry => entry.1 == trxId).foldl
    (fun s entry => s.setSlot entry.2.1 entry.2.2) s

-- Crash and mount

/-- The newest write of a slot in a log, and its LSN. -/
def lastWrite (slot : Nat) : List CatalogRecord → Option (Nat × Option CatalogTuple)
  | [] => none
  | .write _ at_ after :: older =>
    if at_ = slot then some (older.length + 1, after) else lastWrite slot older
  | _ :: older => lastWrite slot older

def slotLsn (slot : Nat) (log : List CatalogRecord) : Nat := (lastWrite slot log).elim 0 (·.1)

/-- The image of a slot that a crash leaves: one that was written back, or the first. -/
def image (s : OidState) (slot i : Nat) : Nat × Option CatalogTuple :=
  ((s.images slot)[i]?).getD (0, (s.base[slot]?).join)

/-- What redo leaves in a slot. -/
def redone (s : OidState) (kept : List CatalogRecord) (survivor : Nat → Nat) (slot : Nat) :
    Option CatalogTuple :=
  match lastWrite slot kept with
  | some (lsn, after) =>
    if (s.image slot (survivor slot)).1 < lsn then after else (s.image slot (survivor slot)).2
  | none => (s.image slot (survivor slot)).2

/-- A transaction is undone at the mount if neither of its ends is in the log. -/
def isLoser (kept : List CatalogRecord) (trxId : Nat) : Bool :=
  !kept.contains (.commit trxId) && !kept.contains (.abort trxId)

/-- `RecoveryUndo::Compensate`, of one undo record. -/
def undoOne (kept : List CatalogRecord) (s : OidState) : CatalogRecord → OidState
  | .undo trxId slot before =>
    if isLoser kept trxId then (s.setSlot slot before).appendWrite trxId slot before else s
  | _ => s

/-- The TXN_ABORT that ends a loser's rollback. -/
def abortOne (kept : List CatalogRecord) (s : OidState) : CatalogRecord → OidState
  | .undo trxId _ _ => if isLoser kept trxId then { s with log := .abort trxId :: s.log } else s
  | _ => s

/-- `RecoveryUndo::RollBack`: the undo records of the losers, newest first. -/
def undoLosers (s : OidState) (kept : List CatalogRecord) : OidState :=
  kept.foldl (abortOne kept) (kept.foldl (undoOne kept) s)

/-- A crash (or a clean end, where the log is synced and everything written back) and the mount
    after it: redo, undo of the losers, and every delete-mark retired. -/
def restart (s : OidState) (lost : Nat) (survivor : Nat → Nat) : OidState :=
  let kept := s.log.drop lost
  let redoneSlots := (List.range s.slots.length).map (s.redone kept survivor)
  let mounted : OidState :=
    { s with
      slots := redoneSlots
      next := none
      log := kept
      synced := kept.length
      live := []
      trail := [] }
  (mounted.undoLosers kept).retireDeleteMarksBelow (2 ^ 64 - 1) fun _ => .done

end OidState

inductive OidAction where
  | begin
  | create (trxId : Nat) (plan : CreatePlan)
  | drop (trxId : Nat) (table : Oid) (retype : WriteOutcome) (outcome : Nat → WriteOutcome)
  | commit (trxId : Nat)
  | rollback (trxId : Nat)
  | purge (horizon : Nat) (outcome : Nat → WriteOutcome)
  | sync
  | writeBack (slot : Nat)
  | restart (lost : Nat) (survivor : Nat → Nat)

namespace OidState

/-- A statement's transaction is live, or there is no transaction manager. -/
def writes (s : OidState) (trxId : Nat) : Bool :=
  decide (trxId = kBootstrapXid) || s.live.contains trxId

/-- One step; `none` is a step that cannot be taken. -/
def step (s : OidState) : OidAction → Option OidState
  | .begin => some { s with nextTrxId := s.nextTrxId + 1, live := s.nextTrxId :: s.live }
  | .create trxId plan => if s.writes trxId then some (s.createTable trxId plan).1 else none
  | .drop trxId table retype outcome =>
    if s.writes trxId then some (s.dropTable table trxId retype outcome).1 else none
  | .commit trxId => if s.live.contains trxId then some (s.endTrx trxId (.commit trxId)) else none
  | .rollback trxId =>
    if s.live.contains trxId then some ((s.compensate trxId).endTrx trxId (.abort trxId)) else none
  | .purge horizon outcome =>
    -- a horizon is no later than any transaction that runs
    if s.live.all fun trxId => decide (horizon ≤ trxId) then
      some (s.retireDeleteMarksBelow horizon outcome)
    else none
  | .sync => some { s with synced := s.log.length }
  | .writeBack slot =>
    if slotLsn slot s.log ≤ s.synced then
      let written := (slotLsn slot s.log, (s.slots[slot]?).join)
      some { s with images := fun other =>
        if other = slot then written :: s.images slot else s.images other }
    else none
  | .restart lost survivor =>
    if s.synced ≤ (s.log.drop lost).length then some (s.restart lost survivor) else none

end OidState

/-- A bootstrapped database: its rows carry oids below the user range. -/
structure BootstrappedCatalog where
  slots : List (Option CatalogTuple)
  system : ∀ tuple, some tuple ∈ slots → tuple.row.oid < kUserOidStart

def BootstrappedCatalog.start (catalog : BootstrappedCatalog) : OidState :=
  { slots := catalog.slots, base := catalog.slots }

end Kds.Catalog
