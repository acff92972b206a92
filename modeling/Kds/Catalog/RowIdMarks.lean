/-
  Kds.Catalog.RowIdMarks

  The row-id sequences of an instance over its whole life: core 0 issues ids and carves ranges,
  grants travel to the peers and are issued from there, statements name ids of their own, the log
  is synced and pages are written back, and the instance crashes and is redone.

  A crash keeps a part of the log, at least what was synced, and of each relation's catalog row some
  image that was written back; redo replays the kept records that are newer than the image.  So a
  mark is as durable as its record is (`Durable`).
-/

import Kds.Catalog.RowIds
import Mathlib.Data.List.Range
import Mathlib.Logic.Function.Basic

namespace Kds.Catalog

open List
open Function (update update_self update_of_ne update_eq_self)

-- The log

/-- The catalog records of a log, newest first: each is a relation's whole row. -/
abbrev CatalogLog := List (Oid × SysTableRow)

/-- A relation's newest record and its LSN, which is its place in the log. -/
def lastRecord (oid : Oid) : CatalogLog → Option (Nat × SysTableRow)
  | [] => none
  | (o, row) :: older => if o = oid then some (older.length + 1, row) else lastRecord oid older

def lsnOf (oid : Oid) (log : CatalogLog) : Nat :=
  match lastRecord oid log with
  | some (lsn, _) => lsn
  | none => 0

/-- How much of a call's rewrite of the catalog row comes to pass (`OverwriteLogged`). -/
inductive PersistOutcome where
  | done
  | overwriteFails (e : Status)
  | appendFails (e : Status)
  | stampFails (e : Status)
  deriving DecidableEq

/-- A granted run on its way to a peer. -/
structure RowIdGrant where
  core : Nat
  oid : Oid
  first : Nat
  count : Nat
  deriving DecidableEq

/-- An instance: its catalog rows in memory, as CREATE TABLE left them (checkpointed), as the log
    has them and as they were written back; the peers' leases; and what was handed out so far. -/
structure RowIdState where
  page : Oid → Option SysTableRow
  base : Oid → Option SysTableRow
  log : CatalogLog := []
  synced : Nat := 0
  images : Oid → List (Nat × SysTableRow) := fun _ => []
  leases : Nat → Oid → Option RowIdLease := fun _ _ => none
  grants : List RowIdGrant := []
  /-- The ids the engine issued, in order. -/
  issued : Oid → List Nat := fun _ => []
  /-- The ids the mark was moved past: issued, carved, or admitted at or above it. -/
  taken : Oid → List Nat := fun _ => []
  /-- The ids admitted below the mark. -/
  below : Oid → List Nat := fun _ => []
  /-- The record that the relation's last successful call rests on. -/
  handed : Oid → Nat := fun _ => 0

inductive RowIdAction where
  | allocate (oid : Oid) (outcome : PersistOutcome)
  | fill (oid : Oid) (count : Nat) (outcome : PersistOutcome)
  | carve (core : Nat) (oid : Oid) (count : Nat) (outcome : PersistOutcome)
  | deliver (i : Nat)
  | next (core : Nat) (oid : Oid)
  | admitExplicit (oid : Oid) (id : Nat) (outcome : PersistOutcome)
  | sync
  | writeBack (oid : Oid)
  | crash (lost : Nat) (survivor : Oid → Nat)

namespace RowIdState

/-- The row a relation's newest record holds, or the one it was created with. -/
def loggedRow (s : RowIdState) (log : CatalogLog) (oid : Oid) : Option SysTableRow :=
  match lastRecord oid log with
  | some (_, row) => some row
  | none => s.base oid

/-- `OverwriteLogged`. -/
def persist (s : RowIdState) (oid : Oid) (row : SysTableRow) (outcome : PersistOutcome) :
    RowIdState × StatusOr Unit :=
  let page := update s.page oid (some row)
  match outcome with
  | .overwriteFails e => (s, .error e)
  | .appendFails e => ({ s with page := page }, .error e)
  | .stampFails e => ({ s with page := page, log := (oid, row) :: s.log }, .error e)
  | .done => ({ s with page := page, log := (oid, row) :: s.log }, .ok ())

/-- What a successful call leaves of the record: ids the mark has passed, and where they rest. -/
def hand (s : RowIdState) (oid : Oid) (ids : List Nat) : RowIdState :=
  { s with
    taken := update s.taken oid (ids ++ s.taken oid)
    handed := update s.handed oid (lsnOf oid s.log) }

/-- Ids given to rows. -/
def issue (s : RowIdState) (oid : Oid) (ids : List Nat) : RowIdState :=
  { s with issued := update s.issued oid (ids ++ s.issued oid) }

/-- An id admitted below the mark. -/
def noteBelow (s : RowIdState) (oid : Oid) (id : Nat) : RowIdState :=
  { s with below := update s.below oid (id :: s.below oid) }

def noTable : Status := .notFound "no sys.tables row for this oid"

/-- `Catalog::AllocateRowId` on core 0. -/
def allocateRowId (s : RowIdState) (oid : Oid) (outcome : PersistOutcome) :
    RowIdState × StatusOr Nat :=
  match s.page oid with
  | none => (s, .error noTable)
  | some row =>
    match takeRowId row with
    | .error e => (s, .error e)
    | .ok (id, row') =>
      match s.persist oid row' outcome with
      | (s', .error e) => (s', .error e)
      | (s', .ok _) => ((s'.hand oid [id]).issue oid [id], .ok id)

/-- `Catalog::AllocateRowIdRange`. -/
def allocateRowIdRange (s : RowIdState) (oid : Oid) (count : Nat) (outcome : PersistOutcome) :
    RowIdState × StatusOr Nat :=
  if count = 0 then (s, .error (.invalidArgument "a row-id range of zero has no first id"))
  else
    match s.page oid with
    | none => (s, .error noTable)
    | some row =>
      match takeRowIdRange row count with
      | .error e => (s, .error e)
      | .ok (first, row') =>
        match s.persist oid row' outcome with
        | (s', .error e) => (s', .error e)
        | (s', .ok _) => (s'.hand oid (List.range' first count), .ok first)

/-- `Catalog::AdmitExplicitRowId`. -/
def admitExplicitRowId (s : RowIdState) (oid : Oid) (id : Nat) (outcome : PersistOutcome) :
    RowIdState × StatusOr Unit :=
  match checkSpellable id with
  | .error e => (s, .error e)
  | .ok _ =>
    match s.page oid with
    | none => (s, .error noTable)
    | some row =>
      let admitted (s : RowIdState) : RowIdState :=
        if id < row.nextId then (s.hand oid []).noteBelow oid id else s.hand oid [id]
      match admitRowId oid row id with
      | .error e => (s, .error e)
      -- returned before anything is persisted
      | .ok .unchanged => (admitted s, .ok ())
      | .ok (.persist row') =>
        match s.persist oid row' outcome with
        | (s', .error e) => (s', .error e)
        | (s', .ok _) => (admitted s', .ok ())

/-- A sorted fill places its whole range. -/
def sortedFill (s : RowIdState) (oid : Oid) (count : Nat) (outcome : PersistOutcome) : RowIdState :=
  match s.allocateRowIdRange oid count outcome with
  | (s', .error _) => s'
  | (s', .ok first) => s'.issue oid (List.range' first count)

/-- The count a request asks for. -/
def requestCount (count : Nat) : Nat := if count = 0 then kRowIdLeasePerGrant else count

/-- The handler of a `kRowIdLease` request: a carve that fails is granted as none. -/
def carveForPeer (s : RowIdState) (core : Nat) (oid : Oid) (count : Nat)
    (outcome : PersistOutcome) : RowIdState :=
  match s.allocateRowIdRange oid (requestCount count) outcome with
  | (s', .error _) => { s' with grants := s'.grants ++ [⟨core, oid, 0, 0⟩] }
  | (s', .ok first) =>
    { s' with grants := s'.grants ++ [⟨core, oid, first, requestCount count⟩] }

def setLease (s : RowIdState) (core : Nat) (oid : Oid) (lease : RowIdLease) : RowIdState :=
  let ofCore := update (s.leases core) oid (some lease)
  { s with leases := update s.leases core ofCore }

def leaseOf (s : RowIdState) (core : Nat) (oid : Oid) : RowIdLease := (s.leases core oid).getD {}

/-- The receiver of a grant: none is a denial, of an entry that is there. -/
def receiveGrant (s : RowIdState) (grant : RowIdGrant) : RowIdState :=
  if grant.count = 0 then
    match s.leases grant.core grant.oid with
    | none => s
    | some lease => s.setLease grant.core grant.oid { lease with denied := true }
  else s.setLease grant.core grant.oid
    ((s.leaseOf grant.core grant.oid).grant grant.first grant.count)

/-- `AllocateRowId` on a peer. -/
def nextLeased (s : RowIdState) (core : Nat) (oid : Oid) : RowIdState :=
  match (s.leaseOf core oid).take oid with
  | (lease, .error _) => s.setLease core oid lease
  | (lease, .ok id) => (s.setLease core oid lease).issue oid [id]

/-- The image a crash leaves of a relation's row: one that was written back, or the first. -/
def image (s : RowIdState) (oid : Oid) (i : Nat) : Nat × Option SysTableRow :=
  match (s.images oid)[i]? with
  | some (lsn, row) => (lsn, some row)
  | none => (0, s.base oid)

/-- The row redo leaves: the newest kept record, if the image is older than it. -/
def redoneRow (s : RowIdState) (kept : CatalogLog) (survivor : Oid → Nat) (oid : Oid) :
    Option SysTableRow :=
  let (lsn, row) := s.image oid (survivor oid)
  if lsn < lsnOf oid kept then s.loggedRow kept oid else row

/-- A crash, and the mount after it: nothing of the peers' leases is left. -/
def crashAndRedo (s : RowIdState) (lost : Nat) (survivor : Oid → Nat) : RowIdState :=
  let kept := s.log.drop lost
  { s with
    page := s.redoneRow kept survivor
    log := kept
    synced := kept.length
    leases := fun _ _ => none
    grants := [] }

/-- One step; `none` is a step that cannot be taken. -/
def step (s : RowIdState) : RowIdAction → Option RowIdState
  | .allocate oid outcome => some (s.allocateRowId oid outcome).1
  | .fill oid count outcome => some (s.sortedFill oid count outcome)
  | .carve core oid count outcome => some (s.carveForPeer core oid count outcome)
  | .deliver i =>
    (s.grants[i]?).map fun grant =>
      ({ s with grants := s.grants.eraseIdx i } : RowIdState).receiveGrant grant
  | .next core oid => some (s.nextLeased core oid)
  | .admitExplicit oid id outcome => some (s.admitExplicitRowId oid id outcome).1
  | .sync => some { s with synced := s.log.length }
  | .writeBack oid =>
    -- the log goes first
    match s.page oid with
    | none => none
    | some row =>
      if lsnOf oid s.log ≤ s.synced then
        some { s with
          images := update s.images oid ((lsnOf oid s.log, row) :: s.images oid) }
      else none
  | .crash lost survivor =>
    if s.synced ≤ (s.log.drop lost).length then some (s.crashAndRedo lost survivor) else none

end RowIdState

-- Records and what is older than them

theorem lastRecord_cons_self (oid : Oid) (row : SysTableRow) (log : CatalogLog) :
    lastRecord oid ((oid, row) :: log) = some (log.length + 1, row) := if_pos rfl

variable {oid : Oid}

theorem lastRecord_cons_of_ne {o : Oid} (h : o ≠ oid) (row : SysTableRow) (log : CatalogLog) :
    lastRecord oid ((o, row) :: log) = lastRecord oid log := if_neg h

theorem lsnOf_cons_self (oid : Oid) (row : SysTableRow) (log : CatalogLog) :
    lsnOf oid ((oid, row) :: log) = log.length + 1 := by
  rw [lsnOf, lastRecord_cons_self]

theorem lsnOf_cons_of_ne {o : Oid} (h : o ≠ oid) (row : SysTableRow) (log : CatalogLog) :
    lsnOf oid ((o, row) :: log) = lsnOf oid log := by
  rw [lsnOf, lastRecord_cons_of_ne h, lsnOf]

variable {row : SysTableRow} {log : CatalogLog}

theorem lsnOf_eq_of_lastRecord {lsn : Nat}
    (h : lastRecord oid log = some (lsn, row)) : lsnOf oid log = lsn := by
  rw [lsnOf, h]

theorem lsnOf_le_length (oid : Oid) (log : CatalogLog) : lsnOf oid log ≤ log.length := by
  induction log with
  | nil => exact Nat.le_refl 0
  | cons entry older ih =>
    obtain ⟨o, row⟩ := entry
    by_cases h : o = oid
    · subst h
      exact Nat.le_of_eq (lsnOf_cons_self ..)
    · rw [lsnOf_cons_of_ne h]
      exact Nat.le_succ_of_le ih

theorem lastRecord_of_lsnOf_zero (h : lsnOf oid log = 0) :
    lastRecord oid log = none := by
  induction log with
  | nil => rfl
  | cons entry older ih =>
    obtain ⟨o, row⟩ := entry
    by_cases ho : o = oid
    · subst ho
      rw [lsnOf_cons_self] at h
      cases h
    · rw [lsnOf_cons_of_ne ho] at h
      rw [lastRecord_cons_of_ne ho]
      exact ih h

theorem lastRecord_drop {n lsn : Nat}
    (h : lastRecord oid (log.drop n) = some (lsn, row)) (hle : lsnOf oid log ≤ lsn) :
    lastRecord oid log = some (lsn, row) := by
  induction log generalizing n with
  | nil => rw [drop_nil] at h; exact h
  | cons entry older ih =>
    cases n with
    | zero => exact h
    | succ n =>
      obtain ⟨o, r⟩ := entry
      rw [drop_succ_cons] at h
      by_cases ho : o = oid
      · subst ho
        rw [lsnOf_cons_self] at hle
        have hshort := lsnOf_le_length o (older.drop n)
        rw [lsnOf_eq_of_lastRecord h, length_drop] at hshort
        omega
      · rw [lsnOf_cons_of_ne ho] at hle
        rw [lastRecord_cons_of_ne ho]
        exact ih h hle

theorem lastRecord_drop_of_le {n : Nat}
    (h : lsnOf oid log ≤ (log.drop n).length) :
      lastRecord oid (log.drop n) = lastRecord oid log := by
  induction log generalizing n with
  | nil => rw [drop_nil]
  | cons entry older ih =>
    cases n with
    | zero => rfl
    | succ n =>
      obtain ⟨o, row⟩ := entry
      rw [drop_succ_cons] at h ⊢
      by_cases ho : o = oid
      · subst ho
        rw [lsnOf_cons_self, length_drop] at h
        omega
      · rw [lsnOf_cons_of_ne ho] at h
        rw [lastRecord_cons_of_ne ho]
        exact ih h

namespace RowIdState

variable {s : RowIdState} {oid : Oid} {row row' : SysTableRow}

theorem loggedRow_cons_self (s : RowIdState) (oid : Oid) (row : SysTableRow) (log : CatalogLog) :
    s.loggedRow ((oid, row) :: log) oid = some row := by
  rw [loggedRow, lastRecord_cons_self]

theorem loggedRow_cons_of_ne {o : Oid} (h : o ≠ oid) (row : SysTableRow) (log : CatalogLog) :
    s.loggedRow ((o, row) :: log) oid = s.loggedRow log oid := by
  rw [loggedRow, lastRecord_cons_of_ne h, loggedRow]

theorem loggedRow_drop_of_lsn {n : Nat} (h : lsnOf oid (s.log.drop n) = lsnOf oid s.log) :
    s.loggedRow (s.log.drop n) oid = s.loggedRow s.log oid := by
  have hle : lsnOf oid s.log ≤ (s.log.drop n).length := h ▸ lsnOf_le_length oid _
  rw [loggedRow, loggedRow, lastRecord_drop_of_le hle]

end RowIdState

-- Durability

def ValidMark (row : SysTableRow) : Prop :=
  kFirstRowId ≤ row.nextId ∧ row.nextId ≤ kMaxKeystoneId + 1

/-- A row that is ahead of everything handed out and admitted. -/
structure SafeRow (taken below : List Nat) (row : SysTableRow) : Prop where
  mark : ∀ id ∈ taken, id < row.nextId
  flag : below ≠ [] → row.keyOrder = .unordered

theorem SafeRow.covers {taken below : List Nat} {row' : SysTableRow}
    (h : SafeRow taken below row) (hcovers : row'.Covers row) : SafeRow taken below row' :=
  ⟨fun id hid => Nat.lt_of_lt_of_le (h.mark id hid) hcovers.mark, fun hne =>
    hcovers.flag (h.flag hne)⟩

/-- **What the mark rests on**: the row in memory is ahead of all that was handed out, and so is
    every record and every image that is no older than the last successful call's record. -/
structure Durable (s : RowIdState) : Prop where
  page : ∀ oid row, s.page oid = some row → ValidMark row ∧ SafeRow (s.taken oid) (s.below oid) row
  records : ∀ n oid lsn row, lastRecord oid (s.log.drop n) = some (lsn, row) →
    ValidMark row ∧ (s.handed oid ≤ lsn → SafeRow (s.taken oid) (s.below oid) row)
  base : ∀ oid row, s.base oid = some row →
    ValidMark row ∧ (s.handed oid = 0 → SafeRow (s.taken oid) (s.below oid) row)
  images : ∀ oid lsn row, (lsn, row) ∈ s.images oid →
    ValidMark row ∧ (s.handed oid ≤ lsn → SafeRow (s.taken oid) (s.below oid) row)
  imageSynced : ∀ oid lsn row, (lsn, row) ∈ s.images oid → lsn ≤ s.synced
  imageLogged : ∀ oid lsn row, (lsn, row) ∈ s.images oid → ∀ n, lsn ≤ (s.log.drop n).length →
    lsn ≤ lsnOf oid (s.log.drop n)
  imageCovers : ∀ oid lsn row, (lsn, row) ∈ s.images oid → ∀ n logged,
    lsnOf oid (s.log.drop n) = lsn → s.loggedRow (s.log.drop n) oid = some logged →
    row.Covers logged
  pageCovers : ∀ oid row logged, s.page oid = some row → s.loggedRow s.log oid = some logged →
    row.Covers logged
  handed : ∀ oid, s.handed oid ≤ lsnOf oid s.log
  synced : s.synced ≤ s.log.length

namespace Durable

variable {s : RowIdState} {oid : Oid} {row row' : SysTableRow}

theorem pageOnly (h : Durable s) (hrow : s.page oid = some row) (hcovers : row'.Covers row)
    (hvalid : ValidMark row') :
    Durable { s with page := update s.page oid (some row') } := by
  refine ⟨fun o r hr => ?_, h.records, h.base, h.images, h.imageSynced, h.imageLogged,
    h.imageCovers, fun o r logged hr hlogged => ?_, h.handed, h.synced⟩
  · dsimp only at hr
    by_cases ho : o = oid
    · subst ho
      rw [update_self] at hr
      cases hr
      exact ⟨hvalid, (h.page o row hrow).2.covers hcovers⟩
    · rw [update_of_ne ho] at hr
      exact h.page o r hr
  · dsimp only at hr
    by_cases ho : o = oid
    · subst ho
      rw [update_self] at hr
      cases hr
      exact hcovers.trans (h.pageCovers o row logged hrow hlogged)
    · rw [update_of_ne ho] at hr
      exact h.pageCovers o r logged hr hlogged

theorem logged (h : Durable s) (hrow : s.page oid = some row) (hcovers : row'.Covers row)
    (hvalid : ValidMark row') :
    Durable { s with
      page := update s.page oid (some row')
      log := (oid, row') :: s.log } := by
  have hpage := h.pageOnly hrow hcovers hvalid
  have hsafe := (h.page oid row hrow).2.covers hcovers
  refine ⟨hpage.page, fun n o lsn r hlast => ?_, h.base, h.images, h.imageSynced,
    fun o lsn r himg n hn => ?_, fun o lsn r himg n logged hlsn hlog => ?_,
    fun o r logged hr hlog => ?_, fun o => ?_, Nat.le_succ_of_le h.synced⟩
  · cases n with
    | succ n => exact h.records n o lsn r hlast
    | zero =>
      by_cases ho : oid = o
      · subst ho
        rw [drop_zero, lastRecord_cons_self] at hlast
        obtain ⟨-, rfl⟩ := Prod.mk.inj (Option.some.inj hlast)
        exact ⟨hvalid, fun _ => hsafe⟩
      · rw [drop_zero, lastRecord_cons_of_ne ho] at hlast
        exact h.records 0 o lsn r hlast
  · have hsync := Nat.le_trans (h.imageSynced o lsn r himg) h.synced
    cases n with
    | succ n => exact h.imageLogged o lsn r himg n hn
    | zero =>
      have hold := h.imageLogged o lsn r himg 0 hsync
      show lsn ≤ lsnOf o ((oid, row') :: s.log)
      by_cases ho : oid = o
      · subst ho
        rw [lsnOf_cons_self]
        exact Nat.le_succ_of_le hsync
      · rw [lsnOf_cons_of_ne ho]
        exact hold
  · have hsync := Nat.le_trans (h.imageSynced o lsn r himg) h.synced
    cases n with
    | succ n => exact h.imageCovers o lsn r himg n logged hlsn hlog
    | zero =>
      change lsnOf o ((oid, row') :: s.log) = lsn at hlsn
      change s.loggedRow ((oid, row') :: s.log) o = some logged at hlog
      by_cases ho : oid = o
      · subst ho
        rw [lsnOf_cons_self] at hlsn
        omega
      · rw [lsnOf_cons_of_ne ho] at hlsn
        rw [RowIdState.loggedRow_cons_of_ne ho] at hlog
        exact h.imageCovers o lsn r himg 0 logged hlsn hlog
  · change s.loggedRow ((oid, row') :: s.log) o = some logged at hlog
    by_cases ho : oid = o
    · subst ho
      rw [RowIdState.loggedRow_cons_self] at hlog
      change update s.page oid (some row') oid = some r at hr
      rw [update_self] at hr
      rw [← Option.some.inj hr, ← Option.some.inj hlog]
      exact SysTableRow.Covers.refl row'
    · rw [RowIdState.loggedRow_cons_of_ne ho] at hlog
      exact hpage.pageCovers o r logged hr hlog
  · show s.handed o ≤ lsnOf o ((oid, row') :: s.log)
    have hold := h.handed o
    by_cases ho : oid = o
    · subst ho
      rw [lsnOf_cons_self]
      exact Nat.le_succ_of_le (Nat.le_trans hold (lsnOf_le_length ..))
    · rw [lsnOf_cons_of_ne ho]
      exact hold

/-- A record, the first row or an image that is as new as the last record covers the row that is
    in the log as it is in memory. -/
theorem covers_of_lsn (h : Durable s)
    (hlogged : s.loggedRow s.log oid = some row) :
    (∀ n lsn r, lastRecord oid (s.log.drop n) = some (lsn, r) → lsnOf oid s.log ≤ lsn →
        r.Covers row) ∧
      (∀ r, s.base oid = some r → lsnOf oid s.log = 0 → r.Covers row) ∧
      ∀ lsn r, (lsn, r) ∈ s.images oid → lsnOf oid s.log ≤ lsn → r.Covers row := by
  refine ⟨fun n lsn r hlast hle => ?_, fun r hr hzero => ?_, fun lsn r himg hle => ?_⟩
  · have heq := lastRecord_drop hlast hle
    rw [RowIdState.loggedRow, heq] at hlogged
    rw [Option.some.inj hlogged]
    exact SysTableRow.Covers.refl row
  · rw [RowIdState.loggedRow, lastRecord_of_lsnOf_zero hzero] at hlogged
    rw [Option.some.inj (hr.symm.trans hlogged)]
    exact SysTableRow.Covers.refl row
  · have hsync := Nat.le_trans (h.imageSynced oid lsn r himg) h.synced
    have hge := h.imageLogged oid lsn r himg 0 hsync
    exact h.imageCovers oid lsn r himg 0 row (Nat.le_antisymm hle hge) hlogged

theorem handOut (h : Durable s) (hrow : s.page oid = some row)
    (hlogged : s.loggedRow s.log oid = some row) {taken below : List Nat}
    (hsafe : SafeRow taken below row) :
    Durable { s with
      taken := update s.taken oid taken
      below := update s.below oid below
      handed := update s.handed oid (lsnOf oid s.log) } := by
  obtain ⟨hrecords, hbase, himages⟩ := h.covers_of_lsn hlogged
  refine ⟨fun o r hr => ?_, fun n o lsn r hlast => ?_, fun o r hr => ?_, fun o lsn r himg => ?_,
    h.imageSynced, h.imageLogged, h.imageCovers, h.pageCovers, fun o => ?_, h.synced⟩
  all_goals dsimp only
  · by_cases ho : o = oid
    · subst ho
      rw [update_self, update_self, Option.some.inj (hr.symm.trans hrow)]
      exact ⟨(h.page o row hrow).1, hsafe⟩
    · rw [update_of_ne ho, update_of_ne ho]
      exact h.page o r hr
  · by_cases ho : o = oid
    · subst ho
      rw [update_self, update_self, update_self]
      exact ⟨(h.records n o lsn r hlast).1, fun hle => hsafe.covers (hrecords n lsn r hlast hle)⟩
    · rw [update_of_ne ho, update_of_ne ho, update_of_ne ho]
      exact h.records n o lsn r hlast
  · by_cases ho : o = oid
    · subst ho
      rw [update_self, update_self, update_self]
      exact ⟨(h.base o r hr).1, fun hzero => hsafe.covers (hbase r hr hzero)⟩
    · rw [update_of_ne ho, update_of_ne ho, update_of_ne ho]
      exact h.base o r hr
  · by_cases ho : o = oid
    · subst ho
      rw [update_self, update_self, update_self]
      exact ⟨(h.images o lsn r himg).1, fun hle => hsafe.covers (himages lsn r himg hle)⟩
    · rw [update_of_ne ho, update_of_ne ho, update_of_ne ho]
      exact h.images o lsn r himg
  · by_cases ho : o = oid
    · subst ho
      rw [update_self]
    · rw [update_of_ne ho]
      exact h.handed o

theorem hand (h : Durable s) (hrow : s.page oid = some row)
    (hlogged : s.loggedRow s.log oid = some row) {ids : List Nat}
    (hids : ∀ id ∈ ids, id < row.nextId) : Durable (s.hand oid ids) := by
  have hold := (h.page oid row hrow).2
  have hsafe : SafeRow (ids ++ s.taken oid) (s.below oid) row :=
    ⟨fun id hid => (mem_append.mp hid).elim (hids id) (hold.mark id), hold.flag⟩
  have hout := h.handOut hrow hlogged hsafe
  rw [update_eq_self] at hout
  exact hout

theorem noteBelow (h : Durable s) (hrow : s.page oid = some row)
    (hlogged : s.loggedRow s.log oid = some row) (hflag : row.keyOrder = .unordered) (id : Nat) :
    Durable ((s.hand oid []).noteBelow oid id) := by
  have hsafe : SafeRow (s.taken oid) (id :: s.below oid) row :=
    ⟨(h.page oid row hrow).2.mark, fun _ => hflag⟩
  exact h.handOut hrow hlogged hsafe

theorem owners (h : Durable s) (issued : Oid → List Nat) (leases : Nat → Oid → Option RowIdLease)
    (grants : List RowIdGrant) :
    Durable { s with issued := issued, leases := leases, grants := grants } :=
  ⟨h.page, h.records, h.base, h.images, h.imageSynced, h.imageLogged, h.imageCovers, h.pageCovers,
    h.handed, h.synced⟩

theorem sync (h : Durable s) : Durable { s with synced := s.log.length } :=
  ⟨h.page, h.records, h.base, h.images,
    fun oid lsn row himg => Nat.le_trans (h.imageSynced oid lsn row himg) h.synced, h.imageLogged,
    h.imageCovers, h.pageCovers, h.handed, Nat.le_refl _⟩

theorem writeBack (h : Durable s) (hrow : s.page oid = some row)
    (hsync : lsnOf oid s.log ≤ s.synced) :
    Durable { s with
      images := update s.images oid ((lsnOf oid s.log, row) :: s.images oid) } := by
  have hsplit : ∀ o lsn r,
      (lsn, r) ∈ update s.images oid ((lsnOf oid s.log, row) :: s.images oid) o →
      (o = oid ∧ lsn = lsnOf oid s.log ∧ r = row) ∨ (lsn, r) ∈ s.images o := by
    intro o lsn r himg
    by_cases ho : o = oid
    · subst ho
      rw [update_self] at himg
      rcases mem_cons.mp himg with heq | hold
      · exact .inl ⟨rfl, (Prod.mk.inj heq).1, (Prod.mk.inj heq).2⟩
      · exact .inr hold
    · rw [update_of_ne ho] at himg
      exact .inr himg
  refine ⟨h.page, h.records, h.base, fun o lsn r himg => ?_, fun o lsn r himg => ?_,
    fun o lsn r himg n hn => ?_, fun o lsn r himg n logged hlsn hlog => ?_, h.pageCovers, h.handed,
    h.synced⟩
  · rcases hsplit o lsn r himg with ⟨rfl, rfl, rfl⟩ | hold
    · exact ⟨(h.page o r hrow).1, fun _ => (h.page o r hrow).2⟩
    · exact h.images o lsn r hold
  · rcases hsplit o lsn r himg with ⟨rfl, rfl, rfl⟩ | hold
    · exact hsync
    · exact h.imageSynced o lsn r hold
  · rcases hsplit o lsn r himg with ⟨rfl, rfl, rfl⟩ | hold
    · show lsnOf o s.log ≤ lsnOf o (s.log.drop n)
      rw [lsnOf, lsnOf, lastRecord_drop_of_le hn]
    · exact h.imageLogged o lsn r hold n hn
  · rcases hsplit o lsn r himg with ⟨rfl, rfl, rfl⟩ | hold
    · apply h.pageCovers o r logged hrow
      exact (@RowIdState.loggedRow_drop_of_lsn s o n hlsn).symm.trans hlog
    · exact h.imageCovers o lsn r hold n logged hlsn hlog

theorem crash (h : Durable s) {lost : Nat} {survivor : Oid → Nat}
    (hkept : s.synced ≤ (s.log.drop lost).length)
    (hkeeps : ∀ oid, s.handed oid ≤ lsnOf oid (s.log.drop lost) ∨
      s.handed oid ≤ (s.image oid (survivor oid)).1) :
    Durable (s.crashAndRedo lost survivor) := by
  -- the image of a relation: how old it is, and what it is safe for
  have himage : ∀ o, (s.image o (survivor o)).1 ≤ lsnOf o (s.log.drop lost) ∧
      ∀ r, (s.image o (survivor o)).2 = some r →
        ValidMark r ∧
        (s.handed o ≤ (s.image o (survivor o)).1 → SafeRow (s.taken o) (s.below o) r) ∧
        ∀ logged, lsnOf o (s.log.drop lost) = (s.image o (survivor o)).1 →
          s.loggedRow (s.log.drop lost) o = some logged → r.Covers logged := by
    intro o
    rw [RowIdState.image]
    split
    · next lsn row hget =>
      have hmem := mem_of_getElem? hget
      have hold := h.images o lsn row hmem
      refine ⟨h.imageLogged o lsn row hmem lost
        (Nat.le_trans (h.imageSynced o lsn row hmem) hkept), fun r hr => ?_⟩
      cases hr
      exact ⟨hold.1, hold.2, h.imageCovers o lsn row hmem lost⟩
    · refine ⟨Nat.zero_le _, fun r hr => ?_⟩
      have hold := h.base o r hr
      refine ⟨hold.1, fun hle => hold.2 (Nat.le_zero.mp hle), fun logged hzero hlog => ?_⟩
      rw [RowIdState.loggedRow, lastRecord_of_lsnOf_zero hzero] at hlog
      rw [Option.some.inj (hr.symm.trans hlog)]
      exact SysTableRow.Covers.refl logged
  have hhanded : ∀ o, s.handed o ≤ lsnOf o (s.log.drop lost) := fun o =>
    (hkeeps o).elim id fun hle => Nat.le_trans hle (himage o).1
  have hdrop : ∀ n, (s.log.drop lost).drop n = s.log.drop (lost + n) := fun n => drop_drop
  -- the row after redo: of the newest kept record, or of the image
  have hredone : ∀ o r, s.redoneRow (s.log.drop lost) survivor o = some r →
      (∃ lsn, lastRecord o (s.log.drop lost) = some (lsn, r)) ∨
        (s.image o (survivor o)).2 = some r ∧
          lsnOf o (s.log.drop lost) = (s.image o (survivor o)).1 := by
    intro o r hr
    rw [RowIdState.redoneRow] at hr
    dsimp only at hr
    split_ifs at hr with holder
    · rw [lsnOf] at holder
      rw [RowIdState.loggedRow] at hr
      cases hlast : lastRecord o (s.log.drop lost) with
      | none => rw [hlast] at holder; exact absurd holder (Nat.not_lt_zero _)
      | some entry =>
        rw [hlast] at hr
        exact .inl ⟨entry.1, by rw [← Option.some.inj hr]⟩
    · exact .inr ⟨hr, Nat.le_antisymm (Nat.not_lt.mp holder) (himage o).1⟩
  refine ⟨fun o r hr => ?_, fun n o lsn r hlast => ?_, h.base, h.images,
    fun o lsn r himg => Nat.le_trans (h.imageSynced o lsn r himg) hkept,
    fun o lsn r himg n hn => ?_, fun o lsn r himg n logged hlsn hlog => ?_,
    fun o r logged hr hlog => ?_, hhanded, Nat.le_refl _⟩
  · rcases hredone o r hr with ⟨lsn, hlast⟩ | ⟨himg, hlsn⟩
    · have hold := h.records lost o lsn r hlast
      exact ⟨hold.1, hold.2 (lsnOf_eq_of_lastRecord hlast ▸ hhanded o)⟩
    · obtain ⟨hvalid, hsafe, -⟩ := (himage o).2 r himg
      exact ⟨hvalid, hsafe (hlsn ▸ hhanded o)⟩
  · change lastRecord o ((s.log.drop lost).drop n) = some (lsn, r) at hlast
    rw [hdrop] at hlast
    exact h.records _ o lsn r hlast
  · change lsn ≤ ((s.log.drop lost).drop n).length at hn
    show lsn ≤ lsnOf o ((s.log.drop lost).drop n)
    rw [hdrop] at hn ⊢
    exact h.imageLogged o lsn r himg _ hn
  · change lsnOf o ((s.log.drop lost).drop n) = lsn at hlsn
    change s.loggedRow ((s.log.drop lost).drop n) o = some logged at hlog
    rw [hdrop] at hlsn hlog
    exact h.imageCovers o lsn r himg _ logged hlsn hlog
  · change s.loggedRow (s.log.drop lost) o = some logged at hlog
    rcases hredone o r hr with ⟨lsn, hlast⟩ | ⟨himg, hlsn⟩
    · rw [RowIdState.loggedRow, hlast] at hlog
      rw [Option.some.inj hlog]
      exact SysTableRow.Covers.refl logged
    · exact ((himage o).2 r himg).2.2 logged hlsn hlog

end Durable

end Kds.Catalog
