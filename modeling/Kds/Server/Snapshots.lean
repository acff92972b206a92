/-
  Kds.Server.Snapshots

  Read views over the interleavings of one core: transactions begin and take statement snapshots,
  autocommit readers mint views, rows are inserted, overwritten and delete-marked in place, and
  transactions commit and roll back.  Beside the pages and the undo log the state remembers every
  write, which transactions committed and which rolled back, and with each minted view which had
  committed by then.

  `SnapshotState.committedBefore` is what a view stands for, said of these memories alone: the last
  write of a row by a transaction that had committed when the view was minted, or by its own.
-/

import Kds.Server.WriteRuns
import Kds.Txn.VersionChain

namespace Kds.Server

open Lib Storage Txn

structure SnapshotState where
  engine : Engine
  /-- Ids below this one were handed out, and their transactions ended, before the start. -/
  base : Nat
  /-- Every write of a row, newest first. -/
  history : Loc → List HeapTuple
  committed : List Nat := []
  aborted : List Nat := []
  /-- The minted views, each with what had committed by then. -/
  views : List (ReadView × List Nat) := []

inductive SnapshotAction where
  | begin (isolation : IsolationLevel)
  | startStatement (id : Nat)
  | mintView
  | write (id : Nat) (rel : RelationAccess) (stmt : WriteStatement) (loc : Loc)
  | insert (id relOid pageId pk : Nat) (payload : Bytes)
  | commit (id : Nat)
  | abort (id : Nat)

namespace SnapshotState

/-- A transaction that can take a step. -/
def activeTxn (s : SnapshotState) (id : Nat) : Option Transaction :=
  (s.engine.manager.find id).filter (·.active)

/-- A row overwritten or delete-marked: a version that is there, the conflict check, then the undo
    record, the trail entry and the page. -/
def writeVersion (e : Engine) (txn : Transaction) (rel : RelationAccess) (stmt : WriteStatement)
    (loc : Loc) : StatusOr (Store × Transaction) :=
  match e.store.tupleAt loc.1 loc.2 with
  | none => .error (.notFound "no such row")
  | some tuple =>
    if classify txn.view tuple.trxId tuple.deleted tuple.undoPtr = .noVersion then
      .error (.notFound "no version of the row is visible")
    else do
      let pk ← keystoneIdOfPayload tuple.payload
      checkWriteConflict txn tuple.trxId pk
      writeRow rel stmt e.store txn loc tuple pk

/-- A row placed; its undo record is for recovery alone, the tuple does not point to it. -/
def insertVersion (e : Engine) (txn : Transaction) (relOid pageId pk : Nat) (payload : Bytes) :
    StatusOr (Store × Transaction × Nat) := do
  let page ← e.store.get pageId
  let (page, slot) ← page.insertTuple payload txn.id noUndoPtr
  let (store, txn, _) ← appendUndo (e.store.put pageId page)
    (txn.noteInsert relOid pageId slot pk)
    { type := .insert, targetPageId := pageId, targetSlot := slot, pk := pk } pk
  .ok (store, txn, slot)

/-- What a write left in its slot goes on the row's history. -/
def remember (s : SnapshotState) (store : Store) (txn : Transaction) (loc : Loc) : SnapshotState :=
  { s with
    engine := { manager := s.engine.manager.update txn, store := store }
    history := Function.update s.history loc
      ((store.tupleAt loc.1 loc.2).toList ++ s.history loc) }

def mint (s : SnapshotState) (view : ReadView) : SnapshotState :=
  { s with views := (view, s.committed) :: s.views }

def setManager (s : SnapshotState) (manager : TransactionManager) : SnapshotState :=
  { s with engine := { s.engine with manager := manager } }

/-- One step; `none` is a step that cannot be taken, or fails. -/
def step (s : SnapshotState) : SnapshotAction → Option SnapshotState
  | .begin isolation =>
    match s.engine.manager.begin isolation with
    | .error _ => none
    | .ok (manager, txn) => some ((s.setManager manager).mint txn.view)
  | .startStatement id =>
    match s.activeTxn id with
    | none => none
    | some txn =>
      match s.engine.manager.startStatement txn with
      | .error _ => none
      | .ok txn' =>
        let s := s.setManager (s.engine.manager.update txn')
        -- REPEATABLE READ goes on with the view it has
        some (if txn.isolation = .readCommitted then s.mint txn'.view else s)
  | .mintView =>
    match s.engine.manager.mintReadView noTrxId with
    | .error _ => none
    | .ok view => some (s.mint view)
  | .write id rel stmt loc =>
    match s.activeTxn id with
    | none => none
    | some txn =>
      match writeVersion s.engine txn rel stmt loc with
      | .error _ => none
      | .ok (store, txn) => some (s.remember store txn loc)
  | .insert id relOid pageId pk payload =>
    match s.activeTxn id with
    | none => none
    | some txn =>
      match insertVersion s.engine txn relOid pageId pk payload with
      | .error _ => none
      | .ok (store, txn, slot) => some (s.remember store txn (pageId, slot))
  | .commit id =>
    match s.activeTxn id with
    | none => none
    | some txn =>
      some { s.setManager (s.engine.manager.update { txn with trail := [], active := false }) with
        committed := id :: s.committed }
  | .abort id =>
    match s.activeTxn id with
    | none => none
    | some txn =>
      match abort s.engine.store txn none with
      | (store, txn, _, none) =>
        some { s with
          engine := { manager := s.engine.manager.update txn, store := store }
          aborted := id :: s.aborted }
      | _ => none

/-- What each action does when it can be taken. -/
inductive Took (s : SnapshotState) : SnapshotAction → SnapshotState → Prop where
  | began {isolation m txn} : s.engine.manager.begin isolation = .ok (m, txn) →
      Took s (.begin isolation) ((s.setManager m).mint txn.view)
  | minted {id txn view} : s.activeTxn id = some txn →
      s.engine.manager.mintReadView txn.id = .ok view → Took s (.startStatement id)
        ((s.setManager (s.engine.manager.update { txn with view := view })).mint view)
  | kept {id txn} : s.activeTxn id = some txn →
      Took s (.startStatement id) (s.setManager (s.engine.manager.update txn))
  | viewed {view} : s.engine.manager.mintReadView noTrxId = .ok view →
    Took s .mintView (s.mint view)
  | wrote {id rel stmt loc txn store txn'} : s.activeTxn id = some txn →
      writeVersion s.engine txn rel stmt loc = .ok (store, txn') →
      Took s (.write id rel stmt loc) (s.remember store txn' loc)
  | inserted {id relOid pageId pk payload txn store txn' slot} : s.activeTxn id = some txn →
      insertVersion s.engine txn relOid pageId pk payload = .ok (store, txn', slot) →
      Took s (.insert id relOid pageId pk payload) (s.remember store txn' (pageId, slot))
  | committed {id txn} : s.activeTxn id = some txn → Took s (.commit id)
      { s.setManager (s.engine.manager.update { txn with trail := [], active := false }) with
        committed := id :: s.committed }
  | aborted {id txn store txn' logged} : s.activeTxn id = some txn →
      abort s.engine.store txn none = (store, txn', logged, none) → Took s (.abort id)
        { s with
          engine := { manager := s.engine.manager.update txn', store := store }
          aborted := id :: s.aborted }

/-- The writes of a row that were not rolled back. -/
def live (s : SnapshotState) (loc : Loc) : List HeapTuple :=
  (s.history loc).filter fun tuple => !s.aborted.contains tuple.trxId

/-- **What a view stands for**: the row as the last write left it that is by a transaction
    committed before the view was minted, or by the view's own. -/
def committedBefore (s : SnapshotState) (view : ReadView × List Nat) (loc : Loc) : Option Bytes :=
  seenVersion (fun id => decide (id < s.base) || view.2.contains id ||
    (decide (id = view.1.ownTrxId) && !s.aborted.contains id)) (s.history loc)

/-- A row read under a view: `Classify`, and `ResolveThroughUndo` where that needs it. -/
def resolve (s : SnapshotState) (view : ReadView) (loc : Loc) : StatusOr (Option Bytes) :=
  match s.engine.store.tupleAt loc.1 loc.2 with
  | none => .ok none
  | some tuple => visibleVersion view s.engine.store.undo tuple

end SnapshotState

/-- Pages to start from: nothing runs, and each row has one version, of a transaction that ended. -/
structure SettledStore where
  store : Store
  nextId : Nat
  bootstrap : alwaysVisibleTrxId < nextId
  writers : ∀ loc : Loc, ∀ tuple, store.tupleAt loc.1 loc.2 = some tuple →
    noTrxId < tuple.trxId ∧ tuple.trxId < nextId

def SettledStore.start (settled : SettledStore) : SnapshotState where
  engine := { manager := { nextId := settled.nextId }, store := settled.store }
  base := settled.nextId
  history loc := (settled.store.tupleAt loc.1 loc.2).toList

-- One write

/-- What a write of a row leaves, over the version `tuple` that was there. -/
structure Pushed (store store' : Store) (txn txn' : Transaction) (loc : Loc) (tuple : HeapTuple)
    (top : HeapTuple) : Prop where
  others : ∀ other : Loc, other ≠ loc →
    store'.tupleAt other.1 other.2 = store.tupleAt other.1 other.2
  here : store'.tupleAt loc.1 loc.2 = some top
  writer : top.trxId = txn.id
  supersedes : Supersedes store'.undo top tuple
  undo : ∃ record ptr, store.undo.append record = .ok (store'.undo, ptr)
  id_eq : txn'.id = txn.id
  view_eq : txn'.view = txn.view
  active_eq : txn'.active = txn.active
  trail : ∃ entry, txn'.trail = txn.trail ++ [entry] ∧ (entry.pageId, entry.slot) = loc ∧
    ∀ below, entry.TakesBack top (tuple :: below)

variable {txn txn' : Transaction} {store store' : Store} {rel : RelationAccess}
    {stmt : WriteStatement} {loc : Loc}

/-- A write of a live row leaves the bytes it found one step down its chain. -/
theorem writeRow_pushes {tuple : HeapTuple} {pk : Nat}
    (htuple : store.tupleAt loc.1 loc.2 = some tuple) (hdeleted : tuple.deleted = false)
    (h : writeRow rel stmt store txn loc tuple pk = .ok (store', txn')) :
    ∃ top, Pushed store store' txn txn' loc tuple top := by
  rw [writeRow] at h
  split at h
  · obtain ⟨encoded, -, h⟩ := bind_eq_ok.mp h
    obtain ⟨⟨store₁, txn₁, ptr⟩, happend, h⟩ := bind_eq_ok.mp h
    obtain ⟨hpages, rfl, hundo⟩ := appendUndo_spec happend
    obtain ⟨page, hget, h⟩ := bind_eq_ok.mp h
    obtain ⟨page', hover, h⟩ := bind_eq_ok.mp h
    cases h
    have hpage : store.pages loc.1 = some page := hpages ▸ Store.get_eq_ok.mp hget
    obtain ⟨old, hold, htuples⟩ := HeapPage.tupleAt_overwriteTuple hover
    have hread : page.tupleAt loc.2 = some tuple :=
      (Store.tupleAt_of_pages hpage loc.2).symm.trans htuple
    obtain rfl := Option.some.inj (hold.symm.trans hread)
    obtain ⟨hhere, hothers⟩ := tupleAt_put_slot hpages hpage htuples
    refine ⟨_, hothers, hhere, rfl, ?_, ⟨_, _, hundo⟩, rfl, rfl, rfl, _, rfl, rfl, fun below => ?_⟩
    · exact ⟨hdeleted, _, UndoLog.read_append_self hundo, rfl, rfl, .inl ⟨rfl, rfl⟩⟩
    · exact ⟨old, below, rfl, rfl, rfl, rfl, hdeleted, hdeleted⟩
  · obtain ⟨⟨store₁, txn₁, ptr⟩, happend, h⟩ := bind_eq_ok.mp h
    obtain ⟨hpages, rfl, hundo⟩ := appendUndo_spec happend
    obtain ⟨page, hget, h⟩ := bind_eq_ok.mp h
    obtain ⟨page', hover, h⟩ := bind_eq_ok.mp h
    obtain ⟨page'', hmark, h⟩ := bind_eq_ok.mp h
    cases h
    have hpage : store.pages loc.1 = some page := hpages ▸ Store.get_eq_ok.mp hget
    obtain ⟨old, hold, htuples⟩ := HeapPage.tupleAt_overwriteThenMark hover hmark
    have hread : page.tupleAt loc.2 = some tuple :=
      (Store.tupleAt_of_pages hpage loc.2).symm.trans htuple
    obtain rfl := Option.some.inj (hold.symm.trans hread)
    obtain ⟨hhere, hothers⟩ := tupleAt_put_slot hpages hpage htuples
    refine ⟨_, hothers, hhere, rfl, ?_, ⟨_, _, hundo⟩, rfl, rfl, rfl, _, rfl, rfl, fun below => ?_⟩
    · exact ⟨hdeleted, _, UndoLog.read_append_self hundo, rfl, rfl, .inr ⟨rfl, rfl⟩⟩
    · exact ⟨old, below, rfl, rfl, rfl, rfl, hdeleted⟩

/-- A statement that goes through writes a version its own view sees. -/
theorem writeVersion_eq_ok {e : Engine} (hown : txn.view.ownTrxId = txn.id)
    (hid : alwaysVisibleTrxId < txn.id)
    (h : SnapshotState.writeVersion e txn rel stmt loc = .ok (store, txn')) :
    ∃ tuple top, e.store.tupleAt loc.1 loc.2 = some tuple ∧
      txn.view.visible tuple.trxId = true ∧ Pushed e.store store txn txn' loc tuple top := by
  rw [SnapshotState.writeVersion] at h
  split at h
  · cases h
  · next tuple htuple =>
    split_ifs at h with hclass
    obtain ⟨pk, -, h⟩ := bind_eq_ok.mp h
    obtain ⟨_, hconflict, hwrite⟩ := bind_eq_ok.mp h
    have hseen : txn.view.visible tuple.trxId = true := by
      rw [checkWriteConflict] at hconflict
      split_ifs at hconflict with hboot hself hvisible
      · rw [hboot]
        exact ReadView.visible_alwaysVisible txn.view
      · rw [hself, ← hown]
        apply ReadView.visible_own
        rw [hown]
        exact Nat.ne_of_gt (Nat.lt_trans Nat.zero_lt_one hid)
      · exact hvisible
    have hdeleted : tuple.deleted = false := by
      rw [classify_of_visible hseen] at hclass
      cases hmark : tuple.deleted with
      | false => rfl
      | true => rw [hmark] at hclass; exact absurd rfl hclass
    obtain ⟨top, hpushed⟩ := writeRow_pushes htuple hdeleted hwrite
    exact ⟨tuple, top, htuple, hseen, hpushed⟩

end Kds.Server
