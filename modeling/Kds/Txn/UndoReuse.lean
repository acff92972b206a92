/-
  Kds.Txn.UndoReuse

  One transaction manager over its undo pages: the horizon its purge goes by, the readers registered
  with it, and its operations in any order (`src/txn/manager.cpp`, `include/kds/txn/read_view.hpp`).

  A registered reader keeps its view; the manager keeps the view's bound.
-/

import Kds.Lib.Run
import Kds.Txn.UndoKept

namespace Kds.Txn

open Lib Storage

-- The horizon

/-- `ReadView::MinVisibleBound`; the in-flight ids are sorted in the source, so their least is the
    first. -/
def ReadView.minVisibleBound (view : ReadView) : Nat :=
  let bound := view.inFlight.foldl min view.upToTrxId
  if view.ownTrxId ≠ noTrxId ∧ view.ownTrxId < bound then view.ownTrxId else bound

/-- A registered reader: its slot, the bound stored there, and the view its holder reads with. -/
structure ReaderLease where
  slot : Nat
  bound : Nat
  view : ReadView
  deriving DecidableEq

def maxRegisteredReaders : Nat := 256

/-- `RegisterReader`: the lowest free slot. -/
def registerReader (readers : List ReaderLease) (view : ReadView) : StatusOr (List ReaderLease) :=
  match (List.range maxRegisteredReaders).find? fun slot => readers.all (·.slot ≠ slot) with
  | none =>
    .error (.outOfSpace ("more than " ++ toString maxRegisteredReaders ++
      " registered readers on this core"))
  | some slot => .ok (readers ++ [⟨slot, view.minVisibleBound, view⟩])

/-- `UnregisterReader`. -/
def unregisterReader (readers : List ReaderLease) (slot : Nat) : List ReaderLease :=
  readers.filter (·.slot ≠ slot)

/-- `ReadHorizon`. -/
def readHorizon (m : TransactionManager) (readers : List ReaderLease) : Nat :=
  ((m.live.filter (·.active)).map (·.view.minVisibleBound) ++ readers.map (·.bound)).foldl min
    (2 ^ 64 - 1)

variable {w : Nat}

theorem lt_foldl_min (bounds : List Nat) (first : Nat) :
    w < bounds.foldl min first ↔ w < first ∧ ∀ b ∈ bounds, w < b := by
  induction bounds generalizing first with
  | nil => simp
  | cons b rest ih =>
    rw [List.foldl_cons, ih, List.forall_mem_cons, lt_min_iff, and_assoc]

variable {view : ReadView}

/-- An id below the bound is below every id the view may not see. -/
theorem ReadView.lt_minVisibleBound :
    w < view.minVisibleBound ↔ w < view.upToTrxId ∧ (∀ id ∈ view.inFlight, w < id) ∧
      (view.ownTrxId = noTrxId ∨ w < view.ownTrxId) := by
  rw [minVisibleBound, ← and_assoc, ← lt_foldl_min]
  split_ifs with h
  · constructor
    · intro hw
      exact ⟨lt_trans hw h.2, .inr hw⟩
    · rintro ⟨-, hown⟩
      exact hown.resolve_left h.1
  · constructor
    · intro hw
      refine ⟨hw, ?_⟩
      by_cases hown : view.ownTrxId = noTrxId
      · exact .inl hown
      · have : ¬ view.ownTrxId < view.inFlight.foldl min view.upToTrxId := fun hlt => h ⟨hown, hlt⟩
        exact .inr (by omega)
    · exact fun hw => hw.1

theorem ReadView.visible_of_lt_minVisibleBound
    (h : w < view.minVisibleBound) : view.visible w = true := by
  obtain ⟨hup, hin, -⟩ := lt_minVisibleBound.mp h
  have hnot : view.inFlight.contains w = false := by
    rw [← Bool.not_eq_true, List.contains_iff_mem]
    exact fun hmem => lt_irrefl w (hin w hmem)
  rw [visible]
  split_ifs with hboot hown hlate
  · rfl
  · rfl
  · omega
  · rw [hnot]
    rfl

variable {m : TransactionManager}

/-- An id that every running transaction follows is below a new view's bound. -/
theorem lt_minVisibleBound_of_minted {own : Nat}
    (h : m.mintReadView own = .ok view) (hnext : w < m.nextId)
    (hin : ∀ txn ∈ m.live, txn.active = true → w < txn.id) (hown : own = noTrxId ∨ w < own) :
    w < view.minVisibleBound := by
  rw [mintReadView_eq_ok h]
  refine ReadView.lt_minVisibleBound.mpr ⟨hnext, fun id hid => ?_, hown⟩
  obtain ⟨txn, htxn, rfl⟩ := List.mem_map.mp hid
  obtain ⟨hlive, hflags⟩ := List.mem_filter.mp htxn
  exact hin txn hlive (Bool.and_eq_true _ _ ▸ hflags).1

/-- The horizon is below the bound of whoever still reads. -/
theorem lt_bounds_of_lt_readHorizon {readers : List ReaderLease} (h : w < readHorizon m readers) :
    (∀ txn ∈ m.live, txn.active = true → w < txn.view.minVisibleBound) ∧
      ∀ r ∈ readers, w < r.bound := by
  have hall := ((lt_foldl_min _ _).mp h).2
  constructor
  · intro txn htxn hactive
    exact hall _ (List.mem_append_left _ (List.mem_map.mpr
      ⟨txn, List.mem_filter.mpr ⟨htxn, hactive⟩, rfl⟩))
  · intro r hr
    exact hall _ (List.mem_append_right _ (List.mem_map.mpr ⟨r, hr, rfl⟩))

-- The core and its operations

/-- One core: its manager, the readers registered there, its heap pages and its undo pages. -/
structure Core where
  manager : TransactionManager
  readers : List ReaderLease := []
  pages : Nat → Option HeapPage
  undo : UndoPages := {}

namespace Core

/-- The store as a rollback writes it. -/
def store (core : Core) : Store := ⟨core.pages, core.undo.unrecycled⟩

/-- The views that are read through: those of the running transactions and of the leased readers. -/
def views (core : Core) : List ReadView :=
  (core.manager.live.filter (·.active)).map (·.view) ++ core.readers.map (·.view)

def readHorizon (core : Core) : Nat := Txn.readHorizon core.manager core.readers

/-- The handle of a transaction, changed. -/
def update (core : Core) (txn : Transaction) : Core :=
  { core with manager := core.manager.update txn }

/-- `TransactionManager::AppendUndo`: the transaction with its new head, and the pointer. -/
def appendUndo (core : Core) (answers : AppendAnswers) (txn : Transaction) (fields : UndoVersion)
    (pk : Nat) : Core × StatusOr (Transaction × Nat) :=
  match core.undo.append answers core.readHorizon txn.id
      { fields with txnPrevUndoPtr := txn.lastUndoPtr, pk := pk } with
  | (undo, .error e) => ({ core with undo := undo }, .error e)
  | (undo, .ok ptr) =>
    let txn := { txn with lastUndoPtr := ptr }
    (({ core with undo := undo } : Core).update txn, .ok (txn, ptr))

/-- The tuple after an overwrite or a delete mark, with the record's pointer. -/
def stampTuple (page : HeapPage) (type : UndoRecordType) (slot : Nat) (payload : Bytes)
    (trxId ptr : Nat) : StatusOr HeapPage := do
  let page ← page.overwriteTuple slot payload trxId ptr
  if type = .deleteMark then page.deleteMark slot trxId else .ok page

/-- `stampTuple` on a page of the store; a tuple that cannot be written stays. -/
def stamp (core : Core) (type : UndoRecordType) (loc : Loc) (payload : Bytes) (trxId ptr : Nat) :
    Core :=
  match core.pages loc.1 with
  | none => core
  | some page =>
    match stampTuple page type loc.2 payload trxId ptr with
    | .error _ => core
    | .ok page => { core with pages := Function.update core.pages loc.1 (some page) }

/-- The record of an insert, which no tuple points to. -/
def noteInserted (core : Core) (answers : AppendAnswers) (txn : Transaction) (relOid : Nat)
    (loc : Loc) (pk : Nat) : Core :=
  match core.appendUndo answers txn
      { type := .insert, targetPageId := loc.1, targetSlot := loc.2, pk := pk } pk with
  | (core, .error _) => core
  | (core, .ok (txn, _)) => core.update (txn.noteInsert relOid loc.1 loc.2 pk)

/-- An overwrite as the write path makes it: the record of the bytes as they stand, the trail
    entry, then the tuple.  A catalog row is not given the pointer (`stamped`). -/
def overwrite (core : Core) (answers : AppendAnswers) (txn : Transaction) (relOid : Nat)
    (loc : Loc) (pk : Nat) (payload : Bytes) (stamped : Bool) : Core :=
  match core.store.tupleAt loc.1 loc.2 with
  | none => core
  | some tuple =>
    match core.appendUndo answers txn
        { type := .overwrite, priorTrxId := tuple.trxId, priorUndoPtr := tuple.undoPtr
          targetPageId := loc.1, targetSlot := loc.2, pk := pk, image := tuple.payload } pk with
    | (core, .error _) => core
    | (core, .ok (txn, ptr)) =>
      let core := core.update (txn.noteOverwrite relOid loc.1 loc.2 pk tuple.trxId
        tuple.undoPtr tuple.payload)
      if stamped then core.stamp .overwrite loc payload txn.id ptr else core

/-- A delete mark as the write path makes it: its record carries no image. -/
def deleteMark (core : Core) (answers : AppendAnswers) (txn : Transaction) (relOid : Nat)
    (loc : Loc) (pk : Nat) (stamped : Bool) : Core :=
  match core.store.tupleAt loc.1 loc.2 with
  | none => core
  | some tuple =>
    match core.appendUndo answers txn
        { type := .deleteMark, priorTrxId := tuple.trxId, priorUndoPtr := tuple.undoPtr
          targetPageId := loc.1, targetSlot := loc.2, pk := pk } pk with
    | (core, .error _) => core
    | (core, .ok (txn, ptr)) =>
      let core := core.update (txn.noteDeleteMark relOid loc.1 loc.2 pk tuple.trxId
        tuple.undoPtr)
      if stamped then core.stamp .deleteMark loc tuple.payload txn.id ptr else core

/-- `Commit`, its record in the log. -/
def commit (core : Core) (txn : Transaction) : Core :=
  core.update { txn with trail := [], active := false }

/-- `Abort`. -/
def rollBack (core : Core) (txn : Transaction) (locateRow : Option RowLocator) : Core :=
  let out := abort core.store txn locateRow
  ({ core with pages := out.1.pages } : Core).update out.2.1

/-- `Release`: a transaction that still runs is not freed. -/
def release (core : Core) (txn : Transaction) : Core :=
  if txn.active then core
  else { core with
    manager := { core.manager with live := core.manager.live.filter (·.id ≠ txn.id) } }

end Core

/-- What can happen to a core.  The writes name a running transaction by its id. -/
inductive CoreAction where
  | begin (isolation : IsolationLevel)
  /-- The id sequence moves on: a new window, or an id burned by a `Begin` that failed. -/
  | window (next : Nat)
  | startStatement (id : Nat)
  | registerReader (view : ReadView)
  | releaseReader (slot : Nat)
  | insert (id relOid : Nat) (loc : Loc) (pk : Nat) (answers : AppendAnswers)
  | overwrite (id relOid : Nat) (loc : Loc) (pk : Nat) (payload : Bytes) (stamped : Bool)
      (answers : AppendAnswers)
  | deleteMark (id relOid : Nat) (loc : Loc) (pk : Nat) (stamped : Bool) (answers : AppendAnswers)
  | commit (id : Nat)
  | abort (id : Nat) (locateRow : Option RowLocator)
  | release (id : Nat)
  /-- The heap pages change by themselves: rows are placed, moved and retired. -/
  | heap (pages : Nat → Option HeapPage)

namespace Core

/-- The running transaction with an id. -/
def running (core : Core) (id : Nat) : Option Transaction :=
  (core.manager.find id).filter (·.active)

def step (core : Core) : CoreAction → Option Core
  | .begin isolation =>
    if alwaysVisibleTrxId < core.manager.nextId then
      match core.manager.begin isolation with
      | .error _ => none
      | .ok (m, _) => some { core with manager := m }
    else none
  | .window next =>
    if core.manager.nextId ≤ next then
      some { core with manager := { core.manager with nextId := next } }
    else none
  | .startStatement id =>
    (core.manager.find id).bind fun txn =>
      match core.manager.startStatement txn with
      | .error _ => none
      | .ok txn => some (core.update txn)
  | .registerReader view =>
    match Txn.registerReader core.readers view with
    | .error _ => none
    | .ok readers => some { core with readers := readers }
  | .releaseReader slot => some { core with readers := unregisterReader core.readers slot }
  | .insert id relOid loc pk answers =>
    (core.running id).map fun txn => core.noteInserted answers txn relOid loc pk
  | .overwrite id relOid loc pk payload stamped answers =>
    (core.running id).map fun txn => core.overwrite answers txn relOid loc pk payload stamped
  | .deleteMark id relOid loc pk stamped answers =>
    (core.running id).map fun txn => core.deleteMark answers txn relOid loc pk stamped
  | .commit id => (core.running id).map core.commit
  | .abort id locateRow => (core.manager.find id).map fun txn => core.rollBack txn locateRow
  | .release id => (core.manager.find id).map core.release
  | .heap pages => some { core with pages := pages }

/-- No tuple on the pages after has a pointer that none had before, or had beside another
    writer. -/
def KeepsPointers (before after : Nat → Option HeapPage) : Prop :=
  ∀ pageId page slot tuple, after pageId = some page → page.tupleAt slot = some tuple →
    tuple.undoPtr = noUndoPtr ∨ ∃ pageId' page' slot' tuple', before pageId' = some page' ∧
      page'.tupleAt slot' = some tuple' ∧ tuple'.trxId = tuple.trxId ∧
      tuple'.undoPtr = tuple.undoPtr

/-- What the code around the manager sees to: a reader is registered with a view just minted or
    one that is read through already, the page store hands out a page that is not in use, and
    undo pointers come from `AppendUndo`. -/
def Proper (core : Core) : CoreAction → Prop
  | .registerReader view =>
    core.manager.mintReadView noTrxId = .ok view ∨ view ∈ core.views
  | .insert _ _ _ _ answers | .overwrite _ _ _ _ _ _ answers | .deleteMark _ _ _ _ _ answers =>
    ∀ pageId, answers.created = some pageId → core.undo.store pageId = none
  | .heap pages => KeepsPointers core.pages pages
  | _ => True

/-- A run of the core. -/
def Runs : Core → Core → Prop := Reach step Proper

end Core

end Kds.Txn
