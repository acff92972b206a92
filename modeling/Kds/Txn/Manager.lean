/-
  Kds.Txn.Manager

  The transaction manager (`src/txn/manager.cpp`): read views, first-updater-wins, the trail a
  live rollback compensates from, and the rollback itself.
-/

import Kds.Txn.Store

namespace Kds.Txn

open Lib Storage List

/-- `enum class IsolationLevel`. -/
inductive IsolationLevel where
  | readCommitted | repeatableRead
  deriving DecidableEq

/-- `struct TrailEntry`; its action is the undo record's type. -/
structure TrailEntry where
  action : UndoRecordType
  relOid : Nat
  pageId : Nat
  slot : Nat
  pk : Nat
  priorTrxId : Nat := 0
  priorUndoPtr : Nat := noUndoPtr
  image : Bytes := []
  deriving DecidableEq

/-- `class Transaction`. -/
structure Transaction where
  id : Nat
  isolation : IsolationLevel := .readCommitted
  view : ReadView := {}
  trail : List TrailEntry := []
  lastUndoPtr : Nat := noUndoPtr
  active : Bool := true
  deriving DecidableEq

/-- The manager: the next id, and the transactions whose handles are held. -/
structure TransactionManager where
  nextId : Nat
  live : List Transaction := []
  deriving DecidableEq

namespace TransactionManager

/-- `MintReadView`. -/
def mintReadView (m : TransactionManager) (ownTrxId : Nat) : StatusOr ReadView :=
  (m.live.filter fun t => t.active && t.id != ownTrxId).foldlM
    (fun view t => view.addInFlight t.id) { upToTrxId := m.nextId, ownTrxId := ownTrxId }

def activeCount (m : TransactionManager) : Nat := m.live.countP (·.active)

/-- `Begin`: the view is minted before the transaction is registered. -/
def begin (m : TransactionManager) (isolation : IsolationLevel) :
    StatusOr (TransactionManager × Transaction) :=
  if maxTrackedLiveTxns ≤ m.activeCount then
    .error (.outOfSpace ("more than " ++ toString maxTrackedLiveTxns ++
      " live transactions; a read view cannot track them"))
  else do
    let id := m.nextId
    let m := { m with nextId := m.nextId + 1 }
    let view ← m.mintReadView id
    let txn : Transaction := { id := id, isolation := isolation, view := view }
    .ok ({ m with live := m.live ++ [txn] }, txn)

/-- `StartStatement`: REPEATABLE READ holds the view it took at BEGIN. -/
def startStatement (m : TransactionManager) (txn : Transaction) : StatusOr Transaction :=
  if !txn.active then
    .error (.invalidArgument ("transaction " ++ toString txn.id ++ " is no longer active"))
  else
    match txn.isolation with
    | .repeatableRead => .ok txn
    | .readCommitted => do
      let view ← m.mintReadView txn.id
      .ok { txn with view := view }

def find (m : TransactionManager) (id : Nat) : Option Transaction :=
  m.live.find? (·.id = id)

/-- The handle of a transaction, changed. -/
def update (m : TransactionManager) (txn : Transaction) : TransactionManager :=
  { m with live := m.live.map fun t => if t.id = txn.id then txn else t }

end TransactionManager

-- What the manager's operations leave

variable {id : Nat}

theorem addInFlight_own {view view' : ReadView} (h : view.addInFlight id = .ok view') :
    view' = { view with inFlight := view.inFlight ++ [id] } := by
  rw [ReadView.addInFlight] at h
  split_ifs at h
  exact (Except.ok.inj h).symm

variable {m : TransactionManager}

theorem mintReadView_eq_ok {own : Nat} {view : ReadView} (h : m.mintReadView own = .ok view) :
    view = { upToTrxId := m.nextId, ownTrxId := own
             inFlight := (m.live.filter fun t => t.active && t.id != own).map (·.id) } := by
  have hfold : ∀ (txns : List Transaction) (v v' : ReadView),
      txns.foldlM (fun view t => view.addInFlight t.id) v = .ok v' →
      v' = { v with inFlight := v.inFlight ++ txns.map (·.id) } := by
    intro txns
    induction txns with
    | nil =>
      intro v v' h
      obtain rfl : v = v' := Except.ok.inj h
      rw [map_nil, append_nil]
    | cons t rest ih =>
      intro v v' h
      rw [foldlM_cons] at h
      obtain ⟨mid, hmid, hrest⟩ := bind_eq_ok.mp h
      rw [ih mid v' hrest, addInFlight_own hmid, map_cons, append_assoc]
      rfl
  rw [TransactionManager.mintReadView] at h
  rw [hfold _ _ _ h]
  rfl

variable {txn : Transaction}

theorem begin_eq_ok {m' : TransactionManager} {isolation : IsolationLevel}
    (h : m.begin isolation = .ok (m', txn)) :
    ∃ view, { m with nextId := m.nextId + 1 }.mintReadView m.nextId = .ok view ∧
      txn = { id := m.nextId, isolation := isolation, view := view } ∧
      m' = { nextId := m.nextId + 1, live := m.live ++ [txn] } := by
  rw [TransactionManager.begin] at h
  split_ifs at h
  obtain ⟨view, hview, h⟩ := bind_eq_ok.mp h
  cases h
  exact ⟨view, hview, rfl, rfl⟩

theorem startStatement_eq_ok {txn' : Transaction} (h : m.startStatement txn = .ok txn') :
    ∃ view, txn' = { txn with view := view } ∧
      (view = txn.view ∨ m.mintReadView txn.id = .ok view) := by
  rw [TransactionManager.startStatement] at h
  split_ifs at h
  split at h
  · exact ⟨txn.view, (Except.ok.inj h).symm, .inl rfl⟩
  · obtain ⟨view, hview, h⟩ := bind_eq_ok.mp h
    exact ⟨view, (Except.ok.inj h).symm, .inr hview⟩

theorem find_eq_some (h : m.find id = some txn) : txn ∈ m.live ∧ txn.id = id :=
  ⟨mem_of_find?_eq_some h, by simpa using List.find?_some h⟩

theorem mem_live_update {other : Transaction}
    (h : other ∈ (m.update txn).live) : other = txn ∨ other ∈ m.live := by
  obtain ⟨t, ht, rfl⟩ := mem_map.mp h
  split_ifs
  · exact .inl rfl
  · exact .inr ht

-- What a view can see of the transactions in flight

namespace TransactionManager

/-- The transactions in flight. -/
def inFlightIds (m : TransactionManager) : List Nat := (m.live.filter (·.active)).map (·.id)

variable {m : TransactionManager} {id : Nat}

theorem mem_inFlightIds : id ∈ m.inFlightIds ↔ ∃ txn ∈ m.live, txn.active = true ∧ txn.id = id := by
  simp only [inFlightIds, mem_map, mem_filter, and_assoc]

/-- **Ids in order**: none is handed out twice, and no open view sees another transaction that is
    in flight. -/
structure Isolated (m : TransactionManager) : Prop where
  bootstrap : alwaysVisibleTrxId < m.nextId
  ids : ∀ txn ∈ m.live, alwaysVisibleTrxId < txn.id ∧ txn.id < m.nextId
  own : ∀ txn ∈ m.live, txn.view.ownTrxId = txn.id
  bound : ∀ txn ∈ m.live, txn.view.upToTrxId ≤ m.nextId
  blind : ∀ txn ∈ m.live, txn.active = true → ∀ id ∈ m.inFlightIds, id ≠ txn.id →
    txn.view.visible id = false

theorem Isolated.inFlight_bounds (h : m.Isolated) (hid : id ∈ m.inFlightIds) :
    alwaysVisibleTrxId < id ∧ id < m.nextId := by
  obtain ⟨txn, htxn, -, rfl⟩ := mem_inFlightIds.mp hid
  exact h.ids txn htxn

theorem mem_tracked {m : TransactionManager} {own id : Nat} (hne : id ≠ own) :
    id ∈ (m.live.filter fun t => t.active && t.id != own).map (·.id) ↔ id ∈ m.inFlightIds := by
  rw [mem_inFlightIds, mem_map]
  constructor
  · rintro ⟨txn, htxn, rfl⟩
    obtain ⟨hlive, hflags⟩ := mem_filter.mp htxn
    exact ⟨txn, hlive, (Bool.and_eq_true _ _ ▸ hflags).1, rfl⟩
  · rintro ⟨txn, htxn, hactive, rfl⟩
    exact ⟨txn, mem_filter.mpr ⟨htxn, by simp [hactive, hne]⟩, rfl⟩

theorem Isolated.minted_visible (h : m.Isolated) {own : Nat} {view : ReadView}
    (hview : m.mintReadView own = .ok view) (hid : id < m.nextId) (hpos : id ≠ noTrxId) :
    view.visible id = true ↔ id = own ∨ id ∉ m.inFlightIds := by
  rw [mintReadView_eq_ok hview]
  by_cases hown : id = own
  · subst hown
    exact ⟨fun _ => .inl rfl, fun _ => ReadView.visible_own hpos⟩
  · rw [ReadView.visible_other (.inr hown)]
    dsimp only
    have htracked := @mem_tracked m own id hown
    by_cases hmem : id ∈ m.inFlightIds
    · have hboot : id ≠ alwaysVisibleTrxId := Nat.ne_of_gt (h.inFlight_bounds hmem).1
      rw [contains_iff_mem.mpr (htracked.mpr hmem)]
      simp [hboot, hown, hmem]
    · have hnot : ((m.live.filter fun t => t.active && t.id != own).map (·.id)).contains id =
          false := by
        rw [← Bool.not_eq_true, contains_iff_mem]
        exact mt htracked.mp hmem
      rw [hnot]
      simp [hid, hmem]

theorem mem_inFlightIds_update {m : TransactionManager} {txn txn' : Transaction}
    (htxn : txn ∈ m.live) (hid : txn'.id = txn.id) {id : Nat} :
    id ∈ (m.update txn').inFlightIds ↔
      if id = txn.id then txn'.active = true else id ∈ m.inFlightIds := by
  have hlive : ∀ t, t ∈ (m.update txn').live ↔
      ∃ u ∈ m.live, (if u.id = txn'.id then txn' else u) = t := fun t => mem_map
  rw [mem_inFlightIds, mem_inFlightIds]
  constructor
  · rintro ⟨t, ht, hactive, rfl⟩
    obtain ⟨u, hu, hut⟩ := (hlive t).mp ht
    by_cases hsame : u.id = txn'.id
    · rw [if_pos hsame] at hut
      obtain rfl := hut
      rw [if_pos hid]
      exact hactive
    · rw [if_neg hsame] at hut
      obtain rfl := hut
      rw [if_neg (hid ▸ hsame)]
      exact ⟨u, hu, hactive, rfl⟩
  · intro h
    split_ifs at h with hsame
    · exact ⟨txn', (hlive txn').mpr ⟨txn, htxn, if_pos hid.symm⟩, h, hid.trans hsame.symm⟩
    · obtain ⟨u, hu, hactive, rfl⟩ := h
      exact ⟨u, (hlive u).mpr ⟨u, hu, if_neg (hid ▸ hsame)⟩, hactive, rfl⟩

theorem Isolated.update {m : TransactionManager} (h : m.Isolated) {txn txn' : Transaction}
    (htxn : txn ∈ m.live) (hactive : txn.active = true) (hid : txn'.id = txn.id)
    (hview : txn'.view = txn.view ∨ m.mintReadView txn.id = .ok txn'.view) :
    (m.update txn').Isolated := by
  have hin : txn.id ∈ m.inFlightIds := mem_inFlightIds.mpr ⟨txn, htxn, hactive, rfl⟩
  have hsub : ∀ id ∈ (m.update txn').inFlightIds, id ∈ m.inFlightIds := fun id hmem => by
    have := (mem_inFlightIds_update htxn hid).mp hmem
    split_ifs at this with hsame
    · rw [hsame]; exact hin
    · exact this
  refine ⟨h.bootstrap, fun t ht => ?_, fun t ht => ?_, fun t ht => ?_, fun t ht hact id hmem hne =>
    ?_⟩
  · rcases mem_live_update ht with rfl | ht
    · rw [hid]; exact h.ids txn htxn
    · exact h.ids t ht
  · rcases mem_live_update ht with rfl | ht
    · rcases hview with hsame | hnew
      · rw [hsame, hid]; exact h.own txn htxn
      · rw [mintReadView_eq_ok hnew, hid]
    · exact h.own t ht
  · rcases mem_live_update ht with rfl | ht
    · rcases hview with hsame | hnew
      · rw [hsame]; exact h.bound txn htxn
      · exact Nat.le_of_eq (congrArg ReadView.upToTrxId (mintReadView_eq_ok hnew))
    · exact h.bound t ht
  · rcases mem_live_update ht with rfl | ht
    · rw [hid] at hne
      rcases hview with hsame | hnew
      · rw [hsame]; exact h.blind txn htxn hactive id (hsub id hmem) hne
      · have hpos : id ≠ noTrxId := Nat.ne_of_gt (Nat.lt_trans Nat.zero_lt_one
          (h.inFlight_bounds (hsub id hmem)).1)
        rw [← Bool.not_eq_true, h.minted_visible hnew (h.inFlight_bounds (hsub id hmem)).2 hpos]
        exact not_or.mpr ⟨hne, not_not.mpr (hsub id hmem)⟩
    · exact h.blind t ht hact id (hsub id hmem) hne

theorem inFlightIds_begin {m' : TransactionManager} {isolation : IsolationLevel}
    (h : m.begin isolation = .ok (m', txn)) :
    m'.inFlightIds = m.inFlightIds ++ [m.nextId] ∧ m'.nextId = m.nextId + 1 := by
  obtain ⟨view, -, rfl, rfl⟩ := begin_eq_ok h
  exact ⟨by simp [inFlightIds, filter_append], rfl⟩

theorem Isolated.next (h : m.Isolated) :
    ({ m with nextId := m.nextId + 1 } : TransactionManager).Isolated :=
  ⟨Nat.lt_succ_of_lt h.bootstrap, fun t ht => ⟨(h.ids t ht).1, Nat.lt_succ_of_lt (h.ids t ht).2⟩,
    h.own, fun t ht => Nat.le_succ_of_le (h.bound t ht), h.blind⟩

theorem Isolated.begin {m m' : TransactionManager} (h : m.Isolated) {isolation : IsolationLevel}
    {txn : Transaction} (hbegin : m.begin isolation = .ok (m', txn)) : m'.Isolated := by
  have hids := (inFlightIds_begin hbegin).1
  obtain ⟨view, hview, rfl, rfl⟩ := begin_eq_ok hbegin
  have hnext := h.next
  have hminted := mintReadView_eq_ok hview
  have hboot := h.bootstrap
  refine ⟨hnext.bootstrap, fun t ht => ?_, fun t ht => ?_, fun t ht => ?_,
    fun t ht hactive id hmem hne => ?_⟩
  · rcases Lib.mem_snoc.mp ht with hold | rfl
    · exact hnext.ids t hold
    · exact ⟨hboot, Nat.lt_succ_self _⟩
  · rcases Lib.mem_snoc.mp ht with hold | rfl
    · exact h.own t hold
    · rw [hminted]
  · rcases Lib.mem_snoc.mp ht with hold | rfl
    · exact hnext.bound t hold
    · exact Nat.le_of_eq (congrArg ReadView.upToTrxId hminted)
  · rw [hids, mem_append, mem_singleton] at hmem
    rcases Lib.mem_snoc.mp ht with hold | rfl
    · rcases hmem with hmem | rfl
      · exact h.blind t hold hactive id hmem hne
      · -- the new id is past what an older view reaches
        rw [ReadView.visible_other (.inr (by rw [h.own t hold]; exact hne))]
        have hlate := h.bound t hold
        have hnot : ¬ m.nextId < t.view.upToTrxId := by omega
        simp [Nat.ne_of_gt hboot, hnot]
    · have hmem : id ∈ m.inFlightIds := hmem.resolve_right hne
      have hbounds := h.inFlight_bounds hmem
      have hpos : id ≠ noTrxId := Nat.ne_of_gt (Nat.lt_trans Nat.zero_lt_one hbounds.1)
      rw [← Bool.not_eq_true, hnext.minted_visible hview (Nat.lt_succ_of_lt hbounds.2) hpos]
      exact not_or.mpr ⟨hne, not_not.mpr hmem⟩

end TransactionManager

/-- `CheckWriteConflict`: a writer the view sees, the transaction itself, or bootstrap. -/
def checkWriteConflict (txn : Transaction) (cur pk : Nat) : StatusOr Unit :=
  if cur = alwaysVisibleTrxId then .ok ()
  else if cur = txn.id then .ok ()
  else if txn.view.visible cur then .ok ()
  else .error (.txnConflict ("row id=" ++ toString pk ++ " was written by transaction " ++
    toString cur))

namespace Transaction

def noteInsert (txn : Transaction) (relOid pageId slot pk : Nat) : Transaction :=
  { txn with trail := txn.trail ++
      [{ action := .insert, relOid := relOid, pageId := pageId, slot := slot, pk := pk }] }

def noteOverwrite (txn : Transaction) (relOid pageId slot pk priorTrxId priorUndoPtr : Nat)
    (image : Bytes) : Transaction :=
  { txn with trail := txn.trail ++
      [{ action := .overwrite, relOid := relOid, pageId := pageId, slot := slot, pk := pk
         priorTrxId := priorTrxId, priorUndoPtr := priorUndoPtr, image := image }] }

def noteDeleteMark (txn : Transaction) (relOid pageId slot pk priorTrxId priorUndoPtr : Nat) :
    Transaction :=
  { txn with trail := txn.trail ++
      [{ action := .deleteMark, relOid := relOid, pageId := pageId, slot := slot, pk := pk
         priorTrxId := priorTrxId, priorUndoPtr := priorUndoPtr }] }

end Transaction

/-- `AppendUndo`: the chain link and the pk are filled in here, and the head advances. -/
def appendUndo (store : Store) (txn : Transaction) (fields : UndoVersion) (pk : Nat) :
    StatusOr (Store × Transaction × Nat) := do
  let (undo, ptr) ← store.undo.append { fields with txnPrevUndoPtr := txn.lastUndoPtr, pk := pk }
  .ok ({ store with undo := undo }, { txn with lastUndoPtr := ptr }, ptr)

-- Rollback

/-- Where a relation's row is now, if it can be found. -/
abbrev RowLocator := Store → Nat → Nat → StatusOr (Nat × Nat)

/-- Whether the row with this pk is still at an address. -/
def holdsRow (page : HeapPage) (slot pk : Nat) : Bool :=
  match page.payloadAt slot with
  | .error _ => false
  | .ok payload =>
    match keystoneIdOfPayload payload with
    | .error _ => false
    | .ok id => id = pk

/-- The address a trail entry is compensated at. -/
def compensateAt (store : Store) (entry : TrailEntry) (locateRow : Option RowLocator) :
    StatusOr (Nat × Nat) := do
  let page ← store.get entry.pageId
  if holdsRow page entry.slot entry.pk then .ok (entry.pageId, entry.slot)
  else
    match locateRow with
    | none =>
      .error (.corruption ("row id " ++ toString entry.pk ++ " of relation oid " ++
        toString entry.relOid ++ " is no longer at page " ++ toString entry.pageId ++ " slot " ++
        toString entry.slot ++ ", and no row locator is installed to find it"))
    | some locate => locate store entry.relOid entry.pk

/-- The pages below this hold the catalog. -/
def catalogOverflowLimit : Nat := 128

/-- The switch of a rollback, live or at recovery: a write of this kind taken back at an address,
    and the record of the change. -/
def undoWrite (page : HeapPage) (type : UndoRecordType) (pageId slot : Nat) (image : Bytes)
    (priorTrxId priorUndoPtr : Nat) : StatusOr (HeapPage × LogRecord) :=
  match type with
  | .insert => (page.retireSlot slot).map fun page => (page, .slotRetire pageId slot)
  | .overwrite =>
    (page.overwriteTuple slot image priorTrxId priorUndoPtr).map fun page =>
      (page, .heapOverwrite pageId slot image priorTrxId priorUndoPtr)
  | .deleteMark =>
    (page.clearDeleteMark slot priorTrxId priorUndoPtr).map fun page =>
      (page, .heapDeleteUnmark pageId slot priorTrxId priorUndoPtr)

/-- `TransactionManager::Compensate`: the store, and the record logged for it. -/
def compensate (store : Store) (entry : TrailEntry) (locateRow : Option RowLocator) :
    StatusOr (Store × List LogRecord) := do
  let (pageId, slot) ← compensateAt store entry locateRow
  let page ← store.get pageId
  let (page, record) ← undoWrite page entry.action pageId slot entry.image entry.priorTrxId
    entry.priorUndoPtr
  -- the catalog's pages are compensated and never logged
  .ok (store.put pageId page, if pageId < catalogOverflowLimit then [] else [record])

/-- The loop of `Abort`, over the trail from its newest entry: a failure is kept, and the rest
    is unwound all the same. -/
def unwind (locateRow : Option RowLocator) :
    List TrailEntry → Store → List LogRecord × Option Status →
      Store × List LogRecord × Option Status
  | [], store, out => (store, out)
  | entry :: older, store, (logged, failure) =>
    match compensate store entry locateRow with
    | .ok (store', records) => unwind locateRow older store' (logged ++ records, failure)
    | .error e => unwind locateRow older store (logged, failure <|> some e)

/-- `Abort`: the store after it, the records of its compensations, and its first failure. -/
def abort (store : Store) (txn : Transaction) (locateRow : Option RowLocator) :
    Store × Transaction × List LogRecord × Option Status :=
  if !txn.active then (store, txn, [], none)
  else
    let (store, logged, failure) := unwind locateRow txn.trail.reverse store ([], none)
    (store, { txn with trail := [], active := false }, logged, failure)

end Kds.Txn
