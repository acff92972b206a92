/-
  Kds.Server.WriteRuns

  The interleavings a write statement runs in: transactions of one core begin, take their
  statement snapshots, write rows one at a time, commit and roll back in any order, and a leaf
  division may move rows at any point.  What every reachable state keeps is that ids are handed
  out in order and nothing carries an id that was not (`Engine.Ordered`); it is what makes the two
  ways `BeginWrite` and `SnapshotFor` open a statement agree with `WriteScope.Started`.
-/

import Kds.Lib.Run
import Kds.Server.WriteScan

namespace Kds.Server

open Lib Storage Txn List

/-- A core: its transaction manager and its pages. -/
structure Engine where
  manager : TransactionManager
  store : Store

/-- One step of some session.  A row's write is a step of its own, so a statement that fails
    half-way is the steps it took. -/
inductive Action where
  | begin (isolation : IsolationLevel)
  | startStatement (id : Nat)
  | write (id : Nat) (rel : RelationAccess) (stmt : WriteStatement) (loc : Loc)
  | insert (id relOid pageId pk : Nat) (payload : Bytes)
  | restructure (pages : Nat → Option HeapPage)
  | commit (id : Nat)
  | abort (id : Nat) (locateRow : Option RowLocator)

/-- Whether a step rebuilds pages. -/
def Action.isRestructure : Action → Bool
  | .restructure _ => true
  | _ => false

namespace Engine

def writeStep (e : Engine) (txn : Transaction) (rel : RelationAccess) (stmt : WriteStatement)
    (loc : Loc) : StatusOr Engine :=
  match e.store.tupleAt loc.1 loc.2 with
  | none => .ok e
  | some tuple => do
    let pk ← keystoneIdOfPayload tuple.payload
    checkWriteConflict txn tuple.trxId pk
    let (store, txn) ← writeRow rel stmt e.store txn loc tuple pk
    .ok { manager := e.manager.update txn, store := store }

def insertStep (e : Engine) (txn : Transaction) (relOid pageId pk : Nat) (payload : Bytes) :
    StatusOr Engine := do
  let page ← e.store.get pageId
  let (page, slot) ← page.insertTuple payload txn.id noUndoPtr
  .ok { manager := e.manager.update (txn.noteInsert relOid pageId slot pk)
        store := e.store.put pageId page }

/-- A step by an open transaction. -/
def withTxn (e : Engine) (id : Nat) (f : Transaction → StatusOr Engine) : Option Engine :=
  match e.manager.find id with
  | none => none
  | some txn => if txn.active then (f txn).toOption else none

def step (e : Engine) : Action → Option Engine
  | .begin isolation =>
    ((e.manager.begin isolation).map fun out => { e with manager := out.1 }).toOption
  | .startStatement id => e.withTxn id fun txn =>
    (e.manager.startStatement txn).map fun txn => { e with manager := e.manager.update txn }
  | .write id rel stmt loc => e.withTxn id fun txn => e.writeStep txn rel stmt loc
  | .insert id relOid pageId pk payload => e.withTxn id fun txn =>
    e.insertStep txn relOid pageId pk payload
  | .restructure pages => some { e with store := { e.store with pages := pages } }
  | .commit id => e.withTxn id fun txn =>
    .ok { e with manager := e.manager.update { txn with trail := [], active := false } }
  | .abort id locateRow => e.withTxn id fun txn =>
    let out := abort e.store txn locateRow
    .ok { manager := e.manager.update out.2.1, store := out.1 }

/-- Pages are rebuilt out of the tuples that are stored. -/
def Allowed (e : Engine) : Action → Prop
  | .restructure pages => ∀ pageId slot tuple,
      ({ e.store with pages := pages } : Store).tupleAt pageId slot = some tuple →
      ∃ pageId' slot', e.store.tupleAt pageId' slot' = some tuple
  | _ => True

theorem allowed_of_guard (e : Engine) (a : Action) (h : (!a.isRestructure) = true) :
    e.Allowed a := by
  cases a with
  | restructure pages => cases h
  | _ => trivial

/-- Nothing carries an id that was not handed out, and each open view knows its own. -/
structure Ordered (e : Engine) : Prop where
  bootstrap : alwaysVisibleTrxId < e.manager.nextId
  ids : ∀ txn ∈ e.manager.live, alwaysVisibleTrxId < txn.id ∧ txn.id < e.manager.nextId
  own : ∀ txn ∈ e.manager.live, txn.view.ownTrxId = txn.id
  trail : ∀ txn ∈ e.manager.live, ∀ entry ∈ txn.trail, entry.priorTrxId < e.manager.nextId
  stored : ∀ pageId slot tuple, e.store.tupleAt pageId slot = some tuple →
    tuple.trxId < e.manager.nextId

end Engine

-- What each operation keeps

variable {tuple : HeapTuple}

theorem undoWrite_stored {page page' : HeapPage} {type : UndoRecordType} {pageId slot : Nat}
    {image : Bytes} {priorTrxId priorUndoPtr : Nat} {record : LogRecord}
    (h : undoWrite page type pageId slot image priorTrxId priorUndoPtr = .ok (page', record))
    {other : Nat} (htuple : page'.tupleAt other = some tuple) :
    page.tupleAt other = some tuple ∨ tuple.trxId = priorTrxId := by
  rw [undoWrite.eq_def] at h
  split at h
  · obtain ⟨page'', hretire, hpair⟩ := map_eq_ok.mp h
    obtain ⟨rfl, -⟩ := Prod.mk.inj hpair
    rw [HeapPage.tupleAt_retireSlot hretire] at htuple
    split_ifs at htuple
    exact .inl htuple
  · obtain ⟨page'', hover, hpair⟩ := map_eq_ok.mp h
    obtain ⟨rfl, -⟩ := Prod.mk.inj hpair
    obtain ⟨old, -, htuples⟩ := HeapPage.tupleAt_overwriteTuple hover
    rw [htuples] at htuple
    split_ifs at htuple
    · cases htuple
      exact .inr rfl
    · exact .inl htuple
  · obtain ⟨page'', hclear, hpair⟩ := map_eq_ok.mp h
    obtain ⟨rfl, -⟩ := Prod.mk.inj hpair
    obtain ⟨old, -, htuples⟩ := HeapPage.tupleAt_clearDeleteMark hclear
    rw [htuples] at htuple
    split_ifs at htuple
    · cases htuple
      exact .inr rfl
    · exact .inl htuple

variable {store store' : Store} {locateRow : Option RowLocator}

theorem compensate_stored {entry : TrailEntry} {records : List LogRecord}
    (h : compensate store entry locateRow = .ok (store', records)) {pageId slot : Nat}
    (htuple : store'.tupleAt pageId slot = some tuple) :
    store.tupleAt pageId slot = some tuple ∨ tuple.trxId = entry.priorTrxId := by
  rw [compensate] at h
  obtain ⟨⟨pageId', slot'⟩, -, h⟩ := bind_eq_ok.mp h
  obtain ⟨page, hget, h⟩ := bind_eq_ok.mp h
  obtain ⟨⟨page', record⟩, hdo, h⟩ := bind_eq_ok.mp h
  obtain ⟨rfl, -⟩ := Prod.mk.inj (Except.ok.inj h)
  rw [Store.tupleAt_put] at htuple
  by_cases hpage : pageId = pageId'
  · rw [if_pos hpage] at htuple
    rw [hpage, Store.tupleAt_of_pages (Store.get_eq_ok.mp hget)]
    exact undoWrite_stored hdo htuple
  · rw [if_neg hpage] at htuple
    exact .inl htuple

theorem unwind_stored {bound : Nat} (trail : List TrailEntry) :
    ∀ {store : Store} {out : List LogRecord × Option Status},
    (∀ entry ∈ trail, entry.priorTrxId < bound) →
    (∀ pageId slot tuple, store.tupleAt pageId slot = some tuple → tuple.trxId < bound) →
    ∀ pageId slot tuple, (unwind locateRow trail store out).1.tupleAt pageId slot = some tuple →
      tuple.trxId < bound := by
  induction trail with
  | nil => exact fun _ hstored => hstored
  | cons entry older ih =>
    intro store out htrail hstored
    obtain ⟨logged, failure⟩ := out
    have hentry := htrail entry mem_cons_self
    have holder : ∀ e ∈ older, e.priorTrxId < bound := fun e he =>
      htrail e (mem_cons_of_mem entry he)
    rw [unwind]
    cases hcomp : compensate store entry locateRow with
    | error e => exact ih holder hstored
    | ok result =>
      obtain ⟨store', records⟩ := result
      refine ih holder fun pageId slot tuple htuple => ?_
      rcases compensate_stored hcomp htuple with hold | hprior
      · exact hstored pageId slot tuple hold
      · rw [hprior]; exact hentry

theorem abort_eq {store : Store} {txn : Transaction} (hactive : txn.active = true)
    (locateRow : Option RowLocator) :
    (abort store txn locateRow).1 = (unwind locateRow txn.trail.reverse store ([], none)).1 ∧
      (abort store txn locateRow).2.1 = { txn with trail := [], active := false } := by
  rw [abort, hactive]
  exact ⟨rfl, rfl⟩

-- Every reachable state

namespace Engine

theorem Ordered.update {e : Engine} (h : e.Ordered) {txn txn' : Transaction} {store : Store}
    (htxn : txn ∈ e.manager.live) (hid : txn'.id = txn.id)
    (hown : txn'.view.ownTrxId = txn.id)
    (htrail : ∀ entry ∈ txn'.trail, entry.priorTrxId < e.manager.nextId)
    (hstored : ∀ pageId slot tuple, store.tupleAt pageId slot = some tuple →
      tuple.trxId < e.manager.nextId) :
    Ordered { manager := e.manager.update txn', store := store } := by
  refine ⟨h.bootstrap, fun t ht => ?_, fun t ht => ?_, fun t ht => ?_, hstored⟩
  · rcases mem_live_update ht with rfl | ht
    · rw [hid]; exact h.ids txn htxn
    · exact h.ids t ht
  · rcases mem_live_update ht with rfl | ht
    · rw [hown, hid]
    · exact h.own t ht
  · rcases mem_live_update ht with rfl | ht
    · exact htrail
    · exact h.trail t ht

variable {e e' : Engine}

theorem withTxn_eq_some {id : Nat} {f : Transaction → StatusOr Engine}
    (h : e.withTxn id f = some e') :
    ∃ txn, txn ∈ e.manager.live ∧ txn.active = true ∧ f txn = .ok e' := by
  rw [withTxn] at h
  split at h
  · cases h
  · next txn hfind =>
    split_ifs at h with hactive
    exact ⟨txn, (find_eq_some hfind).1, hactive, toOption_eq_some.mp h⟩

theorem Ordered.begin {e e' : Engine} (h : e.Ordered) {isolation : IsolationLevel}
    (hstep : e.step (.begin isolation) = some e') : e'.Ordered := by
  rw [step] at hstep
  cases hbegin : e.manager.begin isolation with
  | error err => rw [hbegin] at hstep; cases hstep
  | ok out =>
    obtain ⟨m', txn⟩ := out
    rw [hbegin] at hstep
    cases hstep
    obtain ⟨view, hview, rfl, rfl⟩ := begin_eq_ok hbegin
    have hboot := h.bootstrap
    have hown := mintReadView_eq_ok hview
    refine ⟨by dsimp only; omega, fun t ht => ?_, fun t ht => ?_, fun t ht => ?_, ?_⟩
    · rcases Lib.mem_snoc.mp ht with hold | rfl
      · have := h.ids t hold
        exact ⟨this.1, by dsimp only; omega⟩
      · exact ⟨hboot, by dsimp only; omega⟩
    · rcases Lib.mem_snoc.mp ht with hold | rfl
      · exact h.own t hold
      · rw [hown]
    · intro entry hentry
      rcases Lib.mem_snoc.mp ht with hold | rfl
      · have := h.trail t hold entry hentry
        dsimp only
        omega
      · cases hentry
    · intro pageId slot tuple htuple
      have := h.stored pageId slot tuple htuple
      dsimp only
      omega

/-- No step writes an id that was not handed out. -/
theorem Ordered.step (a : Action) (h : e.Ordered) (hok : e.Allowed a)
    (hstep : e.step a = some e') : e'.Ordered := by
  cases a with
  | begin isolation => exact h.begin hstep
  | startStatement id =>
    obtain ⟨txn, htxn, -, hstep⟩ := withTxn_eq_some hstep
    obtain ⟨txn', hstart, rfl⟩ := map_eq_ok.mp hstep
    obtain ⟨view, rfl, hview⟩ := startStatement_eq_ok hstart
    refine h.update htxn rfl ?_ (h.trail txn htxn) h.stored
    rcases hview with rfl | hview
    · exact h.own txn htxn
    · rw [mintReadView_eq_ok hview]
  | write id rel stmt loc =>
    obtain ⟨txn, htxn, -, hstep⟩ := withTxn_eq_some hstep
    rw [writeStep] at hstep
    split at hstep
    · rw [← Except.ok.inj hstep]; exact h
    · next tuple htuple =>
      obtain ⟨pk, -, hstep⟩ := bind_eq_ok.mp hstep
      obtain ⟨_, -, hstep⟩ := bind_eq_ok.mp hstep
      obtain ⟨⟨store', txn'⟩, hwrite, hstep⟩ := bind_eq_ok.mp hstep
      cases hstep
      obtain ⟨hother, ⟨new, hnew, hnewid⟩, ⟨entry, htrail, hprior⟩, hid, hview⟩ :=
        writeRow_spec hwrite
      have hold : tuple.trxId < e.manager.nextId := h.stored _ _ _ htuple
      refine h.update htxn hid (hview ▸ h.own txn htxn) ?_ ?_
      · intro entry' hentry'
        rw [htrail, mem_append, mem_singleton] at hentry'
        rcases hentry' with hbefore | rfl
        · exact h.trail txn htxn entry' hbefore
        · rw [hprior]; exact hold
      · intro pageId slot stored hstored
        by_cases hsame : (pageId, slot) = loc
        · obtain rfl := hsame
          rw [hnew] at hstored
          rw [← Option.some.inj hstored, hnewid]
          exact (h.ids txn htxn).2
        · rw [hother (pageId, slot) hsame] at hstored
          exact h.stored pageId slot stored hstored
  | insert id relOid pageId pk payload =>
    obtain ⟨txn, htxn, -, hstep⟩ := withTxn_eq_some hstep
    rw [insertStep] at hstep
    obtain ⟨page, hget, hstep⟩ := bind_eq_ok.mp hstep
    obtain ⟨⟨page', slot⟩, hinsert, hstep⟩ := bind_eq_ok.mp hstep
    cases hstep
    refine h.update htxn rfl (h.own txn htxn) ?_ ?_
    · intro entry hentry
      rcases Lib.mem_snoc.mp hentry with hbefore | rfl
      · exact h.trail txn htxn entry hbefore
      · exact Nat.lt_trans Nat.zero_lt_one h.bootstrap
    · intro pageId' slot' stored hstored
      rw [Store.tupleAt_put] at hstored
      split_ifs at hstored with hpage
      · rw [HeapPage.tupleAt_insertTuple hinsert] at hstored
        split_ifs at hstored with hslot
        · cases hstored
          exact (h.ids txn htxn).2
        · rw [← Store.tupleAt_of_pages (Store.get_eq_ok.mp hget)] at hstored
          exact h.stored pageId slot' stored hstored
      · exact h.stored pageId' slot' stored hstored
  | restructure pages =>
    cases hstep
    refine ⟨h.bootstrap, h.ids, h.own, h.trail, fun pageId slot tuple htuple => ?_⟩
    obtain ⟨pageId', slot', hold⟩ := hok pageId slot tuple htuple
    exact h.stored pageId' slot' tuple hold
  | commit id =>
    obtain ⟨txn, htxn, -, hstep⟩ := withTxn_eq_some hstep
    cases hstep
    exact h.update htxn rfl (h.own txn htxn) (fun _ hentry => (by cases hentry)) h.stored
  | abort id locateRow =>
    obtain ⟨txn, htxn, hactive, hstep⟩ := withTxn_eq_some hstep
    cases hstep
    obtain ⟨hstore, htxn'⟩ := @abort_eq e.store txn hactive locateRow
    have hentries : ∀ entry ∈ txn.trail.reverse, entry.priorTrxId < e.manager.nextId :=
      fun entry hentry => h.trail txn htxn entry (mem_reverse.mp hentry)
    rw [hstore, htxn']
    exact h.update htxn rfl (h.own txn htxn) (fun _ hentry => (by cases hentry))
      (unwind_stored _ hentries h.stored)

/-- And so no run. -/
theorem Ordered.reach {e₀ : Engine} (h : e₀.Ordered)
    (hreach : Reach Engine.step Engine.Allowed e₀ e) : e.Ordered :=
  hreach.invariant h fun a ht hok hs => ht.step a hok hs

-- A statement in a reachable state

/-- `BeginWrite` and `SnapshotFor`: in a session's open transaction the statement reads through
    the transaction's view; an autocommit statement begins its own transaction, and reads through
    a view no transaction owns. -/
def openWrite (e : Engine) (session : Option Transaction) (isolation : IsolationLevel) :
    StatusOr (Engine × WriteScope) :=
  match session with
  | some txn => do
    let txn ← e.manager.startStatement txn
    .ok ({ e with manager := e.manager.update txn }, { txn := txn, view := txn.view })
  | none => do
    let (manager, txn) ← e.manager.begin isolation
    let view ← manager.mintReadView noTrxId
    .ok ({ e with manager := manager }, { txn := txn, view := view })

theorem Ordered.openExplicit (h : e.Ordered) {txn txn' : Transaction}
    (htxn : txn ∈ e.manager.live) (hstart : e.manager.startStatement txn = .ok txn')
    (rows : List Loc) : ({ txn := txn', view := txn'.view } : WriteScope).Started e.store rows := by
  refine ⟨fun _ _ => rfl, fun _ _ _ _ _ => ?_⟩
  obtain ⟨view, rfl, hview⟩ := startStatement_eq_ok hstart
  have hown : view.ownTrxId = txn.id := by
    rcases hview with rfl | hview
    · exact h.own txn htxn
    · rw [mintReadView_eq_ok hview]
  have hid := (h.ids txn htxn).1
  have hne : view.ownTrxId ≠ noTrxId := by
    rw [hown]
    exact Nat.ne_of_gt (Nat.lt_trans Nat.zero_lt_one hid)
  show view.visible txn.id = true
  rw [← hown]
  exact ReadView.visible_own hne

variable {isolation : IsolationLevel}

theorem Ordered.openAutocommit (h : e.Ordered) {m' : TransactionManager} {txn : Transaction}
    {view : ReadView} (hbegin : e.manager.begin isolation = .ok (m', txn))
    (hview : m'.mintReadView noTrxId = .ok view) (rows : List Loc) :
    ({ txn := txn, view := view } : WriteScope).Started e.store rows := by
  obtain ⟨own, hmint, rfl, rfl⟩ := begin_eq_ok hbegin
  have hown := mintReadView_eq_ok hmint
  have hsnap := mintReadView_eq_ok hview
  refine ⟨fun id hne => ?_, fun loc _ tuple htuple hid => ?_⟩
  · have hne : id ≠ e.manager.nextId := hne
    have hothers : e.manager.live.filter (fun t => t.active && t.id != e.manager.nextId) =
        e.manager.live.filter (·.active) := by
      refine filter_congr fun t ht => ?_
      have hlt : t.id ≠ e.manager.nextId := Nat.ne_of_lt (h.ids t ht).2
      simp [hlt]
    have hall : e.manager.live.filter (fun t => t.active && t.id != noTrxId) =
        e.manager.live.filter (·.active) := by
      refine filter_congr fun t ht => ?_
      have hpos : t.id ≠ noTrxId :=
        Nat.ne_of_gt (Nat.lt_trans Nat.zero_lt_one (h.ids t ht).1)
      simp [hpos]
    show own.visible id = view.visible id
    rw [ReadView.visible_other (.inr (by rw [hown]; exact hne)),
      ReadView.visible_other (.inl (by rw [hsnap])), hown, hsnap]
    dsimp only
    -- the snapshot tracks the new transaction too, and `id` is another one
    rw [hothers, filter_append, map_append, hall, contains_append]
    by_cases hzero : e.manager.nextId = noTrxId
    · simp [hzero]
    · simp [hzero, hne]
  · have hlt := h.stored _ _ _ htuple
    exact absurd hid (Nat.ne_of_lt hlt)

theorem Ordered.openWrite (h : e.Ordered) {session : Option Transaction}
    (hsession : ∀ txn, session = some txn → txn ∈ e.manager.live) {scope : WriteScope}
    (hopen : e.openWrite session isolation = .ok (e', scope)) (rows : List Loc) :
    scope.Started e.store rows := by
  cases session with
  | some txn =>
    obtain ⟨txn', hstart, hopen⟩ := bind_eq_ok.mp hopen
    obtain ⟨-, rfl⟩ := Prod.mk.inj (Except.ok.inj hopen)
    exact h.openExplicit (hsession txn rfl) hstart rows
  | none =>
    obtain ⟨⟨m', txn⟩, hbegin, hopen⟩ := bind_eq_ok.mp hopen
    obtain ⟨view, hview, hopen⟩ := bind_eq_ok.mp hopen
    obtain ⟨-, rfl⟩ := Prod.mk.inj (Except.ok.inj hopen)
    exact h.openAutocommit hbegin hview rows

end Engine

/-- **UPDATE and DELETE against SELECT**, in every reachable state and for both ways a statement
    is opened: a statement that goes through changes exactly the rows its snapshot's SELECT
    returns, if and only if the stored bytes decide as the snapshot does. -/
theorem writeScan_matches_select_iff {e₀ e e' : Engine} (hinit : e₀.Ordered)
    (hreach : Reach Engine.step Engine.Allowed e₀ e) {session : Option Transaction}
    (hsession : ∀ txn, session = some txn → txn ∈ e.manager.live) {isolation : IsolationLevel}
    {scope : WriteScope} (hopen : e.openWrite session isolation = .ok (e', scope))
    {rel : RelationAccess} {stmt : WriteStatement} {rows : List Loc}
    (hrows : relationRows e.store rel = .ok rows) {st : WriteState}
    (hrun : writeScan rel scope stmt e.store = .ok st) :
    (∀ loc ∈ rows, loc ∈ st.changed ↔ selects scope.view stmt e.store loc = true) ↔
      StoredBytesDecide rel scope stmt e.store rows :=
  writeScan_matches_select_of_started hrows ((hinit.reach hreach).openWrite hsession hopen rows)
    hrun

-- A row another transaction overwrote

/-- `UPDATE … SET v = new WHERE v = old`, over rows of one byte after the keystone word. -/
def setWhere (old new : UInt8) : WriteStatement where
  verb := .update fun payload => .ok (payload.take keystoneWordSize ++ [new])
  evaluate := fun _ payload => .ok (payload.getD keystoneWordSize 0 == old)

def sampleRelation : RelationAccess where
  oid := 10
  clustered := false
  chain := [200]
  distinct := nodup_singleton 200

/-- A relation with one row, `id = 1` and `v = 1`, of a transaction everybody sees. -/
def samplePage : HeapPage where
  slots := [.live 29 { trxId := 1, undoPtr := 0, payload := [1, 0, 0, 0, 0, 0, 0, 0, 1] }]
  freeSpace := 1000

def sampleEngine : Engine where
  manager := { nextId := 2 }
  store := { pages := fun pageId => if pageId = 200 then some samplePage else none }

theorem sampleEngine_ordered : sampleEngine.Ordered := by
  refine ⟨by decide, fun _ ht => (by cases ht), fun _ ht => (by cases ht),
    fun _ ht => (by cases ht), fun pageId slot tuple htuple => ?_⟩
  by_cases hpage : pageId = 200
  · rw [hpage, Store.tupleAt_of_pages (show sampleEngine.store.pages 200 = some samplePage
      from rfl)] at htuple
    have hslot : slot < 1 := HeapPage.slot_lt_of_tupleAt htuple
    obtain rfl : slot = 0 := by omega
    cases htuple
    decide
  · have hnone : sampleEngine.store.pages pageId = none := if_neg hpage
    rw [Store.tupleAt, hnone] at htuple
    cases htuple

/-- A write over the relation goes through, and `p` holds of its scope, its rows and its outcome. -/
def writeFinds (e : Engine) (session : Option Transaction) (isolation : IsolationLevel)
    (stmt : WriteStatement) (p : WriteScope → List Loc → WriteState → Bool) : Bool :=
  match e.openWrite session isolation with
  | .error _ => false
  | .ok (_, scope) =>
    match relationRows e.store sampleRelation, writeScan sampleRelation scope stmt e.store with
    | .ok rows, .ok st => p scope rows st
    | _, _ => false

theorem writeFinds_spec {e : Engine} {session : Option Transaction} {isolation : IsolationLevel}
    {stmt : WriteStatement} {p : WriteScope → List Loc → WriteState → Bool}
    (h : writeFinds e session isolation stmt p = true) :
    ∃ e' scope rows st, e.openWrite session isolation = .ok (e', scope) ∧
      relationRows e.store sampleRelation = .ok rows ∧
      writeScan sampleRelation scope stmt e.store = .ok st ∧ p scope rows st = true := by
  rw [writeFinds] at h
  split at h
  · cases h
  · next e' scope hopen =>
    split at h
    · next rows st hrows hrun => exact ⟨e', scope, rows, st, hopen, hrows, hrun, h⟩
    · cases h

/-- Transaction 2 sets the row's `v` to 2 and commits; then an UPDATE outside a transaction sets it
    to 3. -/
theorem writeScan_matches_select_overwritten :
    ∃ e, Reach Engine.step Engine.Allowed sampleEngine e ∧
      ∃ e' scope rows st, e.openWrite none .readCommitted = .ok (e', scope) ∧
        relationRows e.store sampleRelation = .ok rows ∧
        writeScan sampleRelation scope (setWhere 2 3) e.store = .ok st ∧
        st.changed = [(200, 0)] ∧
        ((∀ loc ∈ rows, loc ∈ st.changed ↔
            selects scope.view (setWhere 2 3) e.store loc = true) ↔
          StoredBytesDecide sampleRelation scope (setWhere 2 3) e.store rows) := by
  have hrun : (runList (guardStep (fun _ a => !a.isRestructure) Engine.step)
      [.begin .readCommitted, .write 2 sampleRelation (setWhere 1 2) (200, 0), .commit 2]
      sampleEngine).any (fun e => writeFinds e none .readCommitted (setWhere 2 3)
        fun _ _ st => decide (st.changed = [(200, 0)])) = true := by
    decide +kernel
  obtain ⟨e, hreach, hfound⟩ := exists_reach_of_runList _ Engine.allowed_of_guard _ _ _ hrun
  obtain ⟨e', scope, rows, st, hopen, hrows, hscan, hchanged⟩ := writeFinds_spec hfound
  exact ⟨e, hreach, e', scope, rows, st, hopen, hrows, hscan, of_decide_eq_true hchanged,
    writeScan_matches_select_iff sampleEngine_ordered hreach (fun _ h => by cases h) hopen hrows
      hscan⟩

/-- Transaction 2 opens its snapshot, transaction 3 sets the row's `v` to 2 and commits. -/
def overwriteRun : List Action :=
  [.begin .repeatableRead, .begin .readCommitted, .write 3 sampleRelation (setWhere 1 2) (200, 0),
    .commit 3]

/-- Whether transaction 2's `UPDATE … WHERE v = 1` goes through and passes over a row that its
    SELECT returns. -/
def skipsRow (e : Engine) : Bool :=
  match e.manager.find 2 with
  | none => false
  | some txn => writeFinds e (some txn) .repeatableRead (setWhere 1 3) fun scope rows st =>
    rows.any fun loc => !st.changed.contains loc && selects scope.view (setWhere 1 3) e.store loc

theorem skipsRow_spec {e : Engine} (h : skipsRow e = true) :
    ∃ e' txn scope rows st, e.manager.find 2 = some txn ∧
      e.openWrite (some txn) .repeatableRead = .ok (e', scope) ∧
      relationRows e.store sampleRelation = .ok rows ∧
      writeScan sampleRelation scope (setWhere 1 3) e.store = .ok st ∧
      ∃ loc ∈ rows, loc ∉ st.changed ∧ selects scope.view (setWhere 1 3) e.store loc = true := by
  rw [skipsRow] at h
  split at h
  · cases h
  · next txn hfind =>
    obtain ⟨e', scope, rows, st, hopen, hrows, hrun, h⟩ := writeFinds_spec h
    obtain ⟨loc, hloc, hskip⟩ := any_eq_true.mp h
    rw [Bool.and_eq_true] at hskip
    exact ⟨e', txn, scope, rows, st, hfind, hopen, hrows, hrun, loc, hloc,
      by simpa using hskip.1, hskip.2⟩

/-- No conflict is reported: the row's stored bytes do not match, so the check is never run. -/
theorem update_passes_over_selected_row :
    ∃ e, Reach Engine.step Engine.Allowed sampleEngine e ∧
      ∃ e' txn scope rows st, e.manager.find 2 = some txn ∧
        e.openWrite (some txn) .repeatableRead = .ok (e', scope) ∧
        relationRows e.store sampleRelation = .ok rows ∧
        writeScan sampleRelation scope (setWhere 1 3) e.store = .ok st ∧
        ∃ loc ∈ rows, loc ∉ st.changed ∧
          selects scope.view (setWhere 1 3) e.store loc = true := by
  have hrun : (runList (guardStep (fun _ a => !a.isRestructure) Engine.step) overwriteRun
      sampleEngine).any skipsRow = true := by decide +kernel
  obtain ⟨e, hreach, hskip⟩ := exists_reach_of_runList _ Engine.allowed_of_guard _ _ _ hrun
  exact ⟨e, hreach, skipsRow_spec hskip⟩

end Kds.Server
