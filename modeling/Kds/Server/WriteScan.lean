/-
  Kds.Server.WriteScan

  UPDATE and DELETE over a relation (`UpdateInner`, `DeleteInner`,
  `src/server/command_dispatcher.cpp`).  A write statement classifies each stored tuple under its
  snapshot as a read does, but it evaluates its predicate on the bytes that are on the page: a
  version that only the undo chain holds is left to the write-conflict check, which a row reaches
  only when its current bytes qualify.

  `writeScan_matches_select_iff` says what that amounts to: a statement that goes through changes
  exactly the rows the same snapshot's SELECT returns, unless a row it selects was overwritten by
  a writer the snapshot does not see, or a sub-query of the predicate read the statement's own
  earlier writes.

  What else a row's write runs (foreign keys, assertions, the encoding, index and Cabin
  maintenance, logging) can refuse the statement and touches no heap row: `checks` and `encode`.
-/

import Kds.Txn.Manager
import Mathlib.Data.List.Induction
import Mathlib.Data.List.Nodup

namespace Kds.Server

open Lib Storage Txn List

/-- How a relation's rows are stored: its pages in walk order, each once. -/
structure RelationAccess where
  oid : Nat
  clustered : Bool
  chain : List Nat
  distinct : chain.Nodup

/-- What `BeginWrite` and `SnapshotFor` give a statement: the transaction it writes under, and
    the view it reads through. -/
structure WriteScope where
  txn : Transaction
  view : ReadView

/-- The verb, with the encoding of the row the SET list leaves. -/
inductive WriteVerb where
  | update (encode : Bytes → StatusOr Bytes)
  | delete

/-- A compiled write statement.  `evaluate` is `EvaluateConjuncts` on a row's bytes under the
    statement's snapshot, sub-queries included, which is why it reads the store; `target` is the
    key of a bare `id = key` (`PkEqualityTarget`). -/
structure WriteStatement where
  verb : WriteVerb
  evaluate : Store → Bytes → StatusOr Bool
  checks : Store → Loc → Bytes → StatusOr Unit := fun _ _ _ => .ok ()
  target : Option Nat := none

/-- The state threaded through a statement's rows. -/
structure WriteState where
  store : Store
  txn : Transaction
  changed : List Loc := []

-- The rows a statement looks at

/-- The slots of some pages, in order. -/
def slotsOf (store : Store) : List Nat → StatusOr (List Loc)
  | [] => .ok []
  | pageId :: rest => do
    let page ← store.get pageId
    let later ← slotsOf store rest
    .ok ((List.range page.slotCount).map (Prod.mk pageId) ++ later)

/-- `VisitRelation`, the slots it hands over. -/
def relationRows (store : Store) (rel : RelationAccess) : StatusOr (List Loc) :=
  slotsOf store rel.chain

def rowHasId (store : Store) (pk : Nat) (loc : Loc) : Bool :=
  match store.pages loc.1 with
  | none => false
  | some page => holdsRow page loc.2 pk

/-- The access path: a bare key equality on a clustered tree looks at the row the tree locates,
    everything else walks the relation. -/
def visitedRows (store : Store) (rel : RelationAccess) (stmt : WriteStatement) (rows : List Loc) :
    List Loc :=
  match stmt.target with
  | none => rows
  | some pk => if rel.clustered then (rows.find? (rowHasId store pk)).toList else rows

-- One row

/-- The write itself: the undo record, the trail entry, then the page. -/
def writeRow (rel : RelationAccess) (stmt : WriteStatement) (store : Store) (txn : Transaction)
    (loc : Loc) (tuple : HeapTuple) (pk : Nat) : StatusOr (Store × Transaction) :=
  match stmt.verb with
  | .update encode => do
    let encoded ← encode tuple.payload
    let (store, txn, ptr) ← appendUndo store txn
      { type := .overwrite, priorTrxId := tuple.trxId, priorUndoPtr := tuple.undoPtr
        targetPageId := loc.1, targetSlot := loc.2, pk := pk, image := tuple.payload } pk
    let txn := txn.noteOverwrite rel.oid loc.1 loc.2 pk tuple.trxId tuple.undoPtr tuple.payload
    let page ← store.get loc.1
    let page ← page.overwriteTuple loc.2 encoded txn.id ptr
    .ok (store.put loc.1 page, txn)
  | .delete => do
    let (store, txn, ptr) ← appendUndo store txn
      { type := .deleteMark, priorTrxId := tuple.trxId, priorUndoPtr := tuple.undoPtr
        targetPageId := loc.1, targetSlot := loc.2, pk := pk } pk
    let txn := txn.noteDeleteMark rel.oid loc.1 loc.2 pk tuple.trxId tuple.undoPtr
    let page ← store.get loc.1
    -- the header write carries the link back, and goes before the mark
    let page ← page.overwriteTuple loc.2 tuple.payload txn.id ptr
    let page ← page.deleteMark loc.2 txn.id
    .ok (store.put loc.1 page, txn)

/-- `apply` and `mark`: what a statement does with one slot. -/
def writeSlot (rel : RelationAccess) (view : ReadView) (stmt : WriteStatement) (st : WriteState)
    (loc : Loc) : StatusOr WriteState :=
  match st.store.tupleAt loc.1 loc.2 with
  | none => .ok st
  | some tuple =>
    if classify view tuple.trxId tuple.deleted tuple.undoPtr = .noVersion then .ok st
    else do
      let pk ← keystoneIdOfPayload tuple.payload
      let matched ← stmt.evaluate st.store tuple.payload
      if !matched then .ok st
      else do
        checkWriteConflict st.txn tuple.trxId pk
        stmt.checks st.store loc tuple.payload
        let (store, txn) ← writeRow rel stmt st.store st.txn loc tuple pk
        .ok { store := store, txn := txn, changed := st.changed ++ [loc] }

/-- The statement: the rows it changed are the ones it counts. -/
def writeScan (rel : RelationAccess) (scope : WriteScope) (stmt : WriteStatement) (store : Store) :
    StatusOr WriteState := do
  let rows ← relationRows store rel
  (visitedRows store rel stmt rows).foldlM (writeSlot rel scope.view stmt)
    { store := store, txn := scope.txn }

-- What the snapshot's SELECT returns

/-- The version of a row that a view sees satisfies the predicate. -/
def selects (view : ReadView) (stmt : WriteStatement) (store : Store) (loc : Loc) : Bool :=
  match store.tupleAt loc.1 loc.2 with
  | none => false
  | some tuple =>
    match visibleVersion view store.undo tuple with
    | .ok (some payload) =>
      match stmt.evaluate store payload with
      | .ok matched => matched
      | .error _ => false
    | _ => false

/-- Rows written one after the other, whatever the statement would say of them. -/
def rewriteRows (rel : RelationAccess) (stmt : WriteStatement) (store : Store)
    (txn : Transaction) (locs : List Loc) : StatusOr (Store × Transaction) :=
  locs.foldlM (fun out loc =>
    match out.1.tupleAt loc.1 loc.2 with
    | none => .ok out
    | some tuple => do
      let pk ← keystoneIdOfPayload tuple.payload
      writeRow rel stmt out.1 out.2 loc tuple pk) (store, txn)

/-- **When the stored bytes decide as the snapshot does**: the access path reaches every row the
    snapshot selects, its current writer is one the snapshot sees, and the predicate says the
    same of a row's bytes once the statement has rewritten the selected rows before it. -/
structure StoredBytesDecide (rel : RelationAccess) (scope : WriteScope) (stmt : WriteStatement)
    (store : Store) (rows : List Loc) : Prop where
  reached : ∀ loc ∈ rows, selects scope.view stmt store loc = true →
    loc ∈ visitedRows store rel stmt rows
  current : ∀ loc ∈ rows, selects scope.view stmt store loc = true →
    ∃ tuple, store.tupleAt loc.1 loc.2 = some tuple ∧ scope.view.visible tuple.trxId = true
  settled : ∀ pre loc post, visitedRows store rel stmt rows = pre ++ loc :: post →
    ∀ tuple, store.tupleAt loc.1 loc.2 = some tuple → tuple.deleted = false →
    scope.view.visible tuple.trxId = true →
    ∀ store' txn', rewriteRows rel stmt store scope.txn
        (pre.filter (selects scope.view stmt store)) = .ok (store', txn') →
      (stmt.evaluate store' tuple.payload = .ok true ↔
        stmt.evaluate store tuple.payload = .ok true)

-- Starting a statement

/-- How a statement's snapshot stands to its transaction: the two see the same other writers, and
    the snapshot sees the transaction's own earlier writes, if there are any in the relation. -/
structure WriteScope.Started (scope : WriteScope) (store : Store) (rows : List Loc) : Prop where
  agree : ∀ id, id ≠ scope.txn.id → scope.txn.view.visible id = scope.view.visible id
  own : ∀ loc ∈ rows, ∀ tuple, store.tupleAt loc.1 loc.2 = some tuple →
    tuple.trxId = scope.txn.id → scope.view.visible scope.txn.id = true

-- One row changed

variable {store store' : Store}

variable {txn txn' : Transaction} {pk : Nat}

/-- An append moves the transaction's pointer and the log, and no row. -/
theorem appendUndo_spec {fields : UndoVersion} {ptr : Nat}
    (h : appendUndo store txn fields pk = .ok (store', txn', ptr)) :
    store'.pages = store.pages ∧ txn' = { txn with lastUndoPtr := ptr } ∧
      store.undo.append { fields with txnPrevUndoPtr := txn.lastUndoPtr, pk := pk } =
        .ok (store'.undo, ptr) := by
  rw [appendUndo] at h
  obtain ⟨⟨undo, ptr'⟩, happend, hout⟩ := bind_eq_ok.mp h
  have hpair : ({ store with undo := undo }, { txn with lastUndoPtr := ptr' }, ptr') =
      (store', txn', ptr) := Except.ok.inj hout
  obtain ⟨rfl, hrest⟩ := Prod.mk.inj hpair
  cases hrest
  exact ⟨rfl, rfl, happend⟩

theorem tupleAt_congr (h : store'.pages = store.pages) (pageId slot : Nat) :
    store'.tupleAt pageId slot = store.tupleAt pageId slot := by
  rw [Store.tupleAt, Store.tupleAt, h]

variable {rel : RelationAccess} {stmt : WriteStatement} {loc : Loc} {tuple : HeapTuple}

/-- One slot of one page is all that a put of it changes. -/
theorem tupleAt_put_slot {store₁ : Store} {page page' : HeapPage}
    {top : HeapTuple} (hpages : store₁.pages = store.pages) (hpage : store.pages loc.1 = some page)
    (hslots : ∀ slot, page'.tupleAt slot = if slot = loc.2 then some top else page.tupleAt slot) :
    (store₁.put loc.1 page').tupleAt loc.1 loc.2 = some top ∧
      ∀ other : Loc, other ≠ loc →
        (store₁.put loc.1 page').tupleAt other.1 other.2 = store.tupleAt other.1 other.2 := by
  refine ⟨?_, fun other hne => ?_⟩
  · rw [Store.tupleAt_put, if_pos rfl, hslots, if_pos rfl]
  · rw [Store.tupleAt_put, tupleAt_congr hpages]
    by_cases hsame : other.1 = loc.1
    · have hslot : other.2 ≠ loc.2 := fun heq => hne (Prod.ext hsame heq)
      rw [if_pos hsame, hslots, if_neg hslot, hsame, Store.tupleAt_of_pages hpage]
    · rw [if_neg hsame]

/-- **A row's write** changes that row only, leaves it with the transaction's id, and leaves the
    transaction its id and view, with one more entry in its trail. -/
theorem writeRow_spec (h : writeRow rel stmt store txn loc tuple pk = .ok (store', txn')) :
    (∀ other : Loc, other ≠ loc →
        store'.tupleAt other.1 other.2 = store.tupleAt other.1 other.2) ∧
      (∃ tuple', store'.tupleAt loc.1 loc.2 = some tuple' ∧ tuple'.trxId = txn.id) ∧
      (∃ entry, txn'.trail = txn.trail ++ [entry] ∧ entry.priorTrxId = tuple.trxId) ∧
      txn'.id = txn.id ∧ txn'.view = txn.view := by
  rw [writeRow] at h
  split at h
  · obtain ⟨encoded, -, h⟩ := bind_eq_ok.mp h
    obtain ⟨⟨store₁, txn₁, ptr⟩, happend, h⟩ := bind_eq_ok.mp h
    obtain ⟨hpages, rfl, -⟩ := appendUndo_spec happend
    obtain ⟨page, hget, h⟩ := bind_eq_ok.mp h
    obtain ⟨page', hover, h⟩ := bind_eq_ok.mp h
    cases h
    obtain ⟨old, -, htuples⟩ := HeapPage.tupleAt_overwriteTuple hover
    have hpage : store.pages loc.1 = some page := hpages ▸ Store.get_eq_ok.mp hget
    obtain ⟨hhere, hothers⟩ := tupleAt_put_slot hpages hpage htuples
    exact ⟨hothers, ⟨_, hhere, rfl⟩, ⟨_, rfl, rfl⟩, rfl, rfl⟩
  · obtain ⟨⟨store₁, txn₁, ptr⟩, happend, h⟩ := bind_eq_ok.mp h
    obtain ⟨hpages, rfl, -⟩ := appendUndo_spec happend
    obtain ⟨page, hget, h⟩ := bind_eq_ok.mp h
    obtain ⟨page', hover, h⟩ := bind_eq_ok.mp h
    obtain ⟨page'', hmark, h⟩ := bind_eq_ok.mp h
    cases h
    obtain ⟨old, -, htuples⟩ := HeapPage.tupleAt_overwriteThenMark hover hmark
    have hpage : store.pages loc.1 = some page := hpages ▸ Store.get_eq_ok.mp hget
    obtain ⟨hhere, hothers⟩ := tupleAt_put_slot hpages hpage htuples
    exact ⟨hothers, ⟨_, hhere, rfl⟩, ⟨_, rfl, rfl⟩, rfl, rfl⟩

/-- What the current bytes of a row say, in a store: there is a version to write, and the
    predicate holds of it. -/
def qualifies (view : ReadView) (stmt : WriteStatement) (store : Store) (loc : Loc) : Bool :=
  match store.tupleAt loc.1 loc.2 with
  | none => false
  | some tuple =>
    classify view tuple.trxId tuple.deleted tuple.undoPtr != .noVersion &&
      match stmt.evaluate store tuple.payload with
      | .ok matched => matched
      | .error _ => false

variable {st : WriteState} {view : ReadView}

/-- **One slot**: either it does not qualify and nothing happens, or it qualifies, passes the
    conflict check and is written. -/
theorem writeSlot_cases {st' : WriteState} (h : writeSlot rel view stmt st loc = .ok st') :
    (qualifies view stmt st.store loc = false ∧ st' = st) ∨
      (qualifies view stmt st.store loc = true ∧
        ∃ tuple pk, st.store.tupleAt loc.1 loc.2 = some tuple ∧
          keystoneIdOfPayload tuple.payload = .ok pk ∧
          checkWriteConflict st.txn tuple.trxId pk = .ok () ∧
          writeRow rel stmt st.store st.txn loc tuple pk = .ok (st'.store, st'.txn) ∧
          st'.changed = st.changed ++ [loc]) := by
  rw [writeSlot] at h
  rw [qualifies]
  cases htuple : st.store.tupleAt loc.1 loc.2 with
  | none =>
    rw [htuple] at h
    exact .inl ⟨rfl, (Except.ok.inj h).symm⟩
  | some tuple =>
    rw [htuple] at h
    dsimp only at h ⊢
    by_cases hclass : classify view tuple.trxId tuple.deleted tuple.undoPtr = .noVersion
    · rw [if_pos hclass] at h
      refine .inl ⟨?_, (Except.ok.inj h).symm⟩
      simp [hclass]
    · rw [if_neg hclass] at h
      obtain ⟨pk, hpk, h⟩ := bind_eq_ok.mp h
      obtain ⟨matched, hmatched, h⟩ := bind_eq_ok.mp h
      rw [hmatched]
      cases matched with
      | false =>
        refine .inl ⟨?_, (Except.ok.inj h).symm⟩
        simp
      | true =>
        refine .inr ⟨by simpa using hclass, tuple, pk, rfl, hpk, ?_⟩
        have h : (checkWriteConflict st.txn tuple.trxId pk >>= _) = .ok st' := h
        obtain ⟨_, hconflict, h⟩ := bind_eq_ok.mp h
        obtain ⟨_, -, h⟩ := bind_eq_ok.mp h
        obtain ⟨⟨store, txn⟩, hwrite, h⟩ := bind_eq_ok.mp h
        cases h
        exact ⟨hconflict, hwrite, rfl⟩


-- The rows before one

/-- What a run over some slots leaves: the rows it changed are among them and were written in
    order, and no other row was touched. -/
structure ScanOutcome (rel : RelationAccess) (stmt : WriteStatement) (st₀ st : WriteState)
    (visited : List Loc) : Prop where
  sublist : st.changed.Sublist visited
  writes : rewriteRows rel stmt st₀.store st₀.txn st.changed = .ok (st.store, st.txn)
  frame : ∀ loc, loc ∉ st.changed →
    st.store.tupleAt loc.1 loc.2 = st₀.store.tupleAt loc.1 loc.2
  stamped : ∀ loc ∈ st.changed, ∃ tuple, st.store.tupleAt loc.1 loc.2 = some tuple ∧
    tuple.trxId = st₀.txn.id
  id_eq : st.txn.id = st₀.txn.id
  view_eq : st.txn.view = st₀.txn.view

variable {st₀ : WriteState}

theorem writeSlots_outcome (hstart : st₀.changed = []) (visited : List Loc) :
    ∀ {st : WriteState}, visited.foldlM (writeSlot rel view stmt) st₀ = .ok st →
      ScanOutcome rel stmt st₀ st visited := by
  induction visited using List.reverseRecOn with
  | nil =>
    intro st h
    obtain rfl : st₀ = st := Except.ok.inj h
    refine ⟨?_, ?_, fun _ _ => rfl, ?_, rfl, rfl⟩
    · rw [hstart]
    · rw [hstart]; rfl
    · rw [hstart]; intro loc hloc; cases hloc
  | append_singleton pre loc ih =>
    intro st h
    rw [foldlM_append] at h
    obtain ⟨mid, hpre, hslot⟩ := bind_eq_ok.mp h
    have hslot : writeSlot rel view stmt mid loc = .ok st := by
      rw [foldlM_cons] at hslot
      obtain ⟨st', hst', hnil⟩ := bind_eq_ok.mp hslot
      rw [hst', ← Except.ok.inj hnil]
    have before := ih hpre
    rcases writeSlot_cases hslot with ⟨-, rfl⟩ | ⟨-, tuple, pk, htuple, hpk, -, hwrite, hchanged⟩
    · exact ⟨before.sublist.trans (sublist_append_left pre [loc]), before.writes,
        before.frame, before.stamped, before.id_eq, before.view_eq⟩
    · obtain ⟨hother, ⟨tuple', htuple', hid'⟩, -, hid, hview⟩ := writeRow_spec hwrite
      refine ⟨?_, ?_, ?_, ?_, hid.trans before.id_eq, hview.trans before.view_eq⟩
      · rw [hchanged]
        exact before.sublist.append (List.Sublist.refl [loc])
      · rw [hchanged, rewriteRows, foldlM_append]
        refine bind_eq_ok.mpr ⟨(mid.store, mid.txn), before.writes, ?_⟩
        rw [foldlM_cons]
        refine bind_eq_ok.mpr ⟨(st.store, st.txn), ?_, rfl⟩
        dsimp only
        rw [htuple]
        exact bind_eq_ok.mpr ⟨pk, hpk, hwrite⟩
      · intro other hout
        rw [hchanged, mem_append, mem_singleton, not_or] at hout
        rw [hother other hout.2, before.frame other hout.1]
      · intro other hin
        rw [hchanged, mem_append, mem_singleton] at hin
        by_cases heq : other = loc
        · rw [heq]
          exact ⟨tuple', htuple', hid'.trans before.id_eq⟩
        · rw [hother other heq]
          exact before.stamped other (hin.resolve_right heq)

theorem writeSlots_extends (visited : List Loc) : ∀ {st₀ st : WriteState},
    visited.foldlM (writeSlot rel view stmt) st₀ = .ok st →
      ∃ later, st.changed = st₀.changed ++ later ∧ later.Sublist visited := by
  induction visited with
  | nil =>
    intro st₀ st h
    obtain rfl : st₀ = st := Except.ok.inj h
    exact ⟨[], (append_nil _).symm, List.Sublist.refl []⟩
  | cons loc rest ih =>
    intro st₀ st h
    rw [foldlM_cons] at h
    obtain ⟨mid, hslot, hrest⟩ := bind_eq_ok.mp h
    obtain ⟨later, hlater, hsub⟩ := ih hrest
    rcases writeSlot_cases hslot with ⟨-, rfl⟩ | ⟨-, tuple, pk, -, -, -, -, hchanged⟩
    · exact ⟨later, hlater, hsub.cons loc⟩
    · exact ⟨loc :: later, by rw [hlater, hchanged, append_assoc]; rfl, hsub.cons_cons loc⟩

/-- **The slot in the middle of a run** is changed when it qualifies at the point the run reaches
    it, and only then. -/
theorem changed_iff_qualifies (hstart : st₀.changed = []) {pre post : List Loc}
    (hnodup : (pre ++ loc :: post).Nodup)
    (h : (pre ++ loc :: post).foldlM (writeSlot rel view stmt) st₀ = .ok st) :
    ∃ mid, ScanOutcome rel stmt st₀ mid pre ∧
      (∀ x ∈ pre, x ∈ st.changed ↔ x ∈ mid.changed) ∧
      (loc ∈ st.changed ↔ qualifies view stmt mid.store loc = true) ∧
      (loc ∈ st.changed → ∃ tuple pk, mid.store.tupleAt loc.1 loc.2 = some tuple ∧
        checkWriteConflict mid.txn tuple.trxId pk = .ok ()) := by
  rw [foldlM_append] at h
  obtain ⟨mid, hpre, h⟩ := bind_eq_ok.mp h
  rw [foldlM_cons] at h
  obtain ⟨next, hslot, hpost⟩ := bind_eq_ok.mp h
  have before := writeSlots_outcome hstart pre hpre
  obtain ⟨later, hlater, hsub⟩ := writeSlots_extends post hpost
  obtain ⟨-, htail, hdisj⟩ := nodup_append.mp hnodup
  have hnotpost : loc ∉ post := (nodup_cons.mp htail).1
  have hnotpre : loc ∉ pre := fun hin => hdisj loc hin loc mem_cons_self rfl
  have hnotlater : loc ∉ later := fun hin => hnotpost (hsub.subset hin)
  have hnotmid : loc ∉ mid.changed := fun hin => hnotpre (before.sublist.subset hin)
  have hprelater : ∀ x ∈ pre, x ∉ later := fun x hx hin =>
    hdisj x hx x (mem_cons_of_mem loc (hsub.subset hin)) rfl
  refine ⟨mid, before, ?_⟩
  rcases writeSlot_cases hslot with ⟨hnot, rfl⟩ | ⟨hyes, tuple, pk, htuple, -, hcheck, -, hchanged⟩
  · have hout : loc ∉ st.changed := by
      rw [hlater, mem_append, not_or]
      exact ⟨hnotmid, hnotlater⟩
    refine ⟨fun x hx => ?_, ?_, fun hin => absurd hin hout⟩
    · rw [hlater, mem_append, or_iff_left (hprelater x hx)]
    · simp [hout, hnot]
  · have hin : loc ∈ st.changed := by
      rw [hlater, hchanged]
      simp
    refine ⟨fun x hx => ?_, ?_, fun _ => ⟨tuple, pk, htuple, hcheck⟩⟩
    · have hne : x ≠ loc := fun heq => hnotpre (heq ▸ hx)
      rw [hlater, hchanged, mem_append, or_iff_left (hprelater x hx), mem_append,
        mem_singleton, or_iff_left hne]
    · simp [hin, hyes]

-- The statement

variable {rows : List Loc}

variable {pageIds : List Nat}

theorem mem_slotsOf (h : slotsOf store pageIds = .ok rows) : ∀ loc ∈ rows, loc.1 ∈ pageIds := by
  induction pageIds generalizing rows with
  | nil =>
    obtain rfl : [] = rows := Except.ok.inj h
    intro loc hloc
    cases hloc
  | cons pageId rest ih =>
    obtain ⟨page, -, h⟩ := bind_eq_ok.mp h
    obtain ⟨later, hlater, h⟩ := bind_eq_ok.mp h
    cases h
    intro loc hloc
    rcases mem_append.mp hloc with hhere | hthere
    · obtain ⟨slot, -, rfl⟩ := mem_map.mp hhere
      exact mem_cons_self
    · exact mem_cons_of_mem pageId (ih hlater loc hthere)

theorem slotsOf_nodup
    (hnodup : pageIds.Nodup) (h : slotsOf store pageIds = .ok rows) : rows.Nodup := by
  induction pageIds generalizing rows with
  | nil =>
    obtain rfl : [] = rows := Except.ok.inj h
    exact nodup_nil
  | cons pageId rest ih =>
    obtain ⟨hnot, hrest⟩ := nodup_cons.mp hnodup
    obtain ⟨page, -, h⟩ := bind_eq_ok.mp h
    obtain ⟨later, hlater, h⟩ := bind_eq_ok.mp h
    cases h
    refine nodup_append.mpr ⟨?_, ih hrest hlater, ?_⟩
    · exact List.Nodup.map (fun i j hij => (Prod.mk.inj hij).2) nodup_range
    · rintro loc hhere other hthere rfl
      obtain ⟨slot, -, rfl⟩ := mem_map.mp hhere
      exact hnot (mem_slotsOf hlater _ hthere)

theorem visitedRows_sublist (store : Store) (rel : RelationAccess) (stmt : WriteStatement)
    (rows : List Loc) : (visitedRows store rel stmt rows).Sublist rows := by
  rw [visitedRows]
  split
  · exact List.Sublist.refl rows
  · split_ifs
    · cases hfind : rows.find? (rowHasId store _) with
      | none => exact nil_sublist rows
      | some loc => exact singleton_sublist.mpr (mem_of_find?_eq_some hfind)
    · exact List.Sublist.refl rows

theorem classify_ne_noVersion (hvisible : view.visible tuple.trxId = true) :
    classify view tuple.trxId tuple.deleted tuple.undoPtr ≠ .noVersion ↔
      tuple.deleted = false := by
  rw [classify, if_pos hvisible]
  cases tuple.deleted <;> simp

theorem selects_of_visible (htuple : store.tupleAt loc.1 loc.2 = some tuple)
    (hvisible : view.visible tuple.trxId = true) :
    selects view stmt store loc = true ↔
      tuple.deleted = false ∧ stmt.evaluate store tuple.payload = .ok true := by
  rw [selects, htuple]
  dsimp only
  rw [visibleVersion, classify, if_pos hvisible]
  cases tuple.deleted with
  | true => simp
  | false =>
    cases hmatched : stmt.evaluate store tuple.payload with
    | error e => simp [hmatched]
    | ok matched => simp [hmatched]

theorem qualifies_of_visible (htuple : store.tupleAt loc.1 loc.2 = some tuple)
    (hvisible : view.visible tuple.trxId = true) :
    qualifies view stmt store loc = true ↔
      tuple.deleted = false ∧ stmt.evaluate store tuple.payload = .ok true := by
  rw [qualifies, htuple]
  dsimp only
  rw [Bool.and_eq_true, bne_iff_ne, classify_ne_noVersion hvisible]
  cases stmt.evaluate store tuple.payload with
  | error e => simp
  | ok matched => simp

variable {scope : WriteScope}

theorem WriteScope.Started.visible_of_check (hstart : scope.Started store rows) (hloc : loc ∈ rows)
    (htuple : store.tupleAt loc.1 loc.2 = some tuple) (hid : txn.id = scope.txn.id)
    (hview : txn.view = scope.txn.view) (hcheck : checkWriteConflict txn tuple.trxId pk = .ok ()) :
    scope.view.visible tuple.trxId = true := by
  rw [checkWriteConflict, hid, hview] at hcheck
  by_cases hboot : tuple.trxId = alwaysVisibleTrxId
  · rw [hboot]
    exact ReadView.visible_alwaysVisible scope.view
  · rw [if_neg hboot] at hcheck
    by_cases hown : tuple.trxId = scope.txn.id
    · rw [hown]
      exact hstart.own loc hloc tuple htuple hown
    · rw [if_neg hown] at hcheck
      by_cases hsees : scope.txn.view.visible tuple.trxId = true
      · rw [← hstart.agree tuple.trxId hown]
        exact hsees
      · rw [if_neg hsees] at hcheck
        cases hcheck

/-- **UPDATE and DELETE against SELECT.**  A statement that goes through changes exactly the rows
    the same snapshot's SELECT returns, if and only if the stored bytes decide as the snapshot
    does; the rows it changes then carry its transaction's id, and no other row is touched. -/
theorem writeScan_matches_select_of_started
    (hrows : relationRows store rel = .ok rows) (hstart : scope.Started store rows)
    (hrun : writeScan rel scope stmt store = .ok st) :
    (∀ loc ∈ rows, loc ∈ st.changed ↔ selects scope.view stmt store loc = true) ↔
      StoredBytesDecide rel scope stmt store rows := by
  have hnodup : rows.Nodup := slotsOf_nodup rel.distinct hrows
  have hsub := visitedRows_sublist store rel stmt rows
  have hvisited := hnodup.sublist hsub
  rw [writeScan] at hrun
  obtain ⟨rows', hrows', hrun⟩ := bind_eq_ok.mp hrun
  obtain rfl : rows = rows' := Except.ok.inj (hrows.symm.trans hrows')
  have houtcome := writeSlots_outcome rfl _ hrun
  -- what is known of one slot, in terms of the rows changed before it
  have hslot : ∀ {pre post : List Loc} {loc : Loc},
      visitedRows store rel stmt rows = pre ++ loc :: post →
      (∀ x ∈ pre, x ∈ st.changed ↔ selects scope.view stmt store x = true) →
      ∃ store' txn', rewriteRows rel stmt store scope.txn
          (pre.filter (selects scope.view stmt store)) = .ok (store', txn') ∧
        store'.tupleAt loc.1 loc.2 = store.tupleAt loc.1 loc.2 ∧
        (loc ∈ st.changed ↔ qualifies scope.view stmt store' loc = true) ∧
        (loc ∈ st.changed → ∃ tuple, store.tupleAt loc.1 loc.2 = some tuple ∧
          scope.view.visible tuple.trxId = true) := by
    intro pre post loc hsplit hbefore
    rw [hsplit] at hrun hvisited
    obtain ⟨mid, before, hsame, hqual, hchecked⟩ := changed_iff_qualifies rfl hvisited hrun
    have hpre : pre.Nodup := (nodup_append.mp hvisited).1
    have hnotpre : loc ∉ pre := fun hin =>
      (nodup_append.mp hvisited).2.2 loc hin loc mem_cons_self rfl
    have hloc : loc ∈ rows := hsub.subset (by rw [hsplit]; simp)
    have hchanged : pre.filter (selects scope.view stmt store) = mid.changed :=
      filter_eq_of_sublist before.sublist hpre _ fun x hx =>
        (hbefore x hx).symm.trans (hsame x hx)
    have hkeep : mid.store.tupleAt loc.1 loc.2 = store.tupleAt loc.1 loc.2 :=
      before.frame loc fun hin => hnotpre (before.sublist.subset hin)
    refine ⟨mid.store, mid.txn, ?_, hkeep, hqual, fun hin => ?_⟩
    · rw [hchanged]
      exact before.writes
    · obtain ⟨tuple, pk, htuple, hcheck⟩ := hchecked hin
      rw [hkeep] at htuple
      exact ⟨tuple, htuple, hstart.visible_of_check hloc htuple before.id_eq before.view_eq hcheck⟩
  constructor
  · intro hmatch
    have hbefore : ∀ {pre post : List Loc} {loc : Loc},
        visitedRows store rel stmt rows = pre ++ loc :: post →
        ∀ x ∈ pre, x ∈ st.changed ↔ selects scope.view stmt store x = true := by
      intro pre post loc hsplit x hx
      exact hmatch x (hsub.subset (by rw [hsplit]; exact mem_append_left _ hx))
    refine ⟨?_, ?_, ?_⟩
    · intro loc hloc hsel
      exact houtcome.sublist.subset ((hmatch loc hloc).mpr hsel)
    · intro loc hloc hsel
      have hin : loc ∈ st.changed := (hmatch loc hloc).mpr hsel
      obtain ⟨pre, post, hsplit⟩ := append_of_mem (houtcome.sublist.subset hin)
      obtain ⟨-, -, -, -, -, hvisible⟩ := hslot hsplit (hbefore hsplit)
      exact hvisible hin
    · intro pre loc post hsplit tuple htuple hlive hvisible store' txn' hrewrite
      obtain ⟨store₁, txn₁, hrewrite₁, hkeep, hqual, -⟩ := hslot hsplit (hbefore hsplit)
      cases hrewrite₁.symm.trans hrewrite
      have hloc : loc ∈ rows := hsub.subset (by rw [hsplit]; simp)
      rw [hmatch loc hloc, selects_of_visible htuple hvisible,
        qualifies_of_visible (hkeep.trans htuple) hvisible] at hqual
      exact ⟨fun h => (hqual.mpr ⟨hlive, h⟩).2, fun h => (hqual.mp ⟨hlive, h⟩).2⟩
  · intro hdecide
    have hone : ∀ {pre post : List Loc} {loc : Loc},
        visitedRows store rel stmt rows = pre ++ loc :: post →
        (∀ x ∈ pre, x ∈ st.changed ↔ selects scope.view stmt store x = true) →
        (loc ∈ st.changed ↔ selects scope.view stmt store loc = true) := by
      intro pre post loc hsplit hbefore
      obtain ⟨store', txn', hrewrite, hkeep, hqual, hseen⟩ := hslot hsplit hbefore
      have hloc : loc ∈ rows := hsub.subset (by rw [hsplit]; simp)
      have hboth : ∀ tuple, store.tupleAt loc.1 loc.2 = some tuple →
          scope.view.visible tuple.trxId = true →
          (loc ∈ st.changed ↔ selects scope.view stmt store loc = true) := by
        intro tuple htuple hvisible
        rw [hqual, qualifies_of_visible (hkeep.trans htuple) hvisible,
          selects_of_visible htuple hvisible]
        refine and_congr_right fun hlive => ?_
        exact hdecide.settled pre loc post hsplit tuple htuple hlive hvisible store' txn' hrewrite
      constructor
      · intro hin
        obtain ⟨tuple, htuple, hvisible⟩ := hseen hin
        exact (hboth tuple htuple hvisible).mp hin
      · intro hsel
        obtain ⟨tuple, htuple, hvisible⟩ := hdecide.current loc hloc hsel
        exact (hboth tuple htuple hvisible).mpr hsel
    have hall : ∀ (pre post : List Loc), visitedRows store rel stmt rows = pre ++ post →
        ∀ x ∈ pre, x ∈ st.changed ↔ selects scope.view stmt store x = true := by
      intro pre
      induction pre using List.reverseRecOn with
      | nil => intro post _ x hx; cases hx
      | append_singleton pre loc ih =>
        intro post hsplit x hx
        have hsplit' : visitedRows store rel stmt rows = pre ++ loc :: post := by
          rw [hsplit, append_assoc]; rfl
        rcases Lib.mem_snoc.mp hx with hpre | hlast
        · exact ih (loc :: post) hsplit' x hpre
        · rw [hlast]
          exact hone hsplit' (ih (loc :: post) hsplit')
    intro loc hloc
    constructor
    · intro hin
      exact (hall _ [] (append_nil _).symm loc (houtcome.sublist.subset hin)).mp hin
    · intro hsel
      exact (hall _ [] (append_nil _).symm loc (hdecide.reached loc hloc hsel)).mpr hsel

end Kds.Server
