/-
  Kds.Wal.LoggedRun

  The live side of redo.  Every writer of a page changes the page, logs what it did, and stamps the
  page with the record's LSN (`src/server/command_dispatcher.cpp`, `src/catalog/catalog.cpp`,
  `src/txn/manager.cpp`, `src/txn/undo_log.cpp`, `src/storage/btree/btree.cpp`); what the run left
  on a page is what its last record stamped.

  One stream.  The trace of a run is its records, newest first, each with the page as it was
  stamped, so an earlier point of the run is a suffix of the trace.
-/

import Kds.Lib.Run
import Kds.Storage.PageAlloc
import Kds.Wal.PageRecord

namespace Kds.Wal

open Lib Storage PageAlloc

-- One logged change

/-- What a writer does to one page. -/
inductive LiveOp where
  /-- `PageView::CreateEmptyAs`, for a heap page or a leaf. -/
  | createEmpty (leaf : Bool) (minKey ownerOid : Nat)
  /-- `FormatUndoPage`, of a fresh page or of a recycled one. -/
  | formatUndo (firstTrxId prevPageId : Nat)
  | insertTuple (payload : Bytes) (trxId undoPtr : Nat)
  | overwriteTuple (slot : Nat) (payload : Bytes) (trxId undoPtr : Nat)
  /-- `DeleteMarkLogged`: the mark alone, of a catalog row. -/
  | deleteMark (slot trxId : Nat)
  /-- The writes of a DELETE statement to a row. -/
  | deleteRow (slot trxId undoPtr : Nat)
  | clearDeleteMark (slot trxId undoPtr : Nat)
  | retireSlot (slot : Nat)
  | undoAppend (version : Txn.UndoVersion)
  /-- A structural change, whose page is logged whole. -/
  | rewrite (body : PageBody)

/-- A change of the slots of a heap page, and its record. -/
def changeHeap (page : Option Page) (f : HeapPage → StatusOr (HeapPage × RecordBody)) :
    Option (PageBody × RecordBody) :=
  match page with
  | some ⟨_, _, .heap type ownerOid heap⟩ =>
    (f heap).toOption.map fun out => (.heap type ownerOid out.1, out.2)
  | _ => none

def changeUndo (page : Option Page) (f : UndoPage → StatusOr (UndoPage × RecordBody)) :
    Option (PageBody × RecordBody) :=
  match page with
  | some ⟨_, _, .undo undo⟩ => (f undo).toOption.map fun out => (.undo out.1, out.2)
  | _ => none

/-- A DELETE writes the header first, with the link back to the version it supersedes, over the
    payload as it reads it; then the mark, which re-stamps the writer. -/
def deleteRow (page : HeapPage) (slot trxId undoPtr : Nat) : StatusOr HeapPage := do
  let reread ← page.readTuple slot
  let page ← page.overwriteTuple slot reread.payload trxId undoPtr
  page.deleteMark slot trxId

/-- What the bytes of a page bound: its free space, and the span of every slot. -/
def heapInPage (page : HeapPage) : Bool :=
  decide (page.freeSpace ≤ Storage.pageSize) && page.slots.all fun slot =>
    match slot with
    | .dead => true
    | .live length _ => decide (length ≤ Storage.pageSize)

def bodyInPage : PageBody → Bool
  | .heap _ _ page => heapInPage page
  | _ => true

def heapTypeOf (leaf : Bool) : PageType := if leaf then .btreeLeaf else .heap

/-- The page after the change and the record that is logged for it, from the page as it was (if
    there was one); `none` where the change is refused. -/
def LiveOp.run (page : Option Page) : LiveOp → Option (PageBody × RecordBody)
  | .createEmpty leaf minKey ownerOid =>
    (applyPageInit (heapTypeOf leaf) minKey ownerOid).toOption.map fun body =>
      (body, .pageInit (heapTypeOf leaf) minKey ownerOid)
  | .formatUndo firstTrxId prevPageId =>
    (UndoPage.format firstTrxId prevPageId).toOption.map fun undo =>
      (.undo undo, .pageInit .undo 0 0)
  | .insertTuple payload trxId undoPtr =>
    changeHeap page fun heap => (heap.insertTuple payload trxId undoPtr).map fun out =>
      (out.1, .heapInsert out.2 payload trxId undoPtr)
  | .overwriteTuple slot payload trxId undoPtr =>
    changeHeap page fun heap => (heap.overwriteTuple slot payload trxId undoPtr).map fun out =>
      (out, .heapOverwrite slot payload trxId undoPtr)
  | .deleteMark slot trxId =>
    changeHeap page fun heap => (heap.deleteMark slot trxId).map fun out =>
      (out, .heapDeleteMark slot trxId)
  | .deleteRow slot trxId undoPtr =>
    changeHeap page fun heap => (Wal.deleteRow heap slot trxId undoPtr).map fun out =>
      (out, .heapDeleteMark slot trxId)
  | .clearDeleteMark slot trxId undoPtr =>
    changeHeap page fun heap => (heap.clearDeleteMark slot trxId undoPtr).map fun out =>
      (out, .heapDeleteUnmark slot trxId undoPtr)
  | .retireSlot slot =>
    changeHeap page fun heap => (heap.retireSlot slot).map fun out => (out, .slotRetire slot)
  | .undoAppend version =>
    changeUndo page fun undo => (undo.append version).map fun out =>
      (out.1, .undoWrite out.2 version)
  | .rewrite body =>
    if bodyInPage body then
      some (body, .fullPageImage
        ⟨(page.map Page.lsn).getD 0, (page.map Page.stamp).getD 0, body⟩)
    else none

section Changes

variable {page : Option Page} {body : PageBody} {record : RecordBody} {heap : HeapPage}

theorem changeHeap_eq_some {f : HeapPage → StatusOr (HeapPage × RecordBody)}
    (h : changeHeap page f = some (body, record)) :
    ∃ lsn stamp type ownerOid heap heap', page = some ⟨lsn, stamp, .heap type ownerOid heap⟩ ∧
      f heap = .ok (heap', record) ∧ body = .heap type ownerOid heap' := by
  rcases page with _ | ⟨lsn, stamp, _ | ⟨type, ownerOid, heap⟩ | undo | ⟨raw, owner⟩⟩
  · cases h
  · cases h
  · obtain ⟨⟨heap', record'⟩, hf, hout⟩ := Option.map_eq_some_iff.mp h
    cases hout
    refine ⟨lsn, stamp, type, ownerOid, heap, heap', rfl, ?_, rfl⟩
    rcases hheap : f heap with e | out
    · rw [hheap] at hf
      cases hf
    · rw [hheap] at hf
      exact congrArg Except.ok (Option.some.inj hf)
  · cases h
  · cases h

theorem changeUndo_eq_some {f : UndoPage → StatusOr (UndoPage × RecordBody)}
    (h : changeUndo page f = some (body, record)) :
    ∃ lsn stamp undo undo', page = some ⟨lsn, stamp, .undo undo⟩ ∧
      f undo = .ok (undo', record) ∧ body = .undo undo' := by
  rcases page with _ | ⟨lsn, stamp, _ | ⟨type, ownerOid, heap⟩ | undo | ⟨raw, owner⟩⟩
  · cases h
  · cases h
  · cases h
  · obtain ⟨⟨undo', record'⟩, hf, hout⟩ := Option.map_eq_some_iff.mp h
    cases hout
    refine ⟨lsn, stamp, undo, undo', rfl, ?_, rfl⟩
    rcases hundo : f undo with e | out
    · rw [hundo] at hf
      cases hf
    · rw [hundo] at hf
      exact congrArg Except.ok (Option.some.inj hf)
  · cases h

theorem heapInPage_iff : heapInPage heap = true ↔ heap.freeSpace ≤ Storage.pageSize ∧
    ∀ length tuple, HeapSlot.live length tuple ∈ heap.slots → length ≤ Storage.pageSize := by
  unfold heapInPage
  rw [Bool.and_eq_true, decide_eq_true_iff, List.all_eq_true]
  refine and_congr_right fun _ => ⟨fun h length tuple hin => ?_, fun h slot hin => ?_⟩
  · exact of_decide_eq_true (h _ hin)
  · rcases slot with _ | ⟨length, tuple⟩
    · rfl
    · exact decide_eq_true (h length tuple hin)

theorem heapInPage_setSlot_live (h : heapInPage heap = true) {slot length : Nat} {tuple : HeapTuple}
    (hlive : heap.slots[slot]? = some (.live length tuple)) (tuple' : HeapTuple) :
    heapInPage (heap.setSlot slot (.live length tuple')) = true := by
  obtain ⟨hfree, hslots⟩ := heapInPage_iff.mp h
  refine heapInPage_iff.mpr ⟨hfree, fun length' tuple'' hin => ?_⟩
  rcases List.mem_or_eq_of_mem_set hin with hold | hnew
  · exact hslots _ _ hold
  · obtain ⟨rfl, -⟩ := HeapSlot.live.inj hnew
    exact hslots _ tuple (List.mem_of_getElem? hlive)

theorem heapInPage_insertTuple {heap' : HeapPage} (h : heapInPage heap = true) {payload : Bytes}
    {trxId undoPtr slot : Nat} (hins : heap.insertTuple payload trxId undoPtr = .ok (heap', slot)) :
    heapInPage heap' = true := by
  obtain ⟨hfree, hslots⟩ := heapInPage_iff.mp h
  unfold HeapPage.insertTuple at hins
  dsimp only at hins
  split_ifs at hins with hsize hmax hroom
  obtain ⟨rfl, -⟩ := Prod.mk.inj (Except.ok.inj hins)
  refine heapInPage_iff.mpr ⟨?_, fun length tuple hin => ?_⟩
  · dsimp only
    omega
  · rcases Lib.mem_snoc.mp hin with hold | hnew
    · exact hslots _ _ hold
    · obtain ⟨rfl, -⟩ := HeapSlot.live.inj hnew
      unfold slotOnDiskSize at hroom
      omega

theorem applyPageInit_heapTypeOf (leaf : Bool) (minKey ownerOid : Nat) :
    applyPageInit (heapTypeOf leaf) minKey ownerOid =
      if maxKeystoneId < minKey then
        .error (.invalidArgument "min_key exceeds 40-bit tuple id range")
      else .ok (.heap (heapTypeOf leaf) ownerOid
        { minKey := minKey, freeSpace := Btree.emptyFreeSpace }) := by
  cases leaf
  · rfl
  · rfl

theorem LiveOp.run_inPage {op : LiveOp} (hpage : ∀ p, page = some p → bodyInPage p.body = true)
    (h : op.run page = some (body, record)) : bodyInPage body = true := by
  cases op with
  | createEmpty leaf minKey ownerOid =>
    obtain ⟨made, hmade, hout⟩ := Option.map_eq_some_iff.mp h
    obtain ⟨rfl, -⟩ := Prod.mk.inj hout
    rw [applyPageInit_heapTypeOf] at hmade
    split_ifs at hmade with hkey
    · cases hmade
    · cases hmade
      rfl
  | formatUndo firstTrxId prevPageId =>
    obtain ⟨undo, -, hout⟩ := Option.map_eq_some_iff.mp h
    obtain ⟨rfl, -⟩ := Prod.mk.inj hout
    rfl
  | insertTuple payload trxId undoPtr =>
    obtain ⟨lsn, stamp, type, owner, heap, heap', hlive, hf, rfl⟩ := changeHeap_eq_some h
    obtain ⟨⟨out, slot⟩, hins, hout⟩ := map_eq_ok.mp hf
    obtain ⟨rfl, -⟩ := Prod.mk.inj hout
    exact heapInPage_insertTuple (hpage _ hlive) hins
  | overwriteTuple slot payload trxId undoPtr =>
    obtain ⟨lsn, stamp, type, owner, heap, heap', hlive, hf, rfl⟩ := changeHeap_eq_some h
    obtain ⟨out, hover, hout⟩ := map_eq_ok.mp hf
    obtain ⟨rfl, -⟩ := Prod.mk.inj hout
    obtain ⟨length, tuple, hslot, -, -, rfl⟩ := HeapPage.overwriteTuple_eq_ok hover
    exact heapInPage_setSlot_live (hpage _ hlive) hslot _
  | deleteMark slot trxId =>
    obtain ⟨lsn, stamp, type, owner, heap, heap', hlive, hf, rfl⟩ := changeHeap_eq_some h
    obtain ⟨out, hmark, hout⟩ := map_eq_ok.mp hf
    obtain ⟨rfl, -⟩ := Prod.mk.inj hout
    obtain ⟨length, tuple, hslot, -, rfl⟩ := HeapPage.deleteMark_eq_ok hmark
    exact heapInPage_setSlot_live (hpage _ hlive) hslot _
  | deleteRow slot trxId undoPtr =>
    obtain ⟨lsn, stamp, type, owner, heap, heap', hlive, hf, rfl⟩ := changeHeap_eq_some h
    obtain ⟨out, hrow, hout⟩ := map_eq_ok.mp hf
    obtain ⟨rfl, -⟩ := Prod.mk.inj hout
    obtain ⟨reread, -, hrow⟩ := bind_eq_ok.mp hrow
    obtain ⟨stamped, hover, hmark⟩ := bind_eq_ok.mp hrow
    obtain ⟨length, tuple, hslot, -, -, rfl⟩ := HeapPage.overwriteTuple_eq_ok hover
    obtain ⟨length', tuple', hslot', -, rfl⟩ := HeapPage.deleteMark_eq_ok hmark
    exact heapInPage_setSlot_live (heapInPage_setSlot_live (hpage _ hlive) hslot _) hslot' _
  | clearDeleteMark slot trxId undoPtr =>
    obtain ⟨lsn, stamp, type, owner, heap, heap', hlive, hf, rfl⟩ := changeHeap_eq_some h
    obtain ⟨out, hclear, hout⟩ := map_eq_ok.mp hf
    obtain ⟨rfl, -⟩ := Prod.mk.inj hout
    obtain ⟨length, tuple, hslot, -, rfl⟩ := HeapPage.clearDeleteMark_eq_ok hclear
    exact heapInPage_setSlot_live (hpage _ hlive) hslot _
  | retireSlot slot =>
    obtain ⟨lsn, stamp, type, owner, heap, heap', hlive, hf, rfl⟩ := changeHeap_eq_some h
    obtain ⟨out, hretire, hout⟩ := map_eq_ok.mp hf
    obtain ⟨rfl, -⟩ := Prod.mk.inj hout
    obtain ⟨-, rfl⟩ := HeapPage.retireSlot_eq_ok hretire
    obtain ⟨hfree, hslots⟩ := heapInPage_iff.mp (hpage _ hlive)
    refine heapInPage_iff.mpr ⟨hfree, fun length tuple hin => ?_⟩
    rcases List.mem_or_eq_of_mem_set hin with hold | hnew
    · exact hslots _ _ hold
    · cases hnew
  | undoAppend version =>
    obtain ⟨lsn, stamp, undo, undo', -, -, rfl⟩ := changeUndo_eq_some h
    rfl
  | rewrite new =>
    dsimp only [LiveOp.run] at h
    split_ifs at h with hin
    obtain ⟨rfl, -⟩ := Prod.mk.inj (Option.some.inj h)
    exact hin

end Changes

-- Runs

/-- A record, and the page that it stamped. -/
structure Stamped where
  record : PageRecord
  after : Page

/-- The page as the run left it. -/
def pageIn (trace : List Stamped) (pageId : Nat) : Option Page :=
  (trace.find? fun e => e.record.pageId = pageId).map Stamped.after

/-- The log, oldest record first. -/
def logOf (trace : List Stamped) : List PageRecord := (trace.map Stamped.record).reverse

def lastLsn : List Stamped → Nat
  | [] => 0
  | e :: _ => e.record.lsn

/-- The LSN comes of the stream, which only grows. -/
structure LiveAction where
  lsn : Nat
  pageId : Nat
  op : LiveOp

/-- A page that the store hands out. -/
def usable (pageId : Nat) : Bool := pageId < kMaxPageCount && !isMapPageId pageId

/-- One logged change: the page, the record, the stamp. -/
def liveStep (coreId : Nat) (trace : List Stamped) (a : LiveAction) : Option (List Stamped) :=
  if usable a.pageId ∧ lastLsn trace < a.lsn then
    (a.op.run (pageIn trace a.pageId)).map fun out =>
      ⟨⟨a.lsn, a.pageId, out.2⟩, ⟨a.lsn, streamStampFor coreId, out.1⟩⟩ :: trace
  else none

/-- A DELETE that leaves the row's version link as it was; every other change. -/
def LiveOp.KeepsUndoPtr (page : Option Page) : LiveOp → Prop
  | .deleteRow slot _ undoPtr =>
    ∀ lsn stamp type ownerOid heap, page = some ⟨lsn, stamp, .heap type ownerOid heap⟩ →
      ∀ tuple, heap.tupleAt slot = some tuple → tuple.undoPtr = undoPtr
  | _ => True

/-- The condition on a step of a run. -/
def KeepsUndoPtr (trace : List Stamped) (a : LiveAction) : Prop :=
  a.op.KeepsUndoPtr (pageIn trace a.pageId)

/-- Every entry of a trace comes of a logged change of the page as the entries before it left it,
    one that keeps the version link. -/
def Logged (coreId : Nat) : List Stamped → Prop
  | [] => True
  | e :: trace => Logged coreId trace ∧ usable e.record.pageId = true ∧
      lastLsn trace < e.record.lsn ∧ e.after.lsn = e.record.lsn ∧
      e.after.stamp = streamStampFor coreId ∧
      ∃ op : LiveOp, op.KeepsUndoPtr (pageIn trace e.record.pageId) ∧
        op.run (pageIn trace e.record.pageId) = some (e.after.body, e.record.body)

section Trace

variable {coreId pageId : Nat} {trace old : List Stamped} {e : Stamped} {page : Page}

/-- Every change of a run is the record that stands for it. -/
theorem logged_of_reach (hrun : Reach (liveStep coreId) KeepsUndoPtr [] trace) :
    Logged coreId trace := by
  refine hrun.invariant trivial ?_
  intro t u a ht hok hs
  unfold liveStep at hs
  split_ifs at hs with hguard
  obtain ⟨⟨body, record⟩, hout, rfl⟩ := Option.map_eq_some_iff.mp hs
  exact ⟨ht, hguard.1, hguard.2, rfl, rfl, a.op, hok, hout⟩

theorem Logged.of_suffix (h : Logged coreId trace) (hold : old <:+ trace) :
    Logged coreId old := by
  induction trace with
  | nil =>
    rw [List.suffix_nil.mp hold]
    exact h
  | cons e trace ih =>
    rcases List.suffix_cons_iff.mp hold with rfl | hold
    · exact h
    · exact ih h.1 hold

theorem pageIn_cons (e : Stamped) (trace : List Stamped) (pageId : Nat) :
    pageIn (e :: trace) pageId =
      if e.record.pageId = pageId then some e.after else pageIn trace pageId := by
  unfold pageIn
  by_cases h : e.record.pageId = pageId
  · rw [List.find?_cons_of_pos (by simpa using h), if_pos h]
    rfl
  · rw [List.find?_cons_of_neg (by simpa using h), if_neg h]

theorem logOf_cons (e : Stamped) (trace : List Stamped) :
    logOf (e :: trace) = logOf trace ++ [e.record] := List.reverse_cons

theorem Logged.pageIn (h : Logged coreId trace) (hpage : pageIn trace pageId = some page) :
    page.lsn ≤ lastLsn trace ∧ 0 < page.lsn ∧ page.stamp = streamStampFor coreId ∧
      usable pageId = true := by
  induction trace with
  | nil => exact absurd hpage (by simp [Wal.pageIn])
  | cons e trace ih =>
    obtain ⟨hrest, husable, hlsn, hstamped, hstamp, -⟩ := h
    rw [pageIn_cons] at hpage
    split_ifs at hpage with hp
    · cases hpage
      refine ⟨Nat.le_of_eq hstamped, ?_, hstamp, hp ▸ husable⟩
      omega
    · obtain ⟨hle, hpos, hstamp', hus⟩ := ih hrest hpage
      refine ⟨?_, hpos, hstamp', hus⟩
      have hlast : lastLsn (e :: trace) = e.record.lsn := rfl
      omega

theorem Logged.inPage (h : Logged coreId trace) (hpage : Wal.pageIn trace pageId = some page) :
    bodyInPage page.body = true := by
  induction trace generalizing page with
  | nil => exact absurd hpage (by simp [Wal.pageIn])
  | cons e trace ih =>
    obtain ⟨hrest, -, -, -, -, op, -, hop⟩ := h
    rw [pageIn_cons] at hpage
    split_ifs at hpage with hp
    · cases hpage
      apply LiveOp.run_inPage _ hop
      intro before hbefore
      exact ih hrest (hp ▸ hbefore)
    · exact ih hrest hpage

theorem Logged.pageIn_suffix (h : Logged coreId trace) (hold : old <:+ trace)
    (hpage : Wal.pageIn old pageId = some page) :
    ∃ later, Wal.pageIn trace pageId = some later ∧ (later = page ∨ page.lsn < later.lsn) := by
  induction trace with
  | nil =>
    rw [List.suffix_nil.mp hold] at hpage
    exact ⟨page, hpage, .inl rfl⟩
  | cons e trace ih =>
    rcases List.suffix_cons_iff.mp hold with rfl | hold
    · exact ⟨page, hpage, .inl rfl⟩
    · obtain ⟨later, hlater, hcase⟩ := ih h.1 hold
      rw [pageIn_cons]
      split_ifs
      · refine ⟨e.after, rfl, .inr ?_⟩
        have hle := (h.of_suffix (hold.trans (List.suffix_cons e trace))).pageIn hpage
        have hlast := (h.1.pageIn hlater).1
        obtain ⟨-, -, hlsn, hstamped, -⟩ := h
        rcases hcase with rfl | hlt
        · omega
        · omega
      · exact ⟨later, hlater, hcase⟩

theorem Logged.record_le (h : Logged coreId trace) {r : PageRecord} (hr : r ∈ logOf trace) :
    ∃ page, Wal.pageIn trace r.pageId = some page ∧ r.lsn ≤ page.lsn := by
  induction trace with
  | nil => exact absurd hr (by simp [logOf])
  | cons e trace ih =>
    rw [logOf_cons] at hr
    rw [pageIn_cons]
    obtain ⟨hrest, -, hlsn, hstamped, -⟩ := h
    rcases Lib.mem_snoc.mp hr with hold | rfl
    · obtain ⟨page, hpage, hle⟩ := ih hrest hold
      split_ifs
      · refine ⟨e.after, rfl, ?_⟩
        have hlast := (hrest.pageIn hpage).1
        omega
      · exact ⟨page, hpage, hle⟩
    · exact ⟨e.after, if_pos rfl, Nat.le_of_eq hstamped.symm⟩

end Trace

end Kds.Wal
