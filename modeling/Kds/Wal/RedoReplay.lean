/-
  Kds.Wal.RedoReplay

  Redo after a crash, against the run that wrote the log.  The device holds each page as some
  earlier point of the run stamped it, or nothing; redo over the whole log is to bring every page
  to what the run left on it, and a second redo is to change nothing.

  Each live change has a replay function of its own, and the two agree from every page on, with one
  exception: a DELETE moves the row's version link, which its record does not carry.  So redo
  reproduces every run whose DELETEs leave that link as it was.
-/

import Kds.Wal.LoggedRun
import Kds.Wal.Redo

namespace Kds.Wal

open Lib Storage PageAlloc List

-- The same page

/-- The same undo records: the bytes, their number, and the end of them where there are any. -/
structure UndoPage.Same (live redone : UndoPage) : Prop where
  bytes : redone.bytes = live.bytes
  nrRecords : redone.nrRecords = live.nrRecords
  lower_le : redone.lower ≤ live.lower
  recorded : live.nrRecords ≠ 0 →
    redone.lower = live.lower ∧ redone.initialized = live.initialized

/-- Undo pages by their records, every other page whole: slot directory, tuple headers and
    payloads. -/
inductive PageBody.Same : PageBody → PageBody → Prop where
  | refl (body : PageBody) : Same body body
  | undo {live redone : UndoPage} (h : live.Same redone) : Same (.undo live) (.undo redone)

structure Page.Same (live redone : Page) : Prop where
  lsn : redone.lsn = live.lsn
  stamp : redone.stamp = live.stamp
  body : live.body.Same redone.body

theorem Page.Same.refl (page : Page) : page.Same page := ⟨rfl, rfl, .refl _⟩

/-- What a redo that has come to some point has of a page that the run has. -/
inductive SamePage : Option Page → Option Page → Prop where
  | absent : SamePage none none
  | held {live redone : Page} (h : live.Same redone) : SamePage (some live) (some redone)

theorem SamePage.refl (page : Option Page) : SamePage page page := by
  rcases page with _ | page
  · exact .absent
  · exact .held (Page.Same.refl page)

/-- The page that redo has in hand: a new one where there was none. -/
def inHand (page : Option Page) : Page := page.getD RedoStore.zeroPage

-- A change and its replay

section Replay

variable {redone : Option Page}

variable {lsn stamp : Nat}

theorem SamePage.heap {ownerOid : Nat} {type : PageType} {heap : HeapPage}
    (h : SamePage (some ⟨lsn, stamp, .heap type ownerOid heap⟩) redone) :
    (inHand redone).body = .heap type ownerOid heap := by
  obtain - | ⟨⟨-, -, hbody⟩⟩ := h
  rename_i page
  rcases page with ⟨lsn', stamp', body'⟩
  dsimp only at hbody
  rcases hbody with ⟨_⟩
  rfl

theorem SamePage.undo {undo : UndoPage} (h : SamePage (some ⟨lsn, stamp, .undo undo⟩) redone) :
    ∃ undo', (inHand redone).body = .undo undo' ∧ undo.Same undo' := by
  obtain - | ⟨⟨-, -, hbody⟩⟩ := h
  rename_i page
  rcases page with ⟨lsn', stamp', body'⟩
  dsimp only at hbody
  rcases hbody with ⟨_⟩ | ⟨hundo⟩
  · exact ⟨undo, rfl, ⟨rfl, rfl, Nat.le_refl _, fun _ => ⟨rfl, rfl⟩⟩⟩
  · exact ⟨_, rfl, hundo⟩

theorem UndoPage.Same.writeAt {undo undo' after : UndoPage} {version : Txn.UndoVersion}
    {offset : Nat} (h : undo.Same undo') (happend : undo.append version = .ok (after, offset)) :
    ∃ after', undo'.writeAt offset version = .ok after' ∧ after.Same after' := by
  unfold append at happend
  obtain ⟨u, hcheck, happend⟩ := bind_eq_ok.mp happend
  split_ifs at happend with hinit hbounds hroom
  cases happend
  have hlower : kUndoRecordsOffset ≤ undo.lower := by omega
  have hend : undo.lower + need version ≤ Storage.pageSize := by omega
  have hneed : 0 < need version := by
    unfold need kUndoRecordHeaderSize
    omega
  have hle := h.lower_le
  unfold UndoPage.writeAt
  refine ⟨{ undo' with
    bytes := write undo'.bytes undo.lower (recordBytes version)
    lower := undo.lower + need version
    nrRecords := undo'.nrRecords + 1
    initialized := true }, bind_eq_ok.mpr ⟨u, hcheck, ?_⟩, ?_⟩
  · have hfits : ¬ (2 ^ 64 + Storage.pageSize - undo.lower) % 2 ^ 64 < need version := by
      unfold Storage.pageSize at hend ⊢
      omega
    rw [if_neg (by omega), if_neg hfits, if_pos (by omega)]
  · refine ⟨?_, ?_, Nat.le_refl _, fun _ => ⟨rfl, ?_⟩⟩
    · dsimp only
      rw [h.bytes]
    · dsimp only
      rw [h.nrRecords]
    · exact (Bool.eq_true_of_not_eq_false hinit).symm

variable {heap' : HeapPage} {trxId undoPtr slot : Nat}

theorem deleteRow_eq_deleteMark {heap : HeapPage}
    (h : deleteRow heap slot trxId undoPtr = .ok heap')
    (hlink : ∀ tuple, heap.tupleAt slot = some tuple → tuple.undoPtr = undoPtr) :
    heap.deleteMark slot trxId = .ok heap' := by
  unfold deleteRow at h
  obtain ⟨reread, hread, h⟩ := bind_eq_ok.mp h
  obtain ⟨stamped, hover, hmark⟩ := bind_eq_ok.mp h
  obtain ⟨length, tuple, hlive, hmax, -, rfl⟩ := HeapPage.overwriteTuple_eq_ok hover
  obtain ⟨length', hlive'⟩ := HeapPage.readTuple_eq_ok.mp hread
  rw [hlive] at hlive'
  obtain ⟨rfl, rfl⟩ := HeapSlot.live.inj (Option.some.inj hlive')
  have hptr := hlink _ (HeapPage.tupleAt_eq_some.mpr ⟨_, hlive⟩)
  have hlt : slot < heap.slots.length := (List.getElem?_eq_some_iff.mp hlive).1
  obtain ⟨length'', tuple', hlive'', -, rfl⟩ := HeapPage.deleteMark_eq_ok hmark
  rw [HeapPage.slots_setSlot, List.getElem?_set_self hlt] at hlive''
  obtain ⟨rfl, rfl⟩ := HeapSlot.live.inj (Option.some.inj hlive'')
  rw [HeapPage.setSlot_setSlot, HeapPage.deleteMark]
  refine bind_eq_ok.mpr ⟨(), if_neg (by omega), ?_⟩
  refine bind_eq_ok.mpr ⟨(length, tuple), HeapPage.liveSlot_eq_ok.mpr hlive, ?_⟩
  dsimp only
  rw [← hptr]

variable {payload : Bytes}

theorem redoWriteTuple_of_insertTuple {heap : HeapPage}
    (h : heap.insertTuple payload trxId undoPtr = .ok (heap', slot)) :
    heap.redoWriteTuple slot payload trxId undoPtr = .ok heap' := by
  have hsplit := h
  unfold HeapPage.insertTuple at hsplit
  dsimp only at hsplit
  split_ifs at hsplit with hsize hmax hroom
  obtain ⟨-, rfl⟩ := Prod.mk.inj (Except.ok.inj hsplit)
  have hend : heap.slots[heap.slotCount]? = none := List.getElem?_eq_none (Nat.le_refl _)
  unfold HeapPage.redoWriteTuple
  rw [if_neg hsize, if_neg hmax, if_neg (Nat.lt_irrefl _), hend]
  dsimp only
  rw [h]
  rfl

theorem redoWriteTuple_of_overwriteTuple {heap : HeapPage}
    (hsize : payload.length ≤ Storage.pageSize)
    (h : heap.overwriteTuple slot payload trxId undoPtr = .ok heap') :
    heap.redoWriteTuple slot payload trxId undoPtr = .ok heap' := by
  obtain ⟨length, tuple, hlive, hmax, -, -⟩ := HeapPage.overwriteTuple_eq_ok h
  have hlt : slot < heap.slots.length := (List.getElem?_eq_some_iff.mp hlive).1
  have hcount : ¬ heap.slotCount < slot := by
    unfold HeapPage.slotCount
    omega
  unfold HeapPage.redoWriteTuple
  rw [if_neg (by omega), if_neg (by omega), if_neg hcount, hlive]
  exact h

/-- Records that redo may make a page for. -/
def RecordBody.creates (record : RecordBody) : Bool := record.isPageInit || record.isImage

/-- **The replay of a change is the change**, from any page that is the same, where a DELETE leaves
    the version link as it was. -/
theorem replay_of_run {live : Option Page} {op : LiveOp} {body : PageBody} {record : RecordBody}
    (hlink : op.KeepsUndoPtr live) (hin : ∀ p, live = some p → bodyInPage p.body = true)
    (hsame : SamePage live redone) (h : op.run live = some (body, record)) :
    (∃ body', applyBody (inHand redone).body record = .ok body' ∧ body.Same body') ∧
      record.touchesNoPage = false ∧ (live = none → record.creates = true) := by
  cases op with
  | createEmpty leaf minKey ownerOid =>
    obtain ⟨made, hmade, hout⟩ := Option.map_eq_some_iff.mp h
    obtain ⟨rfl, rfl⟩ := Prod.mk.inj hout
    refine ⟨⟨made, ?_, .refl _⟩, rfl, fun _ => rfl⟩
    rcases happly : applyPageInit (heapTypeOf leaf) minKey ownerOid with e | made'
    · rw [happly] at hmade
      cases hmade
    · rw [happly] at hmade
      obtain rfl := Option.some.inj hmade
      exact happly
  | formatUndo firstTrxId prevPageId =>
    obtain ⟨undo, hundo, hout⟩ := Option.map_eq_some_iff.mp h
    obtain ⟨rfl, rfl⟩ := Prod.mk.inj hout
    refine ⟨⟨.undo .zeroed, rfl, .undo ?_⟩, rfl, fun _ => rfl⟩
    unfold UndoPage.format at hundo
    split_ifs at hundo with hmax
    · cases hundo
    · obtain rfl := Option.some.inj hundo
      exact ⟨rfl, rfl, Nat.zero_le _, fun hsome => absurd rfl hsome⟩
  | insertTuple payload trxId undoPtr =>
    obtain ⟨lsn, stamp, type, owner, heap, heap', rfl, hf, rfl⟩ := changeHeap_eq_some h
    obtain ⟨⟨out, slot⟩, hins, hout⟩ := map_eq_ok.mp hf
    obtain ⟨rfl, rfl⟩ := Prod.mk.inj hout
    refine ⟨⟨_, ?_, .refl _⟩, rfl, fun hnone => by cases hnone⟩
    rw [hsame.heap]
    exact map_eq_ok.mpr ⟨_, redoWriteTuple_of_insertTuple hins, rfl⟩
  | overwriteTuple slot payload trxId undoPtr =>
    obtain ⟨lsn, stamp, type, owner, heap, heap', rfl, hf, rfl⟩ := changeHeap_eq_some h
    obtain ⟨out, hover, hout⟩ := map_eq_ok.mp hf
    obtain ⟨rfl, rfl⟩ := Prod.mk.inj hout
    refine ⟨⟨_, ?_, .refl _⟩, rfl, fun hnone => by cases hnone⟩
    rw [hsame.heap]
    -- the reservation lies in the page, so the payload is no longer than one
    obtain ⟨length, tuple, hslot, -, hfit, -⟩ := HeapPage.overwriteTuple_eq_ok hover
    have hlength := (heapInPage_iff.mp (hin _ rfl)).2 _ _ (mem_of_getElem? hslot)
    have hsize : payload.length ≤ Storage.pageSize := by omega
    exact map_eq_ok.mpr ⟨_, redoWriteTuple_of_overwriteTuple hsize hover, rfl⟩
  | deleteMark slot trxId =>
    obtain ⟨lsn, stamp, type, owner, heap, heap', rfl, hf, rfl⟩ := changeHeap_eq_some h
    obtain ⟨out, hmark, hout⟩ := map_eq_ok.mp hf
    obtain ⟨rfl, rfl⟩ := Prod.mk.inj hout
    refine ⟨⟨_, ?_, .refl _⟩, rfl, fun hnone => by cases hnone⟩
    rw [hsame.heap]
    exact map_eq_ok.mpr ⟨_, hmark, rfl⟩
  | deleteRow slot trxId undoPtr =>
    obtain ⟨lsn, stamp, type, owner, heap, heap', rfl, hf, rfl⟩ := changeHeap_eq_some h
    obtain ⟨out, hrow, hout⟩ := map_eq_ok.mp hf
    obtain ⟨rfl, rfl⟩ := Prod.mk.inj hout
    refine ⟨⟨_, ?_, .refl _⟩, rfl, fun hnone => by cases hnone⟩
    rw [hsame.heap]
    have hmark := deleteRow_eq_deleteMark hrow (hlink _ _ _ _ _ rfl)
    exact map_eq_ok.mpr ⟨_, hmark, rfl⟩
  | clearDeleteMark slot trxId undoPtr =>
    obtain ⟨lsn, stamp, type, owner, heap, heap', rfl, hf, rfl⟩ := changeHeap_eq_some h
    obtain ⟨out, hclear, hout⟩ := map_eq_ok.mp hf
    obtain ⟨rfl, rfl⟩ := Prod.mk.inj hout
    refine ⟨⟨_, ?_, .refl _⟩, rfl, fun hnone => by cases hnone⟩
    rw [hsame.heap]
    exact map_eq_ok.mpr ⟨_, hclear, rfl⟩
  | retireSlot slot =>
    obtain ⟨lsn, stamp, type, owner, heap, heap', rfl, hf, rfl⟩ := changeHeap_eq_some h
    obtain ⟨out, hretire, hout⟩ := map_eq_ok.mp hf
    obtain ⟨rfl, rfl⟩ := Prod.mk.inj hout
    refine ⟨⟨_, ?_, .refl _⟩, rfl, fun hnone => by cases hnone⟩
    rw [hsame.heap]
    refine map_eq_ok.mpr ⟨_, ?_, rfl⟩
    show HeapPage.applySlotRetire _ _ = _
    rw [HeapPage.applySlotRetire, hretire]
  | undoAppend version =>
    obtain ⟨lsn, stamp, undo, undo', rfl, hf, rfl⟩ := changeUndo_eq_some h
    obtain ⟨⟨out, offset⟩, happend, hout⟩ := map_eq_ok.mp hf
    obtain ⟨rfl, rfl⟩ := Prod.mk.inj hout
    obtain ⟨before, hbefore, hundo⟩ := hsame.undo
    obtain ⟨after, hafter, hsame'⟩ := hundo.writeAt happend
    refine ⟨⟨.undo after, ?_, .undo hsame'⟩, rfl, fun hnone => by cases hnone⟩
    rw [hbefore]
    exact map_eq_ok.mpr ⟨_, hafter, rfl⟩
  | rewrite new =>
    dsimp only [LiveOp.run] at h
    split_ifs at h with hfits
    cases h
    exact ⟨⟨_, rfl, .refl _⟩, rfl, fun _ => rfl⟩

end Replay

-- The store under redo

namespace RedoStore

variable {s s' : RedoStore} {p q : Nat} {page : Page}

/-- Nothing has been written of the page: the free map does not have it, or the device holds
    zeros. -/
def Absent (s : RedoStore) (p : Nat) : Prop :=
  s.isAllocated p = false ∨ (s.frames p = none ∧ s.device p = .zeros)

/-- What the store has of a page. -/
def Shows (s : RedoStore) (p : Nat) : Option Page → Prop
  | none => s.Absent p
  | some page => s.pageAt p = some page

theorem pageAt_eq (s : RedoStore) (p : Nat) : s.pageAt p =
    if s.isAllocated p = false then none
    else
      match s.frames p with
      | some page => some page
      | none =>
        match s.device p with
        | .holds page => some page
        | _ => none := by
  unfold pageAt get
  by_cases h : s.isAllocated p = false
  · rw [if_pos h, if_pos h]
    rfl
  · rw [if_neg h, if_neg h]
    rcases s.frames p with _ | page
    · rcases s.device p with _ | _ | e | page
      · rfl
      · rfl
      · rfl
      · rfl
    · rfl

theorem pageAt_congr (halloc : s'.isAllocated p = s.isAllocated p)
    (hframe : s'.frames p = s.frames p) (hdevice : s'.device p = s.device p) :
    s'.pageAt p = s.pageAt p ∧ (s.Absent p → s'.Absent p) := by
  refine ⟨?_, fun h => ?_⟩
  · rw [pageAt_eq, pageAt_eq, halloc, hframe, hdevice]
  · rw [Absent, halloc, hframe, hdevice]
    exact h

theorem Shows.congr {x : Option Page} (h : s.Shows p x)
    (hsame : s'.pageAt p = s.pageAt p ∧ (s.Absent p → s'.Absent p)) : s'.Shows p x := by
  rcases x with _ | page
  · exact hsame.2 h
  · exact hsame.1.trans h

theorem pageAt_setFrame (halloc : s.isAllocated p = true) (page : Page) :
    (s.setFrame p page).pageAt p = some page := by
  have halloc' : ¬ (s.setFrame p page).isAllocated p = false := by
    rw [Bool.not_eq_false]
    exact halloc
  have hframe : (s.setFrame p page).frames p = some page := Function.update_self _ _ _
  rw [pageAt_eq, if_neg halloc', hframe]

theorem setFrame_other (h : q ≠ p) (page : Page) :
    (s.setFrame p page).pageAt q = s.pageAt q ∧
      (s.Absent q → (s.setFrame p page).Absent q) :=
  pageAt_congr rfl (Function.update_of_ne h _ _) rfl

theorem get_of_pageAt (h : s.pageAt p = some page) :
    s.isAllocated p = true ∧ ∃ s', s.get p = (s', .ok page) ∧ s'.isAllocated p = true ∧
      ∀ q, s'.pageAt q = s.pageAt q ∧ (s.Absent q → s'.Absent q) := by
  rw [pageAt_eq] at h
  split_ifs at h with halloc
  have halloc' : s.isAllocated p = true := (Bool.not_eq_false _).mp halloc
  refine ⟨halloc', ?_⟩
  unfold get
  rw [if_neg halloc]
  rcases hframe : s.frames p with _ | found
  · rw [hframe] at h
    rcases hdevice : s.device p with _ | _ | e | found
    · rw [hdevice] at h
      cases h
    · rw [hdevice] at h
      cases h
    · rw [hdevice] at h
      cases h
    · rw [hdevice] at h
      obtain rfl := Option.some.inj h
      refine ⟨_, rfl, halloc', fun q => ?_⟩
      by_cases hq : q = p
      · subst hq
        refine ⟨?_, fun habsent => ?_⟩
        · rw [pageAt_setFrame halloc', pageAt_eq, if_neg halloc, hframe, hdevice]
        · rcases habsent with hno | ⟨-, hzeros⟩
          · exact absurd hno halloc
          · rw [hdevice] at hzeros
            cases hzeros
      · exact setFrame_other hq found
  · rw [hframe] at h
    obtain rfl := Option.some.inj h
    exact ⟨s, rfl, halloc', fun q => ⟨rfl, id⟩⟩

theorem createAt_of_absent (h : s.Absent p) (husable : usable p = true) :
    (∃ s' e, s.get p = (s', .error e) ∧ e.code = .notFound) ∧
      ∃ s', s.createAt p = .ok (s', zeroPage) ∧ s'.isAllocated p = true ∧
        ∀ q, q ≠ p → s'.pageAt q = s.pageAt q ∧ (s.Absent q → s'.Absent q) := by
  unfold usable at husable
  obtain ⟨hlt, hmap⟩ := Bool.and_eq_true_iff.mp husable
  have htop : ¬ kMaxPageCount ≤ p := Nat.not_le.mpr (of_decide_eq_true hlt)
  refine ⟨?_, ?_⟩
  · unfold get
    rcases h with hno | ⟨hframe, hzeros⟩
    · rw [if_pos hno]
      exact ⟨_, _, rfl, rfl⟩
    · by_cases hno : s.isAllocated p = false
      · rw [if_pos hno]
        exact ⟨_, _, rfl, rfl⟩
      · rw [if_neg hno, hframe, hzeros]
        exact ⟨_, _, rfl, rfl⟩
  · unfold createAt
    have hfree : ¬ (isMapPageId p || (s.isAllocated p &&
        ((s.frames p).isSome || !s.deviceHoldsOnlyZeros p))) = true := by
      rw [Bool.not_eq_true'] at hmap
      rw [hmap, Bool.false_or]
      rcases h with hno | ⟨hframe, hzeros⟩
      · rw [hno]
        exact Bool.false_ne_true
      · rw [deviceHoldsOnlyZeros, hframe, hzeros]
        simp
    rw [if_neg htop, if_neg hfree]
    refine ⟨_, rfl, ?_, fun q hq => ?_⟩
    · unfold isAllocated
      rw [if_neg htop]
      exact Function.update_self _ _ _
    · refine pageAt_congr ?_ (Function.update_of_ne hq _ _) rfl
      unfold isAllocated
      dsimp only [setFrame]
      rw [Function.update_of_ne hq]

end RedoStore

-- One record

/-- The dirty-page table that hides no record. -/
def wholeLog : Nat → Option Nat := fun _ => some 0

section Visit

variable {coreId : Nat} {st : RedoState} {r : PageRecord} {page : Page}

theorem visit_wholeLog (htouch : r.body.touchesNoPage = false) {st' : RedoState}
    (h : st.noteRecord.acquire r = .ok (st', some page)) :
    st.visit coreId wholeLog r = st'.replay coreId r page := by
  have hwhole : ¬ (wholeLog r.pageId).any (· ≤ r.lsn) = false := by
    rw [wholeLog, Option.any_some, Bool.not_eq_false]
    exact decide_eq_true (Nat.zero_le _)
  have htouch' : ¬ r.body.touchesNoPage = true := by
    rw [htouch]
    exact Bool.false_ne_true
  unfold RedoState.visit
  rw [if_neg htouch', if_neg hwhole, h]

theorem not_foreign (h : page.stamp = streamStampFor coreId ∨ page.stamp = 0) :
    ¬ stampIsForeign page.stamp coreId = true := by
  unfold stampIsForeign
  rcases h with h | h
  · rw [h]
    simp
  · rw [h]
    simp

theorem noteImage_of_clean (h : st.poisoned = []) :
    (st.noteImage r).store = st.store ∧ (st.noteImage r).poisoned = [] := by
  unfold RedoState.noteImage RedoState.heal
  split_ifs with himage hheld
  · rw [h] at hheld
    cases hheld
  · exact ⟨rfl, h⟩
  · exact ⟨rfl, h⟩

theorem replay_seen (hclean : st.poisoned = []) (hstamp : page.stamp = streamStampFor coreId)
    (hle : r.lsn ≤ page.lsn) : st.replay coreId r page = .ok { st with
      stats := { st.stats with skippedByLsn := st.stats.skippedByLsn + 1 } } := by
  have hheld : ¬ (r.pageId ∈ st.poisoned ∧ r.body.isImage = false) := by
    rw [hclean]
    exact fun h => absurd h.1 not_mem_nil
  unfold RedoState.replay
  rw [if_neg hheld, if_neg (not_foreign (.inl hstamp)), if_pos hle]

theorem visit_seen (hclean : st.poisoned = []) (hpage : st.store.pageAt r.pageId = some page)
    (hstamp : page.stamp = streamStampFor coreId) (hle : r.lsn ≤ page.lsn)
    (htouch : r.body.touchesNoPage = false) :
    ∃ st', st.visit coreId wholeLog r = .ok st' ∧ st'.poisoned = [] ∧
      st'.stats.applied = st.stats.applied ∧
      ∀ q, st'.store.pageAt q = st.store.pageAt q ∧
        (st.store.Absent q → st'.store.Absent q) := by
  obtain ⟨-, s', hget, -, hsame⟩ := RedoStore.get_of_pageAt hpage
  refine ⟨{ st.noteRecord with
    store := s'
    stats := { st.noteRecord.stats with
      skippedByLsn := st.noteRecord.stats.skippedByLsn + 1 } }, ?_, hclean, rfl, hsame⟩
  have hacquire : st.noteRecord.acquire r =
      .ok ({ st.noteRecord with store := s' }, some page) := by
    unfold RedoState.acquire
    dsimp only [RedoState.noteRecord]
    rw [hget]
  rw [visit_wholeLog htouch hacquire]
  exact replay_seen hclean hstamp hle

theorem visit_applied {x : Option Page} {body : PageBody} (hclean : st.poisoned = [])
    (hshows : st.store.Shows r.pageId x) (husable : usable r.pageId = true)
    (hx : ∀ page, x = some page → page.stamp = streamStampFor coreId ∧ page.lsn < r.lsn)
    (hpos : 0 < r.lsn) (htouch : r.body.touchesNoPage = false)
    (hcreates : x = none → r.body.creates = true)
    (happly : applyBody (inHand x).body r.body = .ok body) :
    ∃ st', st.visit coreId wholeLog r = .ok st' ∧ st'.poisoned = [] ∧
      st'.store.pageAt r.pageId = some ⟨r.lsn, streamStampFor coreId, body⟩ ∧
      ∀ q, q ≠ r.pageId → st'.store.pageAt q = st.store.pageAt q ∧
        (st.store.Absent q → st'.store.Absent q) := by
  -- the page comes in hand
  have hacquire : ∃ st1, st.noteRecord.acquire r = .ok (st1, some (inHand x)) ∧
      st1.poisoned = [] ∧ st1.store.isAllocated r.pageId = true ∧
      ∀ q, q ≠ r.pageId → st1.store.pageAt q = st.store.pageAt q ∧
        (st.store.Absent q → st1.store.Absent q) := by
    unfold RedoState.acquire
    dsimp only [RedoState.noteRecord]
    rcases x with _ | page
    · obtain ⟨⟨s', e, hget, hcode⟩, s1, hcreate, halloc, hsame⟩ :=
        RedoStore.createAt_of_absent hshows husable
      have hmissing : ¬ e.code = .corruption := by
        rw [hcode]
        intro h
        cases h
      have hmake := hcreates rfl
      unfold RecordBody.creates at hmake
      rw [hget]
      dsimp only
      rw [if_neg hmissing, if_pos hmake, hcreate]
      exact ⟨_, rfl, hclean, halloc, hsame⟩
    · obtain ⟨-, s1, hget, halloc, hsame⟩ := RedoStore.get_of_pageAt hshows
      rw [hget]
      exact ⟨_, rfl, hclean, halloc, fun q _ => hsame q⟩
  obtain ⟨st1, hst1, hclean1, halloc, hsame⟩ := hacquire
  have hheld : ¬ (r.pageId ∈ st1.poisoned ∧ r.body.isImage = false) := by
    rw [hclean1]
    exact fun h => absurd h.1 not_mem_nil
  have hnew : ¬ stampIsForeign (inHand x).stamp coreId = true ∧ ¬ r.lsn ≤ (inHand x).lsn := by
    rcases x with _ | page
    · exact ⟨not_foreign (.inr rfl), Nat.not_le.mpr hpos⟩
    · obtain ⟨hstamp, hlt⟩ := hx page rfl
      exact ⟨not_foreign (.inl hstamp), Nat.not_le.mpr hlt⟩
  obtain ⟨hstore, hclean2⟩ := noteImage_of_clean (r := r) hclean1
  refine ⟨(st1.noteImage r).stampPage coreId r body, ?_, hclean2, ?_, fun q hq => ?_⟩
  · rw [visit_wholeLog htouch hst1]
    unfold RedoState.replay RedoState.applied
    rw [if_neg hheld, if_neg hnew.1, if_neg hnew.2, happly]
  · dsimp only [RedoState.stampPage]
    rw [hstore]
    exact RedoStore.pageAt_setFrame halloc _
  · dsimp only [RedoState.stampPage]
    rw [hstore]
    obtain ⟨hread, habsent⟩ := hsame q hq
    obtain ⟨hread', habsent'⟩ := RedoStore.setFrame_other (s := st1.store) hq
      ⟨r.lsn, streamStampFor coreId, body⟩
    exact ⟨hread'.trans hread, fun h => habsent' (habsent h)⟩

end Visit

-- The run and its redo

/-- What a crash leaves of a run: each of its pages as some earlier point of the run stamped it, or
    nothing of it. -/
def CrashImage (trace : List Stamped) (store : RedoStore) : Prop :=
  ∀ p, pageIn trace p ≠ none → ∃ old, old <:+ trace ∧ store.Shows p (pageIn old p)

/-- Redo of the whole log succeeds, brings each page to what the run left on it, and over its own
    result applies nothing and changes no page. -/
def Reproduces (coreId : Nat) (trace : List Stamped) (store : RedoStore) : Prop :=
  ∃ st, redo coreId wholeLog (logOf trace) store = .ok st ∧
    (∀ p live, pageIn trace p = some live →
      ∃ redone, st.store.pageAt p = some redone ∧ live.Same redone) ∧
    ∃ again, redo coreId wholeLog (logOf trace) st.store = .ok again ∧ again.stats.applied = 0 ∧
      ∀ p, again.store.pageAt p = st.store.pageAt p

def lsnOf (page : Option Page) : Nat := (page.map Page.lsn).getD 0

/-- A page when redo has come to some point of the log: as the crash left it, where that is no
    older, or what the run had there. -/
def Redone (trace sofar : List Stamped) (s : RedoStore) (p : Nat) : Prop :=
  (∃ old, old <:+ trace ∧ lsnOf (pageIn sofar p) ≤ lsnOf (pageIn old p) ∧
    s.Shows p (pageIn old p)) ∨
  ∃ live redone, pageIn sofar p = some live ∧ s.pageAt p = some redone ∧ live.Same redone

section Run

variable {coreId p : Nat} {trace sofar old : List Stamped} {e : Stamped} {s s' : RedoStore}
    {store : RedoStore}

theorem Redone.congr (h : Redone trace sofar s p)
    (hsame : s'.pageAt p = s.pageAt p ∧ (s.Absent p → s'.Absent p)) :
    Redone trace sofar s' p := by
  rcases h with ⟨old, hold, hle, hshows⟩ | ⟨live, redone, hlive, hpage, hbody⟩
  · exact .inl ⟨old, hold, hle, hshows.congr hsame⟩
  · exact .inr ⟨live, redone, hlive, hsame.1.trans hpage, hbody⟩

theorem Logged.pageIn_eq (h : Logged coreId sofar) (hold : old <:+ sofar)
    (hle : lsnOf (Wal.pageIn sofar p) ≤ lsnOf (Wal.pageIn old p)) :
    Wal.pageIn sofar p = Wal.pageIn old p := by
  rcases hpage : Wal.pageIn old p with _ | page
  · rw [hpage] at hle
    rcases hlive : Wal.pageIn sofar p with _ | live
    · rfl
    · have hpos := (h.pageIn hlive).2.1
      rw [hlive] at hle
      exact absurd hle (Nat.not_le.mpr hpos)
  · obtain ⟨later, hlater, rfl | hlt⟩ := h.pageIn_suffix hold hpage
    · exact hlater
    · rw [hpage, hlater] at hle
      exact absurd hle (Nat.not_le.mpr hlt)

theorem Logged.suffix_of_lt (h : Logged coreId trace) (hsofar : e :: sofar <:+ trace)
    (hold : old <:+ trace) (hlt : lsnOf (Wal.pageIn old e.record.pageId) < e.record.lsn) :
    old <:+ sofar := by
  have hstamped : e.after.lsn = e.record.lsn := (h.of_suffix hsofar).2.2.2.1
  have hlater : ¬ e :: sofar <:+ old := by
    intro hsuffix
    have hpage : Wal.pageIn (e :: sofar) e.record.pageId = some e.after := by
      rw [pageIn_cons, if_pos rfl]
    obtain ⟨later, hlater, hcase⟩ := (h.of_suffix hold).pageIn_suffix hsuffix hpage
    rw [hlater] at hlt
    have hlt' : later.lsn < e.record.lsn := hlt
    rcases hcase with rfl | hmore
    · omega
    · omega
  rcases suffix_or_suffix_of_suffix hold hsofar with hle | hge
  · rcases suffix_cons_iff.mp hle with rfl | hle
    · exact absurd (suffix_refl _) hlater
    · exact hle
  · exact absurd hge hlater

theorem Logged.touches (h : Logged coreId trace) {r : PageRecord} (hr : r ∈ logOf trace) :
    r.body.touchesNoPage = false := by
  induction trace with
  | nil => exact absurd hr (by simp [logOf])
  | cons e trace ih =>
    rw [logOf_cons] at hr
    obtain ⟨hrest, -, -, -, -, op, hlink, hop⟩ := h
    rcases Lib.mem_snoc.mp hr with hold | rfl
    · exact ih hrest hold
    · exact (replay_of_run hlink (fun _ hpage => hrest.inPage hpage) (SamePage.refl _) hop).2.1

theorem Redone.before (h : Logged coreId trace) (hsofar : e :: sofar <:+ trace)
    (hredone : Redone trace sofar s e.record.pageId) :
    (∃ page, s.pageAt e.record.pageId = some page ∧ page.stamp = streamStampFor coreId ∧
      e.record.lsn ≤ page.lsn ∧ ∃ old, old <:+ trace ∧
        Wal.pageIn old e.record.pageId = some page) ∨
    ∃ x, s.Shows e.record.pageId x ∧ SamePage (Wal.pageIn sofar e.record.pageId) x ∧
      ∀ page, x = some page → page.stamp = streamStampFor coreId ∧ page.lsn < e.record.lsn := by
  obtain ⟨hlogged, -, hlsn, hstamped, -⟩ := h.of_suffix hsofar
  rcases hredone with ⟨old, hold, hle, hshows⟩ | ⟨live, redone, hlive, hpage, hsame⟩
  · by_cases hseen : e.record.lsn ≤ lsnOf (Wal.pageIn old e.record.pageId)
    · rcases hpage : Wal.pageIn old e.record.pageId with _ | page
      · rw [hpage] at hseen
        exact absurd hseen (Nat.not_le.mpr (Nat.lt_of_le_of_lt (Nat.zero_le _) hlsn))
      · rw [hpage] at hshows hseen
        exact .inl ⟨page, hshows, ((h.of_suffix hold).pageIn hpage).2.2.1, hseen, old, hold, hpage⟩
    · have hsuffix := h.suffix_of_lt hsofar hold (Nat.not_le.mp hseen)
      refine .inr ⟨_, hshows, ?_, fun page hpage => ?_⟩
      · rw [hlogged.pageIn_eq hsuffix hle]
        exact SamePage.refl _
      · rw [hpage] at hseen
        exact ⟨((h.of_suffix hold).pageIn hpage).2.2.1, Nat.not_le.mp hseen⟩
  · obtain ⟨hlast, -, hstamp, -⟩ := hlogged.pageIn hlive
    refine .inr ⟨some redone, hpage, ?_, fun page heq => ?_⟩
    · rw [hlive]
      exact .held hsame
    · cases heq
      refine ⟨hsame.stamp.trans hstamp, ?_⟩
      rw [hsame.lsn]
      exact Nat.lt_of_le_of_lt hlast hlsn

theorem visit_redone (h : Logged coreId trace) (hsofar : e :: sofar <:+ trace) {st : RedoState}
    (hclean : st.poisoned = [])
    (hall : ∀ p, Wal.pageIn trace p ≠ none → Redone trace sofar st.store p) :
    ∃ st', st.visit coreId wholeLog e.record = .ok st' ∧ st'.poisoned = [] ∧
      ∀ p, Wal.pageIn trace p ≠ none → Redone trace (e :: sofar) st'.store p := by
  obtain ⟨hlogged, husable, hlsn, hstamped, hstamp, op, hlink, hop⟩ := h.of_suffix hsofar
  have hhere : Wal.pageIn (e :: sofar) e.record.pageId = some e.after := by
    rw [pageIn_cons, if_pos rfl]
  have hin : Wal.pageIn trace e.record.pageId ≠ none := by
    obtain ⟨later, hlater, -⟩ := h.pageIn_suffix hsofar hhere
    rw [hlater]
    exact Option.some_ne_none later
  have hother : ∀ {q}, q ≠ e.record.pageId →
      Wal.pageIn (e :: sofar) q = Wal.pageIn sofar q := by
    intro q hq
    rw [pageIn_cons, if_neg (Ne.symm hq)]
  have hkeep : ∀ {q} {s'}, q ≠ e.record.pageId → Redone trace sofar s' q →
      Redone trace (e :: sofar) s' q := by
    intro q s' hq hredone
    unfold Redone
    rw [hother hq]
    exact hredone
  have hinPage : ∀ page, Wal.pageIn sofar e.record.pageId = some page →
      bodyInPage page.body = true := fun _ hpage => hlogged.inPage hpage
  rcases Redone.before h hsofar (hall _ hin) with
    ⟨page, hpage, hpstamp, hle, old, hold, hwas⟩ | ⟨x, hshows, hsame, hx⟩
  · -- skipped by its LSN
    have htouch := (replay_of_run hlink hinPage (SamePage.refl _) hop).2.1
    obtain ⟨st', hvisit, hclean', -, hreads⟩ := visit_seen hclean hpage hpstamp hle htouch
    refine ⟨st', hvisit, hclean', fun q hq => ?_⟩
    by_cases hqe : q = e.record.pageId
    · subst hqe
      refine .inl ⟨old, hold, ?_, ?_⟩
      · rw [hhere, hwas]
        exact Nat.le_trans (Nat.le_of_eq hstamped) hle
      · rw [hwas]
        exact (hreads _).1.trans hpage
    · exact hkeep hqe ((hall q hq).congr (hreads q))
  · obtain ⟨⟨body, happly, hbody⟩, htouch, hcreates⟩ := replay_of_run hlink hinPage hsame hop
    have hcreates' : x = none → e.record.body.creates = true := by
      rintro rfl
      rcases hlive : Wal.pageIn sofar e.record.pageId with _ | live
      · exact hcreates hlive
      · rw [hlive] at hsame
        cases hsame
    obtain ⟨st', hvisit, hclean', hpage, hreads⟩ := visit_applied hclean hshows husable hx
      (Nat.lt_of_le_of_lt (Nat.zero_le _) hlsn) htouch hcreates' happly
    refine ⟨st', hvisit, hclean', fun q hq => ?_⟩
    by_cases hqe : q = e.record.pageId
    · subst hqe
      exact .inr ⟨e.after, _, hhere, hpage, hstamped.symm, hstamp.symm, hbody⟩
    · exact hkeep hqe ((hall q hq).congr (hreads q hqe))

theorem foldlM_redone (h : Logged coreId trace) (hcrash : CrashImage trace store)
    (hsofar : sofar <:+ trace) :
    ∃ st, (logOf sofar).foldlM (RedoState.visit coreId wholeLog) (.start store) = .ok st ∧
      st.poisoned = [] ∧
      ∀ p, Wal.pageIn trace p ≠ none → Redone trace sofar st.store p := by
  induction sofar with
  | nil =>
    refine ⟨.start store, rfl, rfl, fun p hp => ?_⟩
    obtain ⟨old, hold, hshows⟩ := hcrash p hp
    exact .inl ⟨old, hold, Nat.zero_le _, hshows⟩
  | cons e sofar ih =>
    obtain ⟨st, hfold, hclean, hall⟩ := ih ((suffix_cons e sofar).trans hsofar)
    obtain ⟨st', hvisit, hclean', hall'⟩ := visit_redone h hsofar hclean hall
    refine ⟨st', ?_, hclean', hall'⟩
    rw [logOf_cons, foldlM_append, hfold]
    refine bind_eq_ok.mpr ⟨st, rfl, ?_⟩
    rw [foldlM_cons]
    exact bind_eq_ok.mpr ⟨st', hvisit, rfl⟩

variable {records : List PageRecord} {st : RedoState}

theorem foldlM_seen (hclean : st.poisoned = [])
    (hseen : ∀ r ∈ records, r.body.touchesNoPage = false ∧ ∃ page,
      st.store.pageAt r.pageId = some page ∧ page.stamp = streamStampFor coreId ∧
        r.lsn ≤ page.lsn) :
    ∃ st', records.foldlM (RedoState.visit coreId wholeLog) st = .ok st' ∧ st'.poisoned = [] ∧
      st'.stats.applied = st.stats.applied ∧
      ∀ q, st'.store.pageAt q = st.store.pageAt q := by
  induction records generalizing st with
  | nil => exact ⟨st, rfl, hclean, rfl, fun _ => rfl⟩
  | cons r records ih =>
    obtain ⟨htouch, page, hpage, hstamp, hle⟩ := hseen r mem_cons_self
    obtain ⟨st1, hvisit, hclean1, happlied, hreads⟩ :=
      visit_seen hclean hpage hstamp hle htouch
    obtain ⟨st2, hfold, hclean2, happlied2, hreads2⟩ := ih hclean1 (by
      intro r' hr'
      rw [(hreads _).1]
      exact hseen r' (mem_cons_of_mem r hr'))
    refine ⟨st2, ?_, hclean2, happlied2.trans happlied,
      fun q => (hreads2 q).trans (hreads q).1⟩
    rw [foldlM_cons]
    exact bind_eq_ok.mpr ⟨st1, hvisit, hfold⟩

theorem redo_of_foldlM
    (hfold : records.foldlM (RedoState.visit coreId wholeLog) (.start store) = .ok st)
    (hclean : st.poisoned = []) : redo coreId wholeLog records store = .ok st := by
  unfold redo
  rw [hfold]
  dsimp only
  rw [hclean]
  rfl

end Run

/-- A crash that leaves every page as one earlier point of the run has it. -/
def storeAt (old : List Stamped) : RedoStore where
  allocated p := (pageIn old p).isSome
  device p :=
    match pageIn old p with
    | some page => .holds page
    | none => .zeros
  frames _ := none

theorem crashImage_storeAt {coreId : Nat} {trace old : List Stamped} (h : Logged coreId trace)
    (hold : old <:+ trace) : CrashImage trace (storeAt old) := by
  refine fun p _ => ⟨old, hold, ?_⟩
  rcases hpage : pageIn old p with _ | page
  · refine .inr ⟨rfl, ?_⟩
    dsimp only [storeAt]
    rw [hpage]
  · have husable := ((h.of_suffix hold).pageIn hpage).2.2.2
    unfold usable at husable
    have hlt : ¬ kMaxPageCount ≤ p :=
      Nat.not_le.mpr (of_decide_eq_true (Bool.and_eq_true_iff.mp husable).1)
    have halloc : ¬ (storeAt old).isAllocated p = false := by
      unfold RedoStore.isAllocated
      rw [if_neg hlt]
      dsimp only [storeAt]
      rw [hpage]
      simp
    dsimp only [RedoStore.Shows]
    rw [RedoStore.pageAt_eq, if_neg halloc]
    dsimp only [storeAt]
    rw [hpage]

/-- **Redo reproduces every run whose DELETEs leave the version link as it was**, from whatever a
    crash leaves of it, and a second redo changes nothing. -/
theorem redo_reproduces (coreId : Nat) (trace : List Stamped) (store : RedoStore)
    (hrun : Reach (liveStep coreId) KeepsUndoPtr [] trace) (hcrash : CrashImage trace store) :
    Reproduces coreId trace store := by
  have hlogged := logged_of_reach hrun
  obtain ⟨st, hfold, hclean, hall⟩ := foldlM_redone hlogged hcrash (suffix_refl trace)
  have hpages : ∀ p live, pageIn trace p = some live →
      ∃ redone, st.store.pageAt p = some redone ∧ live.Same redone := by
    intro p live hlive
    rcases hall p (by rw [hlive]; exact Option.some_ne_none live) with
      ⟨old, hold, hle, hshows⟩ | ⟨live', redone, hlive', hpage, hsame⟩
    · rw [← hlogged.pageIn_eq hold hle, hlive] at hshows
      exact ⟨live, hshows, Page.Same.refl live⟩
    · cases hlive.symm.trans hlive'
      exact ⟨redone, hpage, hsame⟩
  have hseen : ∀ r ∈ logOf trace, r.body.touchesNoPage = false ∧ ∃ page,
      st.store.pageAt r.pageId = some page ∧ page.stamp = streamStampFor coreId ∧
        r.lsn ≤ page.lsn := by
    intro r hr
    obtain ⟨live, hlive, hle⟩ := hlogged.record_le hr
    obtain ⟨redone, hpage, hsame⟩ := hpages _ _ hlive
    refine ⟨?_, redone, hpage, hsame.stamp.trans (hlogged.pageIn hlive).2.2.1, ?_⟩
    · exact hlogged.touches hr
    · rw [hsame.lsn]
      exact hle
  have hstart : (RedoState.start st.store).poisoned = [] := rfl
  obtain ⟨again, hfold', hclean', happlied, hreads⟩ := foldlM_seen hstart hseen
  exact ⟨st, redo_of_foldlM hfold hclean, hpages, again, redo_of_foldlM hfold' hclean', happlied,
    hreads⟩

/-- A row inserted, overwritten under an undo record and marked as the catalog marks its rows. -/
def rewritten : List LiveAction :=
  [⟨100, 200, .createEmpty false 0 4001⟩,
    ⟨200, 200, .insertTuple [7, 0, 0, 0, 0, 0, 0, 0] 5 0⟩,
    ⟨300, 201, .formatUndo 6 0⟩,
    ⟨400, 201, .undoAppend { type := .overwrite, priorTrxId := 5, targetPageId := 200
                             targetSlot := 0, pk := 7, image := [7, 0, 0, 0, 0, 0, 0, 0] }⟩,
    ⟨500, 200, .overwriteTuple 0 [7, 0, 0, 0, 0, 0, 0, 1] 6 (201 * 2 ^ 16 + 56)⟩,
    ⟨600, 200, .deleteMark 0 6⟩]

/-- The crash comes when the device has the page as of the insert and no undo page. -/
theorem redo_reproduces_rewritten :
    ∃ trace, Reach (liveStep 0) KeepsUndoPtr [] trace ∧ trace.length = 6 ∧
      Reproduces 0 trace (storeAt (trace.drop 4)) := by
  have hend : (runList (liveStep 0) rewritten []).any (fun t => decide (t.length = 6)) = true := by
    decide +kernel
  obtain ⟨trace, htrace, hlength⟩ := (Option.any_eq_true _ _).mp hend
  have hok : ∀ a ∈ rewritten, ∀ t, KeepsUndoPtr t a := by
    intro a ha t
    simp only [rewritten, mem_cons, not_mem_nil, or_false] at ha
    rcases ha with rfl | rfl | rfl | rfl | rfl | rfl
    all_goals exact trivial
  have hrun := reach_of_runList hok htrace
  exact ⟨trace, hrun, of_decide_eq_true hlength, redo_reproduces 0 trace _ hrun
    (crashImage_storeAt (logged_of_reach hrun) (List.drop_suffix 4 trace))⟩

/-- A row inserted and deleted by a DELETE statement, whose undo record the row then names. -/
def deletedRow : List LiveAction :=
  [⟨100, 200, .createEmpty false 0 4001⟩,
    ⟨200, 200, .insertTuple [7, 0, 0, 0, 0, 0, 0, 0] 5 0⟩,
    ⟨300, 201, .formatUndo 6 0⟩,
    ⟨400, 201, .undoAppend { type := .deleteMark, priorTrxId := 5, targetPageId := 200
                             targetSlot := 0, pk := 7 }⟩,
    ⟨500, 200, .deleteRow 0 6 (201 * 2 ^ 16 + 56)⟩]

def undoPtrOf (page : Page) : Option Nat :=
  match page.body with
  | .heap _ _ heap => (heap.tupleAt 0).map HeapTuple.undoPtr
  | _ => none

theorem Page.Same.undoPtrOf {live redone : Page} (h : live.Same redone) :
    undoPtrOf redone = undoPtrOf live := by
  rcases live with ⟨lsn, stamp, body⟩
  rcases redone with ⟨lsn', stamp', body'⟩
  have hbody : body.Same body' := h.body
  rcases hbody with ⟨_⟩ | ⟨_⟩
  · rfl
  · rfl

/-- Nothing of the run is on the device; redo brings the row back with no version link. -/
theorem deleteLosesUndoPtr :
    ∃ trace, Reach (liveStep 0) (fun _ _ => True) [] trace ∧ CrashImage trace (storeAt []) ∧
      ¬ Reproduces 0 trace (storeAt []) := by
  have hend : (runList (liveStep 0) deletedRow []).any (fun t =>
      decide ((pageIn t 200).bind undoPtrOf = some (201 * 2 ^ 16 + 56)) &&
        decide (((redo 0 wholeLog (logOf t) (storeAt [])).toOption.bind fun st =>
          (st.store.pageAt 200).bind undoPtrOf) = some 0)) = true := by
    decide +kernel
  obtain ⟨trace, htrace, hlinks⟩ := (Option.any_eq_true _ _).mp hend
  obtain ⟨hlive, hredone⟩ := Bool.and_eq_true_iff.mp hlinks
  have hlive' := of_decide_eq_true hlive
  have hredone' := of_decide_eq_true hredone
  refine ⟨trace, reach_of_runList (fun _ _ _ => trivial) htrace, ?_, ?_⟩
  · refine fun p _ => ⟨[], nil_suffix, .inr ⟨rfl, rfl⟩⟩
  · rintro ⟨st, hst, hpages, -⟩
    obtain ⟨live, hpage, hptr⟩ := Option.bind_eq_some_iff.mp hlive'
    obtain ⟨redone, hread, hsame⟩ := hpages 200 live hpage
    rw [hst] at hredone'
    have hback : (st.store.pageAt 200).bind undoPtrOf = some 0 := hredone'
    rw [hread] at hback
    have hback' : undoPtrOf redone = some 0 := hback
    rw [hsame.undoPtrOf, hptr] at hback'
    cases hback'

end Kds.Wal
