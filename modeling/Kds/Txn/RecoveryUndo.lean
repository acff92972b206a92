/-
  Kds.Txn.RecoveryUndo

  Recovery's undo phase (`src/txn/recovery_undo.cpp`): a loser's undo chain is walked from its
  newest record and each record is compensated at the address it names, after a check that the
  row there is the row it means.  There is no locator, and no record that says how far an earlier
  attempt came.

  A record concerns one slot, so a walk is a keyed run (`Lib.Keyed`): `undoSlot` is what
  `Compensate` does to the content of the slot it names.
-/

import Kds.Lib.Keyed
import Kds.Txn.Manager

namespace Kds.Txn

open Lib Storage List

namespace UndoVersion

/-- The address a record names. -/
def target (rec : UndoVersion) : Loc := (rec.targetPageId, rec.targetSlot)

end UndoVersion

namespace RecoveryUndo

def maxUndoTxnChainLength : Nat := 2 ^ 20

/-- `PkAt`. -/
def pkAt (page : HeapPage) (slot : Nat) : Option Nat :=
  match page.payloadAt slot with
  | .error _ => none
  | .ok payload => (keystoneIdOfPayload payload).toOption

def movedRow (rec : UndoVersion) (found : Option Nat) : Status :=
  .corruption ("undo: row id " ++ toString rec.pk ++ " is no longer at page " ++
    toString rec.targetPageId ++ " slot " ++ toString rec.targetSlot ++ " (found " ++
    (match found with
      | none => "nothing"
      | some pk => toString pk) ++
    "); a leaf division moved it and recovery cannot re-locate a row - docs/spec/wal.md")

/-- `RecoveryUndo::Compensate`: the store, and the record logged. -/
def compensate (store : Store) (rec : UndoVersion) : StatusOr (Store × List LogRecord) :=
  match store.get rec.targetPageId with
  | .error e =>
    .error (e.withContext ("undo: page " ++ toString rec.targetPageId ++
      " named by an undo record"))
  | .ok page =>
    let here := pkAt page rec.targetSlot
    -- an insert whose slot reads back nothing was compensated by an earlier attempt
    if rec.type = .insert ∧ here = none ∧ rec.targetSlot < page.slotCount then .ok (store, [])
    else if here ≠ some rec.pk then .error (movedRow rec here)
    else do
      let (page, record) ← undoWrite page rec.type rec.targetPageId rec.targetSlot rec.image
        rec.priorTrxId rec.priorUndoPtr
      .ok (store.put rec.targetPageId page, [record])

/-- The loop of `RollBackOne`, with so many steps left: the store, what was logged, and the
    failure that stopped it. -/
def rollBackFrom (txnId : Nat) : Nat → Nat → Store → Store × List LogRecord × Option Status
  | 0, ptr, store =>
    if ptr = noUndoPtr then (store, [], none)
    else (store, [], some (.corruption ("undo: transaction " ++ toString txnId ++
      "'s chain exceeded " ++ toString maxUndoTxnChainLength ++
      " records; it does not terminate")))
  | steps + 1, ptr, store =>
    if ptr = noUndoPtr then (store, [], none)
    else
      match store.undo.read ptr with
      | .error e => (store, [], some (e.withContext ("undo: transaction " ++ toString txnId ++
          "'s chain at " ++ toString ptr)))
      | .ok rec =>
        match compensate store rec with
        | .error e => (store, [], some e)
        | .ok (store, logged) =>
          let (store, later, failure) := rollBackFrom txnId steps rec.txnPrevUndoPtr store
          (store, logged ++ later, failure)

/-- `RollBackOne`; when it does not fail, `TXN_ABORT` is appended after the records it logged. -/
def rollBackOne (store : Store) (txnId head : Nat) : Store × List LogRecord × Option Status :=
  rollBackFrom txnId maxUndoTxnChainLength head store

end RecoveryUndo

-- One record, on the slot it names

/-- The row id a slot's content reads back. -/
def HeapSlot.pk : HeapSlot → Option Nat
  | .dead => none
  | .live _ tuple => (keystoneIdOfPayload tuple.payload).toOption

/-- The switch of a rollback, on a slot's content. -/
def undoContent (rec : UndoVersion) : HeapSlot → Option HeapSlot
  | .dead => none
  | .live length tuple =>
    match rec.type with
    | .insert => some .dead
    | .overwrite =>
      if maxTrxId < rec.priorTrxId ∨ length < tupleHeaderOnDiskSize + rec.image.length then none
      else some (.live length { tuple with
        trxId := rec.priorTrxId, undoPtr := rec.priorUndoPtr, payload := rec.image })
    | .deleteMark =>
      if maxTrxId < rec.priorTrxId then none
      else some (.live length { tuple with
        trxId := rec.priorTrxId, undoPtr := rec.priorUndoPtr, deleted := false })

/-- `Compensate`, on the content of the slot. -/
def undoSlot (rec : UndoVersion) : Option HeapSlot → Option (Option HeapSlot)
  | none => none
  | some content =>
    if rec.type = .insert ∧ HeapSlot.pk content = none then some (some content)
    else if HeapSlot.pk content ≠ some rec.pk then none
    else (undoContent rec content).map some

/-- The record a compensation logs. -/
def compensationRecord (rec : UndoVersion) : LogRecord :=
  match rec.type with
  | .insert => .slotRetire rec.targetPageId rec.targetSlot
  | .overwrite =>
    .heapOverwrite rec.targetPageId rec.targetSlot rec.image rec.priorTrxId rec.priorUndoPtr
  | .deleteMark =>
    .heapDeleteUnmark rec.targetPageId rec.targetSlot rec.priorTrxId rec.priorUndoPtr

variable {page : HeapPage} {slot : Nat} {content : HeapSlot} {chain : List UndoVersion}

theorem pkAt_eq (h : page.slots[slot]? = some content) :
    RecoveryUndo.pkAt page slot = HeapSlot.pk content := by
  rw [RecoveryUndo.pkAt, HeapPage.payloadAt, HeapPage.readTuple, HeapPage.liveSlot, h]
  cases content with
  | dead => rfl
  | live length tuple => rfl

theorem pkAt_none (h : page.slots[slot]? = none) :
    RecoveryUndo.pkAt page slot = none := by
  rw [RecoveryUndo.pkAt, HeapPage.payloadAt, HeapPage.readTuple, HeapPage.liveSlot, h]
  rfl

variable {rec : UndoVersion}

theorem undoWrite_iff {page' : HeapPage} {record : LogRecord}
    (h : page.slots[rec.targetSlot]? = some content) :
    undoWrite page rec.type rec.targetPageId rec.targetSlot rec.image rec.priorTrxId
        rec.priorUndoPtr = .ok (page', record) ↔
      record = compensationRecord rec ∧
        ∃ content', undoContent rec content = some content' ∧
          page' = page.setSlot rec.targetSlot content' := by
  cases content with
  | dead =>
    have hlive : page.liveSlot rec.targetSlot = .error (.notFound "slot is dead") := by
      rw [HeapPage.liveSlot, h]
    constructor
    · intro hdo
      rw [undoWrite.eq_def] at hdo
      split at hdo
      · rw [HeapPage.retireSlot, h] at hdo
        cases hdo
      · obtain ⟨page'', hover, -⟩ := map_eq_ok.mp hdo
        obtain ⟨length, tuple, hslot, -⟩ := HeapPage.overwriteTuple_eq_ok hover
        rw [h] at hslot
        cases hslot
      · obtain ⟨page'', hclear, -⟩ := map_eq_ok.mp hdo
        obtain ⟨length, tuple, hslot, -⟩ := HeapPage.clearDeleteMark_eq_ok hclear
        rw [h] at hslot
        cases hslot
    · rintro ⟨-, content', hnone, -⟩
      cases hnone
  | live length tuple =>
    rw [undoWrite.eq_def, compensationRecord.eq_def, undoContent.eq_def]
    cases htype : rec.type with
    | insert =>
      dsimp only
      rw [HeapPage.retireSlot, h]
      constructor
      · intro hdo
        cases hdo
        exact ⟨rfl, _, rfl, rfl⟩
      · rintro ⟨rfl, content', hcontent, rfl⟩
        cases hcontent
        rfl
    | overwrite =>
      dsimp only
      rw [map_eq_ok]
      constructor
      · rintro ⟨page'', hover, hpair⟩
        cases hpair
        obtain ⟨length', tuple', hslot, hmax, hfit, rfl⟩ := HeapPage.overwriteTuple_eq_ok hover
        cases h.symm.trans hslot
        refine ⟨rfl, _, if_neg ?_, rfl⟩
        omega
      · rintro ⟨rfl, content', hcontent, rfl⟩
        split_ifs at hcontent with hbad
        cases hcontent
        refine ⟨_, HeapPage.overwriteTuple_of_live h ?_ ?_, rfl⟩ <;> omega
    | deleteMark =>
      dsimp only
      rw [map_eq_ok]
      constructor
      · rintro ⟨page'', hclear, hpair⟩
        cases hpair
        obtain ⟨length', tuple', hslot, hmax, rfl⟩ := HeapPage.clearDeleteMark_eq_ok hclear
        cases h.symm.trans hslot
        refine ⟨rfl, _, if_neg ?_, rfl⟩
        omega
      · rintro ⟨rfl, content', hcontent, rfl⟩
        split_ifs at hcontent with hbad
        cases hcontent
        refine ⟨_, HeapPage.clearDeleteMark_of_live h ?_, rfl⟩
        omega

variable {store : Store}

theorem slotAt_target (h : store.pages rec.targetPageId = some page) :
    store.slotAt rec.target = page.slots[rec.targetSlot]? :=
  @Store.slotAt_of_pages store rec.target page h

theorem slotAt_target_absent
    (h : store.pages rec.targetPageId = none) : store.slotAt rec.target = none := by
  rw [Store.slotAt, UndoVersion.target, h]

/-- **A compensation** is its record's step on the slots; where the slot reads back a row, it logs
    what it did. -/
theorem compensate_eq_ok {store' : Store} {logged : List LogRecord}
    (h : RecoveryUndo.compensate store rec = .ok (store', logged)) :
    stepAt UndoVersion.target undoSlot store.slotAt rec = some store'.slotAt ∧
      store.SameFrame store' ∧
      ((store.slotAt rec.target).bind HeapSlot.pk ≠ none → logged = [compensationRecord rec]) := by
  rw [RecoveryUndo.compensate] at h
  split at h
  · cases h
  · next page hget =>
    have hpage : store.pages rec.targetPageId = some page := Store.get_eq_ok.mp hget
    dsimp only at h
    cases hslot : page.slots[rec.targetSlot]? with
    | none =>
      have hlen : page.slotCount ≤ rec.targetSlot := List.getElem?_eq_none_iff.mp hslot
      rw [pkAt_none hslot, if_neg (by omega), if_pos (by simp)] at h
      cases h
    | some content =>
      have hlt : rec.targetSlot < page.slots.length :=
        (List.getElem?_eq_some_iff.mp hslot).1
      have hat : store.slotAt rec.target = some content := (slotAt_target hpage).trans hslot
      rw [stepAt, hat]
      rw [pkAt_eq hslot] at h
      by_cases hdone : rec.type = .insert ∧ HeapSlot.pk content = none
      · rw [if_pos ⟨hdone.1, hdone.2, hlt⟩] at h
        cases h
        refine ⟨?_, Store.SameFrame.refl store, fun hread => absurd hdone.2 hread⟩
        rw [undoSlot, if_pos hdone, ← hat, Option.map_some, Function.update_eq_self]
      · rw [if_neg (fun hno => hdone ⟨hno.1, hno.2.1⟩)] at h
        by_cases hpk : HeapSlot.pk content = some rec.pk
        · rw [if_neg (by simpa using hpk)] at h
          obtain ⟨⟨page', record⟩, hdo, h⟩ := bind_eq_ok.mp h
          cases h
          obtain ⟨rfl, content', hcontent, rfl⟩ := (undoWrite_iff hslot).mp hdo
          refine ⟨?_, Store.sameFrame_put_setSlot hpage _ _, fun _ => rfl⟩
          rw [undoSlot, if_neg hdone, if_neg (by simpa using hpk), hcontent]
          exact congrArg some (@Store.slotAt_put_setSlot store rec.target page hpage hlt
            content').symm
        · rw [if_pos hpk] at h
          cases h

variable {slots : Loc → Option HeapSlot}

theorem exists_compensate (h : stepAt UndoVersion.target undoSlot store.slotAt rec = some slots) :
    ∃ store' logged, RecoveryUndo.compensate store rec = .ok (store', logged) := by
  rw [stepAt] at h
  obtain ⟨v, hv, -⟩ := Option.map_eq_some_iff.mp h
  cases hpage : store.pages rec.targetPageId with
  | none =>
    rw [slotAt_target_absent hpage] at hv
    cases hv
  | some page =>
    rw [slotAt_target hpage] at hv
    rw [RecoveryUndo.compensate, Store.get_eq_ok.mpr hpage]
    dsimp only
    cases hslot : page.slots[rec.targetSlot]? with
    | none => rw [hslot] at hv; cases hv
    | some content =>
      have hlt : rec.targetSlot < page.slotCount := (List.getElem?_eq_some_iff.mp hslot).1
      rw [hslot, undoSlot] at hv
      rw [pkAt_eq hslot]
      by_cases hdone : rec.type = .insert ∧ HeapSlot.pk content = none
      · exact ⟨store, [], if_pos ⟨hdone.1, hdone.2, hlt⟩⟩
      · rw [if_neg hdone] at hv
        rw [if_neg (fun hno => hdone ⟨hno.1, hno.2.1⟩)]
        by_cases hpk : HeapSlot.pk content ≠ some rec.pk
        · rw [if_pos hpk] at hv
          cases hv
        · rw [if_neg hpk] at hv
          rw [if_neg hpk]
          obtain ⟨content', hcontent, -⟩ := Option.map_eq_some_iff.mp hv
          exact ⟨_, _, bind_eq_ok.mpr ⟨_, (undoWrite_iff hslot).mpr
            ⟨rfl, content', hcontent, rfl⟩, rfl⟩⟩

theorem redo_compensationRecord (hpage : store.pages rec.targetPageId = some page)
    {content' : HeapSlot} (hslot : page.slots[rec.targetSlot]? = some content)
    (hundo : undoContent rec content = some content') (himage : rec.image.length ≤ pageSize) :
    (compensationRecord rec).redo store =
      .ok (store.put rec.targetPageId (page.setSlot rec.targetSlot content')) := by
  have hwrite := (undoWrite_iff hslot).mpr ⟨rfl, content', hundo, rfl⟩
  have hlt : rec.targetSlot < page.slotCount := (List.getElem?_eq_some_iff.mp hslot).1
  have hid : (compensationRecord rec).pageId = rec.targetPageId := by
    rw [compensationRecord.eq_def]
    split <;> rfl
  rw [LogRecord.redo, hid]
  refine bind_eq_ok.mpr ⟨page, Store.get_eq_ok.mpr hpage, ?_⟩
  refine bind_eq_ok.mpr ⟨page.setSlot rec.targetSlot content', ?_, rfl⟩
  rw [undoWrite.eq_def] at hwrite
  rw [compensationRecord.eq_def]
  cases htype : rec.type with
  | insert =>
    rw [htype] at hwrite
    obtain ⟨page', hretire, hpair⟩ := map_eq_ok.mp hwrite
    obtain ⟨rfl, -⟩ := Prod.mk.inj hpair
    show page.applySlotRetire rec.targetSlot = _
    rw [HeapPage.applySlotRetire, hretire]
  | overwrite =>
    rw [htype] at hwrite
    obtain ⟨page', hover, hpair⟩ := map_eq_ok.mp hwrite
    obtain ⟨rfl, -⟩ := Prod.mk.inj hpair
    obtain ⟨length, tuple, hlive, hmax, -, -⟩ := HeapPage.overwriteTuple_eq_ok hover
    show page.redoWriteTuple rec.targetSlot rec.image rec.priorTrxId rec.priorUndoPtr = _
    rw [HeapPage.redoWriteTuple, if_neg (by omega), if_neg (by omega), if_neg (by omega), hlive]
    exact hover
  | deleteMark =>
    rw [htype] at hwrite
    obtain ⟨page', hclear, hpair⟩ := map_eq_ok.mp hwrite
    obtain ⟨rfl, -⟩ := Prod.mk.inj hpair
    exact hclear

-- The walk

/-- The undo chain from a pointer: its records, newest first. -/
inductive UndoChain (undo : UndoLog) : Nat → List UndoVersion → Prop
  | nil : UndoChain undo noUndoPtr []
  | cons {ptr : Nat} {rec : UndoVersion} {older : List UndoVersion} (hptr : ptr ≠ noUndoPtr)
      (hread : undo.read ptr = .ok rec) (hrest : UndoChain undo rec.txnPrevUndoPtr older) :
      UndoChain undo ptr (rec :: older)

theorem UndoChain.mono {undo undo' : UndoLog}
    (hread : ∀ ptr rec, undo.read ptr = .ok rec → undo'.read ptr = .ok rec) {ptr : Nat}
    (h : UndoChain undo ptr chain) : UndoChain undo' ptr chain := by
  induction h with
  | nil => exact .nil
  | cons hptr hrec _ ih => exact .cons hptr (hread _ _ hrec) ih

/-- **`RollBackOne` goes through** exactly when the chain is within the limit and the run of its
    records on the slots goes through; that run is what it does. -/
theorem rollBackFrom_iff (txnId : Nat) {undo : UndoLog} {chain : List UndoVersion} :
    ∀ {steps ptr : Nat} {store : Store}, UndoChain undo ptr chain → store.undo = undo →
    ((RecoveryUndo.rollBackFrom txnId steps ptr store).2.2 = none ↔ chain.length ≤ steps ∧
        ∃ slots, runAt UndoVersion.target undoSlot chain store.slotAt = some slots) ∧
      ((RecoveryUndo.rollBackFrom txnId steps ptr store).2.2 = none →
        store.SameFrame (RecoveryUndo.rollBackFrom txnId steps ptr store).1 ∧
        runAt UndoVersion.target undoSlot chain store.slotAt =
          some (RecoveryUndo.rollBackFrom txnId steps ptr store).1.slotAt) := by
  induction chain with
  | nil =>
    intro steps ptr store hchain _
    obtain ⟨⟩ := hchain
    have hnil : RecoveryUndo.rollBackFrom txnId steps noUndoPtr store = (store, [], none) := by
      cases steps <;> exact if_pos rfl
    rw [hnil]
    exact ⟨⟨fun _ => ⟨Nat.zero_le steps, store.slotAt, rfl⟩, fun _ => rfl⟩,
      fun _ => ⟨Store.SameFrame.refl store, rfl⟩⟩
  | cons rec older ih =>
    intro steps ptr store hchain hundo
    obtain ⟨⟩ | ⟨hptr, hread, hrest⟩ := hchain
    have hrun : ∀ slots, runAt UndoVersion.target undoSlot (rec :: older) slots =
        (stepAt UndoVersion.target undoSlot slots rec).bind
          (runAt UndoVersion.target undoSlot older) := fun _ => rfl
    cases steps with
    | zero =>
      rw [RecoveryUndo.rollBackFrom, if_neg hptr]
      refine ⟨⟨fun h => (by cases h), fun h => absurd h.1 (by simp)⟩, fun h => (by cases h)⟩
    | succ steps =>
      rw [RecoveryUndo.rollBackFrom, if_neg hptr, hundo, hread]
      dsimp only
      cases hcomp : RecoveryUndo.compensate store rec with
      | error e =>
        refine ⟨⟨fun h => (by cases h), fun ⟨_, slots, hslots⟩ => ?_⟩, fun h => (by cases h)⟩
        rw [hrun] at hslots
        obtain ⟨mid, hmid, -⟩ := Option.bind_eq_some_iff.mp hslots
        obtain ⟨store', logged, hok⟩ := exists_compensate hmid
        rw [hcomp] at hok
        cases hok
      | ok out =>
        obtain ⟨store', logged⟩ := out
        obtain ⟨hstep, hframe, -⟩ := compensate_eq_ok hcomp
        obtain ⟨hiff, hdo⟩ := @ih steps rec.txnPrevUndoPtr store' hrest
          (hframe.undo.symm.trans hundo)
        dsimp only
        rw [hrun, hstep, Option.bind_some, length_cons, Nat.add_le_add_iff_right]
        exact ⟨hiff, fun h => ⟨hframe.trans (hdo h).1, (hdo h).2⟩⟩

-- A walk over rows that are in place

/-- A record's step where the slot still holds its row. -/
def undoLive (rec : UndoVersion) : Option HeapSlot → Option (Option HeapSlot)
  | none => none
  | some content =>
    if HeapSlot.pk content = some rec.pk then (undoContent rec content).map some else none

theorem undoSlot_of_undoLive {content result : Option HeapSlot}
    (h : undoLive rec content = some result) : undoSlot rec content = some result := by
  cases content with
  | none => cases h
  | some content =>
    rw [undoLive] at h
    split_ifs at h with hpk
    rw [undoSlot, if_neg (by rw [hpk]; simp), if_neg (by simpa using hpk)]
    exact h

theorem exists_undoWrite (h : stepAt UndoVersion.target undoLive store.slotAt rec = some slots) :
    ∃ page content content', store.pages rec.targetPageId = some page ∧
      page.slots[rec.targetSlot]? = some content ∧ HeapSlot.pk content = some rec.pk ∧
      undoContent rec content = some content' ∧
      (store.put rec.targetPageId (page.setSlot rec.targetSlot content')).slotAt = slots := by
  rw [stepAt] at h
  obtain ⟨v, hv, hslots⟩ := Option.map_eq_some_iff.mp h
  cases hpage : store.pages rec.targetPageId with
  | none =>
    rw [slotAt_target_absent hpage] at hv
    cases hv
  | some page =>
    rw [slotAt_target hpage] at hv
    cases hslot : page.slots[rec.targetSlot]? with
    | none => rw [hslot] at hv; cases hv
    | some content =>
      have hlt : rec.targetSlot < page.slots.length := (List.getElem?_eq_some_iff.mp hslot).1
      rw [hslot, undoLive] at hv
      split_ifs at hv with hpk
      obtain ⟨content', hcontent, rfl⟩ := Option.map_eq_some_iff.mp hv
      exact ⟨page, content, content', rfl, hslot, hpk, hcontent,
        (@Store.slotAt_put_setSlot store rec.target page hpage hlt content').trans hslots⟩

theorem compensate_of_undoLive (himage : rec.image.length ≤ pageSize)
    (h : stepAt UndoVersion.target undoLive store.slotAt rec = some slots) :
    ∃ store', RecoveryUndo.compensate store rec = .ok (store', [compensationRecord rec]) ∧
      (compensationRecord rec).redo store = .ok store' ∧ store'.slotAt = slots ∧
      store.SameFrame store' := by
  obtain ⟨page, content, content', hpage, hslot, hpk, hcontent, hslots⟩ := exists_undoWrite h
  refine ⟨_, ?_, redo_compensationRecord hpage hslot hcontent himage, hslots,
    Store.sameFrame_put_setSlot hpage _ _⟩
  rw [RecoveryUndo.compensate, Store.get_eq_ok.mpr hpage]
  dsimp only
  rw [pkAt_eq hslot, hpk, if_neg (by simp), if_neg (by simp)]
  exact bind_eq_ok.mpr ⟨_, (undoWrite_iff hslot).mpr ⟨rfl, content', hcontent, rfl⟩, rfl⟩

theorem runAt_cons {rest : List UndoVersion} {final : Loc → Option HeapSlot}
    (h : runAt UndoVersion.target undoLive (rec :: rest) slots = some final) :
    ∃ mid, stepAt UndoVersion.target undoLive slots rec = some mid ∧
      runAt UndoVersion.target undoLive rest mid = some final :=
  Option.bind_eq_some_iff.mp h

theorem rollBackFrom_logged {txnId : Nat} {undo : UndoLog} :
    ∀ {steps ptr : Nat} {store : Store} {slots : Loc → Option HeapSlot},
    UndoChain undo ptr chain → store.undo = undo →
    (∀ rec ∈ chain, rec.image.length ≤ pageSize) →
    runAt UndoVersion.target undoLive chain store.slotAt = some slots →
    (RecoveryUndo.rollBackFrom txnId steps ptr store).2.1 =
      (chain.take steps).map compensationRecord := by
  induction chain with
  | nil =>
    intro steps ptr store slots hchain _ _ _
    obtain ⟨⟩ := hchain
    have hnil : RecoveryUndo.rollBackFrom txnId steps noUndoPtr store = (store, [], none) := by
      cases steps <;> exact if_pos rfl
    rw [hnil, take_nil, map_nil]
  | cons rec older ih =>
    intro steps ptr store slots hchain hundo himages hrun
    obtain ⟨⟩ | ⟨hptr, hread, hrest⟩ := hchain
    cases steps with
    | zero =>
      rw [RecoveryUndo.rollBackFrom, if_neg hptr]
      rfl
    | succ steps =>
      obtain ⟨mid, hstep, hrun⟩ := runAt_cons hrun
      obtain ⟨store', hcomp, -, rfl, hframe⟩ :=
        compensate_of_undoLive (himages rec mem_cons_self) hstep
      rw [RecoveryUndo.rollBackFrom, if_neg hptr, hundo, hread]
      dsimp only
      rw [hcomp]
      dsimp only
      rw [ih hrest (hframe.undo.symm.trans hundo)
        (fun r hr => himages r (mem_cons_of_mem rec hr)) hrun]
      rfl

theorem redo_logged :
    ∀ {store : Store} {slots : Loc → Option HeapSlot},
    (∀ rec ∈ chain, rec.image.length ≤ pageSize) →
    runAt UndoVersion.target undoLive chain store.slotAt = some slots →
    ∃ store', store.redoAll (chain.map compensationRecord) = .ok store' ∧
      store'.slotAt = slots ∧ store.SameFrame store' := by
  induction chain with
  | nil =>
    intro store slots _ hrun
    exact ⟨store, rfl, Option.some.inj hrun, Store.SameFrame.refl store⟩
  | cons rec older ih =>
    intro store slots himages hrun
    obtain ⟨mid, hstep, hrun⟩ := runAt_cons hrun
    obtain ⟨store', -, hredo, rfl, hframe⟩ :=
      compensate_of_undoLive (himages rec mem_cons_self) hstep
    obtain ⟨final, hfinal, hslots, hframe'⟩ :=
      ih (fun r hr => himages r (mem_cons_of_mem rec hr)) hrun
    exact ⟨final, bind_eq_ok.mpr ⟨store', hredo, hfinal⟩, hslots, hframe.trans hframe'⟩

/-- The trail entry of a live transaction that says what an undo record says. -/
structure TrailEntry.Describes (entry : TrailEntry) (rec : UndoVersion) : Prop where
  action : entry.action = rec.type
  pageId : entry.pageId = rec.targetPageId
  slot : entry.slot = rec.targetSlot
  pk : entry.pk = rec.pk
  priorTrxId : entry.priorTrxId = rec.priorTrxId
  priorUndoPtr : entry.priorUndoPtr = rec.priorUndoPtr
  image : entry.image = rec.image

theorem holdsRow_live {length : Nat} {tuple : HeapTuple}
    (h : page.slots[slot]? = some (.live length tuple)) (pk : Nat) :
    holdsRow page slot pk = match keystoneIdOfPayload tuple.payload with
      | .error _ => false
      | .ok id => decide (id = pk) := by
  rw [holdsRow, HeapPage.payloadAt, HeapPage.readTuple, HeapPage.liveSlot, h]
  rfl

theorem compensate_live {entry : TrailEntry} (hentry : entry.Describes rec)
    (h : stepAt UndoVersion.target undoLive store.slotAt rec = some slots)
    (locateRow : Option RowLocator) :
    ∃ store', Txn.compensate store entry locateRow = .ok (store',
        if rec.targetPageId < catalogOverflowLimit then [] else [compensationRecord rec]) ∧
      store'.slotAt = slots ∧ store.SameFrame store' := by
  obtain ⟨page, content, content', hpage, hslot, hpk, hcontent, hslots⟩ := exists_undoWrite h
  refine ⟨_, ?_, hslots, Store.sameFrame_put_setSlot hpage rec.targetSlot content'⟩
  have hholds : holdsRow page rec.targetSlot rec.pk = true := by
    cases content with
    | dead => cases hpk
    | live length tuple =>
      rw [holdsRow_live hslot]
      rw [HeapSlot.pk] at hpk
      cases hkey : keystoneIdOfPayload tuple.payload with
      | error e => rw [hkey] at hpk; cases hpk
      | ok id =>
        rw [hkey] at hpk
        exact decide_eq_true (Option.some.inj hpk)
  have hat : compensateAt store entry locateRow = .ok (rec.targetPageId, rec.targetSlot) := by
    rw [compensateAt.eq_def, hentry.pageId, hentry.slot, hentry.pk]
    refine bind_eq_ok.mpr ⟨page, Store.get_eq_ok.mpr hpage, ?_⟩
    rw [if_pos hholds]
  rw [Txn.compensate, hat]
  refine bind_eq_ok.mpr ⟨_, rfl, ?_⟩
  refine bind_eq_ok.mpr ⟨page, Store.get_eq_ok.mpr hpage, ?_⟩
  rw [hentry.action, hentry.image, hentry.priorTrxId, hentry.priorUndoPtr]
  exact bind_eq_ok.mpr ⟨_, (undoWrite_iff hslot).mpr ⟨rfl, content', hcontent, rfl⟩, rfl⟩

/-- **A live rollback** over rows in place undoes the whole chain, and logs what is not the
    catalog's. -/
theorem unwind_live {locateRow : Option RowLocator} {chain : List UndoVersion} :
    ∀ {trail : List TrailEntry} {store : Store} {slots : Loc → Option HeapSlot}
      {logged : List LogRecord},
    List.Forall₂ TrailEntry.Describes trail chain →
    runAt UndoVersion.target undoLive chain store.slotAt = some slots →
    ∃ store', unwind locateRow trail store (logged, none) = (store', logged ++
        (chain.filter fun rec => catalogOverflowLimit ≤ rec.targetPageId).map compensationRecord,
        none) ∧ store'.slotAt = slots ∧ store.SameFrame store' := by
  induction chain with
  | nil =>
    intro trail store slots logged htrail hrun
    obtain ⟨⟩ := htrail
    refine ⟨store, ?_, Option.some.inj hrun, Store.SameFrame.refl store⟩
    rw [unwind, filter_nil, map_nil, append_nil]
  | cons rec older ih =>
    intro trail store slots logged htrail hrun
    obtain ⟨⟩ | ⟨hentry, hrest⟩ := htrail
    obtain ⟨mid, hstep, hrun⟩ := runAt_cons hrun
    obtain ⟨store', hcomp, rfl, hframe⟩ := compensate_live hentry hstep locateRow
    rw [unwind, hcomp]
    dsimp only
    obtain ⟨final, hfinal, hslots, hframe'⟩ := @ih _ store' slots _ hrest hrun
    refine ⟨final, hfinal.trans ?_, hslots, hframe.trans hframe'⟩
    by_cases hpage : rec.targetPageId < catalogOverflowLimit
    · rw [if_pos hpage, append_nil, filter_cons_of_neg (by simpa using hpage)]
    · have hlogged : catalogOverflowLimit ≤ rec.targetPageId := Nat.le_of_not_lt hpage
      rw [if_neg hpage, filter_cons_of_pos (by simpa using hlogged), map_cons,
        append_assoc]
      rfl

end Kds.Txn
