/-
  Kds.Txn.Store

  The part of the page store transactions write: heap pages by page id, and the undo log.  Each
  physical change to a page is also a log record; `LogRecord.redo` is the applier recovery replays
  it with (`src/wal/redo.cpp`), which tolerates what was already applied.
-/

import Kds.Txn.UndoLog
import Mathlib.Logic.Function.Basic

namespace Kds.Txn

open Lib Storage
open Function (update update_self update_of_ne)

/-- A page and a slot of it. -/
abbrev Loc := Nat × Nat

structure Store where
  pages : Nat → Option HeapPage
  undo : UndoLog := {}

namespace Store

/-- `PageStore::Get`. -/
def get (store : Store) (pageId : Nat) : StatusOr HeapPage :=
  match store.pages pageId with
  | none => .error (.notFound "page id not found")
  | some page => .ok page

def put (store : Store) (pageId : Nat) (page : HeapPage) : Store :=
  { store with pages := update store.pages pageId (some page) }

/-- The tuple at an address, if a live slot is there. -/
def tupleAt (store : Store) (pageId slot : Nat) : Option HeapTuple :=
  match store.pages pageId with
  | none => none
  | some page => page.tupleAt slot

@[simp] theorem pages_put_self (store : Store) (pageId : Nat) (page : HeapPage) :
    (store.put pageId page).pages pageId = some page := update_self ..

variable {store : Store}

theorem pages_put_of_ne {pageId other : Nat} (page : HeapPage)
    (h : other ≠ pageId) : (store.put pageId page).pages other = store.pages other :=
  update_of_ne h ..

@[simp] theorem undo_put (store : Store) (pageId : Nat) (page : HeapPage) :
    (store.put pageId page).undo = store.undo := rfl

variable {page : HeapPage}

theorem get_eq_ok {pageId : Nat} :
    store.get pageId = .ok page ↔ store.pages pageId = some page := by
  rw [get]
  split
  · next h => simp [h]
  · next p h => simp [h]

/-- What a slot holds, if the page has it. -/
def slotAt (store : Store) (loc : Loc) : Option HeapSlot :=
  match store.pages loc.1 with
  | none => none
  | some page => page.slots[loc.2]?

theorem slotAt_of_pages {store : Store} {loc : Loc} {page : HeapPage}
    (h : store.pages loc.1 = some page) : store.slotAt loc = page.slots[loc.2]? := by
  rw [slotAt, h]

theorem slotAt_congr {store' : Store} (h : store'.pages = store.pages) :
    store'.slotAt = store.slotAt := by
  funext loc
  rw [slotAt, slotAt, h]

/-- Each tuple is within its slot's reservation, and its writer's id is one a tuple can hold. -/
def Fits (store : Store) : Prop :=
  ∀ loc length tuple, store.slotAt loc = some (.live length tuple) →
    tupleHeaderOnDiskSize + tuple.payload.length ≤ length ∧ tuple.trxId ≤ maxTrxId

/-- Two stores with the same pages, but for what their slots hold. -/
structure SameFrame (a b : Store) : Prop where
  undo : a.undo = b.undo
  frame : ∀ pageId, (a.pages pageId).map (fun page => (page.minKey, page.freeSpace)) =
    (b.pages pageId).map fun page => (page.minKey, page.freeSpace)

theorem SameFrame.refl (a : Store) : a.SameFrame a := ⟨rfl, fun _ => rfl⟩

theorem SameFrame.trans {a b c : Store} (hab : a.SameFrame b) (hbc : b.SameFrame c) :
    a.SameFrame c :=
  ⟨hab.undo.trans hbc.undo, fun pageId => (hab.frame pageId).trans (hbc.frame pageId)⟩

theorem pages_ext {a b : Store} (hframe : a.SameFrame b)
    (hslots : ∀ loc, a.slotAt loc = b.slotAt loc) :
    a.pages = b.pages := by
  funext pageId
  have hf := hframe.frame pageId
  have hs : ∀ slot, a.slotAt (pageId, slot) = b.slotAt (pageId, slot) := fun slot =>
    hslots (pageId, slot)
  cases ha : a.pages pageId with
  | none =>
    cases hb : b.pages pageId with
    | none => rfl
    | some page => rw [ha, hb] at hf; cases hf
  | some page =>
    cases hb : b.pages pageId with
    | none => rw [ha, hb] at hf; cases hf
    | some page' =>
      rw [ha, hb] at hf
      obtain ⟨hmin, hfree⟩ := Prod.mk.inj (Option.some.inj hf)
      have hlist : page.slots = page'.slots := by
        apply List.ext_getElem?
        intro slot
        have hslot := hs slot
        rw [slotAt, slotAt, ha, hb] at hslot
        exact hslot
      obtain ⟨minKey, slots, freeSpace⟩ := page
      obtain ⟨minKey', slots', freeSpace'⟩ := page'
      dsimp only at hmin hfree hlist
      rw [hmin, hfree, hlist]

theorem slotAt_put_setSlot {store : Store} {loc : Loc} {page : HeapPage}
    (hpage : store.pages loc.1 = some page) (hslot : loc.2 < page.slots.length)
    (content : HeapSlot) :
    (store.put loc.1 (page.setSlot loc.2 content)).slotAt =
      update store.slotAt loc (some content) := by
  funext other
  by_cases hother : other = loc
  · rw [hother, update_self, slotAt_of_pages (pages_put_self store loc.1 _),
      HeapPage.slots_setSlot]
    exact List.getElem?_set_self hslot
  · rw [update_of_ne hother]
    by_cases hsame : other.1 = loc.1
    · have hne : loc.2 ≠ other.2 := fun h => hother (Prod.ext hsame h.symm)
      have hput : (store.put loc.1 (page.setSlot loc.2 content)).pages other.1 =
          some (page.setSlot loc.2 content) := by
        rw [hsame, pages_put_self]
      rw [slotAt_of_pages hput, slotAt_of_pages (hsame ▸ hpage), HeapPage.slots_setSlot]
      exact List.getElem?_set_ne hne
    · rw [slotAt, slotAt, pages_put_of_ne _ hsame]

theorem slotAt_put_insertTuple {pageId : Nat} {page' : HeapPage}
    (hpage : store.pages pageId = some page) {payload : Bytes} {trxId undoPtr slot : Nat}
    (h : page.insertTuple payload trxId undoPtr = .ok (page', slot)) :
    store.slotAt (pageId, slot) = none ∧
      (store.put pageId page').slotAt = update store.slotAt (pageId, slot)
        (some (.live (tupleHeaderOnDiskSize + payload.length)
          { trxId := trxId, undoPtr := undoPtr, payload := payload })) := by
  obtain ⟨rfl, -, hslots⟩ := HeapPage.insertTuple_eq_ok h
  have hat : ∀ other, store.slotAt (pageId, other) = page.slots[other]? := fun other =>
    slotAt_of_pages hpage
  have hat' : ∀ other, (store.put pageId page').slotAt (pageId, other) = page'.slots[other]? :=
    fun other => slotAt_of_pages (pages_put_self store pageId page')
  refine ⟨(hat _).trans (List.getElem?_eq_none (Nat.le_refl _)), ?_⟩
  funext ⟨otherPage, other⟩
  by_cases hsame : otherPage = pageId
  · rw [hsame, hat', hslots]
    by_cases hslot : other = page.slots.length
    · rw [hslot, update_self, List.getElem?_concat_length]
    · rw [update_of_ne (fun heq => hslot (Prod.mk.inj heq).2), hat]
      by_cases hlt : other < page.slots.length
      · rw [List.getElem?_append_left hlt]
      · have hlen : page.slots.length + 1 ≤ other := by omega
        rw [List.getElem?_eq_none (by simpa using hlen), List.getElem?_eq_none (by omega)]
  · rw [update_of_ne (fun heq => hsame (Prod.mk.inj heq).1), slotAt, slotAt]
    show (match (store.put pageId page').pages otherPage with
      | none => none
      | some page => page.slots[other]?) = _
    rw [pages_put_of_ne _ hsame]

theorem sameFrame_put_setSlot {pageId : Nat}
    (hpage : store.pages pageId = some page) (slot : Nat) (content : HeapSlot) :
    store.SameFrame (store.put pageId (page.setSlot slot content)) := by
  refine ⟨rfl, fun other => ?_⟩
  by_cases hother : other = pageId
  · rw [hother, pages_put_self, hpage]
    rfl
  · rw [pages_put_of_ne _ hother]

theorem tupleAt_of_pages {pageId : Nat} (h : store.pages pageId = some page) (slot : Nat) :
    store.tupleAt pageId slot = page.tupleAt slot := by
  rw [tupleAt, h]

theorem tupleAt_put (store : Store) (pageId : Nat) (page : HeapPage) (other slot : Nat) :
    (store.put pageId page).tupleAt other slot =
      if other = pageId then page.tupleAt slot else store.tupleAt other slot := by
  by_cases h : other = pageId
  · rw [if_pos h, h, tupleAt_of_pages (pages_put_self store pageId page)]
  · rw [if_neg h, tupleAt, pages_put_of_ne page h, tupleAt]

end Store

/-- The heap records a transaction or its rollback logs, and the page each names. -/
inductive LogRecord where
  | heapInsert (pageId slot : Nat) (payload : Bytes) (trxId undoPtr : Nat)
  | heapOverwrite (pageId slot : Nat) (payload : Bytes) (trxId undoPtr : Nat)
  | heapDeleteMark (pageId slot trxId : Nat)
  | heapDeleteUnmark (pageId slot trxId undoPtr : Nat)
  | slotRetire (pageId slot : Nat)
  deriving DecidableEq

namespace LogRecord

def pageId : LogRecord → Nat
  | heapInsert pageId _ _ _ _ | heapOverwrite pageId _ _ _ _ | heapDeleteMark pageId _ _
  | heapDeleteUnmark pageId _ _ _ | slotRetire pageId _ => pageId

/-- The applier of a record, on its page. -/
def apply (page : HeapPage) : LogRecord → StatusOr HeapPage
  | heapInsert _ slot payload trxId undoPtr | heapOverwrite _ slot payload trxId undoPtr =>
    page.redoWriteTuple slot payload trxId undoPtr
  | heapDeleteMark _ slot trxId => page.deleteMark slot trxId
  | heapDeleteUnmark _ slot trxId undoPtr => page.clearDeleteMark slot trxId undoPtr
  | slotRetire _ slot => page.applySlotRetire slot

/-- Replay one record. -/
def redo (record : LogRecord) (store : Store) : StatusOr Store := do
  let page ← store.get record.pageId
  let page ← record.apply page
  .ok (store.put record.pageId page)

end LogRecord

/-- Replay records in log order. -/
def Store.redoAll (store : Store) (records : List LogRecord) : StatusOr Store :=
  records.foldlM (fun store record => record.redo store) store

end Kds.Txn
