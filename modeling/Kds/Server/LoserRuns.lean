/-
  Kds.Server.LoserRuns

  A transaction that does not commit, from its first write to its rollback and the rollback's
  second attempt.  The transaction inserts, overwrites and delete-marks rows while others change
  theirs; `before` keeps what each row it touched has to be rolled back to.

  The undo records say that much row by row (`RowChain`), so any walk over them is settled one
  row at a time.  A walk that finds every row in place restores it, and so does a second walk
  after part of the first one was redone: a record sets what it sets, whatever it finds
  (`restoreAll_again`).  A row the transaction inserted is the exception.  Its compensation
  retires the slot, and only the insert's own record knows a retired slot again, not the records
  of what the transaction did to the row afterwards (`rollBackOne_again_iff`).
-/

import Kds.Lib.Run
import Kds.Server.WriteScan
import Kds.Txn.RecoveryUndo

namespace Kds.Server

open Lib Storage Txn List
open Function (update update_self update_of_ne)

-- The transaction's writes

/-- What `InsertOneRow` writes for a row: the tuple, its undo record and its trail entry. -/
def insertRow (relOid : Nat) (store : Store) (txn : Transaction) (pageId pk : Nat)
    (payload : Bytes) : StatusOr (Store × Transaction) := do
  let page ← store.get pageId
  let (page, slot) ← page.insertTuple payload txn.id noUndoPtr
  let (store, txn, _) ← appendUndo (store.put pageId page) txn
    { type := .insert, targetPageId := pageId, targetSlot := slot, pk := pk } pk
  .ok (store, txn.noteInsert relOid pageId slot pk)

/-- A transaction under way: with its state, the records it appended, newest first, and the
    content each row it touched goes back to. -/
structure LoserState where
  store : Store
  txn : Transaction
  chain : List UndoVersion := []
  before : Loc → Option HeapSlot := fun _ => none

inductive LoserAction where
  | insert (relOid pageId pk : Nat) (payload : Bytes)
  | write (rel : RelationAccess) (stmt : WriteStatement) (loc : Loc)
  | others (store : Store)

namespace LoserState

/-- A write's outcome, with the record it appended. -/
def record (s : LoserState) (loc : Loc) (content : HeapSlot) (out : Store × Transaction) :
    Option LoserState :=
  match out.1.undo.read out.2.lastUndoPtr with
  | .error _ => none
  | .ok rec => some
      { store := out.1, txn := out.2, chain := rec :: s.chain
        before := if (s.before loc).isSome then s.before
          else update s.before loc (some content) }

/-- One write of the transaction: a version it can write is one its snapshot sees, which is not
    deleted. -/
def step (s : LoserState) : LoserAction → Option LoserState
  | .insert relOid pageId pk payload =>
    match s.store.pages pageId with
    | none => none
    | some page =>
      match insertRow relOid s.store s.txn pageId pk payload with
      | .error _ => none
      -- what an insert goes back to is a retired slot
      | .ok out => s.record (pageId, page.slotCount) .dead out
  | .write rel stmt loc =>
    match s.store.slotAt loc with
    | some (.live length tuple) =>
      if tuple.deleted then none
      else
        match keystoneIdOfPayload tuple.payload with
        | .error _ => none
        | .ok pk =>
          match writeRow rel stmt s.store s.txn loc tuple pk with
          | .error _ => none
          | .ok out => s.record loc (.live length tuple) out
    | _ => none
  | .others store => some { s with store := store }

/-- The rows the transaction has written are not written by others and not moved, and its undo
    records stay; an encoded row carries its own key. -/
def Allowed (s : LoserState) : LoserAction → Prop
  | .insert _ _ pk payload => keystoneIdOfPayload payload = .ok pk
  | .write _ stmt _ =>
    ∀ encode payload encoded, stmt.verb = .update encode → encode payload = .ok encoded →
      keystoneIdOfPayload encoded = keystoneIdOfPayload payload
  | .others store =>
    (∀ loc, (s.before loc).isSome → store.slotAt loc = s.store.slotAt loc) ∧
      (∀ ptr rec, s.store.undo.read ptr = .ok rec → store.undo.read ptr = .ok rec) ∧
      store.Fits

/-- Before its first write. -/
structure Fresh (s : LoserState) : Prop where
  active : s.txn.active = true
  trail : s.txn.trail = []
  lastUndoPtr : s.txn.lastUndoPtr = noUndoPtr
  chain : s.chain = []
  before : ∀ loc, s.before loc = none
  fits : s.store.Fits

/-- The pages, each touched row as it was before. -/
def rolledBack (s : LoserState) (pageId : Nat) : Option HeapPage :=
  (s.store.pages pageId).map fun page =>
    { page with
      slots := page.slots.mapIdx fun slot content => (s.before (pageId, slot)).getD content }

end LoserState

-- What the records of one row restore

/-- A record, taken back on a row that is in place. -/
def restore (tuple : HeapTuple) (rec : UndoVersion) : HeapTuple :=
  match rec.type with
  | .insert => tuple
  | .overwrite =>
    { tuple with trxId := rec.priorTrxId, undoPtr := rec.priorUndoPtr, payload := rec.image }
  | .deleteMark =>
    { tuple with trxId := rec.priorTrxId, undoPtr := rec.priorUndoPtr, deleted := false }

def restoreAll (recs : List UndoVersion) (tuple : HeapTuple) : HeapTuple :=
  recs.foldl restore tuple

variable {recs : List UndoVersion}

/-- Taking the newest records back twice, and then the rest, is taking all of them back once:
    each record sets fields to what it says, whatever it finds there. -/
theorem restoreAll_again {part : List UndoVersion} (h : part <+: recs) (tuple : HeapTuple) :
    restoreAll recs (restoreAll part tuple) = restoreAll recs tuple := by
  obtain ⟨rest, rfl⟩ := h
  have hagain : restoreAll part (restoreAll part tuple) = restoreAll part tuple := by
    have htrxId : ∀ rec, SetsOrKeeps HeapTuple.trxId fun t => restore t rec := fun rec => by
      cases htype : rec.type with
      | insert => exact .inl fun t => by simp only [restore.eq_def, htype]
      | overwrite => exact .inr ⟨rec.priorTrxId, fun t => by simp only [restore.eq_def, htype]⟩
      | deleteMark => exact .inr ⟨rec.priorTrxId, fun t => by simp only [restore.eq_def, htype]⟩
    have hundoPtr : ∀ rec, SetsOrKeeps HeapTuple.undoPtr fun t => restore t rec := fun rec => by
      cases htype : rec.type with
      | insert => exact .inl fun t => by simp only [restore.eq_def, htype]
      | overwrite => exact .inr ⟨rec.priorUndoPtr, fun t => by simp only [restore.eq_def, htype]⟩
      | deleteMark => exact .inr ⟨rec.priorUndoPtr, fun t => by simp only [restore.eq_def, htype]⟩
    have hpayload : ∀ rec, SetsOrKeeps HeapTuple.payload fun t => restore t rec := fun rec => by
      cases htype : rec.type with
      | insert => exact .inl fun t => by simp only [restore.eq_def, htype]
      | overwrite => exact .inr ⟨rec.image, fun t => by simp only [restore.eq_def, htype]⟩
      | deleteMark => exact .inl fun t => by simp only [restore.eq_def, htype]
    have hdeleted : ∀ rec, SetsOrKeeps HeapTuple.deleted fun t => restore t rec := fun rec => by
      cases htype : rec.type with
      | insert => exact .inl fun t => by simp only [restore.eq_def, htype]
      | overwrite => exact .inl fun t => by simp only [restore.eq_def, htype]
      | deleteMark => exact .inr ⟨false, fun t => by simp only [restore.eq_def, htype]⟩
    have hext : ∀ a b : HeapTuple, a.trxId = b.trxId → a.undoPtr = b.undoPtr →
        a.payload = b.payload → a.deleted = b.deleted → a = b := by
      rintro ⟨⟩ ⟨⟩ rfl rfl rfl rfl
      rfl
    apply hext
    · exact (SetsOrKeeps.foldl htrxId part).idem tuple
    · exact (SetsOrKeeps.foldl hundoPtr part).idem tuple
    · exact (SetsOrKeeps.foldl hpayload part).idem tuple
    · exact (SetsOrKeeps.foldl hdeleted part).idem tuple
  have happend : ∀ t, restoreAll (part ++ rest) t = restoreAll rest (restoreAll part t) := fun t =>
    foldl_append
  rw [happend, happend, hagain]

/-- A record that applies to a row of this key, in a slot of this length. -/
structure Restores (length pk : Nat) (rec : UndoVersion) : Prop where
  notInsert : rec.type ≠ .insert
  key : rec.pk = pk
  priorTrxId : rec.priorTrxId ≤ maxTrxId
  image : rec.type = .overwrite → tupleHeaderOnDiskSize + rec.image.length ≤ length ∧
    keystoneIdOfPayload rec.image = .ok pk

variable {pk length : Nat} {rec : UndoVersion} {tuple : HeapTuple} {chain : List UndoVersion}

theorem Restores.undoContent (h : Restores length pk rec)
    (hkey : keystoneIdOfPayload tuple.payload = .ok pk) :
    Txn.undoContent rec (.live length tuple) = some (.live length (restore tuple rec)) ∧
      keystoneIdOfPayload (restore tuple rec).payload = .ok pk := by
  have hmax := h.priorTrxId
  rw [Txn.undoContent.eq_def, restore.eq_def]
  cases htype : rec.type with
  | insert => exact absurd htype h.notInsert
  | overwrite =>
    obtain ⟨hfit, himage⟩ := h.image htype
    exact ⟨if_neg (by omega), himage⟩
  | deleteMark => exact ⟨if_neg (by omega), hkey⟩

theorem Restores.undoLive (h : Restores length pk rec)
    (hkey : keystoneIdOfPayload tuple.payload = .ok pk) :
    Txn.undoLive rec (some (.live length tuple)) =
      some (some (.live length (restore tuple rec))) := by
  rw [Txn.undoLive, if_pos, (h.undoContent hkey).1]
  · rfl
  · rw [HeapSlot.pk, hkey, h.key]
    rfl

theorem runOn_restores :
    ∀ {tuple : HeapTuple}, (∀ rec ∈ recs, Restores length pk rec) →
    keystoneIdOfPayload tuple.payload = .ok pk →
    runOn Txn.undoLive recs (some (.live length tuple)) =
        some (some (.live length (restoreAll recs tuple))) ∧
      keystoneIdOfPayload (restoreAll recs tuple).payload = .ok pk := by
  induction recs with
  | nil => exact fun _ hkey => ⟨rfl, hkey⟩
  | cons rec older ih =>
    intro tuple hrecs hkey
    have hrec := hrecs rec mem_cons_self
    have holder : ∀ r ∈ older, Restores length pk r := fun r hr =>
      hrecs r (mem_cons_of_mem rec hr)
    rw [runOn_cons, hrec.undoLive hkey, Option.bind_some]
    exact ih holder (hrec.undoContent hkey).2

theorem runOn_undoSlot_of_undoLive :
    ∀ {content result : Option HeapSlot}, runOn Txn.undoLive recs content = some result →
      runOn undoSlot recs content = some result := by
  induction recs with
  | nil => exact fun h => h
  | cons rec older ih =>
    intro content result h
    rw [runOn_cons] at h ⊢
    obtain ⟨mid, hmid, hrest⟩ := Option.bind_eq_some_iff.mp h
    rw [undoSlot_of_undoLive hmid]
    exact ih hrest

-- The chain says it all

namespace LoserState

/-- The records that concern a row, newest first. -/
def recordsAt (s : LoserState) (loc : Loc) : List UndoVersion :=
  atKey UndoVersion.target loc s.chain

/-- **What the records of one row say**: nothing for a row never touched; for a row that was
    there, how to get back to it; for a row the transaction inserted, that, as the oldest. -/
inductive RowChain (s : LoserState) (loc : Loc) : Prop
  | untouched (hbefore : s.before loc = none) (hchain : s.recordsAt loc = [])
  | kept {length pk : Nat} {tuple : HeapTuple} (hsome : s.recordsAt loc ≠ [])
      (hslot : s.store.slotAt loc = some (.live length tuple))
      (hkey : keystoneIdOfPayload tuple.payload = .ok pk)
      (hrecs : ∀ rec ∈ s.recordsAt loc, Restores length pk rec)
      (hbefore : s.before loc = some (.live length (restoreAll (s.recordsAt loc) tuple)))
  | inserted {length pk : Nat} {tuple : HeapTuple} {newer : List UndoVersion} {rec : UndoVersion}
      (hslot : s.store.slotAt loc = some (.live length tuple))
      (hkey : keystoneIdOfPayload tuple.payload = .ok pk)
      (hchain : s.recordsAt loc = newer ++ [rec]) (hrec : rec.type = .insert) (hpk : rec.pk = pk)
      (hrecs : ∀ rec ∈ newer, Restores length pk rec) (hbefore : s.before loc = some .dead)

structure Sound (s : LoserState) : Prop where
  active : s.txn.active = true
  fits : s.store.Fits
  chain : UndoChain s.store.undo s.txn.lastUndoPtr s.chain
  trail : List.Forall₂ TrailEntry.Describes s.txn.trail.reverse s.chain
  images : ∀ rec ∈ s.chain, rec.image.length ≤ pageSize
  rows : ∀ loc, s.RowChain loc

theorem Fresh.sound {s : LoserState} (h : s.Fresh) : s.Sound := by
  refine ⟨h.active, h.fits, ?_, ?_, ?_, fun loc => .untouched (h.before loc) ?_⟩
  · rw [h.chain, h.lastUndoPtr]
    exact .nil
  · rw [h.chain, h.trail]
    exact .nil
  · rw [h.chain]
    intro rec hrec
    cases hrec
  · rw [recordsAt, h.chain]
    rfl

theorem RowChain.congr {s s' : LoserState} {loc : Loc} (h : s.RowChain loc)
    (hslot : (s.before loc).isSome → s'.store.slotAt loc = s.store.slotAt loc)
    (hchain : s'.recordsAt loc = s.recordsAt loc) (hbefore : s'.before loc = s.before loc) :
    s'.RowChain loc := by
  cases h with
  | untouched hnone hempty => exact .untouched (hbefore.trans hnone) (hchain.trans hempty)
  | kept hsome hlive hkey hrecs hold =>
    have hsame := hslot (by rw [hold]; rfl)
    rw [← hchain] at hsome hrecs hold
    exact .kept hsome (hsame.trans hlive) hkey hrecs (hbefore.trans hold)
  | inserted hlive hkey hempty hrec hpk hrecs hold =>
    have hsame := hslot (by rw [hold]; rfl)
    exact .inserted (hsame.trans hlive) hkey (hchain.trans hempty) hrec hpk hrecs
      (hbefore.trans hold)

end LoserState

-- One write

variable {store store' : Store} {txn txn' : Transaction}

theorem appendUndo_record {fields : UndoVersion} {ptr : Nat}
    (h : appendUndo store txn fields pk = .ok (store', txn', ptr))
    (hchain : UndoChain store.undo txn.lastUndoPtr chain) :
    store'.pages = store.pages ∧ txn' = { txn with lastUndoPtr := ptr } ∧
      store'.undo.read ptr = .ok { fields with txnPrevUndoPtr := txn.lastUndoPtr, pk := pk } ∧
      UndoChain store'.undo ptr
        ({ fields with txnPrevUndoPtr := txn.lastUndoPtr, pk := pk } :: chain) ∧
      fields.image.length ≤ pageSize := by
  obtain ⟨hpages, htxn, happend⟩ := appendUndo_spec h
  obtain ⟨hrecords, rfl⟩ := UndoLog.append_eq_ok happend
  have hread : store'.undo.read (store.undo.records.length + 1) =
      .ok { fields with txnPrevUndoPtr := txn.lastUndoPtr, pk := pk } := by
    rw [hrecords, UndoLog.read, List.getElem?_concat_length]
  refine ⟨hpages, htxn, hread, .cons (Nat.succ_ne_zero _) hread
    (hchain.mono fun ptr rec hrec => UndoLog.read_append happend hrec), ?_⟩
  rw [UndoLog.append] at happend
  split_ifs at happend with himage
  have hmax : maxUndoImageLen ≤ pageSize := by decide
  dsimp only at himage
  omega

/-- **A row's write**, for the rollback: it rewrites one live slot in place, and its record takes
    the row back. -/
theorem writeRow_record {rel : RelationAccess} {stmt : WriteStatement} {loc : Loc}
    (hslot : store.slotAt loc = some (.live length tuple)) (hlive : tuple.deleted = false)
    (hkey : keystoneIdOfPayload tuple.payload = .ok pk)
    (hencode : ∀ encode payload encoded, stmt.verb = .update encode →
      encode payload = .ok encoded → keystoneIdOfPayload encoded = keystoneIdOfPayload payload)
    (hfits : tupleHeaderOnDiskSize + tuple.payload.length ≤ length ∧ tuple.trxId ≤ maxTrxId)
    (hchain : UndoChain store.undo txn.lastUndoPtr chain)
    (h : writeRow rel stmt store txn loc tuple pk = .ok (store', txn')) :
    ∃ rec entry tuple', store'.undo.read txn'.lastUndoPtr = .ok rec ∧
      UndoChain store'.undo txn'.lastUndoPtr (rec :: chain) ∧
      txn'.trail = txn.trail ++ [entry] ∧ entry.Describes rec ∧ rec.target = loc ∧
      Restores length pk rec ∧ rec.image.length ≤ pageSize ∧ restore tuple' rec = tuple ∧
      keystoneIdOfPayload tuple'.payload = .ok pk ∧
      (tupleHeaderOnDiskSize + tuple'.payload.length ≤ length ∧ tuple'.trxId ≤ maxTrxId) ∧
      store'.slotAt = update store.slotAt loc (some (.live length tuple')) ∧
      txn'.active = txn.active := by
  rw [writeRow.eq_def] at h
  split at h
  · next encode hverb =>
    obtain ⟨encoded, henc, h⟩ := bind_eq_ok.mp h
    obtain ⟨⟨store₁, txn₁, ptr⟩, happend, h⟩ := bind_eq_ok.mp h
    obtain ⟨hpages, rfl, hread, hnew, himage⟩ := appendUndo_record happend hchain
    obtain ⟨page, hget, h⟩ := bind_eq_ok.mp h
    obtain ⟨page', hover, h⟩ := bind_eq_ok.mp h
    cases h
    obtain ⟨length', old, hlive', hmax, hfit, rfl⟩ := HeapPage.overwriteTuple_eq_ok hover
    have hpage : store₁.pages loc.1 = some page := Store.get_eq_ok.mp hget
    have hpage₀ : store.pages loc.1 = some page := hpages ▸ hpage
    have hsame := (Store.slotAt_of_pages hpage₀).symm.trans hslot
    obtain ⟨rfl, rfl⟩ := HeapSlot.live.inj (Option.some.inj (hlive'.symm.trans hsame))
    refine ⟨_, _, { old with trxId := txn.id, undoPtr := ptr, payload := encoded }, hread, hnew,
      rfl, ⟨rfl, rfl, rfl, rfl, rfl, rfl, rfl⟩, rfl,
      ⟨by simp, rfl, hfits.2, fun _ => ⟨hfits.1, hkey⟩⟩, himage, ?_,
      (hencode encode _ encoded hverb henc).trans hkey, ⟨hfit, hmax⟩, ?_, rfl⟩
    · rfl
    · rw [Store.slotAt_put_setSlot hpage (List.getElem?_eq_some_iff.mp hlive').1]
      exact congrArg (update · loc _) (Store.slotAt_congr hpages)
  · obtain ⟨⟨store₁, txn₁, ptr⟩, happend, h⟩ := bind_eq_ok.mp h
    obtain ⟨hpages, rfl, hread, hnew, himage⟩ := appendUndo_record happend hchain
    obtain ⟨page, hget, h⟩ := bind_eq_ok.mp h
    obtain ⟨page', hover, h⟩ := bind_eq_ok.mp h
    obtain ⟨page'', hmark, h⟩ := bind_eq_ok.mp h
    cases h
    obtain ⟨length', old, hlive', hmax, hfit, rfl⟩ := HeapPage.overwriteTuple_eq_ok hover
    obtain ⟨length'', mid, hmid, -, rfl⟩ := HeapPage.deleteMark_eq_ok hmark
    have hpage : store₁.pages loc.1 = some page := Store.get_eq_ok.mp hget
    have hpage₀ : store.pages loc.1 = some page := hpages ▸ hpage
    have hlt := (List.getElem?_eq_some_iff.mp hlive').1
    have hsame := (Store.slotAt_of_pages hpage₀).symm.trans hslot
    obtain ⟨rfl, rfl⟩ := HeapSlot.live.inj (Option.some.inj (hlive'.symm.trans hsame))
    rw [HeapPage.slots_setSlot, List.getElem?_set_self hlt] at hmid
    obtain ⟨rfl, rfl⟩ := HeapSlot.live.inj (Option.some.inj hmid)
    refine ⟨_, _, { old with trxId := txn.id, undoPtr := ptr, deleted := true }, hread, hnew, rfl,
      ⟨rfl, rfl, rfl, rfl, rfl, rfl, rfl⟩, rfl, ⟨by simp, rfl, hfits.2, fun hno => (by cases hno)⟩,
      himage, ?_, hkey, ⟨hfits.1, hmax⟩, ?_, rfl⟩
    · obtain ⟨trxId, undoPtr, payload, deleted⟩ := old
      obtain rfl : deleted = false := hlive
      rfl
    · rw [HeapPage.setSlot_setSlot, Store.slotAt_put_setSlot hpage hlt]
      exact congrArg (fun slots => update slots loc _) (Store.slotAt_congr hpages)

/-- **An insert**, for the rollback: a live slot that was not there, and a record that names it. -/
theorem insertRow_record {relOid pageId : Nat} {page : HeapPage} {payload : Bytes}
    (hpage : store.pages pageId = some page) (hchain : UndoChain store.undo txn.lastUndoPtr chain)
    (h : insertRow relOid store txn pageId pk payload = .ok (store', txn')) :
    ∃ rec entry, store'.undo.read txn'.lastUndoPtr = .ok rec ∧
      UndoChain store'.undo txn'.lastUndoPtr (rec :: chain) ∧
      txn'.trail = txn.trail ++ [entry] ∧ entry.Describes rec ∧
      rec.target = (pageId, page.slotCount) ∧ rec.type = .insert ∧ rec.pk = pk ∧
      rec.image.length ≤ pageSize ∧ store.slotAt (pageId, page.slotCount) = none ∧
      store'.slotAt = update store.slotAt (pageId, page.slotCount)
        (some (.live (tupleHeaderOnDiskSize + payload.length)
          { trxId := txn.id, undoPtr := noUndoPtr, payload := payload })) ∧
      txn.id ≤ maxTrxId ∧ txn'.active = txn.active := by
  rw [insertRow] at h
  obtain ⟨page', hget, h⟩ := bind_eq_ok.mp h
  obtain rfl : page = page' := Option.some.inj (hpage.symm.trans (Store.get_eq_ok.mp hget))
  obtain ⟨⟨page', slot⟩, hinsert, h⟩ := bind_eq_ok.mp h
  obtain ⟨⟨store₁, txn₁, ptr⟩, happend, h⟩ := bind_eq_ok.mp h
  cases h
  obtain ⟨hpages, rfl, hread, hnew, himage⟩ := appendUndo_record happend hchain
  obtain ⟨hslot, hmax, -⟩ := HeapPage.insertTuple_eq_ok hinsert
  obtain ⟨hnone, hslots⟩ := Store.slotAt_put_insertTuple hpage hinsert
  have hslot : slot = page.slotCount := hslot
  rw [hslot] at hnone hslots
  exact ⟨_, _, hread, hnew, rfl, ⟨rfl, rfl, rfl, rfl, rfl, rfl, rfl⟩, by rw [← hslot]; rfl, rfl,
    rfl, himage, hnone, (Store.slotAt_congr hpages).trans hslots, hmax, rfl⟩

namespace LoserState

variable {s s' : LoserState}

variable {loc : Loc} {rec : UndoVersion}

theorem record_eq_some {content : HeapSlot} {out : Store × Transaction}
    (hread : out.1.undo.read out.2.lastUndoPtr = .ok rec) (h : s.record loc content out = some s') :
    s' = { store := out.1, txn := out.2, chain := rec :: s.chain
           before := if (s.before loc).isSome then s.before
             else update s.before loc (some content) } := by
  rw [record, hread] at h
  exact (Option.some.inj h).symm

theorem RowChain.other {other : Loc} (h : s.RowChain other) (hne : other ≠ loc)
    {content written : HeapSlot} (htarget : rec.target = loc)
    (hslots : store.slotAt = update s.store.slotAt loc (some written)) :
    RowChain { store := store, txn := txn, chain := rec :: s.chain
               before := if (s.before loc).isSome then s.before
                 else update s.before loc (some content) } other := by
  refine h.congr (fun _ => ?_) ?_ ?_
  · show store.slotAt other = s.store.slotAt other
    rw [hslots, update_of_ne hne]
  · exact atKey_cons_of_ne (by rw [htarget]; exact Ne.symm hne) s.chain
  · dsimp only
    split_ifs
    · rfl
    · rw [update_of_ne hne]

theorem recordsAt_cons {s : LoserState} {loc : Loc} {rec : UndoVersion}
    (htarget : rec.target = loc) :
    atKey UndoVersion.target loc (rec :: s.chain) = rec :: s.recordsAt loc := by
  rw [← htarget]
  exact atKey_cons_self rec s.chain

theorem Sound.insert {s s' : LoserState} (h : s.Sound) {relOid pageId pk : Nat} {payload : Bytes}
    (hkey : keystoneIdOfPayload payload = .ok pk)
    (hstep : s.step (.insert relOid pageId pk payload) = some s') : s'.Sound := by
  rw [step] at hstep
  split at hstep
  · cases hstep
  · next page hpage =>
    split at hstep
    · cases hstep
    · next out hinsert =>
      obtain ⟨store', txn'⟩ := out
      obtain ⟨rec, entry, hread, hchain, htrail, hentry, htarget, htype, hpk, himage, hnone,
        hslots, hmax, hactive⟩ := insertRow_record hpage h.chain hinsert
      rw [record_eq_some hread hstep]
      have huntouched : s.before (pageId, page.slotCount) = none ∧
          s.recordsAt (pageId, page.slotCount) = [] := by
        cases h.rows (pageId, page.slotCount) with
        | untouched hbefore hempty => exact ⟨hbefore, hempty⟩
        | kept _ hslot => rw [hnone] at hslot; cases hslot
        | inserted hslot => rw [hnone] at hslot; cases hslot
      refine ⟨hactive.trans h.active, ?_, hchain, ?_, ?_, fun other => ?_⟩
      · intro loc length tuple hslot
        dsimp only at hslot
        rw [hslots] at hslot
        by_cases hloc : loc = (pageId, page.slotCount)
        · rw [hloc, update_self] at hslot
          cases hslot
          exact ⟨Nat.le_refl _, hmax⟩
        · rw [update_of_ne hloc] at hslot
          exact h.fits loc length tuple hslot
      · dsimp only
        rw [htrail, reverse_append]
        exact .cons hentry h.trail
      · intro r hr
        rcases mem_cons.mp hr with rfl | hr
        · exact himage
        · exact h.images r hr
      · by_cases hother : other = (pageId, page.slotCount)
        · subst hother
          have hlive : store'.slotAt (pageId, page.slotCount) =
              some (.live (tupleHeaderOnDiskSize + payload.length)
                { trxId := s.txn.id, undoPtr := noUndoPtr, payload := payload }) := by
            rw [hslots, update_self]
          have hrecs : atKey UndoVersion.target (pageId, page.slotCount) (rec :: s.chain) =
              [] ++ [rec] := by
            rw [recordsAt_cons htarget, huntouched.2]
            rfl
          refine .inserted hlive hkey hrecs htype hpk
            (fun r hr => absurd hr not_mem_nil) ?_
          dsimp only
          rw [huntouched.1]
          exact update_self ..
        · exact (h.rows other).other hother htarget hslots

theorem Sound.write (h : s.Sound) {rel : RelationAccess} {stmt : WriteStatement}
    (hencode : ∀ encode payload encoded, stmt.verb = .update encode →
      encode payload = .ok encoded → keystoneIdOfPayload encoded = keystoneIdOfPayload payload)
    (hstep : s.step (.write rel stmt loc) = some s') : s'.Sound := by
  rw [step] at hstep
  split at hstep
  · next length tuple hslot =>
    split_ifs at hstep with hdeleted
    have hlive : tuple.deleted = false := by simpa using hdeleted
    split at hstep
    · cases hstep
    · next pk hkey =>
      split at hstep
      · cases hstep
      · next out hwrite =>
        obtain ⟨store', txn'⟩ := out
        obtain ⟨rec, entry, tuple', hread, hchain, htrail, hentry, htarget, hrestores, himage,
          hrestore, hkey', hfits, hslots, hactive⟩ :=
          writeRow_record hslot hlive hkey hencode (h.fits loc length tuple hslot) h.chain
            hwrite
        rw [record_eq_some hread hstep]
        have hlive' : store'.slotAt loc = some (.live length tuple') := by
          rw [hslots, update_self]
        have hrecords := @recordsAt_cons s loc rec htarget
        have hall : ∀ recs : List UndoVersion,
            restoreAll (rec :: recs) tuple' = restoreAll recs tuple := fun recs => by
          show restoreAll recs (restore tuple' rec) = _
          rw [hrestore]
        refine ⟨hactive.trans h.active, ?_, hchain, ?_, ?_, fun other => ?_⟩
        · intro other length' stored hstored
          dsimp only at hstored
          rw [hslots] at hstored
          by_cases hother : other = loc
          · rw [hother, update_self] at hstored
            cases hstored
            exact hfits
          · rw [update_of_ne hother] at hstored
            exact h.fits other length' stored hstored
        · dsimp only
          rw [htrail, reverse_append]
          exact .cons hentry h.trail
        · intro r hr
          rcases mem_cons.mp hr with rfl | hr
          · exact himage
          · exact h.images r hr
        · by_cases hother : other = loc
          · subst hother
            cases h.rows other with
            | untouched hbefore hempty =>
              have hone : atKey UndoVersion.target other (rec :: s.chain) = [rec] := by
                rw [hrecords, hempty]
              refine .kept ?_ hlive' hkey' ?_ ?_
              · show atKey _ _ _ ≠ []
                rw [hone]
                exact cons_ne_nil rec []
              · show ∀ r ∈ atKey UndoVersion.target other (rec :: s.chain), _
                rw [hone]
                intro r hr
                rw [mem_singleton.mp hr]
                exact hrestores
              · show (if (s.before other).isSome then s.before
                  else update s.before other (some (.live length tuple))) other =
                    some (.live length
                      (restoreAll (atKey UndoVersion.target other (rec :: s.chain)) tuple'))
                rw [hbefore, hone, hall]
                exact update_self ..
            | @kept length₀ pk₀ tuple₀ hsome hslot₀ hkey₀ hrecs hbefore =>
              obtain ⟨rfl, rfl⟩ :=
                HeapSlot.live.inj (Option.some.inj (hslot.symm.trans hslot₀))
              cases hkey.symm.trans hkey₀
              refine .kept ?_ hlive' hkey' ?_ ?_
              · show atKey _ _ _ ≠ []
                rw [hrecords]
                exact cons_ne_nil _ _
              · show ∀ r ∈ atKey UndoVersion.target other (rec :: s.chain), _
                rw [hrecords]
                intro r hr
                rcases mem_cons.mp hr with rfl | hr
                · exact hrestores
                · exact hrecs r hr
              · show (if (s.before other).isSome then s.before
                  else update s.before other (some (.live length tuple))) other =
                    some (.live length
                      (restoreAll (atKey UndoVersion.target other (rec :: s.chain)) tuple'))
                rw [hbefore, hrecords, hall]
                exact hbefore
            | @inserted length₀ pk₀ tuple₀ newer ins hslot₀ hkey₀ hchain₀ hins hpk hrecs hbefore =>
              obtain ⟨rfl, rfl⟩ :=
                HeapSlot.live.inj (Option.some.inj (hslot.symm.trans hslot₀))
              cases hkey.symm.trans hkey₀
              have hnewer : atKey UndoVersion.target other (rec :: s.chain) =
                  (rec :: newer) ++ [ins] := by
                rw [hrecords, hchain₀]
                rfl
              refine .inserted hlive' hkey' hnewer hins hpk ?_ ?_
              · intro r hr
                rcases mem_cons.mp hr with rfl | hr
                · exact hrestores
                · exact hrecs r hr
              · dsimp only
                rw [hbefore]
                exact hbefore
          · exact (h.rows other).other hother htarget hslots
  · cases hstep

/-- Every write of the loser keeps its chain, its trail and the rows in step. -/
theorem Sound.step (a : LoserAction) (h : s.Sound) (hok : s.Allowed a)
    (hstep : s.step a = some s') : s'.Sound := by
  cases a with
  | insert relOid pageId pk payload => exact h.insert hok hstep
  | write rel stmt loc => exact h.write hok hstep
  | others store =>
    cases hstep
    obtain ⟨hslots, hreads, hfits⟩ := hok
    exact ⟨h.active, hfits, h.chain.mono hreads, h.trail, h.images,
      fun loc => (h.rows loc).congr (hslots loc) rfl rfl⟩

theorem Sound.reach {s₀ : LoserState} (h : s₀.Fresh)
    (hreach : Reach LoserState.step LoserState.Allowed s₀ s) : s.Sound :=
  hreach.invariant h.sound fun a ht hok hs => ht.step a hok hs

end LoserState

-- One row, rolled back again

namespace LoserState

/-- What a row's slot holds once the row is rolled back. -/
def restored (s : LoserState) (loc : Loc) : Option HeapSlot :=
  (s.store.slotAt loc).map fun content => (s.before loc).getD content

theorem runOn_newer_inserted {newer : List UndoVersion}
    (hkey : keystoneIdOfPayload tuple.payload = .ok pk) (hrec : rec.type = .insert)
    (hpk : rec.pk = pk) (hrecs : ∀ r ∈ newer, Restores length pk r) :
    runOn Txn.undoLive (newer ++ [rec]) (some (.live length tuple)) = some (some .dead) := by
  obtain ⟨hrun, hkey'⟩ := runOn_restores hrecs hkey
  rw [runOn_append, hrun, Option.bind_some, runOn_cons, Txn.undoLive, if_pos]
  · rw [Txn.undoContent.eq_def, hrec]
    rfl
  · rw [HeapSlot.pk, hkey', hpk]
    rfl

variable {s : LoserState}

variable {loc : Loc}

theorem RowChain.undone (h : s.RowChain loc) :
    runOn Txn.undoLive (s.recordsAt loc) (s.store.slotAt loc) = some (s.restored loc) := by
  rw [restored]
  cases h with
  | untouched hbefore hempty =>
    rw [hempty, hbefore]
    cases s.store.slotAt loc <;> rfl
  | kept _ hslot hkey hrecs hbefore =>
    rw [hslot, (runOn_restores hrecs hkey).1, hbefore]
    rfl
  | inserted hslot hkey hchain hrec hpk hrecs hbefore =>
    rw [hslot, hchain, runOn_newer_inserted hkey hrec hpk hrecs, hbefore]
    rfl

/-- **One row, again.**  After its newest records were taken back, all of them are taken back: that
    goes through, and ends where once does, unless a retired row has a record beside its insert. -/
theorem RowChain.again (h : s.RowChain loc) {part : List UndoVersion}
    (hpart : part <+: s.recordsAt loc) {half : Option HeapSlot}
    (hhalf : runOn Txn.undoLive part (s.store.slotAt loc) = some half) :
    ((∃ final, runOn undoSlot (s.recordsAt loc) half = some final) ↔
        ∀ ins ∈ part, ins.type = .insert → ∀ rec ∈ s.recordsAt loc, rec.type = .insert) ∧
      ∀ final, runOn undoSlot (s.recordsAt loc) half = some final → final = s.restored loc := by
  have hundone := h.undone
  cases h with
  | untouched hbefore hempty =>
    rw [hempty] at hpart hundone ⊢
    obtain rfl : part = [] := prefix_nil.mp hpart
    obtain rfl : s.store.slotAt loc = half := Option.some.inj hhalf
    refine ⟨⟨fun _ ins hins => (by cases hins), fun _ => ⟨_, rfl⟩⟩, fun final hfinal => ?_⟩
    exact Option.some.inj (hfinal.symm.trans hundone)
  | @kept length pk tuple _ hslot hkey hrecs hbefore =>
    have hpartrecs : ∀ rec ∈ part, Restores length pk rec := fun rec hrec =>
      hrecs rec (hpart.subset hrec)
    obtain ⟨hrun, hkey'⟩ := runOn_restores hpartrecs hkey
    rw [hslot, hrun] at hhalf
    cases hhalf
    have hagain := runOn_undoSlot_of_undoLive (runOn_restores hrecs hkey').1
    rw [restoreAll_again hpart] at hagain
    rw [hslot, (runOn_restores hrecs hkey).1] at hundone
    refine ⟨⟨fun _ ins hins hno => absurd hno (hpartrecs ins hins).notInsert,
      fun _ => ⟨_, hagain⟩⟩, fun final hfinal => ?_⟩
    exact (Option.some.inj (hfinal.symm.trans hagain)).trans (Option.some.inj hundone)
  | @inserted length pk tuple newer ins hslot hkey hchain hins hpk hrecs hbefore =>
    rw [hchain] at hpart hundone ⊢
    rcases prefix_concat_iff.mp hpart with rfl | hnewer
    · -- the slot is retired: only the insert's own record passes it over
      rw [hslot, runOn_newer_inserted hkey hins hpk hrecs] at hhalf
      cases hhalf
      rw [hslot, runOn_newer_inserted hkey hins hpk hrecs] at hundone
      cases newer with
      | nil =>
        have hdone : runOn undoSlot ([] ++ [ins]) (some .dead) = some (some .dead) := by
          show (undoSlot ins (some .dead)).bind _ = _
          rw [undoSlot, if_pos ⟨hins, rfl⟩]
          rfl
        refine ⟨⟨fun _ _ _ _ rec hrec => ?_, fun _ => ⟨_, hdone⟩⟩, fun final hfinal => ?_⟩
        · rw [mem_singleton.mp hrec]
          exact hins
        · exact (Option.some.inj (hfinal.symm.trans hdone)).trans (Option.some.inj hundone)
      | cons rec newer =>
        have hrec := (hrecs rec mem_cons_self).notInsert
        have hfail : runOn undoSlot (rec :: newer ++ [ins]) (some .dead) = none := by
          show (undoSlot rec (some .dead)).bind _ = none
          rw [undoSlot, if_neg (fun hno => hrec hno.1), if_pos (by simp [HeapSlot.pk])]
          rfl
        refine ⟨⟨fun hdone => ?_, fun hall => ?_⟩, fun final hfinal => ?_⟩
        · obtain ⟨final, hfinal⟩ := hdone
          rw [hfail] at hfinal
          cases hfinal
        · exact absurd (hall ins (by simp) hins rec (by simp)) hrec
        · rw [hfail] at hfinal
          cases hfinal
    · have hpartrecs : ∀ rec ∈ part, Restores length pk rec := fun rec hrec =>
        hrecs rec (hnewer.subset hrec)
      obtain ⟨hrun, hkey'⟩ := runOn_restores hpartrecs hkey
      rw [hslot, hrun] at hhalf
      cases hhalf
      have hagain := runOn_undoSlot_of_undoLive (runOn_newer_inserted hkey' hins hpk hrecs)
      rw [hslot, runOn_newer_inserted hkey hins hpk hrecs] at hundone
      refine ⟨⟨fun _ r hr hno => absurd hno (hpartrecs r hr).notInsert, fun _ => ⟨_, hagain⟩⟩,
        fun final hfinal => ?_⟩
      exact (Option.some.inj (hfinal.symm.trans hagain)).trans (Option.some.inj hundone)

-- The whole transaction

theorem pages_eq_rolledBack (hframe : s.store.SameFrame store)
    (hslots : ∀ loc, store.slotAt loc = s.restored loc) : store.pages = s.rolledBack := by
  have hback : ({ pages := s.rolledBack, undo := s.store.undo } : Store).slotAt = s.restored := by
    funext loc
    rw [restored, Store.slotAt, Store.slotAt]
    dsimp only [rolledBack]
    cases s.store.pages loc.1 with
    | none => rfl
    | some page =>
      show (page.slots.mapIdx _)[loc.2]? = _
      rw [List.getElem?_mapIdx]
  have hsame : s.store.SameFrame { pages := s.rolledBack, undo := s.store.undo } := by
    refine ⟨rfl, fun pageId => ?_⟩
    dsimp only [rolledBack]
    cases s.store.pages pageId <;> rfl
  refine @Store.pages_ext store { pages := s.rolledBack, undo := s.store.undo } ?_ ?_
  · refine ⟨hframe.undo.symm, fun pageId => ?_⟩
    exact (hframe.frame pageId).symm.trans (hsame.frame pageId)
  · intro loc
    rw [hslots loc, hback]

theorem Sound.undone (h : s.Sound) :
    runAt UndoVersion.target undoLive s.chain s.store.slotAt = some s.restored :=
  runAt_iff.mpr fun loc => (h.rows loc).undone

theorem Sound.abort (h : s.Sound) (locateRow : Option RowLocator) :
    ∃ store, Txn.abort s.store s.txn locateRow = (store,
        { s.txn with trail := [], active := false },
        (s.chain.filter fun rec => catalogOverflowLimit ≤ rec.targetPageId).map compensationRecord,
        none) ∧ store.pages = s.rolledBack := by
  obtain ⟨store, hunwind, hslots, hframe⟩ := @unwind_live locateRow s.chain _ s.store _ []
    h.trail h.undone
  refine ⟨store, ?_, pages_eq_rolledBack hframe fun loc => congrFun hslots loc⟩
  rw [Txn.abort, h.active]
  dsimp only
  rw [hunwind]
  rfl

theorem Sound.rollBackOne (h : s.Sound)
    (hlength : s.chain.length ≤ RecoveryUndo.maxUndoTxnChainLength) :
    (RecoveryUndo.rollBackOne s.store s.txn.id s.txn.lastUndoPtr).2.2 = none ∧
      (RecoveryUndo.rollBackOne s.store s.txn.id s.txn.lastUndoPtr).1.pages = s.rolledBack := by
  have hrun : runAt UndoVersion.target undoSlot s.chain s.store.slotAt = some s.restored :=
    runAt_iff.mpr fun loc => runOn_undoSlot_of_undoLive (h.rows loc).undone
  obtain ⟨hiff, hdo⟩ := @rollBackFrom_iff s.txn.id _ _ RecoveryUndo.maxUndoTxnChainLength _ s.store
    h.chain rfl
  have hnone := hiff.mpr ⟨hlength, s.restored, hrun⟩
  obtain ⟨hframe, hslots⟩ := hdo hnone
  refine ⟨hnone, pages_eq_rolledBack hframe fun loc => ?_⟩
  exact congrFun (Option.some.inj (hslots.symm.trans hrun)) loc

end LoserState

/-- Who rolls the transaction back the first time. -/
inductive RollbackPath where
  | live (locateRow : Option RowLocator)
  | recovery

namespace LoserState

/-- The compensation records a rollback emits. -/
def logged (s : LoserState) : RollbackPath → List LogRecord
  | .live locateRow => (Txn.abort s.store s.txn locateRow).2.2.1
  | .recovery => (RecoveryUndo.rollBackOne s.store s.txn.id s.txn.lastUndoPtr).2.1

theorem Sound.logged_take {s : LoserState} (h : s.Sound) (path : RollbackPath) (k : Nat) :
    ∃ part : List UndoVersion, (s.logged path).take k = part.map compensationRecord ∧
      (∀ rec ∈ part, rec ∈ s.chain) ∧
      ∀ loc, atKey UndoVersion.target loc part <+: s.recordsAt loc := by
  cases path with
  | live locateRow =>
    obtain ⟨store, habort, -⟩ := h.abort locateRow
    refine ⟨(s.chain.filter fun rec => catalogOverflowLimit ≤ rec.targetPageId).take k, ?_, ?_, ?_⟩
    · rw [logged, habort, map_take]
    · exact fun rec hrec => mem_of_mem_filter (mem_of_mem_take hrec)
    · intro loc
      refine ((List.take_prefix _ _).filter _).trans ?_
      -- a row's records are all on its page: all are logged, or none
      by_cases hpage : catalogOverflowLimit ≤ loc.1
      · have hall : (s.chain.filter fun rec => catalogOverflowLimit ≤ rec.targetPageId).filter
            (fun rec => decide (rec.target = loc)) = s.recordsAt loc := by
          rw [filter_filter, recordsAt, atKey]
          refine filter_congr fun rec _ => ?_
          by_cases htarget : rec.target = loc
          · have hlogged : catalogOverflowLimit ≤ rec.targetPageId := by
              rw [← htarget] at hpage
              exact hpage
            simp [htarget, hlogged]
          · simp [htarget]
        exact hall.symm ▸ prefix_rfl
      · have hnil : (s.chain.filter fun rec => catalogOverflowLimit ≤ rec.targetPageId).filter
            (fun rec => decide (rec.target = loc)) = [] := by
          rw [filter_filter]
          refine filter_eq_nil_iff.mpr fun rec _ hboth => ?_
          rw [Bool.and_eq_true, decide_eq_true_eq, decide_eq_true_eq] at hboth
          apply hpage
          rw [← hboth.1]
          exact hboth.2
        exact hnil.symm ▸ nil_prefix
  | recovery =>
    refine ⟨(s.chain.take RecoveryUndo.maxUndoTxnChainLength).take k, ?_, ?_, ?_⟩
    · rw [logged, RecoveryUndo.rollBackOne, rollBackFrom_logged h.chain rfl h.images h.undone]
      simp only [map_take]
    · exact fun rec hrec => mem_of_mem_take (mem_of_mem_take hrec)
    · intro loc
      exact ((List.take_prefix _ _).trans (List.take_prefix _ _)).filter _

theorem compensationRecord_eq_slotRetire {pageId slot : Nat} :
    compensationRecord rec = .slotRetire pageId slot ↔
      rec.type = .insert ∧ rec.target = (pageId, slot) := by
  rw [compensationRecord.eq_def]
  cases htype : rec.type with
  | insert => simp [UndoVersion.target]
  | overwrite => simp
  | deleteMark => simp

end LoserState

/-- **Recovery's undo, restarted.**  Take any transaction that does not commit, roll it back, and
    let a crash keep any prefix of the records of that rollback.  A rollback that is not
    interrupted puts every row back.  After the crash, `RollBackOne` from the same chain head goes
    through and puts every row back if and only if the chain is within the limit and no row that
    the transaction inserted and then wrote again is retired by the prefix. -/
theorem rollBackOne_again_iff {s₀ s : LoserState} (hinit : s₀.Fresh)
    (hreach : Reach LoserState.step LoserState.Allowed s₀ s) (path : RollbackPath) (k : Nat) :
    (∀ locateRow, (abort s.store s.txn locateRow).1.pages = s.rolledBack ∧
        (abort s.store s.txn locateRow).2.2.2 = none) ∧
      (s.chain.length ≤ RecoveryUndo.maxUndoTxnChainLength →
        (RecoveryUndo.rollBackOne s.store s.txn.id s.txn.lastUndoPtr).1.pages = s.rolledBack) ∧
      ∃ half, s.store.redoAll ((s.logged path).take k) = .ok half ∧
        (((RecoveryUndo.rollBackOne half s.txn.id s.txn.lastUndoPtr).2.2 = none ∧
            (RecoveryUndo.rollBackOne half s.txn.id s.txn.lastUndoPtr).1.pages = s.rolledBack) ↔
          s.chain.length ≤ RecoveryUndo.maxUndoTxnChainLength ∧
            ∀ rec ∈ s.chain, rec.type ≠ .insert →
              .slotRetire rec.targetPageId rec.targetSlot ∉ (s.logged path).take k) := by
  have h := LoserState.Sound.reach hinit hreach
  refine ⟨fun locateRow => ?_, fun hlength => (h.rollBackOne hlength).2, ?_⟩
  · obtain ⟨store, habort, hpages⟩ := h.abort locateRow
    rw [habort]
    exact ⟨hpages, rfl⟩
  obtain ⟨part, hlogged, hsub, hrows⟩ := h.logged_take path k
  -- the rows, as the durable prefix leaves them
  obtain ⟨slots, hslots⟩ : ∃ slots,
      runAt UndoVersion.target undoLive part s.store.slotAt = some slots := by
    refine exists_runAt fun loc => ?_
    obtain ⟨rest, hrest⟩ := hrows loc
    have hundone := (h.rows loc).undone
    rw [← hrest, runOn_append] at hundone
    obtain ⟨mid, hmid, -⟩ := Option.bind_eq_some_iff.mp hundone
    exact ⟨mid, hmid⟩
  obtain ⟨half, hredo, hhalf, hframe⟩ :=
    redo_logged (fun rec hrec => h.images rec (hsub rec hrec)) hslots
  refine ⟨half, hlogged ▸ hredo, ?_⟩
  have hchain : UndoChain half.undo s.txn.lastUndoPtr s.chain := hframe.undo ▸ h.chain
  obtain ⟨hiff, hdo⟩ := @rollBackFrom_iff s.txn.id _ _ RecoveryUndo.maxUndoTxnChainLength _ half
    hchain rfl
  have hrow : ∀ loc, _ := fun loc =>
    (h.rows loc).again (hrows loc) (runAt_iff.mp hslots loc)
  have hpages : (RecoveryUndo.rollBackOne half s.txn.id s.txn.lastUndoPtr).2.2 = none →
      (RecoveryUndo.rollBackOne half s.txn.id s.txn.lastUndoPtr).1.pages = s.rolledBack := by
    intro hnone
    obtain ⟨hframe', hrun⟩ := hdo hnone
    refine LoserState.pages_eq_rolledBack (hframe.trans hframe') fun loc => ?_
    have hloc := runAt_iff.mp hrun loc
    rw [hhalf] at hloc
    exact (hrow loc).2 _ hloc
  rw [and_iff_left_of_imp hpages, RecoveryUndo.rollBackOne, hiff, hlogged]
  refine and_congr_right fun _ => ?_
  constructor
  · rintro ⟨final, hrun⟩ rec hrec htype hretired
    obtain ⟨ins, hins, hretire⟩ := mem_map.mp hretired
    obtain ⟨hinsert, htarget⟩ := LoserState.compensationRecord_eq_slotRetire.mp hretire
    have hloc := runAt_iff.mp hrun rec.target
    rw [hhalf] at hloc
    exact htype ((hrow rec.target).1.mp ⟨_, hloc⟩ ins (mem_atKey.mpr ⟨hins, htarget⟩) hinsert rec
      (mem_atKey.mpr ⟨hrec, rfl⟩))
  · intro hnone
    refine exists_runAt fun loc => ?_
    rw [hhalf]
    refine (hrow loc).1.mpr fun ins hins hinsert rec hrec => ?_
    obtain ⟨hmem, rfl⟩ := mem_atKey.mp hrec
    by_contra htype
    refine hnone rec hmem htype (mem_map.mpr ⟨ins, (mem_atKey.mp hins).1, ?_⟩)
    exact LoserState.compensationRecord_eq_slotRetire.mpr ⟨hinsert, (mem_atKey.mp hins).2⟩

-- A row inserted and then updated

/-- Transaction 2, over a relation of one empty page. -/
def freshLoser : LoserState where
  store := { pages := fun pageId => if pageId = 200 then some { freeSpace := 1000 } else none }
  txn := { id := 2 }

theorem freshLoser_fresh : freshLoser.Fresh := by
  refine ⟨rfl, rfl, rfl, rfl, fun _ => rfl, fun loc length tuple hslot => ?_⟩
  by_cases hpage : loc.1 = 200
  · have hempty : freshLoser.store.pages loc.1 = some { freeSpace := 1000 } := if_pos hpage
    rw [Store.slotAt_of_pages hempty] at hslot
    cases hslot
  · have hnone : freshLoser.store.pages loc.1 = none := if_neg hpage
    rw [Store.slotAt, hnone] at hslot
    cases hslot

def insertAction : LoserAction := .insert 10 200 1 [1, 0, 0, 0, 0, 0, 0, 0, 1]

theorem onePage_distinct : [200].Nodup := nodup_singleton 200

/-- `UPDATE … SET v = 2`, over rows of one byte after the keystone word. -/
def updateAction : LoserAction :=
  .write { oid := 10, clustered := false, chain := [200], distinct := onePage_distinct }
    { verb := .update fun payload => .ok (payload.set keystoneWordSize 2)
      evaluate := fun _ _ => .ok true } (200, 0)

theorem updateAction_allowed (s : LoserState) : s.Allowed updateAction := by
  rintro encode payload encoded hverb hencode
  obtain rfl := WriteVerb.update.inj hverb
  cases hencode
  rw [keystoneIdOfPayload, keystoneIdOfPayload, length_set, load, load, drop_zero,
    drop_zero, take_set_of_le (Nat.le_refl _)]

theorem insertAction_allowed (s : LoserState) : s.Allowed insertAction := by
  show keystoneIdOfPayload _ = .ok 1
  decide

/-- Transaction 2 inserts a row; recovery takes it back twice. -/
theorem insert_rolled_back_again :
    ∃ s, Reach LoserState.step LoserState.Allowed freshLoser s ∧ s.chain.length = 1 ∧
      ∃ half, s.store.redoAll ((s.logged .recovery).take 1) = .ok half ∧
        (RecoveryUndo.rollBackOne half s.txn.id s.txn.lastUndoPtr).2.2 = none ∧
        (RecoveryUndo.rollBackOne half s.txn.id s.txn.lastUndoPtr).1.pages = s.rolledBack := by
  have hrun : (runList LoserState.step [insertAction] freshLoser).any (fun s =>
      s.chain.length == 1 && s.chain.all (·.type == .insert)) = true := by decide +kernel
  obtain ⟨s, hs, hp⟩ := (Option.any_eq_true _ _).mp hrun
  rw [Bool.and_eq_true, beq_iff_eq, all_eq_true] at hp
  have hreach : Reach LoserState.step LoserState.Allowed freshLoser s :=
    reach_of_runList (fun a ha s => by
      rw [mem_singleton.mp ha]
      exact insertAction_allowed s) hs
  obtain ⟨-, -, half, hredo, hiff⟩ := rollBackOne_again_iff freshLoser_fresh hreach .recovery 1
  obtain ⟨hnone, hpages⟩ := hiff.mpr ⟨by rw [hp.1]; decide, fun rec hrec htype =>
    absurd (by simpa using hp.2 rec hrec) htype⟩
  exact ⟨s, hreach, hp.1, half, hredo, hnone, hpages⟩

/-- Transaction 2 inserts a row and updates it.  Once the row's retirement is durable, the update's
    record finds no row, and the mount fails. -/
theorem insert_then_update_not_rolled_back_again :
    ∃ s, Reach LoserState.step LoserState.Allowed freshLoser s ∧
      ∃ half, s.store.redoAll ((s.logged .recovery).take 2) = .ok half ∧
        ((RecoveryUndo.rollBackOne half s.txn.id s.txn.lastUndoPtr).2.2.map (·.code)) =
          some .corruption := by
  have hrun : (runList LoserState.step [insertAction, updateAction] freshLoser).any (fun s =>
      match s.store.redoAll ((s.logged .recovery).take 2) with
      | .error _ => false
      | .ok half => (RecoveryUndo.rollBackOne half s.txn.id s.txn.lastUndoPtr).2.2.map (·.code) ==
          some .corruption) = true := by decide +kernel
  obtain ⟨s, hs, hp⟩ := (Option.any_eq_true _ _).mp hrun
  have hreach : Reach LoserState.step LoserState.Allowed freshLoser s :=
    reach_of_runList (fun a ha s => by
      rcases mem_cons.mp ha with rfl | ha
      · exact insertAction_allowed s
      · rw [mem_singleton.mp ha]
        exact updateAction_allowed s) hs
  cases hredo : s.store.redoAll ((s.logged .recovery).take 2) with
  | error e => rw [hredo] at hp; cases hp
  | ok half =>
    rw [hredo] at hp
    exact ⟨s, hreach, half, hredo, by simpa using hp⟩

end Kds.Server
