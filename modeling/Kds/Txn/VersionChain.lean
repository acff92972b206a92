/-
  Kds.Txn.VersionChain

  The versions of one stored row as a list, newest first: the tuple on the page, and below it what
  the undo records bring back.  A reader walks the list until it meets a version whose writer its
  view sees (`visibleVersion_eq_ok`), and gives up after `maxUndoChainLength` records
  (`visibleVersion_eq_error`).

  A rollback pops the versions of its transaction one by one, each with the trail entry of its own
  write (`Unwinds`).
-/

import Kds.Txn.Manager
import Kds.Lib.VersionStack

namespace Kds.Txn

open Lib Storage
open Function (update update_self update_of_ne)

/-- What a version says of the row: its bytes, or that it is gone. -/
def content (tuple : HeapTuple) : Option Bytes := if tuple.deleted then none else some tuple.payload

/-- The first version whose writer is seen. -/
def seenVersion (sees : Nat → Bool) (versions : List HeapTuple) : Option Bytes :=
  (versions.find? fun tuple => sees tuple.trxId).bind content

/-- How many undo records a walk reads before it knows. -/
def stepsBack (sees : Nat → Bool) : List HeapTuple → Nat
  | [] => 0
  | [_] => 0
  | tuple :: older :: rest => if sees tuple.trxId then 0 else stepsBack sees (older :: rest) + 1

/-- The undo record of a version brings back the version below it, which was not deleted. -/
def Supersedes (undo : UndoLog) (tuple older : HeapTuple) : Prop :=
  older.deleted = false ∧ ∃ record, undo.read tuple.undoPtr = .ok record ∧
    record.priorTrxId = older.trxId ∧ record.priorUndoPtr = older.undoPtr ∧
    ((record.type = .overwrite ∧ record.image = older.payload) ∨
      (record.type = .deleteMark ∧ tuple.payload = older.payload))

/-- Each version over the next. -/
def Linked (undo : UndoLog) : List HeapTuple → Prop
  | [] => True
  | [_] => True
  | tuple :: older :: rest => Supersedes undo tuple older ∧ Linked undo (older :: rest)

theorem UndoLog.read_append_self {undo undo' : UndoLog} {record : UndoVersion} {ptr : Nat}
    (h : undo.append record = .ok (undo', ptr)) : undo'.read ptr = .ok record := by
  obtain ⟨rfl, rfl⟩ := UndoLog.append_eq_ok h
  rw [UndoLog.read, List.getElem?_concat_length]

namespace Linked

variable {undo undo' : UndoLog} {tuple : HeapTuple} {versions : List HeapTuple}

theorem tail (h : Linked undo (tuple :: versions)) : Linked undo versions := by
  cases versions with
  | nil => trivial
  | cons older rest => exact h.2

theorem suffix {gone : List HeapTuple} (h : Linked undo (gone ++ versions)) :
    Linked undo versions := by
  induction gone with
  | nil => exact h
  | cons tuple rest ih => exact ih h.tail

theorem append {record : UndoVersion} {ptr : Nat} (h : Linked undo versions)
    (happend : undo.append record = .ok (undo', ptr)) : Linked undo' versions := by
  induction versions with
  | nil => trivial
  | cons tuple rest ih =>
    cases rest with
    | nil => trivial
    | cons older rest =>
      obtain ⟨⟨hdeleted, found, hread, hrest⟩, hlater⟩ := h
      exact ⟨⟨hdeleted, found, UndoLog.read_append happend hread, hrest⟩, ih hlater⟩

end Linked

-- What a reader finds

section Reader

variable {view : ReadView} {undo : UndoLog} {tuple older : HeapTuple} {rest : List HeapTuple}

variable {sees : Nat → Bool}

theorem seenVersion_cons_of_visible (h : sees tuple.trxId = true) :
    seenVersion sees (tuple :: rest) = content tuple := by
  rw [seenVersion, List.find?_cons_of_pos (by exact h)]
  rfl

theorem seenVersion_cons_of_not_visible (h : sees tuple.trxId = false) :
    seenVersion sees (tuple :: rest) = seenVersion sees rest := by
  rw [seenVersion, List.find?_cons_of_neg (by rw [h]; exact Bool.false_ne_true)]
  rfl

variable {trxId undoPtr : Nat} {deleted : Bool}

theorem classify_of_visible (h : view.visible trxId = true) :
    classify view trxId deleted undoPtr = if deleted then .noVersion else .visible := by
  rw [classify, if_pos h]

theorem classify_of_not_visible (h : view.visible trxId = false) :
    classify view trxId deleted undoPtr =
      if undoPtr = noUndoPtr then .noVersion else .needsUndoWalk := by
  rw [classify, if_neg (by rw [h]; exact Bool.false_ne_true)]

theorem undoPtr_ne_zero (h : Supersedes undo tuple older) : tuple.undoPtr ≠ noUndoPtr := by
  obtain ⟨-, record, hread, -⟩ := h
  intro hzero
  rw [hzero] at hread
  cases hread

theorem resolveThroughUndo_succ (h : Supersedes undo tuple older) (steps : Nat) :
    resolveThroughUndo view undo (steps + 1) tuple.undoPtr tuple.payload =
      match classify view older.trxId false older.undoPtr with
      | .visible => .ok (some older.payload)
      | .noVersion => .ok none
      | .needsUndoWalk => resolveThroughUndo view undo steps older.undoPtr older.payload := by
  have hne := undoPtr_ne_zero h
  obtain ⟨-, record, hread, htrx, hptr, hkind⟩ := h
  rw [resolveThroughUndo, if_neg hne, hread, ok_bind]
  cases hseen : classify view older.trxId false older.undoPtr
  all_goals
    rcases hkind with ⟨htype, hpayload⟩ | ⟨htype, hpayload⟩
    all_goals simp only [htype, htrx, hptr, hpayload, hseen]

/-- The end of a chain: a version with no record behind it, or one the view sees. -/
def Grounded (view : ReadView) (versions : List HeapTuple) : Prop :=
  ∀ tuple, versions.getLast? = some tuple →
    tuple.undoPtr = noUndoPtr ∨ view.visible tuple.trxId = true

theorem resolveThroughUndo_spec (hlinked : Linked undo (tuple :: older :: rest))
    (hground : Grounded view (tuple :: older :: rest)) (hhidden : view.visible tuple.trxId = false)
    (steps : Nat) :
    (stepsBack view.visible (tuple :: older :: rest) ≤ steps →
      resolveThroughUndo view undo steps tuple.undoPtr tuple.payload =
        .ok (seenVersion view.visible (tuple :: older :: rest))) ∧
    (steps < stepsBack view.visible (tuple :: older :: rest) →
      ∃ e, resolveThroughUndo view undo steps tuple.undoPtr tuple.payload = .error e) := by
  induction rest generalizing tuple older steps with
  | nil =>
    have hcount : stepsBack view.visible [tuple, older] = 1 := by
      rw [stepsBack, if_neg (by rw [hhidden]; exact Bool.false_ne_true)]
      rfl
    rw [hcount, seenVersion_cons_of_not_visible hhidden]
    cases steps with
    | zero => exact ⟨fun h => absurd h (by omega), fun _ => ⟨_, rfl⟩⟩
    | succ steps =>
      refine ⟨fun _ => ?_, fun h => absurd h (by omega)⟩
      rw [resolveThroughUndo_succ hlinked.1 steps]
      by_cases hseen : view.visible older.trxId = true
      · rw [classify_of_visible hseen, seenVersion_cons_of_visible hseen, content, hlinked.1.1]
        rfl
      · rw [Bool.not_eq_true] at hseen
        have hzero : older.undoPtr = noUndoPtr :=
          (hground older rfl).resolve_right (by rw [hseen]; exact Bool.false_ne_true)
        rw [classify_of_not_visible hseen, if_pos hzero, seenVersion_cons_of_not_visible hseen]
        rfl
  | cons last rest ih =>
    have hcount : stepsBack view.visible (tuple :: older :: last :: rest) =
        stepsBack view.visible (older :: last :: rest) + 1 := by
      rw [stepsBack, if_neg (by rw [hhidden]; exact Bool.false_ne_true)]
    rw [hcount, seenVersion_cons_of_not_visible hhidden]
    cases steps with
    | zero => exact ⟨fun h => absurd h (by omega), fun _ => ⟨_, rfl⟩⟩
    | succ steps =>
      rw [resolveThroughUndo_succ hlinked.1 steps]
      by_cases hseen : view.visible older.trxId = true
      · have hnow : stepsBack view.visible (older :: last :: rest) = 0 := by
          rw [stepsBack, if_pos hseen]
        rw [hnow, classify_of_visible hseen, seenVersion_cons_of_visible hseen, content,
          hlinked.1.1]
        exact ⟨fun _ => rfl, fun h => absurd h (by omega)⟩
      · rw [Bool.not_eq_true] at hseen
        rw [classify_of_not_visible hseen, if_neg (undoPtr_ne_zero hlinked.2.1)]
        obtain ⟨hwithin, hbeyond⟩ := ih hlinked.2 hground hseen steps
        exact ⟨fun h => hwithin (by omega), fun h => hbeyond (by omega)⟩

/-- **What a view finds** of a row: its first version by a writer it sees, if that is not too far
    back. -/
theorem visibleVersion_eq_ok {found : Option Bytes} (hlinked : Linked undo (tuple :: rest))
    (hground : Grounded view (tuple :: rest)) :
    visibleVersion view undo tuple = .ok found ↔
      stepsBack view.visible (tuple :: rest) ≤ maxUndoChainLength ∧
        found = seenVersion view.visible (tuple :: rest) := by
  by_cases hseen : view.visible tuple.trxId = true
  · have hnow : stepsBack view.visible (tuple :: rest) = 0 := by
      cases rest with
      | nil => rfl
      | cons older rest => rw [stepsBack, if_pos hseen]
    rw [hnow, visibleVersion, classify_of_visible hseen, seenVersion_cons_of_visible hseen, content]
    split_ifs <;> simp [eq_comm]
  · rw [Bool.not_eq_true] at hseen
    rw [visibleVersion, classify_of_not_visible hseen]
    cases rest with
    | nil =>
      have hzero : tuple.undoPtr = noUndoPtr :=
        (hground tuple rfl).resolve_right (by rw [hseen]; exact Bool.false_ne_true)
      rw [if_pos hzero, seenVersion_cons_of_not_visible hseen]
      simp [stepsBack, seenVersion, eq_comm]
    | cons older rest =>
      rw [if_neg (undoPtr_ne_zero hlinked.1)]
      obtain ⟨hwithin, hbeyond⟩ := resolveThroughUndo_spec hlinked hground hseen
        maxUndoChainLength
      by_cases hnear : stepsBack view.visible (tuple :: older :: rest) ≤ maxUndoChainLength
      · rw [hwithin hnear]
        simp [hnear, eq_comm]
      · obtain ⟨e, herror⟩ := hbeyond (Nat.not_le.mp hnear)
        rw [herror]
        simp [hnear]

end Reader

-- What a rollback leaves

/-- What a trail entry keeps of the version below the one its write put on top. -/
def TrailEntry.TakesBack (entry : TrailEntry) (tuple : HeapTuple) (below : List HeapTuple) : Prop :=
  match entry.action with
  | .insert => below = []
  | .overwrite => ∃ older rest, below = older :: rest ∧ older.trxId = entry.priorTrxId ∧
      older.undoPtr = entry.priorUndoPtr ∧ older.payload = entry.image ∧ older.deleted = false ∧
      tuple.deleted = false
  | .deleteMark => ∃ older rest, below = older :: rest ∧ older.trxId = entry.priorTrxId ∧
      older.undoPtr = entry.priorUndoPtr ∧ older.payload = tuple.payload ∧ older.deleted = false

/-- **A trail**, newest entry first, is the history of its writer's versions: each entry is of the
    version on top of its row, and with all of them popped none is left. -/
inductive Unwinds (writer : Nat) : List TrailEntry → (Loc → List HeapTuple) → Prop where
  | nil {rows} : (∀ loc, ∀ tuple ∈ rows loc, tuple.trxId ≠ writer) → Unwinds writer [] rows
  | cons {rows entry older tuple below} :
      rows (entry.pageId, entry.slot) = tuple :: below → tuple.trxId = writer →
      entry.TakesBack tuple below →
      Unwinds writer older (update rows (entry.pageId, entry.slot) below) →
      Unwinds writer (entry :: older) rows

namespace Unwinds

variable {writer : Nat} {trail : List TrailEntry} {rows rows' : Loc → List HeapTuple}

theorem congr (h : Unwinds writer trail rows)
    (hrows : ∀ loc, rows' loc = rows loc ∨
      (∀ tuple ∈ rows loc, tuple.trxId ≠ writer) ∧ ∀ tuple ∈ rows' loc, tuple.trxId ≠ writer) :
    Unwinds writer trail rows' := by
  induction h generalizing rows' with
  | nil hnone =>
    refine .nil fun loc tuple htuple => ?_
    rcases hrows loc with heq | ⟨-, hfree⟩
    · rw [heq] at htuple
      exact hnone loc tuple htuple
    · exact hfree tuple htuple
  | @cons rows entry older tuple below hloc hwriter hback _ ih =>
    have hsame : rows' (entry.pageId, entry.slot) = rows (entry.pageId, entry.slot) := by
      rcases hrows (entry.pageId, entry.slot) with heq | ⟨hfree, -⟩
      · exact heq
      · rw [hloc] at hfree
        exact absurd hwriter (hfree tuple List.mem_cons_self)
    refine .cons (hsame.trans hloc) hwriter hback (ih fun loc => ?_)
    by_cases hhere : loc = (entry.pageId, entry.slot)
    · rw [hhere, update_self, update_self]
      exact .inl rfl
    · rw [update_of_ne hhere, update_of_ne hhere]
      exact hrows loc

theorem unwind_failure (trail : List TrailEntry) (store : Store) (logged : List LogRecord)
    (e : Status) :
    ((unwind none trail store (logged, some e)).2.2).isSome = true := by
  induction trail generalizing store logged with
  | nil => rfl
  | cons entry older ih =>
    rw [unwind]
    split
    · exact ih ..
    · exact ih ..

variable {store store' : Store} {entry : TrailEntry} {records : List LogRecord}

theorem compensate_inPlace (h : compensate store entry none = .ok (store', records)) :
    ∃ page page' record, store.pages entry.pageId = some page ∧
      undoWrite page entry.action entry.pageId entry.slot entry.image entry.priorTrxId
        entry.priorUndoPtr = .ok (page', record) ∧ store' = store.put entry.pageId page' := by
  rw [compensate] at h
  obtain ⟨⟨pageId, slot⟩, hat, h⟩ := bind_eq_ok.mp h
  obtain ⟨page, hget, h⟩ := bind_eq_ok.mp h
  obtain ⟨⟨page', record⟩, hundo, h⟩ := bind_eq_ok.mp h
  obtain ⟨rfl, -⟩ := Prod.mk.inj (Except.ok.inj h)
  rw [compensateAt] at hat
  obtain ⟨found, -, hat⟩ := bind_eq_ok.mp hat
  split_ifs at hat
  obtain ⟨rfl, rfl⟩ := Prod.mk.inj (Except.ok.inj hat)
  exact ⟨page, page', record, Store.get_eq_ok.mp hget, hundo, rfl⟩

theorem compensate_pops {tuple : HeapTuple} {below : List HeapTuple}
    (hstore : ∀ loc : Loc, store.tupleAt loc.1 loc.2 = (rows loc).head?)
    (hloc : rows (entry.pageId, entry.slot) = tuple :: below) (hback : entry.TakesBack tuple below)
    (h : compensate store entry none = .ok (store', records)) :
    store'.undo = store.undo ∧ ∀ loc : Loc, store'.tupleAt loc.1 loc.2 =
      (update rows (entry.pageId, entry.slot) below loc).head? := by
  obtain ⟨page, page', record, hpage, hundo, rfl⟩ := compensate_inPlace h
  have htuple : page.tupleAt entry.slot = some tuple := by
    have hhere := hstore (entry.pageId, entry.slot)
    rw [hloc, Store.tupleAt_of_pages hpage] at hhere
    exact hhere
  have hslots : ∀ slot, page'.tupleAt slot =
      if slot = entry.slot then below.head? else page.tupleAt slot := by
    intro slot
    rw [undoWrite.eq_def] at hundo
    rw [TrailEntry.TakesBack] at hback
    cases haction : entry.action with
    | insert =>
      rw [haction] at hundo hback
      obtain ⟨page'', hretire, hpair⟩ := map_eq_ok.mp hundo
      obtain ⟨rfl, -⟩ := Prod.mk.inj hpair
      rw [HeapPage.tupleAt_retireSlot hretire, hback]
      rfl
    | overwrite =>
      rw [haction] at hundo hback
      obtain ⟨older, rest, rfl, htrx, hptr, hpayload, hdeleted, htop⟩ := hback
      obtain ⟨page'', hover, hpair⟩ := map_eq_ok.mp hundo
      obtain ⟨rfl, -⟩ := Prod.mk.inj hpair
      obtain ⟨old, hold, htuples⟩ := HeapPage.tupleAt_overwriteTuple hover
      rw [htuples, Option.some.inj (hold.symm.trans htuple), ← htrx, ← hptr, ← hpayload, htop,
        ← hdeleted]
      rfl
    | deleteMark =>
      rw [haction] at hundo hback
      obtain ⟨older, rest, rfl, htrx, hptr, hpayload, hdeleted⟩ := hback
      obtain ⟨page'', hclear, hpair⟩ := map_eq_ok.mp hundo
      obtain ⟨rfl, -⟩ := Prod.mk.inj hpair
      obtain ⟨old, hold, htuples⟩ := HeapPage.tupleAt_clearDeleteMark hclear
      rw [htuples, Option.some.inj (hold.symm.trans htuple), ← htrx, ← hptr, ← hpayload,
        ← hdeleted]
      rfl
  refine ⟨rfl, fun loc => ?_⟩
  rw [Store.tupleAt_put]
  by_cases hpageId : loc.1 = entry.pageId
  · rw [if_pos hpageId, hslots]
    by_cases hslot : loc.2 = entry.slot
    · have hhere : loc = (entry.pageId, entry.slot) := Prod.ext hpageId hslot
      rw [if_pos hslot, hhere, update_self]
    · have hother : loc ≠ (entry.pageId, entry.slot) := fun heq =>
        hslot (congrArg Prod.snd heq)
      rw [if_neg hslot, update_of_ne hother, ← hstore loc, hpageId,
        Store.tupleAt_of_pages hpage]
  · have hother : loc ≠ (entry.pageId, entry.slot) := fun heq =>
      hpageId (congrArg Prod.fst heq)
    rw [if_neg hpageId, update_of_ne hother]
    exact hstore loc

theorem unwind_pops (h : Unwinds writer trail rows) {logged logged' : List LogRecord}
    (hstore : ∀ loc : Loc, store.tupleAt loc.1 loc.2 = (rows loc).head?)
    (hunwind : unwind none trail store (logged, none) = (store', logged', none)) :
    store'.undo = store.undo ∧ ∀ loc : Loc, store'.tupleAt loc.1 loc.2 =
      ((rows loc).filter fun tuple => tuple.trxId != writer).head? := by
  induction h generalizing store logged with
  | @nil rows hnone =>
    obtain ⟨rfl, -⟩ := Prod.mk.inj hunwind
    refine ⟨rfl, fun loc => ?_⟩
    rw [hstore loc, List.filter_eq_self.mpr fun tuple htuple => by
      rw [bne_iff_ne]
      exact hnone loc tuple htuple]
  | @cons rows entry older tuple below hloc hwriter hback _ ih =>
    rw [unwind] at hunwind
    split at hunwind
    · next store₁ records hcompensate =>
      obtain ⟨hundo, htuples⟩ := compensate_pops hstore hloc hback hcompensate
      obtain ⟨hundo', htuples'⟩ := ih htuples hunwind
      refine ⟨hundo'.trans hundo, fun loc => ?_⟩
      rw [htuples' loc]
      by_cases hhere : loc = (entry.pageId, entry.slot)
      · have htop : (tuple.trxId != writer) = false := by
          rw [hwriter, bne_self_eq_false]
        rw [hhere, update_self, hloc, List.filter_cons_of_neg (by rw [htop]; decide)]
      · rw [update_of_ne hhere]
    · next e hcompensate =>
      have hlost := unwind_failure older store logged e
      rw [show ((none : Option Status) <|> some e) = some e from rfl] at hunwind
      rw [hunwind] at hlost
      cases hlost

end Unwinds

end Kds.Txn
