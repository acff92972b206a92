/-
  Kds.Txn.UndoLog

  The undo log and the walk along a version chain (`src/txn/undo_log.cpp`,
  `src/txn/visibility.cpp`).  A record is found by its pointer and is never changed; pointers are
  nonzero and handed out in order.  Where a pointer's page lies and when a page no view can reach
  is reused are left out.
-/

import Kds.Storage.HeapPage
import Kds.Txn.ReadView

namespace Kds.Txn

open Lib

/-- `enum class UndoRecordType`. -/
inductive UndoRecordType where
  | overwrite | deleteMark | insert
  deriving DecidableEq

/-- `struct UndoVersion`: the version superseded, the tuple it belongs to, and the writer's
    previous record. -/
structure UndoVersion where
  type : UndoRecordType
  priorTrxId : Nat := 0
  priorUndoPtr : Nat := noUndoPtr
  targetPageId : Nat
  targetSlot : Nat
  txnPrevUndoPtr : Nat := noUndoPtr
  pk : Nat
  image : Bytes := []
  deriving DecidableEq

/-- The records by pointer: pointer `n + 1` is the `n`-th record. -/
structure UndoLog where
  records : List UndoVersion := []
  deriving DecidableEq

def maxUndoImageLen : Nat := 8092
def maxUndoChainLength : Nat := 2 ^ 16

namespace UndoLog

/-- `UndoLog::Read`. -/
def read (undo : UndoLog) (ptr : Nat) : StatusOr UndoVersion :=
  match ptr with
  | 0 => .error (.corruption "undo pointer 0 names no record")
  | n + 1 =>
    match undo.records[n]? with
    | none => .error (.corruption "undo pointer past the records of its page")
    | some version => .ok version

/-- `UndoLog::Append`. -/
def append (undo : UndoLog) (version : UndoVersion) : StatusOr (UndoLog × Nat) :=
  if maxUndoImageLen < version.image.length then
    .error (.invalidArgument ("undo image of " ++ toString version.image.length ++
      " bytes exceeds the " ++ toString maxUndoImageLen ++ "-byte undo page capacity"))
  else .ok (⟨undo.records ++ [version]⟩, undo.records.length + 1)

theorem append_eq_ok {undo undo' : UndoLog} {version : UndoVersion} {ptr : Nat}
    (h : undo.append version = .ok (undo', ptr)) :
    undo' = ⟨undo.records ++ [version]⟩ ∧ ptr = undo.records.length + 1 := by
  rw [append] at h
  split_ifs at h
  cases h
  exact ⟨rfl, rfl⟩

theorem read_append {undo undo' : UndoLog} {version : UndoVersion} {ptr ptr' : Nat}
    (h : undo.append version = .ok (undo', ptr)) {found : UndoVersion}
    (hread : undo.read ptr' = .ok found) : undo'.read ptr' = .ok found := by
  obtain ⟨rfl, -⟩ := append_eq_ok h
  cases ptr' with
  | zero => cases hread
  | succ n =>
    rw [read] at hread ⊢
    have hget : undo.records[n]? = some found := by
      split at hread
      · cases hread
      · next v hv => rw [hv, Except.ok.inj hread]
    have hlt : n < undo.records.length := (List.getElem?_eq_some_iff.mp hget).1
    rw [List.getElem?_append_left hlt, hget]

end UndoLog

/-- `ResolveThroughUndo`, with so many steps left: the payload of the version the view sees, if
    the chain has one. -/
def resolveThroughUndo (view : ReadView) (undo : UndoLog) :
    Nat → Nat → Bytes → StatusOr (Option Bytes)
  | 0, _, _ =>
    .error (.corruption ("undo chain exceeds " ++ toString maxUndoChainLength ++
      " versions; treating it as a cycle"))
  | steps + 1, undoPtr, payload =>
    if undoPtr = noUndoPtr then .ok none
    else do
      let version ← undo.read undoPtr
      match version.type with
      | .insert => .ok none
      | .overwrite =>
        match classify view version.priorTrxId false version.priorUndoPtr with
        | .visible => .ok (some version.image)
        | .noVersion => .ok none
        | .needsUndoWalk =>
          resolveThroughUndo view undo steps version.priorUndoPtr version.image
      | .deleteMark =>
        -- a delete mark changes no tuple bytes: the payload in hand is the right one
        match classify view version.priorTrxId false version.priorUndoPtr with
        | .visible => .ok (some payload)
        | .noVersion => .ok none
        | .needsUndoWalk =>
          resolveThroughUndo view undo steps version.priorUndoPtr payload

/-- The version of a stored tuple that a view sees, as every read resolves it. -/
def visibleVersion (view : ReadView) (undo : UndoLog) (tuple : Storage.HeapTuple) :
    StatusOr (Option Bytes) :=
  match classify view tuple.trxId tuple.deleted tuple.undoPtr with
  | .visible => .ok (some tuple.payload)
  | .noVersion => .ok none
  | .needsUndoWalk =>
    resolveThroughUndo view undo maxUndoChainLength tuple.undoPtr tuple.payload

end Kds.Txn
