/-
  Kds.Txn.ReadView

  Read views and what they see of one stored version (`include/kds/txn/read_view.hpp`,
  `include/kds/txn/visibility.hpp`): a snapshot is a high-water mark and the transactions in
  flight below it, and a reader classifies a tuple by its writer, its delete mark and its undo
  pointer alone.
-/

import Kds.Base.Status
import Mathlib.Data.List.Basic

namespace Kds.Txn

/-- The bootstrap writer, which every view sees. -/
def alwaysVisibleTrxId : Nat := 1
def noTrxId : Nat := 0
def noUndoPtr : Nat := 0
def maxTrackedLiveTxns : Nat := 64

/-- `struct ReadView`; the in-flight ids are a set, kept sorted in the source for its search. -/
structure ReadView where
  upToTrxId : Nat := 0
  ownTrxId : Nat := noTrxId
  inFlight : List Nat := []
  deriving DecidableEq

namespace ReadView

/-- `ReadView::Visible`. -/
def visible (view : ReadView) (trxId : Nat) : Bool :=
  if trxId = alwaysVisibleTrxId then true
  else if view.ownTrxId ≠ noTrxId ∧ trxId = view.ownTrxId then true
  else if view.upToTrxId ≤ trxId then false
  else !view.inFlight.contains trxId

/-- `AddInFlight`. -/
def addInFlight (view : ReadView) (trxId : Nat) : StatusOr ReadView :=
  if maxTrackedLiveTxns ≤ view.inFlight.length then
    .error (.outOfSpace ("more than " ++ toString maxTrackedLiveTxns ++
      " live transactions; the read view cannot track them"))
  else .ok { view with inFlight := view.inFlight ++ [trxId] }

@[simp] theorem visible_alwaysVisible (view : ReadView) :
    view.visible alwaysVisibleTrxId = true := if_pos rfl

variable {view : ReadView}

theorem visible_other {trxId : Nat} (h : view.ownTrxId = noTrxId ∨ trxId ≠ view.ownTrxId) :
    view.visible trxId = (decide (trxId = alwaysVisibleTrxId) ||
      (decide (trxId < view.upToTrxId) && !view.inFlight.contains trxId)) := by
  have hown : ¬ (view.ownTrxId ≠ noTrxId ∧ trxId = view.ownTrxId) := fun ⟨hsome, heq⟩ =>
    h.elim (fun hnone => hsome hnone) (fun hne => hne heq)
  rw [visible, if_neg hown]
  by_cases hboot : trxId = alwaysVisibleTrxId
  · simp [hboot]
  · by_cases hlate : view.upToTrxId ≤ trxId
    · simp [hboot, hlate, Nat.not_lt.mpr hlate]
    · simp [hboot, hlate, Nat.lt_of_not_le hlate]

theorem visible_own (h : view.ownTrxId ≠ noTrxId) : view.visible view.ownTrxId = true := by
  rw [visible]
  by_cases hboot : view.ownTrxId = alwaysVisibleTrxId
  · rw [if_pos hboot]
  · rw [if_neg hboot, if_pos ⟨h, rfl⟩]

end ReadView

/-- `enum class Visibility`. -/
inductive Visibility where
  | visible | noVersion | needsUndoWalk
  deriving DecidableEq

/-- `Classify`. -/
def classify (view : ReadView) (trxId : Nat) (deleted : Bool) (undoPtr : Nat) : Visibility :=
  if view.visible trxId then if deleted then .noVersion else .visible
  else if undoPtr = noUndoPtr then .noVersion
  else .needsUndoWalk

/-- `enum class CheckVerdict`. -/
inductive CheckVerdict where
  | live | absent | busy
  deriving DecidableEq

/-- `CheckVisibility`: latest state, the undo chain never walked. -/
def checkVisibility (view : ReadView) (trxId : Nat) (deleted : Bool) : CheckVerdict :=
  if !view.visible trxId then .busy
  else if deleted then .absent
  else .live

end Kds.Txn
