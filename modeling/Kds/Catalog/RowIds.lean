/-
  Kds.Catalog.RowIds

  The row-id sequence of a relation (`AllocateRowId`, `AllocateRowIdRange`, `AdmitExplicitRowId`,
  `src/catalog/catalog.cpp`): one durable mark per relation, `sys.tables.next_id`, that single ids,
  ranges carved for peers and ids named by a statement all move forward, and the key-order flag
  that an id below the mark sets.

  Each call rewrites the relation's catalog row and logs the whole row (`OverwriteLogged`).  What of
  that fails is the call's `PersistOutcome`: the page may be changed where the log is not.

  A peer issues from a leased run (`row_id_lease.hpp`), carved by a request to core 0 and granted by
  its reply.
-/

import Kds.Base.Status
import Mathlib.Tactic.SplitIfs

namespace Kds.Catalog

abbrev Oid := Nat

def kFirstRowId : Nat := 1
def kMaxKeystoneId : Nat := 2 ^ 40 - 1
def kRowIdLeasePerGrant : Nat := 4096

inductive ClusteredType where
  | heap | btree
  deriving DecidableEq

inductive KeyOrder where
  | ascending | unordered
  deriving DecidableEq

/-- The part of `SysTableRow` the sequence is. -/
structure SysTableRow where
  nextId : Nat
  clusteredType : ClusteredType
  keyOrder : KeyOrder := .ascending
  deriving DecidableEq

-- The three calls, on the relation's row

def exhausted : Status := .outOfRange "relation has exhausted the Keystone id space"

/-- `AllocateRowId`: the id, and the row to persist before it is used. -/
def takeRowId (row : SysTableRow) : StatusOr (Nat × SysTableRow) :=
  if kMaxKeystoneId < row.nextId then .error exhausted
  else .ok (row.nextId, { row with nextId := row.nextId + 1 })

/-- `AllocateRowIdRange`, in `uint64` arithmetic: the check and the sum both wrap. -/
def takeRowIdRange (row : SysTableRow) (count : Nat) : StatusOr (Nat × SysTableRow) :=
  if (kMaxKeystoneId + 2 ^ 64 - (count - 1)) % 2 ^ 64 < row.nextId then .error exhausted
  else .ok (row.nextId, { row with nextId := (row.nextId + count) % 2 ^ 64 })

/-- What `AdmitExplicitRowId` makes of a row: nothing to persist, or the row to persist. -/
inductive Admission where
  | unchanged
  | persist (row : SysTableRow)
  deriving DecidableEq

/-- `AdmitExplicitRowId`. -/
def admitRowId (oid : Oid) (row : SysTableRow) (id : Nat) : StatusOr Admission :=
  if id < row.nextId then
    if row.clusteredType ≠ .btree then
      .error (.outOfRange ("primary key " ++ toString id ++ " is below relation " ++
        toString oid ++ "'s high-water mark " ++ toString row.nextId ++
        "; a heap-clustered relation's ids must ascend, because its chain " ++
        "grows only at its tail - use BTREE to name keys in any order"))
    else if row.keyOrder = .unordered then .ok .unchanged
    else .ok (.persist { row with keyOrder := .unordered })
  else .ok (.persist { row with nextId := id + 1 })

/-- The spellability check, before any page is touched. -/
def checkSpellable (id : Nat) : StatusOr Unit :=
  if id < kFirstRowId then
    .error (.invalidArgument ("primary key " ++ toString id ++
      " is below the first issuable id (" ++ toString kFirstRowId ++
      "); 0 is reserved for \"unset\""))
  else if kMaxKeystoneId < id then
    .error (.invalidArgument ("primary key " ++ toString id ++
      " does not fit the 40-bit Keystone id space (max " ++ toString kMaxKeystoneId ++ ")"))
  else .ok ()

-- What each call moves

/-- One row of a relation is not behind another: its mark is no lower, its flag no less set. -/
structure SysTableRow.Covers (row older : SysTableRow) : Prop where
  mark : older.nextId ≤ row.nextId
  flag : older.keyOrder = .unordered → row.keyOrder = .unordered

theorem SysTableRow.Covers.refl (row : SysTableRow) : row.Covers row := ⟨Nat.le_refl _, id⟩

theorem SysTableRow.Covers.trans {a b c : SysTableRow} (hab : a.Covers b) (hbc : b.Covers c) :
    a.Covers c :=
  ⟨Nat.le_trans hbc.mark hab.mark, fun h => hab.flag (hbc.flag h)⟩

variable {id : Nat} {row row' : SysTableRow}

theorem takeRowId_spec (h : takeRowId row = .ok (id, row')) :
    id = row.nextId ∧ id ≤ kMaxKeystoneId ∧ row'.nextId = id + 1 ∧ row'.Covers row := by
  rw [takeRowId] at h
  split_ifs at h with hfull
  cases h
  exact ⟨rfl, Nat.not_lt.mp hfull, rfl, Nat.le_succ _, id⟩

theorem takeRowIdRange_spec {count first : Nat} (hpos : 0 < count)
    (hcount : count ≤ 2 ^ 40) (hrow : row.nextId ≤ 2 ^ 40)
    (h : takeRowIdRange row count = .ok (first, row')) :
    first = row.nextId ∧ first + count ≤ kMaxKeystoneId + 1 ∧ row'.nextId = first + count ∧
      row'.Covers row := by
  rw [takeRowIdRange] at h
  split_ifs at h with hfull
  cases h
  rw [kMaxKeystoneId] at hfull ⊢
  have hfits : row.nextId + count ≤ 2 ^ 40 - 1 + 1 := by omega
  have hsum : (row.nextId + count) % 2 ^ 64 = row.nextId + count := by omega
  refine ⟨rfl, hfits, hsum, ?_, fun hflag => hflag⟩
  show row.nextId ≤ (row.nextId + count) % 2 ^ 64
  omega

theorem admitRowId_spec {oid : Oid} {admission : Admission}
    (h : admitRowId oid row id = .ok admission) :
    (id < row.nextId ∧ row.keyOrder = .unordered ∧ admission = .unchanged) ∨
      (id < row.nextId ∧ admission = .persist { row with keyOrder := .unordered }) ∨
      (row.nextId ≤ id ∧ admission = .persist { row with nextId := id + 1 }) := by
  rw [admitRowId] at h
  split_ifs at h with hbelow hheap horder
  · exact .inl ⟨hbelow, horder, (Except.ok.inj h).symm⟩
  · exact .inr (.inl ⟨hbelow, (Except.ok.inj h).symm⟩)
  · exact .inr (.inr ⟨Nat.not_lt.mp hbelow, (Except.ok.inj h).symm⟩)

theorem checkSpellable_ok {u : Unit} (h : checkSpellable id = .ok u) :
    kFirstRowId ≤ id ∧ id ≤ kMaxKeystoneId := by
  rw [checkSpellable] at h
  split_ifs at h with hlow hhigh
  exact ⟨Nat.not_lt.mp hlow, Nat.not_lt.mp hhigh⟩

-- Leases

/-- `struct RowIdLease`; `window` only times the next request. -/
structure RowIdLease where
  next : Nat := 0
  stop : Nat := 0
  denied : Bool := false
  deriving DecidableEq

namespace RowIdLease

def spent (lease : RowIdLease) : Bool := decide (lease.stop ≤ lease.next)

/-- The ids still to issue. -/
def Holds (lease : RowIdLease) (id : Nat) : Prop := lease.next ≤ id ∧ id < lease.stop

/-- `RowIdLeaseTable::Next`, on the relation's entry: a miss leaves an entry behind. -/
def take (table : Oid) (lease : RowIdLease) : RowIdLease × StatusOr Nat :=
  if lease.spent then
    if lease.denied then
      ({ lease with denied := false }, .error ⟨.resourceExhausted,
        "row-id lease for relation oid " ++ toString table ++ " was refused by core 0 - the " ++
        "relation has no sys.tables row, or its 40-bit id space is exhausted; not retryable"⟩)
    else (lease, .error (.txnConflict ("row-id lease for relation oid " ++ toString table ++
      " is spent; retry after the refill grant lands")))
  else ({ lease with next := lease.next + 1 }, .ok lease.next)

/-- `RowIdLeaseTable::Grant`: a run that begins where this one ends extends it, any other replaces
    it. -/
def grant (lease : RowIdLease) (first count : Nat) : RowIdLease :=
  if !lease.spent && decide (lease.stop = first) then { lease with stop := first + count }
  else { lease with next := first, stop := first + count }

variable {lease lease' : RowIdLease} {id : Nat} {table : Oid}

theorem holds_take (h : lease.take table = (lease', .ok id)) :
    lease.Holds id ∧ ∀ other, lease'.Holds other ↔ lease.Holds other ∧ other ≠ id := by
  rw [take] at h
  split_ifs at h with hspent hdenied
  · cases (Prod.mk.inj h).2
  · cases (Prod.mk.inj h).2
  · obtain ⟨rfl, hid⟩ := Prod.mk.inj h
    cases hid
    rw [spent, decide_eq_true_eq] at hspent
    refine ⟨⟨Nat.le_refl _, Nat.not_le.mp hspent⟩, fun other => ?_⟩
    show lease.next + 1 ≤ other ∧ other < lease.stop ↔
      (lease.next ≤ other ∧ other < lease.stop) ∧ other ≠ lease.next
    omega

theorem holds_take_error {e : Status}
    (h : lease.take table = (lease', .error e)) (id : Nat) : lease'.Holds id ↔ lease.Holds id := by
  rw [take] at h
  split_ifs at h with hspent hdenied
  · rw [← (Prod.mk.inj h).1]
    exact Iff.rfl
  · rw [← (Prod.mk.inj h).1]
  · cases (Prod.mk.inj h).2

theorem holds_grant {first count : Nat} (h : (lease.grant first count).Holds id) :
    lease.Holds id ∨ first ≤ id ∧ id < first + count := by
  rw [grant] at h
  split_ifs at h with hextends
  · rw [Bool.and_eq_true, decide_eq_true_eq] at hextends
    obtain ⟨hnext, hstop⟩ : lease.next ≤ id ∧ id < first + count := h
    by_cases hin : id < lease.stop
    · exact .inl ⟨hnext, hin⟩
    · refine .inr ⟨?_, hstop⟩
      rw [← hextends.2]
      exact Nat.not_lt.mp hin
  · exact .inr h

end RowIdLease

end Kds.Catalog
