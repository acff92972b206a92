/-
  Kds.Exec.IndexedRows

  The rows of one core, the index trees over them, and what keeps the two in step: the write path's
  maintenance (`AppendIndexEntry`, `MaintainIndexes`, `src/exec/index_maintain.cpp`) and the
  backfill of a new index (`Backfill`, `AppendVersion`, `src/exec/index_ddl.cpp`).

  A row is the stack of its versions, newest first: the tuple, and what its undo chain still
  reaches.  A delete mark is a version without an image.  Every version that some view can still
  read needs its entry, the settled ones and those of transactions in flight alike; the versions
  of a poisoned transaction wait for its rollback and are read by nobody.

  Left out: the shape of a tree (it is the set of its entries), undo pages, and the relation's own
  pages; `entryOf` is the key and the covered columns of a row image under a definition.
-/

import Kds.Base.Status
import Kds.Exec.AssertionCheck
import Kds.Lib.VersionStack
import Mathlib.Logic.Function.Basic

namespace Kds.Exec.Indexed

open Lib List

/-- `Catalog::IndexDef`, less the root page, which the relation's anchor holds. -/
structure IndexDef where
  tableOid : Oid
  indexOid : Nat
  name : List UInt8
  keyWidth : Nat
  entryWidth : Nat
  flags : Nat
  keyCols : List Nat
  coveredCols : List Nat
  deriving DecidableEq

/-- One version of a row.  `noted` says that the writer's trail names it. -/
structure Version (π : Type) where
  writer : Nat
  image : Option π
  noted : Bool := true
  deriving DecidableEq

structure IndexedRow (π : Type) where
  oid : Oid
  pk : Nat
  versions : List (Version π)
  deriving DecidableEq

/-- One core: its rows, its transactions (`poisoned`: those with a failed statement), the entries
    of each tree, and the definitions its catalog cache holds. -/
structure RowStore (π ε : Type) where
  rows : List (IndexedRow π)
  nextTxn : Nat
  live : List Nat
  poisoned : List Nat
  trees : Nat → List (ε × Nat)
  known : List IndexDef

variable {π ε : Type}

-- Entries

section

variable [DecidableEq ε] (entryOf : IndexDef → π → ε)

/-- `IndexInsert`: an entry that is already present changes nothing. -/
def indexInsert (entry : ε × Nat) (tree : List (ε × Nat)) : List (ε × Nat) :=
  if entry ∈ tree then tree else entry :: tree

/-- `MaintainIndexes` over the relation's definitions: an UPDATE that moved nothing an index cares
    about appends nothing to it.  `fault` is what an index's append answers when it fails. -/
def maintainIndexes (pk : Nat) (image : π) (previous : Option π) (fault : Nat → Option Status) :
    List IndexDef → (Nat → List (ε × Nat)) → (Nat → List (ε × Nat)) × Option Status
  | [], trees => (trees, none)
  | ix :: rest, trees =>
    match fault ix.indexOid with
    | some e => (trees, some e)
    | none =>
      if previous.map (entryOf ix) = some (entryOf ix image) then
        maintainIndexes pk image previous fault rest trees
      else
        maintainIndexes pk image previous fault rest
          (Function.update trees ix.indexOid
            (indexInsert (entryOf ix image, pk) (trees ix.indexOid)))

/-- How the appends of one row of a backfill end: its tuple's, and for the n-th link of its undo
    chain the read of the link and the append of its image. -/
structure RowFaults where
  tuple : Option Status := none
  link : Nat → Option Status := fun _ => none
  older : Nat → Option Status := fun _ => none

/-- `UndoLog::Walk` under `Backfill`'s callback.  A failed append makes the callback answer
    `false`, which ends the walk, and the walk answers `kOk`. -/
def walkOlder (entry : π → ε) (pk : Nat) (faults : RowFaults) :
    Nat → List (Version π) → List (ε × Nat) → StatusOr (List (ε × Nat))
  | _, [], tree => .ok tree
  | n, v :: rest, tree =>
    match faults.link n with
    | some e => .error e
    | none =>
      match v.image with
      | none => walkOlder entry pk faults (n + 1) rest tree
      | some image =>
        match faults.older n with
        | some _ => .ok tree
        | none => walkOlder entry pk faults (n + 1) rest (indexInsert (entry image, pk) tree)

/-- `Backfill` of one row: the tuple, marked or not, then every older version. -/
def backfillRow (entry : π → ε) (faults : RowFaults) (row : IndexedRow π)
    (tree : List (ε × Nat)) : StatusOr (List (ε × Nat)) :=
  match row.versions.dropWhile (·.image.isNone) with
  | [] => .ok tree
  | v :: older =>
    match v.image, faults.tuple with
    | none, _ => .ok tree
    | some _, some e => .error e
    | some image, none =>
      walkOlder entry row.pk faults 0 older (indexInsert (entry image, row.pk) tree)

/-- `Backfill`: the relation's rows in scan order. -/
def backfill (entry : π → ε) (tableOid : Oid) (faults : Nat → RowFaults) :
    Nat → List (IndexedRow π) → List (ε × Nat) → StatusOr (List (ε × Nat))
  | _, [], tree => .ok tree
  | n, row :: rest, tree =>
    if row.oid = tableOid then
      match backfillRow entry (faults n) row tree with
      | .error e => .error e
      | .ok tree => backfill entry tableOid faults (n + 1) rest tree
    else backfill entry tableOid faults (n + 1) rest tree

end

-- Writes

/-- What a core's sessions do: a failed statement poisons its transaction, which then only rolls
    back.  A statement's own transaction is a BEGIN and a COMMIT or a ROLLBACK around it. -/
inductive RowAction (π : Type) where
  | begin_
  | insert (txn : Nat) (oid : Oid) (pk : Nat) (image : π) (fault : Nat → Option Status)
  | update (txn i : Nat) (image : π) (fault : Nat → Option Status)
  | delete (txn i : Nat)
  /-- A statement that fails before it writes. -/
  | refuse (txn : Nat)
  | commit (txn : Nat)
  | rollback (txn : Nat)
  /-- The purge of undo links that no view can reach. -/
  | purge (i n : Nat)
  /-- A settled delete mark that no view predates is retired. -/
  | retire (i : Nat)

namespace RowStore

variable (s : RowStore π ε)

/-- A transaction that may run a statement. -/
def runs (t : Nat) : Bool := decide (t ∈ s.live) && !decide (t ∈ s.poisoned)

/-- The definitions a write of the relation maintains. -/
def maintained (oid : Oid) : List IndexDef := s.known.filter fun ix => ix.tableOid = oid

/-- First updater wins: the newest version is the writer's own, or of a transaction that ended. -/
def writableBy (t : Nat) (row : IndexedRow π) : Bool :=
  match row.versions with
  | [] => false
  | v :: _ => v.image.isSome && (v.writer == t || !decide (v.writer ∈ s.live))

/-- The state after a statement's maintenance, poisoned where that failed. -/
def afterMaintain (t : Nat) (out : (Nat → List (ε × Nat)) × Option Status) : RowStore π ε :=
  { s with
    trees := out.1
    poisoned := if out.2.isSome then s.poisoned ++ [t] else s.poisoned }

/-- A version goes on top of a row. -/
def pushVersion (i : Nat) (v : Version π) : RowStore π ε :=
  { s with rows := s.rows.modify i fun row => { row with versions := v :: row.versions } }

/-- What a rollback leaves of a row: the trail's versions are taken off, newest first. -/
def unwound (t : Nat) (row : IndexedRow π) : Option (IndexedRow π) :=
  match row.versions.dropWhile fun v => v.writer == t && v.noted with
  | [] => none
  | versions => some { row with versions := versions }

/-- The versions a purge leaves: it cuts under a settled image. -/
def purgeable (n : Nat) (row : IndexedRow π) : Bool :=
  match row.versions[n]? with
  | none => false
  | some v => v.image.isSome && !decide (v.writer ∈ s.live)

/-- The newest version is a settled delete mark. -/
def retirable (row : IndexedRow π) : Bool :=
  match row.versions with
  | [] => false
  | v :: _ => v.image.isNone && !decide (v.writer ∈ s.live)

end RowStore

section

variable [DecidableEq ε] (entryOf : IndexDef → π → ε)

/-- One step of a core, where `covers` tells the relations whose writes are refused; `none` where
    the action cannot be taken, or is refused before it changes anything. -/
def rowStep (covers : Oid → Bool) (s : RowStore π ε) : RowAction π → Option (RowStore π ε)
  | .begin_ => some { s with nextTxn := s.nextTxn + 1, live := s.live ++ [s.nextTxn] }
  | .insert t oid pk image fault =>
    if s.runs t && !covers oid then
      let out := maintainIndexes entryOf pk image none fault (s.maintained oid) s.trees
      -- the tuple is placed first; the trail names it only after the maintenance
      let placed : RowStore π ε := { s with
        rows := s.rows ++ [⟨oid, pk, [⟨t, some image, out.2.isNone⟩]⟩] }
      some (placed.afterMaintain t out)
    else none
  | .update t i image fault =>
    match s.rows[i]? with
    | none => none
    | some row =>
      if s.runs t && !covers row.oid && s.writableBy t row then
        let out := maintainIndexes entryOf row.pk image (row.versions.head?.bind (·.image))
          fault (s.maintained row.oid) s.trees
        some ((s.pushVersion i ⟨t, some image, true⟩).afterMaintain t out)
      else none
  | .delete t i =>
    match s.rows[i]? with
    | none => none
    | some row =>
      if s.runs t && !covers row.oid && s.writableBy t row then
        some (s.pushVersion i ⟨t, none, true⟩)
      else none
  | .refuse t => if s.runs t then some { s with poisoned := s.poisoned ++ [t] } else none
  | .commit t => if s.runs t then some { s with live := s.live.filter (· ≠ t) } else none
  | .rollback t =>
    if t ∈ s.live then
      some { s with
        rows := s.rows.filterMap (RowStore.unwound t)
        live := s.live.filter (· ≠ t)
        poisoned := s.poisoned.filter (· ≠ t) }
    else none
  | .purge i n =>
    match s.rows[i]? with
    | none => none
    | some row =>
      if s.purgeable n row then
        some { s with
          rows := s.rows.modify i fun row =>
            { row with versions := row.versions.take (n + 1) } }
      else none
  | .retire i =>
    match s.rows[i]? with
    | none => none
    | some row => if s.retirable row then some { s with rows := s.rows.eraseIdx i } else none

end

-- What the rows keep

namespace RowStore

/-- The tree of the definition holds an entry for every version of the relation's rows that some
    view can read. -/
def Complete (entryOf : IndexDef → π → ε) (s : RowStore π ε) (def_ : IndexDef) : Prop :=
  ∀ row ∈ s.rows, row.oid = def_.tableOid → ∀ v ∈ row.versions, v.writer ∉ s.poisoned →
    ∀ image, v.image = some image → (entryOf def_ image, row.pk) ∈ s.trees def_.indexOid

/-- The rows of a core: versions in flight are one writer's and on top, the trail names every
    version, and a poisoned transaction is still in flight. -/
structure Orderly (s : RowStore π ε) : Prop where
  layered : ∀ row ∈ s.rows, Lib.Layered Version.writer s.live row.versions
  noted : ∀ row ∈ s.rows, ∀ v ∈ row.versions, v.noted = true
  below : ∀ row ∈ s.rows, ∀ v ∈ row.versions, v.writer < s.nextTxn
  liveBelow : ∀ t ∈ s.live, t < s.nextTxn
  poisoned : ∀ t ∈ s.poisoned, t ∈ s.live

/-- An INSERT that places its tuple and then fails to index it: the rollback does not know of the
    tuple and leaves it. -/
def PlacesUnindexed (covers : Oid → Bool) (s : RowStore π ε) : RowAction π → Prop
  | .insert t oid _ _ fault =>
    s.runs t = true ∧ covers oid = false ∧ ∃ ix ∈ s.maintained oid, (fault ix.indexOid).isSome
  | _ => False

end RowStore

-- Maintenance and backfill

section

variable [DecidableEq ε] {entryOf : IndexDef → π → ε}

variable {pk : Nat} {fault : Nat → Option Status} {faults : RowFaults}

end

-- Steps

namespace RowStore

variable {s s' : RowStore π ε}

variable {t : Nat}

theorem poisoned_afterMaintain {out : (Nat → List (ε × Nat)) × Option Status} {x : Nat}
    (hx : x ∈ (s.afterMaintain t out).poisoned) : x ∈ s.poisoned ∨ x = t ∧ out.2 ≠ none := by
  unfold afterMaintain at hx
  dsimp only at hx
  split_ifs at hx with hfail
  · rcases Lib.mem_snoc.mp hx with hx | hx
    · exact .inl hx
    · refine .inr ⟨hx, fun hnone => ?_⟩
      simp [hnone] at hfail
  · exact .inl hx

-- The rows --------------------------------------------------------------------

theorem Orderly.afterMaintain (h : s.Orderly) (ht : t ∈ s.live)
    (out : (Nat → List (ε × Nat)) × Option Status) : (s.afterMaintain t out).Orderly :=
  { h with
    poisoned := fun x hx => (poisoned_afterMaintain hx).elim (h.poisoned x) fun heq =>
      heq.1 ▸ ht }

theorem Orderly.place (h : s.Orderly) (ht : t ∈ s.live) (oid : Oid) (pk : Nat) (image : π) :
    Orderly { s with rows := s.rows ++ [⟨oid, pk, [⟨t, some image, true⟩]⟩] } := by
  refine { h with layered := fun r hr => ?_, noted := fun r hr => ?_, below := fun r hr => ?_ }
  · rcases Lib.mem_snoc.mp hr with hr | rfl
    · exact h.layered r hr
    · exact Lib.Layered.nil.push ht fun top htop => by cases htop
  · rcases Lib.mem_snoc.mp hr with hr | rfl
    · exact h.noted r hr
    · intro v hv
      rw [mem_singleton.mp hv]
  · rcases Lib.mem_snoc.mp hr with hr | rfl
    · exact h.below r hr
    · intro v hv
      rw [mem_singleton.mp hv]
      exact h.liveBelow t ht

theorem Orderly.push (h : s.Orderly) {t i : Nat} {row : IndexedRow π} (ht : t ∈ s.live)
    (hrow : s.rows[i]? = some row) (hfree : s.writableBy t row = true) (image : Option π) :
    (s.pushVersion i ⟨t, image, true⟩).Orderly := by
  have hmem : row ∈ s.rows := mem_of_getElem? hrow
  refine { h with layered := fun r hr => ?_, noted := fun r hr => ?_, below := fun r hr => ?_ }
  · rcases mem_modify hr with hr | ⟨r, hr', rfl⟩
    · exact h.layered r hr
    · obtain rfl : row = r := Option.some.inj (hrow.symm.trans hr')
      refine (h.layered row hmem).push ht fun top htop => ?_
      unfold writableBy at hfree
      split at hfree
      · cases hfree
      · next v rest hversions =>
        rw [hversions] at htop
        cases htop
        simpa using (Bool.and_eq_true_iff.mp hfree).2
  · rcases mem_modify hr with hr | ⟨r, hr', rfl⟩
    · exact h.noted r hr
    · intro v hv
      rcases mem_cons.mp hv with rfl | hv
      · rfl
      · exact h.noted r (mem_of_getElem? hr') v hv
  · rcases mem_modify hr with hr | ⟨r, hr', rfl⟩
    · exact h.below r hr
    · intro v hv
      rcases mem_cons.mp hv with rfl | hv
      · exact h.liveBelow t ht
      · exact h.below r (mem_of_getElem? hr') v hv

section

variable [DecidableEq ε] {entryOf : IndexDef → π → ε} {covers : Oid → Bool} {act : RowAction π}

variable {def_ : IndexDef}

omit [DecidableEq ε] in
theorem Complete.mono (h : s.Complete entryOf def_)
    (htrees : ∀ e ∈ s.trees def_.indexOid, e ∈ s'.trees def_.indexOid)
    (hrows : ∀ row' ∈ s'.rows, row'.oid = def_.tableOid → ∀ v ∈ row'.versions,
      v.writer ∉ s'.poisoned → ∀ image, v.image = some image →
      (∃ row ∈ s.rows, row.oid = row'.oid ∧ row.pk = row'.pk ∧ v ∈ row.versions ∧
        v.writer ∉ s.poisoned) ∨ (entryOf def_ image, row'.pk) ∈ s'.trees def_.indexOid) :
    s'.Complete entryOf def_ := by
  intro row' hrow' hoid v hv hread image himage
  rcases hrows row' hrow' hoid v hv hread image himage with ⟨row, hrow, ho, hpk, hmem, hread'⟩ | hin
  · rw [← hpk]
    exact htrees _ (h row hrow (ho.trans hoid) v hmem hread' image himage)
  · exact hin

end

end RowStore

end Kds.Exec.Indexed
