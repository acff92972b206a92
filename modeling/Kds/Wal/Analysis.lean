/-
  Kds.Wal.Analysis

  Recovery's first pass (`src/wal/analysis.cpp`): one scan of the log decides each transaction's
  outcome, rebuilds the dirty page table, and computes where redo has to start.

  The table takes three kinds of mention of a page, in stream order: a record that names it
  enters it at the record's position, a checkpoint's dirty table enters it at the recLSN listed,
  and a handoff removes it; an entry that is there is never lowered nor raised.
-/

import Kds.Wal.LogScanner
import Kds.Wal.PayloadRoundTrip
import Mathlib.Data.List.AList

namespace Kds.Wal

-- `std::map`

/-- A map keyed by numbers; nothing here depends on the order it is walked in. -/
abbrev NumMap (β : Type) := AList fun _ : Nat => β

/-- `emplace`: an entry that exists stays. -/
def emplace {β : Type} (m : NumMap β) (k : Nat) (v : β) : NumMap β :=
  if k ∈ m then m else m.insert k v

theorem lookup_emplace {β : Type} (m : NumMap β) (k : Nat) (v : β) (k' : Nat) :
    (emplace m k v).lookup k' = if k' = k then some ((m.lookup k).getD v) else m.lookup k' := by
  rw [emplace]
  by_cases hmem : k ∈ m
  · rw [if_pos hmem]
    split_ifs with hk
    · obtain ⟨w, hw⟩ := Option.isSome_iff_exists.mp (AList.lookup_isSome.mpr hmem)
      rw [hk, hw, Option.getD_some]
    · rfl
  · rw [if_neg hmem]
    split_ifs with hk
    · rw [hk, AList.lookup_insert, AList.lookup_eq_none.mpr hmem, Option.getD_none]
    · exact AList.lookup_insert_ne hk

-- The result

/-- `enum class TxnOutcome`. -/
inductive TxnOutcome where
  | winner | aborted | loser
  deriving DecidableEq

/-- `struct TxnState`: the verdict, and where a loser's undo chain starts. -/
structure TxnState where
  outcome : TxnOutcome := .loser
  lastUndoPtr : Nat := 0
  deriving DecidableEq

/-- `struct AnalysisResult`. -/
structure AnalysisResult where
  scanStartLsn : Nat := 0
  endLsn : Nat := 0
  stoppedEarly : Bool := false
  records : Nat := 0
  dirtyPages : NumMap Nat := ∅
  transactions : NumMap TxnState := ∅
  redoStartLsn : Nat := 0
  maxPageId : Nat := invalidPageId
  maxTxnId : Nat := 0
  winners : Nat := 0
  aborted : Nat := 0
  losers : Nat := 0
  deriving DecidableEq

/-- `struct AnalysisStart`, from the core's checkpoint anchor. -/
structure AnalysisStart where
  redoStartLsn : Nat := 0
  anchorDurableLsn : Nat := 0

/-- `RedoStartFrom`: the least recLSN, a zero one skipped, under a bound. -/
def redoStartFrom (floorLsn : Nat) (dirtyPages : NumMap Nat) : Nat :=
  dirtyPages.entries.foldl (fun out entry => if entry.2 ≠ 0 then min out entry.2 else out) floorLsn

-- The visitor

namespace AnalysisResult

/-- `note_txn`: a loser until a terminal record says otherwise, and never a loser again. -/
def noteTxn (out : AnalysisResult) (txnId : Nat) (outcome : TxnOutcome) : AnalysisResult :=
  if txnId = noTxnId then out
  else
    { out with
      maxTxnId := max out.maxTxnId txnId
      transactions :=
        match out.transactions.lookup txnId with
        | none => out.transactions.insert txnId { outcome := outcome }
        | some state =>
          if outcome ≠ .loser then
            out.transactions.insert txnId { state with outcome := outcome }
          else out.transactions }

/-- `note_undo_head`: the newest record's pointer replaces the older one. -/
def noteUndoHead (out : AnalysisResult) (txnId ptr : Nat) : AnalysisResult :=
  if txnId = noTxnId ∨ ptr = 0 then out
  else
    { out with
      transactions := out.transactions.insert txnId
        { (out.transactions.lookup txnId).getD {} with lastUndoPtr := ptr } }

def notePageId (out : AnalysisResult) (pageId : Nat) : AnalysisResult :=
  { out with
    maxPageId := if out.maxPageId = invalidPageId then pageId else max out.maxPageId pageId }

/-- The dirty table at a record that names a page. -/
def notePage (out : AnalysisResult) (record : DecodedRecord) : AnalysisResult :=
  if record.header.pageId = invalidPageId then out
  else
    let dirtyPages :=
      if record.type = .pageHandoff then out.dirtyPages.erase record.header.pageId
      else emplace out.dirtyPages record.header.pageId record.lsn
    { out with dirtyPages := dirtyPages }.notePageId record.header.pageId

/-- One entry of a checkpoint's active table. -/
def seedTxn (out : AnalysisResult) (t : Codecs.CheckpointActiveTxn) : AnalysisResult :=
  (out.noteTxn t.txnId.toNat .loser).noteUndoHead t.txnId.toNat t.lastUndoPtr.toNat

/-- One entry of a checkpoint's dirty table, whatever its recLSN. -/
def seedPage (out : AnalysisResult) (p : Codecs.CheckpointDirtyPage) : AnalysisResult :=
  { out with
    dirtyPages := emplace out.dirtyPages p.pageId.toNat p.recLsn.toNat }.notePageId p.pageId.toNat

end AnalysisResult

def analysisUndoPtrPageIdShift : Nat := 16

/-- What `DecodeUndoWrite` answers: it never leaves the payload. -/
def decodeUndoWrite (payload : Lib.Bytes) : StatusOr Codecs.DecodedUndoWrite :=
  Lib.Stays.settle (Codecs.decodeUndoWrite payload) Codecs.decodeUndoWrite_stays

/-- What `DecodeCheckpointBegin` answers, likewise. -/
def decodeCheckpointBegin (payload : Lib.Bytes) : StatusOr Codecs.DecodedCheckpointBegin :=
  Lib.Stays.settle (Codecs.decodeCheckpointBegin payload) Codecs.decodeCheckpointBegin_stays

/-- The chain head at an UNDO_WRITE. -/
def noteUndoWrite (out : AnalysisResult) (record : DecodedRecord) : StatusOr AnalysisResult :=
  if record.type = .undoWrite then do
    let decoded ← decodeUndoWrite record.payload
    .ok (out.noteUndoHead record.header.txnId
      (record.header.pageId * 2 ^ analysisUndoPtrPageIdShift + decoded.fields.offset.toNat))
  else .ok out

/-- What the record's type says about transactions and, at a checkpoint, about pages. -/
def noteType (out : AnalysisResult) (record : DecodedRecord) : StatusOr AnalysisResult :=
  match record.type with
  | .txnCommit => .ok (out.noteTxn record.header.txnId .winner)
  | .txnAbort => .ok (out.noteTxn record.header.txnId .aborted)
  | .checkpointBegin => do
    let decoded ← decodeCheckpointBegin record.payload
    let out := decoded.activeTxns.foldl AnalysisResult.seedTxn out
    .ok (decoded.dirtyPages.foldl AnalysisResult.seedPage out)
  | _ => .ok out

/-- `visit`. -/
def visitRecord (out : AnalysisResult) (record : DecodedRecord) : StatusOr AnalysisResult := do
  let out := out.noteTxn record.header.txnId .loser
  if record.type = .pageHandoff ∧ record.header.txnId ≠ noTxnId then
    .error (.corruption ("analysis: PAGE_HANDOFF at lsn " ++ toString record.lsn ++
      " carries txn " ++ toString record.header.txnId ++
      "; a handoff is an ownership event and belongs to no transaction"))
  else
    let out ← noteUndoWrite (out.notePage record) record
    noteType out record

-- `Analyze`

def countOutcome (transactions : NumMap TxnState) (outcome : TxnOutcome) : Nat :=
  transactions.entries.countP fun entry => entry.2.outcome = outcome

def analyze (dev : LogDevice) (coreId : Nat) (start : AnalysisStart) : StatusOr AnalysisResult := do
  let (scan, out) ← scanLog dev coreId visitRecord start.redoStartLsn
    { scanStartLsn := start.redoStartLsn }
  -- the anchor was published with the stream's durable end, so the scan has to reach it
  if start.anchorDurableLsn ≠ 0 ∧ scan.endLsn < start.anchorDurableLsn then
    .error (.corruption ("wal analysis: core " ++ toString coreId ++ "'s stream ends at lsn " ++
      toString scan.endLsn ++ ", before the durable point " ++ toString start.anchorDurableLsn ++
      " its checkpoint anchor was published with - records the anchor depends on are missing"))
  else
    .ok {
      out with
      endLsn := scan.endLsn
      stoppedEarly := scan.stoppedEarly
      records := scan.records
      redoStartLsn := redoStartFrom scan.endLsn out.dirtyPages
      winners := countOutcome out.transactions .winner
      aborted := countOutcome out.transactions .aborted
      losers := countOutcome out.transactions .loser }

end Kds.Wal
