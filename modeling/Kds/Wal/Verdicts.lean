/-
  Kds.Wal.Verdicts

  What analysis finds out about transactions (`transactions_exact`): one has an entry exactly if a
  scanned record speaks of it, its outcome is the last terminal record's, and its undo chain starts
  at the last pointer named.
-/

import Kds.Wal.RedoStart

namespace Kds.Wal

open List

-- What records say

/-- What is said of a transaction: that it was there, how it ended, or its newest undo record. -/
structure Word where
  outcome : Option TxnOutcome := none
  ptr : Option Nat := none

/-- Words about the transaction `id`, heard for `txn`. -/
def heard (txn id : Nat) (words : List Word) : List Word :=
  if id = txn ∧ txn ≠ noTxnId then words else []

/-- A pointer to an undo record; zero is none. -/
def newestUndo (ptr : Nat) : List Word := if ptr = 0 then [] else [{ ptr := some ptr }]

/-- What a checkpoint's active table says. -/
def activeWords (txn : Nat) (active : List Codecs.CheckpointActiveTxn) : List Word :=
  active.flatMap fun t => heard txn t.txnId.toNat [{}] ++
    heard txn t.txnId.toNat (newestUndo t.lastUndoPtr.toNat)

/-- What a record says by its type. -/
def typeWords (txn : Nat) (r : DecodedRecord) : List Word :=
  match r.type with
  | .txnCommit => heard txn r.header.txnId [{ outcome := some .winner }]
  | .txnAbort => heard txn r.header.txnId [{ outcome := some .aborted }]
  | .undoWrite =>
    match decodeUndoWrite r.payload with
    | .ok decoded => heard txn r.header.txnId
        (newestUndo (r.header.pageId * 2 ^ analysisUndoPtrPageIdShift +
          decoded.fields.offset.toNat))
    | .error _ => []
  | .checkpointBegin =>
    match decodeCheckpointBegin r.payload with
    | .ok decoded => activeWords txn decoded.activeTxns
    | .error _ => []
  | _ => []

/-- All that a scan hears of a transaction, in order. -/
def wordsOf (txn : Nat) (records : List DecodedRecord) : List Word :=
  records.flatMap fun r => heard txn r.header.txnId [{}] ++ typeWords txn r

/-- **The verdict**: the last end that was heard of, a loser without one, and the last pointer. -/
def verdict (words : List Word) : Option TxnState :=
  if words = [] then none
  else some {
    outcome := (words.filterMap Word.outcome).getLast?.getD .loser
    lastUndoPtr := (words.filterMap Word.ptr).getLast?.getD 0 }

-- The table takes the words one by one

/-- What a word does to an entry. -/
def wordStep (entry : Option TxnState) (w : Word) : Option TxnState :=
  some { outcome := w.outcome.getD (entry.getD {}).outcome
         lastUndoPtr := w.ptr.getD (entry.getD {}).lastUndoPtr }

theorem foldl_wordStep (words : List Word) : words.foldl wordStep none = verdict words := by
  induction words using List.reverseRecOn with
  | nil => rfl
  | append_singleton words w ih =>
    have hne : words ++ [w] ≠ [] := by simp
    rw [foldl_append, ih, foldl_cons, foldl_nil]
    unfold verdict
    rw [if_neg hne, filterMap_append, filterMap_append]
    rcases w with ⟨_ | outcome, _ | ptr⟩ <;> cases words <;> simp [wordStep]

section

variable {out : AnalysisResult} {txn : Nat}

theorem lookup_noteTxn (id : Nat) (outcome : TxnOutcome) :
    (out.noteTxn id outcome).transactions.lookup txn =
      (heard txn id [{ outcome := if outcome = .loser then none else some outcome }]).foldl
        wordStep (out.transactions.lookup txn) := by
  rw [AnalysisResult.noteTxn, heard]
  by_cases hno : id = noTxnId
  · rw [if_pos hno, if_neg (by rintro ⟨rfl, hne⟩; exact hne hno)]
    rfl
  · rw [if_neg hno]
    dsimp only
    by_cases htxn : id = txn
    · subst htxn
      rw [if_pos ⟨rfl, hno⟩, foldl_cons, foldl_nil]
      cases hfound : out.transactions.lookup id with
      | none => cases outcome <;> exact AList.lookup_insert _
      | some state =>
        cases outcome with
        | loser => exact hfound
        | winner => exact AList.lookup_insert _
        | aborted => exact AList.lookup_insert _
    · rw [if_neg fun h => htxn h.1]
      split
      · exact AList.lookup_insert_ne (Ne.symm htxn)
      · split_ifs
        · exact AList.lookup_insert_ne (Ne.symm htxn)
        · rfl

theorem lookup_noteUndoHead (id ptr : Nat) :
    (out.noteUndoHead id ptr).transactions.lookup txn =
      (heard txn id (newestUndo ptr)).foldl wordStep (out.transactions.lookup txn) := by
  rw [AnalysisResult.noteUndoHead, heard, newestUndo]
  by_cases hnone : id = noTxnId ∨ ptr = 0
  · rw [if_pos hnone]
    split_ifs with htxn hptr
    · rfl
    · exact absurd (hnone.resolve_right hptr) (htxn.1 ▸ htxn.2)
    · rfl
  · rw [if_neg hnone, if_neg fun h => hnone (.inr h)]
    by_cases htxn : id = txn
    · subst htxn
      rw [if_pos ⟨rfl, fun h => hnone (.inl h)⟩]
      exact AList.lookup_insert _
    · rw [if_neg fun h => htxn h.1]
      exact AList.lookup_insert_ne (Ne.symm htxn)

theorem lookup_foldl_seedTxn (active : List Codecs.CheckpointActiveTxn) :
    (active.foldl AnalysisResult.seedTxn out).transactions.lookup txn =
      (activeWords txn active).foldl wordStep (out.transactions.lookup txn) := by
  induction active generalizing out with
  | nil => rfl
  | cons t active ih =>
    rw [foldl_cons, ih, AnalysisResult.seedTxn, lookup_noteUndoHead, lookup_noteTxn,
      activeWords, activeWords, flatMap_cons, foldl_append, foldl_append, if_pos rfl]

theorem foldl_seedPage_transactions (pages : List Codecs.CheckpointDirtyPage) :
    (pages.foldl AnalysisResult.seedPage out).transactions = out.transactions := by
  induction pages generalizing out with
  | nil => rfl
  | cons p pages ih => exact ih

/-- **One record**: the entry takes what the record says. -/
theorem transactions_visitRecord {out' : AnalysisResult} {r : DecodedRecord}
    (h : visitRecord out r = .ok out') :
    out'.transactions.lookup txn =
      (wordsOf txn [r]).foldl wordStep (out.transactions.lookup txn) := by
  have hseen : ((out.noteTxn r.header.txnId .loser).notePage r).transactions.lookup txn =
      (heard txn r.header.txnId [{}]).foldl wordStep (out.transactions.lookup txn) := by
    rw [AnalysisResult.notePage]
    split_ifs <;> exact lookup_noteTxn _ _
  rw [visitRecord] at h
  split_ifs at h
  rw [wordsOf, flatMap_singleton, foldl_append, ← hseen, typeWords]
  generalize (out.noteTxn r.header.txnId .loser).notePage r = seen at h
  obtain ⟨mid, hmid, h⟩ := bind_eq_ok.mp h
  rw [noteUndoWrite] at hmid
  rw [noteType] at h
  cases htype : r.type <;> rw [htype] at hmid h
  case undoWrite =>
    obtain ⟨decoded, hdecoded, hmid⟩ := bind_eq_ok.mp hmid
    cases hmid
    cases h
    rw [hdecoded, lookup_noteUndoHead]
  case checkpointBegin =>
    cases hmid
    obtain ⟨decoded, hdecoded, h⟩ := bind_eq_ok.mp h
    cases h
    rw [hdecoded, foldl_seedPage_transactions, lookup_foldl_seedTxn]
  all_goals
    cases hmid
    cases h
    first | rfl | exact lookup_noteTxn _ _

theorem transactions_foldlM {records : List DecodedRecord} {last : AnalysisResult}
    (h : records.foldlM visitRecord out = .ok last) :
    last.transactions.lookup txn =
      (wordsOf txn records).foldl wordStep (out.transactions.lookup txn) := by
  induction records generalizing out with
  | nil =>
    cases h
    rfl
  | cons r records ih =>
    rw [foldlM_cons] at h
    obtain ⟨mid, hmid, h⟩ := bind_eq_ok.mp h
    rw [ih h, transactions_visitRecord hmid, ← foldl_append]
    simp only [wordsOf, flatMap_cons, flatMap_nil, append_nil]

end

/-- **Analysis hears every transaction out.**  Over any device and from any start at which it
    succeeds, a transaction has an entry exactly if a scanned record speaks of it, a loser unless a
    commit or an abort was scanned, and then as the last of them says, its undo chain starting at
    the last pointer that an UNDO_WRITE or a checkpoint names. -/
theorem transactions_exact {dev : LogDevice} {coreId : Nat} {start : AnalysisStart}
    {res : AnalysisResult} (h : analyze dev coreId start = .ok res) (txn : Nat) :
    res.transactions.lookup txn =
      verdict (wordsOf txn (scannedRecords dev coreId start.redoStartLsn)) := by
  rw [analyze] at h
  obtain ⟨⟨scan, out⟩, hscan, h⟩ := bind_eq_ok.mp h
  dsimp only at h
  split_ifs at h
  cases h
  exact (transactions_foldlM (scanLog_spec hscan).1).trans (foldl_wordStep _)

/-- Transaction 6 runs when the checkpoint begins; transaction 7 writes an undo record and a row,
    and aborts. -/
def abortedRecords : List (RecordSpec × Codecs.Coded Lib.Bytes) :=
  [({ type := .checkpointBegin }, Codecs.encodeCheckpointBegin 128 [⟨6, 524289⟩] [⟨5, 4096⟩]),
    ({ type := .undoWrite, txnId := 7, pageId := 9 },
      Codecs.encodeUndoWrite 128 ⟨0, 0, 64, 3⟩ [1, 2, 3]),
    ({ type := .heapInsert, txnId := 7, pageId := 5 },
      Codecs.encodeHeapWrite 128 ⟨7, 0, 0, 8⟩ [1, 0, 0, 0, 0, 0, 0, 0]),
    ({ type := .txnAbort, txnId := 7 }, .ok [])]

def abortedLog : LogDevice := deviceOf abortedRecords (by decide +kernel)

/-- Transaction 6 is a loser with the checkpoint's pointer, and 7 has aborted with its own. -/
theorem transactions_exact_abort :
    ∃ res, analyze abortedLog 0 {} = .ok res ∧
      (res.transactions.lookup 6 = some ⟨.loser, 524289⟩ ∧
        res.transactions.lookup 7 =
          some ⟨.aborted, 9 * 2 ^ analysisUndoPtrPageIdShift + 64⟩) ∧
      res.transactions.lookup 6 = verdict (wordsOf 6 (scannedRecords abortedLog 0 0)) ∧
      res.transactions.lookup 7 = verdict (wordsOf 7 (scannedRecords abortedLog 0 0)) := by
  have hruns : (analyze abortedLog 0 {}).toOption.any (fun res => decide (
      res.transactions.lookup 6 = some ⟨.loser, 524289⟩ ∧ res.transactions.lookup 7 =
        some ⟨.aborted, 9 * 2 ^ analysisUndoPtrPageIdShift + 64⟩)) = true := by
    decide +kernel
  obtain ⟨res, hres, hstates⟩ := exists_analyze hruns
  exact ⟨res, hres, of_decide_eq_true hstates, transactions_exact hres 6, transactions_exact hres 7⟩

end Kds.Wal
