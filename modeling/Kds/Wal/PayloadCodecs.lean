/-
  Kds.Wal.PayloadCodecs

  The payload codecs (`include/kds/wal/payload.hpp`, `src/wal/payload.cpp`), one pair a payload: an
  encoder checks the fields it is given and lays them out, and a decoder checks the bytes it is
  given and answers fields and views of those bytes.

  An encoder is modelled by the bytes it stores, in the order of their offsets, into an output of
  `outSize` bytes. The length fields and the reserved fields it is given are not looked at.
-/

import Kds.Lib.Scalars
import Kds.Wal.Record

namespace Kds.Wal.Codecs

open Lib

/-- What a codec answers: outside the bytes, a read or a store is undefined. -/
abbrev Coded (α : Type) := Outcome Status α

def refuse {α : Type} (s : Status) : Coded α := .error (.refused s)

/-- `CheckOutputSize`. -/
def checkOutputSize (outSize needed : Nat) (what : String) : Coded Unit :=
  if outSize < needed then
    refuse (.invalidArgument ("wal payload: output buffer smaller than a " ++ what ++ " payload"))
  else .ok ()

/-- `CheckInputSize`. -/
def checkSize (bytes : Bytes) (needed : Nat) (what : String) : Coded Unit :=
  if bytes.length < needed then
    refuse (.corruption ("wal payload: " ++ what ++ " payload is " ++ toString bytes.length ++
      " bytes, needs " ++ toString needed))
  else .ok ()

/-- `CheckTxnId`. -/
def checkTxn (txnId : UInt64) (what : String) : Coded Unit :=
  if maxTxnId < txnId.toNat then
    refuse (.corruption ("wal payload: " ++ what ++
      " exceeds 48 bits (upper bits must be zero)"))
  else .ok ()

-- PAGE_INIT, PAGE_HANDOFF, ANCHOR_UPDATE

def kMaxKeystoneId : Nat := 2 ^ 40 - 1
def kMaxAssignedPageType : UInt8 := 14

/-- `IsKnownPageType`. -/
def isKnownPageType (raw : UInt8) : Bool := raw != 0 && raw ≤ kMaxAssignedPageType

/-- `struct PageInitPayload`, less the reserved bytes, which neither side reads. -/
structure PageInitPayload where
  minKey : UInt64
  pageType : UInt8
  ownerOid : UInt64
  deriving DecidableEq

/-- `EncodePageInit`. -/
def encodePageInit (outSize : Nat) (fields : PageInitPayload) : Coded Bytes := do
  checkOutputSize outSize 24 "PAGE_INIT"
  if kMaxKeystoneId < fields.minKey.toNat then
    refuse (.invalidArgument "wal payload: PAGE_INIT min_key exceeds the 40-bit id space")
  else if !isKnownPageType fields.pageType then
    refuse (.invalidArgument "wal payload: PAGE_INIT page_type is unassigned")
  else
    .ok (scalarBytes fields.minKey ++ (scalarBytes fields.pageType ++
      (List.replicate 3 0 ++ (scalarBytes (0 : UInt32) ++ scalarBytes fields.ownerOid))))

/-- `DecodePageInit`: a payload without the owner is accepted. -/
def decodePageInit (bytes : Bytes) : Coded PageInitPayload := do
  checkSize bytes 12 "PAGE_INIT"
  let minKey ← loadAt UInt64 bytes 0
  let pageType ← loadAt UInt8 bytes 8
  let ownerOid ← if 24 ≤ bytes.length then loadAt UInt64 bytes 16 else .ok 0
  if kMaxKeystoneId < minKey.toNat then
    refuse (.corruption "wal payload: PAGE_INIT min_key exceeds the 40-bit id space")
  else if !isKnownPageType pageType then
    refuse (.corruption ("wal payload: PAGE_INIT page_type " ++ toString pageType.toNat ++
      " is not known to this build"))
  else .ok { minKey := minKey, pageType := pageType, ownerOid := ownerOid }

structure PageHandoffPayload where
  incomingCore : UInt32
  deriving DecidableEq

/-- `EncodePageHandoff`. -/
def encodePageHandoff (outSize : Nat) (fields : PageHandoffPayload) : Coded Bytes := do
  checkOutputSize outSize 4 "PAGE_HANDOFF"
  .ok (scalarBytes fields.incomingCore)

/-- `DecodePageHandoff`. -/
def decodePageHandoff (bytes : Bytes) : Coded PageHandoffPayload := do
  checkSize bytes 4 "PAGE_HANDOFF"
  let incomingCore ← loadAt UInt32 bytes 0
  .ok { incomingCore := incomingCore }

structure AnchorUpdatePayload where
  indexOid : UInt64
  root : UInt32
  deriving DecidableEq

/-- `EncodeAnchorUpdate`. -/
def encodeAnchorUpdate (outSize : Nat) (fields : AnchorUpdatePayload) : Coded Bytes := do
  checkOutputSize outSize 12 "ANCHOR_UPDATE"
  .ok (scalarBytes fields.indexOid ++ scalarBytes fields.root)

/-- `DecodeAnchorUpdate`. -/
def decodeAnchorUpdate (bytes : Bytes) : Coded AnchorUpdatePayload := do
  checkSize bytes 12 "ANCHOR_UPDATE"
  let indexOid ← loadAt UInt64 bytes 0
  let root ← loadAt UInt32 bytes 8
  .ok { indexOid := indexOid, root := root }

-- HEAP_INSERT / HEAP_OVERWRITE, VARHEAP_APPEND, INDEX_INSERT

structure HeapWritePayload where
  trxId : UInt64
  undoPtr : UInt64
  slot : UInt16
  tupleLen : UInt16
  deriving DecidableEq

structure DecodedHeapWrite where
  fields : HeapWritePayload
  tuple : View
  deriving DecidableEq

/-- `EncodeHeapWrite`: the length is the tuple's own. -/
def encodeHeapWrite (outSize : Nat) (fields : HeapWritePayload) (tuple : Bytes) : Coded Bytes :=
  if 0xFFFF < tuple.length then
    refuse (.invalidArgument "wal payload: heap tuple longer than a uint16 length field")
  else do
    checkOutputSize outSize (20 + tuple.length) "heap write"
    if maxTxnId < fields.trxId.toNat then
      refuse (.invalidArgument "wal payload: heap write trx_id exceeds 48 bits")
    else
      .ok (scalarBytes fields.trxId ++ (scalarBytes fields.undoPtr ++ (scalarBytes fields.slot ++
        (scalarBytes (UInt16.ofNat tuple.length) ++ tuple))))

/-- `DecodeHeapWrite`. -/
def decodeHeapWrite (bytes : Bytes) : Coded DecodedHeapWrite := do
  checkSize bytes 20 "heap write"
  let trxId ← loadAt UInt64 bytes 0
  let undoPtr ← loadAt UInt64 bytes 8
  let slot ← loadAt UInt16 bytes 16
  let tupleLen ← loadAt UInt16 bytes 18
  checkTxn trxId "heap write trx_id"
  if bytes.length - 20 < tupleLen.toNat then
    refuse (.corruption "wal payload: heap write tuple_len runs past the payload")
  else
    let tuple ← subspan bytes 20 tupleLen.toNat
    .ok ⟨{ trxId := trxId, undoPtr := undoPtr, slot := slot, tupleLen := tupleLen }, tuple⟩

structure VarHeapAppendPayload where
  slot : UInt16
  reserved : UInt16
  valueLen : UInt32
  deriving DecidableEq

structure DecodedVarHeapAppend where
  fields : VarHeapAppendPayload
  value : View
  deriving DecidableEq

/-- `EncodeVarHeapAppend`. -/
def encodeVarHeapAppend (outSize : Nat) (fields : VarHeapAppendPayload) (value : Bytes) :
    Coded Bytes :=
  if 0xFFFFFFFF < value.length then
    refuse (.invalidArgument "wal payload: var-heap value longer than a uint32 length")
  else do
    checkOutputSize outSize (8 + value.length) "VARHEAP_APPEND"
    .ok (scalarBytes fields.slot ++ (scalarBytes (0 : UInt16) ++
      (scalarBytes (UInt32.ofNat value.length) ++ value)))

/-- `DecodeVarHeapAppend`. -/
def decodeVarHeapAppend (bytes : Bytes) : Coded DecodedVarHeapAppend := do
  checkSize bytes 8 "VARHEAP_APPEND"
  let slot ← loadAt UInt16 bytes 0
  let reserved ← loadAt UInt16 bytes 2
  let valueLen ← loadAt UInt32 bytes 4
  if bytes.length - 8 < valueLen.toNat then
    refuse (.corruption "wal payload: VARHEAP_APPEND value_len runs past the payload")
  else
    let value ← subspan bytes 8 valueLen.toNat
    .ok ⟨{ slot := slot, reserved := reserved, valueLen := valueLen }, value⟩

structure IndexInsertPayload where
  slot : UInt16
  entryLen : UInt16
  deriving DecidableEq

structure DecodedIndexInsert where
  fields : IndexInsertPayload
  entry : View
  deriving DecidableEq

/-- `EncodeIndexInsert`. -/
def encodeIndexInsert (outSize : Nat) (fields : IndexInsertPayload) (entry : Bytes) :
    Coded Bytes :=
  if entry.isEmpty ∨ 0xFFFF < entry.length then
    refuse (.invalidArgument
      "wal payload: INDEX_INSERT entry is empty or longer than a uint16 length")
  else do
    checkOutputSize outSize (4 + entry.length) "INDEX_INSERT"
    .ok (scalarBytes fields.slot ++ (scalarBytes (UInt16.ofNat entry.length) ++ entry))

/-- `DecodeIndexInsert`. -/
def decodeIndexInsert (bytes : Bytes) : Coded DecodedIndexInsert := do
  checkSize bytes 4 "INDEX_INSERT"
  let slot ← loadAt UInt16 bytes 0
  let entryLen ← loadAt UInt16 bytes 2
  if bytes.length - 4 < entryLen.toNat then
    refuse (.corruption "wal payload: INDEX_INSERT entry_len runs past the payload")
  else
    let entry ← subspan bytes 4 entryLen.toNat
    .ok ⟨{ slot := slot, entryLen := entryLen }, entry⟩

-- HEAP_DELETE_MARK, HEAP_DELETE_UNMARK, SLOT_RETIRE

structure HeapDeleteMarkPayload where
  trxId : UInt64
  slot : UInt16
  deriving DecidableEq

/-- `EncodeHeapDeleteMark`. -/
def encodeHeapDeleteMark (outSize : Nat) (fields : HeapDeleteMarkPayload) : Coded Bytes := do
  checkOutputSize outSize 10 "HEAP_DELETE_MARK"
  if maxTxnId < fields.trxId.toNat then
    refuse (.invalidArgument "wal payload: delete-mark trx_id exceeds 48 bits")
  else .ok (scalarBytes fields.trxId ++ scalarBytes fields.slot)

/-- `DecodeHeapDeleteMark`. -/
def decodeHeapDeleteMark (bytes : Bytes) : Coded HeapDeleteMarkPayload := do
  checkSize bytes 10 "HEAP_DELETE_MARK"
  let trxId ← loadAt UInt64 bytes 0
  let slot ← loadAt UInt16 bytes 8
  checkTxn trxId "delete-mark trx_id"
  .ok { trxId := trxId, slot := slot }

structure HeapDeleteUnmarkPayload where
  trxId : UInt64
  undoPtr : UInt64
  slot : UInt16
  deriving DecidableEq

/-- `EncodeHeapDeleteUnmark`. -/
def encodeHeapDeleteUnmark (outSize : Nat) (fields : HeapDeleteUnmarkPayload) : Coded Bytes := do
  checkOutputSize outSize 18 "HEAP_DELETE_UNMARK"
  if maxTxnId < fields.trxId.toNat then
    refuse (.invalidArgument "wal payload: delete-unmark trx_id exceeds 48 bits")
  else .ok (scalarBytes fields.trxId ++ (scalarBytes fields.undoPtr ++ scalarBytes fields.slot))

/-- `DecodeHeapDeleteUnmark`. -/
def decodeHeapDeleteUnmark (bytes : Bytes) : Coded HeapDeleteUnmarkPayload := do
  checkSize bytes 18 "HEAP_DELETE_UNMARK"
  let trxId ← loadAt UInt64 bytes 0
  let undoPtr ← loadAt UInt64 bytes 8
  let slot ← loadAt UInt16 bytes 16
  if maxTxnId < trxId.toNat then
    refuse (.corruption "wal payload: delete-unmark trx_id exceeds 48 bits")
  else .ok { trxId := trxId, undoPtr := undoPtr, slot := slot }

structure SlotRetirePayload where
  slot : UInt16
  deriving DecidableEq

/-- `EncodeSlotRetire`. -/
def encodeSlotRetire (outSize : Nat) (fields : SlotRetirePayload) : Coded Bytes := do
  checkOutputSize outSize 2 "SLOT_RETIRE"
  .ok (scalarBytes fields.slot)

/-- `DecodeSlotRetire`. -/
def decodeSlotRetire (bytes : Bytes) : Coded SlotRetirePayload := do
  checkSize bytes 2 "SLOT_RETIRE"
  let slot ← loadAt UInt16 bytes 0
  .ok { slot := slot }

def pageSize : Nat := 8192

-- UNDO_WRITE

structure UndoWritePayload where
  priorTrxId : UInt64
  priorUndoPtr : UInt64
  offset : UInt16
  tailLen : UInt16
  deriving DecidableEq

structure DecodedUndoWrite where
  fields : UndoWritePayload
  tail : View
  deriving DecidableEq

/-- `EncodeUndoWrite`. -/
def encodeUndoWrite (outSize : Nat) (fields : UndoWritePayload) (tail : Bytes) : Coded Bytes :=
  if 0xFFFF < tail.length then
    refuse (.invalidArgument "wal payload: undo record tail longer than a uint16 length field")
  else do
    checkOutputSize outSize (20 + tail.length) "UNDO_WRITE"
    if maxTxnId < fields.priorTrxId.toNat then
      refuse (.invalidArgument "wal payload: UNDO_WRITE prior_trx_id exceeds 48 bits")
    else if pageSize < fields.offset.toNat + tail.length then
      refuse (.invalidArgument "wal payload: UNDO_WRITE tail runs past the undo page")
    else
      .ok (scalarBytes fields.priorTrxId ++ (scalarBytes fields.priorUndoPtr ++
        (scalarBytes fields.offset ++ (scalarBytes (UInt16.ofNat tail.length) ++ tail))))

/-- `DecodeUndoWrite`. -/
def decodeUndoWrite (bytes : Bytes) : Coded DecodedUndoWrite := do
  checkSize bytes 20 "UNDO_WRITE"
  let priorTrxId ← loadAt UInt64 bytes 0
  let priorUndoPtr ← loadAt UInt64 bytes 8
  let offset ← loadAt UInt16 bytes 16
  let tailLen ← loadAt UInt16 bytes 18
  checkTxn priorTrxId "UNDO_WRITE prior_trx_id"
  if bytes.length - 20 < tailLen.toNat then
    refuse (.corruption "wal payload: UNDO_WRITE tail_len runs past the payload")
  else if pageSize < offset.toNat + tailLen.toNat then
    refuse (.corruption "wal payload: UNDO_WRITE tail runs past the undo page")
  else
    let tail ← subspan bytes 20 tailLen.toNat
    .ok ⟨{ priorTrxId := priorTrxId, priorUndoPtr := priorUndoPtr,
           offset := offset, tailLen := tailLen }, tail⟩

-- ALLOC / FREE, FULL_PAGE_IMAGE

structure PageRunPayload where
  nrPages : UInt32
  deriving DecidableEq

/-- `EncodePageRun`. -/
def encodePageRun (outSize : Nat) (fields : PageRunPayload) : Coded Bytes := do
  checkOutputSize outSize 4 "ALLOC/FREE"
  if fields.nrPages = 0 then
    refuse (.invalidArgument "wal payload: ALLOC/FREE of zero pages")
  else .ok (scalarBytes fields.nrPages)

/-- `DecodePageRun`. -/
def decodePageRun (bytes : Bytes) : Coded PageRunPayload := do
  checkSize bytes 4 "ALLOC/FREE"
  let nrPages ← loadAt UInt32 bytes 0
  if nrPages = 0 then refuse (.corruption "wal payload: ALLOC/FREE of zero pages")
  else .ok { nrPages := nrPages }

/-- `EncodeFullPageImage`; its page is a span of `kPageSize` bytes and no others. -/
def encodeFullPageImage (outSize : Nat) (page : Bytes) : Coded Bytes :=
  if page.length ≠ pageSize then .error .outOfRange
  else do
    checkOutputSize outSize pageSize "FULL_PAGE_IMAGE"
    .ok page

/-- `DecodeFullPageImage`. -/
def decodeFullPageImage (bytes : Bytes) : Coded View := do
  checkSize bytes pageSize "FULL_PAGE_IMAGE"
  subspan bytes 0 pageSize

-- CHECKPOINT_BEGIN, CHECKPOINT_END

structure CheckpointActiveTxn where
  txnId : UInt64
  lastUndoPtr : UInt64
  deriving DecidableEq

structure CheckpointDirtyPage where
  pageId : UInt32
  recLsn : UInt64
  deriving DecidableEq

structure DecodedCheckpointBegin where
  activeTxns : List CheckpointActiveTxn
  dirtyPages : List CheckpointDirtyPage
  deriving DecidableEq

def kInvalidPageId : UInt32 := 0xFFFFFFFF
def checkpointBeginFixedSize : Nat := 8
def activeTxnEntrySize : Nat := 16
def dirtyEntrySize : Nat := 12

/-- `CheckpointBeginSize`. -/
def checkpointBeginSize (txnCount dirtyCount : Nat) : Nat :=
  checkpointBeginFixedSize + txnCount * activeTxnEntrySize + dirtyCount * dirtyEntrySize

/-- The active transactions, each with an id that names one. -/
def checkActiveTxns : List CheckpointActiveTxn → Coded Unit
  | [] => .ok ()
  | entry :: entries =>
    if maxTxnId < entry.txnId.toNat then
      refuse (.invalidArgument "wal payload: CHECKPOINT_BEGIN txn_id exceeds 48 bits")
    else if entry.txnId = 0 then
      refuse (.invalidArgument "wal payload: CHECKPOINT_BEGIN lists txn_id 0")
    else checkActiveTxns entries

def activeTxnBytes (entry : CheckpointActiveTxn) : Bytes :=
  scalarBytes entry.txnId ++ scalarBytes entry.lastUndoPtr

def dirtyPageBytes (entry : CheckpointDirtyPage) : Bytes :=
  scalarBytes entry.pageId ++ scalarBytes entry.recLsn

/-- `EncodeCheckpointBegin`. -/
def encodeCheckpointBegin (outSize : Nat) (activeTxns : List CheckpointActiveTxn)
    (dirtyPages : List CheckpointDirtyPage) : Coded Bytes :=
  if 0xFFFFFFFF < activeTxns.length ∨ 0xFFFFFFFF < dirtyPages.length then
    refuse (.invalidArgument "wal payload: CHECKPOINT_BEGIN table longer than a uint32")
  else do
    checkOutputSize outSize (checkpointBeginSize activeTxns.length dirtyPages.length)
      "CHECKPOINT_BEGIN"
    checkActiveTxns activeTxns
    .ok (scalarBytes (UInt32.ofNat activeTxns.length) ++
      (scalarBytes (UInt32.ofNat dirtyPages.length) ++
        (activeTxns.flatMap activeTxnBytes ++ dirtyPages.flatMap dirtyPageBytes)))

/-- The active table: `count` entries from an offset on. -/
def decodeActiveTxns (bytes : Bytes) : Nat → Nat → Coded (List CheckpointActiveTxn)
  | _, 0 => .ok []
  | at_, count + 1 => do
    let txnId ← loadAt UInt64 bytes at_
    let lastUndoPtr ← loadAt UInt64 bytes (at_ + 8)
    checkTxn txnId "CHECKPOINT_BEGIN txn_id"
    let entries ← decodeActiveTxns bytes (at_ + activeTxnEntrySize) count
    .ok (⟨txnId, lastUndoPtr⟩ :: entries)

/-- The dirty table, likewise. -/
def decodeDirtyPages (bytes : Bytes) : Nat → Nat → Coded (List CheckpointDirtyPage)
  | _, 0 => .ok []
  | at_, count + 1 => do
    let pageId ← loadAt UInt32 bytes at_
    let recLsn ← loadAt UInt64 bytes (at_ + 4)
    if pageId = kInvalidPageId then
      refuse (.corruption
        "wal payload: CHECKPOINT_BEGIN dirty table names the invalid page id")
    else
      let entries ← decodeDirtyPages bytes (at_ + dirtyEntrySize) count
      .ok (⟨pageId, recLsn⟩ :: entries)

/-- `DecodeCheckpointBegin`. -/
def decodeCheckpointBegin (bytes : Bytes) : Coded DecodedCheckpointBegin := do
  checkSize bytes checkpointBeginFixedSize "CHECKPOINT_BEGIN"
  let txnCount ← loadAt UInt32 bytes 0
  let dirtyCount ← loadAt UInt32 bytes 4
  if bytes.length < checkpointBeginSize txnCount.toNat dirtyCount.toNat then
    refuse (.corruption "wal payload: CHECKPOINT_BEGIN counts run past the payload")
  else
    let activeTxns ← decodeActiveTxns bytes checkpointBeginFixedSize txnCount.toNat
    let dirtyPages ← decodeDirtyPages bytes
      (checkpointBeginFixedSize + txnCount.toNat * activeTxnEntrySize) dirtyCount.toNat
    .ok ⟨activeTxns, dirtyPages⟩

structure CheckpointEndPayload where
  redoStartLsn : UInt64
  deriving DecidableEq

/-- `EncodeCheckpointEnd`. -/
def encodeCheckpointEnd (outSize : Nat) (fields : CheckpointEndPayload) : Coded Bytes := do
  checkOutputSize outSize 8 "CHECKPOINT_END"
  .ok (scalarBytes fields.redoStartLsn)

/-- `DecodeCheckpointEnd`. -/
def decodeCheckpointEnd (bytes : Bytes) : Coded CheckpointEndPayload := do
  checkSize bytes 8 "CHECKPOINT_END"
  let redoStartLsn ← loadAt UInt64 bytes 0
  .ok { redoStartLsn := redoStartLsn }

-- ASSERT_RESERVE / ASSERT_BUILD, ASSERT_COMMIT, ASSERT_ROLLBACK, ASSERT_DROP

structure AssertEntryPayload where
  assertionId : UInt64
  index : UInt16
  entryLen : UInt16
  keyLen : UInt16
  reserved : UInt16
  groupId : UInt32
  deriving DecidableEq

structure DecodedAssertEntry where
  fields : AssertEntryPayload
  entry : View
  key : View
  deriving DecidableEq

/-- `EncodeAssertEntry`. -/
def encodeAssertEntry (outSize : Nat) (fields : AssertEntryPayload) (entry key : Bytes) :
    Coded Bytes :=
  if 0xFFFF < entry.length then
    refuse (.invalidArgument "wal payload: assert entry longer than a uint16 length")
  else if 0xFFFF < key.length then
    refuse (.invalidArgument "wal payload: assert group key longer than a uint16 length")
  else do
    checkOutputSize outSize (20 + entry.length + key.length) "ASSERT_RESERVE"
    .ok (scalarBytes fields.assertionId ++ (scalarBytes fields.index ++
      (scalarBytes (UInt16.ofNat entry.length) ++ (scalarBytes (UInt16.ofNat key.length) ++
        (scalarBytes (0 : UInt16) ++ (scalarBytes fields.groupId ++ (entry ++ key)))))))

/-- `DecodeAssertEntry`. -/
def decodeAssertEntry (bytes : Bytes) : Coded DecodedAssertEntry := do
  checkSize bytes 20 "ASSERT_RESERVE"
  let assertionId ← loadAt UInt64 bytes 0
  let index ← loadAt UInt16 bytes 8
  let entryLen ← loadAt UInt16 bytes 10
  let keyLen ← loadAt UInt16 bytes 12
  let reserved ← loadAt UInt16 bytes 14
  let groupId ← loadAt UInt32 bytes 16
  checkSize bytes (20 + (entryLen.toNat + keyLen.toNat)) "ASSERT_RESERVE"
  let entry ← subspan bytes 20 entryLen.toNat
  let key ← subspan bytes (20 + entryLen.toNat) keyLen.toNat
  .ok ⟨{ assertionId := assertionId, index := index, entryLen := entryLen, keyLen := keyLen,
         reserved := reserved, groupId := groupId }, entry, key⟩

structure AssertCommitPayload where
  assertionId : UInt64
  count : UInt16
  reserved : UInt16
  deriving DecidableEq

structure DecodedAssertCommit where
  fields : AssertCommitPayload
  indexes : View
  deriving DecidableEq

/-- `index_at`. -/
def DecodedAssertCommit.indexAt (d : DecodedAssertCommit) (bytes : Bytes) (i : Nat) :
    Coded UInt16 := loadAt UInt16 (d.indexes.of bytes) (i * 2)

/-- `EncodeAssertCommit`. -/
def encodeAssertCommit (outSize : Nat) (fields : AssertCommitPayload) (indexes : List UInt16) :
    Coded Bytes :=
  if 0xFFFF < indexes.length then
    refuse (.invalidArgument "wal payload: assert commit names more entries than a uint16 count")
  else do
    checkOutputSize outSize (12 + indexes.length * 2) "ASSERT_COMMIT"
    .ok (scalarBytes fields.assertionId ++ (scalarBytes (UInt16.ofNat indexes.length) ++
      (scalarBytes (0 : UInt16) ++ indexes.flatMap scalarBytes)))

/-- `DecodeAssertCommit`. -/
def decodeAssertCommit (bytes : Bytes) : Coded DecodedAssertCommit := do
  checkSize bytes 12 "ASSERT_COMMIT"
  let assertionId ← loadAt UInt64 bytes 0
  let count ← loadAt UInt16 bytes 8
  let reserved ← loadAt UInt16 bytes 10
  checkSize bytes (12 + count.toNat * 2) "ASSERT_COMMIT"
  let indexes ← subspan bytes 12 (count.toNat * 2)
  .ok ⟨{ assertionId := assertionId, count := count, reserved := reserved }, indexes⟩

structure AssertRollbackPayload where
  assertionId : UInt64
  delta : Int64
  index : UInt16
  keyLen : UInt16
  reserved : UInt32
  deriving DecidableEq

structure DecodedAssertRollback where
  fields : AssertRollbackPayload
  key : View
  deriving DecidableEq

/-- `EncodeAssertRollback`. -/
def encodeAssertRollback (outSize : Nat) (fields : AssertRollbackPayload) (key : Bytes) :
    Coded Bytes :=
  if 0xFFFF < key.length then
    refuse (.invalidArgument "wal payload: assert group key longer than a uint16 length")
  else do
    checkOutputSize outSize (24 + key.length) "ASSERT_ROLLBACK"
    .ok (scalarBytes fields.assertionId ++ (scalarBytes fields.delta ++
      (scalarBytes fields.index ++ (scalarBytes (UInt16.ofNat key.length) ++
        (scalarBytes (0 : UInt32) ++ key)))))

/-- `DecodeAssertRollback`. -/
def decodeAssertRollback (bytes : Bytes) : Coded DecodedAssertRollback := do
  checkSize bytes 24 "ASSERT_ROLLBACK"
  let assertionId ← loadAt UInt64 bytes 0
  let delta ← loadAt Int64 bytes 8
  let index ← loadAt UInt16 bytes 16
  let keyLen ← loadAt UInt16 bytes 18
  let reserved ← loadAt UInt32 bytes 20
  checkSize bytes (24 + keyLen.toNat) "ASSERT_ROLLBACK"
  let key ← subspan bytes 24 keyLen.toNat
  .ok ⟨{ assertionId := assertionId, delta := delta, index := index, keyLen := keyLen,
         reserved := reserved }, key⟩

structure AssertDropPayload where
  assertionId : UInt64
  deriving DecidableEq

/-- `EncodeAssertDrop`. -/
def encodeAssertDrop (outSize : Nat) (fields : AssertDropPayload) : Coded Bytes := do
  checkOutputSize outSize 8 "ASSERT_DROP"
  .ok (scalarBytes fields.assertionId)

/-- `DecodeAssertDrop`. -/
def decodeAssertDrop (bytes : Bytes) : Coded AssertDropPayload := do
  checkSize bytes 8 "ASSERT_DROP"
  let assertionId ← loadAt UInt64 bytes 0
  .ok { assertionId := assertionId }

-- ASSERT_SNAPSHOT

structure AssertSnapshotPayload where
  assertionId : UInt64
  groupCount : UInt32
  reserved : UInt32
  deriving DecidableEq

/-- `struct SnapshotGroupEntry`, over the bytes of its key or over a view of them. -/
structure SnapshotGroupEntry (Key : Type) where
  groupId : UInt32
  count : Int64
  sum : Int64
  key : Key
  deriving DecidableEq

structure DecodedAssertSnapshot where
  fields : AssertSnapshotPayload
  groups : List (SnapshotGroupEntry View)
  deriving DecidableEq

/-- `AssertSnapshotGroupBytes`. -/
def assertSnapshotGroupBytes (keyLen : Nat) : Nat := 24 + keyLen

def snapshotGroupBytes (group : SnapshotGroupEntry Bytes) : Bytes :=
  scalarBytes group.groupId ++ (scalarBytes (UInt32.ofNat group.key.length) ++
    (scalarBytes group.count ++ (scalarBytes group.sum ++ group.key)))

/-- `EncodeAssertSnapshot`. The total is a `size_t`, and wraps. -/
def encodeAssertSnapshot (outSize : Nat) (fields : AssertSnapshotPayload)
    (groups : List (SnapshotGroupEntry Bytes)) : Coded Bytes :=
  let total := 16 + (groups.map fun group => assertSnapshotGroupBytes group.key.length).sum
  if groups.any fun group => 0xFFFFFFFF < group.key.length then
    refuse (.invalidArgument "wal payload: assert snapshot group key longer than a uint32 length")
  else do
    checkOutputSize outSize (total % 2 ^ 64) "ASSERT_SNAPSHOT"
    if outSize < total then .error .outOfRange
    else
      .ok (scalarBytes fields.assertionId ++ (scalarBytes (UInt32.ofNat groups.length) ++
        (scalarBytes (0 : UInt32) ++ groups.flatMap snapshotGroupBytes)))

/-- The groups: `count` of them from an offset on. -/
def decodeSnapshotGroups (bytes : Bytes) : Nat → Nat → Coded (List (SnapshotGroupEntry View))
  | _, 0 => .ok []
  | at_, count + 1 => do
    checkSize bytes (at_ + 24) "ASSERT_SNAPSHOT"
    let groupId ← loadAt UInt32 bytes at_
    let keyLen ← loadAt UInt32 bytes (at_ + 4)
    let groupRows ← loadAt Int64 bytes (at_ + 8)
    let sum ← loadAt Int64 bytes (at_ + 16)
    checkSize bytes (at_ + 24 + keyLen.toNat) "ASSERT_SNAPSHOT"
    let key ← subspan bytes (at_ + 24) keyLen.toNat
    let groups ← decodeSnapshotGroups bytes (at_ + 24 + keyLen.toNat) count
    .ok (⟨groupId, groupRows, sum, key⟩ :: groups)

/-- `DecodeAssertSnapshot`. -/
def decodeAssertSnapshot (bytes : Bytes) : Coded DecodedAssertSnapshot := do
  checkSize bytes 16 "ASSERT_SNAPSHOT"
  let assertionId ← loadAt UInt64 bytes 0
  let groupCount ← loadAt UInt32 bytes 8
  let reserved ← loadAt UInt32 bytes 12
  if (bytes.length - 16) / 24 < groupCount.toNat then
    refuse (.corruption ("wal payload: ASSERT_SNAPSHOT claims " ++ toString groupCount.toNat ++
      " groups, more than its " ++ toString bytes.length ++ " bytes can hold"))
  else
    let groups ← decodeSnapshotGroups bytes 16 groupCount.toNat
    .ok ⟨{ assertionId := assertionId, groupCount := groupCount, reserved := reserved }, groups⟩

/-- A group with the bytes its key shows. -/
def SnapshotGroupEntry.resolve (bytes : Bytes) (group : SnapshotGroupEntry View) :
    SnapshotGroupEntry Bytes := ⟨group.groupId, group.count, group.sum, group.key.of bytes⟩

/-- The indexes of a commit, `count` of them from number `i` on. -/
def DecodedAssertCommit.readIndexes (d : DecodedAssertCommit) (bytes : Bytes) :
    Nat → Nat → Coded (List UInt16)
  | _, 0 => .ok []
  | i, count + 1 => do
    let index ← d.indexAt bytes i
    let indexes ← d.readIndexes bytes (i + 1) count
    .ok (index :: indexes)

-- Payloads

/-- What an encoder is given, for each payload. -/
inductive Payload where
  | pageInit (fields : PageInitPayload)
  | pageHandoff (fields : PageHandoffPayload)
  | anchorUpdate (fields : AnchorUpdatePayload)
  | heapWrite (fields : HeapWritePayload) (tuple : Bytes)
  | varHeapAppend (fields : VarHeapAppendPayload) (value : Bytes)
  | indexInsert (fields : IndexInsertPayload) (entry : Bytes)
  | heapDeleteMark (fields : HeapDeleteMarkPayload)
  | heapDeleteUnmark (fields : HeapDeleteUnmarkPayload)
  | slotRetire (fields : SlotRetirePayload)
  | undoWrite (fields : UndoWritePayload) (tail : Bytes)
  | pageRun (fields : PageRunPayload)
  | fullPageImage (page : Bytes)
  | checkpointBegin (activeTxns : List CheckpointActiveTxn)
      (dirtyPages : List CheckpointDirtyPage)
  | checkpointEnd (fields : CheckpointEndPayload)
  | assertEntry (fields : AssertEntryPayload) (entry key : Bytes)
  | assertCommit (fields : AssertCommitPayload) (indexes : List UInt16)
  | assertRollback (fields : AssertRollbackPayload) (key : Bytes)
  | assertDrop (fields : AssertDropPayload)
  | assertSnapshot (fields : AssertSnapshotPayload) (groups : List (SnapshotGroupEntry Bytes))
  deriving DecidableEq

inductive PayloadKind where
  | pageInit | pageHandoff | anchorUpdate | heapWrite | varHeapAppend | indexInsert
  | heapDeleteMark | heapDeleteUnmark | slotRetire | undoWrite | pageRun | fullPageImage
  | checkpointBegin | checkpointEnd | assertEntry | assertCommit | assertRollback | assertDrop
  | assertSnapshot
  deriving DecidableEq

/-- What a decoder answers. -/
inductive Decoded where
  | pageInit (fields : PageInitPayload)
  | pageHandoff (fields : PageHandoffPayload)
  | anchorUpdate (fields : AnchorUpdatePayload)
  | heapWrite (d : DecodedHeapWrite)
  | varHeapAppend (d : DecodedVarHeapAppend)
  | indexInsert (d : DecodedIndexInsert)
  | heapDeleteMark (fields : HeapDeleteMarkPayload)
  | heapDeleteUnmark (fields : HeapDeleteUnmarkPayload)
  | slotRetire (fields : SlotRetirePayload)
  | undoWrite (d : DecodedUndoWrite)
  | pageRun (fields : PageRunPayload)
  | fullPageImage (page : View)
  | checkpointBegin (d : DecodedCheckpointBegin)
  | checkpointEnd (fields : CheckpointEndPayload)
  | assertEntry (d : DecodedAssertEntry)
  | assertCommit (d : DecodedAssertCommit)
  | assertRollback (d : DecodedAssertRollback)
  | assertDrop (fields : AssertDropPayload)
  | assertSnapshot (d : DecodedAssertSnapshot)

namespace Payload

def kind : Payload → PayloadKind
  | .pageInit _ => .pageInit
  | .pageHandoff _ => .pageHandoff
  | .anchorUpdate _ => .anchorUpdate
  | .heapWrite _ _ => .heapWrite
  | .varHeapAppend _ _ => .varHeapAppend
  | .indexInsert _ _ => .indexInsert
  | .heapDeleteMark _ => .heapDeleteMark
  | .heapDeleteUnmark _ => .heapDeleteUnmark
  | .slotRetire _ => .slotRetire
  | .undoWrite _ _ => .undoWrite
  | .pageRun _ => .pageRun
  | .fullPageImage _ => .fullPageImage
  | .checkpointBegin _ _ => .checkpointBegin
  | .checkpointEnd _ => .checkpointEnd
  | .assertEntry _ _ _ => .assertEntry
  | .assertCommit _ _ => .assertCommit
  | .assertRollback _ _ => .assertRollback
  | .assertDrop _ => .assertDrop
  | .assertSnapshot _ _ => .assertSnapshot

def encode (outSize : Nat) : Payload → Coded Bytes
  | .pageInit fields => encodePageInit outSize fields
  | .pageHandoff fields => encodePageHandoff outSize fields
  | .anchorUpdate fields => encodeAnchorUpdate outSize fields
  | .heapWrite fields tuple => encodeHeapWrite outSize fields tuple
  | .varHeapAppend fields value => encodeVarHeapAppend outSize fields value
  | .indexInsert fields entry => encodeIndexInsert outSize fields entry
  | .heapDeleteMark fields => encodeHeapDeleteMark outSize fields
  | .heapDeleteUnmark fields => encodeHeapDeleteUnmark outSize fields
  | .slotRetire fields => encodeSlotRetire outSize fields
  | .undoWrite fields tail => encodeUndoWrite outSize fields tail
  | .pageRun fields => encodePageRun outSize fields
  | .fullPageImage page => encodeFullPageImage outSize page
  | .checkpointBegin activeTxns dirtyPages => encodeCheckpointBegin outSize activeTxns dirtyPages
  | .checkpointEnd fields => encodeCheckpointEnd outSize fields
  | .assertEntry fields entry key => encodeAssertEntry outSize fields entry key
  | .assertCommit fields indexes => encodeAssertCommit outSize fields indexes
  | .assertRollback fields key => encodeAssertRollback outSize fields key
  | .assertDrop fields => encodeAssertDrop outSize fields
  | .assertSnapshot fields groups => encodeAssertSnapshot outSize fields groups

/-- The payload with the fields that an encoder does not look at as it sets them: a length is its
    part's, and what is reserved is zero. -/
def written : Payload → Payload
  | .heapWrite fields tuple =>
    .heapWrite { fields with tupleLen := UInt16.ofNat tuple.length } tuple
  | .varHeapAppend fields value =>
    .varHeapAppend ⟨fields.slot, 0, UInt32.ofNat value.length⟩ value
  | .indexInsert fields entry => .indexInsert ⟨fields.slot, UInt16.ofNat entry.length⟩ entry
  | .undoWrite fields tail =>
    .undoWrite { fields with tailLen := UInt16.ofNat tail.length } tail
  | .assertEntry fields entry key =>
    .assertEntry ⟨fields.assertionId, fields.index, UInt16.ofNat entry.length,
      UInt16.ofNat key.length, 0, fields.groupId⟩ entry key
  | .assertCommit fields indexes =>
    .assertCommit ⟨fields.assertionId, UInt16.ofNat indexes.length, 0⟩ indexes
  | .assertRollback fields key =>
    .assertRollback { fields with keyLen := UInt16.ofNat key.length, reserved := 0 } key
  | .assertSnapshot fields groups =>
    .assertSnapshot ⟨fields.assertionId, UInt32.ofNat groups.length, 0⟩ groups
  | p => p

end Payload

/-- The decoder of a payload. -/
def decode : PayloadKind → Bytes → Coded Decoded
  | .pageInit, bytes => (decodePageInit bytes).map .pageInit
  | .pageHandoff, bytes => (decodePageHandoff bytes).map .pageHandoff
  | .anchorUpdate, bytes => (decodeAnchorUpdate bytes).map .anchorUpdate
  | .heapWrite, bytes => (decodeHeapWrite bytes).map .heapWrite
  | .varHeapAppend, bytes => (decodeVarHeapAppend bytes).map .varHeapAppend
  | .indexInsert, bytes => (decodeIndexInsert bytes).map .indexInsert
  | .heapDeleteMark, bytes => (decodeHeapDeleteMark bytes).map .heapDeleteMark
  | .heapDeleteUnmark, bytes => (decodeHeapDeleteUnmark bytes).map .heapDeleteUnmark
  | .slotRetire, bytes => (decodeSlotRetire bytes).map .slotRetire
  | .undoWrite, bytes => (decodeUndoWrite bytes).map .undoWrite
  | .pageRun, bytes => (decodePageRun bytes).map .pageRun
  | .fullPageImage, bytes => (decodeFullPageImage bytes).map .fullPageImage
  | .checkpointBegin, bytes => (decodeCheckpointBegin bytes).map .checkpointBegin
  | .checkpointEnd, bytes => (decodeCheckpointEnd bytes).map .checkpointEnd
  | .assertEntry, bytes => (decodeAssertEntry bytes).map .assertEntry
  | .assertCommit, bytes => (decodeAssertCommit bytes).map .assertCommit
  | .assertRollback, bytes => (decodeAssertRollback bytes).map .assertRollback
  | .assertDrop, bytes => (decodeAssertDrop bytes).map .assertDrop
  | .assertSnapshot, bytes => (decodeAssertSnapshot bytes).map .assertSnapshot

namespace Decoded

/-- The variable-length parts. -/
def views : Decoded → List View
  | .heapWrite d => [d.tuple]
  | .varHeapAppend d => [d.value]
  | .indexInsert d => [d.entry]
  | .undoWrite d => [d.tail]
  | .fullPageImage page => [page]
  | .assertEntry d => [d.entry, d.key]
  | .assertCommit d => [d.indexes]
  | .assertRollback d => [d.key]
  | .assertSnapshot d => d.groups.map SnapshotGroupEntry.key
  | _ => []

/-- The fields, with what the views show of the bytes that were decoded. -/
def payload (bytes : Bytes) : Decoded → Coded Payload
  | .pageInit fields => .ok (.pageInit fields)
  | .pageHandoff fields => .ok (.pageHandoff fields)
  | .anchorUpdate fields => .ok (.anchorUpdate fields)
  | .heapWrite d => .ok (.heapWrite d.fields (d.tuple.of bytes))
  | .varHeapAppend d => .ok (.varHeapAppend d.fields (d.value.of bytes))
  | .indexInsert d => .ok (.indexInsert d.fields (d.entry.of bytes))
  | .heapDeleteMark fields => .ok (.heapDeleteMark fields)
  | .heapDeleteUnmark fields => .ok (.heapDeleteUnmark fields)
  | .slotRetire fields => .ok (.slotRetire fields)
  | .undoWrite d => .ok (.undoWrite d.fields (d.tail.of bytes))
  | .pageRun fields => .ok (.pageRun fields)
  | .fullPageImage page => .ok (.fullPageImage (page.of bytes))
  | .checkpointBegin d => .ok (.checkpointBegin d.activeTxns d.dirtyPages)
  | .checkpointEnd fields => .ok (.checkpointEnd fields)
  | .assertEntry d => .ok (.assertEntry d.fields (d.entry.of bytes) (d.key.of bytes))
  | .assertCommit d => (d.readIndexes bytes 0 d.fields.count.toNat).map (.assertCommit d.fields)
  | .assertRollback d => .ok (.assertRollback d.fields (d.key.of bytes))
  | .assertDrop fields => .ok (.assertDrop fields)
  | .assertSnapshot d =>
    .ok (.assertSnapshot d.fields (d.groups.map (SnapshotGroupEntry.resolve bytes)))

end Decoded

/-- What reading a record's payload gives. -/
def readBack (kind : PayloadKind) (bytes : Bytes) : Coded Payload := do
  let d ← decode kind bytes
  d.payload bytes

end Kds.Wal.Codecs
