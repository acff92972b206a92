/-
  Kds.Wal.PageRecord

  Pages as the log sees them, the records that name one, and what replaying a record does to the
  page it names (the appliers of `src/wal/redo.cpp`, `src/txn/undo_page.cpp`).

  An undo page is its header and its bytes; a heap page its slots (`Kds.Storage.HeapPage`).  The
  appliers of the remaining record types (variable heap, index, anchor) are carried by the record.
  A record that names a page of another class is refused here, where the source reads that page's
  bytes as its own.  Left out: the link to the next page, checksums, and the payload codecs.
-/

import Kds.Storage.BtreePage
import Kds.Txn.UndoLog
import Mathlib.Logic.Function.Basic

namespace Kds.Wal

open Lib Storage

-- Undo pages

def kUndoRecordsOffset : Nat := 56
def kUndoRecordHeaderSize : Nat := 44

/-- An undo page: its header, and the bytes of the page by offset. -/
structure UndoPage where
  initialized : Bool
  nrRecords : Nat
  lower : Nat
  firstTrxId : Nat
  prevPageId : Nat
  bytes : Nat → UInt8

namespace UndoPage

/-- `FormatPage`: a zeroed page under the common header. -/
def zeroed : UndoPage := ⟨false, 0, 0, 0, 0, fun _ => 0⟩

/-- `FormatUndoPage`. -/
def format (firstTrxId prevPageId : Nat) : StatusOr UndoPage :=
  if maxTrxId < firstTrxId then
    .error (.invalidArgument ("first_trx_id " ++ toString firstTrxId ++
      " exceeds the 48-bit transaction id space"))
  else .ok { zeroed with
    initialized := true
    lower := kUndoRecordsOffset
    firstTrxId := firstTrxId
    prevPageId := prevPageId }

def typeCode : Txn.UndoRecordType → Nat
  | .overwrite => 1
  | .deleteMark => 2
  | .insert => 3

/-- `WriteRecordHeader` and the image behind it. -/
def recordBytes (v : Txn.UndoVersion) : Bytes :=
  storeLE 8 v.priorTrxId ++ storeLE 8 v.priorUndoPtr ++ storeLE 4 v.targetPageId ++
    storeLE 2 v.targetSlot ++ storeLE 2 v.image.length ++ storeLE 1 (typeCode v.type) ++
    storeLE 1 0 ++ storeLE 2 0 ++ storeLE 8 v.txnPrevUndoPtr ++ storeLE 8 v.pk ++ v.image

/-- `UndoPtrIsPlausible`. -/
def undoPtrIsPlausible (ptr : Nat) : StatusOr Unit :=
  let offset := ptr % 2 ^ 16
  if ptr / 2 ^ 48 ≠ 0 then
    .error (.corruption ("undo_ptr " ++ toString ptr ++ " has nonzero bits above 48"))
  else if ptr / 2 ^ 16 = 0 then
    .error (.corruption "undo_ptr names page 0, which is the superblock")
  else if offset < kUndoRecordsOffset ∨ pageSize - kUndoRecordHeaderSize < offset then
    .error (.corruption ("undo_ptr offset " ++ toString offset ++
      " lies outside the record area"))
  else .ok ()

/-- `CheckRecord`: what the append and the redo path both refuse. -/
def checkRecord (v : Txn.UndoVersion) : StatusOr Unit :=
  if Txn.maxUndoImageLen < v.image.length then
    .error (.invalidArgument ("undo image of " ++ toString v.image.length ++
      " bytes exceeds the " ++ toString Txn.maxUndoImageLen ++ "-byte page capacity"))
  else if maxTrxId < v.priorTrxId then
    .error (.invalidArgument ("prior_trx_id " ++ toString v.priorTrxId ++
      " exceeds the 48-bit transaction id space"))
  else do
    if v.priorUndoPtr ≠ Txn.noUndoPtr then undoPtrIsPlausible v.priorUndoPtr
    if v.type ≠ .overwrite ∧ v.image ≠ [] then
      .error (.invalidArgument ("an undo record of type " ++ toString (typeCode v.type) ++
        " carries no before-image"))

/-- Bytes laid into the page from an offset on. -/
def write (bytes : Nat → UInt8) (offset : Nat) (new : Bytes) : Nat → UInt8 :=
  fun i => if offset ≤ i then new.getD (i - offset) (bytes i) else bytes i

def need (v : Txn.UndoVersion) : Nat := kUndoRecordHeaderSize + v.image.length

/-- `UndoPageAppend`. -/
def append (page : UndoPage) (v : Txn.UndoVersion) : StatusOr (UndoPage × Nat) := do
  checkRecord v
  if page.initialized = false then .error (.corruption "undo page is not initialized")
  else if page.lower < kUndoRecordsOffset ∨ pageSize < page.lower then
    .error (.corruption ("undo page lower " ++ toString page.lower ++ " is outside the page"))
  else if pageSize - page.lower < need v then
    .error (.outOfSpace ("undo page has " ++ toString (pageSize - page.lower) ++
      " bytes free, needs " ++ toString (need v)))
  else .ok ({ page with
    bytes := write page.bytes page.lower (recordBytes v)
    lower := page.lower + need v
    nrRecords := page.nrRecords + 1 }, page.lower)

/-- `UndoPageWriteAt`: the header moves only where the write extends the page. -/
def writeAt (page : UndoPage) (offset : Nat) (v : Txn.UndoVersion) : StatusOr UndoPage := do
  checkRecord v
  if offset < kUndoRecordsOffset then
    .error (.corruption ("undo record offset " ++ toString offset ++
      " is inside the page header"))
  -- an offset past the page wraps
  else if (2 ^ 64 + pageSize - offset) % 2 ^ 64 < need v then
    .error (.corruption ("undo record at " ++ toString offset ++ " needs " ++
      toString (need v) ++ " bytes and runs past the page"))
  else
    let written := { page with bytes := write page.bytes offset (recordBytes v) }
    if page.lower < offset + need v then
      .ok { written with
        lower := offset + need v
        nrRecords := page.nrRecords + 1
        initialized := true }
    else .ok written

end UndoPage

-- Pages

/-- The page types that a PAGE_INIT formats in a way of their own; the rest get the common
    header. -/
inductive PageType where
  | heap | btreeLeaf | undo
  | other (raw : Nat)
  deriving DecidableEq

/-- What a page holds: nothing yet, slots (under either heap type), undo records, or the body of
    another class. -/
inductive PageBody where
  | zero
  | heap (type : PageType) (ownerOid : Nat) (page : HeapPage)
  | undo (page : UndoPage)
  | other (raw ownerOid : Nat)

/-- A page with its `page_lsn` and its stream stamp. -/
structure Page where
  lsn : Nat
  stamp : Nat
  body : PageBody

def streamStampFor (coreId : Nat) : Nat := coreId + 1

def stampIsForeign (stamp coreId : Nat) : Bool := stamp ≠ 0 && stamp ≠ streamStampFor coreId

/-- What a record says of the page that it names. -/
inductive RecordBody where
  | pageInit (type : PageType) (minKey ownerOid : Nat)
  | heapInsert (slot : Nat) (tuple : Bytes) (trxId undoPtr : Nat)
  | heapOverwrite (slot : Nat) (tuple : Bytes) (trxId undoPtr : Nat)
  | heapDeleteMark (slot trxId : Nat)
  | heapDeleteUnmark (slot trxId undoPtr : Nat)
  | slotRetire (slot : Nat)
  | undoWrite (offset : Nat) (version : Txn.UndoVersion)
  | fullPageImage (image : Page)
  /-- A record type whose applier is modelled elsewhere. -/
  | other (apply : PageBody → StatusOr PageBody)
  /-- `TouchesNoPage`, or a record that names no page. -/
  | noPage
  /-- A record of an assertion. -/
  | assertion

structure PageRecord where
  lsn : Nat
  pageId : Nat
  body : RecordBody

-- The appliers

def maxKeystoneId : Nat := 2 ^ 40 - 1

/-- `ApplyPageInit`: heap pages and leaves with their low key, every other class through the
    common header alone. -/
def applyPageInit (type : PageType) (minKey ownerOid : Nat) : StatusOr PageBody :=
  match type with
  | .heap | .btreeLeaf =>
    if maxKeystoneId < minKey then
      .error (.invalidArgument "min_key exceeds 40-bit tuple id range")
    else .ok (.heap type ownerOid { minKey := minKey, freeSpace := Btree.emptyFreeSpace })
  | .undo => .ok (.undo .zeroed)
  | .other raw => .ok (.other raw ownerOid)

/-- A change of the slots of a heap page. -/
def onHeap (body : PageBody) (f : HeapPage → StatusOr HeapPage) : StatusOr PageBody :=
  match body with
  | .heap type ownerOid page => (f page).map (.heap type ownerOid)
  | _ => .error (.corruption "the record is not this page's")

def onUndo (body : PageBody) (f : UndoPage → StatusOr UndoPage) : StatusOr PageBody :=
  match body with
  | .undo page => (f page).map .undo
  | _ => .error (.corruption "the record is not this page's")

/-- The switch over the record types of `Redo`, less the full page image. -/
def applyBody (body : PageBody) : RecordBody → StatusOr PageBody
  | .pageInit type minKey ownerOid => applyPageInit type minKey ownerOid
  | .heapInsert slot tuple trxId undoPtr =>
    onHeap body fun page => page.redoWriteTuple slot tuple trxId undoPtr
  | .heapOverwrite slot tuple trxId undoPtr =>
    onHeap body fun page => page.redoWriteTuple slot tuple trxId undoPtr
  | .heapDeleteMark slot trxId => onHeap body fun page => page.deleteMark slot trxId
  | .heapDeleteUnmark slot trxId undoPtr =>
    onHeap body fun page => page.clearDeleteMark slot trxId undoPtr
  | .slotRetire slot => onHeap body fun page => page.applySlotRetire slot
  | .undoWrite offset version => onUndo body fun page => page.writeAt offset version
  | .fullPageImage image => .ok image.body
  | .other apply => apply body
  | .noPage | .assertion => .ok body

end Kds.Wal
