/-
  Kds.Wal.Record

  The log record envelope and the segment header (`include/kds/wal/record.hpp`,
  `src/wal/record.cpp`): their byte layout, how one is written, and the reader that walks a
  buffer of records until the bytes stop being a record that sits where it says it does.

  An LSN is a byte offset in the stream, so a record's position is part of what it says:
  `RecordReader.next` takes a record for one only if it is stamped with its own address.
  LSNs and page ids are natural numbers here, and bounded where they are read from bytes.
-/

import Kds.Base.Status
import Kds.Lib.Bytes
import Kds.Storage.Crc32c

namespace Kds.Wal

open Lib

def invalidPageId : Nat := 0xFFFFFFFF

/-- `enum class RecordType`; a byte past the assigned ones stays as it is. -/
inductive RecordType where
  | invalid | txnBegin | txnCommit | txnAbort | pageInit | heapInsert | heapOverwrite
  | heapDeleteMark | slotRetire | alloc | fullPageImage | checkpointBegin | checkpointEnd | pad
  | undoWrite | free | varHeapAppend | indexInsert | assertReserve | assertCommit
  | assertRollback | assertBuild | assertDrop | heapDeleteUnmark | assertSnapshot | pageHandoff
  | anchorUpdate
  | unassigned (raw : Nat)
  deriving DecidableEq

namespace RecordType

/-- The assigned types, in the order of their numbers. -/
def assigned : List RecordType :=
  [invalid, txnBegin, txnCommit, txnAbort, pageInit, heapInsert, heapOverwrite, heapDeleteMark,
    slotRetire, alloc, fullPageImage, checkpointBegin, checkpointEnd, pad, undoWrite, free,
    varHeapAppend, indexInsert, assertReserve, assertCommit, assertRollback, assertBuild,
    assertDrop, heapDeleteUnmark, assertSnapshot, pageHandoff, anchorUpdate]

/-- `static_cast<RecordType>(header.type)`. -/
def ofRaw (raw : Nat) : RecordType := assigned.getD raw (unassigned raw)

def toRaw : RecordType → Nat
  | unassigned raw => raw
  | t => assigned.idxOf t

/-- `IsAssignedRecordType`. -/
def isAssigned (t : RecordType) : Bool := t ≠ invalid && t.toRaw ≤ 26

end RecordType

/-- `struct RecordHeaderFields`. -/
structure RecordHeader where
  totalLen : Nat
  crc32c : Nat
  lsn : Nat
  txnId : Nat
  type : Nat
  flags : Nat
  reserved : Nat
  pageId : Nat
  deriving DecidableEq

/-- `struct DecodedRecord`: the payload keeps its padding. -/
structure DecodedRecord where
  header : RecordHeader
  payload : Bytes
  deriving DecidableEq

namespace DecodedRecord

def type (r : DecodedRecord) : RecordType := .ofRaw r.header.type

def lsn (r : DecodedRecord) : Nat := r.header.lsn

/-- Where the record after this one starts. -/
def nextLsn (r : DecodedRecord) : Nat := r.header.lsn + r.header.totalLen

end DecodedRecord

def recordHeaderSize : Nat := 32
def recordAlignment : Nat := 8
def recordCrcCoverageOffset : Nat := 8
def maxTxnId : Nat := 2 ^ 48 - 1
def noTxnId : Nat := 0

-- One record

/-- `struct RecordSpec`. -/
structure RecordSpec where
  type : RecordType
  txnId : Nat := noTxnId
  pageId : Nat := invalidPageId
  flags : Nat := 0

def alignUp (n : Nat) : Nat := (n + recordAlignment - 1) / recordAlignment * recordAlignment

/-- `EncodedRecordSize`. -/
def encodedRecordSize (payloadSize : Nat) : Nat := alignUp (recordHeaderSize + payloadSize)

/-- `EncodeRecord`, into a buffer of `outSize` bytes. -/
def encodeRecord (outSize : Nat) (spec : RecordSpec) (lsn : Nat) (payload : Bytes) :
    StatusOr Bytes :=
  let totalLen := encodedRecordSize payload.length
  if !spec.type.isAssigned then
    .error (.invalidArgument "wal record: unassigned record type")
  else if maxTxnId < spec.txnId then
    .error (.invalidArgument "wal record: txn_id exceeds 48 bits")
  else if 0xFFFFFFFF < totalLen then
    .error (.invalidArgument "wal record: payload too large for total_len")
  else if outSize < totalLen then
    .error (.invalidArgument "wal record: output buffer smaller than the record")
  else
    let covered := storeLE 8 lsn ++ storeLE 8 spec.txnId ++ storeLE 1 spec.type.toRaw ++
      storeLE 1 spec.flags ++ storeLE 2 0 ++ storeLE 4 spec.pageId ++ payload ++
      List.replicate (totalLen - recordHeaderSize - payload.length) 0
    .ok (storeLE 4 totalLen ++ storeLE 4 (Storage.crc32c covered) ++ covered)

/-- `DecodeRecord`. -/
def decodeRecord (bytes : Bytes) : StatusOr DecodedRecord :=
  if bytes.length < recordHeaderSize then
    .error (.corruption "wal record: fewer bytes than a header")
  else
    let totalLen := load 4 bytes 0
    if totalLen < recordHeaderSize ∨ totalLen % recordAlignment ≠ 0 ∨ bytes.length < totalLen then
      .error (.corruption "wal record: impossible total_len")
    else
      let storedCrc := load 4 bytes 4
      let computedCrc := Storage.crc32c
        ((bytes.drop recordCrcCoverageOffset).take (totalLen - recordCrcCoverageOffset))
      if storedCrc ≠ computedCrc then .error (.corruption "wal record: crc mismatch")
      else
        .ok {
          header := {
            totalLen := totalLen
            crc32c := storedCrc
            lsn := load 8 bytes 8
            txnId := load 8 bytes 16
            type := load 1 bytes 24
            flags := load 1 bytes 25
            reserved := load 2 bytes 26
            pageId := load 4 bytes 28 }
          payload := (bytes.drop recordHeaderSize).take (totalLen - recordHeaderSize) }

theorem decodeRecord_totalLen {bytes : Bytes} {r : DecodedRecord}
    (h : decodeRecord bytes = .ok r) :
    recordHeaderSize ≤ r.header.totalLen ∧ r.header.totalLen % recordAlignment = 0 ∧
      r.header.totalLen ≤ bytes.length := by
  rw [decodeRecord] at h
  dsimp only at h
  split_ifs at h with hshort himpossible hcrc
  cases h
  dsimp only
  omega

-- The reader

/-- `class RecordReader`: the bytes past the cursor, the stream offset of the cursor, and
    whether the walk ended on damage. -/
structure RecordReader where
  rest : Bytes
  pos : Nat
  stoppedEarly : Bool := false

/-- `RecordReader::Next`.  Zeroes are slack, an end; content that does not decode, or that is
    stamped for another address, is a torn tail. -/
def RecordReader.next (reader : RecordReader) : Option DecodedRecord × RecordReader :=
  if reader.rest = [] then (none, reader)
  else if (reader.rest.take recordHeaderSize).all (· = 0) then (none, reader)
  else
    match decodeRecord reader.rest with
    | .error _ => (none, { reader with stoppedEarly := true })
    | .ok record =>
      if record.header.lsn ≠ reader.pos then (none, { reader with stoppedEarly := true })
      else
        (some record, {
          rest := reader.rest.drop record.header.totalLen
          pos := reader.pos + record.header.totalLen
          stoppedEarly := reader.stoppedEarly })

/-- What a successful read says: the record sits where it claims, takes at least a header and a
    whole number of words, and the cursor stands right past it. -/
theorem RecordReader.next_some {reader reader' : RecordReader} {record : DecodedRecord}
    (h : reader.next = (some record, reader')) :
    record.lsn = reader.pos ∧ recordHeaderSize ≤ record.header.totalLen ∧
      record.header.totalLen % recordAlignment = 0 ∧
      record.header.totalLen ≤ reader.rest.length ∧
      reader' = ⟨reader.rest.drop record.header.totalLen, record.nextLsn, reader.stoppedEarly⟩ := by
  rw [RecordReader.next] at h
  have hempty : ¬ reader.rest = [] := fun he => by rw [if_pos he] at h; cases h
  rw [if_neg hempty] at h
  have hslack : ¬ (reader.rest.take recordHeaderSize).all (· = 0) = true := fun hs => by
    rw [if_pos hs] at h; cases h
  rw [if_neg hslack] at h
  split at h
  · cases h
  · next r hdecode =>
    have hlsn : ¬ r.header.lsn ≠ reader.pos := fun hl => by rw [if_pos hl] at h; cases h
    rw [if_neg hlsn] at h
    obtain ⟨hrecord, hreader⟩ := Prod.mk.inj h
    obtain rfl := Option.some.inj hrecord
    obtain ⟨hmin, halign, hmax⟩ := decodeRecord_totalLen hdecode
    have hpos : r.header.lsn = reader.pos := not_not.mp hlsn
    refine ⟨hpos, hmin, halign, hmax, ?_⟩
    rw [← hreader, DecodedRecord.nextLsn, hpos]

-- Segment headers

/-- `struct SegmentHeaderFields`. -/
structure SegmentHeader where
  magic : Nat
  formatVersion : Nat
  coreId : Nat
  segmentNo : Nat
  startLsn : Nat
  crc32c : Nat
  deriving DecidableEq

def segmentHeaderSize : Nat := 4096
def segmentCrcOffset : Nat := 32
def segmentMagic : Nat := 0x314C41575344584B
def segmentFormatVersion : Nat := 2
def minReadableSegmentFormatVersion : Nat := 2

/-- `EncodeSegmentHeader`, the whole header block. -/
def encodeSegmentHeader (coreId segmentNo : Nat) (startLsn : Nat) : Bytes :=
  let covered := storeLE 8 segmentMagic ++ storeLE 4 segmentFormatVersion ++ storeLE 4 coreId ++
    storeLE 8 segmentNo ++ storeLE 8 startLsn
  covered ++ storeLE 4 (Storage.crc32c covered) ++
    List.replicate (segmentHeaderSize - segmentCrcOffset - 4) 0

/-- `DecodeSegmentHeader`. -/
def decodeSegmentHeader (bytes : Bytes) : StatusOr SegmentHeader :=
  if bytes.length < segmentHeaderSize then
    .error (.corruption "wal segment: fewer bytes than a header block")
  else
    let magic := load 8 bytes 0
    if magic ≠ segmentMagic then .error (.corruption "wal segment: magic mismatch")
    else
      let storedCrc := load 4 bytes segmentCrcOffset
      if storedCrc ≠ Storage.crc32c (bytes.take segmentCrcOffset) then
        .error (.corruption "wal segment: header crc mismatch")
      else
        let formatVersion := load 4 bytes 8
        if formatVersion = 0 ∨ segmentFormatVersion < formatVersion then
          .error (.corruption ("wal segment: format_version " ++ toString formatVersion ++
            " is not supported by this build"))
        else if formatVersion < minReadableSegmentFormatVersion then
          .error (.corruption ("wal segment: format_version " ++ toString formatVersion ++
            " predates this build's record layout and cannot be read; the oldest readable is " ++
            toString minReadableSegmentFormatVersion))
        else
          .ok {
            magic := magic
            formatVersion := formatVersion
            coreId := load 4 bytes 12
            segmentNo := load 8 bytes 16
            startLsn := load 8 bytes 24
            crc32c := storedCrc }

end Kds.Wal
