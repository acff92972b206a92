/-
  Kds.Wal.Stream

  The append side of the log (`src/wal/stream.cpp`): records are staged in a ring, written to the
  current segment by `Flush` and made durable by `Sync`; a segment that has no room is sealed with a
  PAD, where one fits, and the next is created and headered.

  The device is what reads answer and what has reached the platter (`src/wal/file_log_device.cpp`);
  creating a segment is durable when it returns.  Device calls do not fail here, except that no
  segment is created past what a 64-bit position can address.
-/

import Kds.Wal.RecordCodec

namespace Kds.Wal

open Lib List

-- The device

/-- Bytes laid over a segment from an offset on; nothing past its end. -/
def overlay (segment : Bytes) (offset : Nat) (bytes : Bytes) : Bytes :=
  segment.take offset ++ bytes.take (segment.length - offset) ++
    segment.drop (offset + bytes.length)

theorem length_overlay (segment : Bytes) (offset : Nat) (bytes : Bytes) :
    (overlay segment offset bytes).length = segment.length := by
  unfold overlay
  rw [length_append, length_append, length_take, length_take, length_drop]
  omega

namespace LogDevice

/-- `CreateSegment`: in order, of full size, zeroed. -/
def createSegment (dev : LogDevice) (segmentNo : Nat) : StatusOr LogDevice :=
  if segmentNo ≠ dev.segmentCount then
    .error (.invalidArgument ("FileLogDevice: segments are created in order (expected " ++
      toString dev.segmentCount ++ ", got " ++ toString segmentNo ++ ")"))
  else if h : (dev.segments.length + 1) * dev.segmentSize < 2 ^ 64 then
    .ok {
      segmentSize := dev.segmentSize
      segments := dev.segments ++ [List.replicate dev.segmentSize 0]
      sized := by
        intro s hs
        rcases Lib.mem_snoc.mp hs with hold | rfl
        · exact dev.sized s hold
        · rw [length_replicate]
      addressable := by
        rw [length_append, length_singleton]
        exact h }
  else .error (.outOfSpace "FileLogDevice: posix_fallocate")

/-- What a write leaves in a segment. -/
def overlayAt (dev : LogDevice) (segmentNo offset : Nat) (bytes : Bytes) : LogDevice where
  segmentSize := dev.segmentSize
  segments := dev.segments.modify segmentNo fun segment => overlay segment offset bytes
  sized := by
    intro s hs
    obtain ⟨i, hi, rfl⟩ := mem_iff_getElem.mp hs
    have hi' : i < dev.segments.length := by
      rw [length_modify] at hi
      exact hi
    rw [getElem_modify]
    split_ifs
    · rw [length_overlay]
      exact dev.sized _ (getElem_mem hi')
    · exact dev.sized _ (getElem_mem hi')
  addressable := by
    rw [length_modify]
    exact dev.addressable

/-- `WriteAt`. -/
def writeAt (dev : LogDevice) (segmentNo offset : Nat) (bytes : Bytes) : StatusOr LogDevice := do
  checkSegmentRange segmentNo offset bytes.length dev.segmentCount dev.segmentSize
  .ok (dev.overlayAt segmentNo offset bytes)

end LogDevice

/-- A device with what reads answer and what has reached the platter, and both as they stood before
    each of its calls. -/
structure LogDisk where
  content : LogDevice
  platter : LogDevice
  past : List (LogDevice × LogDevice)

namespace LogDisk

/-- The moments up to now. -/
def moments (disk : LogDisk) : List (LogDevice × LogDevice) :=
  disk.past ++ [(disk.content, disk.platter)]

/-- The moments since the device stood as it did. -/
def momentsSince (disk earlier : LogDisk) : List (LogDevice × LogDevice) :=
  disk.moments.drop earlier.past.length

/-- The directory is synced before the call returns. -/
def createSegment (disk : LogDisk) (segmentNo : Nat) : StatusOr LogDisk := do
  let content ← disk.content.createSegment segmentNo
  let platter ← disk.platter.createSegment segmentNo
  .ok ⟨content, platter, disk.moments⟩

def writeAt (disk : LogDisk) (segmentNo offset : Nat) (bytes : Bytes) : StatusOr LogDisk := do
  let content ← disk.content.writeAt segmentNo offset bytes
  .ok ⟨content, disk.platter, disk.moments⟩

def sync (disk : LogDisk) : LogDisk := ⟨disk.content, disk.content, disk.moments⟩

end LogDisk

-- The stream

def kMinRingCapacity : Nat := 64 * 1024

structure WalStream where
  coreId : Nat
  ringCapacity : Nat
  disk : LogDisk
  ring : Bytes
  appendLsn : Nat
  durableLsn : Nat
  sealed : Bool

namespace WalStream

def segmentSize (s : WalStream) : Nat := s.disk.content.segmentSize

def segmentCount (s : WalStream) : Nat := s.disk.content.segmentCount

def ringFree (s : WalStream) : Nat := s.ringCapacity - s.ring.length

def flushedLsn (s : WalStream) : Nat := s.appendLsn - s.ring.length

/-- `SegmentRemaining`: an offset of 0 is one past the end of a full segment. -/
def segmentRemaining (s : WalStream) : Nat :=
  let offset := s.appendLsn % s.segmentSize
  if offset = 0 then 0 else s.segmentSize - offset

/-- `StartSegment`. -/
def startSegment (s : WalStream) (segmentNo : Nat) : StatusOr WalStream := do
  let created ← s.disk.createSegment segmentNo
  let disk ← created.writeAt segmentNo 0
    (encodeSegmentHeader s.coreId segmentNo (segmentNo * s.segmentSize))
  .ok { s with
    disk := disk
    appendLsn := segmentNo * s.segmentSize + segmentHeaderSize
    ring := []
    sealed := false }

/-- `ScanTail`. -/
def scanTail (s : WalStream) (segmentNo : Nat) : StatusOr WalStream := do
  let read ← readSegment s.disk.content s.coreId segmentNo segmentHeaderSize
  .ok { s with
    appendLsn :=
      if read.sealed then segmentNo * s.segmentSize + s.segmentSize
      else recordsEnd (segmentNo * s.segmentSize + segmentHeaderSize) read.records
    ring := []
    sealed := read.sealed }

/-- `WalStream::Open`: whatever is on the device is durable. -/
def openOn (dev : LogDevice) (coreId ringCapacity : Nat) : StatusOr WalStream :=
  if ringCapacity < kMinRingCapacity then
    .error (.invalidArgument ("WalStream: ring capacity " ++ toString ringCapacity ++
      " is below the " ++ toString kMinRingCapacity ++ "-byte minimum"))
  else if dev.segmentSize ≤ segmentHeaderSize + recordHeaderSize then
    .error (.invalidArgument ("WalStream: segment size " ++ toString dev.segmentSize ++
      " leaves no room for records after the header block"))
  else if dev.segmentSize % recordAlignment ≠ 0 then
    .error (.invalidArgument ("WalStream: segment size " ++ toString dev.segmentSize ++
      " is not a multiple of the record alignment"))
  else do
    let s : WalStream := ⟨coreId, ringCapacity, ⟨dev, dev, []⟩, [], 0, 0, false⟩
    let s ← (if dev.segmentCount = 0 then s.startSegment 0 else s.scanTail (dev.segmentCount - 1))
    .ok { s with durableLsn := s.appendLsn }

/-- `Flush`: one write into one segment. -/
def flush (s : WalStream) : StatusOr WalStream :=
  if s.ring = [] then .ok s
  else do
    let disk ← s.disk.writeAt (s.flushedLsn / s.segmentSize) (s.flushedLsn % s.segmentSize) s.ring
    .ok { s with disk := disk, ring := [] }

/-- A record is encoded into the ring. -/
def stage (s : WalStream) (spec : RecordSpec) (payload : Bytes) : StatusOr WalStream := do
  let bytes ← encodeRecord s.ringFree spec s.appendLsn payload
  .ok { s with ring := s.ring ++ bytes, appendLsn := s.appendLsn + bytes.length }

/-- The PAD of `Seal`, where the tail has room for one. -/
def stagePad (s : WalStream) : StatusOr WalStream :=
  if s.segmentRemaining < recordHeaderSize then .ok s
  else do
    let s ← (if s.ringFree < recordHeaderSize then s.flush else .ok s)
    s.stage { type := .pad } []

/-- `Seal`. -/
def sealSegment (s : WalStream) : StatusOr WalStream :=
  if s.sealed then .ok s
  else do
    let s ← s.stagePad
    let s ← s.flush
    .ok { s with sealed := true }

/-- `Roll`: numbered from the device. -/
def roll (s : WalStream) : StatusOr WalStream := do
  let s ← s.flush
  s.startSegment s.segmentCount

/-- `Append`, and the LSN it returns. -/
def appendRecord (s : WalStream) (spec : RecordSpec) (payload : Bytes) :
    StatusOr (WalStream × Nat) :=
  let total := encodedRecordSize payload.length
  if s.segmentSize - segmentHeaderSize < total then
    .error (.invalidArgument ("WalStream: record of " ++ toString total ++
      " bytes cannot fit a segment; records never span segments"))
  else if s.ringCapacity < total then
    .error (.invalidArgument ("WalStream: record of " ++ toString total ++
      " bytes is larger than the ring"))
  else do
    let s ← (if s.sealed ∨ s.segmentRemaining < total then s.sealSegment >>= roll else .ok s)
    if s.ringFree < total then
      .error (.outOfSpace ("WalStream: ring full (" ++ toString s.ring.length ++ "/" ++
        toString s.ringCapacity ++ " bytes staged)"))
    else do
      let s' ← s.stage spec payload
      .ok (s', s.appendLsn)

/-- `Append`, of a record that a caller hands to the log. -/
def append (s : WalStream) (entry : LogEntry) : StatusOr (WalStream × Nat) :=
  s.appendRecord entry.spec entry.payload

/-- `Sync`. -/
def sync (s : WalStream) : StatusOr WalStream := do
  let s ← s.flush
  .ok { s with disk := s.disk.sync, durableLsn := s.flushedLsn }

end WalStream

-- Calls

/-- A call of a stream's owner, who may append a record of any type. -/
inductive StreamOp where
  | append (entry : LogEntry)
  | flush
  | sync

/-- One call, and the record it places in the stream. -/
def WalStream.call (s : WalStream) : StreamOp → StatusOr (WalStream × List DecodedRecord)
  | .append entry => (s.append entry).map fun out =>
    (out.1, [recordOf entry.spec out.2 entry.payload])
  | .flush => s.flush.map fun out => (out, [])
  | .sync => s.sync.map fun out => (out, [])

/-- Calls one after another, and the records they place. -/
def WalStream.calls (s : WalStream) : List StreamOp → StatusOr (WalStream × List DecodedRecord)
  | [] => .ok (s, [])
  | op :: ops => do
    let (s, placed) ← s.call op
    let (s, later) ← s.calls ops
    .ok (s, placed ++ later)

/-- What an append of so many bytes leaves when it fails: where its record did not fit the current
    segment, that one is sealed, and the next one started if it could be. -/
def WalStream.afterRefused (s : WalStream) (total : Nat) : WalStream :=
  if s.segmentSize - segmentHeaderSize < total ∨ s.ringCapacity < total then s
  else if s.sealed ∨ s.segmentRemaining < total then
    match s.sealSegment with
    | .error _ => s
    | .ok s' =>
      match s'.roll with
      | .error _ => s'
      | .ok s'' => s''
  else s

def WalStream.afterFailed (s : WalStream) (entry : LogEntry) : WalStream :=
  s.afterRefused entry.size

/-- An append that was answered: what was appended, and the LSN returned. -/
structure Appended where
  args : LogEntry
  lsn : Nat

/-- The record that reading it back answers. -/
def Appended.record (a : Appended) : DecodedRecord := recordOf a.args.spec a.lsn a.args.payload

/-- One call, answered or refused: the stream after it, and what it appended. -/
def WalStream.make (s : WalStream) : StreamOp → WalStream × List Appended
  | .append args =>
    match s.appendRecord args.spec args.payload with
    | .ok (s', lsn) => (s', [⟨args, lsn⟩])
    | .error _ => (s.afterRefused (encodedRecordSize args.payload.length), [])
  | .flush =>
    match s.flush with
    | .ok s' => (s', [])
    | .error _ => (s, [])
  | .sync =>
    match s.sync with
    | .ok s' => (s', [])
    | .error _ => (s, [])

/-- Calls one after another, and what they appended. -/
def WalStream.makeAll (s : WalStream) : List StreamOp → WalStream × List Appended
  | [] => (s, [])
  | call :: calls =>
    let (s, appended) := s.make call
    let (s, later) := s.makeAll calls
    (s, appended ++ later)

/-- The records that a scan from the start hands out. -/
def scanned (dev : LogDevice) (coreId : Nat) : StatusOr (List DecodedRecord) :=
  (scanLog dev coreId (fun records r => .ok (records ++ [r])) 0 []).map Prod.snd

end Kds.Wal
