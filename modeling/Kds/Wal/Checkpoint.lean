/-
  Kds.Wal.Checkpoint

  The checkpoint of one core: the dirty pages of a snapshot are flushed, then the superblock gets an
  anchor that tells the next mount where to start its redo (`src/wal/checkpointer.cpp`,
  `src/server/superblock_checkpoint_anchor.cpp`), over the writeback of the page store
  (`src/storage/device_page_store.cpp`) and a device with a write cache.

  A page is what the records logged for it have done to it.  Changes, drains and the steps of a
  checkpoint are tasks of one reactor, so each is one action here; where a device call of an action
  fails is an input of it, and a crash inside an action leaves the device as a failure there does.
  Left out: residency (a clean frame that is dropped is read back as it was written), the bytes of
  the free map, pages written in runs, and the log's own durability, which the END record's
  `EnsureDurable` settles before an anchor is written.
-/

import Kds.Lib.CachedDisk
import Kds.Lib.Run
import Mathlib.Data.List.Sort

namespace Kds.Wal

open Lib

-- Pages, frames, the device

def kSuperBlockPageId : Nat := 0

/-- A page: the records whose change it has, newest first, and on the superblock page the redo start
    of the anchor. -/
structure CheckpointImage where
  effects : List Nat := []
  anchor : Option Nat := none
  deriving DecidableEq

/-- `DevicePageStore::Frame`; `rec_lsn` 0 where no record describes the change. -/
structure CheckpointFrame where
  image : CheckpointImage := {}
  dirty : Bool := false
  recLsn : Nat := 0
  deriving DecidableEq

/-- A write as the device has it, with the recLSN that the frame had. -/
structure PageWrite where
  image : CheckpointImage
  recLsn : Nat
  deriving DecidableEq

/-- A checkpoint in progress: BEGIN's LSN, the redo start, and the pages of its snapshot that are
    not flushed yet. -/
structure CheckpointProgress where
  beginLsn : Nat
  redoStart : Nat
  pending : List Nat
  deriving DecidableEq

structure CheckpointState where
  lastLsn : Nat
  /-- The records that name a page, with that page, newest first. -/
  log : List (Nat × Nat)
  /-- The pages in a frame, by id. -/
  resident : List Nat
  frames : Nat → CheckpointFrame
  disk : CachedDisk Nat PageWrite
  checkpoint : Option CheckpointProgress

namespace CheckpointState

def setFrame (s : CheckpointState) (pageId : Nat) (frame : CheckpointFrame) : CheckpointState :=
  { s with
    resident := if pageId ∈ s.resident then s.resident
      else s.resident.orderedInsert (· ≤ ·) pageId
    frames := Function.update s.frames pageId frame }

-- Changes and writeback

/-- A page is changed, the change is logged, and `StampPageLsn` dirties the frame; the first record
    since the frame was last written back is its recLSN. -/
def change (s : CheckpointState) (pageId lsn : Nat) : CheckpointState :=
  let frame := s.frames pageId
  { s.setFrame pageId { frame with
      image := { frame.image with effects := lsn :: frame.image.effects }
      dirty := true
      recLsn := if frame.recLsn = 0 then lsn else frame.recLsn } with
    lastLsn := lsn
    log := (lsn, pageId) :: s.log }

/-- A change that no record describes. -/
def touch (s : CheckpointState) (pageId : Nat) : CheckpointState :=
  s.setFrame pageId { s.frames pageId with dirty := true }

/-- One page of `WriteBack`: the write is issued, and the frame is clean. -/
def writePage (s : CheckpointState) (pageId : Nat) : CheckpointState :=
  let frame := s.frames pageId
  { s with
    disk := s.disk.write pageId ⟨frame.image, frame.recLsn⟩
    frames := Function.update s.frames pageId { frame with dirty := false, recLsn := 0 } }

/-- What `WriteBack` writes of the pages asked for: the dirty frames, once each, by id. -/
def toWrite (s : CheckpointState) (pageIds : List Nat) : List Nat :=
  s.resident.filter fun p => p ∈ pageIds ∧ (s.frames p).dirty = true

def writePages (s : CheckpointState) (pageIds : List Nat) : CheckpointState :=
  pageIds.foldl writePage s

/-- The device sync. -/
def syncDisk (s : CheckpointState) : CheckpointState := { s with disk := s.disk.sync }

/-- Where the device calls of a flush end: the gate or a write fails after so many pages, the writes
    are out but the map flush or the sync fails, or all is well. -/
inductive FlushEnd where
  | writeFailed (taken : Nat)
  | syncFailed
  | done
  deriving DecidableEq

/-- `DrainDirtyEvictionQueue`: written back, never synced. -/
def drain (s : CheckpointState) (queued : List Nat) (taken : Nat) : CheckpointState :=
  s.writePages ((s.toWrite queued).take taken)

/-- `FlushPages`: where nothing was written, nothing is synced. -/
def flushPages (s : CheckpointState) (pageIds : List Nat) (mapsDirty : Bool) (e : FlushEnd) :
    CheckpointState × Bool :=
  let ordered := s.toWrite pageIds
  match e with
  | .writeFailed taken => (s.writePages (ordered.take taken), false)
  | .syncFailed => (s.writePages ordered, ordered.isEmpty && !mapsDirty)
  | .done =>
    if ordered.isEmpty && !mapsDirty then (s.writePages ordered, true)
    else ((s.writePages ordered).syncDisk, true)

/-- `DevicePageStore::Sync`: every dirty frame, and the device. -/
def syncStore (s : CheckpointState) (e : FlushEnd) : CheckpointState × Bool :=
  let ordered := s.toWrite s.resident
  match e with
  | .writeFailed taken => (s.writePages (ordered.take taken), false)
  | .syncFailed => (s.writePages ordered, false)
  | .done => ((s.writePages ordered).syncDisk, true)

-- The checkpoint

/-- `DirtyTable`. -/
def dirtyTable (s : CheckpointState) : List (Nat × Nat) :=
  (s.resident.filter fun p => (s.frames p).dirty).map fun p => (p, (s.frames p).recLsn)

/-- `RedoStartFrom`: a recLSN of 0 is skipped. -/
def redoStartOf (floorLsn : Nat) (dirty : List (Nat × Nat)) : Nat :=
  dirty.foldl (fun out page => if page.2 ≠ 0 then min out page.2 else out) floorLsn

/-- `Checkpointer::Start`, BEGIN logged. -/
def startCheckpoint (s : CheckpointState) (beginLsn : Nat) : CheckpointState :=
  { s with
    lastLsn := beginLsn
    checkpoint := some ⟨beginLsn, redoStartOf beginLsn s.dirtyTable, s.dirtyTable.map Prod.fst⟩ }

/-- `Checkpointer::Step`: the cursor moves where the batch is flushed. -/
def stepCheckpoint (s : CheckpointState) (c : CheckpointProgress) (pagesPerStep : Nat)
    (mapsDirty : Bool) (e : FlushEnd) : CheckpointState :=
  if c.pending = [] then s
  else
    let (s', flushed) := s.flushPages (c.pending.take pagesPerStep) mapsDirty e
    if flushed then
      { s' with checkpoint := some { c with pending := c.pending.drop pagesPerStep } }
    else s'

/-- `SuperBlockCheckpointAnchor::Publish`: into the superblock's frame, then `Sync`. -/
def publish (s : CheckpointState) (redoStart : Nat) (e : FlushEnd) : CheckpointState × Bool :=
  let frame := s.frames kSuperBlockPageId
  (s.setFrame kSuperBlockPageId { frame with
    image := { frame.image with anchor := some redoStart }
    dirty := true }).syncStore e

/-- How far `Complete` comes: END is logged and not durable, or the anchor is published. -/
inductive CompleteEnd where
  | notDurable
  | publish (e : FlushEnd)
  deriving DecidableEq

/-- `Checkpointer::Complete`, END logged. -/
def completeCheckpoint (s : CheckpointState) (c : CheckpointProgress) (endLsn : Nat) :
    CompleteEnd → CheckpointState
  | .notDurable => { s with lastLsn := endLsn }
  | .publish e =>
    let (s', published) := ({ s with lastLsn := endLsn } : CheckpointState).publish c.redoStart e
    if published then { s' with checkpoint := none } else s'

end CheckpointState

-- Runs

inductive CheckpointAction where
  | change (pageId lsn : Nat)
  | touch (pageId : Nat)
  | drain (queued : List Nat) (taken : Nat)
  | syncStore (e : CheckpointState.FlushEnd)
  | start (beginLsn : Nat)
  | step (pagesPerStep : Nat) (mapsDirty : Bool) (e : CheckpointState.FlushEnd)
  | complete (endLsn : Nat) (e : CheckpointState.CompleteEnd)
  deriving DecidableEq

/-- One action; LSNs grow, no record names the superblock page, and a checkpoint completes only
    when its pages are flushed. -/
def checkpointStep (s : CheckpointState) : CheckpointAction → Option CheckpointState
  | .change pageId lsn =>
    if s.lastLsn < lsn ∧ pageId ≠ kSuperBlockPageId then some (s.change pageId lsn) else none
  | .touch pageId => some (s.touch pageId)
  | .drain queued taken => some (s.drain queued taken)
  | .syncStore e => some (s.syncStore e).1
  | .start beginLsn =>
    if s.lastLsn < beginLsn ∧ s.checkpoint = none then some (s.startCheckpoint beginLsn) else none
  | .step pagesPerStep mapsDirty e =>
    match s.checkpoint with
    | none => none
    | some c => some (s.stepCheckpoint c pagesPerStep mapsDirty e)
  | .complete endLsn e =>
    match s.checkpoint with
    | none => none
    | some c =>
      if s.lastLsn < endLsn ∧ c.pending = [] then some (s.completeCheckpoint c endLsn e)
      else none

/-- A mounted store: nothing is dirty, and the device has what the log has. -/
structure Mounted (s : CheckpointState) : Prop where
  clean : ∀ p, (s.frames p).dirty = false ∧ (s.frames p).recLsn = 0
  synced : s.disk.unsynced = []
  frames : ∀ p, (s.frames p).image = (s.disk.durable p).image
  logged : ∀ lsn p, (lsn, p) ∈ s.log → lsn ∈ (s.disk.durable p).image.effects
  lsns : ∀ p, ∀ lsn ∈ (s.disk.durable p).image.effects, lsn ≤ s.lastLsn
  anchor : ∀ lsn, (s.disk.durable kSuperBlockPageId).image.anchor = some lsn → lsn ≤ s.lastLsn
  idle : s.checkpoint = none

/-- **No anchor that a crash may leave runs ahead of the data**: what the crash leaves of any page
    has every record before the anchor's redo start. -/
def AnchorBehind (s : CheckpointState) : Prop :=
  ∀ super redoStart, s.disk.Survives kSuperBlockPageId super →
    super.image.anchor = some redoStart → ∀ p left, s.disk.Survives p left →
      ∀ lsn, (lsn, p) ∈ s.log → lsn < redoStart → lsn ∈ left.image.effects

/-- No write that is still unsynced took a page with a recLSN before the redo start that is
    published. -/
def PublishesSynced (s : CheckpointState) : CheckpointAction → Prop
  | .complete _ (.publish _) => ∀ c, s.checkpoint = some c → ∀ w ∈ s.disk.unsynced,
      w.2.recLsn = 0 ∨ c.redoStart ≤ w.2.recLsn
  | _ => True

end Kds.Wal
