/-
  Kds.Storage.BufferPool

  The page store over a device (`src/storage/device_page_store.cpp`): frames with their pins and
  usage counters, the clock sweep and the scan ring that drop them, and the write-back that the log
  gates.  Which ids exist is `PageAlloc`'s; a store without a lease is core 0's.

  What the devices answer is an input of each call.  Pages that left for the device are kept with
  the log's durable point at that moment; no code reads that record.

  Left out: the refresh of a leased store's maps from what other cores have flushed, the counters,
  the pin ceiling and the poisoned frames of debug builds, and the log lines.
-/

import Kds.Lib.CachedCell
import Kds.Storage.PageAllocStore
import Kds.Storage.PageHeader
import Kds.Wal.Manager
import Mathlib.Data.List.AList
import Mathlib.Data.List.Dedup
import Mathlib.Data.List.Sort

namespace Kds.Storage.Pool

open Lib PageAlloc

-- The device, frames, the store

structure PageDevice where
  pageCapacity : Nat
  pages : PageId → Page

/-- What the devices answer during a call: to growing and reading maps, to reading a page, to a
    write that begins at a page and how many pages of it landed all the same, to the sync of the
    pages, and to the sync of the log. -/
structure PoolAnswers where
  alloc : PageAlloc.Answers
  read : PageId → Option Status
  write : PageId → Option (Status × Nat)
  syncPages : Option Status
  syncLog : Option Status

/-- `DevicePageStore::Frame`. -/
structure Frame where
  bytes : Page
  dirty : Bool
  usage : Nat
  pins : Nat
  recLsn : Nat

/-- A page as it left for the device, with the log's durable point at that moment. -/
structure DeviceWrite where
  pageId : PageId
  image : Page
  headered : Bool
  durableLsn : Nat

def kClockUsageCap : Nat := 5
def kWritebackRunPages : Nat := 8

/-- `PageType`, the values read here. -/
def kFreeMapType : Nat := 7
def kHeaderlessMapType : Nat := 8
def kCabinBoundType : Nat := 13

structure DevicePageStore where
  maps : PageAlloc.Store
  /-- The map pages that the device had at the mount. -/
  mapPages : PageAlloc.Device
  /-- Every extent the lease was ever granted. -/
  granted : List Extent
  faultGrants : List Extent
  writeRights : List PageId
  systemPageLimit : PageId
  coreId : Nat
  frames : AList fun _ : PageId => Frame
  device : PageDevice
  dirtyEvictionQueue : List PageId
  clockHand : PageId
  firstEvictablePageId : PageId
  frameBudget : Nat
  written : List DeviceWrite

/-- `StreamStampFor`. -/
def streamStampFor (coreId : Nat) : Nat := (coreId + 1) % 2 ^ 16

/-- A bitmap as its page: the header that `FormatFreeMapPage` writes, and the bits. -/
def mapImage (pageType : Nat) (bits : Bitmap) : Page :=
  (⟨storeLE 1 pageType ++ [1] ++ List.replicate 30 0 ++
      (List.range kPageBodySize).map fun i => UInt8.ofNat (bits i).toNat, by
    simp only [List.length_append, length_storeLE, List.length_replicate, List.length_map,
      List.length_range, List.length_singleton]
    rfl⟩ : Page).stampPageChecksum

namespace DevicePageStore

-- Ids and rights

def inExtents (extents : List Extent) (pageId : PageId) : Bool :=
  extents.any fun e => e.first ≤ pageId ∧ pageId < e.first + e.count

/-- `LeasedIdSource::Owns`. -/
def owns (s : DevicePageStore) (pageId : PageId) : Bool := inExtents s.granted pageId

/-- `IsAllocated`. -/
def isAllocated (s : DevicePageStore) (pageId : PageId) : Bool :=
  if kMaxPageCount ≤ pageId then false
  else (s.maps.lease.isSome && s.owns pageId) || s.maps.isAllocated pageId

/-- `IsHeaderless`. -/
def isHeaderless (s : DevicePageStore) (pageId : PageId) : Bool :=
  !isMapPageId pageId &&
    (freeMapIsAllocated (s.maps.headerlessMapBytesFor pageId) (freeMapBitIndexOf pageId) &&
      s.isAllocated pageId)

/-- `MayFault`. -/
def mayFault (s : DevicePageStore) (pageId : PageId) : Bool :=
  s.maps.lease.isNone || pageId < s.systemPageLimit || s.owns pageId ||
    inExtents s.faultGrants pageId || s.writeRights.contains pageId

/-- `MayWrite`. -/
def mayWrite (s : DevicePageStore) (pageId : PageId) : Bool :=
  s.maps.lease.isNone ||
    (s.systemPageLimit ≤ pageId && (s.owns pageId || s.writeRights.contains pageId))

/-- `StampIfHeadered`. -/
def stampIfHeadered (s : DevicePageStore) (pageId : PageId) (page : Page) : Page :=
  if s.isHeaderless pageId then page else page.stampPageChecksum

-- Frames

def setFrame (s : DevicePageStore) (pageId : PageId) (frame : Frame) : DevicePageStore :=
  { s with frames := s.frames.insert pageId frame }

def dropFrame (s : DevicePageStore) (pageId : PageId) : DevicePageStore :=
  { s with frames := s.frames.erase pageId }

/-- A resident frame is changed in place; an absent one is left alone. -/
def modifyFrame (s : DevicePageStore) (pageId : PageId) (f : Frame → Frame) : DevicePageStore :=
  match s.frames.lookup pageId with
  | none => s
  | some frame => s.setFrame pageId (f frame)

/-- `InsertFrame`. -/
def insertFrame (s : DevicePageStore) (pageId : PageId) (bytes : Page) (dirty warm : Bool) :
    DevicePageStore :=
  s.setFrame pageId ⟨bytes, dirty, if warm then 1 else 0, 0, 0⟩

def pinFrame (s : DevicePageStore) (pageId : PageId) : DevicePageStore :=
  s.modifyFrame pageId fun frame => { frame with pins := frame.pins + 1 }

/-- `UnpinFrame`: saturating. -/
def unpinFrame (s : DevicePageStore) (pageId : PageId) : DevicePageStore :=
  s.modifyFrame pageId fun frame => { frame with pins := frame.pins - 1 }

def markFrameDirty (s : DevicePageStore) (pageId : PageId) : DevicePageStore :=
  s.modifyFrame pageId fun frame => { frame with dirty := true }

/-- `IsPinnedClass`. -/
def isPinnedClass (s : DevicePageStore) (pageId : PageId) : Bool :=
  pageId < s.firstEvictablePageId || isMapPageId pageId ||
    match s.frames.lookup pageId with
    | none => false
    | some frame =>
      [kCabinBoundType, kFreeMapType, kHeaderlessMapType].contains frame.bytes.rawPageType

-- The clock sweep

/-- One turn of `EvictColdFrames`; whether it reclaimed a frame. -/
def sweepFrame (s : DevicePageStore) (pageId : PageId) : DevicePageStore × Bool :=
  match s.frames.lookup pageId with
  | none => (s, false)
  | some frame =>
    if frame.pins ≠ 0 then (s, false)
    else if s.isPinnedClass pageId then (s, false)
    else if frame.usage ≠ 0 then
      (s.setFrame pageId { frame with usage := frame.usage - 1 }, false)
    else if frame.dirty then
      ({ s with dirtyEvictionQueue :=
          if s.dirtyEvictionQueue.contains pageId then s.dirtyEvictionQueue
          else s.dirtyEvictionQueue ++ [pageId] }, false)
    else ({ s.dropFrame pageId with clockHand := pageId + 1 }, true)

/-- The turns of a sweep, until the budget is reclaimed. -/
def sweep (s : DevicePageStore) (budget : Nat) : List PageId → Nat → DevicePageStore × Nat
  | [], reclaimed => (s, reclaimed)
  | pageId :: rest, reclaimed =>
    if reclaimed < budget then
      match s.sweepFrame pageId with
      | (s', true) => s'.sweep budget rest (reclaimed + 1)
      | (s', false) => s'.sweep budget rest reclaimed
    else (s, reclaimed)

/-- The resident ids from the hand on and around, once for each count a usage counter can have and
    once more. -/
def sweepOrder (s : DevicePageStore) : List PageId :=
  let order := s.frames.keys.insertionSort (· ≤ ·)
  let first := (order.takeWhile (· < s.clockHand)).length
  (List.replicate (kClockUsageCap + 1) (order.drop first ++ order.take first)).flatten

/-- `EvictColdFrames`. -/
def evictColdFrames (s : DevicePageStore) (budget : Nat) : DevicePageStore × Nat :=
  s.sweep budget s.sweepOrder 0

/-- `EvictClean`: all of them, or none. -/
def evictClean (s : DevicePageStore) (pageIds : List PageId) : DevicePageStore × Option Status :=
  let refused := pageIds.findSome? fun id =>
    match s.frames.lookup id with
    | none => none
    | some frame =>
      if frame.dirty then some (Status.invalidArgument ("DevicePageStore: page " ++ toString id ++
        " is dirty; evicting it would discard a write"))
      else if frame.pins ≠ 0 then some (Status.invalidArgument ("DevicePageStore: page " ++
        toString id ++ " is pinned by " ++ toString frame.pins ++
        " reference(s); evicting it would dangle them"))
      else none
  match refused with
  | some e => (s, some e)
  | none => (pageIds.foldl dropFrame s, none)

-- Reading

/-- The stream stamp that a claim goes by: the frame's, or that of a verified page on the device. -/
def stampFound (s : DevicePageStore) (answers : PoolAnswers) (pageId : PageId) : Option Nat :=
  match s.frames.lookup pageId with
  | some frame => some frame.bytes.getPageStreamStamp
  | none =>
    if s.device.pageCapacity ≤ pageId || (answers.read pageId).isSome then none
    else match (s.device.pages pageId).verifyPageChecksum with
      | .error _ => none
      | .ok _ => some (s.device.pages pageId).getPageStreamStamp

/-- `TryClaimByStamp`: a page that this stream stamped is this core's to write. -/
def tryClaimByStamp (s : DevicePageStore) (answers : PoolAnswers) (pageId : PageId) :
    DevicePageStore :=
  if kMaxPageCount ≤ pageId || s.isHeaderless pageId then s
  else if s.stampFound answers pageId = some (streamStampFor s.coreId) then
    { s with writeRights := pageId :: s.writeRights }
  else s

/-- What `ResidentBytes` checks of a page read off the device. -/
def checkRead (s : DevicePageStore) (pageId : PageId) (bytes : Page) : StatusOr Unit :=
  if s.isHeaderless pageId then .ok ()
  else if bytes.isAllZero then
    .error (.notFound ("DevicePageStore: page " ++ toString pageId ++
      " is allocated but was never written (all zero)"))
  else bytes.verifyPageChecksum

/-- The inline sweep of a fault past the budget, the frame just inserted under a pin. -/
def sweepExcess (s : DevicePageStore) (pageId : PageId) : DevicePageStore :=
  if s.frameBudget ≠ 0 ∧ s.frameBudget < s.frames.keys.length then
    ((s.pinFrame pageId).evictColdFrames (s.frames.keys.length - s.frameBudget)).1.unpinFrame pageId
  else s

/-- The miss path of `ResidentBytes`. -/
def faultBytes (s : DevicePageStore) (answers : PoolAnswers) (pageId : PageId)
    (markDirty bumpUsage : Bool) : DevicePageStore × StatusOr Page :=
  if s.device.pageCapacity ≤ pageId then
    (s, .error (.notFound ("DevicePageStore: page " ++ toString pageId ++
      " is allocated but was never written (beyond device capacity " ++
      toString s.device.pageCapacity ++ ")")))
  else
    match answers.read pageId with
    | some e => (s, .error e)
    | none =>
      let bytes := s.device.pages pageId
      match s.checkRead pageId bytes with
      | .error e => (s, .error e)
      | .ok _ => ((s.insertFrame pageId bytes markDirty bumpUsage).sweepExcess pageId, .ok bytes)

/-- Whether the check that applies would refuse a leased store's access. -/
def wouldRefuse (s : DevicePageStore) (pageId : PageId) (markDirty : Bool) : Bool :=
  s.maps.lease.isSome && s.systemPageLimit ≤ pageId &&
    !(if markDirty then s.mayWrite pageId else s.mayFault pageId)

/-- The claim that `ResidentBytes` tries where a check would refuse. -/
def claimIfRefused (s : DevicePageStore) (answers : PoolAnswers) (pageId : PageId)
    (markDirty : Bool) : DevicePageStore :=
  if s.wouldRefuse pageId markDirty then s.tryClaimByStamp answers pageId else s

/-- `ResidentBytes` after the claim. -/
def accessBytes (s : DevicePageStore) (answers : PoolAnswers) (pageId : PageId)
    (markDirty bumpUsage : Bool) : DevicePageStore × StatusOr Page :=
  if markDirty && !s.mayWrite pageId then
    (s, .error (.invalidArgument ("DevicePageStore: core " ++ toString s.coreId ++
      " may not write page " ++ toString pageId ++
      (if pageId < s.systemPageLimit then
        "; the system range has one writer, the system core"
      else "; it is not from this core's extent lease, carries no write grant, and " ++
        "its stream stamp does not name this core (a relation fault grant " ++
        "conveys read rights only)"))))
  else
    match s.frames.lookup pageId with
    | some frame =>
      (s.setFrame pageId { frame with
        dirty := frame.dirty || markDirty
        usage := if bumpUsage && frame.usage < kClockUsageCap then frame.usage + 1
          else frame.usage }, .ok frame.bytes)
    | none => s.faultBytes answers pageId markDirty bumpUsage

/-- `ResidentBytes`. -/
def residentBytes (s : DevicePageStore) (answers : PoolAnswers) (pageId : PageId)
    (markDirty bumpUsage : Bool) : DevicePageStore × StatusOr Page :=
  (s.claimIfRefused answers pageId markDirty).accessBytes answers pageId markDirty bumpUsage

/-- `Resolve`. -/
def resolve (s : DevicePageStore) (answers : PoolAnswers) (pageId : PageId) (markDirty : Bool) :
    DevicePageStore × StatusOr Page :=
  if s.isAllocated pageId then s.residentBytes answers pageId markDirty true
  else (s, .error (.notFound ("page id " ++ toString pageId ++ " not found" ++
    if s.maps.lease.isSome then " (core " ++ toString s.coreId ++
      ", leased: not in this core's extent lease and not set in its free-map copy)" else "")))

/-- The pin that an accessor's handle takes. -/
def pinned (pageId : PageId) : DevicePageStore × StatusOr Page → DevicePageStore × StatusOr Page
  | (s, .error e) => (s, .error e)
  | (s, .ok bytes) => (s.pinFrame pageId, .ok bytes)

def get (s : DevicePageStore) (answers : PoolAnswers) (pageId : PageId) :
    DevicePageStore × StatusOr Page :=
  pinned pageId (s.resolve answers pageId true)

def getForRead (s : DevicePageStore) (answers : PoolAnswers) (pageId : PageId) :
    DevicePageStore × StatusOr Page :=
  pinned pageId (s.resolve answers pageId false)

-- The scan ring

/-- `ReleaseScanSlot`. -/
def releaseScanSlot (s : DevicePageStore) (slot : Option PageId) : DevicePageStore :=
  match slot with
  | none => s
  | some pageId =>
    match s.frames.lookup pageId with
    | none => s
    | some frame =>
      if frame.dirty || 0 < frame.pins || 0 < frame.usage || s.isPinnedClass pageId then s
      else s.dropFrame pageId

/-- `ScanRing`. -/
structure ScanRing where
  slots : List (Option PageId)
  hand : Nat

def openScanRing (frames : Nat) : ScanRing := ⟨List.replicate (max frames 1) none, 0⟩

/-- `ScanRing::Fetch`. -/
def fetch (s : DevicePageStore) (answers : PoolAnswers) (ring : ScanRing) (pageId : PageId) :
    DevicePageStore × ScanRing × StatusOr Page :=
  match s.frames.lookup pageId with
  | some frame => (s, ring, .ok frame.bytes)
  | none =>
    match (s.releaseScanSlot (ring.slots.getD ring.hand none)).residentBytes answers pageId
        false false with
    | (s', .error e) => (s', ring, .error e)
    | (s', .ok bytes) => (s', ⟨ring.slots.set ring.hand (some pageId),
        (ring.hand + 1) % ring.slots.length⟩, .ok bytes)

/-- `~ScanRing`. -/
def closeScanRing (s : DevicePageStore) (ring : ScanRing) : DevicePageStore :=
  ring.slots.foldl releaseScanSlot s

-- Placing pages

/-- `DeviceHoldsOnlyZeros`: a failed read answers "in use". -/
def deviceHoldsOnlyZeros (s : DevicePageStore) (answers : PoolAnswers) (pageId : PageId) : Bool :=
  if s.device.pageCapacity ≤ pageId then true
  else if (answers.read pageId).isSome then false
  else (s.device.pages pageId).isAllZero

/-- A page that was placed: addressable, and zeros in a dirty frame. -/
def placeFrame (s : DevicePageStore) (maps : PageAlloc.Store) (pageId : PageId) : DevicePageStore :=
  { s with
    maps := maps
    device := { s.device with pageCapacity := max s.device.pageCapacity (pageId + 1) } }.insertFrame
      pageId Page.zero true true

/-- `CreateAt`, the handle's pin with it. -/
def createAt (s : DevicePageStore) (answers : PoolAnswers) (pageId : PageId) :
    DevicePageStore × StatusOr PageId :=
  let inUse := (s.frames.lookup pageId).isSome || !s.deviceHoldsOnlyZeros answers pageId
  match s.maps.createAt s.mapPages answers.alloc inUse pageId with
  | (maps, .error e) => ({ s with maps := maps }, .error e)
  | (maps, .ok _) => ((s.placeFrame maps pageId).pinFrame pageId, .ok pageId)

/-- `CreateNew`, the handle's pin with it. -/
def createNew (s : DevicePageStore) (answers : PoolAnswers) : DevicePageStore × StatusOr PageId :=
  match s.maps.createNew s.mapPages answers.alloc with
  | (maps, .error e) => ({ s with maps := maps }, .error e)
  | (maps, .ok id) => ((s.placeFrame maps id).pinFrame id, .ok id)

/-- `CreateNewHeaderless`: where only the mark fails, the page stays placed and nobody holds it. -/
def createNewHeaderless (s : DevicePageStore) (answers : PoolAnswers) :
    DevicePageStore × StatusOr PageId :=
  match s.maps.createNew s.mapPages answers.alloc with
  | (maps, .error e) => ({ s with maps := maps }, .error e)
  | (_, .ok id) =>
    match s.maps.createNewHeaderless s.mapPages answers.alloc with
    | (maps, .error e) => (s.placeFrame maps id, .error e)
    | (maps, .ok _) => ((s.placeFrame maps id).pinFrame id, .ok id)

-- Stamping

/-- `StampPageLsn`. -/
def stampPageLsn (s : DevicePageStore) (pageId lsn : Nat) : DevicePageStore × Option Status :=
  if lsn = 0 then
    (s, some (.invalidArgument
      "DevicePageStore: page_lsn 0 means 'never logged' and cannot be stamped"))
  else
    match s.frames.lookup pageId with
    | none => (s, some (.notFound ("DevicePageStore: page " ++ toString pageId ++
        " is not resident, so its page_lsn cannot be stamped")))
    | some frame =>
      (s.setFrame pageId { frame with
        bytes := (frame.bytes.setPageLsn lsn).setPageStreamStamp (streamStampFor s.coreId)
        dirty := true
        recLsn := if frame.recLsn = 0 then lsn else frame.recLsn }, none)

-- Write-back

def isDirty (s : DevicePageStore) (pageId : PageId) : Bool :=
  match s.frames.lookup pageId with
  | none => false
  | some frame => frame.dirty

/-- The page_lsn that a page brings to the gate. -/
def gateLsn (s : DevicePageStore) (pageId : PageId) : Nat :=
  match s.frames.lookup pageId with
  | none => 0
  | some frame => if frame.dirty && !s.isHeaderless pageId then frame.bytes.getPageLsn else 0

/-- `AwaitWalGate`: one call for the batch. -/
def awaitWalGate (s : DevicePageStore) (wal : Wal.WalManager) (failure : Option Status)
    (pageIds : List PageId) : Wal.WalManager × Option Status :=
  let highest := (pageIds.map s.gateLsn).foldr max 0
  if highest = 0 then (wal, none) else wal.ensureDurable failure highest

/-- The pages after `last` that a run takes on: consecutive, resident and dirty. -/
def runAfter (s : DevicePageStore) : Nat → PageId → List PageId → List PageId
  | 0, _, _ => []
  | _ + 1, _, [] => []
  | room + 1, last, next :: rest =>
    if next = last + 1 ∧ s.isDirty next then next :: s.runAfter room next rest else []

/-- The checksum, the last thing that touches a page before it goes out. -/
def sealFrame (stamp : PageId → Page → Page) (s : DevicePageStore) (pageId : PageId) :
    DevicePageStore :=
  s.modifyFrame pageId fun frame => { frame with bytes := stamp pageId frame.bytes }

/-- A frame's bytes reach the device. -/
def landFrame (durableLsn : Nat) (s : DevicePageStore) (pageId : PageId) : DevicePageStore :=
  match s.frames.lookup pageId with
  | none => s
  | some frame =>
    { s with
      device := { s.device with pages := Function.update s.device.pages pageId frame.bytes }
      written := ⟨pageId, frame.bytes, !s.isHeaderless pageId, durableLsn⟩ :: s.written }

def cleanFrame (s : DevicePageStore) (pageId : PageId) : DevicePageStore :=
  s.modifyFrame pageId fun frame => { frame with dirty := false, recLsn := 0 }

/-- The loop of `WriteBack`, run by run; each turn takes an id at least. -/
def writeRuns (s : DevicePageStore) (durableLsn : Nat) (answers : PoolAnswers) :
    Nat → List PageId → Nat → DevicePageStore × StatusOr Nat
  | 0, _, written => (s, .ok written)
  | _ + 1, [], written => (s, .ok written)
  | fuel + 1, pageId :: rest, written =>
    if s.isDirty pageId then
      let later := s.runAfter (kWritebackRunPages - 1) pageId rest
      let run := pageId :: later
      let s := run.foldl (sealFrame s.stampIfHeadered) s
      match answers.write pageId with
      | some (e, landed) => ((run.take landed).foldl (landFrame durableLsn) s, .error e)
      | none =>
        (run.foldl cleanFrame (run.foldl (landFrame durableLsn) s)).writeRuns durableLsn answers
          fuel (rest.drop later.length) (written + run.length)
    else s.writeRuns durableLsn answers fuel rest written

/-- `WriteBack`. -/
def writeBack (s : DevicePageStore) (wal : Wal.WalManager) (answers : PoolAnswers)
    (pageIds : List PageId) : DevicePageStore × Wal.WalManager × StatusOr Nat :=
  let ordered := (pageIds.insertionSort (· ≤ ·)).dedup
  match s.awaitWalGate wal answers.syncLog ordered with
  | (wal, some e) => (s, wal, .error e)
  | (wal, none) =>
    let out := s.writeRuns wal.durableLsn answers ordered.length ordered 0
    (out.1, wal, out.2)

/-- `DrainDirtyEvictionQueue`. -/
def drainDirtyEvictionQueue (s : DevicePageStore) (wal : Wal.WalManager) (answers : PoolAnswers) :
    DevicePageStore × Wal.WalManager × StatusOr Nat :=
  if s.dirtyEvictionQueue = [] then (s, wal, .ok 0)
  else ({ s with dirtyEvictionQueue := [] }).writeBack wal answers s.dirtyEvictionQueue

/-- A map page reaches the device, past the gate. -/
def landMap (s : DevicePageStore) (durableLsn : Nat) (pageId : PageId) (image : Page) :
    DevicePageStore :=
  { s with
    device := { s.device with pages := Function.update s.device.pages pageId image }
    written := ⟨pageId, image, true, durableLsn⟩ :: s.written }

/-- `FlushMaps`, of the regions whose maps have changed: the headerless map first. -/
def flushMaps (s : DevicePageStore) (durableLsn : Nat) (answers : PoolAnswers) :
    List Nat → DevicePageStore × Option Status
  | [] => (s, none)
  | region :: rest =>
    if s.maps.lease.isSome then (s, none)
    else
      match s.maps.mapRegions region with
      | none => s.flushMaps durableLsn answers rest
      | some pages =>
        let base := freeMapRegionBase region
        let free := fun s : DevicePageStore =>
          match answers.write (freeMapPageIdFor base) with
          | some (e, _) => (s, some e)
          | none => (s.landMap durableLsn (freeMapPageIdFor base)
              (mapImage kFreeMapType pages.freeMap)).flushMaps durableLsn answers rest
        match pages.headerlessMap with
        | none => free s
        | some bits =>
          match answers.write (headerlessMapPageIdFor base) with
          | some (e, _) => (s, some e)
          | none => free (s.landMap durableLsn (headerlessMapPageIdFor base)
              (mapImage kHeaderlessMapType bits))

/-- `Flush`. -/
def flush (s : DevicePageStore) (wal : Wal.WalManager) (answers : PoolAnswers)
    (mapsDirty : List Nat) : DevicePageStore × Wal.WalManager × Option Status :=
  match s.writeBack wal answers (s.frames.keys.filter s.isDirty) with
  | (s, wal, .error e) => (s, wal, some e)
  | (s, wal, .ok _) =>
    let out := s.flushMaps wal.durableLsn answers mapsDirty
    (out.1, wal, out.2)

/-- `FlushPages`: where nothing was written, nothing is synced. -/
def flushPages (s : DevicePageStore) (wal : Wal.WalManager) (answers : PoolAnswers)
    (pageIds : List PageId) (mapsDirty : List Nat) :
    DevicePageStore × Wal.WalManager × Option Status :=
  match s.writeBack wal answers pageIds with
  | (s, wal, .error e) => (s, wal, some e)
  | (s, wal, .ok written) =>
    match s.flushMaps wal.durableLsn answers mapsDirty with
    | (s, some e) => (s, wal, some e)
    | (s, none) =>
      if written = 0 ∧ mapsDirty = [] then (s, wal, none) else (s, wal, answers.syncPages)

end DevicePageStore

end Kds.Storage.Pool
