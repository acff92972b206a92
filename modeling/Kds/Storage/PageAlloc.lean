/-
  Kds.Storage.PageAlloc

  Page ids: the free maps and where they lie (`src/storage/free_map.cpp`), the store that places
  pages (`src/storage/device_page_store.cpp`), the extents core 0 carves for the peers and the
  leases they issue from (`src/storage/extent_lease.cpp`).

  What the device answers when it is asked to grow or to read a map page, and whether a page at a
  chosen id is in use by its frame or its bytes, are inputs.

  Left out: the bytes of pages and their frames, the dirty flags of the maps, the list of extents
  a lease remembers, the reads of pages and the map refresh behind them, and the allocator over
  bare bytes.
-/

import Kds.Base.Status
import Kds.Lib.Bitmap

namespace Kds.Storage.PageAlloc

abbrev PageId := Nat

-- Free maps and their placement

def kPageBodySize : Nat := 8160
def kFreeMapBitsPerPage : Nat := kPageBodySize * 8
def kMaxPageCount : Nat := 2 ^ 31

def freeMapRegionOf (pageId : PageId) : Nat := pageId / kFreeMapBitsPerPage
def freeMapRegionBase (region : Nat) : PageId := region * kFreeMapBitsPerPage
def freeMapBitIndexOf (pageId : PageId) : Nat := pageId % kFreeMapBitsPerPage
def freeMapPageIdFor (pageId : PageId) : PageId :=
  freeMapRegionOf pageId * kFreeMapBitsPerPage + 1
def headerlessMapPageIdFor (pageId : PageId) : PageId := freeMapPageIdFor pageId + 1

/-- Either bitmap of any region. -/
def isMapPageId (pageId : PageId) : Bool :=
  freeMapBitIndexOf pageId == 1 || freeMapBitIndexOf pageId == 2

/-- `FormatFreeMapPage`: every bit clear. -/
def formatFreeMapPage : Lib.Bitmap := fun _ => 0#8

/-- An index outside the page reads as allocated and ignores writes. -/
def freeMapIsAllocated (page : Lib.Bitmap) (index : Nat) : Bool :=
  if kFreeMapBitsPerPage ≤ index then true else page.test index

def freeMapAllocate (page : Lib.Bitmap) (index : Nat) : Lib.Bitmap :=
  if kFreeMapBitsPerPage ≤ index then page else page.set index

def freeMapFindFirstFree (page : Lib.Bitmap) (start : Nat) : Option Nat :=
  if kFreeMapBitsPerPage ≤ start then none else page.firstClear kFreeMapBitsPerPage start

def freeMapCountAllocated (page : Lib.Bitmap) : Nat := page.count kPageBodySize

-- Extents and leases

structure Extent where
  first : Nat
  count : Nat
  deriving DecidableEq

def Extent.Contains (e : Extent) (pageId : Nat) : Prop :=
  e.first ≤ pageId ∧ pageId < e.first + e.count

/-- `LeasedIdSource`: the current extent and how many of it are issued. -/
structure LeasedIdSource where
  current : Extent
  issued : Nat
  deriving DecidableEq

namespace LeasedIdSource

def empty : LeasedIdSource := ⟨⟨0, 0⟩, 0⟩

def remaining (l : LeasedIdSource) : Nat := l.current.count - l.issued

/-- `LeasedIdSource::Next`. -/
def next (l : LeasedIdSource) : LeasedIdSource × StatusOr PageId :=
  if l.remaining = 0 then
    (l, .error (.txnConflict ("extent lease: this core's lease of " ++ toString l.current.count ++
      " pages is spent; a refill must be granted before it can allocate again")))
  else ({ l with issued := l.issued + 1 }, .ok (l.current.first + l.issued))

/-- `LeasedIdSource::Grant`: the ids left in the previous extent are burned. -/
def grant (l : LeasedIdSource) (extent : Extent) : LeasedIdSource :=
  if extent.count = 0 then l else ⟨extent, 0⟩

/-- What it may still issue. -/
def Holds (l : LeasedIdSource) (pageId : Nat) : Prop :=
  l.current.first + l.issued ≤ pageId ∧ pageId < l.current.first + l.current.count

end LeasedIdSource

-- The store

/-- A region's two bitmaps in memory; the second exists once a headerless page does. -/
structure MapRegion where
  freeMap : Lib.Bitmap
  headerlessMap : Option Lib.Bitmap

/-- The map pages on the device. -/
structure Device where
  freeMap : Nat → Option Lib.Bitmap
  headerlessMap : Nat → Option Lib.Bitmap

/-- What the device answers during a call: to growing to a page count, to reading a region's
    maps. -/
structure Answers where
  ensureCapacity : Nat → Option Status
  readMap : Nat → Option Status

/-- `DevicePageStore`, as far as page ids go.  Core 0's has no lease. -/
structure Store where
  mapRegions : Nat → Option MapRegion
  allocatedPages : Nat
  nextNewPageId : PageId
  lease : Option LeasedIdSource
  coreId : Nat := 0

namespace Store

/-- `free_map_bytes_for`: an absent region reads as all zeroes. -/
def freeMapBytesFor (s : Store) (pageId : PageId) : Lib.Bitmap :=
  match s.mapRegions (freeMapRegionOf pageId) with
  | some pages => pages.freeMap
  | none => formatFreeMapPage

/-- `headerless_map_bytes_for`: a region without one reads as all zeroes. -/
def headerlessMapBytesFor (s : Store) (pageId : PageId) : Lib.Bitmap :=
  match s.mapRegions (freeMapRegionOf pageId) with
  | some pages => pages.headerlessMap.getD formatFreeMapPage
  | none => formatFreeMapPage

/-- `IsAllocated` of a store without a lease. -/
def isAllocated (s : Store) (pageId : PageId) : Bool :=
  if kMaxPageCount ≤ pageId then false
  else freeMapIsAllocated (s.freeMapBytesFor pageId) (freeMapBitIndexOf pageId)

def setRegion (s : Store) (region : Nat) (pages : MapRegion) : Store :=
  { s with mapRegions := Function.update s.mapRegions region (some pages) }

/-- `LoadRegionIfPresent`. -/
def loadRegionIfPresent (s : Store) (d : Device) (answers : Answers) (region : Nat) :
    Store × Option Status :=
  match answers.readMap region with
  | some e => (s, some e)
  | none =>
    match d.freeMap region with
    | none => (s, none)
    | some free =>
      ({ s.setRegion region ⟨free, d.headerlessMap region⟩ with
        allocatedPages := s.allocatedPages + freeMapCountAllocated free }, none)

/-- `EnsureRegionResident`: loaded, or created with its own free map's bit set.  A leased store
    takes a private empty one instead. -/
def ensureRegionResident (s : Store) (d : Device) (answers : Answers) (region : Nat) :
    Store × StatusOr MapRegion :=
  match s.mapRegions region with
  | some pages => (s, .ok pages)
  | none =>
    if s.lease.isSome then
      (s.setRegion region ⟨formatFreeMapPage, none⟩, .ok ⟨formatFreeMapPage, none⟩)
    else
      match s.loadRegionIfPresent d answers region with
      | (s', some e) => (s', .error e)
      | (s', none) =>
        match s'.mapRegions region with
        | some pages => (s', .ok pages)
        | none =>
          let freeId := freeMapPageIdFor (freeMapRegionBase region)
          let headerlessId := headerlessMapPageIdFor (freeMapRegionBase region)
          if kMaxPageCount ≤ headerlessId then
            (s', .error (.outOfSpace ("DevicePageStore: free-map region " ++
              toString region ++ " lies beyond the " ++ toString kMaxPageCount ++
              "-page design ceiling")))
          else
            match answers.ensureCapacity (headerlessId + 1) with
            | some e => (s', .error e)
            | none =>
              let free := freeMapAllocate formatFreeMapPage (freeMapBitIndexOf freeId)
              ({ s'.setRegion region ⟨free, none⟩ with
                allocatedPages := s'.allocatedPages + 1 }, .ok ⟨free, none⟩)

/-- `EnsureAddressable`, for an id that the device may not reach yet. -/
def ensureAddressable (answers : Answers) (pageId : PageId) : Option Status :=
  answers.ensureCapacity (pageId + 1)

/-- `CreateAtUnpinned`.  `inUse`: the id's frame is resident, or the device holds more than zeros
    for it. -/
def createAt (s : Store) (d : Device) (answers : Answers) (inUse : Bool) (pageId : PageId) :
    Store × StatusOr Unit :=
  if s.lease.isSome then
    (s, .error (.invalidArgument ("DevicePageStore: core " ++ toString s.coreId ++
      " may not place a page at a chosen id; the free map belongs to the system core")))
  else if kMaxPageCount ≤ pageId then
    (s, .error (.outOfRange ("DevicePageStore: page id " ++ toString pageId ++
      " is beyond the " ++ toString kMaxPageCount ++ "-page design ceiling")))
  else if isMapPageId pageId || (s.isAllocated pageId && inUse) then
    (s, .error ⟨.alreadyExists, "page id already in use"⟩)
  else
    match ensureAddressable answers pageId with
    | some e => (s, .error e)
    | none =>
      match s.ensureRegionResident d answers (freeMapRegionOf pageId) with
      | (s', .error e) => (s', .error e)
      | (s', .ok pages) =>
        let bit := freeMapBitIndexOf pageId
        let counted := if freeMapIsAllocated pages.freeMap bit then s'.allocatedPages
          else s'.allocatedPages + 1
        ({ s'.setRegion (freeMapRegionOf pageId)
            { pages with freeMap := freeMapAllocate pages.freeMap bit } with
          allocatedPages := counted }, .ok ())

/-- The search of `CreateNewUnpinned`.  The candidate rises with every turn; `fuel` is how many
    ids are left below the ceiling. -/
def findNewPageId (d : Device) (answers : Answers) :
    Nat → Store → PageId → Store × StatusOr (Option PageId)
  | 0, s, _ => (s, .ok none)
  | fuel + 1, s, candidate =>
    if candidate < kMaxPageCount then
      let region := freeMapRegionOf candidate
      match s.ensureRegionResident d answers region with
      | (s', .error e) => (s', .error e)
      | (s', .ok pages) =>
        match freeMapFindFirstFree pages.freeMap (freeMapBitIndexOf candidate) with
        | none => findNewPageId d answers fuel s' (freeMapRegionBase (region + 1))
        | some found =>
          let id := freeMapRegionBase region + found
          if isMapPageId id then findNewPageId d answers fuel s' (id + 1)
          else (s', .ok (some id))
    else (s, .ok none)

/-- `CreateNewUnpinned`. -/
def createNew (s : Store) (d : Device) (answers : Answers) : Store × StatusOr PageId :=
  match s.lease with
  | some lease =>
    match lease.next with
    | (lease', .error e) => ({ s with lease := some lease' }, .error e)
    | (lease', .ok id) =>
      match ensureAddressable answers id with
      | some e => ({ s with lease := some lease' }, .error e)
      | none => ({ s with lease := some lease' }, .ok id)
  | none =>
    match findNewPageId d answers (kMaxPageCount - s.nextNewPageId) s s.nextNewPageId with
    | (s', .error e) => (s', .error e)
    | (s', .ok none) =>
      (s', .error (.outOfSpace ("DevicePageStore: no free page id at or above " ++
        toString s.nextNewPageId)))
    | (s', .ok (some id)) =>
      -- the bit is clear, so neither a frame nor the device is asked
      match s'.createAt d answers false id with
      | (s'', .error e) => (s'', .error e)
      | (s'', .ok _) => ({ s'' with nextNewPageId := id + 1 }, .ok id)

/-- `EnsureHeaderlessMap`: the map's own id is claimed as the page is placed. -/
def ensureHeaderlessMap (s : Store) (d : Device) (answers : Answers) (pageId : PageId) :
    Store × StatusOr Lib.Bitmap :=
  match s.ensureRegionResident d answers (freeMapRegionOf pageId) with
  | (s', .error e) => (s', .error e)
  | (s', .ok pages) =>
    match pages.headerlessMap with
    | some map => (s', .ok map)
    | none =>
      let headerlessId := headerlessMapPageIdFor pageId
      let region := freeMapRegionOf pageId
      if s'.lease.isSome then
        (s'.setRegion region { pages with headerlessMap := some formatFreeMapPage },
          .ok formatFreeMapPage)
      else
        match answers.ensureCapacity (headerlessId + 1) with
        | some e => (s', .error e)
        | none =>
          ({ s'.setRegion region
              ⟨freeMapAllocate pages.freeMap (freeMapBitIndexOf headerlessId),
                some formatFreeMapPage⟩ with
            allocatedPages := s'.allocatedPages + 1 }, .ok formatFreeMapPage)

/-- `CreateNewHeaderlessUnpinned`. -/
def createNewHeaderless (s : Store) (d : Device) (answers : Answers) : Store × StatusOr PageId :=
  match s.createNew d answers with
  | (s', .error e) => (s', .error e)
  | (s', .ok id) =>
    match s'.ensureHeaderlessMap d answers id with
    | (s'', .error e) => (s'', .error e)
    | (s'', .ok map) =>
      let region := freeMapRegionOf id
      match s''.mapRegions region with
      | none => (s'', .ok id)
      | some pages =>
        (s''.setRegion region { pages with
          headerlessMap := some (freeMapAllocate map (freeMapBitIndexOf id)) }, .ok id)

end Store

-- Reserving extents

/-- How far the run of free ids from `start` goes, `count` at most. -/
def freeRun (page : Lib.Bitmap) (base start : Nat) : Nat → Nat → Nat
  | 0, run => run
  | left + 1, run =>
    if !freeMapIsAllocated page (start + run) && !isMapPageId (base + start + run) then
      freeRun page base start left (run + 1)
    else run

def allocateRun (page : Lib.Bitmap) (start : Nat) : Nat → Lib.Bitmap
  | 0 => page
  | count + 1 => freeMapAllocate (allocateRun page start count) (start + count)

/-- The search of `ExtentAllocator::Reserve`, region by region. -/
def findExtent (d : Device) (answers : Answers) (count : Nat) :
    Nat → Store → PageId → Store × StatusOr (Option Extent)
  | 0, s, _ => (s, .ok none)
  | fuel + 1, s, candidate =>
    if candidate < kMaxPageCount then
      let region := freeMapRegionOf candidate
      let base := freeMapRegionBase region
      match s.ensureRegionResident d answers region with
      | (s', .error e) => (s', .error e)
      | (s', .ok pages) =>
        match freeMapFindFirstFree pages.freeMap (freeMapBitIndexOf candidate) with
        | none => findExtent d answers count fuel s' (freeMapRegionBase (region + 1))
        | some start =>
          if isMapPageId (base + start) then
            findExtent d answers count fuel s' (base + start + 1)
          else if kFreeMapBitsPerPage < start + count then
            -- a reservation never straddles a region
            findExtent d answers count fuel s' (freeMapRegionBase (region + 1))
          else if kMaxPageCount < base + start + count then
            (s', .error (.outOfSpace ("extent lease: no run of " ++ toString count ++
              " contiguous free pages remains below the " ++ toString kMaxPageCount ++
              "-page design ceiling")))
          else
            let run := freeRun pages.freeMap base start count 0
            if run = count then
              ({ s'.setRegion region
                  { pages with freeMap := allocateRun pages.freeMap start count } with
                allocatedPages := s'.allocatedPages + count },
                .ok (some ⟨base + start, count⟩))
            else findExtent d answers count fuel s' (base + start + run + 1)
    else (s, .ok none)

/-- `ExtentAllocator::Reserve`: the store, where the next search starts, and the extent. -/
def reserve (s : Store) (next : PageId) (d : Device) (answers : Answers) (count : Nat) :
    Store × PageId × StatusOr Extent :=
  if count = 0 then
    (s, next, .error (.invalidArgument
      "extent lease: a reservation of 0 pages is not a lease"))
  else if kFreeMapBitsPerPage < count then
    (s, next, .error (.outOfSpace ("extent lease: a run of " ++ toString count ++
      " pages cannot be placed; a reservation may not cross a free-map region, so " ++
      toString kFreeMapBitsPerPage ++ " ids is the longest possible")))
  else
    match findExtent d answers count (kMaxPageCount - next) s next with
    | (s', .error e) => (s', next, .error e)
    | (s', .ok none) =>
      (s', next, .error (.outOfSpace ("extent lease: no free page id at or above " ++
        toString next)))
    | (s', .ok (some extent)) => (s', extent.first + extent.count, .ok extent)

end Kds.Storage.PageAlloc
