/-
  Kds.Wal.Redo

  The redo phase (`src/wal/redo.cpp`): the records of the replay range, each applied to the page
  it names where the page has not seen it, over the page store of the mount
  (`src/storage/device_page_store.cpp`).

  The records are those the scan hands over (`Kds.Wal.LogScanner`), decoded.  The store has no
  lease yet, so the free map is its own.  Left out: headerless pages, eviction while redo runs, a
  device that cannot grow, and log lines.
-/

import Kds.Storage.PageAlloc
import Kds.Wal.PageRecord

namespace Kds.Wal

open Storage PageAlloc

-- The page store

/-- A page's bytes on the device: never written, failing their checksum, not readable, or a
    page. -/
inductive OnDevice where
  | zeros
  | torn
  | unreadable (e : Status)
  | holds (page : Page)

/-- `DevicePageStore` at a mount. -/
structure RedoStore where
  allocated : Nat → Bool
  device : Nat → OnDevice
  frames : Nat → Option Page

namespace RedoStore

def setFrame (s : RedoStore) (pageId : Nat) (page : Page) : RedoStore :=
  { s with frames := Function.update s.frames pageId (some page) }

/-- `IsAllocated`. -/
def isAllocated (s : RedoStore) (pageId : Nat) : Bool :=
  if kMaxPageCount ≤ pageId then false else s.allocated pageId

/-- `DeviceHoldsOnlyZeros`: a failed read answers "in use". -/
def deviceHoldsOnlyZeros (s : RedoStore) (pageId : Nat) : Bool :=
  match s.device pageId with
  | .zeros => true
  | _ => false

/-- `Get`: the frame, or the device's page where its checksum holds. -/
def get (s : RedoStore) (pageId : Nat) : RedoStore × StatusOr Page :=
  if s.isAllocated pageId = false then
    (s, .error (.notFound ("page id " ++ toString pageId ++ " not found")))
  else
    match s.frames pageId with
    | some page => (s, .ok page)
    | none =>
      match s.device pageId with
      | .zeros => (s, .error (.notFound ("DevicePageStore: page " ++ toString pageId ++
          " is allocated but was never written (all zero)")))
      | .torn => (s, .error (.corruption "page checksum mismatch"))
      | .unreadable e => (s, .error e)
      | .holds page => (s.setFrame pageId page, .ok page)

def zeroPage : Page := ⟨0, 0, .zero⟩

/-- `CreateAt`: an allocated id is in use unless the device proves that it was never written. -/
def createAt (s : RedoStore) (pageId : Nat) : StatusOr (RedoStore × Page) :=
  if kMaxPageCount ≤ pageId then
    .error (.outOfRange ("DevicePageStore: page id " ++ toString pageId ++ " is beyond the " ++
      toString kMaxPageCount ++ "-page design ceiling"))
  else if isMapPageId pageId || (s.isAllocated pageId &&
      ((s.frames pageId).isSome || !s.deviceHoldsOnlyZeros pageId)) then
    .error ⟨.alreadyExists, "page id already in use"⟩
  else
    .ok ({ s.setFrame pageId zeroPage with
      allocated := Function.update s.allocated pageId true }, zeroPage)

/-- What a read of the page answers, if anything. -/
def pageAt (s : RedoStore) (pageId : Nat) : Option Page := (s.get pageId).2.toOption

end RedoStore

-- Redo

def RecordBody.name : RecordBody → String
  | .pageInit .. => "PAGE_INIT"
  | .heapInsert .. => "HEAP_INSERT"
  | .heapOverwrite .. => "HEAP_OVERWRITE"
  | .heapDeleteMark .. => "HEAP_DELETE_MARK"
  | .heapDeleteUnmark .. => "HEAP_DELETE_UNMARK"
  | .slotRetire .. => "SLOT_RETIRE"
  | .undoWrite .. => "UNDO_WRITE"
  | .fullPageImage .. => "FULL_PAGE_IMAGE"
  | .other .. => "OTHER"
  | .noPage => "NO_PAGE"
  | .assertion => "ASSERTION"

def RecordBody.isImage : RecordBody → Bool
  | .fullPageImage _ => true
  | _ => false

def RecordBody.isPageInit : RecordBody → Bool
  | .pageInit .. => true
  | _ => false

/-- `IsAssertionRecord`. -/
def RecordBody.isAssertion : RecordBody → Bool
  | .assertion => true
  | _ => false

/-- Redo passes over a record of no page and over an assertion's, which is deferred. -/
def RecordBody.touchesNoPage : RecordBody → Bool
  | .noPage | .assertion => true
  | _ => false

/-- `RedoStats`; of `pages_healed`, the pages that it counts. -/
structure RedoStats where
  records : Nat
  deferredAssertions : Nat
  noPage : Nat
  skippedNotDirty : Nat
  skippedByLsn : Nat
  applied : Nat
  pageImages : Nat
  pagesCreated : Nat
  pagesHealed : List Nat
  deriving DecidableEq

/-- A record that redo passes over is counted as deferred, or as one of no page. -/
def RedoStats.passOver (stats : RedoStats) (body : RecordBody) : RedoStats :=
  if body.isAssertion then
    { stats with
      records := stats.records + 1
      deferredAssertions := stats.deferredAssertions + 1 }
  else { stats with records := stats.records + 1, noPage := stats.noPage + 1 }

theorem RedoStats.pagesHealed_passOver (stats : RedoStats) (body : RecordBody) :
    (stats.passOver body).pagesHealed = stats.pagesHealed := by
  rw [RedoStats.passOver]
  split <;> rfl

/-- The store, the pages whose checksum failed and that no image has restored, the figures. -/
structure RedoState where
  store : RedoStore
  poisoned : List Nat
  stats : RedoStats

namespace RedoState

/-- `poisoned.insert(page_id)`. -/
def hold (st : RedoState) (pageId : Nat) : RedoState :=
  if pageId ∈ st.poisoned then st else { st with poisoned := st.poisoned ++ [pageId] }

/-- `poisoned.erase(page_id)`, counted where it erases. -/
def heal (st : RedoState) (pageId : Nat) : RedoState :=
  if pageId ∈ st.poisoned then
    { st with
      poisoned := st.poisoned.filter (· ≠ pageId)
      stats := { st.stats with pagesHealed := st.stats.pagesHealed ++ [pageId] } }
  else st

/-- The page a record names, read or created; `none` where its records are held back. -/
def acquire (st : RedoState) (r : PageRecord) : StatusOr (RedoState × Option Page) :=
  match st.store.get r.pageId with
  | (s, .ok page) => .ok ({ st with store := s }, some page)
  | (_, .error e) =>
    if e.code = .corruption then
      -- held, not failed: an image later in the stream is what heals this
      if r.body.isImage = false then
        .ok (st.hold r.pageId, none)
      else
        match st.store.createAt r.pageId with
        | .error e => .error e
        | .ok (s, page) => .ok (({ st with store := s } : RedoState).heal r.pageId, some page)
    else if r.body.isPageInit || r.body.isImage then
      match st.store.createAt r.pageId with
      | .error e => .error e
      | .ok (s, page) => .ok ({ st with
          store := s
          stats := { st.stats with pagesCreated := st.stats.pagesCreated + 1 } }, some page)
    else
      .error (e.withContext ("redo: " ++ r.body.name ++ " at lsn " ++ toString r.lsn ++
        " names page " ++ toString r.pageId ++ ", which the store does not hold and no " ++
        "PAGE_INIT or full page image in the replay range creates"))

/-- The page after the record; an image replaces it whole. -/
def applied (page : Page) (r : PageRecord) : StatusOr PageBody :=
  match applyBody page.body r.body with
  | .ok body => .ok body
  | .error e => .error (e.withContext ("redo of " ++ r.body.name ++ " at lsn " ++
      toString r.lsn ++ " on page " ++ toString r.pageId))

/-- An image is counted, and heals its page if that was held back. -/
def noteImage (st : RedoState) (r : PageRecord) : RedoState :=
  if r.body.isImage then
    ({ st with stats := { st.stats with
      pageImages := st.stats.pageImages + 1 } } : RedoState).heal r.pageId
  else st

/-- The page gets the record's LSN and this stream's stamp, which is what makes the next pass skip
    the record. -/
def stampPage (st : RedoState) (coreId : Nat) (r : PageRecord) (body : PageBody) : RedoState :=
  { st with
    store := st.store.setFrame r.pageId ⟨r.lsn, streamStampFor coreId, body⟩
    stats := { st.stats with applied := st.stats.applied + 1 } }

/-- The page is in hand: the stamp, the LSN, the change, and the record's own LSN and stamp. -/
def replay (st : RedoState) (coreId : Nat) (r : PageRecord) (page : Page) : StatusOr RedoState :=
  if r.pageId ∈ st.poisoned ∧ r.body.isImage = false then .ok st
  else if stampIsForeign page.stamp coreId then
    .error (.corruption ("redo: page " ++ toString r.pageId ++ " is stamped by stream " ++
      toString (page.stamp - 1) ++ " inside stream " ++ toString coreId ++
      "'s redo scope - a handoff record or the rule-6 acquisition restamp was lost or " ++
      "mis-ordered (page-lsn-cross-stream.md §9 rules 5-6)"))
  else if r.lsn ≤ page.lsn then
    .ok { st with stats := { st.stats with skippedByLsn := st.stats.skippedByLsn + 1 } }
  else
    match applied page r with
    | .error e => .error e
    | .ok body => .ok ((st.noteImage r).stampPage coreId r body)

def noteRecord (st : RedoState) : RedoState :=
  { st with stats := { st.stats with records := st.stats.records + 1 } }

def passOver (st : RedoState) (body : RecordBody) : RedoState :=
  { st with stats := st.stats.passOver body }

def noteNotDirty (st : RedoState) : RedoState :=
  { st with stats := { st.stats with
    records := st.stats.records + 1
    skippedNotDirty := st.stats.skippedNotDirty + 1 } }

/-- One record of the scan; `dirty` is analysis's dirty-page table. -/
def visit (coreId : Nat) (dirty : Nat → Option Nat) (st : RedoState) (r : PageRecord) :
    StatusOr RedoState :=
  if r.body.touchesNoPage then .ok (st.passOver r.body)
  else if (dirty r.pageId).any (· ≤ r.lsn) = false then .ok st.noteNotDirty
  else
    match st.noteRecord.acquire r with
    | .error e => .error e
    | .ok (st', none) => .ok st'
    | .ok (st', some page) => st'.replay coreId r page

end RedoState

def RedoState.start (store : RedoStore) : RedoState := ⟨store, [], ⟨0, 0, 0, 0, 0, 0, 0, 0, []⟩⟩

/-- `Redo` over the records of the replay range. -/
def redo (coreId : Nat) (dirty : Nat → Option Nat) (records : List PageRecord)
    (store : RedoStore) : StatusOr RedoState :=
  match records.foldlM (RedoState.visit coreId dirty) (.start store) with
  | .error e => .error e
  | .ok st =>
    match st.poisoned.min? with
    | none => .ok st
    | some pageId => .error (.corruption ("redo: page " ++ toString pageId ++
        " failed its checksum and no full page image restored it; the log cannot heal this " ++
        "page (docs/spec/page.md §10)"))

end Kds.Wal
