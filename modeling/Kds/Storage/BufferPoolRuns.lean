/-
  Kds.Storage.BufferPoolRuns

  The buffer pool over whole runs: pages are placed, taken, written, logged, stamped, dropped,
  written back and read again in whatever order, by whoever holds a handle, while the log gates what
  goes out.  Every call of the store is one action, since a core runs one at a time.
-/

import Kds.Lib.Run
import Kds.Storage.BufferPoolPlacing
import Kds.Storage.BufferPoolWriteBack
import Kds.Storage.PageAllocRuns

namespace Kds.Storage.Pool

open Lib PageAlloc
open Function (update update_self update_of_ne)

-- Runs

/-- A store, its log, the rings that are open on it, and what was written last to each page. -/
structure PoolWorld where
  store : DevicePageStore
  wal : Wal.WalManager
  rings : List DevicePageStore.ScanRing
  content : PageId → Option Page

inductive PoolAction where
  | createAt (answers : PoolAnswers) (pageId : PageId)
  | createNew (answers : PoolAnswers)
  | createNewHeaderless (answers : PoolAnswers)
  | get (answers : PoolAnswers) (pageId : PageId)
  | getForRead (answers : PoolAnswers) (pageId : PageId)
  | release (pageId : PageId)
  | markDirty (pageId : PageId)
  /-- Bytes through a handle whose frame is marked dirty. -/
  | write (pageId : PageId) (bytes : Page)
  | append (entry : Wal.LogEntry)
  | stampPageLsn (pageId lsn : Nat)
  /-- Bytes through a handle, their record, and the stamp of the record's LSN. -/
  | mutate (pageId : PageId) (bytes : Page) (entry : Wal.LogEntry)
  | openScanRing (frames : Nat)
  | fetch (answers : PoolAnswers) (ring : Nat) (pageId : PageId)
  | closeScanRing (ring : Nat)
  | evictColdFrames (budget : Nat)
  | evictClean (pageIds : List PageId)
  | writeBack (answers : PoolAnswers) (pageIds : List PageId)
  | drainDirtyEvictionQueue (answers : PoolAnswers)
  | flush (answers : PoolAnswers) (mapsDirty : List Nat)
  | flushPages (answers : PoolAnswers) (pageIds : List PageId) (mapsDirty : List Nat)
  | syncLog (failure : Option Status)
  | writerSynced (lsn : Nat)
  /-- `SetCoreOwnership`: from here on the store allocates from a lease. -/
  | setCoreOwnership (coreId : Nat) (systemPageLimit : PageId)
  | grant (extent : Extent)
  | grantFaultPages (extent : Extent)
  | grantWritePages (pageIds : List PageId)
  | setFrameBudget (frames : Nat)
  | setResidentLimit (firstEvictablePageId : PageId)

namespace PoolWorld

/-- A page was placed, as far as the call answered one: what it holds is zeros. -/
def place (w : PoolWorld) (out : DevicePageStore × StatusOr PageId) : PoolWorld :=
  { w with
    store := out.1
    content := match out.2 with
      | .error _ => w.content
      | .ok id => update w.content id (some Page.zero) }

def setStore (w : PoolWorld) (store : DevicePageStore) : PoolWorld := { w with store := store }

/-- What a frame holds now was written last. -/
def writeFrame (w : PoolWorld) (store : DevicePageStore) (pageId : PageId) : PoolWorld :=
  { w with
    store := store
    content := update w.content pageId
      ((store.frames.lookup pageId).map Frame.bytes) }

/-- A held frame takes its new bytes, and the LSN that their record was appended at is stamped. -/
def mutateFrame (w : PoolWorld) (pageId : PageId) (frame : Frame) :
    Wal.WalManager × StatusOr Nat → Option PoolWorld
  | (_, .error _) => none
  | (wal, .ok lsn) =>
    match (w.store.setFrame pageId frame).stampPageLsn pageId lsn with
    | (_, some _) => none
    | (store, none) => some { w.writeFrame store pageId with wal := wal }

/-- One action.  The bitmaps are the store's own, and nobody writes their pages; a page is written
    by who holds it. -/
def step (w : PoolWorld) : PoolAction → Option PoolWorld
  | .createAt answers id => some (w.place (w.store.createAt answers id))
  | .createNew answers => some (w.place (w.store.createNew answers))
  | .createNewHeaderless answers => some (w.place (w.store.createNewHeaderless answers))
  | .get answers id => some (w.setStore (w.store.get answers id).1)
  | .getForRead answers id => some (w.setStore (w.store.getForRead answers id).1)
  | .release id => some (w.setStore (w.store.unpinFrame id))
  | .markDirty id => some (w.setStore (w.store.markFrameDirty id))
  | .write id bytes =>
    match w.store.frames.lookup id with
    | none => none
    | some frame =>
      if isMapPageId id = false ∧ 0 < frame.pins ∧ frame.dirty = true then
        some (w.writeFrame (w.store.setFrame id { frame with bytes := bytes }) id)
      else none
  | .append entry => some { w with wal := (w.wal.append entry).1 }
  | .stampPageLsn id lsn =>
    if isMapPageId id = false ∧ w.store.isAllocated id = true then
      match w.store.stampPageLsn id lsn with
      | (_, some _) => some w
      | (store, none) => some (w.writeFrame store id)
    else none
  | .mutate id bytes entry =>
    match w.store.frames.lookup id with
    | none => none
    | some frame =>
      if isMapPageId id = false ∧ 0 < frame.pins then
        w.mutateFrame id { frame with bytes := bytes } (w.wal.append entry)
      else none
  | .openScanRing frames =>
    some { w with rings := w.rings ++ [DevicePageStore.openScanRing frames] }
  | .fetch answers i id =>
    match w.rings[i]? with
    | none => none
    | some ring =>
      let out := w.store.fetch answers ring id
      some { w with store := out.1, rings := w.rings.set i out.2.1 }
  | .closeScanRing i =>
    match w.rings[i]? with
    | none => none
    | some ring =>
      some { w with store := w.store.closeScanRing ring, rings := w.rings.eraseIdx i }
  | .evictColdFrames budget => some (w.setStore (w.store.evictColdFrames budget).1)
  | .evictClean ids => some (w.setStore (w.store.evictClean ids).1)
  | .writeBack answers ids =>
    let out := w.store.writeBack w.wal answers ids
    some { w with store := out.1, wal := out.2.1 }
  | .drainDirtyEvictionQueue answers =>
    let out := w.store.drainDirtyEvictionQueue w.wal answers
    some { w with store := out.1, wal := out.2.1 }
  | .flush answers mapsDirty =>
    let out := w.store.flush w.wal answers mapsDirty
    some { w with store := out.1, wal := out.2.1 }
  | .flushPages answers ids mapsDirty =>
    let out := w.store.flushPages w.wal answers ids mapsDirty
    some { w with store := out.1, wal := out.2.1 }
  | .syncLog failure => some { w with wal := (w.wal.sync failure).1 }
  | .writerSynced lsn =>
    if lsn ≤ w.wal.stream.flushedLsn then
      some { w with wal := { w.wal with writerDurable := max w.wal.writerDurable lsn } }
    else none
  | .setCoreOwnership coreId limit =>
    if w.store.maps.lease = none then
      some (w.setStore { w.store with
        maps := { w.store.maps with lease := some LeasedIdSource.empty, coreId := coreId }
        coreId := coreId
        systemPageLimit := limit })
    else none
  | .grant extent =>
    match w.store.maps.lease with
    | none => none
    | some lease =>
      some (w.setStore { w.store with
        maps := { w.store.maps with lease := some (lease.grant extent) }
        granted := extent :: w.store.granted })
  | .grantFaultPages extent =>
    some (w.setStore { w.store with faultGrants := extent :: w.store.faultGrants })
  | .grantWritePages ids =>
    some (w.setStore { w.store with writeRights := ids ++ w.store.writeRights })
  | .setFrameBudget frames => some (w.setStore { w.store with frameBudget := frames })
  | .setResidentLimit first =>
    some (w.setStore { w.store with
      firstEvictablePageId := max w.store.firstEvictablePageId first })

end PoolWorld

/-- An id that core 0 may grant: legal, in no frame, zeros on the device, and not marked. -/
structure Free (s : DevicePageStore) (id : PageId) : Prop where
  notMap : isMapPageId id = false
  low : id < kMaxPageCount
  absent : s.frames.lookup id = none
  zeros : s.device.pageCapacity ≤ id ∨ (s.device.pages id).isAllZero = true
  unmarked : freeMapIsAllocated (s.maps.headerlessMapBytesFor id) (freeMapBitIndexOf id) = false

/-- Core 0 grants extents that nobody was given before. -/
def Granting (w : PoolWorld) : PoolAction → Prop
  | .grant extent => ∀ id, extent.Contains id → Free w.store id
  | _ => True

/-- A store that has just opened: nothing is resident, and nothing was written. -/
structure PoolWorld.Start (w : PoolWorld) : Prop where
  opened : ∃ answers first, Store.openStore w.store.mapPages answers first = some w.store.maps
  consistent : w.store.mapPages.Consistent
  noGrants : w.store.granted = []
  noFrames : w.store.frames = ∅
  noWrites : w.store.written = []
  noContent : ∀ p, w.content p = none

-- What is claimed

/-- The bytes that an access to the page answers. -/
def Answers (s : DevicePageStore) (p : PageId) (page : Page) : Prop :=
  ∃ answers, (s.get answers p).2 = .ok page ∨ (s.getForRead answers p).2 = .ok page ∨
    ∃ ring, (s.fetch answers ring p).2.2 = .ok page

/-- **Reads give back what was written last**, the checksum of a headered page apart, and they do
    answer where the device does. -/
structure ReadsBack (s : DevicePageStore) (p : PageId) (last : Page) : Prop where
  value : ∀ page, Answers s p page →
    page = last ∨ (s.isHeaderless p = false ∧ page = last.stampPageChecksum)
  read : ∀ answers, answers.read p = none → ∃ page, (s.getForRead answers p).2 = .ok page
  fetch : ∀ answers ring, answers.read p = none → ∃ page, (s.fetch answers ring p).2.2 = .ok page
  get : ∀ answers, answers.read p = none → s.mayWrite p = true →
    ∃ page, (s.get answers p).2 = .ok page

/-- A frame that is held stays where it is: only its release takes a pin. -/
def KeepsPins (w : PoolWorld) (a : PoolAction) (u : PoolWorld) : Prop :=
  ∀ p, 0 < w.store.pins p → u.store.frames.lookup p ≠ none ∧
    ((∀ q, a = .release q → q ≠ p) → w.store.pins p ≤ u.store.pins p)

-- The invariant

/-- What an id is that the lease may still issue. -/
structure Unissued (s : DevicePageStore) (id : PageId) : Prop where
  notMap : isMapPageId id = false
  low : id < kMaxPageCount
  owned : s.owns id = true
  unwritten : s.Unwritten id

/-- The ids: core 0 goes by its maps, a leased store by what its lease has left. -/
structure IdsSound (s : DevicePageStore) : Prop where
  core0 : s.maps.lease = none → s.maps.Sound s.mapPages ∧ s.granted = []
  leased : ∀ lease, s.maps.lease = some lease → ∀ id, lease.Holds id → Unissued s id

/-- A page that was written: it exists, and the pool has it. -/
structure Kept (s : DevicePageStore) (p : PageId) (last : Page) : Prop where
  notMap : isMapPageId p = false
  allocated : s.isAllocated p = true
  reached : p < s.device.pageCapacity
  keeps : (s.cell p).Keeps (s.stampIfHeadered p) (s.Intact p) last

structure Inv (w : PoolWorld) : Prop where
  covered : w.store.Covered
  addressable : w.store.Addressable
  held : ∀ p, 0 < w.store.pins p → w.store.isAllocated p = true
  ids : IdsSound w.store
  kept : ∀ p last, w.content p = some last → Kept w.store p last

namespace DevicePageStore

variable {s s' : DevicePageStore} {p q : PageId}

theorem Calm.idsSound (h : Calm s s') (hids : IdsSound s) : IdsSound s' := by
  refine ⟨fun hlease => ?_, fun lease hlease id hid => ?_⟩
  · rw [h.same.maps] at hlease ⊢
    rw [h.same.mapPages, h.same.granted]
    exact hids.core0 hlease
  · rw [h.same.maps] at hlease
    obtain ⟨hmap, hlow, howned, hun⟩ := hids.leased lease hlease id hid
    refine ⟨hmap, hlow, ?_, h.unwritten id hmap hun⟩
    unfold owns
    rw [h.same.granted]
    exact howned

theorem Calm.kept (h : Calm s s') {last : Page} (hkept : Kept s p last) : Kept s' p last := by
  refine ⟨hkept.notMap, ?_, ?_, ?_⟩
  · rw [h.same.isAllocated]
    exact hkept.allocated
  · rw [h.same.capacity]
    exact hkept.reached
  · rw [h.same.stampIfHeadered, h.same.intact]
    exact hkept.keeps.quiet (s.stampIfHeadered_stamp p) (h.cells p hkept.notMap)

end DevicePageStore

open DevicePageStore

variable {w u : PoolWorld} {s s' : DevicePageStore} {p q : PageId} {frame : Frame} {id : PageId}
    {maps : PageAlloc.Store} {lease : LeasedIdSource} {answers : PageAlloc.Answers}
    {extent : Extent} {a : PoolAction}

theorem Inv.calm (h : Inv w) (hcalm : Calm w.store s')
    (hheld : ∀ p, 0 < s'.pins p → w.store.isAllocated p = true) (wal : Wal.WalManager)
    (rings : List ScanRing) : Inv ⟨s', wal, rings, w.content⟩ := by
  refine ⟨hcalm.covered h.covered, hcalm.addressable h.addressable, fun p hp => ?_,
    hcalm.idsSound h.ids, fun p last hlast => hcalm.kept (h.kept p last hlast)⟩
  rw [show s'.isAllocated p = w.store.isAllocated p from hcalm.same.isAllocated p]
  exact hheld p hp

theorem Inv.settles (h : Inv w) (hsettles : Settles w.store s') (wal : Wal.WalManager)
    (rings : List ScanRing) : Inv ⟨s', wal, rings, w.content⟩ :=
  h.calm hsettles.toCalm (fun p hp => h.held p (by rw [← hsettles.pins]; exact hp)) wal rings

-- Writing

theorem setFrame_setFrame (s : DevicePageStore) (p : PageId) (frame frame' : Frame) :
    (s.setFrame p frame).setFrame p frame' = s.setFrame p frame' := by
  unfold setFrame
  dsimp only
  rw [AList.insert_insert]

theorem Inv.writeFrame (h : Inv w) (hlook : w.store.frames.lookup p = some frame)
    (hmap : isMapPageId p = false) (halloc : w.store.isAllocated p = true) {frame' : Frame}
    (hdirty : frame'.dirty = true) (wal : Wal.WalManager) :
    Inv { w.writeFrame (w.store.setFrame p frame') p with wal := wal } := by
  have hself := lookup_setFrame_self w.store p frame'
  have hsame : SameBut w.store (w.store.setFrame p frame') := ⟨rfl, rfl, rfl, rfl⟩
  have hresident : w.store.frames.lookup p ≠ none := by
    rw [hlook]
    exact Option.some_ne_none frame
  refine ⟨h.covered, fun q hq => ?_, fun q hq => ?_, ⟨fun hlease => h.ids.core0 hlease,
    fun lease hlease id hid => ?_⟩, fun q last hlast => ?_⟩
  · change (w.store.setFrame p frame').frames.lookup q ≠ none at hq
    by_cases hqp : q = p
    · subst hqp
      exact h.addressable q hresident
    · rw [lookup_setFrame_of_ne _ hqp] at hq
      exact h.addressable q hq
  · by_cases hqp : q = p
    · subst hqp
      exact halloc
    · apply h.held q
      rw [← pins_congr (lookup_setFrame_of_ne frame' hqp)]
      exact hq
  · obtain ⟨hidMap, hlow, howned, hun⟩ := h.ids.leased lease hlease id hid
    have hid : id ≠ p := by
      rintro rfl
      exact hresident hun.1
    refine ⟨hidMap, hlow, howned, ?_, hun.2⟩
    exact (lookup_setFrame_of_ne frame' hid).trans hun.1
  · by_cases hqp : q = p
    · subst hqp
      have hcontent : last = frame'.bytes := by
        have hhere : update w.content q
            (((w.store.setFrame q frame').frames.lookup q).map Frame.bytes) q = some last := hlast
        rw [update_self, hself] at hhere
        exact (Option.some.inj hhere).symm
      subst hcontent
      refine ⟨hmap, halloc, h.addressable q hresident, ?_⟩
      change ((w.store.setFrame q frame').cell q).Keeps _ _ _
      rw [cell_of_lookup hself, hdirty]
      exact .store _ _
    · have hthere : w.content q = some last := by
        rw [← hlast]
        exact (update_of_ne hqp _ _).symm
      obtain ⟨hqMap, hqAlloc, hreached, hkeeps⟩ := h.kept q last hthere
      refine ⟨hqMap, hqAlloc, hreached, ?_⟩
      have hcell : (w.store.setFrame p frame').cell q = w.store.cell q := by
        unfold cell
        rw [lookup_setFrame_of_ne _ hqp]
        rfl
      change ((w.store.setFrame p frame').cell q).Keeps _ _ _
      rw [hcell]
      exact hkeeps

theorem stampPageLsn_spec {lsn : Nat} (h : s.stampPageLsn p lsn = (s', none)) :
    ∃ frame frame', s.frames.lookup p = some frame ∧ s' = s.setFrame p frame' ∧
      frame'.dirty = true ∧ frame'.pins = frame.pins := by
  unfold stampPageLsn at h
  by_cases hlsn : lsn = 0
  · rw [if_pos hlsn] at h
    cases (Prod.mk.inj h).2
  · rw [if_neg hlsn] at h
    cases hlook : s.frames.lookup p with
    | none =>
      rw [hlook] at h
      cases (Prod.mk.inj h).2
    | some frame =>
      rw [hlook] at h
      obtain ⟨rfl, -⟩ := Prod.mk.inj h
      exact ⟨frame, _, rfl, rfl, rfl, rfl⟩

theorem mutateFrame_spec {appended : Wal.WalManager × StatusOr Nat}
    (h : w.mutateFrame p frame appended = some u) :
    ∃ frame' wal, frame'.dirty = true ∧ frame'.pins = frame.pins ∧
      u = { w.writeFrame (w.store.setFrame p frame') p with wal := wal } := by
  obtain ⟨wal, e | lsn⟩ := appended
  · cases h
  · unfold PoolWorld.mutateFrame at h
    dsimp only at h
    rcases hstamp : (w.store.setFrame p frame).stampPageLsn p lsn with ⟨store, _ | e⟩
    · rw [hstamp] at h
      cases h
      obtain ⟨between, frame', hbetween, rfl, hdirty, hpins⟩ := stampPageLsn_spec hstamp
      rw [lookup_setFrame_self] at hbetween
      cases hbetween
      rw [setFrame_setFrame]
      exact ⟨frame', wal, hdirty, hpins, rfl⟩
    · rw [hstamp] at h
      cases h

-- Placing

/-- What a page that was placed leaves: zeros in a dirty frame of an id that is no bitmap's, and
    every other page as it was. -/
structure PlacedAt (id : PageId) (s s' : DevicePageStore) : Prop where
  frame : ∃ pins, s'.frames.lookup id = some ⟨Page.zero, true, 1, pins, 0⟩
  other : ∀ q, q ≠ id → s'.frames.lookup q = s.frames.lookup q
  pages : s'.device.pages = s.device.pages
  capacity : s'.device.pageCapacity = max s.device.pageCapacity (id + 1)
  granted : s'.granted = s.granted
  mapPages : s'.mapPages = s.mapPages
  written : s'.written = s.written
  maps : GrowsBut id s.maps s'.maps
  notMap : isMapPageId id = false
  allocated : s'.isAllocated id = true

theorem isAllocated_mono (hgrows : GrowsBut q s.maps s'.maps) (hgranted : s'.granted = s.granted)
    (h : s.isAllocated p = true) : s'.isAllocated p = true := by
  unfold isAllocated at h ⊢
  by_cases htop : kMaxPageCount ≤ p
  · rw [if_pos htop] at h
    cases h
  · rw [if_neg htop] at h ⊢
    rw [Store.isAllocated_eq (Nat.lt_of_not_le htop), Bool.or_eq_true] at h
    rw [Store.isAllocated_eq (Nat.lt_of_not_le htop), Bool.or_eq_true, hgrows.leased]
    unfold owns at h ⊢
    rw [hgranted]
    exact h.imp_right (hgrows.bits p)

theorem isHeaderless_of_ne (hgrows : GrowsBut q s.maps s'.maps) (hgranted : s'.granted = s.granted)
    (hne : p ≠ q) (h : s.isAllocated p = true) : s'.isHeaderless p = s.isHeaderless p := by
  unfold isHeaderless
  rw [isAllocated_mono hgrows hgranted h, h, isAllocated_of_lt (bitIndexOf_lt p),
    isAllocated_of_lt (bitIndexOf_lt p), hgrows.marks p hne]

theorem isAllocated_of_unissued (h : s.maps.lease.isSome = true) (hun : Unissued s p) :
    s.isAllocated p = true := by
  unfold isAllocated
  rw [if_neg (Nat.not_le_of_lt hun.low), h, hun.owned]
  rfl

theorem Inv.placed (h : Inv w) {content : PageId → Option Page} (hplaced : PlacedAt id w.store s')
    (hcore0 : s'.maps.lease = none → s'.maps.Sound s'.mapPages ∧ s'.granted = [])
    (hleased : ∀ lease, s'.maps.lease = some lease → ∀ q, lease.Holds q → id < q ∧
      ∃ before, w.store.maps.lease = some before ∧ before.Holds q)
    (hcontent : ∀ q, q ≠ id → content q = w.content q)
    (hhere : ∀ last, content id = some last → last = Page.zero) (wal : Wal.WalManager)
    (rings : List ScanRing) : Inv ⟨s', wal, rings, content⟩ := by
  obtain ⟨pins, hframe⟩ := hplaced.frame
  refine ⟨?_, fun q hq => ?_, fun q hq => ?_, ⟨hcore0, fun lease hlease q hq => ?_⟩,
    fun q last hlast => ?_⟩
  · unfold Covered
    rw [show s'.written = w.store.written from hplaced.written]
    exact h.covered
  · dsimp only at hq ⊢
    rw [hplaced.capacity]
    by_cases hqid : q = id
    · subst hqid
      exact Nat.lt_of_lt_of_le (Nat.lt_succ_self q) (Nat.le_max_right _ _)
    · rw [hplaced.other q hqid] at hq
      exact Nat.lt_of_lt_of_le (h.addressable q hq) (Nat.le_max_left _ _)
  · by_cases hqid : q = id
    · subst hqid
      exact hplaced.allocated
    · apply isAllocated_mono hplaced.maps hplaced.granted
      apply h.held q
      rw [← pins_congr (hplaced.other q hqid)]
      exact hq
  · obtain ⟨hlater, before, hbefore, hholds⟩ := hleased lease hlease q hq
    have hqid : q ≠ id := Nat.ne_of_gt hlater
    have hun := h.ids.leased before hbefore q hholds
    have hsome : w.store.maps.lease.isSome = true := by
      rw [hbefore]
      rfl
    have hless := isHeaderless_of_ne hplaced.maps hplaced.granted hqid
      (isAllocated_of_unissued hsome hun)
    refine ⟨hun.notMap, hun.low, ?_, ?_, ?_⟩
    · unfold owns
      rw [show s'.granted = w.store.granted from hplaced.granted]
      exact hun.owned
    · exact (hplaced.other q hqid).trans hun.unwritten.1
    · dsimp only
      rw [hplaced.capacity, hplaced.pages, hless]
      exact hun.unwritten.2.imp_left fun hcap => Nat.max_le.mpr ⟨hcap, hlater⟩
  · by_cases hqid : q = id
    · subst hqid
      obtain rfl := hhere last hlast
      refine ⟨hplaced.notMap, hplaced.allocated, ?_, ?_⟩
      · dsimp only
        rw [hplaced.capacity]
        exact Nat.lt_of_lt_of_le (Nat.lt_succ_self q) (Nat.le_max_right _ _)
      · dsimp only
        rw [cell_of_lookup hframe]
        exact .store _ _
    · dsimp only at hlast
      rw [hcontent q hqid] at hlast
      obtain ⟨hqMap, hqAlloc, hreached, hkeeps⟩ := h.kept q last hlast
      have hless := isHeaderless_of_ne hplaced.maps hplaced.granted hqid hqAlloc
      have hstamp : s'.stampIfHeadered q = w.store.stampIfHeadered q := by
        funext page
        unfold stampIfHeadered
        rw [hless]
      have hintact : s'.Intact q = w.store.Intact q := by
        funext page
        unfold Intact
        rw [hless]
      have hcell : s'.cell q = w.store.cell q := by
        unfold cell
        rw [hplaced.other q hqid, hplaced.pages]
      refine ⟨hqMap, isAllocated_mono hplaced.maps hplaced.granted hqAlloc, ?_, ?_⟩
      · dsimp only
        rw [hplaced.capacity]
        exact Nat.lt_of_lt_of_le hreached (Nat.le_max_left _ _)
      · dsimp only
        rw [hstamp, hintact, hcell]
        exact hkeeps

theorem Inv.rights (h : Inv w) (hframes : s'.frames = w.store.frames)
    (hdevice : s'.device = w.store.device) (hwritten : s'.written = w.store.written)
    (hmono : ∀ q, w.store.isAllocated q = true → s'.isAllocated q = true)
    (hless : ∀ q, w.store.isAllocated q = true → s'.isHeaderless q = w.store.isHeaderless q)
    (hids : IdsSound s') (wal : Wal.WalManager) (rings : List ScanRing) :
    Inv ⟨s', wal, rings, w.content⟩ := by
  refine ⟨?_, fun q hq => ?_, fun q hq => hmono q (h.held q ?_), hids, fun q last hlast => ?_⟩
  · unfold Covered
    rw [hwritten]
    exact h.covered
  · dsimp only at hq ⊢
    rw [hframes] at hq
    rw [hdevice]
    exact h.addressable q hq
  · rw [← pins_congr (show s'.frames.lookup q = w.store.frames.lookup q by rw [hframes])]
    exact hq
  · obtain ⟨hqMap, hqAlloc, hreached, hkeeps⟩ := h.kept q last hlast
    have hstamp : s'.stampIfHeadered q = w.store.stampIfHeadered q := by
      funext page
      unfold stampIfHeadered
      rw [hless q hqAlloc]
    have hintact : s'.Intact q = w.store.Intact q := by
      funext page
      unfold Intact
      rw [hless q hqAlloc]
    have hcell : s'.cell q = w.store.cell q := by
      unfold cell
      rw [hframes, hdevice]
    refine ⟨hqMap, hmono q hqAlloc, ?_, ?_⟩
    · dsimp only
      rw [hdevice]
      exact hreached
    · dsimp only
      rw [hstamp, hintact, hcell]
      exact hkeeps

theorem Inv.grown (h : Inv w) (hgrows : Grows w.store.maps maps)
    (hcore0 : maps.lease = none → maps.Sound w.store.mapPages ∧ w.store.granted = [])
    (hleased : ∀ lease, maps.lease = some lease → ∀ q, lease.Holds q →
      ∃ before, w.store.maps.lease = some before ∧ before.Holds q) (wal : Wal.WalManager)
    (rings : List ScanRing) : Inv ⟨{ w.store with maps := maps }, wal, rings, w.content⟩ := by
  have hless : ∀ q, w.store.isAllocated q = true →
      ({ w.store with maps := maps } : DevicePageStore).isHeaderless q =
        w.store.isHeaderless q := by
    intro q hq
    exact @isHeaderless_of_ne w.store { w.store with maps := maps } q (q + 1)
      (hgrows.but (q + 1)) rfl (Nat.ne_of_lt (Nat.lt_succ_self q)) hq
  refine @Inv.rights w { w.store with maps := maps } h rfl rfl rfl (fun q hq =>
    @isAllocated_mono w.store { w.store with maps := maps } q 0 (hgrows.but 0) rfl hq) hless
    ⟨hcore0, fun lease hlease q hq => ?_⟩ wal rings
  obtain ⟨before, hbefore, hholds⟩ := hleased lease hlease q hq
  have hun := h.ids.leased before hbefore q hholds
  have hsome : w.store.maps.lease.isSome = true := by
    rw [hbefore]
    rfl
  refine ⟨hun.notMap, hun.low, hun.owned, hun.unwritten.1, ?_⟩
  rw [hless q (isAllocated_of_unissued hsome hun)]
  exact hun.unwritten.2

theorem placedAt_placeFrame (hgrows : GrowsBut id s.maps maps) (hmap : isMapPageId id = false)
    (halloc : ({ s with maps := maps } : DevicePageStore).isAllocated id = true) :
    PlacedAt id s (s.placeFrame maps id) ∧ PlacedAt id s ((s.placeFrame maps id).pinFrame id) := by
  have hlook : (s.placeFrame maps id).frames.lookup id = some ⟨Page.zero, true, 1, 0, 0⟩ :=
    AList.lookup_insert _
  have hother : ∀ q, q ≠ id → (s.placeFrame maps id).frames.lookup q = s.frames.lookup q :=
    fun q hq => AList.lookup_insert_ne hq
  have hplaced : PlacedAt id s (s.placeFrame maps id) :=
    ⟨⟨0, hlook⟩, hother, rfl, rfl, rfl, rfl, rfl, hgrows, hmap, halloc⟩
  obtain ⟨hsame, hdevice, hwritten⟩ := SameBut.modifyFrame (s.placeFrame maps id) id
    fun frame => { frame with pins := frame.pins + 1 }
  refine ⟨hplaced, ⟨1, ?_⟩, fun q hq => ?_, ?_, ?_, ?_, ?_, ?_, ?_, hmap, ?_⟩
  · unfold pinFrame
    rw [lookup_modifyFrame, if_pos rfl, hlook]
    rfl
  · unfold pinFrame
    rw [lookup_modifyFrame, if_neg hq]
    exact hother q hq
  · exact (congrArg PageDevice.pages hdevice).trans hplaced.pages
  · exact hsame.capacity.trans hplaced.capacity
  · exact hsame.granted.trans hplaced.granted
  · exact hsame.mapPages.trans hplaced.mapPages
  · exact hwritten.trans hplaced.written
  · unfold pinFrame
    rw [hsame.maps]
    exact hgrows
  · unfold pinFrame
    rw [hsame.isAllocated]
    exact halloc

theorem lease_createNew {m : PageAlloc.Store} (h : m.lease = some lease) (d : PageAlloc.Device)
    (answers : PageAlloc.Answers) :
    ∃ after, (m.createNew d answers).1.lease = some after ∧
      (∀ q, after.Holds q → lease.Holds q) ∧
      ∀ id, (m.createNew d answers).2 = .ok id →
        lease.Holds id ∧ ∀ q, after.Holds q → id < q := by
  unfold Store.createNew
  rw [h]
  dsimp only
  unfold LeasedIdSource.next
  split_ifs with hspent
  · exact ⟨lease, rfl, fun q hq => hq, fun id hid => (by cases hid)⟩
  · have hmono : ∀ q, LeasedIdSource.Holds { lease with issued := lease.issued + 1 } q →
        lease.current.first + lease.issued < q ∧ lease.Holds q := by
      rintro q ⟨hlow, hhigh⟩
      dsimp only at hlow hhigh
      exact ⟨by omega, by omega, hhigh⟩
    dsimp only
    cases Store.ensureAddressable answers (lease.current.first + lease.issued) with
    | some e => exact ⟨_, rfl, fun q hq => (hmono q hq).2, fun id hid => (by cases hid)⟩
    | none =>
      refine ⟨_, rfl, fun q hq => (hmono q hq).2, fun id hid => ?_⟩
      cases hid
      unfold LeasedIdSource.remaining at hspent
      exact ⟨⟨Nat.le_refl _, by omega⟩, fun q hq => (hmono q hq).1⟩

theorem lease_createNewHeaderless (m : PageAlloc.Store) (d : PageAlloc.Device)
    (answers : PageAlloc.Answers) :
    (m.createNewHeaderless d answers).1.lease = (m.createNew d answers).1.lease := by
  have hmap : ∀ (s' : PageAlloc.Store) id, (s'.ensureHeaderlessMap d answers id).1.lease =
      s'.lease := by
    intro s' id
    have hregion := Store.ensureRegionResident_lease s' d answers (freeMapRegionOf id)
    unfold Store.ensureHeaderlessMap
    rcases hout : s'.ensureRegionResident d answers (freeMapRegionOf id) with ⟨s'', e | pages⟩
    · rw [hout] at hregion
      exact hregion
    · rw [hout] at hregion
      dsimp only at hregion ⊢
      cases pages.headerlessMap with
      | some map => exact hregion
      | none =>
        dsimp only
        split_ifs
        · exact hregion
        · cases answers.ensureCapacity _ with
          | some e => exact hregion
          | none => exact hregion
  unfold Store.createNewHeaderless
  rcases hcreate : m.createNew d answers with ⟨s', e | id⟩
  · rfl
  · have hlease := hmap s' id
    dsimp only
    rcases hout : s'.ensureHeaderlessMap d answers id with ⟨s'', e | map⟩
    · rw [hout] at hlease
      exact hlease
    · rw [hout] at hlease
      dsimp only at hlease ⊢
      cases s''.mapRegions (freeMapRegionOf id) with
      | none => exact hlease
      | some pages => exact hlease

theorem IdsSound.loaded (h : IdsSound s) : Loaded s.maps s.mapPages := by
  cases hlease : s.maps.lease with
  | some lease =>
    left
    rw [hlease]
    rfl
  | none => exact .inr (h.core0 hlease).1.resident

/-- What a new id is: legal, held by nobody, and never written. -/
structure NewId (w : PoolWorld) (id : PageId) : Prop where
  notMap : isMapPageId id = false
  low : id < kMaxPageCount
  unheld : w.store.pins id = 0
  blank : w.content id = none

theorem Inv.newId (h : Inv w) (hok : (w.store.maps.createNew w.store.mapPages answers).2 = .ok id) :
    NewId w id := by
  cases hlease : w.store.maps.lease with
  | none =>
    have hnew := (h.ids.core0 hlease).1.createNew answers
    obtain ⟨hclear, -⟩ := hnew.fresh id hok
    obtain ⟨hmap, hlow⟩ := hnew.legal id hok
    have hfree : w.store.isAllocated id = false := by
      unfold isAllocated
      rw [if_neg (Nat.not_le_of_lt hlow), hlease, Store.isAllocated_eq hlow, hclear]
      rfl
    refine ⟨hmap, hlow, ?_, ?_⟩
    · by_contra hpins
      rw [h.held id (Nat.pos_of_ne_zero hpins)] at hfree
      cases hfree
    · cases hcontent : w.content id with
      | none => rfl
      | some last =>
        rw [(h.kept id last hcontent).allocated] at hfree
        cases hfree
  | some lease =>
    obtain ⟨after, -, -, hissued⟩ := lease_createNew hlease w.store.mapPages answers
    have hun := h.ids.leased lease hlease id (hissued id hok).1
    refine ⟨hun.notMap, hun.low, pins_eq_zero hun.unwritten.1, ?_⟩
    cases hcontent : w.content id with
    | none => rfl
    | some last =>
      have hkept := h.kept id last hcontent
      have hnone : (w.store.cell id).entry = none := by
        unfold cell
        rw [hun.unwritten.1]
        rfl
      have hintact := checkRead_of_intact (hkept.keeps.backing hnone)
      exact absurd hun.unwritten (not_unwritten_of_checkRead (Nat.not_le_of_lt hkept.reached)
        hintact)

theorem Inv.idsAfter (h : Inv w) {maps : PageAlloc.Store} {answers : PageAlloc.Answers}
    (hsound : w.store.maps.Sound w.store.mapPages → maps.Sound w.store.mapPages)
    (hlease : w.store.maps.lease ≠ none →
      maps.lease = (w.store.maps.createNew w.store.mapPages answers).1.lease) :
    (maps.lease = none → maps.Sound w.store.mapPages ∧ w.store.granted = []) ∧
      ∀ lease, maps.lease = some lease → ∀ q, lease.Holds q →
        (∃ before, w.store.maps.lease = some before ∧ before.Holds q) ∧
        ∀ id, (w.store.maps.createNew w.store.mapPages answers).2 = .ok id → id < q := by
  cases hold : w.store.maps.lease with
  | none =>
    obtain ⟨hcore, hgranted⟩ := h.ids.core0 hold
    refine ⟨fun _ => ⟨hsound hcore, hgranted⟩, fun lease hsome => ?_⟩
    rw [(hsound hcore).unleased] at hsome
    cases hsome
  | some before =>
    obtain ⟨after, hafter, hmono, hissued⟩ := lease_createNew hold w.store.mapPages answers
    have hmaps : maps.lease = some after := by
      rw [hlease (by rw [hold]; exact Option.some_ne_none before), hafter]
    refine ⟨fun hnone => ?_, fun lease hsome q hq => ?_⟩
    · rw [hmaps] at hnone
      cases hnone
    · rw [hmaps] at hsome
      cases hsome
      exact ⟨⟨before, rfl, hmono q hq⟩, fun id hid => (hissued id hid).2 q hq⟩

theorem Inv.newId_allocated (h : Inv w)
    (hok : (w.store.maps.createNew w.store.mapPages answers).2 = .ok id)
    (hleased : maps.lease.isSome = w.store.maps.lease.isSome)
    (hbits : ∀ q, (w.store.maps.createNew w.store.mapPages answers).1.mapped q = true →
      maps.mapped q = true) :
    ({ w.store with maps := maps } : DevicePageStore).isAllocated id = true := by
  have hnew := h.newId hok
  unfold isAllocated
  rw [if_neg (Nat.not_le_of_lt hnew.low), Store.isAllocated_eq hnew.low, Bool.or_eq_true]
  cases hlease : w.store.maps.lease with
  | none =>
    obtain ⟨-, hset⟩ := ((h.ids.core0 hlease).1.createNew answers).fresh id hok
    exact .inr (hbits id hset)
  | some lease =>
    obtain ⟨after, -, -, hissued⟩ := lease_createNew hlease w.store.mapPages answers
    have howned := (h.ids.leased lease hlease id (hissued id hok).1).owned
    left
    rw [Bool.and_eq_true]
    dsimp only
    rw [hleased, hlease]
    exact ⟨rfl, howned⟩

theorem Inv.placeNew (h : Inv w) {answers : PageAlloc.Answers} {id : PageId}
    (hok : (w.store.maps.createNew w.store.mapPages answers).2 = .ok id) {maps : PageAlloc.Store}
    (hgrows : GrowsBut id (w.store.maps.createNew w.store.mapPages answers).1 maps)
    (hsound : w.store.maps.Sound w.store.mapPages → maps.Sound w.store.mapPages)
    (hlease : maps.lease = (w.store.maps.createNew w.store.mapPages answers).1.lease) :
    Inv ⟨w.store.placeFrame maps id, w.wal, w.rings, w.content⟩ ∧
      Inv ⟨(w.store.placeFrame maps id).pinFrame id, w.wal, w.rings,
        update w.content id (some Page.zero)⟩ ∧
      ∀ p, 0 < w.store.pins p → p ≠ id := by
  obtain ⟨hbefore, -⟩ := @grows_createNew w.store.maps w.store.mapPages answers h.ids.loaded
  obtain ⟨hcore0, hleased⟩ := h.idsAfter hsound fun _ => hlease
  have hid := h.newId hok
  have hall := GrowsBut.after hbefore hgrows
  have halloc := h.newId_allocated hok hall.leased hgrows.bits
  obtain ⟨hplaced, hpinned⟩ := placedAt_placeFrame hall hid.notMap halloc
  have hmaps : ((w.store.placeFrame maps id).pinFrame id).maps = maps :=
    (SameBut.modifyFrame _ id _).1.maps
  refine ⟨?_, ?_, fun p hp hpid => ?_⟩
  · apply h.placed hplaced hcore0 (fun lease hsome q hq => ?_) (fun q _ => rfl)
      (fun last hlast => ?_)
    · obtain ⟨hheld, hlater⟩ := hleased lease hsome q hq
      exact ⟨hlater id hok, hheld⟩
    · rw [hid.blank] at hlast
      cases hlast
  · apply h.placed hpinned (fun hnone => ?_) (fun lease hsome q hq => ?_) (fun q hq => ?_)
      (fun last hlast => ?_)
    · rw [hmaps] at hnone ⊢
      rw [hpinned.mapPages, hpinned.granted]
      exact hcore0 hnone
    · rw [hmaps] at hsome
      obtain ⟨hheld, hlater⟩ := hleased lease hsome q hq
      exact ⟨hlater id hok, hheld⟩
    · exact update_of_ne hq ..
    · rw [update_self] at hlast
      exact (Option.some.inj hlast).symm
  · subst hpid
    rw [hid.unheld] at hp
    exact Nat.lt_irrefl 0 hp

/-- What a call that places a page does. -/
structure Places (w : PoolWorld) (out : DevicePageStore × StatusOr PageId) : Prop where
  inv : Inv (w.place out)
  held : ∀ p, 0 < w.store.pins p → out.1.frames.lookup p = w.store.frames.lookup p

theorem lookup_placeFrame_of_ne (h : q ≠ p) :
    (s.placeFrame maps p).frames.lookup q = s.frames.lookup q :=
  AList.lookup_insert_ne h

theorem lookup_pinFrame_of_ne (h : q ≠ p) :
    (s.pinFrame p).frames.lookup q = s.frames.lookup q := by
  unfold pinFrame
  rw [lookup_modifyFrame, if_neg h]

theorem Inv.refuse (h : Inv w) {answers : PageAlloc.Answers} :
    Inv ⟨{ w.store with maps := (w.store.maps.createNew w.store.mapPages answers).1 }, w.wal,
      w.rings, w.content⟩ := by
  obtain ⟨hgrows, -⟩ := @grows_createNew w.store.maps w.store.mapPages answers h.ids.loaded
  obtain ⟨hcore0, hleased⟩ := @Inv.idsAfter w h _ answers
    (fun hsound => (hsound.createNew answers).sound) fun _ => rfl
  exact h.grown hgrows hcore0 (fun lease hlease q hq => (hleased lease hlease q hq).1) _ _

theorem Inv.createNew (h : Inv w) (answers : PoolAnswers) :
    Places w (w.store.createNew answers) := by
  have hrefuse := @Inv.refuse w h answers.alloc
  have hplace := fun id hok => @Inv.placeNew w h answers.alloc id hok _
    ((Grows.refl _).but id) (fun hsound => (hsound.createNew answers.alloc).sound) rfl
  unfold DevicePageStore.createNew
  rcases hcreate : w.store.maps.createNew w.store.mapPages answers.alloc with ⟨maps, e | id⟩
  · rw [hcreate] at hrefuse
    exact ⟨hrefuse, fun p _ => rfl⟩
  · rw [hcreate] at hplace
    obtain ⟨-, hinv, hother⟩ := hplace id rfl
    refine ⟨hinv, fun p hp => ?_⟩
    exact (lookup_pinFrame_of_ne (hother p hp)).trans (lookup_placeFrame_of_ne (hother p hp))

theorem Inv.createNewHeaderless (h : Inv w) (answers : PoolAnswers) :
    Places w (w.store.createNewHeaderless answers) := by
  have hrefuse := @Inv.refuse w h answers.alloc
  have hplace := fun id hok => @Inv.placeNew w h answers.alloc id hok _
    (grows_createNewHeaderless h.ids.loaded hok (h.newId hok).low)
    (fun hsound => (hsound.createNewHeaderless answers.alloc).sound)
    (lease_createNewHeaderless w.store.maps w.store.mapPages answers.alloc)
  unfold DevicePageStore.createNewHeaderless
  rcases hcreate : w.store.maps.createNew w.store.mapPages answers.alloc with ⟨maps, e | id⟩
  · rw [hcreate] at hrefuse
    exact ⟨hrefuse, fun p _ => rfl⟩
  · rw [hcreate] at hplace
    obtain ⟨hinv, hinv', hother⟩ := hplace id rfl
    dsimp only
    rcases hless : w.store.maps.createNewHeaderless w.store.mapPages answers.alloc with
      ⟨maps', e | i⟩
    · rw [hless] at hinv
      exact ⟨hinv, fun p hp => lookup_placeFrame_of_ne (hother p hp)⟩
    · rw [hless] at hinv'
      refine ⟨hinv', fun p hp => ?_⟩
      exact (lookup_pinFrame_of_ne (hother p hp)).trans (lookup_placeFrame_of_ne (hother p hp))

theorem Inv.createAt (h : Inv w) (answers : PoolAnswers) (id : PageId) :
    Places w (w.store.createAt answers id) := by
  unfold DevicePageStore.createAt
  dsimp only
  generalize hinUse : ((w.store.frames.lookup id).isSome ||
    !w.store.deviceHoldsOnlyZeros answers id) = inUse
  obtain ⟨hgrows, -, hok⟩ := @grows_createAt w.store.maps w.store.mapPages answers.alloc
    h.ids.loaded inUse id
  have hsound := fun hs : w.store.maps.Sound w.store.mapPages =>
    (hs.createAt answers.alloc inUse id).1
  have hlease := Store.createAt_lease w.store.maps w.store.mapPages answers.alloc inUse id
  have hcore0 : ∀ maps : PageAlloc.Store, maps.lease = w.store.maps.lease →
      (w.store.maps.Sound w.store.mapPages → maps.Sound w.store.mapPages) → maps.lease = none →
      maps.Sound w.store.mapPages ∧ w.store.granted = [] := by
    intro maps hmaps hsound hnone
    rw [hmaps] at hnone
    obtain ⟨hcore, hgranted⟩ := h.ids.core0 hnone
    exact ⟨hsound hcore, hgranted⟩
  rcases hcreate : w.store.maps.createAt w.store.mapPages answers.alloc inUse id with ⟨maps, e | u⟩
  · rw [hcreate] at hgrows hsound hlease
    refine ⟨?_, fun p _ => rfl⟩
    apply h.grown hgrows (hcore0 maps hlease hsound)
    intro lease hsome q hq
    exact ⟨lease, hlease.symm.trans hsome, hq⟩
  · rw [hcreate] at hgrows hsound hlease hok
    obtain ⟨hnone, hlow, hmap, hfree, hset⟩ := hok rfl
    dsimp only at hgrows hlease hset
    have hunheld : ∀ p, 0 < w.store.pins p → p ≠ id := by
      rintro p hp rfl
      have halloc := h.held p hp
      have hresident := lookup_ne_none_of_pins hp
      have hsome : (w.store.frames.lookup p).isSome = true :=
        Option.isSome_iff_ne_none.mpr hresident
      unfold isAllocated at halloc
      rw [if_neg (Nat.not_le_of_lt hlow), hnone] at halloc
      rw [hsome, Bool.true_or] at hinUse
      rw [← hinUse, Bool.and_true] at hfree
      rw [hfree] at halloc
      cases halloc
    have halloc : ({ w.store with maps := maps } : DevicePageStore).isAllocated id = true := by
      unfold isAllocated
      rw [if_neg (Nat.not_le_of_lt hlow), Store.isAllocated_eq hlow, hset, Bool.or_true]
    obtain ⟨-, hpinned⟩ := placedAt_placeFrame (hgrows.but id) hmap halloc
    have hmaps : ((w.store.placeFrame maps id).pinFrame id).maps = maps :=
      (SameBut.modifyFrame _ id _).1.maps
    refine ⟨?_, fun p hp => ?_⟩
    · apply h.placed hpinned (fun hnone' => ?_) (fun lease hsome q hq => ?_) (fun q hq => ?_)
        (fun last hlast => ?_)
      · rw [hmaps] at hnone' ⊢
        rw [hpinned.mapPages, hpinned.granted]
        exact hcore0 maps hlease hsound hnone'
      · rw [hmaps, hlease, hnone] at hsome
        cases hsome
      · exact update_of_ne hq ..
      · have hhere : update w.content id (some Page.zero) id = some last := hlast
        rw [update_self] at hhere
        exact (Option.some.inj hhere).symm
    · exact (lookup_pinFrame_of_ne (hunheld p hp)).trans (lookup_placeFrame_of_ne (hunheld p hp))

-- Leases

theorem owns_mono (h : s'.granted = extent :: s.granted) (howns : s.owns p = true) :
    s'.owns p = true := by
  unfold owns inExtents at howns ⊢
  rw [h, List.any_cons, howns, Bool.or_true]

theorem owns_of_contains (h : s'.granted = extent :: s.granted) (hin : extent.Contains p) :
    s'.owns p = true := by
  unfold owns inExtents
  rw [h, List.any_cons,
    decide_eq_true (show extent.first ≤ p ∧ p < extent.first + extent.count from hin), Bool.true_or]

theorem Inv.grant (h : Inv w) (hlease : w.store.maps.lease = some lease) (extent : Extent)
    (hfree : ∀ id, extent.Contains id → Free w.store id) :
    Inv (w.setStore { w.store with
      maps := { w.store.maps with lease := some (lease.grant extent) }
      granted := extent :: w.store.granted }) := by
  generalize hs' : ({ w.store with
    maps := { w.store.maps with lease := some (lease.grant extent) }
    granted := extent :: w.store.granted } : DevicePageStore) = s'
  have hmaps : s'.maps = { w.store.maps with lease := some (lease.grant extent) } := by rw [← hs']
  have hgranted : s'.granted = extent :: w.store.granted := by rw [← hs']
  have hframes : s'.frames = w.store.frames := by rw [← hs']
  have hdevice : s'.device = w.store.device := by rw [← hs']
  have hmono : ∀ q, w.store.isAllocated q = true → s'.isAllocated q = true := by
    intro q hq
    unfold isAllocated at hq ⊢
    by_cases htop : kMaxPageCount ≤ q
    · rw [if_pos htop] at hq
      cases hq
    · rw [if_neg htop, hlease, Bool.or_eq_true, Bool.and_eq_true] at hq
      rw [if_neg htop, hmaps, Bool.or_eq_true, Bool.and_eq_true]
      exact hq.imp (fun hown => ⟨rfl, owns_mono hgranted hown.2⟩) fun hset => hset
  have hless : ∀ q, w.store.isAllocated q = true →
      s'.isHeaderless q = w.store.isHeaderless q := by
    intro q hq
    unfold isHeaderless
    rw [hmono q hq, hq, hmaps]
    rfl
  refine h.rights hframes hdevice (by rw [← hs']) hmono hless ⟨fun hnone => ?_,
    fun after hafter id hid => ?_⟩ _ _
  · rw [hmaps] at hnone
    cases hnone
  · have hsome : w.store.maps.lease.isSome = true := by
      rw [hlease]
      rfl
    rw [hmaps] at hafter
    cases hafter
    unfold LeasedIdSource.grant at hid
    split_ifs at hid with hcount
    · have hun := h.ids.leased lease hlease id hid
      refine ⟨hun.notMap, hun.low, owns_mono hgranted hun.owned, ?_⟩
      unfold Unwritten
      rw [hframes, hdevice, hless id (isAllocated_of_unissued hsome hun)]
      exact hun.unwritten
    · have hfresh := hfree id hid
      refine ⟨hfresh.notMap, hfresh.low, owns_of_contains hgranted hid, ?_⟩
      unfold Unwritten
      rw [hframes, hdevice]
      refine ⟨hfresh.absent, hfresh.zeros.imp_right fun hzero => ⟨?_, hzero⟩⟩
      have hbit : freeMapIsAllocated (s'.maps.headerlessMapBytesFor id) (freeMapBitIndexOf id) =
          false := by
        rw [hmaps]
        exact hfresh.unmarked
      unfold isHeaderless
      rw [hbit, Bool.false_and, Bool.and_false]

theorem Inv.setCoreOwnership (h : Inv w) (hlease : w.store.maps.lease = none) (coreId : Nat)
    (limit : PageId) :
    Inv (w.setStore { w.store with
      maps := { w.store.maps with lease := some LeasedIdSource.empty, coreId := coreId }
      coreId := coreId
      systemPageLimit := limit }) := by
  generalize hs' : ({ w.store with
    maps := { w.store.maps with lease := some LeasedIdSource.empty, coreId := coreId }
    coreId := coreId
    systemPageLimit := limit } : DevicePageStore) = s'
  have hmaps : s'.maps =
      { w.store.maps with lease := some LeasedIdSource.empty, coreId := coreId } := by rw [← hs']
  have hmono : ∀ q, w.store.isAllocated q = true → s'.isAllocated q = true := by
    intro q hq
    unfold isAllocated at hq ⊢
    by_cases htop : kMaxPageCount ≤ q
    · rw [if_pos htop] at hq
      cases hq
    · rw [if_neg htop, hlease, Bool.or_eq_true] at hq
      rw [if_neg htop, hmaps, Bool.or_eq_true]
      refine .inr ?_
      rcases hq with hq | hq
      · cases hq
      · exact hq
  refine h.rights (by rw [← hs']) (by rw [← hs']) (by rw [← hs']) hmono (fun q hq => ?_)
    ⟨fun hnone => ?_, fun lease hsome id hid => ?_⟩ _ _
  · unfold isHeaderless
    rw [hmono q hq, hq, hmaps]
    rfl
  · rw [hmaps] at hnone
    cases hnone
  · rw [hmaps] at hsome
    cases hsome
    obtain ⟨hlow, hhigh⟩ := hid
    exact absurd hhigh (Nat.not_lt_of_le (Nat.zero_le _))

-- Steps

theorem KeepsPins.of_le (h : ∀ p, w.store.pins p ≤ u.store.pins p) : KeepsPins w a u := by
  intro p hp
  exact ⟨lookup_ne_none_of_pins (Nat.lt_of_lt_of_le hp (h p)), fun _ => h p⟩

/-- What an action does to the invariant and to the pins. -/
structure Stepped (w : PoolWorld) (a : PoolAction) (u : PoolWorld) : Prop where
  inv : Inv u
  pins : KeepsPins w a u

theorem Inv.stepSettles (h : Inv w) (hsettles : Settles w.store s') (wal : Wal.WalManager)
    (rings : List ScanRing) : Stepped w a ⟨s', wal, rings, w.content⟩ :=
  ⟨h.settles hsettles wal rings, .of_le fun p => Nat.le_of_eq (hsettles.pins p).symm⟩

theorem Inv.stepPlaces {out : DevicePageStore × StatusOr PageId} (h : Places w out) :
    Stepped w a (w.place out) := by
  refine ⟨h.inv, fun p hp => ?_⟩
  have hlook : (w.place out).store.frames.lookup p = w.store.frames.lookup p := h.held p hp
  rw [hlook]
  exact ⟨lookup_ne_none_of_pins hp, fun _ => Nat.le_of_eq (pins_congr hlook).symm⟩

theorem isAllocated_of_resolve {answers : PoolAnswers} {markDirty : Bool} {page : Page}
    (h : (s.resolve answers p markDirty).2 = .ok page) : s.isAllocated p = true := by
  unfold resolve at h
  by_cases hin : s.isAllocated p = true
  · exact hin
  · rw [if_neg hin] at h
    cases h

theorem Inv.stepPinned (h : Inv w) (answers : PoolAnswers) (p : PageId) (markDirty : Bool) :
    Stepped w a (w.setStore (pinned p (w.store.resolve answers p markDirty)).1) := by
  have hread := read_resolve w.store answers p markDirty
  have hin := fun page => @isAllocated_of_resolve w.store p answers markDirty page
  rcases hout : w.store.resolve answers p markDirty with ⟨s', e | page⟩
  · rw [hout] at hread
    exact h.stepSettles hread.settles _ _
  · rw [hout] at hread hin
    have hsettles := hread.settles
    dsimp only at hsettles
    have hpins := fun q => (pins_pinFrame s' p q)
    refine ⟨h.calm (hsettles.toCalm.trans (.pinFrame s' p)) (fun q hq => ?_) _ _,
      .of_le fun q => ?_⟩
    · by_cases hqp : q = p
      · subst hqp
        exact hin page rfl
      · rw [hpins, if_neg fun hboth => hqp hboth.1, hsettles.pins] at hq
        exact h.held q hq
    · change w.store.pins q ≤ (s'.pinFrame p).pins q
      rw [hpins, hsettles.pins]
      split_ifs
      · exact Nat.le_succ _
      · exact Nat.le_refl _

theorem Inv.stepRelease (h : Inv w) (p : PageId) :
    Stepped w (.release p) (w.setStore (w.store.unpinFrame p)) := by
  refine ⟨h.calm (.unpinFrame w.store p) (fun q hq => ?_) _ _, fun q hq => ⟨?_, fun hother => ?_⟩⟩
  · rw [pins_unpinFrame] at hq
    split_ifs at hq
    · exact h.held q (Nat.lt_of_lt_of_le hq (Nat.sub_le _ _))
    · exact h.held q hq
  · change (w.store.unpinFrame p).frames.lookup q ≠ none
    unfold unpinFrame
    rw [lookup_modifyFrame]
    have hresident := lookup_ne_none_of_pins hq
    split_ifs
    · rwa [Ne, Option.map_eq_none_iff]
    · exact hresident
  · change w.store.pins q ≤ (w.store.unpinFrame p).pins q
    rw [pins_unpinFrame, if_neg (hother p rfl).symm]

theorem Inv.stepWrite (h : Inv w) {frame' : Frame} (hlook : w.store.frames.lookup p = some frame)
    (hmap : isMapPageId p = false) (halloc : w.store.isAllocated p = true)
    (hdirty : frame'.dirty = true) (hpins : frame'.pins = frame.pins) (wal : Wal.WalManager) :
    Stepped w a { w.writeFrame (w.store.setFrame p frame') p with wal := wal } := by
  refine ⟨h.writeFrame hlook hmap halloc hdirty wal, .of_le fun q => ?_⟩
  change w.store.pins q ≤ (w.store.setFrame p frame').pins q
  by_cases hqp : q = p
  · subst hqp
    rw [pins_of_lookup hlook, pins_of_lookup (lookup_setFrame_self ..), hpins]
  · exact Nat.le_of_eq (pins_congr (lookup_setFrame_of_ne _ hqp)).symm

theorem Inv.stepBytes (h : Inv w) {bytes : Page} (hstep : w.step (.write p bytes) = some u) :
    Stepped w (.write p bytes) u := by
  unfold PoolWorld.step at hstep
  dsimp only at hstep
  cases hlook : w.store.frames.lookup p with
  | none =>
    rw [hlook] at hstep
    cases hstep
  | some frame =>
    rw [hlook] at hstep
    dsimp only at hstep
    split_ifs at hstep with hguard
    obtain ⟨hmap, hpins, hdirty⟩ := hguard
    cases hstep
    have halloc := h.held p (by rw [pins_of_lookup hlook]; exact hpins)
    have hdirty' : ({ frame with bytes := bytes } : Frame).dirty = true := hdirty
    exact h.stepWrite hlook hmap halloc hdirty' rfl w.wal

theorem Inv.stepStamp (h : Inv w) {lsn : Nat} (hstep : w.step (.stampPageLsn p lsn) = some u) :
    Stepped w (.stampPageLsn p lsn) u := by
  unfold PoolWorld.step at hstep
  dsimp only at hstep
  split_ifs at hstep with hguard
  obtain ⟨hmap, halloc⟩ := hguard
  rcases hstamp : w.store.stampPageLsn p lsn with ⟨store, _ | e⟩
  · rw [hstamp] at hstep
    cases hstep
    obtain ⟨frame, frame', hlook, rfl, hdirty, hpins⟩ := stampPageLsn_spec hstamp
    exact h.stepWrite hlook hmap halloc hdirty hpins w.wal
  · rw [hstamp] at hstep
    cases hstep
    exact h.stepSettles (.refl _) _ _

theorem Inv.stepMutate (h : Inv w) {bytes : Page} {entry : Wal.LogEntry}
    (hstep : w.step (.mutate p bytes entry) = some u) : Stepped w (.mutate p bytes entry) u := by
  unfold PoolWorld.step at hstep
  dsimp only at hstep
  cases hlook : w.store.frames.lookup p with
  | none =>
    rw [hlook] at hstep
    cases hstep
  | some frame =>
    rw [hlook] at hstep
    dsimp only at hstep
    split_ifs at hstep with hguard
    obtain ⟨hmap, hpins⟩ := hguard
    have halloc := h.held p (by rw [pins_of_lookup hlook]; exact hpins)
    obtain ⟨frame', wal, hdirty, hpins', rfl⟩ := mutateFrame_spec hstep
    exact h.stepWrite hlook hmap halloc hdirty hpins' wal

/-- What one call on the pool does, and that it keeps the invariant. -/
theorem Inv.step (h : Inv w) (a : PoolAction) (hgrant : Granting w a) (hstep : w.step a = some u) :
    Stepped w a u := by
  cases a with
  | createAt answers id =>
    cases hstep
    exact Inv.stepPlaces (h.createAt answers id)
  | createNew answers =>
    cases hstep
    exact Inv.stepPlaces (h.createNew answers)
  | createNewHeaderless answers =>
    cases hstep
    exact Inv.stepPlaces (h.createNewHeaderless answers)
  | get answers id =>
    cases hstep
    exact h.stepPinned answers id true
  | getForRead answers id =>
    cases hstep
    exact h.stepPinned answers id false
  | release id =>
    cases hstep
    exact h.stepRelease id
  | markDirty id =>
    cases hstep
    exact h.stepSettles (.markFrameDirty w.store id) _ _
  | write id bytes => exact h.stepBytes hstep
  | append entry =>
    cases hstep
    exact h.stepSettles (.refl _) _ _
  | stampPageLsn id lsn => exact h.stepStamp hstep
  | mutate id bytes entry => exact h.stepMutate hstep
  | openScanRing frames =>
    cases hstep
    exact h.stepSettles (.refl _) _ _
  | fetch answers i id =>
    unfold PoolWorld.step at hstep
    dsimp only at hstep
    cases hring : w.rings[i]? with
    | none =>
      rw [hring] at hstep
      cases hstep
    | some ring =>
      rw [hring] at hstep
      cases hstep
      exact h.stepSettles (.fetch w.store answers ring id) _ _
  | closeScanRing i =>
    unfold PoolWorld.step at hstep
    dsimp only at hstep
    cases hring : w.rings[i]? with
    | none =>
      rw [hring] at hstep
      cases hstep
    | some ring =>
      rw [hring] at hstep
      cases hstep
      exact h.stepSettles (.closeScanRing w.store ring) _ _
  | evictColdFrames budget =>
    cases hstep
    exact h.stepSettles (.evictColdFrames w.store budget) _ _
  | evictClean ids =>
    cases hstep
    exact h.stepSettles (.evictClean w.store ids) _ _
  | writeBack answers ids =>
    cases hstep
    exact h.stepSettles (.writeBack w.store w.wal answers ids) _ _
  | drainDirtyEvictionQueue answers =>
    cases hstep
    exact h.stepSettles (.drainDirtyEvictionQueue w.store w.wal answers) _ _
  | flush answers mapsDirty =>
    cases hstep
    exact h.stepSettles (.flush w.store w.wal answers mapsDirty) _ _
  | flushPages answers ids mapsDirty =>
    cases hstep
    exact h.stepSettles (.flushPages w.store w.wal answers ids mapsDirty) _ _
  | syncLog failure =>
    cases hstep
    exact h.stepSettles (.refl _) _ _
  | writerSynced lsn =>
    unfold PoolWorld.step at hstep
    dsimp only at hstep
    split_ifs at hstep
    cases hstep
    exact h.stepSettles (.refl _) _ _
  | setCoreOwnership coreId limit =>
    unfold PoolWorld.step at hstep
    dsimp only at hstep
    split_ifs at hstep with hlease
    cases hstep
    exact ⟨h.setCoreOwnership hlease coreId limit, .of_le fun p => Nat.le_refl _⟩
  | grant extent =>
    unfold PoolWorld.step at hstep
    dsimp only at hstep
    cases hlease : w.store.maps.lease with
    | none =>
      rw [hlease] at hstep
      cases hstep
    | some lease =>
      rw [hlease] at hstep
      cases hstep
      exact ⟨h.grant hlease extent hgrant, .of_le fun p => Nat.le_refl _⟩
  | grantFaultPages extent =>
    cases hstep
    refine h.stepSettles ?_ _ _
    exact .of_same ⟨rfl, rfl, rfl, rfl⟩ rfl rfl rfl
  | grantWritePages ids =>
    cases hstep
    refine h.stepSettles ?_ _ _
    exact .of_same ⟨rfl, rfl, rfl, rfl⟩ rfl rfl rfl
  | setFrameBudget frames =>
    cases hstep
    refine h.stepSettles ?_ _ _
    exact .of_same ⟨rfl, rfl, rfl, rfl⟩ rfl rfl rfl
  | setResidentLimit first =>
    cases hstep
    refine h.stepSettles ?_ _ _
    exact .of_same ⟨rfl, rfl, rfl, rfl⟩ rfl rfl rfl

theorem PoolWorld.Start.inv (h : w.Start) : Inv w := by
  obtain ⟨answers, first, hopen⟩ := h.opened
  have hsound := sound_of_openStore hopen h.consistent
  have hnone : ∀ p, w.store.frames.lookup p = none := by
    intro p
    rw [h.noFrames]
    exact AList.lookup_empty p
  refine ⟨fun d hd => ?_, fun p hp => absurd (hnone p) hp, fun p hp => ?_,
    ⟨fun _ => ⟨hsound, h.noGrants⟩, fun lease hlease => ?_⟩, fun p last hlast => ?_⟩
  · rw [h.noWrites] at hd
    cases hd
  · rw [pins_eq_zero (hnone p)] at hp
    exact absurd hp (Nat.lt_irrefl 0)
  · rw [hsound.unleased] at hlease
    cases hlease
  · rw [h.noContent] at hlast
    cases hlast

theorem PoolWorld.Start.inv_of_run {w0 : PoolWorld} (h : w0.Start)
    (hrun : Reach PoolWorld.step Granting w0 w) : Inv w :=
  hrun.invariant h.inv fun a hinv hgrant hstep => (hinv.step a hgrant hstep).inv

-- Reads

section Reads

variable {last page : Page} {answers : PoolAnswers} {out : DevicePageStore × StatusOr Page}

theorem Kept.value_of_read (h : Kept s p last) (hread : Read s p out) (hpage : out.2 = .ok page) :
    page = last ∨ (s.isHeaderless p = false ∧ page = last.stampPageChecksum) := by
  rw [hread.value page hpage]
  rcases h.keeps.value with hvalue | hvalue
  · exact .inl hvalue
  · rw [hvalue]
    unfold stampIfHeadered
    split_ifs with hless
    · exact .inl rfl
    · exact .inr ⟨by simpa using hless, rfl⟩

variable {markDirty : Bool}

theorem Kept.accessBytes_ok (h : Kept s p last) (hread : answers.read p = none)
    (hwrite : markDirty = true → s.mayWrite p = true) (bumpUsage : Bool) :
    ∃ page, (s.accessBytes answers p markDirty bumpUsage).2 = .ok page := by
  have hlet : ¬ (markDirty && !s.mayWrite p) = true := by
    cases markDirty with
    | false => exact Bool.false_ne_true
    | true => simp [hwrite rfl]
  unfold accessBytes
  rw [if_neg hlet]
  cases hlook : s.frames.lookup p with
  | some frame => exact ⟨_, rfl⟩
  | none =>
    have hentry : (s.cell p).entry = none := by
      unfold cell
      rw [hlook]
      rfl
    have hcheck := checkRead_of_intact (h.keeps.backing hentry)
    dsimp only
    unfold faultBytes
    rw [if_neg (Nat.not_le_of_lt h.reached), hread]
    dsimp only
    rw [show s.checkRead p (s.device.pages p) = .ok () from hcheck]
    exact ⟨_, rfl⟩

theorem Kept.residentBytes_ok (h : Kept s p last) (hread : answers.read p = none)
    (hwrite : markDirty = true → s.mayWrite p = true) (bumpUsage : Bool) :
    ∃ page, (s.residentBytes answers p markDirty bumpUsage).2 = .ok page := by
  unfold residentBytes
  cases markDirty with
  | true =>
    have hclaim : s.claimIfRefused answers p true = s := by
      unfold claimIfRefused wouldRefuse
      simp [hwrite rfl]
    rw [hclaim]
    exact h.accessBytes_ok hread hwrite bumpUsage
  | false =>
    obtain ⟨rights, hclaim⟩ := exists_claimIfRefused s answers p false
    rw [hclaim]
    have hsettles : Settles s { s with writeRights := rights } :=
      .of_same ⟨rfl, rfl, rfl, rfl⟩ rfl rfl rfl
    apply (hsettles.toCalm.kept h).accessBytes_ok hread
    intro hdirty
    cases hdirty

theorem pinned_snd (p : PageId) (out : DevicePageStore × StatusOr Page) :
    (pinned p out).2 = out.2 := by
  rcases out with ⟨s, e | page⟩
  · rfl
  · rfl

theorem Kept.resolve_ok (h : Kept s p last) (hread : answers.read p = none)
    (hwrite : markDirty = true → s.mayWrite p = true) :
    ∃ page, (pinned p (s.resolve answers p markDirty)).2 = .ok page := by
  rw [pinned_snd]
  unfold resolve
  rw [if_pos h.allocated]
  exact h.residentBytes_ok hread hwrite true

theorem Kept.fetch_value (h : Kept s p last) {ring : ScanRing}
    (hpage : (s.fetch answers ring p).2.2 = .ok page) :
    page = last ∨ (s.isHeaderless p = false ∧ page = last.stampPageChecksum) := by
  unfold fetch at hpage
  cases hlook : s.frames.lookup p with
  | some frame =>
    rw [hlook] at hpage
    have hread : Read s p (s, .ok frame.bytes) := by
      refine ⟨.refl s, fun page hpage => ?_⟩
      rw [cell_value_of_lookup hlook]
      exact (Except.ok.inj hpage).symm
    exact h.value_of_read hread hpage
  | none =>
    rw [hlook] at hpage
    dsimp only at hpage
    have hslot := (Settles.releaseScanSlot s (ring.slots.getD ring.hand none)).toCalm
    have hread := read_residentBytes (s.releaseScanSlot (ring.slots.getD ring.hand none)) answers
      p false false
    have hvalue := fun hpage => @Kept.value_of_read _ _ _ page _ (hslot.kept h) hread hpage
    rw [← hslot.same.isHeaderless]
    apply hvalue
    rcases hout : (s.releaseScanSlot (ring.slots.getD ring.hand none)).residentBytes answers p
      false false with ⟨s', e | bytes⟩
    · rw [hout] at hpage
      cases hpage
    · rw [hout] at hpage
      exact hpage

theorem Kept.fetch_ok (h : Kept s p last) (hread : answers.read p = none) (ring : ScanRing) :
    ∃ page, (s.fetch answers ring p).2.2 = .ok page := by
  unfold fetch
  cases hlook : s.frames.lookup p with
  | some frame => exact ⟨_, rfl⟩
  | none =>
    dsimp only
    have hslot := (Settles.releaseScanSlot s (ring.slots.getD ring.hand none)).toCalm
    have hnoWrite : false = true →
        (s.releaseScanSlot (ring.slots.getD ring.hand none)).mayWrite p = true := by
      intro hdirty
      cases hdirty
    obtain ⟨page, hpage⟩ := (hslot.kept h).residentBytes_ok hread hnoWrite false
    rcases hout : (s.releaseScanSlot (ring.slots.getD ring.hand none)).residentBytes answers p
      false false with ⟨s', e | bytes⟩
    · rw [hout] at hpage
      cases hpage
    · exact ⟨bytes, rfl⟩

theorem Kept.readsBack (h : Kept s p last) : ReadsBack s p last := by
  refine ⟨?_, fun answers hread => ?_, fun answers ring hread => h.fetch_ok hread ring,
    fun answers hread hwrite => h.resolve_ok hread fun _ => hwrite⟩
  · rintro page ⟨answers, hget | hget | ⟨ring, hfetch⟩⟩
    · exact h.value_of_read (read_resolve s answers p true) ((pinned_snd p _).symm.trans hget)
    · exact h.value_of_read (read_resolve s answers p false) ((pinned_snd p _).symm.trans hget)
    · exact h.fetch_value hfetch
  · apply h.resolve_ok hread
    intro hdirty
    cases hdirty

end Reads

-- The pool over runs

/-- **Write-ahead, and no lost write**: in every state reached, what left with a page_lsn was below
    the log's durable point of that moment; whatever comes next, no held frame is dropped; and
    every access gives back what was written last. -/
theorem pool_keeps_writes {w0 : PoolWorld} (hstart : w0.Start)
    (hrun : Reach PoolWorld.step Granting w0 w) :
    w.store.Covered ∧
      (∀ a u, Granting w a → w.step a = some u → KeepsPins w a u) ∧
      ∀ p last, w.content p = some last → ReadsBack w.store p last := by
  have hinv := hstart.inv_of_run hrun
  refine ⟨hinv.covered, fun a u hgrant hstep => ?_, fun p last hlast => ?_⟩
  · exact (hinv.step a hgrant hstep).pins
  · exact (hinv.kept p last hlast).readsBack

-- Two runs

/-- Devices that do what they are asked. -/
def willingPool : PoolAnswers := ⟨willing, fun _ => none, fun _ => none, none, none⟩

/-- A log of one segment, all of it synced. -/
def syncedLog : Wal.WalManager :=
  let device : Wal.LogDevice := ⟨1024, [List.replicate 1024 0], by
    intro segment hin
    rw [List.mem_singleton.mp hin]
    exact List.length_replicate, by decide⟩
  ⟨⟨0, 65536, ⟨device, device, []⟩, [], 1024, 1024, false⟩, 0⟩

def freshPool : PoolWorld :=
  { store :=
      { maps := freshWorld.core0
        mapPages := emptyDevice
        granted := []
        faultGrants := []
        writeRights := []
        systemPageLimit := 0
        coreId := 0
        frames := ∅
        device := ⟨0, fun _ => Page.zero⟩
        dirtyEvictionQueue := []
        clockHand := 0
        firstEvictablePageId := 0
        frameBudget := 0
        written := [] }
    wal := syncedLog
    rings := []
    content := fun _ => none }

theorem freshPool_start : freshPool.Start :=
  ⟨⟨willing, 128, rfl⟩, fun r free hfree => (by cases hfree), rfl, rfl, rfl, fun _ => rfl⟩

/-- A page is placed, stamped, let go, written back and dropped. -/
def droppedRun : List PoolAction :=
  [.createNew willingPool, .stampPageLsn 128 77, .release 128, .writeBack willingPool [128],
    .evictColdFrames 1]

theorem pool_keeps_writes_dropped :
    ∃ w, Reach PoolWorld.step Granting freshPool w ∧ w.store.frames.lookup 128 = none ∧
      w.store.written.map DeviceWrite.durableLsn = [1024] ∧ w.store.Covered ∧
      ∃ last, w.content 128 = some last ∧ last.getPageLsn = 77 ∧ ReadsBack w.store 128 last := by
  have hend : (runList PoolWorld.step droppedRun freshPool).any (fun w =>
      decide ((w.store.frames.lookup 128).isNone = true ∧
        w.store.written.map DeviceWrite.durableLsn = [1024] ∧
        (w.content 128).map Page.getPageLsn = some 77)) = true := by decide +kernel
  obtain ⟨w, hw, hall⟩ := (Option.any_eq_true _ _).mp hend
  obtain ⟨hnone, hwritten, hlsn⟩ := of_decide_eq_true hall
  have hrun : Reach PoolWorld.step Granting freshPool w := by
    apply reach_of_runList (fun a ha s => ?_) hw
    simp only [droppedRun, List.mem_cons, List.not_mem_nil, or_false] at ha
    rcases ha with rfl | rfl | rfl | rfl | rfl <;> trivial
  obtain ⟨hcovered, -, hreads⟩ := pool_keeps_writes freshPool_start hrun
  obtain ⟨last, hlast, hlast'⟩ := Option.map_eq_some_iff.mp hlsn
  exact ⟨w, hrun, Option.isNone_iff_eq_none.mp hnone, hwritten, hcovered, last, hlast, hlast',
    hreads 128 last hlast⟩

/-- A page of zeros is written back while it is held. -/
def stampedRun : List PoolAction :=
  [.createNew willingPool, .write 128 Page.zero, .writeBack willingPool [128]]

/-- What a read answers then is not what was written last: the write-back has stamped it. -/
theorem pool_stamps_checksum :
    ∃ w, freshPool.Start ∧ Reach PoolWorld.step Granting freshPool w ∧
      w.content 128 = some Page.zero ∧ ∃ page, Answers w.store 128 page ∧ page ≠ Page.zero := by
  have hcontent : (runList PoolWorld.step stampedRun freshPool).bind (·.content 128) =
      some Page.zero := rfl
  have hframe : ((runList PoolWorld.step stampedRun freshPool).bind
      fun w => (w.store.frames.lookup 128).map Frame.bytes) =
      some Page.zero.stampPageChecksum := rfl
  obtain ⟨w, hw, hlast⟩ := Option.bind_eq_some_iff.mp hcontent
  rw [hw] at hframe
  obtain ⟨frame, hlook, hbytes⟩ := Option.map_eq_some_iff.mp hframe
  have hrun : Reach PoolWorld.step Granting freshPool w := by
    apply reach_of_runList (fun a ha s => ?_) hw
    simp only [stampedRun, List.mem_cons, List.not_mem_nil, or_false] at ha
    rcases ha with rfl | rfl | rfl <;> trivial
  refine ⟨w, freshPool_start, hrun, hlast, frame.bytes,
    ⟨willingPool, .inr (.inr ⟨openScanRing 1, ?_⟩)⟩, fun hzero => ?_⟩
  · unfold fetch
    rw [hlook]
  · have hstamp := Page.isAllZero_stamp Page.zero
    rw [← hbytes, hzero] at hstamp
    exact absurd hstamp (by decide +kernel)

end Kds.Storage.Pool
