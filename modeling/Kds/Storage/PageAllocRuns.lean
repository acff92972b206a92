/-
  Kds.Storage.PageAllocRuns

  Page ids are allocated exclusively: core 0 takes them one by one or reserves extents for the
  peers, a peer issues from the extents granted to it, and pages are placed again at ids the log
  names.  A grant arrives when it arrives, and burns what the peer had left.
-/

import Kds.Lib.Places
import Kds.Lib.Run
import Kds.Storage.PageAllocStore

namespace Kds.Storage.PageAlloc

open List
open Function (update update_self update_of_ne)

-- The instance

/-- `DevicePageStore::Open` over a device whose map pages can all be read: every region it holds
    is loaded, the count is taken over them, and region 0 is there or created. -/
def Store.load (d : Device) (firstNewPageId : PageId) : Store :=
  let regions := fun r => if r < kRegionCount then
    (d.freeMap r).map fun free => (⟨free, d.headerlessMap r⟩ : MapRegion) else none
  { mapRegions := regions
    allocatedPages := ∑ r ∈ Finset.range kRegionCount, Store.bitsOf (regions r)
    nextNewPageId := firstNewPageId
    lease := none }

def Store.openStore (d : Device) (answers : Answers) (firstNewPageId : PageId) : Option Store :=
  match (Store.load d firstNewPageId).ensureRegionResident d answers 0 with
  | (s, .ok _) => some s
  | (_, .error _) => none

/-- An extent reserved on behalf of a core. -/
structure Grant where
  core : Nat
  extent : Extent
  deriving DecidableEq

/-- The instance.  Grants in flight are found by their request; `reserved` and `handedOut` are
    history. -/
structure World where
  device : Device
  core0 : Store
  nextExtent : PageId
  peers : Nat → Option Store
  requests : Nat
  grants : Nat → Option Grant
  reserved : List Grant
  handedOut : List (Nat × PageId)

inductive Action where
  | createNew (headerless : Bool) (answers : Answers)
  | createAt (answers : Answers) (inUse : Bool) (pageId : PageId)
  /-- The grant handler: a run that cannot be made durable is not granted. -/
  | reserve (core count : Nat) (answers : Answers) (persisted : Bool)
  | deliver (request : Nat)
  | flushMaps (freeLanded headerlessLanded : Nat → Bool)
  | openPeer (core : Nat) (answers : Answers) (firstNewPageId : PageId)
  | peerCreateAt (core : Nat) (answers : Answers) (inUse : Bool) (pageId : PageId)
  /-- `SetCoreOwnership`: from here on the peer allocates from its lease. -/
  | ownPeer (core : Nat)
  | peerCreateNew (core : Nat) (headerless : Bool) (answers : Answers)

namespace World

def new (headerless : Bool) (s : Store) (d : Device) (answers : Answers) :
    Store × StatusOr PageId :=
  if headerless then s.createNewHeaderless d answers else s.createNew d answers

def record (w : World) (core : Nat) : StatusOr PageId → World
  | .error _ => w
  | .ok id => { w with handedOut := w.handedOut ++ [(core, id)] }

def setPeer (w : World) (core : Nat) (s : Store) : World :=
  { w with peers := update w.peers core (some s) }

/-- What of core 0's maps lands on the device. -/
def flushed (w : World) (freeLanded headerlessLanded : Nat → Bool) : Device :=
  { freeMap := fun r => match w.core0.mapRegions r with
      | some pages => if freeLanded r then some pages.freeMap else w.device.freeMap r
      | none => w.device.freeMap r
    headerlessMap := fun r => match w.core0.mapRegions r with
      | some ⟨_, some map⟩ => if headerlessLanded r then some map else w.device.headerlessMap r
      | _ => w.device.headerlessMap r }

/-- One step; `none` where the action cannot be taken. -/
def step (w : World) : Action → Option World
  | .createNew headerless answers =>
    let out := new headerless w.core0 w.device answers
    some (({ w with core0 := out.1 } : World).record 0 out.2)
  | .createAt answers inUse id =>
    some { w with core0 := (w.core0.createAt w.device answers inUse id).1 }
  | .reserve core count answers persisted =>
    if core = 0 then none
    else
      match PageAlloc.reserve w.core0 w.nextExtent w.device answers count with
      | (s, next, .error _) => some { w with core0 := s, nextExtent := next }
      | (s, next, .ok extent) => some { w with
          core0 := s
          nextExtent := next
          reserved := w.reserved ++ [⟨core, extent⟩]
          requests := w.requests + 1
          grants := update w.grants w.requests
            (if persisted then some ⟨core, extent⟩ else none) }
  | .deliver request =>
    match w.grants request with
    | none => none
    | some g =>
      match w.peers g.core with
      | none => none
      | some s =>
        match s.lease with
        | none => none
        | some lease =>
          some ({ w.setPeer g.core { s with lease := some (lease.grant g.extent) } with
            grants := update w.grants request none })
  | .flushMaps freeLanded headerlessLanded =>
    some { w with device := w.flushed freeLanded headerlessLanded }
  | .openPeer core answers first =>
    if core = 0 ∨ (w.peers core).isSome then none
    else
      match Store.openStore w.device answers first with
      | none => none
      | some s => some (w.setPeer core s)
  | .peerCreateAt core answers inUse id =>
    match w.peers core with
    | none => none
    | some s => some (w.setPeer core (s.createAt w.device answers inUse id).1)
  | .ownPeer core =>
    match w.peers core with
    | none => none
    | some s =>
      if s.lease.isSome then none
      else some (w.setPeer core { s with lease := some LeasedIdSource.empty, coreId := core })
  | .peerCreateNew core headerless answers =>
    match w.peers core with
    | none => none
    | some s =>
      if s.lease.isSome then
        let out := new headerless s w.device answers
        some ((w.setPeer core out.1).record core out.2)
      else none

end World

-- A leased store

namespace Store

variable {s : Store} {l : LeasedIdSource}

theorem loadRegionIfPresent_lease (s : Store) (d : Device) (answers : Answers) (region : Nat) :
    (s.loadRegionIfPresent d answers region).1.lease = s.lease := by
  unfold loadRegionIfPresent
  rcases answers.readMap region with _ | e
  · rcases d.freeMap region with _ | free <;> rfl
  · rfl

theorem ensureRegionResident_lease (s : Store) (d : Device) (answers : Answers) (region : Nat) :
    (s.ensureRegionResident d answers region).1.lease = s.lease := by
  unfold ensureRegionResident
  rcases s.mapRegions region with _ | old
  · have hload := loadRegionIfPresent_lease s d answers region
    dsimp only
    by_cases hleased : s.lease.isSome = true
    · rw [if_pos hleased]
      rfl
    · rw [if_neg hleased]
      rcases hout : s.loadRegionIfPresent d answers region with ⟨s', _ | e⟩
      · rw [hout] at hload
        dsimp only at hload ⊢
        rcases s'.mapRegions region with _ | pages
        · dsimp only
          split_ifs
          · exact hload
          · rcases answers.ensureCapacity _ with _ | e <;> exact hload
        · exact hload
      · rw [hout] at hload
        exact hload
  · rfl

theorem createAt_lease (s : Store) (d : Device) (answers : Answers) (inUse : Bool) (id : PageId) :
    (s.createAt d answers inUse id).1.lease = s.lease := by
  unfold createAt
  split_ifs
  · rfl
  · rfl
  · rfl
  · rcases ensureAddressable answers id with _ | e
    · have hlease := ensureRegionResident_lease s d answers (freeMapRegionOf id)
      rcases hout : s.ensureRegionResident d answers (freeMapRegionOf id) with ⟨s', e | pages⟩
      · rw [hout] at hlease
        exact hlease
      · rw [hout] at hlease
        exact hlease
    · rfl

/-- What an allocation on a leased store has done: its lease lost what it answers, its maps still
    count. -/
structure Issues (s s' : Store) (l : LeasedIdSource) (answer : StatusOr PageId) : Prop where
  counted : s.Counted → s'.Counted
  lease : ∃ l', s'.lease = some l' ∧ (∀ id, l'.Holds id → l.Holds id) ∧
    ∀ id, answer = .ok id → l.Holds id ∧ ¬ l'.Holds id

theorem Issues.createNew (h : s.lease = some l) (d : Device) (answers : Answers) :
    Issues s (s.createNew d answers).1 l (s.createNew d answers).2 := by
  unfold Store.createNew
  rw [h]
  dsimp only
  unfold LeasedIdSource.next
  split_ifs with hspent
  · exact ⟨fun hc => hc, l, rfl, fun id hid => hid, fun id hid => by cases hid⟩
  · have hmono : ∀ id, LeasedIdSource.Holds { l with issued := l.issued + 1 } id → l.Holds id := by
      rintro id ⟨hlow, hhigh⟩
      dsimp only at hlow hhigh
      exact ⟨by omega, hhigh⟩
    dsimp only
    rcases ensureAddressable answers _ with _ | e
    · refine ⟨fun hc => hc, _, rfl, hmono, fun id hid => ?_⟩
      cases hid
      unfold LeasedIdSource.remaining at hspent
      refine ⟨⟨Nat.le_refl _, by omega⟩, ?_⟩
      rintro ⟨hlow, -⟩
      dsimp only at hlow
      omega
    · exact ⟨fun hc => hc, _, rfl, hmono, fun id hid => by cases hid⟩

theorem Counted.headerless (h : s.Counted) {region : Nat} {pages : MapRegion}
    (hregion : region < kRegionCount) (hold : s.mapRegions region = some pages)
    (map : Option Lib.Bitmap) : (s.setRegion region
      { pages with headerlessMap := map }).Counted := by
  apply h.put s.allocatedPages hregion
  rw [hold, bitsOf]

theorem Issues.createNewHeaderless (h : s.lease = some l) (d : Device) (answers : Answers)
    (hlow : ∀ id, l.Holds id → id < kMaxPageCount) :
    Issues s (s.createNewHeaderless d answers).1 l (s.createNewHeaderless d answers).2 := by
  have hnew := Issues.createNew h d answers
  unfold Store.createNewHeaderless
  rcases hcreate : s.createNew d answers with ⟨s', e | id⟩
  · rw [hcreate] at hnew
    exact hnew
  · rw [hcreate] at hnew
    obtain ⟨hcounted, l', hl', hmono, hissued⟩ := hnew
    have hin := regionOf_lt (hlow id (hissued id rfl).1)
    dsimp only at hcounted hl' hissued ⊢
    -- the region is there or made, with or without a headerless map
    have hmap : (s'.ensureHeaderlessMap d answers id).1.lease = some l' ∧
        (s'.Counted → (s'.ensureHeaderlessMap d answers id).1.Counted) := by
      have hlease := ensureRegionResident_lease s' d answers (freeMapRegionOf id)
      have hensure := fun hc : s'.Counted => hc.ensureRegionResident d answers hin
      unfold Store.ensureHeaderlessMap
      rcases hout : s'.ensureRegionResident d answers (freeMapRegionOf id) with ⟨s'', e | pages⟩
      · rw [hout] at hlease hensure
        exact ⟨hlease.trans hl', fun hc => (hensure hc).1⟩
      · rw [hout] at hlease hensure
        have hleased : s''.lease.isSome = true := by
          rw [show s''.lease = some l' from hlease.trans hl']
          rfl
        dsimp only at hlease hensure ⊢
        rcases pages.headerlessMap with _ | map
        · dsimp only
          rw [if_pos hleased]
          exact ⟨hlease.trans hl', fun hc =>
            (hensure hc).1.headerless hin ((hensure hc).2 pages rfl) _⟩
        · exact ⟨hlease.trans hl', fun hc => (hensure hc).1⟩
    obtain ⟨hlease, hkeep⟩ := hmap
    rcases hout : s'.ensureHeaderlessMap d answers id with ⟨s'', e | map⟩
    · rw [hout] at hlease hkeep
      exact ⟨fun hc => hkeep (hcounted hc), l', hlease, hmono, fun i hi => by cases hi⟩
    · rw [hout] at hlease hkeep
      dsimp only at hlease hkeep ⊢
      rcases hregion : s''.mapRegions (freeMapRegionOf id) with _ | pages
      · exact ⟨fun hc => hkeep (hcounted hc), l', hlease, hmono, hissued⟩
      · exact ⟨fun hc => (hkeep (hcounted hc)).headerless hin hregion _, l', hlease, hmono, hissued⟩

end Store

-- Where the ids are

/-- An id was handed out, is a peer's to issue, or is on its way to a peer. -/
inductive Place where
  | handed
  | lease (core : Nat)
  | flight (request : Nat)
  deriving DecidableEq

namespace World

def held (w : World) : Place → Nat → Prop
  | .handed, id => id ∈ w.handedOut.map Prod.snd
  | .lease core, id => ∃ s l, w.peers core = some s ∧ s.lease = some l ∧ l.Holds id
  | .flight request, id => ∃ g, w.grants request = some g ∧ g.extent.Contains id

/-- The core that a place's ids were reserved for. -/
def reservedFor (w : World) : Place → Option Nat
  | .handed => none
  | .lease core => some core
  | .flight request => (w.grants request).map Grant.core

/-- An id that core 0 never had free since the start. -/
structure Legal (start : Store) (id : Nat) : Prop where
  notMap : isMapPageId id = false
  belowCeiling : id < kMaxPageCount
  wasFree : start.mapped id = false

/-- **The invariant.**  Everything handed out, reserved or on its way has its bit set in core 0's
    maps, and no id is at two places. -/
structure Inv (start : Store) (w : World) : Prop where
  sound : w.core0.Sound w.device
  grown : Store.Extends start w.core0
  counted : ∀ core s, w.peers core = some s → s.Counted
  marked : ∀ p id, w.held p id → w.core0.mapped id = true
  reservedMarked : ∀ g ∈ w.reserved, ∀ id, g.extent.Contains id → w.core0.mapped id = true
  flight : ∀ request, w.requests ≤ request → w.grants request = none
  unique : Lib.Exclusive w.held
  once : (w.handedOut.map Prod.snd).Nodup
  legal : ∀ p id, w.held p id → Legal start id
  owed : ∀ p core id, w.reservedFor p = some core → w.held p id →
    ∃ g ∈ w.reserved, g.core = core ∧ g.extent.Contains id
  own : ∀ id, (0, id) ∈ w.handedOut → ∀ g ∈ w.reserved, ¬ g.extent.Contains id
  leased : ∀ core id, (core, id) ∈ w.handedOut → core ≠ 0 →
    ∃ g ∈ w.reserved, g.core = core ∧ g.extent.Contains id
  reservedLegal : ∀ g ∈ w.reserved, ∀ id, g.extent.Contains id →
    Legal start id ∧ freeMapRegionOf id = freeMapRegionOf g.extent.first
  apart : w.reserved.Pairwise fun g other => ∀ id, g.extent.Contains id → ¬ other.extent.Contains id
  noPeer0 : w.peers 0 = none

namespace Inv

variable {start : Store} {w : World} {s : Store} {id core : Nat} {w' : World}

theorem setCore0 (h : Inv start w) (hsound : s.Sound w.device) (hbits : Store.Extends w.core0 s)
    (next : PageId) : Inv start { w with core0 := s, nextExtent := next } :=
  { h with
    sound := hsound
    grown := h.grown.trans hbits
    marked := fun p id hid => hbits.mapped id (h.marked p id hid)
    reservedMarked := fun g hg id hid => hbits.mapped id (h.reservedMarked g hg id hid) }

theorem wasFree (h : Inv start w) (hclear : w.core0.mapped id = false) :
    start.mapped id = false := by
  rcases hold : start.mapped id with _ | _
  · rfl
  · exact absurd (h.grown.mapped id hold) (by rw [hclear]; exact Bool.false_ne_true)

theorem not_held (h : Inv start w) (hclear : w.core0.mapped id = false) (p : Place) :
    ¬ w.held p id := by
  intro hid
  rw [h.marked p id hid] at hclear
  cases hclear

theorem handOut (h : Inv start w) (hnone : ∀ p, ¬ w.held p id) (hmarked : w.core0.mapped id = true)
    (hlegal : Legal start id) (hown : core = 0 → ∀ g ∈ w.reserved, ¬ g.extent.Contains id)
    (hleased : core ≠ 0 → ∃ g ∈ w.reserved, g.core = core ∧ g.extent.Contains id) :
    Inv start { w with handedOut := w.handedOut ++ [(core, id)] } := by
  have hheld : ∀ p i, World.held { w with handedOut := w.handedOut ++ [(core, id)] } p i →
      w.held p i ∨ (p = .handed ∧ i = id) := by
    rintro (_ | k | n) i hi
    · change i ∈ (w.handedOut ++ [(core, id)]).map Prod.snd at hi
      rw [map_append, mem_append] at hi
      exact hi.imp_right fun hlast => ⟨rfl, mem_singleton.mp hlast⟩
    · exact .inl hi
    · exact .inl hi
  have hmem : ∀ x ∈ w.handedOut ++ [(core, id)], x ∈ w.handedOut ∨ x = (core, id) :=
    fun x hx => (mem_append.mp hx).imp_right mem_singleton.mp
  refine { h with
    marked := fun p i hi => ?_
    unique := ?_
    once := ?_
    legal := fun p i hi => ?_
    owed := fun p k i hp hi => ?_
    own := fun i hi => ?_
    leased := fun k i hi hk => ?_ }
  · rcases hheld p i hi with hold | ⟨-, rfl⟩
    · exact h.marked p i hold
    · exact hmarked
  · apply h.unique.put .handed
    · exact fun p i hi => (hheld p i hi).imp_right And.left
    · rintro p i hthere - hold
      rcases hheld .handed i hthere with hin | ⟨-, rfl⟩
      · exact .inl hin
      · exact absurd hold (hnone p)
  · show ((w.handedOut ++ [(core, id)]).map Prod.snd).Nodup
    rw [map_append]
    refine nodup_append.mpr ⟨h.once, nodup_singleton id, fun x hx y hy heq => ?_⟩
    rw [heq, mem_singleton.mp hy] at hx
    exact hnone .handed hx
  · rcases hheld p i hi with hold | ⟨-, rfl⟩
    · exact h.legal p i hold
    · exact hlegal
  · rcases hheld p i hi with hold | ⟨rfl, -⟩
    · exact h.owed p k i hp hold
    · cases hp
  · rcases hmem _ hi with hold | hnew
    · exact h.own i hold
    · cases hnew
      exact hown rfl
  · rcases hmem _ hi with hold | hnew
    · exact h.leased k i hold hk
    · cases hnew
      exact hleased hk

theorem setPeer (h : Inv start w) (hcore : core ≠ 0) (hcounted : s.Counted)
    (hheld : ∀ l id, s.lease = some l → l.Holds id → w.held (.lease core) id) :
    Inv start (w.setPeer core s) := by
  have hfrom : ∀ p id, (w.setPeer core s).held p id → w.held p id := by
    rintro (_ | k | n) id hid
    · exact hid
    · obtain ⟨t, l, ht, hl, hl'⟩ := hid
      change update w.peers core (some s) k = some t at ht
      by_cases hk : k = core
      · subst hk
        rw [update_self] at ht
        cases ht
        exact hheld l id hl hl'
      · rw [update_of_ne hk] at ht
        exact ⟨t, l, ht, hl, hl'⟩
    · exact hid
  refine { h with
    counted := fun k t ht => ?_
    marked := fun p id hid => h.marked p id (hfrom p id hid)
    unique := h.unique.mono hfrom
    legal := fun p id hid => h.legal p id (hfrom p id hid)
    owed := fun p k id hp hid => h.owed p k id hp (hfrom p id hid)
    noPeer0 := (update_of_ne (Ne.symm hcore) _ _).trans h.noPeer0 }
  change update w.peers core (some s) k = some t at ht
  by_cases hk : k = core
  · subst hk
    rw [update_self] at ht
    cases ht
    exact hcounted
  · rw [update_of_ne hk] at ht
    exact h.counted k t ht

theorem ne_zero_of_peer (h : Inv start w) (hs : w.peers core = some s) : core ≠ 0 := by
  rintro rfl
  rw [h.noPeer0] at hs
  cases hs

theorem createNew (h : Inv start w) (headerless : Bool) (answers : Answers) :
    Inv start (({ w with core0 := (new headerless w.core0 w.device answers).1 } : World).record 0
      (new headerless w.core0 w.device answers).2) := by
  have hnew : Store.Allocated w.core0 (new headerless w.core0 w.device answers).1 w.device
      (new headerless w.core0 w.device answers).2 := by
    unfold new
    cases headerless with
    | false => exact h.sound.createNew answers
    | true => exact h.sound.createNewHeaderless answers
  have hset := h.setCore0 hnew.sound hnew.bits w.nextExtent
  rcases hans : (new headerless w.core0 w.device answers).2 with e | id
  · exact hset
  · obtain ⟨hclear, hmarked⟩ := hnew.fresh id hans
    obtain ⟨hmap, hlt⟩ := hnew.legal id hans
    refine hset.handOut (h.not_held hclear) hmarked ⟨hmap, hlt, h.wasFree hclear⟩
      (fun _ g hg hid => ?_) fun hzero => absurd rfl hzero
    rw [h.reservedMarked g hg id hid] at hclear
    cases hclear

theorem peerCreateNew (h : Inv start w) (hs : w.peers core = some s) {l : LeasedIdSource}
    (hl : s.lease = some l) (headerless : Bool) (answers : Answers) :
    Inv start ((w.setPeer core (new headerless s w.device answers).1).record core
      (new headerless s w.device answers).2) := by
  have hcore := h.ne_zero_of_peer hs
  have hheld : ∀ id, l.Holds id → w.held (.lease core) id := fun id hid => ⟨s, l, hs, hl, hid⟩
  have hnew : Store.Issues s (new headerless s w.device answers).1 l
      (new headerless s w.device answers).2 := by
    unfold new
    cases headerless with
    | false => exact .createNew hl w.device answers
    | true =>
      exact .createNewHeaderless hl w.device answers fun id hid =>
        (h.legal _ id (hheld id hid)).belowCeiling
  obtain ⟨hcounted, l', hl', hmono, hissued⟩ := hnew
  have hset := h.setPeer hcore (hcounted (h.counted core s hs)) fun k id hk hid => by
    cases hl'.symm.trans hk
    exact hheld id (hmono id hid)
  rcases hans : (new headerless s w.device answers).2 with e | id
  · exact hset
  · obtain ⟨hin, hout⟩ := hissued id hans
    have hat := hheld id hin
    refine hset.handOut (fun p hp => ?_) (h.marked _ id hat) (h.legal _ id hat)
      (fun hzero => absurd hzero hcore) fun _ => h.owed (.lease core) core id rfl hat
    -- the id was in this lease and nowhere else, and the lease no longer has it
    rcases p with _ | k | n
    · have heq := h.unique id .handed (.lease core) hp hat
      cases heq
    · obtain ⟨t, m, ht, hm, hm'⟩ := hp
      change update w.peers core _ k = some t at ht
      by_cases hk : k = core
      · subst hk
        rw [update_self] at ht
        cases ht
        cases hl'.symm.trans hm
        exact hout hm'
      · rw [update_of_ne hk] at ht
        have heq := h.unique id (.lease k) (.lease core) ⟨t, m, ht, hm, hm'⟩ hat
        exact hk (Place.lease.inj heq)
    · have heq := h.unique id (.flight n) (.lease core) hp hat
      cases heq

theorem reserve (h : Inv start w) {count : Nat} {answers : Answers} {persisted : Bool}
    (hs : w.step (.reserve core count answers persisted) = some w') : Inv start w' := by
  have hout := h.sound.reserve w.nextExtent answers count
  simp only [World.step] at hs
  by_cases hcore : core = 0
  · rw [if_pos hcore] at hs
    cases hs
  rw [if_neg hcore] at hs
  rcases hres : PageAlloc.reserve w.core0 w.nextExtent w.device answers count with
    ⟨s, next, e | extent⟩
  · rw [hres] at hs hout
    cases hs
    exact h.setCore0 hout.sound hout.bits next
  · rw [hres] at hs hout
    cases hs
    have hset := h.setCore0 hout.sound hout.bits next
    have hfresh : ∀ id, extent.Contains id → w.core0.mapped id = false ∧ s.mapped id = true :=
      hout.fresh extent rfl
    have hlegal : ∀ id, extent.Contains id → Legal start id := by
      intro id hid
      obtain ⟨hmap, hlt⟩ := hout.legal extent rfl id hid
      exact ⟨hmap, hlt, h.wasFree (hfresh id hid).1⟩
    let w' : World := { w with
      core0 := s
      nextExtent := next
      reserved := w.reserved ++ [⟨core, extent⟩]
      requests := w.requests + 1
      grants := update w.grants w.requests
        (if persisted then some ⟨core, extent⟩ else none) }
    have hheld : ∀ p id, w'.held p id →
        w.held p id ∨ (p = .flight w.requests ∧ extent.Contains id) := by
      rintro (_ | k | n) id hid
      · exact .inl hid
      · exact .inl hid
      · obtain ⟨g, hg, hin⟩ := hid
        change update w.grants w.requests _ n = some g at hg
        by_cases hn : n = w.requests
        · subst hn
          rw [update_self] at hg
          split_ifs at hg
          cases hg
          exact .inr ⟨rfl, hin⟩
        · rw [update_of_ne hn] at hg
          exact .inl ⟨g, hg, hin⟩
    have hmem : ∀ g ∈ w.reserved ++ [⟨core, extent⟩], g ∈ w.reserved ∨ g = ⟨core, extent⟩ :=
      fun g hg => (mem_append.mp hg).imp_right mem_singleton.mp
    refine { hset with
      marked := fun p id hid => ?_
      reservedMarked := fun g hg id hid => ?_
      flight := fun n hn => ?_
      unique := ?_
      legal := fun p id hid => ?_
      owed := fun p k id hp hid => ?_
      own := fun id hid g hg hin => ?_
      leased := fun k id hid hk => ?_
      reservedLegal := fun g hg id hid => ?_
      apart := ?_ }
    · rcases hheld p id hid with hold | ⟨-, hnew⟩
      · exact hset.marked p id hold
      · exact (hfresh id hnew).2
    · rcases hmem g hg with hold | rfl
      · exact hset.reservedMarked g hold id hid
      · exact (hfresh id hid).2
    · exact (update_of_ne (by dsimp only at hn; omega) _ _).trans
        (h.flight n (by dsimp only at hn; omega))
    · apply h.unique.put (.flight w.requests)
      · exact fun p id hid => (hheld p id hid).imp_right And.left
      · rintro p id hthere - hold
        rcases hheld _ id hthere with hin | ⟨-, hnew⟩
        · exact .inl hin
        · exact absurd hold (h.not_held (hfresh id hnew).1 p)
    · rcases hheld p id hid with hold | ⟨-, hnew⟩
      · exact h.legal p id hold
      · exact hlegal id hnew
    · rcases hheld p id hid with hold | ⟨rfl, hnew⟩
      · have hsame : w.reservedFor p = some k := by
          rcases p with _ | j | n
          · cases hp
          · exact hp
          · obtain ⟨g, hg, -⟩ := hold
            have hn : n ≠ w.requests := by
              rintro rfl
              rw [h.flight _ (Nat.le_refl _)] at hg
              cases hg
            change (update w.grants w.requests _ n).map Grant.core = some k at hp
            rwa [update_of_ne hn] at hp
        obtain ⟨g, hg, hat⟩ := h.owed p k id hsame hold
        exact ⟨g, mem_append_left _ hg, hat⟩
      · refine ⟨⟨core, extent⟩, mem_concat_self, ?_, hnew⟩
        change (update w.grants w.requests _ w.requests).map Grant.core = some k at hp
        rw [update_self] at hp
        split_ifs at hp
        · exact Option.some.inj hp
        · cases hp
    · rcases hmem g hg with hold | rfl
      · exact h.own id hid g hold hin
      · exact h.not_held (hfresh id hin).1 .handed (mem_map.mpr ⟨(0, id), hid, rfl⟩)
    · obtain ⟨g, hg, hat⟩ := h.leased k id hid hk
      exact ⟨g, mem_append_left _ hg, hat⟩
    · rcases hmem g hg with hold | rfl
      · exact h.reservedLegal g hold id hid
      · exact ⟨hlegal id hid, hout.inRegion extent rfl id hid⟩
    · refine pairwise_append.mpr ⟨h.apart, pairwise_singleton .., fun g hg other hother => ?_⟩
      intro id hid hnew
      rw [mem_singleton.mp hother] at hnew
      have hclear := (hfresh id hnew).1
      rw [h.reservedMarked g hg id hid] at hclear
      cases hclear

theorem deliver (h : Inv start w) {request : Nat} (hs : w.step (.deliver request) = some w') :
    Inv start w' := by
  simp only [World.step] at hs
  rcases hg : w.grants request with _ | g
  · rw [hg] at hs
    cases hs
  rw [hg] at hs
  dsimp only at hs
  rcases hp : w.peers g.core with _ | s
  · rw [hp] at hs
    cases hs
  rw [hp] at hs
  dsimp only at hs
  rcases hl : s.lease with _ | l
  · rw [hl] at hs
    cases hs
  rw [hl] at hs
  cases hs
  let w' : World := { w.setPeer g.core { s with lease := some (l.grant g.extent) } with
    grants := update w.grants request none }
  -- the lease and the request trade places
  let e : Place ≃ Place := if g.extent.count = 0 then Equiv.refl Place
    else Equiv.swap (.lease g.core) (.flight request)
  have hflight : ∀ n id, w'.held (.flight n) id → n ≠ request ∧ w.held (.flight n) id := by
    rintro n id ⟨other, hother, hin⟩
    change update w.grants request none n = some other at hother
    by_cases hn : n = request
    · subst hn
      rw [update_self] at hother
      cases hother
    · rw [update_of_ne hn] at hother
      exact ⟨hn, other, hother, hin⟩
  have hlease : ∀ k id, w'.held (.lease k) id →
      w.held (e (.lease k)) id ∧ w.reservedFor (e (.lease k)) = some k := by
    rintro k id ⟨t, m, ht, hm, hid⟩
    change update w.peers g.core _ k = some t at ht
    by_cases hk : k = g.core
    · subst hk
      rw [update_self] at ht
      cases ht
      cases hm
      unfold LeasedIdSource.grant at hid
      split_ifs at hid with hzero
      · rw [show e = Equiv.refl Place from if_pos hzero]
        exact ⟨⟨s, l, hp, hl, hid⟩, rfl⟩
      · rw [show e = _ from if_neg hzero, Equiv.swap_apply_left]
        exact ⟨⟨g, hg, hid⟩, congrArg (Option.map Grant.core) hg⟩
    · rw [update_of_ne hk] at ht
      have hsame : e (.lease k) = .lease k := by
        by_cases hzero : g.extent.count = 0
        · rw [show e = Equiv.refl Place from if_pos hzero]
          rfl
        · rw [show e = _ from if_neg hzero]
          exact Equiv.swap_apply_of_ne_of_ne (fun heq => hk (Place.lease.inj heq)) (by simp)
      rw [hsame]
      exact ⟨⟨t, m, ht, hm, hid⟩, rfl⟩
  have hother : ∀ p, (∀ k, p ≠ .lease k) → (∀ n, p = .flight n → n ≠ request) → e p = p := by
    intro p hnlease hnflight
    by_cases hzero : g.extent.count = 0
    · rw [show e = Equiv.refl Place from if_pos hzero]
      rfl
    · rw [show e = _ from if_neg hzero]
      exact Equiv.swap_apply_of_ne_of_ne (hnlease g.core) fun heq => hnflight request heq rfl
  have hheld : ∀ p id, w'.held p id → w.held (e p) id := by
    rintro (_ | k | n) id hid
    · rw [hother .handed (by simp) (by simp)]
      exact hid
    · exact (hlease k id hid).1
    · obtain ⟨hn, hold⟩ := hflight n id hid
      rw [hother (.flight n) (by simp) (fun m hm => (Place.flight.inj hm) ▸ hn)]
      exact hold
  refine { h with
    counted := fun k t ht => ?_
    marked := fun p id hid => h.marked _ id (hheld p id hid)
    flight := fun n hn => ?_
    unique := h.unique.rename e hheld
    legal := fun p id hid => h.legal _ id (hheld p id hid)
    owed := fun p k id hfor hid => ?_
    noPeer0 := (update_of_ne (Ne.symm (h.ne_zero_of_peer hp)) _ _).trans h.noPeer0 }
  · change update w.peers g.core _ k = some t at ht
    by_cases hk : k = g.core
    · subst hk
      rw [update_self] at ht
      cases ht
      exact h.counted _ s hp
    · rw [update_of_ne hk] at ht
      exact h.counted k t ht
  · change update w.grants request none n = none
    by_cases hn' : n = request
    · subst hn'
      exact update_self ..
    · exact (update_of_ne hn' _ _).trans (h.flight n hn)
  · rcases p with _ | j | n
    · cases hfor
    · obtain ⟨hold, howner⟩ := hlease j id hid
      cases hfor
      exact h.owed _ _ id howner hold
    · obtain ⟨hn, hold⟩ := hflight n id hid
      change (update w.grants request none n).map Grant.core = some k at hfor
      rw [update_of_ne hn] at hfor
      exact h.owed (.flight n) k id hfor hold

theorem flushMaps (h : Inv start w) (freeLanded headerlessLanded : Nat → Bool) :
    Inv start { w with device := w.flushed freeLanded headerlessLanded } := by
  refine { h with sound := { h.sound with resident := fun r hr hnone => ?_ } }
  show (match w.core0.mapRegions r with
    | some pages => if freeLanded r then some pages.freeMap else w.device.freeMap r
    | none => w.device.freeMap r) = none
  rw [hnone]
  exact h.sound.resident r hr hnone

end Inv

-- Steps and runs

theorem counted_load (d : Device) (first : PageId) : (Store.load d first).Counted := by
  simp only [Store.Counted, Store.setBits, Store.load]

theorem openStore_spec {d : Device} {answers : Answers} {first : PageId} {s : Store}
    (h : Store.openStore d answers first = some s) : s.Counted ∧ s.lease = none := by
  unfold Store.openStore at h
  have hcounted := (counted_load d first).ensureRegionResident d answers
    (show 0 < kRegionCount by decide)
  have hlease := Store.ensureRegionResident_lease (Store.load d first) d answers 0
  rcases hout : (Store.load d first).ensureRegionResident d answers 0 with ⟨t, e | pages⟩
  · rw [hout] at h
    cases h
  · rw [hout] at h hcounted hlease
    cases h
    exact ⟨hcounted.1, hlease⟩

/-- Every step of the two allocators keeps their maps apart. -/
theorem Inv.step {start : Store} {w w' : World} (h : Inv start w) (a : Action)
    (hs : w.step a = some w') : Inv start w' := by
  cases a with
  | createNew headerless answers =>
    cases hs
    exact h.createNew headerless answers
  | createAt answers inUse id =>
    cases hs
    obtain ⟨hsound, hbits, -⟩ := h.sound.createAt answers inUse id
    exact h.setCore0 hsound hbits w.nextExtent
  | reserve core count answers persisted => exact h.reserve hs
  | deliver request => exact h.deliver hs
  | flushMaps freeLanded headerlessLanded =>
    cases hs
    exact h.flushMaps freeLanded headerlessLanded
  | openPeer core answers first =>
    simp only [World.step] at hs
    split_ifs at hs with hbad
    rcases hopen : Store.openStore w.device answers first with _ | s
    · rw [hopen] at hs
      cases hs
    · rw [hopen] at hs
      cases hs
      obtain ⟨hcounted, hlease⟩ := openStore_spec hopen
      refine h.setPeer (fun hzero => hbad (.inl hzero)) hcounted fun l id hl hid => ?_
      rw [hlease] at hl
      cases hl
  | peerCreateAt core answers inUse id =>
    simp only [World.step] at hs
    rcases hp : w.peers core with _ | s
    · rw [hp] at hs
      cases hs
    · rw [hp] at hs
      cases hs
      refine h.setPeer (h.ne_zero_of_peer hp) ((h.counted core s hp).createAt ..)
        fun l id' hl hid => ?_
      rw [Store.createAt_lease] at hl
      exact ⟨s, l, hp, hl, hid⟩
  | ownPeer core =>
    simp only [World.step] at hs
    rcases hp : w.peers core with _ | s
    · rw [hp] at hs
      cases hs
    · rw [hp] at hs
      dsimp only at hs
      split_ifs at hs with hleased
      cases hs
      refine h.setPeer (h.ne_zero_of_peer hp) (h.counted core s hp) fun l id hl hid => ?_
      cases hl
      exact absurd hid.2 (Nat.not_lt_zero id)
  | peerCreateNew core headerless answers =>
    simp only [World.step] at hs
    rcases hp : w.peers core with _ | s
    · rw [hp] at hs
      cases hs
    · rw [hp] at hs
      dsimp only at hs
      split_ifs at hs with hleased
      cases hs
      obtain ⟨l, hl⟩ := Option.isSome_iff_exists.mp hleased
      exact h.peerCreateNew hp hl headerless answers

end World

/-- A consistent free map: a region that claims the id of its headerless map has that map. -/
def Device.Consistent (d : Device) : Prop :=
  ∀ r free, d.freeMap r = some free → d.headerlessMap r = none → free.test 2 = false

/-- Core 0 has opened its store over the device; there are no peers and nothing is handed out. -/
structure World.Start (w : World) : Prop where
  opened : ∃ answers first, Store.openStore w.device answers first = some w.core0
  noPeers : ∀ core, w.peers core = none
  noGrants : ∀ request, w.grants request = none
  nothingReserved : w.reserved = []
  nothingOut : w.handedOut = []

theorem sound_of_openStore {s : Store} {d : Device} {answers : Answers} {first : PageId}
    (h : Store.openStore d answers first = some s) (hmap : d.Consistent) : s.Sound d := by
  have hload : (Store.load d first).Sound d := by
    refine ⟨rfl, World.counted_load d first, fun r hr hnone => ?_, fun r pages hpages hnone => ?_⟩
    · simp only [Store.load, if_pos hr, Option.map_eq_none_iff] at hnone
      exact hnone
    · simp only [Store.load] at hpages
      split_ifs at hpages
      obtain ⟨free, hfree, rfl⟩ := Option.map_eq_some_iff.mp hpages
      exact hmap r free hfree hnone
  have hensure := (hload.ensureRegionResident answers (show 0 < kRegionCount by decide)).1
  unfold Store.openStore at h
  rcases hout : (Store.load d first).ensureRegionResident d answers 0 with ⟨t, e | pages⟩
  · rw [hout] at h
    cases h
  · rw [hout] at h hensure
    cases h
    exact hensure

theorem World.Start.inv {w : World} (h : w.Start) (hmap : w.device.Consistent) :
    World.Inv w.core0 w := by
  obtain ⟨answers, first, hopen⟩ := h.opened
  have hsound := sound_of_openStore hopen hmap
  have hnone : ∀ p id, ¬ w.held p id := by
    rintro (_ | k | n) id hid
    · change id ∈ w.handedOut.map Prod.snd at hid
      rw [h.nothingOut] at hid
      cases hid
    · obtain ⟨s, l, hs, -⟩ := hid
      rw [h.noPeers] at hs
      cases hs
    · obtain ⟨g, hg, -⟩ := hid
      rw [h.noGrants] at hg
      cases hg
  refine ⟨hsound, .refl _, fun core s hs => ?_, fun p id hid => absurd hid (hnone p id), ?_,
    fun n _ => h.noGrants n, fun id p q hp => absurd hp (hnone p id), ?_,
    fun p id hid => absurd hid (hnone p id), fun p k id _ hid => absurd hid (hnone p id), ?_, ?_,
      ?_,
    ?_, h.noPeers 0⟩
  · rw [h.noPeers] at hs
    cases hs
  all_goals
    simp only [h.nothingReserved, h.nothingOut]
    simp

/-- **Page ids are allocated exclusively.**  Whatever is allocated, reserved, granted, placed again
    and flushed in whatever order: no id is handed out twice, reserved extents are apart, core 0's
    ids are in none of them and a peer's ids are in its own; what is handed out or reserved was
    free at the start, is no bitmap's page and below the ceiling; an extent stays within its
    region; and every store's count is the number of bits set in its free maps. -/
theorem page_ids_exclusive {w0 w : World} (hstart : w0.Start) (hmap : w0.device.Consistent)
    (hrun : Lib.Reach World.step (fun _ _ => True) w0 w) :
    (w.handedOut.map Prod.snd).Nodup ∧
      (w.reserved.Pairwise fun g other => ∀ id, g.extent.Contains id → ¬ other.extent.Contains id) ∧
      (∀ id, (0, id) ∈ w.handedOut → ∀ g ∈ w.reserved, ¬ g.extent.Contains id) ∧
      (∀ core id, (core, id) ∈ w.handedOut → core ≠ 0 →
        ∃ g ∈ w.reserved, g.core = core ∧ g.extent.Contains id) ∧
      (∀ id ∈ w.handedOut.map Prod.snd, World.Legal w0.core0 id) ∧
      (∀ g ∈ w.reserved, ∀ id, g.extent.Contains id → World.Legal w0.core0 id ∧
        freeMapRegionOf id = freeMapRegionOf g.extent.first) ∧
      w.core0.allocatedPages = w.core0.setBits ∧
      ∀ core s, w.peers core = some s → s.allocatedPages = s.setBits := by
  have h : World.Inv w0.core0 w := by
    apply hrun.invariant (hstart.inv hmap)
    exact fun a ht _ hs => ht.step a hs
  exact ⟨h.once, h.apart, h.own, h.leased, h.legal .handed, h.reservedLegal, h.sound.counted,
    h.counted⟩

/-- A device that holds nothing and does what it is asked. -/
def emptyDevice : Device := ⟨fun _ => none, fun _ => none⟩

def willing : Answers := ⟨fun _ => none, fun _ => none⟩

def freshWorld : World :=
  { device := emptyDevice
    core0 := ((Store.load emptyDevice 128).ensureRegionResident emptyDevice willing 0).1
    nextExtent := 128
    peers := fun _ => none
    requests := 0
    grants := fun _ => none
    reserved := []
    handedOut := [] }

theorem freshWorld_start : freshWorld.Start :=
  ⟨⟨willing, 128, rfl⟩, fun _ => rfl, fun _ => rfl, rfl, rfl⟩

/-- Core 0 allocates, reserves four ids for core 1 and allocates again, a headerless page this
    time; core 1 issues two of its four. -/
def sharedRun : List Action :=
  [.createNew false willing, .reserve 1 4 willing true, .createNew true willing,
    .openPeer 1 willing 128, .ownPeer 1, .deliver 0, .peerCreateNew 1 false willing,
    .createAt willing false 131, .peerCreateNew 1 true willing]

def sharedIds : List (Nat × PageId) := [(0, 128), (0, 133), (1, 129), (1, 130)]

theorem page_ids_exclusive_shared :
    ∃ w, Lib.Reach World.step (fun _ _ => True) freshWorld w ∧ w.handedOut = sharedIds ∧
      (w.handedOut.map Prod.snd).Nodup ∧ w.core0.allocatedPages = w.core0.setBits := by
  have hend : (Lib.runList World.step sharedRun freshWorld).any
      (fun w => w.handedOut = sharedIds) = true := by decide +kernel
  obtain ⟨w, hw, hids⟩ := (Option.any_eq_true _ _).mp hend
  have hrun : Lib.Reach World.step (fun _ _ => True) freshWorld w :=
    Lib.reach_of_runList (fun _ _ _ => trivial) hw
  have hmap : freshWorld.device.Consistent := fun r free hfree => by cases hfree
  obtain ⟨hnodup, -, -, -, -, -, hcount, -⟩ := page_ids_exclusive freshWorld_start hmap hrun
  exact ⟨w, hrun, of_decide_eq_true hids, hnodup, hcount⟩

end Kds.Storage.PageAlloc
