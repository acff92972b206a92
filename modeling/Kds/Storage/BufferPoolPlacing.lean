/-
  Kds.Storage.BufferPoolPlacing

  What placing a page does to the maps: bits stay set, and no other page becomes headerless or
  ceases to be.
-/

import Kds.Storage.BufferPoolOps

namespace Kds.Storage.Pool

open Lib PageAlloc
open Function (update update_self update_of_ne)

-- The maps

/-- Bits stay set, and the headerless pages are the same. -/
structure Grows (m m' : PageAlloc.Store) : Prop where
  leased : m'.lease.isSome = m.lease.isSome
  bits : ∀ id, m.mapped id = true → m'.mapped id = true
  marks : ∀ id, m'.headerlessMapBytesFor id = m.headerlessMapBytesFor id

/-- A region that is not in memory is not on the device, or never read. -/
def Loaded (m : PageAlloc.Store) (d : PageAlloc.Device) : Prop :=
  m.lease.isSome = true ∨ ∀ r < kRegionCount, m.mapRegions r = none → d.freeMap r = none

variable {m m' m'' : PageAlloc.Store} {d : PageAlloc.Device} {answers : PageAlloc.Answers}
    {pages : MapRegion} {region : Nat} {id : PageId}

theorem Grows.refl (m : PageAlloc.Store) : Grows m m := ⟨rfl, fun _ h => h, fun _ => rfl⟩

theorem Grows.trans (h : Grows m m') (h' : Grows m' m'') : Grows m m'' :=
  ⟨h'.leased.trans h.leased, fun id hid => h'.bits id (h.bits id hid),
    fun id => (h'.marks id).trans (h.marks id)⟩

/-- The headerless bits that a region's maps amount to. -/
def headerlessBits : Option MapRegion → Bitmap
  | some pages => pages.headerlessMap.getD formatFreeMapPage
  | none => formatFreeMapPage

theorem headerlessMapBytesFor_eq (m : PageAlloc.Store) (id : PageId) :
    m.headerlessMapBytesFor id = headerlessBits (m.mapRegions (freeMapRegionOf id)) := by
  unfold Store.headerlessMapBytesFor headerlessBits
  cases m.mapRegions (freeMapRegionOf id) with
  | none => rfl
  | some pages => rfl

theorem Grows.put (hlease : m'.lease.isSome = m.lease.isSome)
    (hregions : m'.mapRegions = update m.mapRegions region (some pages))
    (hbits : ∀ old, m.mapRegions region = some old → ∀ i, old.freeMap.test i = true →
      pages.freeMap.test i = true)
    (hmarks : headerlessBits (some pages) = headerlessBits (m.mapRegions region)) : Grows m m' := by
  refine ⟨hlease, fun id hid => ?_, fun id => ?_⟩
  · by_cases h : freeMapRegionOf id = region
    · have hnew : m'.mapRegions region = some pages := by
        rw [hregions, update_self]
      rw [Store.mapped_eq h hnew]
      cases hold : m.mapRegions region with
      | none =>
        rw [Store.not_mapped_of_none (by rw [h]; exact hold)] at hid
        cases hid
      | some old =>
        apply hbits old hold
        rw [Store.mapped_eq h hold] at hid
        exact hid
    · have hsame : m'.mapRegions (freeMapRegionOf id) = m.mapRegions (freeMapRegionOf id) := by
        rw [hregions, update_of_ne h]
      unfold Store.mapped Store.freeMapBytesFor at hid ⊢
      rw [hsame]
      exact hid
  · rw [headerlessMapBytesFor_eq, headerlessMapBytesFor_eq, hregions]
    by_cases h : freeMapRegionOf id = region
    · rw [h, update_self, hmarks]
    · rw [update_of_ne h]

theorem Loaded.put (h : Loaded m d) (hlease : m'.lease.isSome = m.lease.isSome)
    (hregions : m'.mapRegions = update m.mapRegions region (some pages)) :
    Loaded m' d := by
  rcases h with h | h
  · exact .inl (by rw [hlease]; exact h)
  · refine .inr fun r hr hnone => h r hr ?_
    rw [hregions] at hnone
    by_cases hr' : r = region
    · subst hr'
      rw [update_self] at hnone
      cases hnone
    · rw [update_of_ne hr'] at hnone
      exact hnone

theorem grows_ensureRegionResident (h : Loaded m d) {region : Nat}
    (hregion : region < kRegionCount) :
    Grows m (m.ensureRegionResident d answers region).1 ∧
      Loaded (m.ensureRegionResident d answers region).1 d ∧
      ∀ pages, (m.ensureRegionResident d answers region).2 = .ok pages →
        (m.ensureRegionResident d answers region).1.mapRegions region = some pages := by
  have hput : ∀ (pages : MapRegion) (count : Nat), m.mapRegions region = none →
      pages.headerlessMap = none →
      Grows m { m.setRegion region pages with allocatedPages := count } ∧
        Loaded { m.setRegion region pages with allocatedPages := count } d := by
    intro pages count hnone hmap
    have hregions : (m.setRegion region pages).mapRegions =
        update m.mapRegions region (some pages) := rfl
    refine ⟨Grows.put rfl hregions (fun old hold => ?_) ?_, h.put rfl hregions⟩
    · rw [hnone] at hold
      cases hold
    · rw [hnone]
      unfold headerlessBits
      dsimp only
      rw [hmap]
      rfl
  unfold Store.ensureRegionResident
  cases hold : m.mapRegions region with
  | some old =>
    refine ⟨.refl m, h, fun pages hp => ?_⟩
    cases hp
    exact hold
  | none =>
    dsimp only
    by_cases hlease : m.lease.isSome = true
    · rw [if_pos hlease]
      obtain ⟨hgrows, hloaded⟩ := hput ⟨formatFreeMapPage, none⟩ m.allocatedPages hold rfl
      refine ⟨hgrows, hloaded, fun pages hp => ?_⟩
      cases hp
      exact update_self ..
    · rw [if_neg hlease]
      have hdevice : d.freeMap region = none := h.resolve_left hlease region hregion hold
      unfold Store.loadRegionIfPresent
      cases answers.readMap region with
      | some e => exact ⟨.refl m, h, fun pages hp => (by cases hp)⟩
      | none =>
        dsimp only
        rw [hdevice]
        dsimp only
        rw [hold]
        dsimp only
        split_ifs with htop
        · exact ⟨.refl m, h, fun pages hp => (by cases hp)⟩
        · cases answers.ensureCapacity _ with
          | some e => exact ⟨.refl m, h, fun pages hp => (by cases hp)⟩
          | none =>
            obtain ⟨hgrows, hloaded⟩ := hput ⟨freeMapAllocate formatFreeMapPage
              (freeMapBitIndexOf (freeMapPageIdFor (freeMapRegionBase region))), none⟩
              (m.allocatedPages + 1) hold rfl
            refine ⟨hgrows, hloaded, fun pages hp => ?_⟩
            cases hp
            exact update_self ..

theorem grows_createAt (h : Loaded m d) (inUse : Bool) (id : PageId) :
    Grows m (m.createAt d answers inUse id).1 ∧ Loaded (m.createAt d answers inUse id).1 d ∧
      ((m.createAt d answers inUse id).2 = .ok () → m.lease = none ∧ id < kMaxPageCount ∧
        isMapPageId id = false ∧ (m.isAllocated id && inUse) = false ∧
        (m.createAt d answers inUse id).1.mapped id = true) := by
  unfold Store.createAt
  split_ifs with hlease htop huse
  · exact ⟨.refl m, h, fun hok => (by cases hok)⟩
  · exact ⟨.refl m, h, fun hok => (by cases hok)⟩
  · exact ⟨.refl m, h, fun hok => (by cases hok)⟩
  · cases Store.ensureAddressable answers id with
    | some e => exact ⟨.refl m, h, fun hok => (by cases hok)⟩
    | none =>
      dsimp only
      have hin := regionOf_lt (Nat.lt_of_not_le htop)
      obtain ⟨hgrows, hloaded, hresident⟩ := @grows_ensureRegionResident m d answers h _ hin
      rcases hregion : m.ensureRegionResident d answers (freeMapRegionOf id) with ⟨s', e | pages⟩
      · rw [hregion] at hgrows hloaded
        exact ⟨hgrows, hloaded, fun hok => (by cases hok)⟩
      · rw [hregion] at hgrows hloaded hresident
        have hhere := hresident pages rfl
        dsimp only at hgrows hloaded hhere ⊢
        have hlt := bitIndexOf_lt id
        refine ⟨hgrows.trans (Grows.put rfl rfl (fun old hold i hi => ?_) ?_),
          hloaded.put rfl rfl, fun _ => ?_⟩
        · rw [hhere] at hold
          cases hold
          rw [allocate_test hlt, hi, Bool.or_true]
        · rw [hhere]
          rfl
        · have hmap : isMapPageId id = false := by
            apply Bool.eq_false_iff.mpr
            intro hmap
            rw [hmap] at huse
            exact huse rfl
          rw [hmap, Bool.false_or] at huse
          refine ⟨by simpa using hlease, Nat.lt_of_not_le htop, hmap,
            Bool.eq_false_iff.mpr huse, ?_⟩
          refine Eq.trans (Store.mapped_eq rfl (update_self ..)) ?_
          rw [allocate_test hlt, decide_eq_true rfl, Bool.true_or]

theorem grows_findNewPageId (h : Loaded m d) (fuel : Nat) (candidate : PageId) :
    Grows m (Store.findNewPageId d answers fuel m candidate).1 ∧
      Loaded (Store.findNewPageId d answers fuel m candidate).1 d := by
  induction fuel generalizing m candidate with
  | zero => exact ⟨.refl m, h⟩
  | succ fuel ih =>
    unfold Store.findNewPageId
    by_cases hlow : candidate < kMaxPageCount
    · rw [if_pos hlow]
      dsimp only
      obtain ⟨hgrows, hloaded, -⟩ := @grows_ensureRegionResident m d answers h _ (regionOf_lt hlow)
      rcases hregion : m.ensureRegionResident d answers (freeMapRegionOf candidate) with
        ⟨s', e | pages⟩
      · rw [hregion] at hgrows hloaded
        exact ⟨hgrows, hloaded⟩
      · rw [hregion] at hgrows hloaded
        have hon : ∀ next, Grows m (Store.findNewPageId d answers fuel s' next).1 ∧
            Loaded (Store.findNewPageId d answers fuel s' next).1 d := by
          intro next
          obtain ⟨hgrows', hloaded'⟩ := ih hloaded next
          exact ⟨hgrows.trans hgrows', hloaded'⟩
        dsimp only
        cases freeMapFindFirstFree pages.freeMap (freeMapBitIndexOf candidate) with
        | none => exact hon _
        | some found =>
          dsimp only
          split_ifs
          · exact hon _
          · exact ⟨hgrows, hloaded⟩
    · rw [if_neg hlow]
      exact ⟨.refl m, h⟩

theorem Grows.of_regions (hlease : m'.lease.isSome = m.lease.isSome)
    (hregions : m'.mapRegions = m.mapRegions) : Grows m m' := by
  refine ⟨hlease, fun id hid => ?_, fun id => ?_⟩
  · unfold Store.mapped Store.freeMapBytesFor at hid ⊢
    rw [hregions]
    exact hid
  · rw [headerlessMapBytesFor_eq, headerlessMapBytesFor_eq, hregions]

theorem Loaded.of_regions (h : Loaded m d) (hlease : m'.lease.isSome = m.lease.isSome)
    (hregions : m'.mapRegions = m.mapRegions) : Loaded m' d := by
  unfold Loaded at h ⊢
  rw [hlease, hregions]
  exact h

theorem grows_createNew (h : Loaded m d) :
    Grows m (m.createNew d answers).1 ∧ Loaded (m.createNew d answers).1 d := by
  unfold Store.createNew
  cases hlease : m.lease with
  | some lease =>
    have hsame : ∀ next, Grows m { m with lease := some next } ∧
        Loaded { m with lease := some next } d := by
      intro next
      have hsome : ({ m with lease := some next } : PageAlloc.Store).lease.isSome =
          m.lease.isSome := by
        rw [hlease]
        rfl
      exact ⟨.of_regions hsome rfl, h.of_regions hsome rfl⟩
    dsimp only
    rcases lease.next with ⟨lease', e | id⟩
    · exact hsame lease'
    · dsimp only
      cases Store.ensureAddressable answers id with
      | some e => exact hsame lease'
      | none => exact hsame lease'
  | none =>
    dsimp only
    obtain ⟨hgrows, hloaded⟩ := @grows_findNewPageId m d answers h
      (kMaxPageCount - m.nextNewPageId) m.nextNewPageId
    rcases hfind : Store.findNewPageId d answers (kMaxPageCount - m.nextNewPageId) m
      m.nextNewPageId with ⟨s', e | _ | id⟩
    · rw [hfind] at hgrows hloaded
      exact ⟨hgrows, hloaded⟩
    · rw [hfind] at hgrows hloaded
      exact ⟨hgrows, hloaded⟩
    · rw [hfind] at hgrows hloaded
      obtain ⟨hgrows', hloaded', -⟩ := @grows_createAt s' d answers hloaded false id
      dsimp only
      rcases hat : s'.createAt d answers false id with ⟨s'', e | u⟩
      · rw [hat] at hgrows' hloaded'
        exact ⟨hgrows.trans hgrows', hloaded'⟩
      · rw [hat] at hgrows' hloaded'
        exact ⟨(hgrows.trans hgrows').trans (.of_regions rfl rfl), hloaded'.of_regions rfl rfl⟩

theorem grows_ensureHeaderlessMap (h : Loaded m d) {id : PageId} (hid : id < kMaxPageCount) :
    Grows m (m.ensureHeaderlessMap d answers id).1 ∧
      Loaded (m.ensureHeaderlessMap d answers id).1 d ∧
      ∀ map, (m.ensureHeaderlessMap d answers id).2 = .ok map →
        ∃ pages, (m.ensureHeaderlessMap d answers id).1.mapRegions (freeMapRegionOf id) =
          some pages ∧ pages.headerlessMap = some map := by
  obtain ⟨hgrows, hloaded, hresident⟩ :=
    @grows_ensureRegionResident m d answers h _ (regionOf_lt hid)
  unfold Store.ensureHeaderlessMap
  rcases hregion : m.ensureRegionResident d answers (freeMapRegionOf id) with ⟨s', e | pages⟩
  · rw [hregion] at hgrows hloaded
    exact ⟨hgrows, hloaded, fun map hmap => (by cases hmap)⟩
  · rw [hregion] at hgrows hloaded hresident
    have hhere := hresident pages rfl
    dsimp only at hgrows hloaded hhere ⊢
    cases hmap : pages.headerlessMap with
    | some map =>
      refine ⟨hgrows, hloaded, fun map' hmap' => ⟨pages, hhere, ?_⟩⟩
      cases hmap'
      exact hmap
    | none =>
      have hmarks : ∀ free, headerlessBits (some ⟨free, some formatFreeMapPage⟩) =
          headerlessBits (s'.mapRegions (freeMapRegionOf id)) := by
        intro free
        rw [hhere]
        unfold headerlessBits
        dsimp only
        rw [hmap]
        rfl
      dsimp only
      split_ifs
      · refine ⟨hgrows.trans (Grows.put rfl rfl (fun old hold i hi => ?_) (hmarks _)),
          hloaded.put rfl rfl, fun map hok => ?_⟩
        · rw [hhere] at hold
          cases hold
          exact hi
        · cases hok
          exact ⟨_, update_self .., rfl⟩
      · cases answers.ensureCapacity _ with
        | some e => exact ⟨hgrows, hloaded, fun map hok => (by cases hok)⟩
        | none =>
          refine ⟨hgrows.trans (Grows.put rfl rfl (fun old hold i hi => ?_) (hmarks _)),
            hloaded.put rfl rfl, fun map hok => ?_⟩
          · rw [hhere] at hold
            cases hold
            rw [allocate_test (bitIndexOf_lt _), hi, Bool.or_true]
          · cases hok
            exact ⟨_, update_self .., rfl⟩

/-- Bits stay set, and no page but this one becomes headerless or ceases to be. -/
structure GrowsBut (id : PageId) (m m' : PageAlloc.Store) : Prop where
  leased : m'.lease.isSome = m.lease.isSome
  bits : ∀ q, m.mapped q = true → m'.mapped q = true
  marks : ∀ q, q ≠ id → (m'.headerlessMapBytesFor q).test (freeMapBitIndexOf q) =
    (m.headerlessMapBytesFor q).test (freeMapBitIndexOf q)

theorem Grows.but (h : Grows m m') (id : PageId) : GrowsBut id m m' :=
  ⟨h.leased, h.bits, fun q _ => by rw [h.marks]⟩

theorem GrowsBut.after (h : Grows m m') (h' : GrowsBut id m' m'') : GrowsBut id m m'' :=
  ⟨h'.leased.trans h.leased, fun q hq => h'.bits q (h.bits q hq),
    fun q hq => (h'.marks q hq).trans (by rw [h.marks])⟩

theorem grows_createNewHeaderless (h : Loaded m d) (hnew : (m.createNew d answers).2 = .ok id)
    (hid : id < kMaxPageCount) :
    GrowsBut id (m.createNew d answers).1 (m.createNewHeaderless d answers).1 := by
  obtain ⟨-, hloaded⟩ := @grows_createNew m d answers h
  unfold Store.createNewHeaderless
  rcases hcreate : m.createNew d answers with ⟨s', e | id'⟩
  · rw [hcreate] at hnew
    cases hnew
  · rw [hcreate] at hloaded hnew
    obtain rfl := Except.ok.inj hnew
    dsimp only at hloaded ⊢
    obtain ⟨hgrows, -, hmap⟩ := @grows_ensureHeaderlessMap s' d answers hloaded id' hid
    rcases hensure : s'.ensureHeaderlessMap d answers id' with ⟨s'', e | map⟩
    · rw [hensure] at hgrows
      exact hgrows.but id'
    · rw [hensure] at hgrows hmap
      obtain ⟨pages, hhere, hmap⟩ := hmap map rfl
      dsimp only at hgrows hhere ⊢
      rw [hhere]
      dsimp only
      have hlt := bitIndexOf_lt id'
      refine ⟨hgrows.leased, fun q hq => ?_, fun q hq => ?_⟩
      · have hq' := hgrows.bits q hq
        by_cases hregion : freeMapRegionOf q = freeMapRegionOf id'
        · rw [Store.mapped_eq hregion (Store.setRegion_self ..)]
          rw [Store.mapped_eq hregion hhere] at hq'
          exact hq'
        · unfold Store.mapped Store.freeMapBytesFor at hq' ⊢
          rw [Store.setRegion_of_ne _ _ hregion]
          exact hq'
      · rw [← hgrows.marks q, headerlessMapBytesFor_eq, headerlessMapBytesFor_eq]
        by_cases hregion : freeMapRegionOf q = freeMapRegionOf id'
        · have hbit : freeMapBitIndexOf q ≠ freeMapBitIndexOf id' := by
            intro hbit
            apply hq
            rw [← base_add_bitIndexOf q, ← base_add_bitIndexOf id', hregion, hbit]
          rw [hregion, Store.setRegion_self, hhere]
          unfold headerlessBits
          dsimp only
          rw [hmap, Option.getD_some, Option.getD_some, allocate_test hlt, decide_eq_false hbit,
            Bool.false_or]
        · rw [Store.setRegion_of_ne _ _ hregion]

end Kds.Storage.Pool
