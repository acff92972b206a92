/-
  Kds.Storage.PageAllocStore

  What the calls on core 0's store do to the free maps: a bit once set stays set, the ids handed
  out were clear and are set, and the maintained count follows the bits.
-/

import Kds.Storage.PageAlloc

namespace Kds.Storage.PageAlloc

-- Placement

/-- The regions that begin below the ceiling. -/
def kRegionCount : Nat := freeMapRegionOf (kMaxPageCount - 1) + 1

theorem regionOf_lt {id : PageId} (h : id < kMaxPageCount) : freeMapRegionOf id < kRegionCount := by
  exact Nat.lt_succ_of_le (Nat.div_le_div_right (Nat.le_sub_one_of_lt h))

theorem bitIndexOf_lt (id : PageId) : freeMapBitIndexOf id < kFreeMapBitsPerPage :=
  Nat.mod_lt id (by decide)

theorem regionOf_base_add (region : Nat) {i : Nat} (hi : i < kFreeMapBitsPerPage) :
    freeMapRegionOf (freeMapRegionBase region + i) = region := by
  unfold freeMapRegionOf freeMapRegionBase
  rw [Nat.mul_comm, Nat.mul_add_div (by decide), Nat.div_eq_of_lt hi, Nat.add_zero]

theorem bitIndexOf_base_add (region : Nat) {i : Nat} (hi : i < kFreeMapBitsPerPage) :
    freeMapBitIndexOf (freeMapRegionBase region + i) = i := by
  unfold freeMapBitIndexOf freeMapRegionBase
  rw [Nat.mul_comm, Nat.mul_add_mod, Nat.mod_eq_of_lt hi]

theorem base_add_bitIndexOf (id : PageId) :
    freeMapRegionBase (freeMapRegionOf id) + freeMapBitIndexOf id = id :=
  Nat.div_add_mod' id kFreeMapBitsPerPage

theorem bitIndexOf_freeMapPageId (region : Nat) :
    freeMapBitIndexOf (freeMapPageIdFor (freeMapRegionBase region)) = 1 := by
  unfold freeMapPageIdFor
  have hregion : freeMapRegionOf (freeMapRegionBase region) = region := by
    have h := regionOf_base_add region (i := 0) (by decide)
    rwa [Nat.add_zero] at h
  rw [hregion]
  exact bitIndexOf_base_add region (i := 1) (by decide)

theorem bitIndexOf_headerlessMapPageId (id : PageId) :
    freeMapBitIndexOf (headerlessMapPageIdFor id) = 2 :=
  bitIndexOf_base_add (freeMapRegionOf id) (i := 2) (by decide)

variable {page : Lib.Bitmap} {i : Nat}

theorem allocate_test {j : Nat} (hi : i < kFreeMapBitsPerPage) :
    (freeMapAllocate page i).test j = (decide (j = i) || page.test j) := by
  rw [freeMapAllocate, if_neg (Nat.not_le_of_lt hi), Lib.Bitmap.test_set]

theorem count_allocate (hi : i < kFreeMapBitsPerPage) (h : page.test i = false) :
    freeMapCountAllocated (freeMapAllocate page i) = freeMapCountAllocated page + 1 := by
  rw [freeMapAllocate, if_neg (Nat.not_le_of_lt hi)]
  apply Lib.Bitmap.count_set _ h
  unfold kFreeMapBitsPerPage at hi
  omega

theorem allocate_eq_self (h : page.test i = true) :
    freeMapAllocate page i = page := by
  unfold freeMapAllocate
  split_ifs
  · rfl
  · exact Lib.Bitmap.set_eq_self h

theorem isAllocated_of_lt (hi : i < kFreeMapBitsPerPage) :
    freeMapIsAllocated page i = page.test i :=
  if_neg (Nat.not_le_of_lt hi)

theorem count_format : freeMapCountAllocated formatFreeMapPage = 0 := by
  unfold freeMapCountAllocated Lib.Bitmap.count
  have hzero : Lib.popcount 0#8 = 0 := by decide
  exact Finset.sum_eq_zero fun _ _ => hzero

theorem test_format (i : Nat) : formatFreeMapPage.test i = false := by
  unfold Lib.Bitmap.test formatFreeMapPage
  simp

-- The count and the bits

namespace Store

/-- The id's bit in the store's maps. -/
def mapped (s : Store) (id : PageId) : Bool :=
  (s.freeMapBytesFor id).test (freeMapBitIndexOf id)

variable {s : Store} {id : PageId} {region : Nat} {pages : MapRegion}

theorem isAllocated_eq (h : id < kMaxPageCount) :
    s.isAllocated id = s.mapped id := by
  rw [isAllocated, if_neg (Nat.not_le_of_lt h), isAllocated_of_lt (bitIndexOf_lt id)]
  rfl

@[simp] theorem setRegion_self (s : Store) (region : Nat) (pages : MapRegion) :
    (s.setRegion region pages).mapRegions region = some pages :=
  Function.update_self ..

theorem setRegion_of_ne (s : Store) {r : Nat} (pages : MapRegion) (h : r ≠ region) :
    (s.setRegion region pages).mapRegions r = s.mapRegions r :=
  Function.update_of_ne h ..

def bitsOf : Option MapRegion → Nat
  | some pages => freeMapCountAllocated pages.freeMap
  | none => 0

/-- The set bits of all free maps of a store. -/
def setBits (s : Store) : Nat := ∑ r ∈ Finset.range kRegionCount, bitsOf (s.mapRegions r)

/-- The maintained count is the number of set bits. -/
def Counted (s : Store) : Prop := s.allocatedPages = s.setBits

theorem setBits_setRegion (s : Store) (pages : MapRegion) (hregion : region < kRegionCount) :
    (s.setRegion region pages).setBits + bitsOf (s.mapRegions region) =
      s.setBits + freeMapCountAllocated pages.freeMap := by
  have hmem : region ∈ Finset.range kRegionCount := Finset.mem_range.mpr hregion
  unfold setBits
  rw [← Finset.add_sum_erase _ _ hmem,
    ← Finset.add_sum_erase _ (fun r => bitsOf (s.mapRegions r)) hmem]
  have hhere : bitsOf ((s.setRegion region pages).mapRegions region) =
      freeMapCountAllocated pages.freeMap := by
    rw [setRegion_self, bitsOf]
  have hrest : ∑ r ∈ (Finset.range kRegionCount).erase region,
      bitsOf ((s.setRegion region pages).mapRegions r) =
      ∑ r ∈ (Finset.range kRegionCount).erase region, bitsOf (s.mapRegions r) := by
    apply Finset.sum_congr rfl
    intro r hr
    rw [setRegion_of_ne s pages (Finset.ne_of_mem_erase hr)]
  rw [hhere, hrest]
  omega

theorem Counted.put (h : s.Counted) (count : Nat) (hregion : region < kRegionCount)
    (hcount : count + bitsOf (s.mapRegions region) =
      s.allocatedPages + freeMapCountAllocated pages.freeMap) :
    Counted { s.setRegion region pages with allocatedPages := count } := by
  have hbits := setBits_setRegion s pages hregion
  unfold Counted at h ⊢
  change count = (s.setRegion region pages).setBits
  omega

theorem Counted.ensureRegionResident (h : s.Counted) (d : Device) (answers : Answers)
    (hregion : region < kRegionCount) :
    (s.ensureRegionResident d answers region).1.Counted ∧
      ∀ pages, (s.ensureRegionResident d answers region).2 = .ok pages →
        (s.ensureRegionResident d answers region).1.mapRegions region = some pages := by
  unfold Store.ensureRegionResident
  rcases hold : s.mapRegions region with _ | old
  · dsimp only
    by_cases hlease : s.lease.isSome = true
    · rw [if_pos hlease]
      refine ⟨h.put _ hregion ?_, fun pages hp => ?_⟩
      · rw [hold, bitsOf]
        exact congrArg (s.allocatedPages + ·) count_format.symm
      · cases hp
        exact Function.update_self ..
    · rw [if_neg hlease]
      unfold loadRegionIfPresent
      rcases answers.readMap region with _ | e
      · dsimp only
        rcases hdev : d.freeMap region with _ | free
        · dsimp only
          rw [hold]
          dsimp only
          split_ifs with htop
          · exact ⟨h, fun pages hp => by cases hp⟩
          · rcases answers.ensureCapacity _ with _ | e
            · refine ⟨h.put _ hregion ?_, fun pages hp => ?_⟩
              · rw [hold, bitsOf, bitIndexOf_freeMapPageId, count_allocate (by decide)
                  (test_format 1), count_format]
              · cases hp
                exact Function.update_self ..
            · exact ⟨h, fun pages hp => by cases hp⟩
        · have hhere : ({ s.setRegion region ⟨free, d.headerlessMap region⟩ with
              allocatedPages := s.allocatedPages + freeMapCountAllocated free } : Store).mapRegions
                region = some ⟨free, d.headerlessMap region⟩ := Function.update_self ..
          dsimp only at hhere ⊢
          rw [hhere]
          refine ⟨h.put _ hregion ?_, fun pages hp => ?_⟩
          · rw [hold, bitsOf]
            dsimp only
            omega
          · cases hp
            exact hhere
      · exact ⟨h, fun pages hp => by cases hp⟩
  · refine ⟨h, fun pages hp => ?_⟩
    cases hp
    exact hold

theorem Counted.createAt (h : s.Counted) (d : Device) (answers : Answers) (inUse : Bool)
    (id : PageId) : (s.createAt d answers inUse id).1.Counted := by
  unfold Store.createAt
  split_ifs with hlease htop huse
  · exact h
  · exact h
  · exact h
  · rcases ensureAddressable answers id with _ | e
    · obtain ⟨hcounted, hresident⟩ :=
        h.ensureRegionResident d answers (regionOf_lt (Nat.lt_of_not_le htop))
      rcases hregion : s.ensureRegionResident d answers (freeMapRegionOf id) with ⟨s', e | pages⟩
      · rw [hregion] at hcounted
        exact hcounted
      · rw [hregion] at hcounted hresident
        refine hcounted.put _ (regionOf_lt (Nat.lt_of_not_le htop)) ?_
        rw [hresident pages rfl, bitsOf, isAllocated_of_lt (bitIndexOf_lt id)]
        dsimp only
        split_ifs with hbit
        · rw [allocate_eq_self hbit]
        · rw [count_allocate (bitIndexOf_lt id) (by simpa using hbit)]
          omega
    · exact h

-- Core 0's store

/-- The store of core 0: it has no lease, it counts, it has the regions the device has, and a
    region without a headerless map has not claimed that map's id. -/
structure Sound (s : Store) (d : Device) : Prop where
  unleased : s.lease = none
  counted : s.Counted
  resident : ∀ r < kRegionCount, s.mapRegions r = none → d.freeMap r = none
  unclaimed : ∀ r pages, s.mapRegions r = some pages → pages.headerlessMap = none →
    pages.freeMap.test 2 = false

/-- Bits stay set and regions stay resident. -/
structure Extends (s s' : Store) : Prop where
  mapped : ∀ id, s.mapped id = true → s'.mapped id = true
  resident : ∀ r, s.mapRegions r ≠ none → s'.mapRegions r ≠ none

theorem Extends.refl (s : Store) : Extends s s := ⟨fun _ h => h, fun _ h => h⟩

theorem Extends.trans {t u : Store} (h : Extends s t) (h' : Extends t u) : Extends s u :=
  ⟨fun id hid => h'.mapped id (h.mapped id hid), fun r hr => h'.resident r (h.resident r hr)⟩

theorem mapped_eq (hregion : freeMapRegionOf id = region) (h : s.mapRegions region = some pages) :
    s.mapped id = pages.freeMap.test (freeMapBitIndexOf id) := by
  rw [mapped, freeMapBytesFor, hregion, h]

theorem not_mapped_of_none
    (h : s.mapRegions (freeMapRegionOf id) = none) : s.mapped id = false := by
  rw [mapped, freeMapBytesFor, h]
  exact test_format _

variable {d : Device}

theorem Sound.put (h : s.Sound d) (region count : Nat) (pages : MapRegion)
    (hregion : region < kRegionCount) (hcount : count + bitsOf (s.mapRegions region) =
      s.allocatedPages + freeMapCountAllocated pages.freeMap)
    (hkeep : ∀ old, s.mapRegions region = some old → ∀ i, old.freeMap.test i = true →
      pages.freeMap.test i = true)
    (hclaim : pages.headerlessMap = none → pages.freeMap.test 2 = false) :
    Sound { s.setRegion region pages with allocatedPages := count } d ∧
      Extends s { s.setRegion region pages with allocatedPages := count } := by
  refine ⟨⟨h.unleased, h.counted.put count hregion hcount, fun r hr hnone => ?_,
    fun r other hother hmap => ?_⟩, ⟨fun id hid => ?_, fun r hr => ?_⟩⟩
  · by_cases hrr : r = region
    · subst hrr
      exact absurd ((setRegion_self s r pages).symm.trans hnone) (by simp)
    · exact h.resident r hr ((setRegion_of_ne s pages hrr).symm.trans hnone)
  · by_cases hrr : r = region
    · subst hrr
      cases (setRegion_self s r pages).symm.trans hother
      exact hclaim hmap
    · exact h.unclaimed r other ((setRegion_of_ne s pages hrr).symm.trans hother) hmap
  · by_cases hid' : freeMapRegionOf id = region
    · refine Eq.trans (mapped_eq hid' (setRegion_self s region pages)) ?_
      rcases hold : s.mapRegions (freeMapRegionOf id) with _ | old
      · rw [not_mapped_of_none hold] at hid
        cases hid
      · rw [mapped_eq rfl hold] at hid
        exact hkeep old (hid' ▸ hold) _ hid
    · have hsame : ({ s.setRegion region pages with allocatedPages := count } : Store).mapRegions
          (freeMapRegionOf id) = s.mapRegions (freeMapRegionOf id) := setRegion_of_ne s pages hid'
      unfold mapped freeMapBytesFor at hid ⊢
      rw [hsame]
      exact hid
  · by_cases hrr : r = region
    · subst hrr
      exact fun hnone => absurd ((setRegion_self s r pages).symm.trans hnone) (by simp)
    · exact fun hnone => hr ((setRegion_of_ne s pages hrr).symm.trans hnone)

/-- The maps of a region that was just created. -/
def createdRegion : MapRegion := ⟨freeMapAllocate formatFreeMapPage 1, none⟩

theorem Sound.ensure_cases (h : s.Sound d) (answers : Answers) (hregion : region < kRegionCount) :
    (∃ pages, s.mapRegions region = some pages ∧
        s.ensureRegionResident d answers region = (s, .ok pages)) ∨
      (∃ e, s.ensureRegionResident d answers region = (s, .error e)) ∨
      (s.mapRegions region = none ∧ s.ensureRegionResident d answers region =
        ({ s.setRegion region createdRegion with allocatedPages := s.allocatedPages + 1 },
          .ok createdRegion)) := by
  unfold Store.ensureRegionResident
  rcases hold : s.mapRegions region with _ | old
  · have hleased : ¬ s.lease.isSome = true := by
      rw [h.unleased]
      exact Bool.false_ne_true
    dsimp only
    rw [if_neg hleased, loadRegionIfPresent, h.resident region hregion hold]
    rcases answers.readMap region with _ | e
    · dsimp only
      rw [hold]
      dsimp only
      split_ifs with htop
      · exact .inr (.inl ⟨_, rfl⟩)
      · rcases answers.ensureCapacity _ with _ | e
        · refine .inr (.inr ⟨rfl, ?_⟩)
          rw [bitIndexOf_freeMapPageId]
          rfl
        · exact .inr (.inl ⟨e, rfl⟩)
    · exact .inr (.inl ⟨e, rfl⟩)
  · exact .inl ⟨old, rfl, rfl⟩

theorem Sound.ensureRegionResident (h : s.Sound d) (answers : Answers)
    (hregion : region < kRegionCount) :
    (s.ensureRegionResident d answers region).1.Sound d ∧
      Extends s (s.ensureRegionResident d answers region).1 ∧
      ∀ pages, (s.ensureRegionResident d answers region).2 = .ok pages →
        (s.ensureRegionResident d answers region).1.mapRegions region = some pages := by
  have hresident := (h.counted.ensureRegionResident d answers hregion).2
  rcases h.ensure_cases answers hregion with ⟨pages, -, hout⟩ | ⟨e, hout⟩ | ⟨hold, hout⟩
  · rw [hout] at hresident ⊢
    exact ⟨h, .refl s, hresident⟩
  · rw [hout] at hresident ⊢
    exact ⟨h, .refl s, hresident⟩
  · rw [hout] at hresident ⊢
    have hput := h.put region (s.allocatedPages + 1) createdRegion
      hregion ?_ (fun old hsome => by rw [hold] at hsome; cases hsome) fun _ => ?_
    · exact ⟨hput.1, hput.2, hresident⟩
    · rw [hold, bitsOf, createdRegion, count_allocate (by decide) (test_format 1), count_format]
    · rw [createdRegion, allocate_test (by decide), test_format]
      rfl

/-- What an allocation on core 0's store has done, and of the id it answers. -/
structure Allocated (s s' : Store) (d : Device) (answer : StatusOr PageId) : Prop where
  sound : s'.Sound d
  bits : Extends s s'
  fresh : ∀ id, answer = .ok id → s.mapped id = false ∧ s'.mapped id = true
  legal : ∀ id, answer = .ok id → isMapPageId id = false ∧ id < kMaxPageCount

theorem Allocated.refuse {s s' : Store} {d : Device} (hsound : s'.Sound d) (hbits : Extends s s')
    (e : Status) : Allocated s s' d (.error e) :=
  ⟨hsound, hbits, fun _ hid => (by cases hid), fun _ hid => (by cases hid)⟩

theorem Sound.findNewPageId (h : s.Sound d) (answers : Answers) (fuel : Nat) (candidate : PageId) :
    (Store.findNewPageId d answers fuel s candidate).1.Sound d ∧
      Extends s (Store.findNewPageId d answers fuel s candidate).1 ∧
      ∀ id, (Store.findNewPageId d answers fuel s candidate).2 = .ok (some id) →
        (Store.findNewPageId d answers fuel s candidate).1.mapped id = false ∧
          isMapPageId id = false := by
  induction fuel generalizing s candidate with
  | zero => exact ⟨h, .refl s, fun id hid => by cases hid⟩
  | succ fuel ih =>
    unfold Store.findNewPageId
    by_cases hlow : candidate < kMaxPageCount
    · rw [if_pos hlow]
      obtain ⟨hsound, hbits, hresident⟩ := h.ensureRegionResident answers (regionOf_lt hlow)
      dsimp only
      rcases hregion : s.ensureRegionResident d answers (freeMapRegionOf candidate) with
        ⟨s', e | pages⟩
      · rw [hregion] at hsound hbits
        exact ⟨hsound, hbits, fun id hid => by cases hid⟩
      · rw [hregion] at hsound hbits hresident
        have hhere := hresident pages rfl
        dsimp only at hsound hbits hhere ⊢
        rcases hfind : freeMapFindFirstFree pages.freeMap (freeMapBitIndexOf candidate)
          with _ | found
        · obtain ⟨hsound', hbits', hfresh⟩ := ih hsound
            (freeMapRegionBase (freeMapRegionOf candidate + 1))
          exact ⟨hsound', hbits.trans hbits', hfresh⟩
        · dsimp only
          split_ifs with hmap
          · obtain ⟨hsound', hbits', hfresh⟩ := ih hsound
              (freeMapRegionBase (freeMapRegionOf candidate) + found + 1)
            exact ⟨hsound', hbits.trans hbits', hfresh⟩
          · refine ⟨hsound, hbits, fun id hid => ?_⟩
            obtain rfl := Option.some.inj (Except.ok.inj hid)
            rw [freeMapFindFirstFree, if_neg (Nat.not_le_of_lt (bitIndexOf_lt candidate))] at hfind
            obtain ⟨-, hlt, hclear⟩ := Lib.Bitmap.firstClear_some (by decide) hfind
            rw [mapped_eq (regionOf_base_add _ hlt) hhere, bitIndexOf_base_add _ hlt]
            exact ⟨hclear, by simpa using hmap⟩
    · rw [if_neg hlow]
      exact ⟨h, .refl s, fun id hid => by cases hid⟩

theorem Sound.createAt (h : s.Sound d) (answers : Answers) (inUse : Bool) (id : PageId) :
    (s.createAt d answers inUse id).1.Sound d ∧ Extends s (s.createAt d answers inUse id).1 ∧
      ((s.createAt d answers inUse id).2 = .ok () →
        (s.createAt d answers inUse id).1.mapped id = true ∧ isMapPageId id = false ∧
          id < kMaxPageCount) := by
  have hleased : ¬ s.lease.isSome = true := by
    rw [h.unleased]
    exact Bool.false_ne_true
  unfold Store.createAt
  rw [if_neg hleased]
  split_ifs with htop huse
  · exact ⟨h, .refl s, fun hok => by cases hok⟩
  · exact ⟨h, .refl s, fun hok => by cases hok⟩
  · rcases ensureAddressable answers id with _ | e
    · have hin := regionOf_lt (Nat.lt_of_not_le htop)
      obtain ⟨hsound, hbits, hresident⟩ := h.ensureRegionResident answers hin
      rcases hregion : s.ensureRegionResident d answers (freeMapRegionOf id) with ⟨s', e | pages⟩
      · rw [hregion] at hsound hbits
        exact ⟨hsound, hbits, fun hok => by cases hok⟩
      · rw [hregion] at hsound hbits hresident
        have hhere := hresident pages rfl
        dsimp only at hsound hbits hhere ⊢
        have hlt := bitIndexOf_lt id
        have hmapId : isMapPageId id = false := by
          rcases hmap : isMapPageId id with _ | _
          · rfl
          · exact absurd (by rw [hmap]; rfl) huse
        have hput := hsound.put (freeMapRegionOf id)
          (if freeMapIsAllocated pages.freeMap (freeMapBitIndexOf id) = true
            then s'.allocatedPages else s'.allocatedPages + 1)
          { pages with
            freeMap := freeMapAllocate pages.freeMap (freeMapBitIndexOf id) } hin ?_ ?_ ?_
        · refine ⟨hput.1, hbits.trans hput.2, fun _ => ⟨?_, hmapId, Nat.lt_of_not_le htop⟩⟩
          refine Eq.trans (mapped_eq rfl (setRegion_self ..)) ?_
          rw [allocate_test hlt, decide_eq_true rfl, Bool.true_or]
        · rw [hhere, bitsOf, isAllocated_of_lt hlt]
          dsimp only
          split_ifs with hbit
          · rw [allocate_eq_self hbit]
          · rw [count_allocate hlt (by simpa using hbit)]
            omega
        · intro old hold i hi
          rw [hhere] at hold
          cases hold
          rw [allocate_test hlt, hi, Bool.or_true]
        · intro hnone
          rw [allocate_test hlt, hsound.unclaimed _ pages hhere hnone, Bool.or_false]
          apply decide_eq_false
          intro heq
          rw [isMapPageId, ← heq] at hmapId
          exact Bool.noConfusion hmapId
    · exact ⟨h, .refl s, fun hok => by cases hok⟩

theorem Sound.createNew (h : s.Sound d) (answers : Answers) :
    Allocated s (s.createNew d answers).1 d (s.createNew d answers).2 := by
  unfold Store.createNew
  rw [h.unleased]
  dsimp only
  obtain ⟨hsound, hbits, hfree⟩ :=
    h.findNewPageId answers (kMaxPageCount - s.nextNewPageId) s.nextNewPageId
  rcases hfind : Store.findNewPageId d answers (kMaxPageCount - s.nextNewPageId)
    s s.nextNewPageId with ⟨s', e | _ | id⟩
  · rw [hfind] at hsound hbits
    exact .refuse hsound hbits e
  · rw [hfind] at hsound hbits
    exact .refuse hsound hbits _
  · rw [hfind] at hsound hbits hfree
    dsimp only at hsound hbits ⊢
    obtain ⟨hclear, hmap⟩ := hfree id rfl
    obtain ⟨hsound', hbits', hok⟩ := hsound.createAt answers false id
    rcases hat : s'.createAt d answers false id with ⟨s'', e | u⟩
    · rw [hat] at hsound' hbits'
      exact .refuse hsound' (hbits.trans hbits') e
    · rw [hat] at hsound' hbits' hok
      obtain ⟨hset, -, hlt⟩ := hok rfl
      have hall := hbits.trans hbits'
      refine ⟨⟨hsound'.unleased, hsound'.counted, hsound'.resident, hsound'.unclaimed⟩,
        ⟨hall.mapped, hall.resident⟩, fun i hi => ?_, fun i hi => ?_⟩
      · cases hi
        refine ⟨?_, hset⟩
        rcases hold : s.mapped id with _ | _
        · rfl
        · exact absurd (hbits.mapped id hold) (by rw [hclear]; exact Bool.false_ne_true)
      · cases hi
        exact ⟨hmap, hlt⟩

theorem Sound.ensureHeaderlessMap (h : s.Sound d) (answers : Answers) (hid : id < kMaxPageCount) :
    (s.ensureHeaderlessMap d answers id).1.Sound d ∧
      Extends s (s.ensureHeaderlessMap d answers id).1 := by
  have hin := regionOf_lt hid
  obtain ⟨hsound, hbits, hresident⟩ := h.ensureRegionResident answers hin
  unfold Store.ensureHeaderlessMap
  rcases hregion : s.ensureRegionResident d answers (freeMapRegionOf id) with ⟨s', e | pages⟩
  · rw [hregion] at hsound hbits
    exact ⟨hsound, hbits⟩
  · rw [hregion] at hsound hbits hresident
    have hhere := hresident pages rfl
    dsimp only at hsound hbits hhere ⊢
    rcases hmap : pages.headerlessMap with _ | map
    · have hleased : ¬ s'.lease.isSome = true := by
        rw [hsound.unleased]
        exact Bool.false_ne_true
      dsimp only
      rw [if_neg hleased, bitIndexOf_headerlessMapPageId]
      rcases answers.ensureCapacity _ with _ | e
      · dsimp only
        have hput := hsound.put (freeMapRegionOf id) (s'.allocatedPages + 1)
          ⟨freeMapAllocate pages.freeMap 2, some formatFreeMapPage⟩ hin ?_ ?_ ?_
        · exact ⟨hput.1, hbits.trans hput.2⟩
        · rw [hhere, bitsOf, count_allocate (by decide) (hsound.unclaimed _ pages hhere hmap)]
          omega
        · intro old hold i hi
          rw [hhere] at hold
          cases hold
          rw [allocate_test (by decide), hi, Bool.or_true]
        · intro hnone
          cases hnone
      · exact ⟨hsound, hbits⟩
    · exact ⟨hsound, hbits⟩

theorem Sound.createNewHeaderless (h : s.Sound d) (answers : Answers) :
    Allocated s (s.createNewHeaderless d answers).1 d (s.createNewHeaderless d answers).2 := by
  have hnew := h.createNew answers
  unfold Store.createNewHeaderless
  rcases hcreate : s.createNew d answers with ⟨s', e | id⟩
  · rw [hcreate] at hnew
    exact hnew
  · rw [hcreate] at hnew
    obtain ⟨hclear, hset⟩ := hnew.fresh id rfl
    obtain ⟨hmapId, hlt⟩ := hnew.legal id rfl
    obtain ⟨hsound, hbits⟩ := hnew.sound.ensureHeaderlessMap answers hlt
    dsimp only at hset hsound hbits ⊢
    rcases hmap : s'.ensureHeaderlessMap d answers id with ⟨s'', e | map⟩
    · rw [hmap] at hsound hbits
      exact .refuse hsound (hnew.bits.trans hbits) e
    · rw [hmap] at hsound hbits
      dsimp only at hsound hbits ⊢
      have hall := hnew.bits.trans hbits
      have hlegal : ∀ i, (Except.ok id : StatusOr PageId) = .ok i →
          isMapPageId i = false ∧ i < kMaxPageCount := by
        intro i hi
        cases hi
        exact ⟨hmapId, hlt⟩
      have hfresh : ∀ {t : Store}, Extends s'' t → ∀ i, (Except.ok id : StatusOr PageId) = .ok i →
          s.mapped i = false ∧ t.mapped i = true := by
        intro t ht i hi
        cases hi
        exact ⟨hclear, ht.mapped id (hbits.mapped id hset)⟩
      rcases hregion : s''.mapRegions (freeMapRegionOf id) with _ | pages
      · exact ⟨hsound, hall, hfresh (.refl s''), hlegal⟩
      · have hput := hsound.put (freeMapRegionOf id) s''.allocatedPages
          { pages with
            headerlessMap := some (freeMapAllocate map (freeMapBitIndexOf id)) }
          (regionOf_lt hlt) ?_ ?_ ?_
        · exact ⟨hput.1, hall.trans hput.2, hfresh hput.2, hlegal⟩
        · rw [hregion, bitsOf]
        · intro old hold i hi
          rw [hregion] at hold
          cases hold
          exact hi
        · intro hnone
          cases hnone

-- Extents

theorem test_allocateRun {start count : Nat} (hfit : start + count ≤ kFreeMapBitsPerPage)
    (i : Nat) :
    (allocateRun page start count).test i =
      (decide (start ≤ i ∧ i < start + count) || page.test i) := by
  induction count with
  | zero =>
    have hout : ¬ (start ≤ i ∧ i < start + 0) := by omega
    rw [allocateRun, decide_eq_false hout, Bool.false_or]
  | succ count ih =>
    rw [allocateRun, allocate_test (by omega), ih (by omega)]
    by_cases hi : i = start + count
    · subst hi
      simp
    · have hiff : (start ≤ i ∧ i < start + (count + 1)) ↔ (start ≤ i ∧ i < start + count) := by
        omega
      simp [hi, hiff]

theorem count_allocateRun {start count : Nat} (hfit : start + count ≤ kFreeMapBitsPerPage)
    (hclear : ∀ i < count, page.test (start + i) = false) :
    freeMapCountAllocated (allocateRun page start count) = freeMapCountAllocated page + count := by
  induction count with
  | zero => rw [allocateRun, Nat.add_zero]
  | succ count ih =>
    have hbit : (allocateRun page start count).test (start + count) = false := by
      rw [test_allocateRun (by omega), hclear count (Nat.lt_succ_self count)]
      simp
    rw [allocateRun, count_allocate (by omega) hbit,
      ih (by omega) fun i hi => hclear i (Nat.lt_succ_of_lt hi)]
    omega

theorem freeRun_full {page : Lib.Bitmap} {base start left run : Nat}
    (h : freeRun page base start left run = run + left) :
    ∀ i, run ≤ i → i < run + left → freeMapIsAllocated page (start + i) = false ∧
      isMapPageId (base + start + i) = false := by
  induction left generalizing run with
  | zero =>
    intro i hlow hhigh
    omega
  | succ left ih =>
    intro i hlow hhigh
    unfold freeRun at h
    split_ifs at h with hfree
    · by_cases hi : i = run
      · subst hi
        simpa using hfree
      · exact ih (h.trans (by omega)) i (by omega) (by omega)
    · omega

/-- What `Reserve` has done, and of the extent it answers. -/
structure Reserved (s s' : Store) (d : Device) (answer : Option Extent) : Prop where
  sound : s'.Sound d
  bits : Extends s s'
  fresh : ∀ e, answer = some e → ∀ id, e.Contains id → s.mapped id = false ∧ s'.mapped id = true
  legal : ∀ e, answer = some e → ∀ id, e.Contains id → isMapPageId id = false ∧ id < kMaxPageCount
  inRegion : ∀ e, answer = some e → ∀ id, e.Contains id →
    freeMapRegionOf id = freeMapRegionOf e.first

theorem Reserved.none {s' : Store} (hsound : s'.Sound d) (hbits : Extends s s') :
    Reserved s s' d none :=
  ⟨hsound, hbits, fun _ he => (by cases he), fun _ he => (by cases he), fun _ he => (by cases he)⟩

theorem Reserved.after {t u : Store} {answer : Option Extent} (h : Extends s t)
    (h' : Reserved t u d answer) : Reserved s u d answer := by
  refine ⟨h'.sound, h.trans h'.bits, fun e he id hid => ?_, h'.legal, h'.inRegion⟩
  obtain ⟨hclear, hset⟩ := h'.fresh e he id hid
  refine ⟨?_, hset⟩
  rcases hold : s.mapped id with _ | _
  · rfl
  · exact absurd (h.mapped id hold) (by rw [hclear]; exact Bool.false_ne_true)

/-- The extent that an answer of the search names. -/
def extentOf : StatusOr (Option Extent) → Option Extent
  | .ok (some e) => some e
  | _ => none

theorem Sound.findExtent (h : s.Sound d) (answers : Answers) (count : Nat)
    (fuel : Nat) (candidate : PageId) :
    Reserved s (PageAlloc.findExtent d answers count fuel s candidate).1 d
      (extentOf (PageAlloc.findExtent d answers count fuel s candidate).2) := by
  induction fuel generalizing s candidate with
  | zero => exact .none h (.refl s)
  | succ fuel ih =>
    unfold PageAlloc.findExtent
    by_cases hlow : candidate < kMaxPageCount
    · rw [if_pos hlow]
      have hin := regionOf_lt hlow
      obtain ⟨hsound, hbits, hresident⟩ := h.ensureRegionResident answers hin
      dsimp only
      rcases hregion : s.ensureRegionResident d answers (freeMapRegionOf candidate) with
        ⟨s', e | pages⟩
      · rw [hregion] at hsound hbits
        exact .none hsound hbits
      · rw [hregion] at hsound hbits hresident
        have hhere := hresident pages rfl
        dsimp only at hsound hbits hhere ⊢
        rcases hfind : freeMapFindFirstFree pages.freeMap (freeMapBitIndexOf candidate)
          with _ | start
        · exact .after hbits (ih hsound _)
        · dsimp only
          split_ifs with hmap hcross htop hrun
          · exact .after hbits (ih hsound _)
          · exact .after hbits (ih hsound _)
          · exact .none hsound hbits
          · have hfree := @freeRun_full pages.freeMap _ _ _ 0 (hrun.trans (by omega))
            have hclear : ∀ i < count, pages.freeMap.test (start + i) = false := by
              intro i hi
              have hbit := (hfree i (Nat.zero_le i) (by omega)).1
              rwa [isAllocated_of_lt (by omega)] at hbit
            have hnotMap : ∀ i < count, isMapPageId
                (freeMapRegionBase (freeMapRegionOf candidate) + start + i) = false :=
              fun i hi => (hfree i (Nat.zero_le i) (by omega)).2
            have hput := hsound.put (freeMapRegionOf candidate) (s'.allocatedPages + count)
              { pages with freeMap := allocateRun pages.freeMap start count } hin ?_ ?_ ?_
            · refine .after hbits ⟨hput.1, hput.2, fun e he id hid => ?_, fun e he id hid => ?_,
                fun e he id hid => ?_⟩
              all_goals
                cases he
                obtain ⟨i, rfl⟩ := Nat.exists_eq_add_of_le hid.1
                have hi : i < count := Nat.lt_of_add_lt_add_left hid.2
                have hlt : start + i < kFreeMapBitsPerPage := by omega
              · have hat := regionOf_base_add (freeMapRegionOf candidate) hlt
                have hbit := bitIndexOf_base_add (freeMapRegionOf candidate) hlt
                rw [← Nat.add_assoc] at hat hbit
                refine ⟨?_, Eq.trans (mapped_eq hat (setRegion_self ..)) ?_⟩
                · rw [mapped_eq hat hhere, hbit]
                  exact hclear i hi
                · rw [hbit, test_allocateRun (by omega), decide_eq_true ⟨by omega, by omega⟩,
                    Bool.true_or]
              · refine ⟨hnotMap i hi, ?_⟩
                exact Nat.lt_of_lt_of_le (Nat.add_lt_add_left hi _) (Nat.le_of_not_lt htop)
              · have hat := regionOf_base_add (freeMapRegionOf candidate) hlt
                have hat' := regionOf_base_add (freeMapRegionOf candidate)
                  (show start < kFreeMapBitsPerPage by omega)
                rw [← Nat.add_assoc] at hat
                exact hat.trans hat'.symm
            · rw [hhere, bitsOf]
              dsimp only
              rw [count_allocateRun (by omega) hclear]
              omega
            · intro old hold i hi
              rw [hhere] at hold
              cases hold
              rw [test_allocateRun (by omega), hi, Bool.or_true]
            · intro hnone
              rw [test_allocateRun (by omega), hsound.unclaimed _ pages hhere hnone, Bool.or_false]
              apply decide_eq_false
              rintro ⟨hle, hlt⟩
              obtain ⟨i, hi⟩ := Nat.exists_eq_add_of_le hle
              have hbit := hnotMap i (by omega)
              rw [Nat.add_assoc, ← hi, isMapPageId, bitIndexOf_base_add _ (by decide)] at hbit
              exact Bool.noConfusion hbit
          · exact .after hbits (ih hsound _)
    · rw [if_neg hlow]
      exact .none h (.refl s)

theorem Sound.reserve (h : s.Sound d) (next : PageId) (answers : Answers) (count : Nat) :
    Reserved s (PageAlloc.reserve s next d answers count).1 d
      (PageAlloc.reserve s next d answers count).2.2.toOption := by
  unfold PageAlloc.reserve
  split_ifs with hzero hlong
  · exact .none h (.refl s)
  · exact .none h (.refl s)
  · have hfind := h.findExtent answers count (kMaxPageCount - next) next
    rcases hout : PageAlloc.findExtent d answers count (kMaxPageCount - next) s next with
      ⟨s', e | _ | extent⟩
    · rw [hout] at hfind
      exact hfind
    · rw [hout] at hfind
      exact hfind
    · rw [hout] at hfind
      exact hfind

end Store

end Kds.Storage.PageAlloc
