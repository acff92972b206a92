/-
  Kds.Storage.BtreeLeaf

  What a leaf of the clustered tree holds: the ids of its live slots, and the room they take.
  Each loop of `btree.cpp` over a leaf's slots is read off these ids, whatever order the slots
  are in, and a leaf rewritten from copies of its live versions holds what the copies hold.
-/

import Kds.Storage.BtreePage

namespace Kds.Storage.Btree

open Lib List

/-- The id a tuple carries. -/
def keyOf (tuple : HeapTuple) : Nat := load keystoneWordSize tuple.payload 0 % 2 ^ 40

def slotId : HeapSlot → Option Nat
  | .dead => none
  | .live _ tuple => some (keyOf tuple)

/-- The ids of the live slots, delete-marked ones included. -/
def liveIds (slots : List HeapSlot) : List Nat := slots.filterMap slotId

/-- A live tuple carries an id, fits its reservation, and names a writer. -/
def SlotOk : HeapSlot → Prop
  | .dead => True
  | .live length tuple => keystoneWordSize ≤ tuple.payload.length ∧
      tupleHeaderOnDiskSize + tuple.payload.length ≤ length ∧ tuple.trxId ≤ maxTrxId

/-- What a live slot takes of its page. -/
def slotBytes : HeapSlot → Nat
  | .dead => 0
  | .live length _ => slotOnDiskSize + length

def usedBytes (slots : List HeapSlot) : Nat := (slots.map slotBytes).sum

theorem keyOf_le (tuple : HeapTuple) : keyOf tuple ≤ maxTupleId :=
  Nat.le_sub_one_of_lt (Nat.mod_lt _ (by decide))

variable {slots : List HeapSlot} {id : Nat} {versions : List LeafVersion}

theorem mem_liveIds :
    id ∈ liveIds slots ↔ ∃ length tuple, .live length tuple ∈ slots ∧ keyOf tuple = id := by
  rw [liveIds, mem_filterMap]
  constructor
  · rintro ⟨slot, hslot, hid⟩
    rcases slot with _ | ⟨length, tuple⟩
    · exact absurd hid (by simp [slotId])
    · exact ⟨length, tuple, hslot, Option.some.inj hid⟩
  · rintro ⟨length, tuple, hslot, rfl⟩
    exact ⟨_, hslot, rfl⟩

theorem le_maxTupleId_of_mem_liveIds (h : id ∈ liveIds slots) : id ≤ maxTupleId := by
  obtain ⟨length, tuple, -, rfl⟩ := mem_liveIds.mp h
  exact keyOf_le tuple

theorem liveIds_cons_live (length : Nat) (tuple : HeapTuple) (rest : List HeapSlot) :
    liveIds (.live length tuple :: rest) = keyOf tuple :: liveIds rest := rfl

theorem liveIds_append (before after : List HeapSlot) :
    liveIds (before ++ after) = liveIds before ++ liveIds after := filterMap_append

theorem usedBytes_append (before after : List HeapSlot) :
    usedBytes (before ++ after) = usedBytes before + usedBytes after := by
  rw [usedBytes, map_append, sum_append]
  rfl

theorem slotKeystoneId_live {length : Nat} {tuple : HeapTuple} (h : SlotOk (.live length tuple)) :
    slotKeystoneId (.live length tuple) = .ok (keyOf tuple) := by
  show keystoneIdOfPayload tuple.payload = _
  rw [keystoneIdOfPayload, if_neg (Nat.not_lt.mpr h.1)]
  rfl

-- The loops over a leaf's slots

section Loops

variable {slots : List HeapSlot}

theorem maxLiveIdFrom_spec (hok : ∀ slot ∈ slots, SlotOk slot) (start : Nat) :
    ∃ maxId, maxLiveIdFrom slots start = .ok maxId ∧ start ≤ maxId ∧
      (∀ id ∈ liveIds slots, id ≤ maxId) ∧ (maxId = start ∨ maxId ∈ liveIds slots) := by
  induction slots generalizing start with
  | nil => exact ⟨start, rfl, Nat.le_refl _, fun id hid => absurd hid not_mem_nil, .inl rfl⟩
  | cons slot rest ih =>
    have hrest : ∀ slot ∈ rest, SlotOk slot := fun s hs => hok s (mem_cons_of_mem _ hs)
    rcases slot with _ | ⟨length, tuple⟩
    · obtain ⟨maxId, heq, hspec⟩ := ih hrest start
      exact ⟨maxId, heq, hspec⟩
    · rw [maxLiveIdFrom, slotKeystoneId_live (hok _ mem_cons_self)]
      obtain ⟨maxId, heq, hle, hall, hmem⟩ :=
        ih hrest (if start < keyOf tuple then keyOf tuple else start)
      refine ⟨maxId, heq, ?_, fun id hid => ?_, ?_⟩
      · split_ifs at hle <;> omega
      · rcases mem_cons.mp hid with rfl | hid
        · split_ifs at hle <;> omega
        · exact hall id hid
      · rcases hmem with hmem | hmem
        · split_ifs at hmem
          · exact .inr (hmem ▸ mem_cons_self)
          · exact .inl hmem
        · exact .inr (mem_cons_of_mem _ hmem)

theorem nearestLive_spec (hok : ∀ slot ∈ slots, SlotOk slot) (window probe : Nat) :
    ∃ found, nearestLive slots window probe = .ok found ∧ ∀ place key, found = some (place, key) →
      ∃ length tuple, slots[place]? = some (.live length tuple) ∧ keyOf tuple = key := by
  induction window generalizing probe with
  | zero => exact ⟨none, rfl, fun _ _ h => by cases h⟩
  | succ window ih =>
    rw [nearestLive]
    rcases hget : slots[probe]? with _ | slot
    · exact ⟨none, rfl, fun _ _ h => by cases h⟩
    · rcases slot with _ | ⟨length, tuple⟩
      · exact ih (probe + 1)
      · rw [Option.map_some, slotKeystoneId_live (hok _ (mem_of_getElem? hget))]
        refine ⟨_, rfl, fun place key h => ?_⟩
        cases h
        exact ⟨length, tuple, hget, rfl⟩

theorem searchLeaf_spec (hok : ∀ slot ∈ slots, SlotOk slot) (id : Nat) (fuel lo hi : Nat) :
    ∃ found, searchLeaf slots id fuel lo hi = .ok found ∧ ∀ place, found = some place →
      ∃ length tuple, slots[place]? = some (.live length tuple) ∧ keyOf tuple = id := by
  induction fuel generalizing lo hi with
  | zero => exact ⟨none, rfl, fun _ h => by cases h⟩
  | succ fuel ih =>
    rw [searchLeaf]
    by_cases hlt : lo < hi
    · rw [if_pos hlt]
      dsimp only
      obtain ⟨found, heq, hfound⟩ :=
        nearestLive_spec hok (hi - (lo + (hi - lo) / 2)) (lo + (hi - lo) / 2)
      rw [heq]
      rcases found with _ | ⟨probe, key⟩
      · exact ih lo _
      · dsimp only
        by_cases hkey : key = id
        · rw [if_pos hkey]
          refine ⟨_, rfl, fun place h => ?_⟩
          cases h
          exact hkey ▸ hfound probe key rfl
        · rw [if_neg hkey]
          by_cases hless : key < id
          · rw [if_pos hless]
            exact ih _ _
          · rw [if_neg hless]
            exact ih _ _
    · rw [if_neg hlt]
      exact ⟨none, rfl, fun _ h => by cases h⟩

theorem scanForId_spec (hok : ∀ slot ∈ slots, SlotOk slot) (id place : Nat) :
    (∃ i length tuple, scanForId id slots place = .ok (place + i) ∧
      slots[i]? = some (.live length tuple) ∧ keyOf tuple = id) ∨
    (∃ s, scanForId id slots place = .error s ∧ s.code = .notFound ∧ id ∉ liveIds slots) := by
  induction slots generalizing place with
  | nil => exact .inr ⟨_, rfl, rfl, not_mem_nil⟩
  | cons slot rest ih =>
    have hlater := ih (fun s hs => hok s (mem_cons_of_mem _ hs)) (place + 1)
    rcases slot with _ | ⟨length, tuple⟩
    · rcases hlater with ⟨i, length, tuple, heq, hget, hkey⟩ | ⟨s, heq, hcode, hnot⟩
      · refine .inl ⟨i + 1, length, tuple, ?_, hget, hkey⟩
        show scanForId id rest (place + 1) = _
        rw [heq, Nat.add_assoc, Nat.add_comm 1 i]
      · exact .inr ⟨s, heq, hcode, hnot⟩
    · rw [scanForId, slotKeystoneId_live (hok _ mem_cons_self)]
      dsimp only
      by_cases hkey : keyOf tuple = id
      · rw [if_pos hkey]
        exact .inl ⟨0, length, tuple, rfl, rfl, hkey⟩
      · rw [if_neg hkey]
        rcases hlater with ⟨i, length', tuple', heq, hget, hkey'⟩ | ⟨s, heq, hcode, hnot⟩
        · refine .inl ⟨i + 1, length', tuple', ?_, hget, hkey'⟩
          rw [heq, Nat.add_assoc, Nat.add_comm 1 i]
        · refine .inr ⟨s, heq, hcode, fun hmem => ?_⟩
          rw [liveIds_cons_live] at hmem
          rcases mem_cons.mp hmem with heq' | hmem
          · exact hkey heq'.symm
          · exact hnot hmem

theorem findSlotForId_spec {leaf : HeapPage} (hok : ∀ slot ∈ leaf.slots, SlotOk slot) (id : Nat) :
    (∃ place length tuple, findSlotForId leaf id = .ok place ∧
      leaf.slots[place]? = some (.live length tuple) ∧ keyOf tuple = id) ∨
    (∃ s, findSlotForId leaf id = .error s ∧ s.code = .notFound ∧ id ∉ liveIds leaf.slots) := by
  obtain ⟨found, heq, hfound⟩ := searchLeaf_spec hok id leaf.slotCount 0 leaf.slotCount
  rw [findSlotForId, heq]
  rcases found with _ | place
  · rcases scanForId_spec hok id 0 with ⟨i, length, tuple, hscan, hget, hkey⟩ | hmiss
    · rw [Nat.zero_add] at hscan
      exact .inl ⟨i, length, tuple, hscan, hget, hkey⟩
    · exact .inr hmiss
  · obtain ⟨length, tuple, hget, hkey⟩ := hfound place rfl
    exact .inl ⟨place, length, tuple, rfl, hget, hkey⟩

theorem checkDuplicate_ok_iff (hok : ∀ slot ∈ slots, SlotOk slot) (leafId : PageId)
    (id place : Nat) : checkDuplicate leafId id slots place = .ok () ↔ id ∉ liveIds slots := by
  induction slots generalizing place with
  | nil => exact ⟨fun _ => not_mem_nil, fun _ => rfl⟩
  | cons slot rest ih =>
    have hlater := ih (fun s hs => hok s (mem_cons_of_mem _ hs)) (place + 1)
    rcases slot with _ | ⟨length, tuple⟩
    · exact hlater
    · rw [checkDuplicate, slotKeystoneId_live (hok _ mem_cons_self), liveIds_cons_live,
        mem_cons]
      dsimp only
      by_cases hkey : keyOf tuple = id
      · rw [if_pos hkey]
        exact ⟨fun h => (by cases h), fun h => absurd (.inl hkey.symm) h⟩
      · rw [if_neg hkey, hlater]
        exact ⟨fun h hmem => hmem.elim (fun heq => hkey heq.symm) h, fun h hmem => h (.inr hmem)⟩

end Loops

-- Copying the live versions

def versionOf : HeapSlot → Option LeafVersion
  | .dead => none
  | .live _ tuple =>
    some ⟨keyOf tuple, tuple.trxId, tuple.undoPtr, tuple.deleted, tuple.payload⟩

/-- The slot a version is written back to, in whichever page. -/
def LeafVersion.slot (version : LeafVersion) : HeapSlot :=
  .live (tupleHeaderOnDiskSize + version.bytes.length)
    { trxId := version.trxId, undoPtr := version.undoPtr, payload := version.bytes
      deleted := version.deleted }

/-- A copied version carries its key. -/
structure LeafVersion.Ok (version : LeafVersion) : Prop where
  key : version.key = load keystoneWordSize version.bytes 0 % 2 ^ 40
  word : keystoneWordSize ≤ version.bytes.length
  writer : version.trxId ≤ maxTrxId

variable {version : LeafVersion}

theorem LeafVersion.Ok.slotOk (h : version.Ok) : SlotOk version.slot :=
  ⟨h.word, Nat.le_refl _, h.writer⟩

theorem LeafVersion.Ok.slotId_eq (h : version.Ok) :
    slotId version.slot = some version.key := congrArg some h.key.symm

theorem liveVersions_eq (hok : ∀ slot ∈ slots, SlotOk slot) :
    liveVersions slots = .ok (slots.filterMap versionOf) := by
  induction slots with
  | nil => rfl
  | cons slot rest ih =>
    have hrest := ih (fun s hs => hok s (mem_cons_of_mem _ hs))
    rcases slot with _ | ⟨length, tuple⟩
    · exact hrest
    · have hkey : keystoneIdOfPayload tuple.payload = .ok (keyOf tuple) :=
        slotKeystoneId_live (hok _ mem_cons_self)
      rw [liveVersions, hkey, hrest]
      rfl

theorem versions_ok (hok : ∀ slot ∈ slots, SlotOk slot) (h : version ∈ slots.filterMap versionOf) :
    version.Ok := by
  obtain ⟨slot, hslot, hversion⟩ := mem_filterMap.mp h
  rcases slot with _ | ⟨length, tuple⟩
  · exact absurd hversion (by simp [versionOf])
  · cases hversion
    have hslotOk := hok _ hslot
    exact ⟨rfl, hslotOk.1, hslotOk.2.2⟩

theorem map_key_versions (slots : List HeapSlot) :
    (slots.filterMap versionOf).map LeafVersion.key = liveIds slots := by
  induction slots with
  | nil => rfl
  | cons slot rest ih =>
    rcases slot with _ | ⟨length, tuple⟩
    · exact ih
    · show keyOf tuple :: (rest.filterMap versionOf).map LeafVersion.key = _
      rw [ih]
      rfl

theorem usedBytes_versions_le (hok : ∀ slot ∈ slots, SlotOk slot) :
    usedBytes ((slots.filterMap versionOf).map LeafVersion.slot) ≤ usedBytes slots := by
  induction slots with
  | nil => exact Nat.le_refl _
  | cons slot rest ih =>
    have hrest := ih (fun s hs => hok s (mem_cons_of_mem _ hs))
    rcases slot with _ | ⟨length, tuple⟩
    · show _ ≤ 0 + usedBytes rest
      rw [Nat.zero_add]
      exact hrest
    · have hfit := (hok _ mem_cons_self).2.1
      show slotOnDiskSize + (tupleHeaderOnDiskSize + tuple.payload.length) +
        usedBytes ((rest.filterMap versionOf).map LeafVersion.slot) ≤
        slotOnDiskSize + length + usedBytes rest
      omega

theorem liveIds_map_slot (hok : ∀ v ∈ versions, v.Ok) :
    liveIds (versions.map LeafVersion.slot) = versions.map LeafVersion.key := by
  induction versions with
  | nil => rfl
  | cons version rest ih =>
    rw [map_cons, map_cons, ← ih (fun v hv => hok v (mem_cons_of_mem _ hv)),
      liveIds, filterMap_cons, (hok version mem_cons_self).slotId_eq]
    rfl

theorem versions_map_slot (hok : ∀ v ∈ versions, v.Ok) :
    (versions.map LeafVersion.slot).filterMap versionOf = versions := by
  induction versions with
  | nil => rfl
  | cons version rest ih =>
    have hkey : keyOf { trxId := version.trxId, undoPtr := version.undoPtr
                        payload := version.bytes, deleted := version.deleted } = version.key :=
      (hok version mem_cons_self).key.symm
    have hcopy : versionOf version.slot = some version := by
      rw [LeafVersion.slot, versionOf, hkey]
    rw [map_cons, filterMap_cons, hcopy, ih fun v hv => hok v (mem_cons_of_mem _ hv)]

theorem insertTuple_of_room {page : HeapPage} {payload : Bytes} {trxId undoPtr : Nat}
    (htrx : trxId ≤ maxTrxId) (hspace : page.freeSpace ≤ emptyFreeSpace)
    (hroom : slotOnDiskSize + (tupleHeaderOnDiskSize + payload.length) ≤ page.freeSpace) :
    page.insertTuple payload trxId undoPtr = .ok ({ page with
      slots := page.slots ++ [.live (tupleHeaderOnDiskSize + payload.length)
        { trxId := trxId, undoPtr := undoPtr, payload := payload }]
      freeSpace := page.freeSpace -
        (slotOnDiskSize + (tupleHeaderOnDiskSize + payload.length)) }, page.slots.length) := by
  have hsize : payload.length ≤ pageSize := by
    rw [show pageSize = 8192 from rfl]
    rw [show emptyFreeSpace = 8140 from rfl] at hspace
    omega
  rw [HeapPage.insertTuple, if_neg (Nat.not_lt.mpr hsize), if_neg (Nat.not_lt.mpr htrx)]
  rw [if_neg (by omega), Nat.add_assoc]
  rfl

theorem deleteMark_written {page : HeapPage} (hok : version.Ok) (hslots : page.slots = slots ++
      [.live (tupleHeaderOnDiskSize + version.bytes.length)
        { trxId := version.trxId, undoPtr := version.undoPtr, payload := version.bytes }]) 
    (hdeleted : version.deleted = true) :
    page.deleteMark slots.length version.trxId =
      .ok { page with slots := slots ++ [version.slot] } := by
  have hget : page.slots[slots.length]? =
      some (.live (tupleHeaderOnDiskSize + version.bytes.length)
        { trxId := version.trxId, undoPtr := version.undoPtr, payload := version.bytes }) := by
    rw [hslots, List.getElem?_concat_length]
  rw [HeapPage.deleteMark]
  refine bind_eq_ok.mpr ⟨(), if_neg (Nat.not_lt.mpr hok.writer), ?_⟩
  refine bind_eq_ok.mpr ⟨(_, _), HeapPage.liveSlot_eq_ok.mpr hget, ?_⟩
  dsimp only
  rw [HeapPage.setSlot, hslots, set_append_right _ _ (Nat.le_refl _), Nat.sub_self,
    LeafVersion.slot, hdeleted]
  rfl

theorem fillLeaf_spec {page : HeapPage} {versions : List LeafVersion} (hok : ∀ v ∈ versions, v.Ok)
    (hspace : page.freeSpace ≤ emptyFreeSpace)
    (hroom : usedBytes (versions.map LeafVersion.slot) ≤ page.freeSpace) :
    fillLeaf page versions = ({ page with
      slots := page.slots ++ versions.map LeafVersion.slot
      freeSpace := page.freeSpace - usedBytes (versions.map LeafVersion.slot) }, .ok ()) := by
  induction versions generalizing page with
  | nil =>
    rw [fillLeaf, map_nil, append_nil]
    rfl
  | cons version rest ih =>
    have hversion := hok version mem_cons_self
    have hbytes : usedBytes ((version :: rest).map LeafVersion.slot) =
        slotOnDiskSize + (tupleHeaderOnDiskSize + version.bytes.length) +
          usedBytes (rest.map LeafVersion.slot) := rfl
    rw [hbytes] at hroom
    -- What the rest of the loop does once this version is in, marked or not.
    have hlater : fillLeaf ⟨page.minKey, page.slots ++ [version.slot], page.freeSpace -
          (slotOnDiskSize + (tupleHeaderOnDiskSize + version.bytes.length))⟩ rest =
        ({ page with
          slots := page.slots ++ (version :: rest).map LeafVersion.slot
          freeSpace := page.freeSpace -
            usedBytes ((version :: rest).map LeafVersion.slot) }, .ok ()) := by
      rw [ih (fun v hv => hok v (mem_cons_of_mem _ hv))
        (Nat.le_trans (Nat.sub_le _ _) hspace) (Nat.le_sub_of_add_le (by omega)), hbytes,
        append_assoc, singleton_append, map_cons, Nat.sub_sub]
    rw [fillLeaf, insertTuple_of_room hversion.writer hspace (by omega)]
    dsimp only
    by_cases hdeleted : version.deleted = true
    · rw [if_pos hdeleted, deleteMark_written hversion rfl hdeleted]
      exact hlater
    · rw [if_neg hdeleted]
      rw [LeafVersion.slot, Bool.eq_false_iff.mpr hdeleted] at hlater
      exact hlater

end Kds.Storage.Btree
