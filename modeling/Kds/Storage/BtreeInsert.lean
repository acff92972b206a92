/-
  Kds.Storage.BtreeInsert

  What one insert does to a tree in shape.  A descent finds the one leaf that owns the id, and
  from there an insert is one of a few things (`InsertOutcome`): refused with nothing changed,
  placed in the leaf, grown by a split that the climb finishes, or stopped half way, with
  pages written that the tree does not reach.
-/

import Kds.Storage.BtreePromote

namespace Kds.Storage.Btree

open Lib List

variable {store store' : TreeStore} {bounds : PageId → Option Bounds} {root : PageId}
  {height : Nat} {key sep : Nat} {leaf : LeafPage} {version : LeafVersion} {s : Status}
    {ids : List Nat} {store₁ : TreeStore}

-- The descent

/-- What a descent for a key ends with. -/
structure Landed (store : TreeStore) (bounds : PageId → Option Bounds) (root : PageId)
    (height key : Nat) (descent : Descent) (lo hi : Nat) : Prop where
  descends : descendTo store root key = .ok descent
  page : store.pages descent.leafId = some (.leaf descent.leaf)
  leafBounds : bounds descent.leafId = some ⟨0, lo, hi⟩
  keyIn : lo ≤ key ∧ key < hi
  ok : LeafOk descent.leaf lo hi
  ascent : Ascent store bounds root height key 0 descent.leafId descent.path.reverse

theorem descendFrom_spec (h : TreeShape store bounds root height) (fuel : Nat) :
    ∀ level current lo hi, bounds current = some ⟨level, lo, hi⟩ → lo ≤ key → key < hi →
      level < fuel → ∃ descent lo' hi', descendFrom store key fuel current = .ok descent ∧
        store.pages descent.leafId = some (.leaf descent.leaf) ∧
        bounds descent.leafId = some ⟨0, lo', hi'⟩ ∧ lo' ≤ key ∧ key < hi' ∧
        LeafOk descent.leaf lo' hi' ∧
        ∀ above, Ascent store bounds root height key level current above →
          Ascent store bounds root height key 0 descent.leafId (descent.path.reverse ++ above) := by
  induction fuel with
  | zero => exact fun level _ _ _ _ _ _ hlt => absurd hlt (Nat.not_lt_zero level)
  | succ fuel ih =>
    intro level current lo hi hbounds hlo hhi hfuel
    rcases level with _ | level
    · obtain ⟨leaf, hpage, hok⟩ := (h.pages current _ hbounds).leaf_of_level_zero rfl
      refine ⟨⟨[], current, leaf⟩, lo, hi, ?_, hpage, hbounds, hlo, hhi, hok, fun above ha => ha⟩
      rw [descendFrom, TreeStore.get, hpage]
    · obtain ⟨node, hpage, hok⟩ := (h.pages current _ hbounds).node_of_level_pos
        (Nat.succ_pos level)
      obtain ⟨a, b, hchild, ha, hb, -, -⟩ := hok.sliced.route hlo hhi
      rw [← InternalPage.childFor_eq_route hok.sorted] at hchild
      obtain ⟨descent, lo', hi', heq, hleaf, hleafBounds, hlo', hhi', hleafOk, hascent⟩ :=
        ih level (node.childFor key) a b hchild ha hb (Nat.lt_of_succ_lt_succ hfuel)
      refine ⟨{ descent with path := current :: descent.path }, lo', hi', ?_, hleaf, hleafBounds,
        hlo', hhi', hleafOk, fun above habove => ?_⟩
      · rw [descendFrom, TreeStore.get, hpage]
        dsimp only
        rw [heq]
      · show Ascent store bounds root height key 0 descent.leafId
          ((current :: descent.path).reverse ++ above)
        rw [reverse_cons, append_assoc, singleton_append]
        exact hascent (current :: above) ⟨⟨node, lo, hi, hpage, hbounds, ⟨hlo, hhi⟩, rfl⟩, habove⟩

theorem TreeShape.landed (h : TreeShape store bounds root height) (hheight : height < maxBtreeDepth)
    (hkey : key < idSpace) :
    ∃ descent lo hi, descendTo store root key = .ok descent ∧
      Landed store bounds root height key descent lo hi := by
  obtain ⟨descent, lo, hi, heq, hpage, hbounds, hlo, hhi, hok, hascent⟩ :=
    descendFrom_spec h maxBtreeDepth height root 0 idSpace h.root (Nat.zero_le _) hkey hheight
  refine ⟨descent, lo, hi, heq, heq, hpage, hbounds, ⟨hlo, hhi⟩, hok, ?_⟩
  have hend := hascent [] ⟨rfl, rfl⟩
  rwa [append_nil] at hend

theorem descendFrom_too_deep (h : TreeShape store bounds root height) (fuel : Nat) :
    ∀ level current lo hi, bounds current = some ⟨level, lo, hi⟩ → lo ≤ key → key < hi →
      fuel ≤ level → ∃ s, descendFrom store key fuel current = .error s ∧
        s.code = .corruption := by
  induction fuel with
  | zero => exact fun _ _ _ _ _ _ _ _ => ⟨_, rfl, rfl⟩
  | succ fuel ih =>
    intro level current lo hi hbounds hlo hhi hfuel
    obtain ⟨node, hpage, hok⟩ := (h.pages current _ hbounds).node_of_level_pos
      (Nat.lt_of_lt_of_le (Nat.succ_pos fuel) hfuel)
    obtain ⟨a, b, hchild, ha, hb, -, -⟩ := hok.sliced.route hlo hhi
    rw [← InternalPage.childFor_eq_route hok.sorted] at hchild
    obtain ⟨s, heq, hcode⟩ := ih (level - 1) (node.childFor key) a b hchild ha hb (by omega)
    refine ⟨s, ?_, hcode⟩
    rw [descendFrom, TreeStore.get, hpage]
    dsimp only
    rw [heq]

theorem TreeShape.too_deep (h : TreeShape store bounds root height)
    (hheight : maxBtreeDepth ≤ height) (hkey : key < idSpace) :
    ∃ s, descendTo store root key = .error s ∧ s.code = .corruption :=
  descendFrom_too_deep h maxBtreeDepth height root 0 idSpace h.root (Nat.zero_le _) hkey hheight

theorem TreeShape.landed_of_descend (h : TreeShape store bounds root height) {id : Nat}
    (hid : id < idSpace) {descent : Descent} (hdescend : descendTo store root id = .ok descent) :
    height < maxBtreeDepth ∧ ∃ lo hi, Landed store bounds root height id descent lo hi := by
  have hheight : height < maxBtreeDepth := by
    by_contra hdeep
    obtain ⟨e, he, -⟩ := h.too_deep (Nat.not_lt.mp hdeep) hid
    rw [hdescend] at he
    cases he
  obtain ⟨landing, lo, hi, hlanding, hland⟩ := h.landed hheight hid
  obtain rfl : descent = landing := by
    rw [hdescend] at hlanding
    exact Except.ok.inj hlanding
  exact ⟨hheight, lo, hi, hland⟩

variable {descent : Descent} {id lo hi : Nat}

theorem Landed.leafId_eq {u v : Nat} {page : PageId}
    (h : TreeShape store bounds root height)
      (hland : Landed store bounds root height id descent lo hi)
    (hpage : bounds page = some ⟨0, u, v⟩) (hkey : u ≤ id ∧ id < v) : descent.leafId = page :=
  h.apart _ _ _ _ id hland.leafBounds hpage rfl hland.keyIn.1 hland.keyIn.2 hkey.1 hkey.2

-- Changing a leaf

theorem TreeShape.setLeaf (h : TreeShape store bounds root height) {leafId : PageId}
    (hleaf : bounds leafId = some ⟨0, lo, hi⟩) (hnext : store.nextPageId ≤ store'.nextPageId)
    (hother : ∀ id, id ≠ leafId → id < store.nextPageId → store'.pages id = store.pages id)
    (hpage : store'.pages leafId = some (.leaf leaf)) (hok : LeafOk leaf lo hi) :
    TreeShape store' bounds root height := by
  refine ⟨h.root, fun id bd hid => ?_, h.apart,
    fun id bd hid => Nat.lt_of_lt_of_le (h.below id bd hid) hnext, h.levels⟩
  by_cases heq : id = leafId
  · subst heq
    rw [hleaf] at hid
    cases hid
    exact .leaf leaf hpage rfl hok
  · exact (h.pages id bd hid).frame (hother id heq (h.below id bd hid)) (fun _ _ _ _ _ _ hc => hc)

/-- What an insert asks of a page's room. -/
def tupleBytes (payload : Bytes) : Nat :=
  slotOnDiskSize + (tupleHeaderOnDiskSize + payload.length)

variable {trxId undoPtr : Nat} {payload : Bytes} {page : HeapPage}

theorem insertTuple_ok {page' : HeapPage} {slot : Nat}
    (h : page.insertTuple payload trxId undoPtr = .ok (page', slot)) :
    page'.minKey = page.minKey ∧ page'.freeSpace + tupleBytes payload = page.freeSpace := by
  rw [HeapPage.insertTuple] at h
  dsimp only at h
  split_ifs at h with hsize hmax hroom
  obtain ⟨rfl, -⟩ := Prod.mk.inj (Except.ok.inj h)
  refine ⟨rfl, ?_⟩
  show page.freeSpace - (slotOnDiskSize + tupleHeaderOnDiskSize + payload.length) +
    tupleBytes payload = page.freeSpace
  rw [tupleBytes]
  omega

theorem LeafOk.insertTuple (h : LeafOk leaf lo hi) {slot : Nat} {body : HeapPage}
    (hinsert : leaf.body.insertTuple payload trxId undoPtr = .ok (body, slot))
    (hkey : keystoneIdOfPayload payload = .ok id) (hnew : id ∉ liveIds leaf.body.slots)
    (hid : lo ≤ id ∧ id < hi) :
    LeafOk { leaf with body := body } lo hi ∧
      liveIds body.slots = liveIds leaf.body.slots ++ [id] := by
  obtain ⟨hslot, htrx, hslots⟩ := HeapPage.insertTuple_eq_ok hinsert
  obtain ⟨hmin, hspace⟩ := insertTuple_ok hinsert
  rw [keystoneIdOfPayload] at hkey
  split_ifs at hkey with hword
  have hlive : liveIds body.slots = liveIds leaf.body.slots ++ [id] := by
    rw [hslots, liveIds_append]
    exact congrArg (liveIds leaf.body.slots ++ [·]) (Except.ok.inj hkey)
  refine ⟨⟨hmin.trans h.minKey, ?_, ?_, ?_, ?_⟩, hlive⟩
  · intro other hother
    rw [hlive] at hother
    rcases Lib.mem_snoc.mp hother with hother | rfl
    · exact h.range other hother
    · exact hid
  · show (liveIds body.slots).Nodup
    rw [hlive]
    refine nodup_append.mpr ⟨h.nodup, nodup_singleton _, fun x hx y hy heq => hnew ?_⟩
    rw [← mem_singleton.mp hy, ← heq]
    exact hx
  · intro s hs
    rw [hslots] at hs
    rcases Lib.mem_snoc.mp hs with hs | rfl
    · exact h.slots s hs
    · exact ⟨Nat.not_lt.mp hword, Nat.le_refl _, htrx⟩
  · have hused := h.space
    show body.freeSpace + usedBytes body.slots ≤ emptyFreeSpace
    rw [hslots, usedBytes_append]
    show body.freeSpace + (usedBytes leaf.body.slots + tupleBytes payload) ≤ emptyFreeSpace
    omega

theorem LeafOk.ofVersions {versions : List LeafVersion} (hok : ∀ v ∈ versions, v.Ok) {lo hi : Nat}
    (hrange : ∀ v ∈ versions, lo ≤ v.key ∧ v.key < hi)
    (hnodup : (versions.map LeafVersion.key).Nodup)
    (hroom : usedBytes (versions.map LeafVersion.slot) ≤ emptyFreeSpace)
    (next : Option PageId) (epoch ownerOid : Nat) :
    LeafOk ⟨⟨lo, versions.map LeafVersion.slot,
      emptyFreeSpace - usedBytes (versions.map LeafVersion.slot)⟩, next, epoch, ownerOid⟩
        lo hi where
  minKey := rfl
  range id hid := by
    rw [liveIds_map_slot hok] at hid
    obtain ⟨v, hv, rfl⟩ := mem_map.mp hid
    exact hrange v hv
  nodup := by
    show (liveIds (versions.map LeafVersion.slot)).Nodup
    rwa [liveIds_map_slot hok]
  slots slot hslot := by
    obtain ⟨v, hv, rfl⟩ := mem_map.mp hslot
    exact (hok v hv).slotOk
  space := by
    show emptyFreeSpace - usedBytes (versions.map LeafVersion.slot) +
      usedBytes (versions.map LeafVersion.slot) ≤ emptyFreeSpace
    omega

-- A leaf in two

/-- The live payloads of a slot have one length. -/
def SlotSized (size : Nat) : HeapSlot → Prop
  | .dead => True
  | .live _ tuple => tuple.payload.length = size

/-- A leaf in two: the old page keeps `[lo, sep)`, a new one after it in the chain owns
    `[sep, hi)`, and together they hold `ids`. -/
structure LeafSplit (store store' : TreeStore) (descent : Descent) (payload : Bytes)
    (lo hi sep : Nat) (oldLeaf newLeaf : LeafPage) (ids : List Nat) : Prop where
  next : store'.nextPageId = store.nextPageId + 1
  other : ∀ id, id ≠ descent.leafId → id ≠ store.nextPageId → store'.pages id = store.pages id
  oldPage : store'.pages descent.leafId = some (.leaf oldLeaf)
  newPage : store'.pages store.nextPageId = some (.leaf newLeaf)
  oldLink : oldLeaf.nextPageId = some store.nextPageId
  newLink : newLeaf.nextPageId = descent.leaf.nextPageId
  oldOk : LeafOk oldLeaf lo sep
  newOk : LeafOk newLeaf sep hi
  sepIn : lo ≤ sep ∧ sep < hi
  sepMax : sep ≤ maxTupleId
  ids : (liveIds oldLeaf.body.slots ++ liveIds newLeaf.body.slots).Perm ids
  sized : (∀ slot ∈ descent.leaf.body.slots, SlotSized payload.length slot) →
    ∀ slot ∈ oldLeaf.body.slots ++ newLeaf.body.slots, SlotSized payload.length slot

/-- What a division leaves of a leaf's versions: all of them and the incoming one, in two leaves,
    the new one opened by a key that moved. -/
structure LeafDivided (leaf oldLeaf newLeaf : LeafPage) (sep : Nat) (incoming : LeafVersion) :
    Prop where
  versions : (oldLeaf.body.slots.filterMap versionOf ++
    newLeaf.body.slots.filterMap versionOf).Perm (incoming :: leaf.body.slots.filterMap versionOf)
  moved : sep ∈ liveIds leaf.body.slots ∧ sep ∈ liveIds newLeaf.body.slots
  owner : oldLeaf.ownerOid = leaf.ownerOid
  epoch : oldLeaf.relayoutEpoch = leaf.relayoutEpoch + 1

/-- The version an insert writes. -/
def incomingVersion (id trxId : Nat) (payload : Bytes) : LeafVersion :=
  ⟨id, trxId, noUndoPtr, false, payload⟩

/-- The copies a division sorts. -/
def sortedVersions (slots : List HeapSlot) : List LeafVersion :=
  (slots.filterMap versionOf).mergeSort (fun a b => decide (a.key ≤ b.key))

/-- The half of a divided leaf that takes an id. -/
def divisionHalf (slots : List HeapSlot) (id : Nat) : List LeafVersion :=
  let live := sortedVersions slots
  match live.drop (live.length / 2) with
  | [] => live
  | median :: upper =>
    if median.key ≤ id then median :: upper else live.take (live.length / 2)

/-- That half has room for the tuple. -/
def DivisionFits (slots : List HeapSlot) (id : Nat) (payload : Bytes) : Prop :=
  usedBytes ((divisionHalf slots id).map LeafVersion.slot) + tupleBytes payload ≤ emptyFreeSpace

variable {slots : List HeapSlot}

theorem mem_sortedVersions : version ∈ sortedVersions slots ↔ version ∈ slots.filterMap versionOf :=
  (mergeSort_perm _ _).mem_iff

theorem keys_sortedVersions_perm (slots : List HeapSlot) :
    ((sortedVersions slots).map LeafVersion.key).Perm (liveIds slots) := by
  rw [← map_key_versions]
  exact (mergeSort_perm _ _).map _

theorem sortedVersions_pairwise (slots : List HeapSlot) :
    (sortedVersions slots).Pairwise (fun a b => a.key ≤ b.key) := by
  have hsorted := @pairwise_mergeSort LeafVersion (fun a b => decide (a.key ≤ b.key))
    (fun a b c hab hbc => decide_eq_true (Nat.le_trans (of_decide_eq_true hab)
      (of_decide_eq_true hbc)))
    (fun a b => by rcases Nat.le_total a.key b.key with h | h <;> simp [h])
    (slots.filterMap versionOf)
  exact hsorted.imp (fun h => of_decide_eq_true h)

theorem usedBytes_sortedVersions (slots : List HeapSlot) :
    usedBytes ((sortedVersions slots).map LeafVersion.slot) =
      usedBytes ((slots.filterMap versionOf).map LeafVersion.slot) :=
  (((mergeSort_perm _ _).map LeafVersion.slot).map slotBytes).sum_nat

theorem sized_version {size : Nat} (hall : ∀ slot ∈ slots, SlotSized size slot)
    (h : version ∈ slots.filterMap versionOf) : SlotSized size version.slot := by
  obtain ⟨slot, hslot, hversion⟩ := mem_filterMap.mp h
  rcases slot with _ | ⟨length, tuple⟩
  · exact absurd hversion (by simp [versionOf])
  · cases hversion
    exact hall (.live length tuple) hslot

/-- What a division finds: the copies in key order, cut at the median. -/
structure Halves (slots : List HeapSlot) (lower : List LeafVersion) (median : LeafVersion)
    (upper : List LeafVersion) : Prop where
  take : (sortedVersions slots).take ((sortedVersions slots).length / 2) = lower
  drop : (sortedVersions slots).drop ((sortedVersions slots).length / 2) = median :: upper
  nonempty : lower ≠ []
  lowerLt : ∀ v ∈ lower, v.key < median.key
  upperGe : ∀ v ∈ median :: upper, median.key ≤ v.key

theorem Halves.split {lower upper : List LeafVersion}
    {median : LeafVersion} (h : Halves slots lower median upper) :
    lower ++ median :: upper = sortedVersions slots := by
  rw [← h.take, ← h.drop, take_append_drop]

theorem exists_halves (hnodup : (liveIds slots).Nodup) (hcount : 2 ≤ (liveIds slots).length) :
    ∃ lower median upper, Halves slots lower median upper := by
  have hlen : (sortedVersions slots).length = (liveIds slots).length := by
    have hperm := (keys_sortedVersions_perm slots).length_eq
    rwa [length_map] at hperm
  have hne : (sortedVersions slots).drop ((sortedVersions slots).length / 2) ≠ [] := by
    intro hnil
    have hzero := congrArg List.length hnil
    rw [length_drop, length_nil] at hzero
    omega
  obtain ⟨median, upper, hdrop⟩ := exists_cons_of_ne_nil hne
  obtain ⟨lower, hlower⟩ : ∃ lower,
      (sortedVersions slots).take ((sortedVersions slots).length / 2) = lower := ⟨_, rfl⟩
  have hsplit : lower ++ median :: upper = sortedVersions slots := by
    rw [← hlower, ← hdrop, take_append_drop]
  have hsorted := sortedVersions_pairwise slots
  have hkeys : ((sortedVersions slots).map LeafVersion.key).Nodup :=
    (keys_sortedVersions_perm slots).nodup_iff.mpr hnodup
  rw [← hsplit] at hsorted hkeys
  rw [map_append, map_cons, nodup_append] at hkeys
  obtain ⟨-, hupper, hcross⟩ := pairwise_append.mp hsorted
  refine ⟨lower, median, upper, hlower, hdrop, ?_, fun v hv => ?_, fun v hv => ?_⟩
  · intro hnil
    have hzero := congrArg List.length hlower
    rw [hnil, length_take, length_nil] at hzero
    omega
  · refine Nat.lt_of_le_of_ne (hcross v hv median mem_cons_self) ?_
    exact hkeys.2.2 v.key (mem_map_of_mem hv) median.key mem_cons_self
  · rcases mem_cons.mp hv with rfl | hv
    · exact Nat.le_refl _
    · exact (pairwise_cons.mp hupper).1 v hv

theorem insertTuple_no_room {page : HeapPage} {payload : Bytes} {trxId undoPtr : Nat}
    (h : page.freeSpace < tupleBytes payload) :
    ∃ s, page.insertTuple payload trxId undoPtr = .error s := by
  rw [HeapPage.insertTuple]
  dsimp only
  split_ifs with hsize hmax hroom
  · exact ⟨_, rfl⟩
  · exact ⟨_, rfl⟩
  · exact ⟨_, rfl⟩
  · rw [tupleBytes] at h
    omega

theorem leafSplit_of_put {store₀ : TreeStore} {descent : Descent} {lo hi sep : Nat}
    {payload : Bytes} {oldLeaf newLeaf : LeafPage} {ids : List Nat}
    (hnext : store₀.nextPageId = store.nextPageId + 1)
    (hother : ∀ id, id ≠ store.nextPageId → store₀.pages id = store.pages id)
    (hlt : descent.leafId < store.nextPageId)
      (holdLink : oldLeaf.nextPageId = some store.nextPageId)
    (hnewLink : newLeaf.nextPageId = descent.leaf.nextPageId) (holdOk : LeafOk oldLeaf lo sep)
    (hnewOk : LeafOk newLeaf sep hi) (hsep : lo ≤ sep ∧ sep < hi) (hmax : sep ≤ maxTupleId)
    (hids : (liveIds oldLeaf.body.slots ++ liveIds newLeaf.body.slots).Perm ids)
    (hsized : (∀ slot ∈ descent.leaf.body.slots, SlotSized payload.length slot) →
      ∀ slot ∈ oldLeaf.body.slots ++ newLeaf.body.slots, SlotSized payload.length slot) :
    LeafSplit store ((store₀.put store.nextPageId (.leaf newLeaf)).put descent.leafId
      (.leaf oldLeaf)) descent payload lo hi sep oldLeaf newLeaf ids where
  next := hnext
  other id hidLeaf hidNew := (Function.update_of_ne hidLeaf _ _).trans
    ((Function.update_of_ne hidNew _ _).trans (hother id hidNew))
  oldPage := Function.update_self _ _ _
  newPage := (Function.update_of_ne (Nat.ne_of_gt hlt) _ _).trans (Function.update_self _ _ _)
  oldLink := holdLink
  newLink := hnewLink
  oldOk := holdOk
  newOk := hnewOk
  sepIn := hsep
  sepMax := hmax
  ids := hids
  sized := hsized

/-- The two pages of a division, as they are before the tuple goes to one of them. -/
structure Halved (store store₀ : TreeStore) (descent : Descent) (payload : Bytes) (lo hi sep : Nat)
    (lower upper : List LeafVersion) (oldLeaf newLeaf : LeafPage) : Prop where
  next : store₀.nextPageId = store.nextPageId + 1
  other : ∀ id, id ≠ store.nextPageId → store₀.pages id = store.pages id
  sepIn : lo < sep ∧ sep < hi
  sepMax : sep ≤ maxTupleId
  oldOk : LeafOk oldLeaf lo sep
  newOk : LeafOk newLeaf sep hi
  oldLink : oldLeaf.nextPageId = some store.nextPageId
  newLink : newLeaf.nextPageId = descent.leaf.nextPageId
  owner : oldLeaf.ownerOid = descent.leaf.ownerOid
  epoch : oldLeaf.relayoutEpoch = descent.leaf.relayoutEpoch + 1
  oldFree : oldLeaf.body.freeSpace = emptyFreeSpace - usedBytes (lower.map LeafVersion.slot)
  newFree : newLeaf.body.freeSpace = emptyFreeSpace - usedBytes (upper.map LeafVersion.slot)
  used : usedBytes (lower.map LeafVersion.slot) + usedBytes (upper.map LeafVersion.slot) ≤
    emptyFreeSpace
  oldVersions : oldLeaf.body.slots.filterMap versionOf = lower
  newVersions : newLeaf.body.slots.filterMap versionOf = upper
  versions : (lower ++ upper).Perm (descent.leaf.body.slots.filterMap versionOf)
  ids : (liveIds oldLeaf.body.slots ++ liveIds newLeaf.body.slots).Perm
    (liveIds descent.leaf.body.slots)
  sepHere : sep ∈ liveIds newLeaf.body.slots
  sized : (∀ slot ∈ descent.leaf.body.slots, SlotSized payload.length slot) →
    ∀ slot ∈ oldLeaf.body.slots ++ newLeaf.body.slots, SlotSized payload.length slot
  half : ∀ id, divisionHalf descent.leaf.body.slots id = if sep ≤ id then upper else lower

/-- A leaf with two live tuples is halved at its median, whatever the tuple that comes. -/
theorem exists_halved (hok : LeafOk descent.leaf lo hi)
    (hcount : 2 ≤ (liveIds descent.leaf.body.slots).length) (payload : Bytes)
    (oldRoot : PageId) (ownerOid : Nat) :
    ∃ store₀ sep lower upper oldLeaf newLeaf,
      Halved store store₀ descent payload lo hi sep lower upper oldLeaf newLeaf ∧
        ∀ id trxId, splitLeafAndInsert store oldRoot descent id payload trxId ownerOid =
          insertIntoHalf store₀ oldRoot descent id payload trxId ownerOid sep store.nextPageId
            newLeaf oldLeaf := by
  obtain ⟨lower, median, upper, hhalves⟩ := exists_halves hok.nodup hcount
  have hversions : ∀ v ∈ sortedVersions descent.leaf.body.slots, v.Ok :=
    fun v hv => versions_ok hok.slots (mem_sortedVersions.mp hv)
  have hkeys := keys_sortedVersions_perm descent.leaf.body.slots
  have hrange : ∀ v ∈ sortedVersions descent.leaf.body.slots, lo ≤ v.key ∧ v.key < hi :=
    fun v hv => hok.range v.key (hkeys.mem_iff.mp (mem_map_of_mem hv))
  have hused : usedBytes (lower.map LeafVersion.slot) +
      usedBytes ((median :: upper).map LeafVersion.slot) ≤ emptyFreeSpace := by
    rw [← usedBytes_append, ← map_append, hhalves.split, usedBytes_sortedVersions]
    have hle := usedBytes_versions_le hok.slots
    have hspace := hok.space
    omega
  have hmemLower : ∀ v ∈ lower, v ∈ sortedVersions descent.leaf.body.slots := by
    intro v hv
    rw [← hhalves.split]
    exact mem_append_left _ hv
  have hmemUpper : ∀ v ∈ median :: upper, v ∈ sortedVersions descent.leaf.body.slots := by
    intro v hv
    rw [← hhalves.split]
    exact mem_append_right _ hv
  have hnodup : ((lower ++ median :: upper).map LeafVersion.key).Nodup := by
    rw [hhalves.split]
    exact hkeys.nodup_iff.mpr hok.nodup
  rw [map_append, nodup_append] at hnodup
  have hmedian := hrange median (hmemUpper median mem_cons_self)
  have hlo : lo < median.key := by
    obtain ⟨first, hfirst⟩ := exists_mem_of_ne_nil lower hhalves.nonempty
    exact Nat.lt_of_le_of_lt (hrange first (hmemLower first hfirst)).1
      (hhalves.lowerLt first hfirst)
  have hmax : median.key ≤ maxTupleId := by
    have hmem : median.key ∈ liveIds descent.leaf.body.slots := hkeys.mem_iff.mp
      (mem_map_of_mem (hmemUpper median mem_cons_self))
    exact le_maxTupleId_of_mem_liveIds hmem
  obtain ⟨newLeaf, hnewLeaf⟩ : ∃ leaf : LeafPage, leaf = ⟨⟨median.key,
      (median :: upper).map LeafVersion.slot,
      emptyFreeSpace - usedBytes ((median :: upper).map LeafVersion.slot)⟩,
      descent.leaf.nextPageId, 0, ownerOid⟩ := ⟨_, rfl⟩
  obtain ⟨oldLeaf, holdLeaf⟩ : ∃ leaf : LeafPage, leaf = ⟨⟨lo, lower.map LeafVersion.slot,
      emptyFreeSpace - usedBytes (lower.map LeafVersion.slot)⟩, some store.nextPageId,
      descent.leaf.relayoutEpoch + 1, descent.leaf.ownerOid⟩ := ⟨_, rfl⟩
  have holdVersions : oldLeaf.body.slots.filterMap versionOf = lower := by
    rw [holdLeaf]
    exact versions_map_slot fun v hv => hversions v (hmemLower v hv)
  have hnewVersions : newLeaf.body.slots.filterMap versionOf = median :: upper := by
    rw [hnewLeaf]
    exact versions_map_slot fun v hv => hversions v (hmemUpper v hv)
  refine ⟨store.createNew.put store.nextPageId (.leaf ⟨newLeaf.body, none, 0, ownerOid⟩),
    median.key, lower, median :: upper, oldLeaf, newLeaf, ?_, fun id trxId => ?_⟩
  · exact {
      next := rfl
      other := fun other hother => Function.update_of_ne hother _ _
      sepIn := ⟨hlo, hmedian.2⟩
      sepMax := hmax
      oldOk := by
        rw [holdLeaf]
        exact LeafOk.ofVersions (fun v hv => hversions v (hmemLower v hv))
          (fun v hv => ⟨(hrange v (hmemLower v hv)).1, hhalves.lowerLt v hv⟩) hnodup.1
          (Nat.le_trans (Nat.le_add_right _ _) hused) _ _ _
      newOk := by
        rw [hnewLeaf]
        exact LeafOk.ofVersions (fun v hv => hversions v (hmemUpper v hv))
          (fun v hv => ⟨hhalves.upperGe v hv, (hrange v (hmemUpper v hv)).2⟩) hnodup.2.1
          (Nat.le_trans (Nat.le_add_left _ _) hused) _ _ _
      oldLink := by rw [holdLeaf]
      newLink := by rw [hnewLeaf]
      owner := by rw [holdLeaf]
      epoch := by rw [holdLeaf]
      oldFree := by rw [holdLeaf]
      newFree := by rw [hnewLeaf]
      used := hused
      oldVersions := holdVersions
      newVersions := hnewVersions
      versions := by
        rw [hhalves.split]
        exact mergeSort_perm _ _
      ids := by
        rw [← map_key_versions, ← map_key_versions, holdVersions, hnewVersions, ← map_append,
          hhalves.split]
        exact hkeys
      sepHere := by
        rw [← map_key_versions, hnewVersions]
        exact mem_cons_self
      sized := fun hall slot hslot => by
        rw [holdLeaf, hnewLeaf, ← map_append, hhalves.split] at hslot
        obtain ⟨v, hv, rfl⟩ := mem_map.mp hslot
        exact sized_version hall (mem_sortedVersions.mp hv)
      half := fun id => by rw [divisionHalf, hhalves.drop, ← hhalves.take] }
  · have hfillNew := @fillLeaf_spec ⟨median.key, [], emptyFreeSpace⟩ (median :: upper)
      (fun v hv => hversions v (hmemUpper v hv)) (Nat.le_refl _)
      (Nat.le_trans (Nat.le_add_left _ _) hused)
    have hfillOld := @fillLeaf_spec ⟨lo, [], emptyFreeSpace⟩ lower
      (fun v hv => hversions v (hmemLower v hv)) (Nat.le_refl _)
      (Nat.le_trans (Nat.le_add_right _ _) hused)
    have hlen : (descent.leaf.body.slots.filterMap versionOf).length =
        (liveIds descent.leaf.body.slots).length := by
      rw [← map_key_versions, length_map]
    have hlomax : ¬maxTupleId < lo := by
      rw [Nat.not_lt]
      exact Nat.le_trans (Nat.le_of_lt hlo) hmax
    rw [splitLeafAndInsert, liveVersions_eq hok.slots]
    dsimp only
    rw [if_neg (by omega), ← sortedVersions, hhalves.drop]
    dsimp only
    rw [LeafPage.createEmptyAs, if_neg (Nat.not_lt.mpr hmax)]
    dsimp only
    rw [hfillNew]
    dsimp only
    rw [LeafPage.createEmptyAs, hok.minKey, if_neg hlomax]
    dsimp only
    rw [hhalves.take, hfillOld, hnewLeaf, holdLeaf]
    rfl

theorem sized_insertTuple {leaf : LeafPage} {body : HeapPage} {slot : Nat}
    (hins : leaf.body.insertTuple payload trxId noUndoPtr = .ok (body, slot)) :
    ∀ s ∈ body.slots, s ∈ leaf.body.slots ∨ SlotSized payload.length s := by
  intro s hs
  rw [(HeapPage.insertTuple_eq_ok hins).2.2] at hs
  rcases Lib.mem_snoc.mp hs with hs | rfl
  · exact .inl hs
  · exact .inr rfl

theorem versions_insertTuple {leaf : LeafPage} {body : HeapPage} {slot : Nat}
    (hkey : keystoneIdOfPayload payload = .ok id)
    (hins : leaf.body.insertTuple payload trxId noUndoPtr = .ok (body, slot)) :
    body.slots.filterMap versionOf =
      leaf.body.slots.filterMap versionOf ++ [incomingVersion id trxId payload] := by
  have hkeyOf : load keystoneWordSize payload 0 % 2 ^ 40 = id := by
    rw [keystoneIdOfPayload] at hkey
    split_ifs at hkey
    exact Except.ok.inj hkey
  rw [(HeapPage.insertTuple_eq_ok hins).2.2, filterMap_append, incomingVersion, ← hkeyOf]
  rfl

/-- **A division**: both halves are written and linked, and then the tuple goes to the half
    that covers its id, if that half has room for it. -/
theorem splitLeafAndInsert_spec (hland : Landed store bounds root height id descent lo hi)
    (hlt : descent.leafId < store.nextPageId) (hkey : keystoneIdOfPayload payload = .ok id)
    (hnew : id ∉ liveIds descent.leaf.body.slots) (htrx : trxId ≤ maxTrxId)
    (hcount : 2 ≤ (liveIds descent.leaf.body.slots).length) (oldRoot : PageId) (ownerOid : Nat) :
    ∃ sep store₁ oldLeaf newLeaf, lo < sep ∧
      ((DivisionFits descent.leaf.body.slots id payload ∧
        LeafSplit store store₁ descent payload lo hi sep oldLeaf newLeaf
          (id :: liveIds descent.leaf.body.slots) ∧
        LeafDivided descent.leaf oldLeaf newLeaf sep (incomingVersion id trxId payload) ∧
        ∃ out, out.newRoot = none ∧
          out.pageId = (if sep ≤ id then store.nextPageId else descent.leafId) ∧
          splitLeafAndInsert store oldRoot descent id payload trxId ownerOid =
            promoteSeparator store₁ oldRoot ownerOid descent.path.reverse 0 sep store.nextPageId
              out) ∨
      (¬DivisionFits descent.leaf.body.slots id payload ∧
        LeafSplit store store₁ descent payload lo hi sep oldLeaf newLeaf
          (liveIds descent.leaf.body.slots) ∧
        sep ∈ liveIds descent.leaf.body.slots ∧
        ∃ s, splitLeafAndInsert store oldRoot descent id payload trxId ownerOid =
          (store₁, .error s))) := by
  obtain ⟨store₀, sep, lower, upper, oldLeaf, newLeaf, hh, hrun⟩ :=
    @exists_halved store _ _ _ hland.ok hcount payload oldRoot ownerOid
  have hsepIn : lo ≤ sep ∧ sep < hi := ⟨Nat.le_of_lt hh.sepIn.1, hh.sepIn.2⟩
  have hsepHere : sep ∈ liveIds descent.leaf.body.slots :=
    hh.ids.mem_iff.mp (mem_append_right _ hh.sepHere)
  have hnotNew : id ∉ liveIds newLeaf.body.slots :=
    fun hmem => hnew (hh.ids.mem_iff.mp (mem_append_right _ hmem))
  have hnotOld : id ∉ liveIds oldLeaf.body.slots :=
    fun hmem => hnew (hh.ids.mem_iff.mp (mem_append_left _ hmem))
  -- where neither half takes the tuple, the two are written as they stand
  have hkept := leafSplit_of_put hh.next hh.other hlt hh.oldLink hh.newLink hh.oldOk hh.newOk hsepIn
    hh.sepMax hh.ids hh.sized
  have holdFree := hh.oldFree
  have hnewFree := hh.newFree
  have hused := hh.used
  refine ⟨sep, ?_⟩
  rw [hrun, insertIntoHalf]
  dsimp only
  rw [DivisionFits, hh.half]
  by_cases hto : sep ≤ id
  · rw [if_pos hto, decide_eq_true hto, if_pos rfl]
    by_cases hfits : usedBytes (upper.map LeafVersion.slot) + tupleBytes payload ≤ emptyFreeSpace
    · obtain ⟨body, slot, hins⟩ : ∃ body slot,
          newLeaf.body.insertTuple payload trxId noUndoPtr = .ok (body, slot) :=
        ⟨_, _, insertTuple_of_room htrx (by omega) (by
          rw [hnewFree]
          rw [tupleBytes] at hfits
          omega)⟩
      obtain ⟨hok', hlive⟩ := hh.newOk.insertTuple hins hkey hnotNew ⟨hto, hland.keyIn.2⟩
      rw [hins]
      refine ⟨_, oldLeaf, { newLeaf with body := body }, hh.sepIn.1, .inl ⟨hfits,
        leafSplit_of_put hh.next hh.other hlt hh.oldLink hh.newLink hh.oldOk hok' hsepIn hh.sepMax
          ?_ (fun hall s hs => ?_),
        ⟨?_, ⟨hsepHere, ?_⟩, hh.owner, hh.epoch⟩, _, rfl, (if_pos hto).symm, rfl⟩⟩
      · show (liveIds oldLeaf.body.slots ++ liveIds body.slots).Perm _
        rw [hlive, ← append_assoc]
        exact (perm_append_singleton _ _).trans (hh.ids.cons id)
      · rcases mem_append.mp hs with hs | hs
        · exact hh.sized hall s (mem_append_left _ hs)
        · exact (sized_insertTuple hins s hs).elim
            (fun hs => hh.sized hall s (mem_append_right _ hs)) (fun hs => hs)
      · change (oldLeaf.body.slots.filterMap versionOf ++ body.slots.filterMap versionOf).Perm _
        rw [versions_insertTuple hkey hins, hh.oldVersions, hh.newVersions, ← append_assoc]
        exact (perm_append_singleton _ _).trans (hh.versions.cons _)
      · show sep ∈ liveIds body.slots
        rw [hlive]
        exact mem_append_left _ hh.sepHere
    · obtain ⟨s, hins⟩ := @insertTuple_no_room newLeaf.body payload trxId noUndoPtr (by omega)
      rw [hins]
      exact ⟨_, oldLeaf, newLeaf, hh.sepIn.1, .inr ⟨hfits, hkept, hsepHere, s, rfl⟩⟩
  · rw [if_neg hto, decide_eq_false hto, if_neg Bool.false_ne_true]
    by_cases hfits : usedBytes (lower.map LeafVersion.slot) + tupleBytes payload ≤ emptyFreeSpace
    · obtain ⟨body, slot, hins⟩ : ∃ body slot,
          oldLeaf.body.insertTuple payload trxId noUndoPtr = .ok (body, slot) :=
        ⟨_, _, insertTuple_of_room htrx (by omega) (by
          rw [holdFree]
          rw [tupleBytes] at hfits
          omega)⟩
      obtain ⟨hok', hlive⟩ := hh.oldOk.insertTuple hins hkey hnotOld
        ⟨hland.keyIn.1, Nat.not_le.mp hto⟩
      rw [hins]
      refine ⟨_, { oldLeaf with body := body }, newLeaf, hh.sepIn.1, .inl ⟨hfits,
        leafSplit_of_put hh.next hh.other hlt hh.oldLink hh.newLink hok' hh.newOk hsepIn hh.sepMax
          ?_ (fun hall s hs => ?_),
        ⟨?_, ⟨hsepHere, hh.sepHere⟩, hh.owner, hh.epoch⟩, _, rfl, (if_neg hto).symm, rfl⟩⟩
      · show (liveIds body.slots ++ liveIds newLeaf.body.slots).Perm _
        rw [hlive, append_assoc, singleton_append]
        exact perm_middle.trans (hh.ids.cons id)
      · rcases mem_append.mp hs with hs | hs
        · exact (sized_insertTuple hins s hs).elim
            (fun hs => hh.sized hall s (mem_append_left _ hs)) (fun hs => hs)
        · exact hh.sized hall s (mem_append_right _ hs)
      · change (body.slots.filterMap versionOf ++ newLeaf.body.slots.filterMap versionOf).Perm _
        rw [versions_insertTuple hkey hins, hh.oldVersions, hh.newVersions, append_assoc,
          singleton_append]
        exact perm_middle.trans (hh.versions.cons _)
    · obtain ⟨s, hins⟩ := @insertTuple_no_room oldLeaf.body payload trxId noUndoPtr (by omega)
      rw [hins]
      exact ⟨_, oldLeaf, newLeaf, hh.sepIn.1, .inr ⟨hfits, hkept, hsepHere, s, rfl⟩⟩

theorem divisionFits_of_sized (hok : LeafOk leaf lo hi) (id : Nat)
    (hsized : ∀ slot ∈ leaf.body.slots, SlotSized payload.length slot)
    (hcount : 2 ≤ (liveIds leaf.body.slots).length) : DivisionFits leaf.body.slots id payload := by
  obtain ⟨lower, median, upper, hhalves⟩ := exists_halves hok.nodup hcount
  have hbytes : ∀ versions : List LeafVersion,
      (∀ v ∈ versions, v ∈ sortedVersions leaf.body.slots) →
      usedBytes (versions.map LeafVersion.slot) = versions.length * tupleBytes payload := by
    intro versions hmem
    induction versions with
    | nil => rw [length_nil, Nat.zero_mul]; rfl
    | cons v rest ih =>
      have hlen : v.bytes.length = payload.length :=
        sized_version hsized (mem_sortedVersions.mp (hmem v mem_cons_self))
      have hslot : slotBytes v.slot = tupleBytes payload := by
        show slotOnDiskSize + (tupleHeaderOnDiskSize + v.bytes.length) = _
        rw [hlen]
        rfl
      show slotBytes v.slot + usedBytes (rest.map LeafVersion.slot) = _
      rw [ih (fun v hv => hmem v (mem_cons_of_mem _ hv)), hslot, length_cons,
        Nat.succ_mul, Nat.add_comm]
  have hall := hbytes (sortedVersions leaf.body.slots) (fun v hv => hv)
  have htotal : (sortedVersions leaf.body.slots).length * tupleBytes payload ≤ emptyFreeSpace := by
    rw [← hall, usedBytes_sortedVersions]
    have hle := usedBytes_versions_le hok.slots
    have hspace := hok.space
    omega
  have hlen : (sortedVersions leaf.body.slots).length = lower.length + (upper.length + 1) := by
    rw [← hhalves.split, length_append, length_cons]
  -- One more tuple makes the half no longer than the whole leaf was.
  have hone : ∀ versions : List LeafVersion,
      (∀ v ∈ versions, v ∈ sortedVersions leaf.body.slots) →
      versions.length + 1 ≤ (sortedVersions leaf.body.slots).length →
      usedBytes (versions.map LeafVersion.slot) + tupleBytes payload ≤ emptyFreeSpace := by
    intro versions hmem hle
    rw [hbytes versions hmem, ← Nat.succ_mul]
    exact Nat.le_trans (Nat.mul_le_mul_right _ hle) htotal
  rw [DivisionFits, divisionHalf]
  show usedBytes (List.map LeafVersion.slot (match (sortedVersions leaf.body.slots).drop
      ((sortedVersions leaf.body.slots).length / 2) with
    | [] => _
    | median :: upper => _)) + _ ≤ _
  rw [hhalves.drop, ← hhalves.split]
  dsimp only
  have hpos := length_pos_of_ne_nil hhalves.nonempty
  by_cases hto : median.key ≤ id
  · rw [if_pos hto]
    refine hone _ (fun v hv => ?_) (by rw [hlen, length_cons]; omega)
    rw [← hhalves.split]
    exact mem_append_right _ hv
  · rw [if_neg hto, hhalves.split, hhalves.take]
    refine hone _ (fun v hv => ?_) (by omega)
    rw [← hhalves.split]
    exact mem_append_left _ hv

-- A leaf after a full one

theorem insertTuple_outOfSpace (h : page.insertTuple payload trxId undoPtr = .error s)
    (hcode : s.code = .outOfSpace) :
    trxId ≤ maxTrxId ∧ payload.length ≤ pageSize ∧ page.freeSpace < tupleBytes payload := by
  rw [HeapPage.insertTuple] at h
  dsimp only at h
  split_ifs at h with hsize hmax hroom
  · rw [← Except.error.inj h] at hcode
    cases hcode
  · rw [← Except.error.inj h] at hcode
    cases hcode
  · refine ⟨Nat.not_lt.mp hmax, Nat.not_lt.mp hsize, ?_⟩
    rw [tupleBytes]
    omega

theorem appendLeafAndInsert_spec (hland : Landed store bounds root height id descent lo hi)
    (hlt : descent.leafId < store.nextPageId) (hkey : keystoneIdOfPayload payload = .ok id)
    (hmax : id ≤ maxTupleId) (habove : ∀ other ∈ liveIds descent.leaf.body.slots, other < id)
    (oldRoot : PageId) (ownerOid : Nat) :
    (∃ s newLeaf, newLeaf.body.slots = [] ∧
      HeapPage.insertTuple ⟨id, [], emptyFreeSpace⟩ payload trxId noUndoPtr = .error s ∧
      appendLeafAndInsert store oldRoot descent id payload trxId ownerOid =
        (store.createNew.put store.nextPageId (.leaf newLeaf), .error s)) ∨
    (∃ store₁ newLeaf, LeafSplit store store₁ descent payload lo hi id
        { descent.leaf with nextPageId := some store.nextPageId } newLeaf
        (id :: liveIds descent.leaf.body.slots) ∧
      ∃ out, out.newRoot = none ∧
        appendLeafAndInsert store oldRoot descent id payload trxId ownerOid =
          promoteSeparator store₁ oldRoot ownerOid descent.path.reverse 0 id store.nextPageId
            out) := by
  have hok := hland.ok
  rw [appendLeafAndInsert]
  dsimp only
  rw [LeafPage.createEmptyAs, if_neg (Nat.not_lt.mpr hmax)]
  dsimp only
  have hempty : LeafOk ⟨⟨id, [], emptyFreeSpace⟩, descent.leaf.nextPageId, 0, ownerOid⟩ id hi :=
    ⟨rfl, fun other hother => absurd hother not_mem_nil, nodup_nil,
      fun slot hslot => absurd hslot not_mem_nil, Nat.le_refl _⟩
  rcases hins : HeapPage.insertTuple ⟨id, [], emptyFreeSpace⟩ payload trxId noUndoPtr with
    s | ⟨body, slot⟩
  · exact .inl ⟨s, _, rfl, rfl, rfl⟩
  · obtain ⟨hnewOk, hlive⟩ := hempty.insertTuple hins hkey not_mem_nil
      ⟨Nat.le_refl _, hland.keyIn.2⟩
    refine .inr ⟨_, ⟨body, descent.leaf.nextPageId, 0, ownerOid⟩,
      @leafSplit_of_put store store.createNew descent lo hi id payload _ _ _ rfl (fun _ _ => rfl)
        hlt rfl rfl ?_ hnewOk hland.keyIn hmax ?_ (fun hall s hs => ?_), _, rfl, rfl⟩
    · exact ⟨hok.minKey, fun other hother => ⟨(hok.range other hother).1, habove other hother⟩,
        hok.nodup, hok.slots, hok.space⟩
    · show (liveIds descent.leaf.body.slots ++ liveIds body.slots).Perm _
      rw [hlive]
      exact perm_append_singleton _ _
    · rcases mem_append.mp hs with hs | hs
      · exact hall s hs
      · change s ∈ body.slots at hs
        rw [(HeapPage.insertTuple_eq_ok hins).2.2, nil_append] at hs
        rw [mem_singleton.mp hs]
        rfl

-- What an insert does

/-- The leaf has no room for a row that is otherwise in order: the row carries the id, which no
    live slot of the leaf has. -/
structure FullFor (leaf : LeafPage) (id : Nat) (payload : Bytes) (trxId : Nat) : Prop where
  key : keystoneIdOfPayload payload = .ok id
  new : id ∉ liveIds leaf.body.slots
  writer : trxId ≤ maxTrxId
  size : payload.length ≤ pageSize
  room : leaf.body.freeSpace < tupleBytes payload

/-- The insert meets a full leaf that every tuple has left, at the leaf's own low key. -/
def Reopens (leaf : LeafPage) (id : Nat) (payload : Bytes) (trxId : Nat) : Prop :=
  FullFor leaf id payload trxId ∧ leaf.body.minKey = id ∧ liveIds leaf.body.slots = []

/-- The insert divides a full leaf, and the half that covers its id has no room for it. -/
def Tears (leaf : LeafPage) (id : Nat) (payload : Bytes) (trxId : Nat) : Prop :=
  FullFor leaf id payload trxId ∧ (∃ other ∈ liveIds leaf.body.slots, id < other) ∧
    2 ≤ (liveIds leaf.body.slots).length ∧ ¬DivisionFits leaf.body.slots id payload

theorem TreeShape.growing (h : TreeShape store bounds root height) {oldLeaf newLeaf : LeafPage}
    (hland : Landed store bounds root height key descent lo hi)
    (hsplit : LeafSplit store store' descent payload lo hi sep oldLeaf newLeaf ids) :
    Growing store' bounds root height 0 descent.leafId store.nextPageId lo sep hi key := by
  have hfresh : bounds store.nextPageId = none := by
    by_contra hsome
    obtain ⟨bd, hbd⟩ := Option.ne_none_iff_exists'.mp hsome
    exact Nat.lt_irrefl _ (h.below _ _ hbd)
  have hpages : ∀ id bd, bounds id = some bd → id ≠ descent.leafId →
      store'.pages id = store.pages id :=
    fun id bd hid hne => hsplit.other id hne (Nat.ne_of_lt (h.below id bd hid))
  refine ⟨h.root, hland.leafBounds, hfresh, fun id bd hid => ?_, ?_, h.levels, h.apart,
    hland.keyIn, hsplit.sepIn, hsplit.sepMax, fun id bd hid hlevel => ?_, fun id bd hid hlevel =>
      ?_⟩
  · rw [hsplit.next]
    exact Nat.lt_succ_of_lt (h.below id bd hid)
  · rw [hsplit.next]
    exact Nat.lt_succ_self _
  · refine (h.pages id bd hid).frame (hpages id bd hid ?_) (fun _ _ _ _ _ _ hc => hc)
    rintro rfl
    rw [hland.leafBounds] at hid
    cases hid
    exact absurd hlevel (Nat.lt_irrefl _)
  · rcases cut_eq_some hid with ⟨rfl, rfl⟩ | ⟨rfl, -, rfl⟩ | ⟨hne, -, hid'⟩
    · exact .leaf newLeaf hsplit.newPage rfl hsplit.newOk
    · exact .leaf oldLeaf hsplit.oldPage rfl hsplit.oldOk
    · obtain ⟨leaf, hpage, hok⟩ := (h.pages id bd hid').leaf_of_level_zero (Nat.le_zero.mp hlevel)
      exact .leaf leaf ((hpages id bd hid' hne).trans hpage) (Nat.le_zero.mp hlevel) hok

/-- What one insert leaves behind, and answers. -/
inductive InsertOutcome (store : TreeStore) (bounds : PageId → Option Bounds) (root : PageId)
    (height id : Nat) (payload : Bytes) (trxId : Nat) :
    TreeStore → StatusOr InsertPlacement → Prop where
  /-- Nothing changed. -/
  | refused (s : Status) :
      InsertOutcome store bounds root height id payload trxId store (.error s)
  /-- A page was allocated that nothing reaches, and that holds nothing. -/
  | wasted (s : Status) (newLeaf : LeafPage) (empty : newLeaf.body.slots = []) :
      InsertOutcome store bounds root height id payload trxId
        (store.createNew.put store.nextPageId (.leaf newLeaf)) (.error s)
  /-- The common case: no structural change. -/
  | placed (descent : Descent) (lo hi : Nat) (body : HeapPage) (slot : Nat)
      (landed : Landed store bounds root height id descent lo hi)
      (inserted : descent.leaf.body.insertTuple payload trxId noUndoPtr = .ok (body, slot))
      (ok : LeafOk { descent.leaf with body := body } lo hi)
      (ids : liveIds body.slots = liveIds descent.leaf.body.slots ++ [id]) :
      InsertOutcome store bounds root height id payload trxId
        (store.put descent.leafId (.leaf { descent.leaf with body := body }))
        (.ok { pageId := descent.leafId, slot := slot })
  /-- The leaf split, and the tree is in shape. -/
  | grown (descent : Descent) (lo hi sep : Nat) (store₁ : TreeStore) (oldLeaf newLeaf : LeafPage)
      (store' : TreeStore) (out : InsertPlacement) (bounds' : PageId → Option Bounds)
      (height' : Nat) (landed : Landed store bounds root height id descent lo hi)
      (split : LeafSplit store store₁ descent payload lo hi sep oldLeaf newLeaf
        (id :: liveIds descent.leaf.body.slots))
      (strict : lo < sep ∨ Reopens descent.leaf id payload trxId)
      (shape : TreeShape store' bounds' (out.newRoot.getD root) height')
      (leaves : ∀ page u v, bounds' page = some ⟨0, u, v⟩ ↔
        cut bounds descent.leafId store.nextPageId 0 lo sep hi page = some ⟨0, u, v⟩)
      (same : SameLeaves store₁ store') (allocated : Allocated store')
      (next : store₁.nextPageId ≤ store'.nextPageId) :
      InsertOutcome store bounds root height id payload trxId store' (.ok out)
  /-- The new leaf was linked, and the leaf's parent refused its separator. -/
  | stranded (s : Status) (descent : Descent) (lo hi : Nat) (store₁ : TreeStore)
      (newLeaf : LeafPage) (landed : Landed store bounds root height id descent lo hi)
      (split : LeafSplit store store₁ descent payload lo hi id
        { descent.leaf with nextPageId := some store.nextPageId } newLeaf
        (id :: liveIds descent.leaf.body.slots))
      (reopens : Reopens descent.leaf id payload trxId) :
      InsertOutcome store bounds root height id payload trxId store₁ (.error s)
  /-- The leaf divided, and the half that covers the id had no room for the tuple. -/
  | torn (s : Status) (descent : Descent) (lo hi sep : Nat) (store₁ : TreeStore)
      (oldLeaf newLeaf : LeafPage) (landed : Landed store bounds root height id descent lo hi)
      (split : LeafSplit store store₁ descent payload lo hi sep oldLeaf newLeaf
        (liveIds descent.leaf.body.slots))
      (tears : Tears descent.leaf id payload trxId) :
      InsertOutcome store bounds root height id payload trxId store₁ (.error s)

theorem promoteSeparator_dup {level : Nat} {old child : PageId} {a b : Nat} {path : List PageId}
    (h : Growing store bounds root height level old child a sep b key)
    (hpath : Ascent store bounds root height key level old path) (hdup : ¬SepFree store sep path)
    (ownerOid : Nat) (out : InsertPlacement) :
    ∃ s, promoteSeparator store root ownerOid path level sep child out = (store, .error s) ∧
      s.code = .alreadyExists := by
  rcases path with _ | ⟨parent, rest⟩
  · exact absurd trivial hdup
  · obtain ⟨⟨node, lo, hi, hpage, hparent, hkey, hroute⟩, -⟩ := hpath
    have hok := (h.upper parent _ hparent (Nat.lt_succ_self level)).node_of_page hpage
    obtain ⟨hcheap, hsep⟩ : (node.isFull = true → node.separatorAboveEveryEntry sep = false) ∧
        ∃ e ∈ node.entries, e.1 = sep := by
      by_contra hfree
      refine hdup (fun node' hpage' hcheap e he heq => hfree ?_)
      rw [hpage] at hpage'
      cases hpage'
      exact ⟨hcheap, e, he, heq⟩
    rw [promoteSeparator, TreeStore.get, hpage]
    dsimp only
    by_cases hfull : node.isFull = true
    · have hhead : (node.entries.dropWhile (fun e => decide (e.1 < sep))).head?.map Prod.fst =
          some sep := head_dropWhile_of_mem hok.sorted hsep
      rw [if_neg (not_not.mpr hfull), if_neg (by rw [hcheap hfull]; exact Bool.false_ne_true),
        divideInternalNode]
      dsimp only
      rw [if_pos hhead]
      exact ⟨_, rfl, rfl⟩
    · have hroom : node.entryCount < internalMaxEntries :=
        Nat.not_le.mp (of_decide_eq_false (Bool.eq_false_iff.mpr hfull))
      obtain ⟨s, hs, hcode⟩ := InternalPage.insertEntry_of_dup hok.sorted child h.sepMax hroom hsep
      rw [if_pos hfull, hs]
      exact ⟨s, rfl, hcode⟩

theorem LeafSplit.allocated {oldLeaf newLeaf : LeafPage}
    (hsplit : LeafSplit store store₁ descent payload lo hi sep oldLeaf newLeaf ids)
    (halloc : Allocated store) (hlt : descent.leafId < store.nextPageId) : Allocated store₁ := by
  intro id hid
  rw [hsplit.next] at hid
  rw [hsplit.other id (Nat.ne_of_gt (Nat.lt_of_lt_of_le (Nat.lt_succ_of_lt hlt) hid))
    (Nat.ne_of_gt (Nat.lt_of_succ_le hid))]
  exact halloc id (Nat.le_of_succ_le hid)

theorem Landed.ascent_split (h : TreeShape store bounds root height) {oldLeaf newLeaf : LeafPage}
    (hland : Landed store bounds root height key descent lo hi)
    (hsplit : LeafSplit store store₁ descent payload lo hi sep oldLeaf newLeaf ids) :
    Ascent store₁ bounds root height key 0 descent.leafId descent.path.reverse := by
  refine hland.ascent.frame (fun id bd hid hlevel => ⟨hsplit.other id ?_ ?_, hid⟩)
  · rintro rfl
    rw [hland.leafBounds] at hid
    cases hid
    exact absurd hlevel (Nat.lt_irrefl _)
  · exact Nat.ne_of_lt (h.below id bd hid)

theorem grown_of_split (h : TreeShape store bounds root height) (halloc : Allocated store)
    {store₁ : TreeStore} {descent : Descent} {payload : Bytes} {id lo hi sep trxId : Nat}
    {oldLeaf newLeaf : LeafPage} (hland : Landed store bounds root height id descent lo hi)
    (hsplit : LeafSplit store store₁ descent payload lo hi sep oldLeaf newLeaf
      (id :: liveIds descent.leaf.body.slots))
    (hstrict : lo < sep ∨ Reopens descent.leaf id payload trxId)
    (hfree : SepFree store₁ sep descent.path.reverse) (ownerOid : Nat) {out : InsertPlacement}
    (hout : out.newRoot = none) :
    InsertOutcome store bounds root height id payload trxId
      (promoteSeparator store₁ root ownerOid descent.path.reverse 0 sep store.nextPageId out).1
      (promoteSeparator store₁ root ownerOid descent.path.reverse 0 sep store.nextPageId
        out).2 := by
  obtain ⟨store', out', bounds', height', heq, hshape, hleaves, hsame, halloc', hnext, -, -⟩ :=
    promoteSeparator_ok (h.growing hland hsplit) (hland.ascent_split h hsplit) hfree
      (hsplit.allocated halloc (h.below _ _ hland.leafBounds)) ownerOid out hout
  rw [heq]
  exact .grown descent lo hi sep store₁ oldLeaf newLeaf store' out' bounds' height' hland hsplit
    hstrict hshape hleaves hsame halloc' hnext

/-- Where an insert goes. -/
inductive InsertPath (store : TreeStore) (bounds : PageId → Option Bounds) (root : PageId)
    (height id : Nat) (payload : Bytes) (trxId ownerOid : Nat) :
    TreeStore × StatusOr InsertPlacement → Prop where
  | refused (s : Status)
      (dup : s.code = .alreadyExists → ∃ descent lo hi,
        Landed store bounds root height id descent lo hi ∧
          id ∈ liveIds descent.leaf.body.slots) :
      InsertPath store bounds root height id payload trxId ownerOid (store, .error s)
  | placed (descent : Descent) (lo hi : Nat) (body : HeapPage) (slot : Nat)
      (landed : Landed store bounds root height id descent lo hi)
      (key : keystoneIdOfPayload payload = .ok id) (new : id ∉ liveIds descent.leaf.body.slots)
      (inserted : descent.leaf.body.insertTuple payload trxId noUndoPtr = .ok (body, slot)) :
      InsertPath store bounds root height id payload trxId ownerOid
        (store.put descent.leafId (.leaf { descent.leaf with body := body }),
          .ok { pageId := descent.leafId, slot := slot })
  | divides (descent : Descent) (lo hi : Nat)
      (landed : Landed store bounds root height id descent lo hi)
      (full : FullFor descent.leaf id payload trxId)
      (inside : ∃ other ∈ liveIds descent.leaf.body.slots, id < other) :
      InsertPath store bounds root height id payload trxId ownerOid
        (splitLeafAndInsert store root descent id payload trxId ownerOid)
  | appends (descent : Descent) (lo hi : Nat)
      (landed : Landed store bounds root height id descent lo hi)
      (full : FullFor descent.leaf id payload trxId)
      (above : ∀ other ∈ liveIds descent.leaf.body.slots, other < id) :
      InsertPath store bounds root height id payload trxId ownerOid
        (appendLeafAndInsert store root descent id payload trxId ownerOid)

theorem insertTuple_error_code (h : page.insertTuple payload trxId undoPtr = .error s) :
    s.code ≠ .alreadyExists := by
  rw [HeapPage.insertTuple] at h
  dsimp only at h
  split_ifs at h
  all_goals
    rw [← Except.error.inj h]
    decide

theorem btreeInsert_full (hland : Landed store bounds root height id descent lo hi)
    (hfull : FullFor descent.leaf id payload trxId) (ownerOid : Nat) :
    ((∃ other ∈ liveIds descent.leaf.body.slots, id < other) ∧
      btreeInsert store root id payload trxId ownerOid =
        splitLeafAndInsert store root descent id payload trxId ownerOid) ∨
    ((∀ other ∈ liveIds descent.leaf.body.slots, other < id) ∧
      btreeInsert store root id payload trxId ownerOid =
        appendLeafAndInsert store root descent id payload trxId ownerOid) := by
  have hok := hland.ok
  have hins : ∃ s, s.code = .outOfSpace ∧
      descent.leaf.body.insertTuple payload trxId noUndoPtr = .error s := by
    have hroom := hfull.room
    rw [tupleBytes] at hroom
    rw [HeapPage.insertTuple, if_neg (Nat.not_lt.mpr hfull.size),
      if_neg (Nat.not_lt.mpr hfull.writer)]
    dsimp only
    rw [if_pos (by omega)]
    exact ⟨_, rfl, rfl⟩
  obtain ⟨s, hcode, hins⟩ := hins
  obtain ⟨maxId, hmax, -, hle, hmem⟩ := maxLiveIdFrom_spec hok.slots 0
  have hrun : btreeInsert store root id payload trxId ownerOid =
      if id < maxId then splitLeafAndInsert store root descent id payload trxId ownerOid
      else appendLeafAndInsert store root descent id payload trxId ownerOid := by
    rw [btreeInsert, hfull.key]
    dsimp only
    rw [if_neg (not_not.mpr rfl), hland.descends]
    dsimp only
    rw [if_neg (by rw [hok.minKey]; exact Nat.not_lt.mpr hland.keyIn.1),
      (checkDuplicate_ok_iff hok.slots descent.leafId id 0).mpr hfull.new]
    dsimp only
    rw [hins]
    dsimp only
    rw [if_neg (not_not.mpr hcode), maxLiveId, hmax]
  by_cases hinside : id < maxId
  · left
    refine ⟨?_, hrun.trans (if_pos hinside)⟩
    rcases hmem with hzero | hmem
    · omega
    · exact ⟨maxId, hmem, hinside⟩
  · right
    refine ⟨fun other hother => ?_, hrun.trans (if_neg hinside)⟩
    have hother' := hle other hother
    have hne : other ≠ id := fun heq => hfull.new (heq ▸ hother)
    omega

theorem keystoneId_lt (h : keystoneIdOfPayload payload = .ok id) :
    id < idSpace := by
  rw [keystoneIdOfPayload] at h
  split_ifs at h
  cases h
  exact Nat.mod_lt _ (by decide)

theorem btreeInsert_path (h : TreeShape store bounds root height) (id : Nat) (payload : Bytes)
    (trxId ownerOid : Nat) :
    InsertPath store bounds root height id payload trxId ownerOid
      (btreeInsert store root id payload trxId ownerOid) := by
  rcases hkey : keystoneIdOfPayload payload with s | encodedId
  · rw [btreeInsert, hkey]
    refine .refused s fun hcode => ?_
    rw [keystoneIdOfPayload] at hkey
    split_ifs at hkey
    rw [← Except.error.inj hkey] at hcode
    cases hcode
  by_cases hid : encodedId = id
  swap
  · rw [btreeInsert, hkey]
    dsimp only
    rw [if_pos hid]
    exact .refused _ fun hcode => by cases hcode
  subst hid
  have hlt := keystoneId_lt hkey
  by_cases hheight : height < maxBtreeDepth
  swap
  · obtain ⟨e, hdescend, hcode⟩ := h.too_deep (Nat.not_lt.mp hheight) hlt
    rw [btreeInsert, hkey]
    dsimp only
    rw [if_neg (not_not.mpr rfl), hdescend]
    refine .refused e fun hdup => ?_
    rw [hcode] at hdup
    cases hdup
  obtain ⟨descent, lo, hi, hdescend, hland⟩ := h.landed hheight hlt
  have hok := hland.ok
  have hcheck := checkDuplicate_ok_iff hok.slots descent.leafId encodedId 0
  have hmin : ¬encodedId < descent.leaf.body.minKey := by
    rw [hok.minKey]
    exact Nat.not_lt.mpr hland.keyIn.1
  obtain ⟨out, hrun⟩ : ∃ out, btreeInsert store root encodedId payload trxId ownerOid = out :=
    ⟨_, rfl⟩
  have hout := hrun
  rw [btreeInsert, hkey] at hout
  dsimp only at hout
  rw [if_neg (not_not.mpr rfl), hland.descends] at hout
  dsimp only at hout
  rw [if_neg hmin] at hout
  rw [hrun]
  rcases hdup : checkDuplicate descent.leafId encodedId descent.leaf.body.slots 0 with s | ⟨⟩
  · rw [hdup] at hout
    subst hout
    refine .refused s fun _ => ⟨descent, lo, hi, hland, ?_⟩
    by_contra hnew
    rw [hcheck.mpr hnew] at hdup
    cases hdup
  have hnew := hcheck.mp hdup
  rcases hins : descent.leaf.body.insertTuple payload trxId noUndoPtr with s | ⟨body, slot⟩
  swap
  · rw [hdup, hins] at hout
    subst hout
    exact .placed descent lo hi body slot hland hkey hnew hins
  by_cases hcode : s.code = .outOfSpace
  swap
  · rw [hdup, hins] at hout
    dsimp only at hout
    rw [if_pos hcode] at hout
    subst hout
    exact .refused s fun hexists => absurd hexists (insertTuple_error_code hins)
  obtain ⟨htrx, hsize, hroom⟩ := insertTuple_outOfSpace hins hcode
  have hfull : FullFor descent.leaf encodedId payload trxId := ⟨hkey, hnew, htrx, hsize, hroom⟩
  rcases btreeInsert_full hland hfull ownerOid with ⟨hinside, heq⟩ | ⟨habove, heq⟩
  · rw [← hrun, heq]
    exact .divides descent lo hi hland hfull hinside
  · rw [← hrun, heq]
    exact .appends descent lo hi hland hfull habove

theorem splitLeafAndInsert_few (store : TreeStore) (hok : LeafOk descent.leaf lo hi)
    (hcount : ¬2 ≤ (liveIds descent.leaf.body.slots).length) (oldRoot : PageId) (id : Nat)
    (payload : Bytes) (trxId ownerOid : Nat) :
    ∃ s, splitLeafAndInsert store oldRoot descent id payload trxId ownerOid = (store, .error s) ∧
      s.code = .outOfSpace := by
  have hversions : (descent.leaf.body.slots.filterMap versionOf).length < 2 := by
    have hlen := congrArg List.length (map_key_versions descent.leaf.body.slots)
    rw [length_map] at hlen
    omega
  rw [splitLeafAndInsert, liveVersions_eq hok.slots]
  dsimp only
  rw [if_pos hversions]
  exact ⟨_, rfl, rfl⟩

theorem reopens_of_above (hland : Landed store bounds root height id descent lo hi)
    (hfull : FullFor descent.leaf id payload trxId)
    (habove : ∀ other ∈ liveIds descent.leaf.body.slots, other < id) (hlo : ¬lo < id) :
    Reopens descent.leaf id payload trxId := by
  have hok := hland.ok
  refine ⟨hfull, ?_, eq_nil_iff_forall_not_mem.mpr (fun other hother => ?_)⟩
  · rw [hok.minKey]
    exact Nat.le_antisymm hland.keyIn.1 (Nat.not_lt.mp hlo)
  · have hlow := (hok.range other hother).1
    have habove' := habove other hother
    omega

theorem btreeInsert_outcome (h : TreeShape store bounds root height) (halloc : Allocated store)
    (id : Nat) (payload : Bytes) (trxId ownerOid : Nat) :
    InsertOutcome store bounds root height id payload trxId
      (btreeInsert store root id payload trxId ownerOid).1
      (btreeInsert store root id payload trxId ownerOid).2 := by
  have hpath := btreeInsert_path h id payload trxId ownerOid
  obtain ⟨r, hr⟩ : ∃ r, btreeInsert store root id payload trxId ownerOid = r := ⟨_, rfl⟩
  rw [hr] at hpath ⊢
  cases hpath with
  | refused s => exact .refused s
  | placed descent lo hi body slot hland hkey hnew hins =>
    obtain ⟨hok', hlive⟩ := hland.ok.insertTuple hins hkey hnew hland.keyIn
    exact .placed descent lo hi body slot hland hins hok' hlive
  | divides descent lo hi hland hfull hinside =>
    have hleafLt := h.below descent.leafId _ hland.leafBounds
    by_cases hcount : 2 ≤ (liveIds descent.leaf.body.slots).length
    · obtain ⟨sep, store₁, oldLeaf, newLeaf, hlo, hcase⟩ := splitLeafAndInsert_spec hland hleafLt
        hfull.key hfull.new hfull.writer hcount root ownerOid
      rcases hcase with ⟨-, hsplit, -, out, hout, -, hrun⟩ | ⟨hfits, hsplit, -, s', hrun⟩
      · rw [hrun]
        exact grown_of_split h halloc hland hsplit (.inl hlo)
          ((h.growing hland hsplit).sepFree (hland.ascent_split h hsplit) hlo) ownerOid hout
      · rw [hrun]
        exact .torn s' descent lo hi sep store₁ oldLeaf newLeaf hland hsplit
          ⟨hfull, hinside, hcount, hfits⟩
    · obtain ⟨s, hrun, -⟩ := splitLeafAndInsert_few store hland.ok hcount root id
        payload trxId ownerOid
      rw [hrun]
      exact .refused s
  | appends descent lo hi hland hfull habove =>
    have hleafLt := h.below descent.leafId _ hland.leafBounds
    have hmaxId : id ≤ maxTupleId := Nat.le_sub_one_of_lt (keystoneId_lt hfull.key)
    rcases appendLeafAndInsert_spec hland hleafLt hfull.key hmaxId habove root ownerOid with
      ⟨s', newLeaf, hempty, -, hrun⟩ | ⟨store₁, newLeaf, hsplit, out, hout, hrun⟩
    · rw [hrun]
      exact .wasted s' newLeaf hempty
    · have hreopens := reopens_of_above hland hfull habove
      rw [hrun]
      by_cases hfree : SepFree store₁ id descent.path.reverse
      · refine grown_of_split h halloc hland hsplit ?_ hfree ownerOid hout
        by_cases hlo : lo < id
        · exact .inl hlo
        · exact .inr (hreopens hlo)
      · have hgrow := h.growing hland hsplit
        have hascent := hland.ascent_split h hsplit
        obtain ⟨s', hs', -⟩ := promoteSeparator_dup hgrow hascent hfree ownerOid out
        rw [hs']
        exact .stranded s' descent lo hi store₁ newLeaf hland hsplit
          (hreopens (fun hlo => hfree (hgrow.sepFree hascent hlo)))

end Kds.Storage.Btree
