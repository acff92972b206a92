/-
  Kds.Storage.BtreeDivision

  What a leaf division keeps: every version of the leaf with its writer, its undo pointer and its
  delete mark, in the old leaf or in the new one, and the incoming version in the half a fresh
  descent reaches.
-/

import Kds.Storage.BtreeRuns

namespace Kds.Storage.Btree

open Lib

variable {store : TreeStore} {bounds : PageId → Option Bounds} {root : PageId} {height : Nat}

theorem cut_half {old child : PageId} {lo sep hi id : Nat} (hne : old ≠ child)
    (hid : lo ≤ id ∧ id < hi) :
    ∃ u v, cut bounds old child 0 lo sep hi (if sep ≤ id then child else old) = some ⟨0, u, v⟩ ∧
      u ≤ id ∧ id < v := by
  by_cases hto : sep ≤ id
  · rw [if_pos hto]
    exact ⟨sep, hi, cut_child, hto, hid.2⟩
  · rw [if_neg hto]
    exact ⟨lo, sep, cut_old hne, hid.1, Nat.not_le.mp hto⟩

/-- **A division keeps every version.**  In a tree in shape, dividing a leaf of payloads of the
    incoming one's size, at least two of them live, leaves every live version and the incoming one
    in the old leaf and a new one, whatever the order of the slots and whichever are retired or
    marked.  The new leaf opens with its smallest key, which moved there; the old one keeps its low
    key and its owner and moves its epoch on; both are within their pages; and a descent for the
    id, unless the tree is too deep for any, ends in the half that took it. -/
theorem splitLeafAndInsert_keeps (h : TreeShape store bounds root height)
    (halloc : Allocated store) {descent : Descent} {id trxId : Nat} {payload : Bytes}
    (hdescend : descendTo store root id = .ok descent)
    (hkey : keystoneIdOfPayload payload = .ok id) (hnew : id ∉ liveIds descent.leaf.body.slots)
    (htrx : trxId ≤ maxTrxId)
    (hsized : ∀ slot ∈ descent.leaf.body.slots, SlotSized payload.length slot)
    (hcount : 2 ≤ (liveIds descent.leaf.body.slots).length) (ownerOid : Nat) :
    ∃ store' out oldLeaf newLeaf,
      splitLeafAndInsert store root descent id payload trxId ownerOid = (store', .ok out) ∧
      store.pages store.nextPageId = none ∧
      store'.pages descent.leafId = some (.leaf oldLeaf) ∧
      store'.pages store.nextPageId = some (.leaf newLeaf) ∧
      (oldLeaf.body.slots.filterMap versionOf ++ newLeaf.body.slots.filterMap versionOf).Perm
        (incomingVersion id trxId payload :: descent.leaf.body.slots.filterMap versionOf) ∧
      newLeaf.body.minKey ∈ liveIds descent.leaf.body.slots ∧
      newLeaf.body.minKey ∈ liveIds newLeaf.body.slots ∧
      (∀ key ∈ liveIds newLeaf.body.slots, newLeaf.body.minKey ≤ key) ∧
      oldLeaf.body.minKey = descent.leaf.body.minKey ∧
      oldLeaf.ownerOid = descent.leaf.ownerOid ∧
      descent.leaf.relayoutEpoch < oldLeaf.relayoutEpoch ∧
      oldLeaf.nextPageId = some store.nextPageId ∧
      newLeaf.nextPageId = descent.leaf.nextPageId ∧
      usedBytes oldLeaf.body.slots ≤ emptyFreeSpace ∧
      usedBytes newLeaf.body.slots ≤ emptyFreeSpace ∧
      out.pageId = (if newLeaf.body.minKey ≤ id then store.nextPageId else descent.leafId) ∧
      ∃ bounds' height', TreeShape store' bounds' (out.newRoot.getD root) height' ∧
        (height' < maxBtreeDepth → ∃ fresh,
          descendTo store' (out.newRoot.getD root) id = .ok fresh ∧ fresh.leafId = out.pageId) := by
  have hid : id < idSpace := by
    rw [keystoneIdOfPayload] at hkey
    split_ifs at hkey
    cases hkey
    exact Nat.mod_lt _ (by decide)
  obtain ⟨-, lo, hi, hland⟩ := h.landed_of_descend hid hdescend
  have hlt := h.below _ _ hland.leafBounds
  obtain ⟨sep, store₁, oldLeaf, newLeaf, hlo, hcase⟩ :=
    splitLeafAndInsert_spec hland hlt hkey hnew htrx hcount root ownerOid
  rcases hcase with ⟨-, hsplit, hdivided, out, hout, hplace, hrun⟩ | ⟨hfits, -, -⟩
  swap
  · exact absurd (divisionFits_of_sized hland.ok id hsized hcount) hfits
  have hgrow := h.growing hland hsplit
  have hascent := hland.ascent_split h hsplit
  obtain ⟨store', out', bounds', height', hpromote, hshape, hleaves, hsame, -, -, hpage, -⟩ :=
    promoteSeparator_ok hgrow hascent (hgrow.sepFree hascent hlo) (hsplit.allocated halloc hlt)
      ownerOid out hout
  have hkeyNew : newLeaf.body.minKey = sep := hsplit.newOk.minKey
  refine ⟨store', out', oldLeaf, newLeaf, hrun.trans hpromote,
    halloc _ (Nat.le_refl _), (hsame _ _).mpr hsplit.oldPage, (hsame _ _).mpr hsplit.newPage,
    hdivided.versions, ?_, ?_, fun key hmem => ?_, ?_, hdivided.owner, ?_, hsplit.oldLink,
    hsplit.newLink, ?_, ?_, ?_, bounds', height', hshape, fun hdepth => ?_⟩
  · rw [hkeyNew]
    exact hdivided.moved.1
  · rw [hkeyNew]
    exact hdivided.moved.2
  · rw [hkeyNew]
    exact (hsplit.newOk.range key hmem).1
  · rw [hsplit.oldOk.minKey, hland.ok.minKey]
  · rw [hdivided.epoch]
    exact Nat.lt_succ_self _
  · exact Nat.le_trans (Nat.le_add_left _ _) hsplit.oldOk.space
  · exact Nat.le_trans (Nat.le_add_left _ _) hsplit.newOk.space
  · rw [hkeyNew, hpage, hplace]
  · obtain ⟨fresh, lo', hi', hfresh, hland'⟩ := hshape.landed hdepth hid
    obtain ⟨u, v, hcut, hin⟩ := @cut_half bounds _ _ _ _ _ _ hgrow.old_ne_child hland.keyIn
    refine ⟨fresh, hfresh, ?_⟩
    rw [hpage, hplace]
    exact hland'.leafId_eq hshape ((hleaves _ _ _).mpr hcut) hin

/-- A payload of 2000 bytes: four of them fill a leaf. -/
def quarterRow (id : UInt8) : Bytes := id :: List.replicate 1999 0

theorem length_quarterRow (id : UInt8) : (quarterRow id).length = 2000 := by
  rw [quarterRow, List.length_cons, List.length_replicate]

/-- A full leaf with a retired slot and a marked one, and an id inside it. -/
theorem splitLeafAndInsert_keeps_full : ∃ (s : BtreeState) (descent : Descent),
    descendTo s.store s.root 2 = .ok descent ∧
      descent.leaf.body.freeSpace < tupleBytes (quarterRow 2) ∧
      ∃ store' out oldLeaf newLeaf,
        splitLeafAndInsert s.store s.root descent 2 (quarterRow 2) 9 1 = (store', .ok out) ∧
        store'.pages descent.leafId = some (.leaf oldLeaf) ∧
        store'.pages s.store.nextPageId = some (.leaf newLeaf) ∧
        (oldLeaf.body.slots.filterMap versionOf ++ newLeaf.body.slots.filterMap versionOf).Perm
          (incomingVersion 2 9 (quarterRow 2) :: descent.leaf.body.slots.filterMap versionOf) := by
  let acts : List BtreeAction := [.insert 0 (quarterRow 0) 1 1, .insert 8 (quarterRow 8) 2 1,
    .insert 4 (quarterRow 4) 3 1, .insert 6 (quarterRow 6) 4 1, .retireSlot 1000 3,
      .deleteMark 1000 2 5]
  let meets : BtreeState → Bool := fun s =>
    match descendTo s.store s.root 2 with
    | .ok descent => decide (2 ∉ liveIds descent.leaf.body.slots ∧
        2 ≤ (liveIds descent.leaf.body.slots).length ∧
        descent.leaf.body.freeSpace < tupleBytes (quarterRow 2))
    | .error _ => false
  have hdone : (runList BtreeState.step acts (.format 1000 1)).any meets = true := by
    decide +kernel
  obtain ⟨s, hs, hmeets⟩ := Option.any_eq_true _ _ |>.mp hdone
  have hok : ∀ a ∈ acts, ∀ s, SizedAction 2000 s a := by
    intro a ha s
    simp only [acts, List.mem_cons, List.not_mem_nil, or_false] at ha
    rcases ha with rfl | rfl | rfl | rfl | rfl | rfl
    · exact ⟨trivial, length_quarterRow 0⟩
    · exact ⟨trivial, length_quarterRow 8⟩
    · exact ⟨trivial, length_quarterRow 4⟩
    · exact ⟨trivial, length_quarterRow 6⟩
    · exact ⟨trivial, trivial⟩
    · exact ⟨trivial, trivial⟩
  obtain ⟨bounds, height, hinv, hall⟩ := reach_inv (reach_of_runList hok hs)
  rcases hdescend : descendTo s.store s.root 2 with e | descent
  · simp only [meets, hdescend] at hmeets
    cases hmeets
  simp only [meets, hdescend, decide_eq_true_eq] at hmeets
  obtain ⟨hnew, hcount, hfull⟩ := hmeets
  obtain ⟨-, lo, hi, hland⟩ := hinv.shape.landed_of_descend (by decide : 2 < idSpace) hdescend
  have hkey : keystoneIdOfPayload (quarterRow 2) = .ok 2 := by decide +kernel
  obtain ⟨store', out, oldLeaf, newLeaf, hrun, -, hold, hnewPage, hversions, -⟩ :=
    splitLeafAndInsert_keeps hinv.shape hinv.alloc hdescend hkey hnew (by decide : 9 ≤ maxTrxId)
      (by
        rw [length_quarterRow]
        exact hall _ _ hland.page) hcount 1
  exact ⟨s, descent, hdescend, hfull, store', out, oldLeaf, newLeaf, hrun, hold, hnewPage,
    hversions⟩

end Kds.Storage.Btree
