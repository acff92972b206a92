/-
  Kds.Storage.BtreeAtomic

  What an insert that fails leaves behind.  A scan and every lookup see what they saw, unless the
  insert is one of two that change the tree before they fail: one that reopens an emptied leaf
  whose low key its parent has as a separator already, and one that divides a leaf and finds no
  room in the half that covers the id (`insertAtomic_iff`).
-/

import Kds.Storage.BtreeRuns

namespace Kds.Storage.Btree

open Lib

-- What is promised

/-- A scan's visitor: the id and the version of every live tuple. -/
def collectVersions : Visitor (List (Nat × HeapTuple)) := fun gathered _ body slot =>
  match body.tupleAt slot with
  | none => .ok (gathered, .continue_)
  | some tuple =>
    match keystoneIdOfPayload tuple.payload with
    | .error e => .error e
    | .ok id => .ok (gathered ++ [(id, tuple)], .continue_)

/-- The version a lookup finds. -/
def versionAt (store : TreeStore) (root : PageId) (id : Nat) : Option HeapTuple :=
  match btreeLookup store root id with
  | .error _ => none
  | .ok loc =>
    match store.pages loc.pageId with
    | some (.leaf leaf) => leaf.body.tupleAt loc.slot
    | _ => none

/-- A scan and every lookup see the same. -/
def SameContents (store store' : TreeStore) (root : PageId) : Prop :=
  btreeVisit collectVersions store' root [] = btreeVisit collectVersions store root [] ∧
    ∀ id, versionAt store' root id = versionAt store root id

/-- The insert succeeds, or changes nothing that is seen and names a duplicate only where a live
    slot has the id. -/
def InsertAtomic (store : TreeStore) (root : PageId) (id : Nat) (payload : Bytes)
    (trxId ownerOid : Nat) : Prop :=
  (∃ out, (btreeInsert store root id payload trxId ownerOid).2 = .ok out) ∨
    ∃ e, (btreeInsert store root id payload trxId ownerOid).2 = .error e ∧
      SameContents store (btreeInsert store root id payload trxId ownerOid).1 root ∧
      (e.code = .alreadyExists → ∃ loc, btreeLookup store root id = .ok loc)

/-- The insert fails after it has changed the tree: its row is in order, and it either reopens an
    emptied leaf whose low key is a separator of the leaf's parent, or divides a leaf and finds no
    room in the half that covers its id. -/
def Strands (store : TreeStore) (root : PageId) (id : Nat) (payload : Bytes) (trxId : Nat) : Prop :=
  ∃ descent, descendTo store root id = .ok descent ∧
    (tupleBytes payload ≤ emptyFreeSpace ∧ Reopens descent.leaf id payload trxId ∧
        ¬SepFree store id descent.path.reverse ∨
      Tears descent.leaf id payload trxId)

/-- The steps of the runs: an overwrite keeps its id, and no insert strands what it changed. -/
def AtomicSafe (s : BtreeState) (a : BtreeAction) : Prop :=
  KeepsId s a ∧
    match a with
    | .insert id payload trxId _ => ¬Strands s.store s.root id payload trxId
    | _ => True

-- Lookups

variable {store store₁ : TreeStore} {bounds : PageId → Option Bounds} {root : PageId} {height : Nat}
  {id trxId : Nat} {payload : Bytes} {descent : Descent}

theorem Landed.lookup_live {lo hi : Nat} (hland : Landed store bounds root height id descent lo hi)
    (hlive : id ∈ liveIds descent.leaf.body.slots) :
    ∃ loc tuple, btreeLookup store root id = .ok loc ∧ versionAt store root id = some tuple := by
  rcases findSlotForId_spec hland.ok.slots id with
    ⟨place, length, tuple, hfind, hslot, -⟩ | ⟨e, -, -, hnot⟩
  · have hlookup : btreeLookup store root id = .ok ⟨descent.leafId, place⟩ := by
      rw [btreeLookup, hland.descends]
      dsimp only
      rw [hfind]
    refine ⟨_, tuple, hlookup, ?_⟩
    rw [versionAt, hlookup]
    dsimp only
    rw [hland.page]
    exact HeapPage.tupleAt_eq_some.mpr ⟨length, hslot⟩
  · exact absurd hlive hnot

theorem Landed.lookup_gone {lo hi : Nat} (hland : Landed store bounds root height id descent lo hi)
    (hgone : id ∉ liveIds descent.leaf.body.slots) :
    (∃ e, btreeLookup store root id = .error e) ∧ versionAt store root id = none := by
  rcases findSlotForId_spec hland.ok.slots id with
    ⟨place, length, tuple, -, hslot, hkey⟩ | ⟨e, hfind, hcode, -⟩
  · exact absurd (mem_liveIds.mpr ⟨length, tuple, List.mem_of_getElem? hslot, hkey⟩) hgone
  · have hlookup : ∃ e, btreeLookup store root id = .error e := by
      rw [btreeLookup, hland.descends]
      dsimp only
      rw [hfind]
      dsimp only
      rw [if_neg (not_not.mpr hcode)]
      exact ⟨_, rfl⟩
    refine ⟨hlookup, ?_⟩
    obtain ⟨e', he'⟩ := hlookup
    rw [versionAt, he']

-- The two ways to strand a change

theorem insertTuple_empty (hwriter : trxId ≤ maxTrxId) (hfits : tupleBytes payload ≤ emptyFreeSpace)
    (minKey undoPtr : Nat) :
    ∃ r, HeapPage.insertTuple ⟨minKey, [], emptyFreeSpace⟩ payload trxId undoPtr = .ok r :=
  ⟨_, @insertTuple_of_room ⟨minKey, [], emptyFreeSpace⟩ payload trxId undoPtr hwriter
    (Nat.le_refl _) hfits⟩

theorem LeafSplit.sepFree_iff (h : TreeShape store bounds root height) {key lo hi sep : Nat}
    {oldLeaf newLeaf : LeafPage} {ids : List Nat}
    (hland : Landed store bounds root height key descent lo hi)
    (hsplit : LeafSplit store store₁ descent payload lo hi sep oldLeaf newLeaf ids) :
    SepFree store₁ id descent.path.reverse ↔ SepFree store id descent.path.reverse := by
  have hascent := hland.ascent
  rcases hpath : descent.path.reverse with _ | ⟨parent, rest⟩
  · exact Iff.rfl
  · rw [hpath] at hascent
    obtain ⟨⟨node, u, v, hpage, hparent, -, -⟩, -⟩ := hascent
    have hleaf : parent ≠ descent.leafId := by
      rintro rfl
      rw [hland.page] at hpage
      cases hpage
    have hsame := hsplit.other parent hleaf (Nat.ne_of_lt (h.below _ _ hparent))
    rw [SepFree, SepFree, hsame]

theorem insert_reopens (h : TreeShape store bounds root height) {lo hi : Nat}
    (hland : Landed store bounds root height id descent lo hi)
    (hfits : tupleBytes payload ≤ emptyFreeSpace)
    (hreopens : Reopens descent.leaf id payload trxId)
    (hdup : ¬SepFree store id descent.path.reverse) (ownerOid : Nat) :
    ∃ e, (btreeInsert store root id payload trxId ownerOid).2 = .error e ∧
      e.code = .alreadyExists := by
  obtain ⟨hfull, -, hempty⟩ := hreopens
  rcases btreeInsert_full hland hfull ownerOid with ⟨⟨other, hother, -⟩, -⟩ | ⟨habove, hrun⟩
  · rw [hempty] at hother
    exact absurd hother List.not_mem_nil
  · have hmaxId : id ≤ maxTupleId := Nat.le_sub_one_of_lt (keystoneId_lt hfull.key)
    rcases appendLeafAndInsert_spec hland (h.below _ _ hland.leafBounds) hfull.key hmaxId habove
      root ownerOid with ⟨s, newLeaf, -, hins, -⟩ | ⟨store₁, newLeaf, hsplit, out, -, happend⟩
    · obtain ⟨r, hr⟩ := insertTuple_empty hfull.writer hfits id noUndoPtr
      rw [hr] at hins
      cases hins
    · obtain ⟨e, he, hcode⟩ := promoteSeparator_dup (h.growing hland hsplit)
        (hland.ascent_split h hsplit) (fun hfree => hdup ((hsplit.sepFree_iff h hland).mp hfree))
        ownerOid out
      rw [hrun, happend, he]
      exact ⟨e, rfl, hcode⟩

theorem insert_tears (h : TreeShape store bounds root height) {lo hi : Nat}
    (hland : Landed store bounds root height id descent lo hi)
    (htears : Tears descent.leaf id payload trxId) (hheight : height < maxBtreeDepth)
      (ownerOid : Nat) :
    (∃ e, (btreeInsert store root id payload trxId ownerOid).2 = .error e) ∧
      ∃ key, versionAt (btreeInsert store root id payload trxId ownerOid).1 root key ≠
        versionAt store root key := by
  obtain ⟨hfull, ⟨other, hother, hlt⟩, hcount, hfits⟩ := htears
  rcases btreeInsert_full hland hfull ownerOid with ⟨-, hrun⟩ | ⟨habove, -⟩
  swap
  · exact absurd (habove other hother) (Nat.not_lt.mpr (Nat.le_of_lt hlt))
  obtain ⟨sep, store₁, oldLeaf, newLeaf, -, ⟨hok, -⟩ | ⟨-, hsplit, hmoved, s, hdivide⟩⟩ :=
    splitLeafAndInsert_spec hland (h.below _ _ hland.leafBounds) hfull.key hfull.new hfull.writer
      hcount root ownerOid
  · exact absurd hok hfits
  rw [hrun, hdivide]
  refine ⟨⟨s, rfl⟩, sep, ?_⟩
  -- The separator moved with its version, and descents still end at the old leaf.
  have hrange := hland.ok.range sep hmoved
  have hsep : sep < idSpace :=
    Nat.lt_of_le_of_lt hsplit.sepMax (by decide)
  have hshape₁ : TreeShape store₁ bounds root height := by
    refine h.setLeaf hland.leafBounds (Nat.le_of_lt (hsplit.next ▸ Nat.lt_succ_self _))
      (fun page hne hlt => hsplit.other page hne (Nat.ne_of_lt hlt)) hsplit.oldPage ?_
    have hold := hsplit.oldOk
    exact ⟨hold.minKey, fun k hk => ⟨(hold.range k hk).1,
      Nat.lt_trans (hold.range k hk).2 hsplit.sepIn.2⟩, hold.nodup, hold.slots, hold.space⟩
  obtain ⟨before, u, v, -, hbefore⟩ := h.landed hheight hsep
  obtain ⟨after, u', v', -, hafter⟩ := hshape₁.landed hheight hsep
  have hbeforeLeaf : before.leaf = descent.leaf := by
    have hpage := hbefore.page
    rw [hbefore.leafId_eq h hland.leafBounds hrange, hland.page] at hpage
    exact (TreePage.leaf.inj (Option.some.inj hpage)).symm
  have hafterLeaf : after.leaf = oldLeaf := by
    have hpage := hafter.page
    rw [hafter.leafId_eq hshape₁ hland.leafBounds hrange, hsplit.oldPage] at hpage
    exact (TreePage.leaf.inj (Option.some.inj hpage)).symm
  obtain ⟨-, tuple, -, hfound⟩ := hbefore.lookup_live (hbeforeLeaf ▸ hmoved)
  have hgone : sep ∉ liveIds after.leaf.body.slots := by
    rw [hafterLeaf]
    exact fun hin => Nat.lt_irrefl _ (hsplit.oldOk.range sep hin).2
  rw [(hafter.lookup_gone hgone).2, hfound]
  exact fun heq => by cases heq

-- One insert

theorem TreeShape.atomic_iff (h : TreeShape store bounds root height)
    (halloc : Allocated store) (hfits : tupleBytes payload ≤ emptyFreeSpace) (ownerOid : Nat) :
    InsertAtomic store root id payload trxId ownerOid ↔ ¬Strands store root id payload trxId := by
  constructor
  · rintro hatomic ⟨descent, hdescend, hcase⟩
    have hfull : FullFor descent.leaf id payload trxId := hcase.elim (·.2.1.1) (·.1)
    obtain ⟨hheight, lo, hi, hland⟩ := h.landed_of_descend (keystoneId_lt hfull.key) hdescend
    rcases hcase with ⟨-, hreopens, hdup⟩ | htears
    · obtain ⟨e, he, hcode⟩ := insert_reopens h hland hfits hreopens hdup ownerOid
      rcases hatomic with ⟨out, hout⟩ | ⟨e', he', -, hexists⟩
      · rw [he] at hout
        cases hout
      · rw [he] at he'
        cases he'
        obtain ⟨loc, hloc⟩ := hexists hcode
        obtain ⟨⟨e', he'⟩, -⟩ := hland.lookup_gone hfull.new
        rw [hloc] at he'
        cases he'
    · obtain ⟨⟨e, he⟩, key, hkey⟩ := insert_tears h hland htears hheight ownerOid
      rcases hatomic with ⟨out, hout⟩ | ⟨e', -, hsame, -⟩
      · rw [he] at hout
        cases hout
      · exact hkey (hsame.2 key)
  · intro hsafe
    have hpath := btreeInsert_path h id payload trxId ownerOid
    rw [InsertAtomic]
    obtain ⟨r, hr⟩ : ∃ r, btreeInsert store root id payload trxId ownerOid = r := ⟨_, rfl⟩
    rw [hr] at hpath ⊢
    cases hpath with
    | refused e hdup =>
      refine .inr ⟨e, rfl, ⟨rfl, fun _ => rfl⟩, fun hcode => ?_⟩
      obtain ⟨descent, lo, hi, hland, hlive⟩ := hdup hcode
      obtain ⟨loc, tuple, hloc, -⟩ := hland.lookup_live hlive
      exact ⟨loc, hloc⟩
    | placed descent lo hi body slot hland hkey hnew hins => exact .inl ⟨_, rfl⟩
    | divides descent lo hi hland hfull hinside =>
      have hleafLt := h.below _ _ hland.leafBounds
      by_cases hcount : 2 ≤ (liveIds descent.leaf.body.slots).length
      · obtain ⟨sep, store₁, oldLeaf, newLeaf, hlo, hcase⟩ := splitLeafAndInsert_spec hland
          hleafLt hfull.key hfull.new hfull.writer hcount root ownerOid
        rcases hcase with ⟨-, hsplit, -, out, hout, -, hrun⟩ | ⟨hnofit, -, -, -⟩
        · have hgrow := h.growing hland hsplit
          have hascent := hland.ascent_split h hsplit
          obtain ⟨store', out', -, -, hpromote, -⟩ := promoteSeparator_ok hgrow hascent
            (hgrow.sepFree hascent hlo) (hsplit.allocated halloc hleafLt) ownerOid out hout
          rw [hrun, hpromote]
          exact .inl ⟨out', rfl⟩
        · exact absurd ⟨descent, hland.descends, .inr ⟨hfull, hinside, hcount, hnofit⟩⟩ hsafe
      · obtain ⟨e, hrun, hcode⟩ := splitLeafAndInsert_few store hland.ok hcount root id payload
          trxId ownerOid
        rw [hrun]
        refine .inr ⟨e, rfl, ⟨rfl, fun _ => rfl⟩, fun hdup => ?_⟩
        rw [hcode] at hdup
        cases hdup
    | appends descent lo hi hland hfull habove =>
      have hleafLt := h.below _ _ hland.leafBounds
      have hmaxId : id ≤ maxTupleId := Nat.le_sub_one_of_lt (keystoneId_lt hfull.key)
      rcases appendLeafAndInsert_spec hland hleafLt hfull.key hmaxId habove root ownerOid with
        ⟨s, newLeaf, -, hins, -⟩ | ⟨store₁, newLeaf, hsplit, out, hout, hrun⟩
      · obtain ⟨r', hr'⟩ := insertTuple_empty hfull.writer hfits id noUndoPtr
        rw [hr'] at hins
        cases hins
      · have hgrow := h.growing hland hsplit
        have hascent := hland.ascent_split h hsplit
        by_cases hfree : SepFree store₁ id descent.path.reverse
        · obtain ⟨store', out', -, -, hpromote, -⟩ := promoteSeparator_ok hgrow hascent hfree
            (hsplit.allocated halloc hleafLt) ownerOid out hout
          rw [hrun, hpromote]
          exact .inl ⟨out', rfl⟩
        · refine absurd ⟨descent, hland.descends, .inl ⟨hfits, ?_, ?_⟩⟩ hsafe
          · exact reopens_of_above hland hfull habove
              fun hlo => hfree (hgrow.sepFree hascent hlo)
          · exact fun hfree' => hfree ((hsplit.sepFree_iff h hland).mpr hfree')

-- Runs

theorem reach_shape {root₀ ownerOid₀ : Nat} {s : BtreeState}
    (hreach : Reach BtreeState.step AtomicSafe (.format root₀ ownerOid₀) s) :
    ∃ bounds height, BtreeInv s bounds height := by
  have hstep : ∀ {t u : BtreeState} (a : BtreeAction),
      (∃ bounds height, BtreeInv t bounds height) → AtomicSafe t a → t.step a = some u →
        ∃ bounds height, BtreeInv u bounds height := by
    rintro t u a ⟨bounds, height, h⟩ ⟨hkeeps, hsafe⟩ hstep
    cases a with
    | insert id payload trxId ownerOid =>
      exact h.insert (fun descent hdescend htears =>
        hsafe ⟨descent, hdescend, .inr htears⟩) hstep
    | retireSlot | deleteMark | overwriteTuple => exact h.step hkeeps trivial hstep
  exact hreach.invariant ⟨startBounds root₀, 0, BtreeInv.format root₀ ownerOid₀⟩
    (fun a h hok hs => hstep a h hok hs)

/-- **A failed insert changes nothing**: in every state a run reaches whose steps strand nothing,
    an insert of a row that fits an empty leaf is atomic if and only if it strands nothing. -/
theorem insertAtomic_iff {root₀ ownerOid₀ : Nat} {s : BtreeState}
    (hreach : Reach BtreeState.step AtomicSafe (.format root₀ ownerOid₀) s)
    (hfits : tupleBytes payload ≤ emptyFreeSpace) (ownerOid : Nat) :
    InsertAtomic s.store s.root id payload trxId ownerOid ↔
      ¬Strands s.store s.root id payload trxId := by
  obtain ⟨bounds, height, h⟩ := reach_shape hreach
  exact h.shape.atomic_iff h.alloc hfits ownerOid

/-- A fifth row, into the leaf that the fourth one split off. -/
theorem insertAtomic_one : ∃ s, hasSplit s = true ∧
    (InsertAtomic s.store s.root 50 (thirdRow 50) 3 1 ↔
      ¬Strands s.store s.root 50 (thirdRow 50) 3) := by
  have hsafe : ∀ s a, insertsAbove s a = true → AtomicSafe s a := by
    intro s a h
    cases a with
    | insert id payload trxId ownerOid =>
      refine ⟨trivial, ?_⟩
      rintro ⟨descent, hdescend, ⟨-, hreopens, -⟩ | htears⟩
      · exact (insertsAbove_spec h hdescend).1 hreopens
      · exact (insertsAbove_spec h hdescend).2 htears
    | retireSlot | deleteMark | overwriteTuple => cases h
  obtain ⟨s, hreach, hsplit⟩ := @exists_reach_of_runList _ _ BtreeState.step _ insertsAbove hsafe
    splittingRun (.format 1000 1) hasSplit (by decide +kernel)
  exact ⟨s, hsplit, insertAtomic_iff hreach (by rw [tupleBytes, length_thirdRow]; decide) 1⟩

/-- A row of 4100 bytes: a leaf has room for one. -/
def halfRow (id : UInt8) : Bytes := id :: List.replicate 4099 0

/-- The insert says that the id is there, and the lookup does not find it. -/
def deniesLookup (answer : StatusOr InsertPlacement) (found : StatusOr Location) : Bool :=
  (match answer with
    | .ok _ => false
    | .error e => decide (e.code = .alreadyExists)) && !found.toBool

/-- The row 5 retired and inserted again: its leaf is full and empty, and its low key is a
    separator already. -/
theorem not_forall_insertAtomic :
    ¬∀ s, Reach BtreeState.step KeepsId (.format 1000 1) s → ∀ id payload trxId ownerOid,
      tupleBytes payload ≤ emptyFreeSpace →
        InsertAtomic s.store s.root id payload trxId ownerOid := by
  intro hall
  let acts : List BtreeAction :=
    [.insert 0 (halfRow 0) 1 1, .insert 5 (halfRow 5) 2 1, .retireSlot 1001 0]
  let meets : BtreeState → Bool := fun s =>
    deniesLookup (btreeInsert s.store s.root 5 (halfRow 5) 3 1).2 (btreeLookup s.store s.root 5)
  have hdone : (runList BtreeState.step acts (.format 1000 1)).any meets = true := by
    decide +kernel
  obtain ⟨s, hs, hmeets⟩ := (Option.any_eq_true _ _).mp hdone
  have hok : ∀ a ∈ acts, ∀ s, KeepsId s a := by
    intro a ha s
    simp only [acts, List.mem_cons, List.not_mem_nil, or_false] at ha
    rcases ha with rfl | rfl | rfl <;> trivial
  have hfits : tupleBytes (halfRow 5) ≤ emptyFreeSpace := by
    rw [tupleBytes, halfRow, List.length_cons, List.length_replicate]
    decide
  obtain ⟨herror, hgone⟩ := (Bool.and_eq_true _ _).mp hmeets
  rcases hall s (reach_of_runList hok hs) 5 (halfRow 5) 3 1 hfits with
    ⟨out, hout⟩ | ⟨e, he, -, hexists⟩
  · rw [hout] at herror
    cases herror
  · rw [he] at herror
    obtain ⟨loc, hloc⟩ := hexists (of_decide_eq_true herror)
    rw [hloc] at hgone
    cases hgone

end Kds.Storage.Btree
