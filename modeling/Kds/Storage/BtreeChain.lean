/-
  Kds.Storage.BtreeChain

  The walk over the leaves' next-page links against the descents from the root.  In a run
  whose inserts neither reopen an emptied leaf at its own low key nor tear one, the links
  visit the leaves the descents reach, once each and in the order of their low keys
  (`scanExact_iff`).

  `Chained` is a chain of leaves whose ranges follow one another to the end of the id space.
  A split puts the new leaf behind the one it came from (`Chained.split`), and every other
  change leaves the links alone (`Chained.imp`).
-/

import Kds.Storage.BtreeDepth

namespace Kds.Storage.Btree

open Lib List

-- What is promised

/-- The next-page links from a page visit these leaves, and end. -/
def Linked (store : TreeStore) : Option PageId → List PageId → Prop
  | link, [] => link = none
  | link, page :: rest => link = some page ∧ ∃ leaf, store.pages page = some (.leaf leaf) ∧
      Linked store leaf.nextPageId rest

def lowKeyAt (store : TreeStore) (page : PageId) : Nat :=
  match store.pages page with
  | some (.leaf leaf) => leaf.body.minKey
  | _ => 0

def liveIdsAt (store : TreeStore) (page : PageId) : List Nat :=
  match store.pages page with
  | some (.leaf leaf) => liveIds leaf.body.slots
  | _ => []

/-- A scan's visitor: the id of every live tuple. -/
def collectIds : Visitor (List Nat) := fun gathered _ body slot =>
  match body.tupleAt slot with
  | none => .ok (gathered, .continue_)
  | some tuple =>
    match keystoneIdOfPayload tuple.payload with
    | .error e => .error e
    | .ok id => .ok (gathered ++ [id], .continue_)

/-- The walk from the leftmost leaf visits the leaves that descents reach, each once and in the
    order of their low keys; the ids it sees are, once each, those a lookup finds; and a walk
    from the leaf of a low bound sees every id from the bound up. -/
def ScanExact (s : BtreeState) : Prop :=
  ∃ first leaves ids, btreeLeftmostLeaf s.store s.root = .ok first ∧
    Linked s.store (some first) leaves ∧ leaves.Nodup ∧
    (leaves.map (lowKeyAt s.store)).Pairwise (· < ·) ∧
    (∀ page, page ∈ leaves ↔ ∃ id < idSpace, btreeSeekLeaf s.store s.root id = .ok page) ∧
    btreeVisit collectIds s.store s.root [] = .ok ids ∧
    ids = leaves.flatMap (liveIdsAt s.store) ∧ ids.Nodup ∧
    (∀ id < idSpace, id ∈ ids ↔ ∃ loc, btreeLookup s.store s.root id = .ok loc) ∧
    ∀ low < idSpace, ∃ leaf later, btreeSeekLeaf s.store s.root low = .ok leaf ∧
      btreeVisitFrom collectIds s.store leaf [] = .ok later ∧ ∀ id ∈ ids, low ≤ id → id ∈ later

/-- An insert that neither reopens an emptied leaf at its own low key nor tears one. -/
def ChainSafe (s : BtreeState) (a : BtreeAction) : Prop :=
  KeepsId s a ∧
    match a with
    | .insert id payload trxId _ => ∀ descent, descendTo s.store s.root id = .ok descent →
        ¬Reopens descent.leaf id payload trxId ∧ ¬Tears descent.leaf id payload trxId
    | _ => True

/-- How many leaves the tree has. -/
def BtreeState.leafCount (s : BtreeState) : Nat :=
  ((List.range s.store.nextPageId).filter (fun page =>
    match s.store.pages page with
    | some (.leaf _) => decide (page ∉ s.failedPages)
    | _ => false)).length

-- A chain of leaves

/-- From a link on, leaves whose ranges follow one another up to the end of the id space. -/
def Chained (store : TreeStore) (bounds : PageId → Option Bounds) :
    Nat → Option PageId → List PageId → Prop
  | lo, link, [] => link = none ∧ lo = idSpace
  | lo, link, page :: rest => link = some page ∧ ∃ leaf hi, bounds page = some ⟨0, lo, hi⟩ ∧
      store.pages page = some (.leaf leaf) ∧ lo < hi ∧
      Chained store bounds hi leaf.nextPageId rest

namespace Chained

variable {store store' : TreeStore} {bounds bounds' : PageId → Option Bounds} {root : PageId}
  {height lo : Nat} {link : Option PageId} {leaves : List PageId} {page : PageId}

theorem imp (h : Chained store bounds lo link leaves)
    (himp : ∀ page u v leaf, lo ≤ u → bounds page = some ⟨0, u, v⟩ →
      store.pages page = some (.leaf leaf) → bounds' page = some ⟨0, u, v⟩ ∧
        ∃ leaf', store'.pages page = some (.leaf leaf') ∧ leaf'.nextPageId = leaf.nextPageId) :
    Chained store' bounds' lo link leaves := by
  induction leaves generalizing lo link with
  | nil => exact h
  | cons page rest ih =>
    obtain ⟨hlink, leaf, hi, hbd, hpage, hlt, hrest⟩ := h
    obtain ⟨hbd', leaf', hpage', hnext⟩ := himp page lo hi leaf (Nat.le_refl _) hbd hpage
    refine ⟨hlink, leaf', hi, hbd', hpage', hlt, ?_⟩
    rw [hnext]
    exact ih hrest (fun page u v leaf hu => himp page u v leaf (Nat.le_trans (Nat.le_of_lt hlt) hu))

theorem linked (h : Chained store bounds lo link leaves) : Linked store link leaves := by
  induction leaves generalizing lo link with
  | nil => exact h.1
  | cons page rest ih =>
    obtain ⟨hlink, leaf, hi, -, hpage, -, hrest⟩ := h
    exact ⟨hlink, leaf, hpage, ih hrest⟩

theorem le_idSpace (h : Chained store bounds lo link leaves) : lo ≤ idSpace := by
  induction leaves generalizing lo link with
  | nil => exact Nat.le_of_eq h.2
  | cons page rest ih =>
    obtain ⟨-, leaf, hi, -, -, hlt, hrest⟩ := h
    exact Nat.le_trans (Nat.le_of_lt hlt) (ih hrest)

theorem bounds_of_mem (h : Chained store bounds lo link leaves) (hpage : page ∈ leaves) :
    ∃ u v leaf, bounds page = some ⟨0, u, v⟩ ∧ lo ≤ u ∧ u < idSpace ∧
      store.pages page = some (.leaf leaf) := by
  induction leaves generalizing lo link with
  | nil => exact absurd hpage not_mem_nil
  | cons first rest ih =>
    obtain ⟨-, leaf, hi, hbd, hfirst, hlt, hrest⟩ := h
    rcases mem_cons.mp hpage with rfl | hpage
    · exact ⟨lo, hi, leaf, hbd, Nat.le_refl _, Nat.lt_of_lt_of_le hlt hrest.le_idSpace, hfirst⟩
    · obtain ⟨u, v, leaf', hbd', hu, hrest'⟩ := ih hrest hpage
      exact ⟨u, v, leaf', hbd', Nat.le_trans (Nat.le_of_lt hlt) hu, hrest'⟩

theorem covers (h : Chained store bounds lo link leaves) {key : Nat} (hlo : lo ≤ key)
    (hkey : key < idSpace) :
    ∃ page ∈ leaves, ∃ u v, bounds page = some ⟨0, u, v⟩ ∧ u ≤ key ∧ key < v := by
  induction leaves generalizing lo link with
  | nil =>
    rw [h.2] at hlo
    exact absurd hkey (Nat.not_lt.mpr hlo)
  | cons page rest ih =>
    obtain ⟨-, leaf, hi, hbd, -, -, hrest⟩ := h
    by_cases hhi : key < hi
    · exact ⟨page, mem_cons_self, lo, hi, hbd, hlo, hhi⟩
    · obtain ⟨other, hother, hrange⟩ := ih hrest (Nat.not_lt.mp hhi)
      exact ⟨other, mem_cons_of_mem _ hother, hrange⟩

theorem split_at (h : Chained store bounds lo link leaves) (hpage : page ∈ leaves) :
    ∃ before after u, leaves = before ++ page :: after ∧
      Chained store bounds u (some page) (page :: after) ∧
      ∀ other ∈ before, ∃ a b, bounds other = some ⟨0, a, b⟩ ∧ b ≤ u := by
  induction leaves generalizing lo link with
  | nil => exact absurd hpage not_mem_nil
  | cons first rest ih =>
    obtain ⟨hlink, leaf, hi, hbd, hfirst, hlt, hrest⟩ := id h
    by_cases heq : page = first
    · subst heq
      exact ⟨[], rest, lo, rfl, hlink ▸ h, fun other hother => absurd hother not_mem_nil⟩
    · obtain ⟨before, after, u, hsplit, hchain, hbefore⟩ :=
        ih hrest ((mem_cons.mp hpage).resolve_left heq)
      refine ⟨first :: before, after, u, by rw [hsplit, cons_append], hchain,
        fun other hother => ?_⟩
      rcases mem_cons.mp hother with rfl | hother
      · refine ⟨lo, hi, hbd, ?_⟩
        obtain ⟨a, b, leaf', hbd', ha, -⟩ :=
          hrest.bounds_of_mem (hsplit ▸ mem_append_right _ mem_cons_self)
        obtain ⟨-, leaf'', hi'', hbd'', -⟩ := hchain
        rw [hbd''] at hbd'
        cases hbd'
        exact ha
      · exact hbefore other hother

theorem lowKeys (h : Chained store bounds lo link leaves)
    (hok : ∀ id bd, bounds id = some bd → PageOk store bounds id bd) :
    (leaves.map (lowKeyAt store)).Pairwise (· < ·) := by
  have hkey : ∀ {page u v leaf}, bounds page = some ⟨0, u, v⟩ →
      store.pages page = some (.leaf leaf) → lowKeyAt store page = u := by
    intro page u v leaf hbd hpage
    rw [lowKeyAt, hpage]
    exact ((hok page _ hbd).leaf_of_page hpage).2.minKey
  induction leaves generalizing lo link with
  | nil => exact List.Pairwise.nil
  | cons page rest ih =>
    obtain ⟨-, leaf, hi, hbd, hpage, hlt, hrest⟩ := h
    rw [map_cons, pairwise_cons]
    refine ⟨fun key hmem => ?_, ih hrest⟩
    obtain ⟨other, hother, rfl⟩ := mem_map.mp hmem
    obtain ⟨u, v, leaf', hbd', hu, -, hpage'⟩ := hrest.bounds_of_mem hother
    rw [hkey hbd hpage, hkey hbd' hpage']
    exact Nat.lt_of_lt_of_le hlt hu

theorem ids (h : Chained store bounds lo link leaves)
    (hok : ∀ id bd, bounds id = some bd → PageOk store bounds id bd) :
    (leaves.flatMap (liveIdsAt store)).Nodup ∧
      ∀ id ∈ leaves.flatMap (liveIdsAt store), lo ≤ id := by
  induction leaves generalizing lo link with
  | nil => exact ⟨nodup_nil, fun id hid => absurd hid not_mem_nil⟩
  | cons page rest ih =>
    obtain ⟨-, leaf, hi, hbd, hpage, hlt, hrest⟩ := h
    obtain ⟨hnodup, hge⟩ := ih hrest
    have hleaf := ((hok page _ hbd).leaf_of_page hpage).2
    have hat : liveIdsAt store page = liveIds leaf.body.slots := by rw [liveIdsAt, hpage]
    rw [flatMap_cons, hat]
    refine ⟨nodup_append.mpr ⟨hleaf.nodup, hnodup, fun x hx y hy heq => ?_⟩,
      fun id hid => ?_⟩
    · have hxlt : x < hi := (hleaf.range x hx).2
      have hyge := hge y hy
      omega
    · rcases mem_append.mp hid with hid | hid
      · exact (hleaf.range id hid).1
      · exact Nat.le_trans (Nat.le_of_lt hlt) (hge id hid)

theorem split (h : Chained store bounds lo link leaves)
    (hshape : TreeShape store bounds root height)
    {descent : Descent} {payload : Bytes} {key u v sep : Nat} {oldLeaf newLeaf : LeafPage}
    {ids : List Nat} (hland : Landed store bounds root height key descent u v)
    (hsplit : LeafSplit store store' descent payload u v sep oldLeaf newLeaf ids)
    (hstrict : u < sep) :
    ∃ leaves', Chained store' (cut bounds descent.leafId store.nextPageId 0 u sep v) lo link
      leaves' := by
  have hgrow := hshape.growing hland hsplit
  have hother : ∀ {page bd}, bounds page = some bd → page ≠ descent.leafId →
      page ≠ store.nextPageId := fun hbd _ => Nat.ne_of_lt (hshape.below _ _ hbd)
  induction leaves generalizing lo link with
  | nil => exact ⟨[], h⟩
  | cons page rest ih =>
    obtain ⟨hlink, leaf, hi, hbd, hpage, hlt, hrest⟩ := h
    by_cases hleaf : page = descent.leafId
    · subst hleaf
      rw [hland.leafBounds] at hbd
      cases hbd
      rw [hland.page] at hpage
      cases hpage
      refine ⟨descent.leafId :: store.nextPageId :: rest, hlink, oldLeaf, sep,
        cut_old hgrow.old_ne_child, hsplit.oldPage, hstrict, hsplit.oldLink, newLeaf, v, cut_child,
        hsplit.newPage, hsplit.sepIn.2, ?_⟩
      rw [hsplit.newLink]
      refine hrest.imp (fun other a b leaf ha hbd hother' => ?_)
      have hne : other ≠ descent.leafId := by
        rintro rfl
        rw [hland.leafBounds] at hbd
        cases hbd
        exact absurd hlt (Nat.not_lt.mpr ha)
      exact ⟨(cut_other hne (hother hbd hne)).trans hbd, leaf,
        (hsplit.other other hne (hother hbd hne)).trans hother', rfl⟩
    · obtain ⟨leaves', hchain⟩ := ih hrest
      exact ⟨page :: leaves', hlink, leaf, hi, (cut_other hleaf (hother hbd hleaf)).trans hbd,
        (hsplit.other page hleaf (hother hbd hleaf)).trans hpage, hlt, hchain⟩

end Chained

-- The walk over a chain

section Walk

variable {store : TreeStore} {bounds : PageId → Option Bounds} {root : PageId} {height : Nat}

theorem visitSlots_collectIds {body : HeapPage} (hok : ∀ slot ∈ body.slots, SlotOk slot)
    (page : PageId) (count first : Nat) (h : first + count = body.slots.length)
    (gathered : List Nat) :
    visitSlots collectIds page body (List.range' first count) gathered =
      .ok (gathered ++ liveIds (body.slots.drop first), .continue_) := by
  induction count generalizing first gathered with
  | zero =>
    have hnil : body.slots.drop first = [] := drop_of_length_le (Nat.le_of_eq h.symm)
    rw [hnil]
    exact congrArg (fun ids => Except.ok (ids, VisitControl.continue_))
      (append_nil gathered).symm
  | succ count ih =>
    have hlt : first < body.slots.length := by omega
    have hget := List.getElem?_eq_getElem hlt
    have hrest := ih (first + 1) (by omega)
    rw [range'_succ, visitSlots, collectIds, drop_eq_getElem_cons hlt]
    rcases hslot : body.slots[first] with _ | ⟨length, tuple⟩
    · have hdead : body.tupleAt first = none := by
        rw [HeapPage.tupleAt, hget, hslot]
      rw [hdead]
      exact hrest gathered
    · have hlive : body.tupleAt first = some tuple :=
        HeapPage.tupleAt_eq_some.mpr ⟨length, by rw [hget, hslot]⟩
      have hid : keystoneIdOfPayload tuple.payload = .ok (keyOf tuple) :=
        slotKeystoneId_live (hok _ (hslot ▸ getElem_mem hlt))
      rw [hlive]
      dsimp only
      rw [hid]
      dsimp only
      rw [hrest (gathered ++ [keyOf tuple]), liveIds_cons_live, append_assoc,
        singleton_append]

theorem btreeVisitLeafPage_collectIds {page : PageId} {leaf : LeafPage}
    (hpage : store.pages page = some (.leaf leaf)) (hok : ∀ slot ∈ leaf.body.slots, SlotOk slot)
    (gathered : List Nat) :
    btreeVisitLeafPage collectIds store page gathered =
      .ok (gathered ++ liveIdsAt store page, leaf.nextPageId) := by
  rw [btreeVisitLeafPage, TreeStore.get, hpage]
  dsimp only
  rw [range_eq_range', visitSlots_collectIds hok page leaf.body.slotCount 0 (Nat.zero_add _),
    liveIdsAt, hpage, drop_zero]

theorem visitChain_collectIds (hok : ∀ id bd, bounds id = some bd → PageOk store bounds id bd)
    (budget : Nat) {leaves : List PageId} {lo : Nat} {page : PageId} {gathered : List Nat}
    (h : Chained store bounds lo (some page) leaves) :
    if leaves.length ≤ budget then
      visitChain collectIds store budget page gathered =
        .ok (gathered ++ leaves.flatMap (liveIdsAt store))
    else ∃ e, visitChain collectIds store budget page gathered = .error e := by
  induction leaves generalizing lo page gathered budget with
  | nil => cases h.1
  | cons first rest ih =>
    obtain ⟨hlink, leaf, hi, hbd, hpage, -, hrest⟩ := h
    obtain rfl := Option.some.inj hlink
    rcases budget with _ | budget
    · rw [if_neg (by rw [length_cons]; exact Nat.not_succ_le_zero _)]
      exact ⟨_, rfl⟩
    · have hvisit := btreeVisitLeafPage_collectIds hpage
        ((hok page _ hbd).leaf_of_page hpage).2.slots gathered
      rw [visitChain, hvisit, length_cons, flatMap_cons]
      rcases hnext : leaf.nextPageId with _ | next
      · rw [hnext] at hrest
        obtain rfl : rest = [] := by
          rcases rest with _ | ⟨second, rest⟩
          · rfl
          · cases hrest.1
        have hle : ([] : List PageId).length + 1 ≤ budget + 1 := Nat.succ_le_succ (Nat.zero_le _)
        rw [if_pos hle, flatMap_nil, append_nil]
      · rw [hnext] at hrest
        have hlater := @ih budget hi next (gathered ++ liveIdsAt store page) hrest
        by_cases hle : rest.length ≤ budget
        · rw [if_pos hle] at hlater
          rw [if_pos (Nat.succ_le_succ hle), ← append_assoc]
          exact hlater
        · rw [if_neg hle] at hlater
          rw [if_neg (fun hle' => hle (Nat.le_of_succ_le_succ hle'))]
          exact hlater

theorem leftmostFrom_spec (h : TreeShape store bounds root height) (fuel : Nat) :
    ∀ level page lo hi, bounds page = some ⟨level, lo, hi⟩ →
      if level < fuel then
        ∃ leaf v, leftmostFrom store fuel page = .ok leaf ∧ bounds leaf = some ⟨0, lo, v⟩
      else ∃ e, leftmostFrom store fuel page = .error e := by
  induction fuel with
  | zero =>
    intro level page lo hi _
    rw [if_neg (Nat.not_lt_zero level)]
    exact ⟨_, rfl⟩
  | succ fuel ih =>
    intro level page lo hi hbd
    rw [leftmostFrom, TreeStore.get]
    rcases level with _ | level
    · obtain ⟨leaf, hpage, -⟩ := (h.pages page _ hbd).leaf_of_level_zero rfl
      rw [if_pos (Nat.succ_pos fuel), hpage]
      exact ⟨page, hi, rfl, hbd⟩
    · obtain ⟨node, hpage, hok⟩ := (h.pages page _ hbd).node_of_level_pos (Nat.succ_pos level)
      rw [hpage]
      obtain ⟨v, hchild⟩ := hok.sliced.first_slice
      have hbelow := ih level node.leftmostChild lo v hchild
      by_cases hlt : level < fuel
      · rw [if_pos hlt] at hbelow
        rw [if_pos (Nat.succ_lt_succ hlt)]
        exact hbelow
      · rw [if_neg hlt] at hbelow
        rw [if_neg (fun hlt' => hlt (Nat.lt_of_succ_lt_succ hlt'))]
        exact hbelow

end Walk

-- The invariant

/-- The tree is in shape, no leaf's range is empty, and the links pass through the ranges. -/
structure ChainInv (s : BtreeState) (bounds : PageId → Option Bounds) (height : Nat) : Prop where
  inv : BtreeInv s bounds height
  strict : ∀ page u v, bounds page = some ⟨0, u, v⟩ → u < v ∧ v ≤ idSpace
  chained : ∃ first leaves, Chained s.store bounds 0 (some first) leaves

namespace ChainInv

variable {s s' : BtreeState} {bounds : PageId → Option Bounds} {height : Nat}

theorem format (root ownerOid : Nat) :
    ChainInv (BtreeState.format root ownerOid) (startBounds root) 0 := by
  refine ⟨BtreeInv.format root ownerOid, fun page u v hbd => ?_, root, [root], rfl, _, idSpace,
    if_pos rfl, if_pos rfl, by decide, rfl, rfl⟩
  rw [startBounds] at hbd
  split_ifs at hbd
  cases hbd
  exact ⟨by decide, Nat.le_refl _⟩

theorem frame (h : ChainInv s bounds height) (hinv : BtreeInv s' bounds height)
    (hpages : ∀ page leaf, s.store.pages page = some (.leaf leaf) →
      (∃ bd, bounds page = some bd) → ∃ leaf', s'.store.pages page = some (.leaf leaf') ∧
        leaf'.nextPageId = leaf.nextPageId) : ChainInv s' bounds height := by
  obtain ⟨first, leaves, hchain⟩ := h.chained
  exact ⟨hinv, h.strict, first, leaves, hchain.imp (fun page u v leaf _ hbd hpage =>
    ⟨hbd, hpages page leaf hpage ⟨_, hbd⟩⟩)⟩

theorem insert (h : ChainInv s bounds height) {id : Nat} {payload : Bytes} {trxId ownerOid : Nat}
    (hsafe : ∀ descent, descendTo s.store s.root id = .ok descent →
      ¬Reopens descent.leaf id payload trxId ∧ ¬Tears descent.leaf id payload trxId)
    (hstep : s.step (.insert id payload trxId ownerOid) = some s') :
    ∃ bounds' height', ChainInv s' bounds' height' := by
  have hout := h.inv.outcome id payload trxId ownerOid
  rw [BtreeState.step] at hstep
  obtain ⟨⟨store', answer⟩, hrun⟩ : ∃ r, btreeInsert s.store s.root id payload trxId ownerOid = r :=
    ⟨_, rfl⟩
  rw [hrun] at hstep hout
  dsimp only at hstep hout
  cases hout with
  | refused e =>
    rw [Nat.sub_self] at hstep
    cases hstep
    exact ⟨bounds, height, h⟩
  | wasted e newLeaf _ =>
    have hone : (s.store.createNew.put s.store.nextPageId (.leaf newLeaf)).nextPageId -
        s.store.nextPageId = 1 := Nat.add_sub_cancel_left _ 1
    rw [hone] at hstep
    cases hstep
    have hpage : (s.store.createNew.put s.store.nextPageId (.leaf newLeaf)).pages
        s.store.nextPageId = some (.leaf newLeaf) := Function.update_self _ _ _
    have hother : ∀ page, page ≠ s.store.nextPageId →
        (s.store.createNew.put s.store.nextPageId (.leaf newLeaf)).pages page =
          s.store.pages page := fun page hne => Function.update_of_ne hne _ _
    exact ⟨bounds, height, h.frame (h.inv.failed rfl hother hpage) (fun page leaf hleaf _ =>
      ⟨leaf, (hother page (Nat.ne_of_lt (h.inv.alloc.lt hleaf))).trans hleaf, rfl⟩)⟩
  | placed descent lo hi body slot hland _ hok hids =>
    cases hstep
    refine ⟨bounds, height, h.frame (h.inv.placed hland hok hids) (fun page leaf hleaf _ => ?_)⟩
    by_cases heq : page = descent.leafId
    · subst heq
      rw [hland.page] at hleaf
      cases hleaf
      exact ⟨_, Function.update_self _ _ _, rfl⟩
    · exact ⟨leaf, (Function.update_of_ne heq _ _).trans hleaf, rfl⟩
  | grown descent lo hi sep store₁ oldLeaf newLeaf _ out bounds' height' hland hsplit hstrict
      hshape hleaves hsame halloc _ =>
      cases hstep
      have hlt : lo < sep := hstrict.resolve_right (hsafe descent hland.descends).1
      obtain ⟨first, leaves, hchain⟩ := h.chained
      obtain ⟨leaves', hchain'⟩ := hchain.split h.inv.shape hland hsplit hlt
      refine ⟨bounds', height', h.inv.grown hland hsplit hshape hleaves hsame halloc,
        fun page u v hbd => ?_, first, leaves', hchain'.imp (fun page u v leaf _ hbd hpage =>
          ⟨(hleaves page u v).mpr hbd, leaf, (hsame page leaf).mpr hpage, rfl⟩)⟩
      rcases cut_eq_some ((hleaves page u v).mp hbd) with ⟨-, hbd⟩ | ⟨-, -, hbd⟩ | ⟨-, -, hbd⟩
      · cases hbd
        exact ⟨hsplit.sepIn.2, (h.strict _ lo hi hland.leafBounds).2⟩
      · cases hbd
        exact ⟨hlt, Nat.le_trans (Nat.le_of_lt hsplit.sepIn.2)
          (h.strict _ lo hi hland.leafBounds).2⟩
      · exact h.strict page u v hbd
  | stranded e descent lo hi _ newLeaf hland hsplit hreopens =>
    exact absurd hreopens (hsafe descent hland.descends).1
  | torn e descent lo hi sep _ oldLeaf newLeaf hland hsplit htears =>
    exact absurd htears (hsafe descent hland.descends).2

variable {a : BtreeAction} {leaves : List PageId} {link : Option PageId}

/-- A step that reopens and tears no leaf keeps the chain in key order. -/
theorem step (h : ChainInv s bounds height) (hsafe : ChainSafe s a) (hstep : s.step a = some s') :
    ∃ bounds' height', ChainInv s' bounds' height' := by
  by_cases hinsert : ∃ id payload trxId ownerOid, a = .insert id payload trxId ownerOid
  · obtain ⟨id, payload, trxId, ownerOid, rfl⟩ := hinsert
    exact h.insert hsafe.2 hstep
  · obtain ⟨page, leaf, i, length, tuple, new, hslot, -⟩ := BtreeState.step_slot hsafe.1
      (fun id payload trxId ownerOid heq => hinsert ⟨id, payload, trxId, ownerOid, heq⟩) hstep
    refine ⟨bounds, height, h.frame (h.inv.slot hslot) (fun other leaf' hleaf' _ => ?_)⟩
    rw [hslot.next]
    by_cases heq : other = page
    · subst heq
      rw [hslot.found] at hleaf'
      cases hleaf'
      exact ⟨_, Function.update_self _ _ _, rfl⟩
    · exact ⟨leaf', (Function.update_of_ne heq _ _).trans hleaf', rfl⟩

theorem mem_iff (h : ChainInv s bounds height) (hchain : Chained s.store bounds 0 link leaves)
    {page : PageId} : page ∈ leaves ↔ ∃ u v, bounds page = some ⟨0, u, v⟩ := by
  constructor
  · intro hpage
    obtain ⟨u, v, leaf, hbd, -⟩ := hchain.bounds_of_mem hpage
    exact ⟨u, v, hbd⟩
  · rintro ⟨u, v, hbd⟩
    obtain ⟨hlt, hle⟩ := h.strict page u v hbd
    have hu : u < idSpace := Nat.lt_of_lt_of_le hlt hle
    obtain ⟨other, hother, a, b, hbd', ha, hb⟩ := hchain.covers (Nat.zero_le u) hu
    rwa [h.inv.shape.apart page other _ _ u hbd hbd' rfl (Nat.le_refl u) hlt ha hb]

theorem leafCount_eq (h : ChainInv s bounds height) (hchain : Chained s.store bounds 0 link leaves)
    (hnodup : leaves.Nodup) : s.leafCount = leaves.length := by
  refine List.Perm.length_eq ((perm_ext_iff_of_nodup (nodup_range.filter _) hnodup).mpr
    (fun page => ?_))
  rw [mem_filter, mem_range, h.mem_iff hchain]
  constructor
  · rintro ⟨-, hleaf⟩
    rcases hpage : s.store.pages page with _ | ⟨leaf | node⟩
    · rw [hpage] at hleaf
      cases hleaf
    · rw [hpage] at hleaf
      obtain ⟨⟨level, u, v⟩, hbd⟩ := h.inv.known page leaf hpage (of_decide_eq_true hleaf)
      obtain rfl : level = 0 := ((h.inv.shape.pages page _ hbd).leaf_of_page hpage).1
      exact ⟨u, v, hbd⟩
    · rw [hpage] at hleaf
      cases hleaf
  · rintro ⟨u, v, hbd⟩
    obtain ⟨leaf, hpage, -⟩ := (h.inv.shape.pages page _ hbd).leaf_of_level_zero rfl
    refine ⟨h.inv.alloc.lt hpage, ?_⟩
    rw [hpage]
    refine decide_eq_true (fun hfail => ?_)
    rw [(h.inv.failedOut page hfail).1] at hbd
    cases hbd

theorem seek (h : ChainInv s bounds height) (hheight : height < maxBtreeDepth) {id : Nat}
    (hid : id < idSpace) :
    ∃ page u v, btreeSeekLeaf s.store s.root id = .ok page ∧ bounds page = some ⟨0, u, v⟩ ∧
      u ≤ id ∧ id < v := by
  obtain ⟨descent, lo, hi, hdescend, hland⟩ := h.inv.shape.landed hheight hid
  refine ⟨descent.leafId, lo, hi, ?_, hland.leafBounds, hland.keyIn⟩
  rw [btreeSeekLeaf, hdescend]
  rfl

theorem scanExact (h : ChainInv s bounds height) (hheight : height < maxBtreeDepth)
    (hcount : s.leafCount ≤ maxPageWalkLength) : ScanExact s := by
  obtain ⟨first, leaves, hchain⟩ := h.chained
  have hlows := hchain.lowKeys h.inv.shape.pages
  have hnodup : leaves.Nodup := List.Nodup.of_map _ (hlows.imp Nat.ne_of_lt)
  rw [h.leafCount_eq hchain hnodup] at hcount
  obtain ⟨hids, -⟩ := hchain.ids h.inv.shape.pages
  -- The walk starts where the chain does.
  have hleftmost : btreeLeftmostLeaf s.store s.root = .ok first := by
    have hspec := leftmostFrom_spec h.inv.shape maxBtreeDepth height s.root 0 idSpace
      h.inv.shape.root
    rw [if_pos hheight] at hspec
    obtain ⟨leaf, v, hok, hbd⟩ := hspec
    rw [btreeLeftmostLeaf, hok]
    rcases leaves with _ | ⟨head, rest⟩
    · cases hchain.1
    obtain ⟨hhead, -, hi, hbd', -, hlt, -⟩ := hchain
    cases hhead
    rw [h.inv.shape.apart leaf first _ _ 0 hbd hbd' rfl (Nat.le_refl 0) (h.strict leaf 0 v hbd).1
      (Nat.le_refl 0) hlt]
  have hwalk := @visitChain_collectIds _ _ h.inv.shape.pages maxPageWalkLength leaves 0 first []
    hchain
  rw [if_pos hcount, nil_append] at hwalk
  have hmem : ∀ id, id ∈ leaves.flatMap (liveIdsAt s.store) ↔ Holds s.store bounds id := by
    intro id
    rw [mem_flatMap]
    constructor
    · rintro ⟨page, hpage, hin⟩
      obtain ⟨u, v, leaf, hbd, -, -, hleaf⟩ := hchain.bounds_of_mem hpage
      rw [liveIdsAt, hleaf] at hin
      exact ⟨page, u, v, leaf, hbd, hleaf, hin⟩
    · rintro ⟨page, u, v, leaf, hbd, hleaf, hin⟩
      refine ⟨page, (h.mem_iff hchain).mpr ⟨u, v, hbd⟩, ?_⟩
      rw [liveIdsAt, hleaf]
      exact hin
  refine ⟨first, leaves, _, hleftmost, hchain.linked, hnodup, hlows, fun page => ?_, ?_, rfl, hids,
    fun id hid => ?_, fun low hlow => ?_⟩
  · rw [h.mem_iff hchain]
    constructor
    · rintro ⟨u, v, hbd⟩
      obtain ⟨hlt, hle⟩ := h.strict page u v hbd
      have hu := Nat.lt_of_lt_of_le hlt hle
      obtain ⟨other, a, b, hseek, hbd', ha, hb⟩ := h.seek hheight hu
      rw [← h.inv.shape.apart page other _ _ u hbd hbd' rfl (Nat.le_refl u) hlt ha hb] at hseek
      exact ⟨u, hu, hseek⟩
    · rintro ⟨id, hid, hseek⟩
      obtain ⟨other, a, b, hseek', hbd, -⟩ := h.seek hheight hid
      rw [hseek] at hseek'
      cases hseek'
      exact ⟨a, b, hbd⟩
  · rw [btreeVisit, hleftmost]
    exact hwalk
  · rw [hmem id, ← h.inv.holds id]
    have hlookup := h.inv.lookup hheight hid
    split_ifs at hlookup with hin
    · obtain ⟨loc, hok, -⟩ := hlookup
      exact iff_of_true hin ⟨loc, hok⟩
    · obtain ⟨e, he⟩ := hlookup
      refine iff_of_false hin ?_
      rintro ⟨loc, hok⟩
      rw [he] at hok
      cases hok
  · obtain ⟨page, u, v, hseek, hbd, hu, -⟩ := h.seek hheight hlow
    obtain ⟨before, after, start, hsplit, hafter, hbefore⟩ :=
      hchain.split_at ((h.mem_iff hchain).mpr ⟨u, v, hbd⟩)
    have hshort : (page :: after).length ≤ maxPageWalkLength := by
      refine Nat.le_trans ?_ hcount
      rw [hsplit, length_append]
      exact Nat.le_add_left _ _
    have hlater := @visitChain_collectIds _ _ h.inv.shape.pages maxPageWalkLength _ start page []
      hafter
    rw [if_pos hshort, nil_append] at hlater
    refine ⟨page, _, hseek, hlater, fun id hid hle => ?_⟩
    rw [hsplit, flatMap_append] at hid
    rcases mem_append.mp hid with hid | hid
    · -- A leaf before the one of the bound ends below it.
      obtain ⟨other, hother, hin⟩ := mem_flatMap.mp hid
      obtain ⟨a, b, hbd', hb⟩ := hbefore other hother
      obtain ⟨leaf, hleaf, hok⟩ := (h.inv.shape.pages other _ hbd').leaf_of_level_zero rfl
      rw [liveIdsAt, hleaf] at hin
      have hlt : id < b := (hok.range id hin).2
      obtain ⟨-, -, hi, hbd'', -⟩ := hafter
      rw [hbd] at hbd''
      cases hbd''
      omega
    · exact hid

theorem scanExact_iff (h : ChainInv s bounds height) :
    ScanExact s ↔ s.rootLevel < maxBtreeDepth ∧ s.leafCount ≤ maxPageWalkLength := by
  rw [h.inv.rootLevel_eq]
  refine ⟨fun hexact => ?_, fun hlimits => h.scanExact hlimits.1 hlimits.2⟩
  obtain ⟨first, leaves, hchain⟩ := h.chained
  have hnodup : leaves.Nodup :=
    List.Nodup.of_map _ ((hchain.lowKeys h.inv.shape.pages).imp Nat.ne_of_lt)
  rw [h.leafCount_eq hchain hnodup]
  obtain ⟨first', leaves', ids, hleftmost, -, -, -, -, hvisit, -⟩ := hexact
  have hspec := leftmostFrom_spec h.inv.shape maxBtreeDepth height s.root 0 idSpace
    h.inv.shape.root
  by_cases hheight : height < maxBtreeDepth
  · refine ⟨hheight, ?_⟩
    by_contra hlong
    rw [if_pos hheight] at hspec
    obtain ⟨leaf, v, hok, hbd⟩ := hspec
    have hwalk := @visitChain_collectIds _ _ h.inv.shape.pages maxPageWalkLength leaves 0 first []
      hchain
    rw [if_neg hlong] at hwalk
    obtain ⟨e, he⟩ := hwalk
    rcases leaves with _ | ⟨head, rest⟩
    · cases hchain.1
    obtain ⟨hhead, -, hi, hbd', -, hlt, -⟩ := hchain
    cases hhead
    rw [h.inv.shape.apart leaf first _ _ 0 hbd hbd' rfl (Nat.le_refl 0) (h.strict leaf 0 v hbd).1
      (Nat.le_refl 0) hlt] at hok
    rw [btreeVisit, btreeLeftmostLeaf, hok] at hvisit
    have hsame := hvisit.symm.trans he
    cases hsame
  · rw [if_neg hheight] at hspec
    obtain ⟨e, he⟩ := hspec
    rw [btreeLeftmostLeaf, he] at hleftmost
    cases hleftmost

theorem of_step (h : ∃ bounds height, ChainInv s bounds height) (hsafe : ChainSafe s a)
    (hstep : s.step a = some s') : ∃ bounds' height', ChainInv s' bounds' height' := by
  obtain ⟨bounds, height, h⟩ := h
  exact h.step hsafe hstep

end ChainInv

/-- **Scans and lookups agree** in every run whose inserts reopen and tear no leaf, as long as
    the root is no deeper than a descent goes and a walk's budget covers the leaves. -/
theorem btree_scan_exact_iff {root ownerOid : Nat} {s : BtreeState}
    (hreach : Reach BtreeState.step ChainSafe (.format root ownerOid) s) :
    ScanExact s ↔ s.rootLevel < maxBtreeDepth ∧ s.leafCount ≤ maxPageWalkLength := by
  obtain ⟨bounds, height, hinv⟩ := hreach.invariant
    ⟨startBounds root, 0, ChainInv.format root ownerOid⟩
    (fun action h hok hs => ChainInv.of_step h hok hs)
  exact hinv.scanExact_iff

theorem btree_scan_exact_one : ∃ s, hasSplit s = true ∧ s.leafCount = 2 ∧
    (ScanExact s ↔ s.rootLevel < maxBtreeDepth ∧ s.leafCount ≤ maxPageWalkLength) := by
  have hsafe : ∀ s a, insertsAbove s a = true → ChainSafe s a := by
    intro s a h
    cases a with
    | insert id payload trxId ownerOid => exact ⟨trivial, fun _ hd => insertsAbove_spec h hd⟩
    | retireSlot | deleteMark | overwriteTuple => cases h
  obtain ⟨s, hreach, hs⟩ := @exists_reach_of_runList _ _ BtreeState.step _ insertsAbove hsafe
    splittingRun (.format 1000 1) (fun s => hasSplit s && s.leafCount = 2) (by decide +kernel)
  obtain ⟨hsplit, hcount⟩ := (Bool.and_eq_true _ _).mp hs
  exact ⟨s, hsplit, of_decide_eq_true hcount, btree_scan_exact_iff hreach⟩

-- A reopened leaf

variable {leaf : LeafPage} {store : TreeStore}

theorem Linked.next_mem {link : Option PageId} {leaves : List PageId} (h : Linked store link leaves)
    {page next : PageId} (hpage : page ∈ leaves) (hleaf : store.pages page = some (.leaf leaf))
    (hnext : leaf.nextPageId = some next) : next ∈ leaves := by
  induction leaves generalizing link with
  | nil => exact absurd hpage not_mem_nil
  | cons first rest ih =>
    obtain ⟨-, leaf', hfirst, hrest⟩ := h
    rcases mem_cons.mp hpage with rfl | hpage
    · rw [hleaf] at hfirst
      cases hfirst
      rcases rest with _ | ⟨second, rest⟩
      · rw [hnext] at hrest
        cases hrest
      · obtain ⟨hlink, -⟩ := hrest
        rw [hnext] at hlink
        cases hlink
        exact mem_cons_of_mem _ mem_cons_self
    · exact mem_cons_of_mem _ (ih hrest hpage)

theorem descendTo_two {root : PageId} {node : InternalPage} {key : Nat}
    (hroot : store.pages root = some (.internal node))
    (hleaf : store.pages (node.childFor key) = some (.leaf leaf)) :
    descendTo store root key = .ok ⟨[root], node.childFor key, leaf⟩ := by
  rw [descendTo, maxBtreeDepth, descendFrom, TreeStore.get, hroot]
  dsimp only
  rw [descendFrom, TreeStore.get, hleaf]

theorem retire_single {s : BtreeState} {page : PageId} {x : Nat}
    (hpage : s.store.pages page = some (.leaf leaf)) (hsingle : SingleLeaf leaf.body x) :
    ∃ i body s', s.step (.retireSlot page i) = some s' ∧ s'.root = s.root ∧
      s'.store = s.store.put page (.leaf { leaf with body := body }) ∧
      body.minKey = leaf.body.minKey ∧ body.freeSpace = leaf.body.freeSpace ∧
      liveIds body.slots = [] ∧ ∀ slot ∈ body.slots, SlotOk slot := by
  obtain ⟨length, tuple, hmem, -⟩ : ∃ length tuple, HeapSlot.live length tuple ∈ leaf.body.slots ∧
      keyOf tuple = x := mem_liveIds.mp (by rw [hsingle.ids]; exact mem_singleton_self x)
  obtain ⟨i, hi, hget⟩ := getElem_of_mem hmem
  have hold : leaf.body.slots[i]? = some (.live length tuple) := by
    rw [List.getElem?_eq_getElem hi, hget]
  obtain ⟨before, after, hslots, hset⟩ := exists_around hold
  have hids := hsingle.ids
  rw [hslots, liveIds_around] at hids
  have hlen := congrArg List.length hids
  rw [length_append, length_append] at hlen
  have hbefore : liveIds before = [] := length_eq_zero_iff.mp (by
    change (liveIds before).length + (1 + (liveIds after).length) = 1 at hlen
    omega)
  have hafter : liveIds after = [] := length_eq_zero_iff.mp (by
    change (liveIds before).length + (1 + (liveIds after).length) = 1 at hlen
    omega)
  have htuple : s.tupleAt page i = some (leaf, tuple) := by
    rw [BtreeState.tupleAt, hpage]
    dsimp only
    rw [HeapPage.tupleAt_eq_some.mpr ⟨length, hold⟩]
    rfl
  have hretire : leaf.body.retireSlot i = .ok (leaf.body.setSlot i .dead) := by
    rw [HeapPage.retireSlot, hold]
  obtain ⟨s', hstep, hroot, hstore⟩ : ∃ s', s.step (.retireSlot page i) = some s' ∧
      s'.root = s.root ∧ s'.store = s.store.put page
        (.leaf { leaf with body := leaf.body.setSlot i .dead }) := by
    rw [BtreeState.step, htuple]
    dsimp only
    rw [hretire]
    exact ⟨_, rfl, rfl, rfl⟩
  refine ⟨i, leaf.body.setSlot i .dead, s', hstep, hroot, hstore, rfl, rfl, ?_, fun slot hslot =>
    ?_⟩
  · rw [HeapPage.slots_setSlot, hset, liveIds_around, hbefore, hafter]
    rfl
  · rcases mem_or_eq_of_mem_set hslot with hslot | rfl
    · exact hsingle.slots slot hslot
    · trivial

/-- An emptied leaf reopened: the new leaf is linked, its separator is refused, and a walk
    reaches a row no lookup finds. -/
theorem not_forall_scanExact :
    ¬∀ s, Reach BtreeState.step KeepsId (.format 1000 1) s → ScanExact s := by
  intro hall
  -- The ids 0 and 5, in a leaf each.
  obtain ⟨s, hrun, hspine⟩ := @spine_reachable 1000 1 0 (by decide) (by decide)
  have hspine' := hspine
  obtain ⟨leaf₀, x, hleaf₀, hsingle₀, hx⟩ := hspine'
  obtain ⟨s₁, child, hrun₁, hkeeps₁, hroot₁, ⟨leaf₁, hleaf₁, hsingle₁⟩, -⟩ :=
    @insert_above_root 1000 1 s hrun 0 0 5 hspine (by decide) (by decide) (by decide)
  obtain ⟨leaf₀', hleaf₀', hbody₀⟩ := hkeeps₁.leaves _ _ hleaf₀
  have hne : s.root ≠ child := by
    intro heq
    rw [heq, hleaf₁] at hleaf₀'
    cases hleaf₀'
    have hids := hsingle₁.ids.symm.trans (hbody₀ ▸ hsingle₀.ids)
    obtain rfl := singleton_inj.mp hids
    exact absurd hx (by decide)
  have hrootNe : s₁.root ≠ child := by
    intro heq
    rw [heq, hleaf₁] at hroot₁
    cases hroot₁
  -- The row 5 retired: its leaf is empty and full.
  obtain ⟨i, body, s₂, hstep₂, hroot₂, hstore₂, hmin, hspace, hids, hslots⟩ :=
    retire_single hleaf₁ hsingle₁
  have hput : ∀ page, page ≠ child → s₂.store.pages page = s₁.store.pages page := by
    intro page hpage
    rw [hstore₂]
    exact Function.update_of_ne hpage _ _
  have hchild₂ : s₂.store.pages child = some (.leaf { leaf₁ with body := body }) := by
    rw [hstore₂]
    exact Function.update_self _ _ _
  have halloc₂ : Allocated s₂.store := by
    have halloc₁ := allocated_of_wideRun (hrun.trans hrun₁)
    rw [hstore₂]
    exact halloc₁.put (halloc₁.lt hleaf₁) _
  obtain ⟨node, hnode⟩ : ∃ node : InternalPage, node = ⟨1, s.root, [(5, child)], 0⟩ := ⟨_, rfl⟩
  have hsorted : Ascending node.entries := by
    rw [hnode]
    exact pairwise_singleton _ _
  have hroute : ∀ key, node.childFor key = if 5 ≤ key then child else s.root := by
    intro key
    rw [InternalPage.childFor_eq_route hsorted, hnode, route]
    split_ifs <;> rfl
  have hroot₂' : s₂.store.pages s₂.root = some (.internal node) := by
    rw [hroot₂, hput _ hrootNe, hroot₁, hnode]
  -- The row 5 again.
  have hdescend : descendTo s₂.store s₂.root 5 =
      .ok ⟨[s₂.root], child, { leaf₁ with body := body }⟩ := by
    have hfive : node.childFor 5 = child := hroute 5
    have htwo := descendTo_two hroot₂' (hfive.symm ▸ hchild₂)
    rwa [hfive] at htwo
  obtain ⟨store₃, out, heq, -, hkeeps₃, -, -, hlink⟩ := btreeInsert_append halloc₂ hdescend hchild₂
    (hmin.le.trans hsingle₁.minKey) (fun other hother => absurd (hids ▸ hother) not_mem_nil)
    hslots (hspace ▸ hsingle₁.full) (by decide)
  obtain ⟨e, herror, -⟩ := @InternalPage.insertEntry_of_dup node hsorted 5 s₂.store.nextPageId
    (by decide) (by rw [hnode]; exact (by decide : 1 < internalMaxEntries))
    ⟨(5, child), by rw [hnode]; exact mem_cons_self, rfl⟩
  have hinsert : btreeInsert s₂.store s₂.root 5 (wideRow 5) 0 0 = (store₃, .error e) := by
    rw [heq]
    show promoteSeparator store₃ s₂.root 0 [s₂.root] 0 5 _ out = _
    rw [promoteSeparator, TreeStore.get, hkeeps₃.nodes _ _ hroot₂' trivial]
    dsimp only
    have hnotFull : ¬node.isFull = true := by
      rw [hnode]
      exact (by decide : ¬decide (internalMaxEntries ≤ 1) = true)
    rw [if_pos hnotFull, herror]
  obtain ⟨s₃, hstep₃, hroot₃, hstore₃⟩ : ∃ s₃, s₂.step (.insert 5 (wideRow 5) 0 0) = some s₃ ∧
      s₃.root = s₂.root ∧ s₃.store = store₃ := by
    rw [BtreeState.step, hinsert]
    exact ⟨_, rfl, rfl, rfl⟩
  have hkeepsRun : Reach BtreeState.step KeepsId (.format 1000 1) s₁ :=
    Reach.mono (hrun.trans hrun₁) (fun _ _ hok => hok.1)
  obtain ⟨first, leaves, ids, -, hlinked, -, -, hseek, -⟩ := hall s₃
    ((hkeepsRun.tail ⟨.retireSlot child i, trivial, hstep₂⟩).tail
      ⟨.insert 5 (wideRow 5) 0 0, trivial, hstep₃⟩)
  -- A descent ends at one of the two old leaves.
  have hnode₃ : s₃.store.pages s₃.root = some (.internal node) := by
    rw [hstore₃, hroot₃]
    exact hkeeps₃.nodes _ _ hroot₂' trivial
  have hdescends : ∀ key, btreeSeekLeaf s₃.store s₃.root key = .ok (node.childFor key) := by
    intro key
    obtain ⟨leaf, hleaf⟩ : ∃ leaf, s₃.store.pages (node.childFor key) = some (.leaf leaf) := by
      rw [hstore₃, hroute key]
      split_ifs
      · exact ⟨_, hlink⟩
      · obtain ⟨leaf, hleaf, -⟩ := hkeeps₃.leaves s.root _ ((hput _ hne).trans hleaf₀')
        exact ⟨leaf, hleaf⟩
    rw [btreeSeekLeaf, descendTo_two hnode₃ hleaf]
    rfl
  -- The old leaf of 5 links to the new one, which no descent reaches.
  have hin : child ∈ leaves := (hseek child).mpr ⟨5, by decide, (hdescends 5).trans
    (congrArg Except.ok (hroute 5))⟩
  have hlinkedNew : s₂.store.nextPageId ∈ leaves := hlinked.next_mem hin (hstore₃ ▸ hlink) rfl
  obtain ⟨key, -, hfound⟩ := (hseek _).mp hlinkedNew
  rw [hdescends key, hroute key] at hfound
  have hfresh := Except.ok.inj hfound
  split_ifs at hfresh
  · exact absurd (halloc₂.lt hchild₂) (by rw [hfresh]; exact Nat.lt_irrefl _)
  · exact absurd (halloc₂.lt ((hput _ hne).trans hleaf₀')) (by rw [hfresh]; exact Nat.lt_irrefl _)

end Kds.Storage.Btree
