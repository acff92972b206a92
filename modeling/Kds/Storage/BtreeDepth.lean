/-
  Kds.Storage.BtreeDepth

  How deep a tree can be made to grow.  A node that grows by the cheap right-split leaves a
  node without entries behind it, so a run that inserts above everything a subtree holds, and
  then back down, makes a level of nodes from one id each.  A leaf that holds one row is enough:
  such a tree reaches the depth limit with some 22 million rows
  (`not_forall_lookupExact`), long before its page ids run out.

  `Spine` is a subtree whose right edge is full, `Chain` one that has a single leaf.  One insert
  above a spine hangs a chain next to it (`insert_below`), and a chain is filled up to a spine
  of the same level (`fillable`).
-/

import Kds.Storage.BtreeRuns

namespace Kds.Storage.Btree

open Lib List
open Function (update_self update_of_ne)

-- Rows a leaf holds one of

def wideRowSize : Nat := 5000

/-- A row so wide that a leaf holds one: the word of its id, and zeros. -/
def wideRow (id : Nat) : Bytes := storeLE keystoneWordSize id ++ List.replicate 4992 0

theorem length_wideRow (id : Nat) : (wideRow id).length = wideRowSize := by
  rw [wideRow, length_append, length_storeLE, length_replicate]
  rfl

variable {id : Nat}

theorem keyOf_wideRow (hid : id < idSpace) :
    load keystoneWordSize (wideRow id) 0 % 2 ^ 40 = id := by
  have hword : id < 256 ^ keystoneWordSize := Nat.lt_of_lt_of_le hid (by decide)
  rw [load, drop_zero, wideRow, take_left' (length_storeLE _ id), leNat_storeLE,
    Nat.mod_eq_of_lt hword]
  exact Nat.mod_eq_of_lt hid

theorem keystoneId_wideRow (hid : id < idSpace) : keystoneIdOfPayload (wideRow id) = .ok id := by
  rw [keystoneIdOfPayload, length_wideRow, if_neg (by decide), keyOf_wideRow hid]

theorem sizedAction_wideRow (s : BtreeState) (id : Nat) :
    SizedAction wideRowSize s (.insert id (wideRow id) 0 0) := ⟨trivial, length_wideRow id⟩

/-- A leaf with one row, and no room for another. -/
structure SingleLeaf (body : HeapPage) (x : Nat) : Prop where
  minKey : body.minKey ≤ x
  ids : liveIds body.slots = [x]
  slots : ∀ slot ∈ body.slots, SlotOk slot
  full : body.freeSpace < slotOnDiskSize + (tupleHeaderOnDiskSize + wideRowSize)

theorem insertTuple_wideRow {page : HeapPage} {id : Nat} (hid : id < idSpace)
    (hmin : page.minKey ≤ id) (hslots : page.slots = [])
      (hspace : page.freeSpace = emptyFreeSpace) :
    ∃ body, page.insertTuple (wideRow id) 0 noUndoPtr = .ok (body, 0) ∧ SingleLeaf body id := by
  have hroom : slotOnDiskSize + (tupleHeaderOnDiskSize + (wideRow id).length) ≤ page.freeSpace := by
    rw [length_wideRow, hspace]
    decide
  have hinsert := @insertTuple_of_room page (wideRow id) 0 noUndoPtr (Nat.zero_le _)
    (Nat.le_of_eq hspace) hroom
  rw [hslots] at hinsert
  refine ⟨_, hinsert, hmin, ?_, fun slot hslot => ?_, ?_⟩
  · show [load keystoneWordSize (wideRow id) 0 % 2 ^ 40] = [id]
    rw [keyOf_wideRow hid]
  · rw [mem_singleton.mp hslot]
    refine ⟨?_, Nat.le_refl _, Nat.zero_le _⟩
    show keystoneWordSize ≤ (wideRow id).length
    rw [length_wideRow]
    decide
  · show page.freeSpace - (slotOnDiskSize + (tupleHeaderOnDiskSize + (wideRow id).length)) < _
    rw [length_wideRow, hspace]
    decide

-- Subtrees

/-- A subtree of one leaf, with one node at each level above it. -/
def Chain (store : TreeStore) : Nat → PageId → Nat → Prop
  | 0, page, x => ∃ leaf, store.pages page = some (.leaf leaf) ∧ SingleLeaf leaf.body x
  | level + 1, page, x => ∃ node, store.pages page = some (.internal node) ∧
      node.level = level + 1 ∧ node.entries = [] ∧ Chain store level node.leftmostChild x

/-- A full node with no separator above `top`. -/
def FullNode (store : TreeStore) (page : PageId) (level top : Nat) (node : InternalPage) : Prop :=
  store.pages page = some (.internal node) ∧ node.level = level ∧
    node.entryCount = internalMaxEntries ∧ Ascending node.entries ∧ ∀ e ∈ node.entries, e.1 ≤ top

/-- A subtree whose right edge is full, with nothing above `top` in it. -/
def Spine (store : TreeStore) : Nat → PageId → Nat → Prop
  | 0, page, top => ∃ leaf x, store.pages page = some (.leaf leaf) ∧ SingleLeaf leaf.body x ∧
      x ≤ top
  | level + 1, page, top => ∃ node, FullNode store page (level + 1) top node ∧
      Spine store level (route node.leftmostChild node.entries top) top

/-- The leaves keep their bodies, and the nodes of the kept levels stay as they are. -/
structure Keeps (kept : Nat → Prop) (store store' : TreeStore) : Prop where
  leaves : ∀ page leaf, store.pages page = some (.leaf leaf) →
    ∃ leaf', store'.pages page = some (.leaf leaf') ∧ leaf'.body = leaf.body
  nodes : ∀ page node, store.pages page = some (.internal node) → kept node.level →
    store'.pages page = some (.internal node)

/-- Descending from `current`, a key passes the pages of a path, all above a level, and arrives
    at `target`. -/
def Leads (store : TreeStore) (level key : Nat) : List PageId → PageId → PageId → Prop
  | [], current, target => current = target
  | page :: rest, current, target => current = page ∧ ∃ node,
      store.pages page = some (.internal node) ∧ level < node.level ∧
      Leads store level key rest (node.childFor key) target

section Frames

variable {kept kept' : Nat → Prop} {store store' store'' : TreeStore}

theorem Keeps.trans (h : Keeps kept store store') (h' : Keeps kept store' store'') :
    Keeps kept store store'' := by
  refine ⟨fun page leaf hpage => ?_, fun page node hpage hlevel => ?_⟩
  · obtain ⟨leaf', hpage', hbody'⟩ := h.leaves page leaf hpage
    obtain ⟨leaf'', hpage'', hbody''⟩ := h'.leaves page leaf' hpage'
    exact ⟨leaf'', hpage'', hbody''.trans hbody'⟩
  · exact h'.nodes page node (h.nodes page node hpage hlevel) hlevel

theorem Keeps.imp (h : Keeps kept store store') (himp : ∀ level, kept' level → kept level) :
    Keeps kept' store store' :=
  ⟨h.leaves, fun page node hpage hlevel => h.nodes page node hpage (himp _ hlevel)⟩

theorem Keeps.put_fresh (halloc : Allocated store) (page : TreePage) :
    Keeps kept store (store.createNew.put store.nextPageId page) := by
  have hne : ∀ {id old}, store.pages id = some old →
      (store.createNew.put store.nextPageId page).pages id = some old := by
    intro id old hid
    exact (update_of_ne (Nat.ne_of_lt (halloc.lt hid)) _ _).trans hid
  exact ⟨fun id leaf hid => ⟨leaf, hne hid, rfl⟩, fun id node hid _ => hne hid⟩

theorem Allocated.put_fresh (halloc : Allocated store) (page : TreePage) :
    Allocated (store.createNew.put store.nextPageId page) := by
  intro id hid
  change store.nextPageId + 1 ≤ id at hid
  exact (update_of_ne (Nat.ne_of_gt hid) _ _).trans (halloc id (Nat.le_of_succ_le hid))

variable {level : Nat} {page : PageId} {path : List PageId}

theorem Chain.keeps (h : Keeps kept store store') (hkept : ∀ l, l ≤ level → kept l) {x : Nat}
    (hchain : Chain store level page x) : Chain store' level page x := by
  induction level generalizing page with
  | zero =>
    obtain ⟨leaf, hpage, hsingle⟩ := hchain
    obtain ⟨leaf', hpage', hbody⟩ := h.leaves page leaf hpage
    exact ⟨leaf', hpage', hbody ▸ hsingle⟩
  | succ level ih =>
    obtain ⟨node, hpage, hlevel, hnil, hrest⟩ := hchain
    refine ⟨node, h.nodes page node hpage ?_, hlevel, hnil,
      ih (fun l hl => hkept l (Nat.le_succ_of_le hl)) hrest⟩
    rw [hlevel]
    exact hkept _ (Nat.le_refl _)

theorem Spine.keeps (h : Keeps kept store store') (hkept : ∀ l, l ≤ level → kept l) {top : Nat}
    (hspine : Spine store level page top) : Spine store' level page top := by
  induction level generalizing page with
  | zero =>
    obtain ⟨leaf, x, hpage, hsingle, hx⟩ := hspine
    obtain ⟨leaf', hpage', hbody⟩ := h.leaves page leaf hpage
    exact ⟨leaf', x, hpage', hbody ▸ hsingle, hx⟩
  | succ level ih =>
    obtain ⟨node, ⟨hpage, hlevel, hfull⟩, hrest⟩ := hspine
    refine ⟨node, ⟨h.nodes page node hpage ?_, hlevel, hfull⟩,
      ih (fun l hl => hkept l (Nat.le_succ_of_le hl)) hrest⟩
    rw [hlevel]
    exact hkept _ (Nat.le_refl _)

theorem Leads.keeps (h : Keeps kept store store') {key : Nat} (hkept : ∀ l, level < l → kept l)
    {current target : PageId} (hlead : Leads store level key path current target) :
    Leads store' level key path current target := by
  induction path generalizing current with
  | nil => exact hlead
  | cons page rest ih =>
    obtain ⟨rfl, node, hpage, hlevel, hrest⟩ := hlead
    exact ⟨rfl, node, h.nodes _ node hpage (hkept _ hlevel), hlevel, ih hrest⟩

theorem Leads.snoc {level key : Nat} {path : List PageId} {current page : PageId}
    {node : InternalPage} (hlead : Leads store (level + 1) key path current page)
    (hpage : store.pages page = some (.internal node)) (hlevel : node.level = level + 1) :
    Leads store level key (path ++ [page]) current (node.childFor key) := by
  induction path generalizing current with
  | nil =>
    obtain rfl : current = page := hlead
    exact ⟨rfl, node, hpage, hlevel ▸ Nat.lt_succ_self level, rfl⟩
  | cons first rest ih =>
    obtain ⟨rfl, node', hfirst, hlt, hrest⟩ := hlead
    exact ⟨rfl, node', hfirst, Nat.lt_of_succ_lt hlt, ih hrest⟩

theorem descendFrom_leads {key : Nat} {current target : PageId}
    (hlead : Leads store level key path current target) {fuel : Nat} {descent : Descent}
    (hdescend : descendFrom store key fuel target = .ok descent) :
    descendFrom store key (fuel + path.length) current =
      .ok { descent with path := path ++ descent.path } := by
  induction path generalizing current with
  | nil =>
    obtain rfl : current = target := hlead
    exact hdescend
  | cons page rest ih =>
    obtain ⟨rfl, node, hpage, -, hrest⟩ := hlead
    rw [length_cons, ← Nat.add_assoc, descendFrom, TreeStore.get, hpage]
    dsimp only
    rw [ih hrest]
    rfl

end Frames

-- One insert above a spine

/-- Full nodes, one a level, from the level above `level` up. -/
def FullPath (store : TreeStore) (top : Nat) : Nat → List PageId → Prop
  | _, [] => True
  | level, page :: rest => (∃ node, FullNode store page (level + 1) top node) ∧
      FullPath store top (level + 1) rest

section OneInsert

variable {store store' : TreeStore}

theorem FullPath.snoc {top level : Nat} {path : List PageId} {page : PageId} {node : InternalPage}
    (h : FullPath store top level path)
    (hnode : FullNode store page (level + path.length + 1) top node) :
    FullPath store top level (path ++ [page]) := by
  induction path generalizing level with
  | nil => exact ⟨⟨node, hnode⟩, trivial⟩
  | cons first rest ih =>
    rw [length_cons] at hnode
    refine ⟨h.1, ih h.2 ?_⟩
    rwa [Nat.add_right_comm level 1]

theorem FullPath.keeps (h : Keeps (fun _ => True) store store') {top level : Nat}
    {path : List PageId} (hpath : FullPath store top level path) :
    FullPath store' top level path := by
  induction path generalizing level with
  | nil => trivial
  | cons page rest ih =>
    obtain ⟨⟨node, hpage, hfull⟩, hrest⟩ := hpath
    exact ⟨⟨node, h.nodes page node hpage trivial, hfull⟩, ih hrest⟩

theorem Spine.descends {level : Nat} {page : PageId} {top : Nat}
    (h : Spine store level page top) : ∃ nodes leafId leaf x,
      (∀ key fuel, top < key → level < fuel →
        descendFrom store key fuel page = .ok ⟨nodes, leafId, leaf⟩) ∧
      store.pages leafId = some (.leaf leaf) ∧ SingleLeaf leaf.body x ∧ x ≤ top ∧
      nodes.length = level ∧ FullPath store top 0 nodes.reverse := by
  induction level generalizing page with
  | zero =>
    obtain ⟨leaf, x, hpage, hsingle, hx⟩ := h
    refine ⟨[], page, leaf, x, fun key fuel _ hfuel => ?_, hpage, hsingle, hx, rfl, trivial⟩
    obtain ⟨fuel, rfl⟩ := Nat.exists_eq_succ_of_ne_zero (Nat.ne_of_gt hfuel)
    rw [descendFrom, TreeStore.get, hpage]
  | succ level ih =>
    obtain ⟨node, hfull, hrest⟩ := h
    obtain ⟨hpage, -, -, hsorted, hle⟩ := id hfull
    obtain ⟨nodes, leafId, leaf, x, hdescend, hleaf, hsingle, hx, hlength, hpath⟩ := ih hrest
    refine ⟨page :: nodes, leafId, leaf, x, fun key fuel hkey hfuel => ?_, hleaf, hsingle, hx,
      congrArg Nat.succ hlength, ?_⟩
    · obtain ⟨fuel, rfl⟩ := Nat.exists_eq_succ_of_ne_zero (Nat.ne_of_gt (Nat.zero_lt_of_lt hfuel))
      have hchild : node.childFor key = route node.leftmostChild node.entries top :=
        (InternalPage.childFor_eq_route hsorted key).trans
          (route_of_all_le (fun e he => Nat.le_trans (hle e he) (Nat.le_of_lt hkey)) hle)
      rw [descendFrom, TreeStore.get, hpage]
      dsimp only
      rw [hchild, hdescend key fuel hkey (Nat.lt_of_succ_lt_succ hfuel)]
    · rw [reverse_cons]
      refine @FullPath.snoc _ _ _ _ _ node hpath ?_
      rw [length_reverse, hlength, Nat.zero_add]
      exact hfull

theorem promoteSeparator_full {top sep oldRoot ownerOid : Nat} (hsep : top < sep)
    (rest nodes : List PageId) : ∀ (level : Nat) (child : PageId) (store : TreeStore)
      (out : InsertPlacement), Allocated store → FullPath store top level nodes →
      Chain store level child sep →
      ∃ store' child' out',
        promoteSeparator store oldRoot ownerOid (nodes ++ rest) level sep child out =
          promoteSeparator store' oldRoot ownerOid rest (level + nodes.length) sep child' out' ∧
        Chain store' (level + nodes.length) child' sep ∧ Keeps (fun _ => True) store store' ∧
        Allocated store' ∧ out'.newRoot = out.newRoot := by
  induction nodes with
  | nil =>
    intro level child store out halloc _ hchain
    exact ⟨store, child, out, rfl, hchain, ⟨fun _ leaf hleaf => ⟨leaf, hleaf, rfl⟩,
      fun _ _ hnode _ => hnode⟩, halloc, rfl⟩
  | cons page nodes ih =>
    intro level child store out halloc hpath hchain
    obtain ⟨⟨node, hpage, hlevel, hcount, hsorted, hle⟩, hpath⟩ := hpath
    have hfull : node.isFull = true := decide_eq_true (Nat.le_of_eq hcount.symm)
    have habove : node.separatorAboveEveryEntry sep = true :=
      (InternalPage.separatorAboveEveryEntry_iff hsorted sep).mpr
        (fun e he => Nat.le_trans (hle e he) (Nat.le_of_lt hsep))
    obtain ⟨fresh, hfresh⟩ : ∃ fresh : InternalPage, fresh =
      ⟨node.level, child, [], ownerOid⟩ := ⟨_, rfl⟩
    have hkeeps := @Keeps.put_fresh (fun _ => True) store halloc (.internal fresh)
    have hself : (store.createNew.put store.nextPageId (.internal fresh)).pages
        store.nextPageId = some (.internal fresh) := update_self _ _ _
    have hchild : fresh.leftmostChild = child := congrArg InternalPage.leftmostChild hfresh
    have hbelow := hchain.keeps hkeeps (fun _ _ => trivial)
    have hchain' : Chain (store.createNew.put store.nextPageId (.internal fresh)) (level + 1)
        store.nextPageId sep :=
      ⟨fresh, hself, (congrArg InternalPage.level hfresh).trans hlevel,
        congrArg InternalPage.entries hfresh, hchild.symm ▸ hbelow⟩
    obtain ⟨store', child', out', heq, hend, hkeeps', halloc', hout⟩ :=
      ih (level + 1) store.nextPageId _ (out.record { pageId := store.nextPageId })
        (halloc.put_fresh _) (hpath.keeps hkeeps) hchain'
    rw [Nat.add_right_comm] at heq hend
    refine ⟨store', child', out', ?_, hend, hkeeps.trans hkeeps', halloc', hout⟩
    rw [cons_append, promoteSeparator, TreeStore.get, hpage]
    dsimp only
    rw [if_neg (not_not.mpr hfull), if_pos habove, InternalPage.createEmpty,
      if_neg (by rw [hlevel]; exact Nat.succ_ne_zero level)]
    dsimp only
    rw [← hfresh, hlevel]
    exact heq

variable {descent : Descent}

theorem btreeInsert_append {root : Nat} (halloc : Allocated store)
    (hdescend : descendTo store root id = .ok descent)
    (hpage : store.pages descent.leafId = some (.leaf descent.leaf))
    (hmin : descent.leaf.body.minKey ≤ id)
    (hids : ∀ other ∈ liveIds descent.leaf.body.slots, other < id)
    (hslots : ∀ slot ∈ descent.leaf.body.slots, SlotOk slot) (hroom : descent.leaf.body.freeSpace <
      slotOnDiskSize + (tupleHeaderOnDiskSize + wideRowSize)) (hid : id < idSpace) :
    ∃ store' out, btreeInsert store root id (wideRow id) 0 0 =
        promoteSeparator store' root 0 descent.path.reverse 0 id store.nextPageId out ∧
      Chain store' 0 store.nextPageId id ∧ Keeps (fun _ => True) store store' ∧
      Allocated store' ∧ out.newRoot = none ∧ store'.pages descent.leafId =
        some (.leaf { descent.leaf with nextPageId := some store.nextPageId }) := by
  have hmax : id ≤ maxTupleId := Nat.le_sub_one_of_lt hid
  have hdup : checkDuplicate descent.leafId id descent.leaf.body.slots 0 = .ok () := by
    rw [checkDuplicate_ok_iff hslots]
    exact fun hmem => Nat.lt_irrefl id (hids id hmem)
  obtain ⟨maxId, hmaxId, -, -, hmem⟩ := maxLiveIdFrom_spec hslots 0
  have hbelow : ¬id < maxId := by
    rcases hmem with rfl | hmem
    · exact Nat.not_lt_zero id
    · exact Nat.not_lt.mpr (Nat.le_of_lt (hids maxId hmem))
  have hfull : descent.leaf.body.insertTuple (wideRow id) 0 noUndoPtr =
      .error (.outOfSpace "heap page has no room for this tuple") := by
    rw [HeapPage.insertTuple, length_wideRow, if_neg (by decide), if_neg (by decide)]
    dsimp only
    rw [if_pos (by rw [Nat.add_assoc]; exact hroom)]
  obtain ⟨body, hinsert, hnew⟩ := @insertTuple_wideRow ⟨id, [], emptyFreeSpace⟩ id hid
    (Nat.le_refl _) rfl rfl
  obtain ⟨newLeaf, hnewLeaf⟩ : ∃ newLeaf : LeafPage, newLeaf =
    ⟨body, descent.leaf.nextPageId, 0, 0⟩ := ⟨_, rfl⟩
  obtain ⟨out, hout⟩ : ∃ out : InsertPlacement, out =
    (({ pageId := store.nextPageId, slot := 0 } : InsertPlacement).record
      { pageId := store.nextPageId, isNewPage := true, minKey := id }).record
      { pageId := descent.leafId } := ⟨_, rfl⟩
  have hlt := halloc.lt hpage
  have hkeeps := @Keeps.put_fresh (fun _ => True) store halloc (.leaf newLeaf)
  refine ⟨(store.createNew.put store.nextPageId (.leaf newLeaf)).put descent.leafId
      (.leaf { descent.leaf with nextPageId := some store.nextPageId }), out, ?_, ?_, ?_, ?_, ?_,
      update_self _ _ _⟩
  rotate_left
  · refine ⟨newLeaf, (update_of_ne (Nat.ne_of_gt hlt) _ _).trans
      (update_self _ _ _), ?_⟩
    rw [hnewLeaf]
    exact hnew
  · refine ⟨fun page leaf hleaf => ?_, fun page node hnode _ => ?_⟩
    · by_cases heq : page = descent.leafId
      · subst heq
        rw [hpage] at hleaf
        cases hleaf
        exact ⟨_, update_self _ _ _, rfl⟩
      · obtain ⟨leaf', hleaf', hbody⟩ := hkeeps.leaves page leaf hleaf
        exact ⟨leaf', (update_of_ne heq _ _).trans hleaf', hbody⟩
    · refine (update_of_ne ?_ _ _).trans (hkeeps.nodes page node hnode trivial)
      rintro rfl
      rw [hpage] at hnode
      cases hnode
  · exact (halloc.put_fresh _).put (Nat.lt_succ_of_lt hlt) _
  · rw [hout]
    rfl
  · rw [btreeInsert, keystoneId_wideRow hid]
    dsimp only
    rw [if_neg (not_not.mpr rfl), hdescend]
    dsimp only
    rw [if_neg (Nat.not_lt.mpr hmin), hdup, hfull]
    dsimp only
    have hcode :
        (Status.outOfSpace "heap page has no room for this tuple").code = .outOfSpace := rfl
    rw [if_neg (not_not.mpr hcode), maxLiveId, hmaxId]
    dsimp only
    rw [if_neg hbelow, appendLeafAndInsert, LeafPage.createEmptyAs, if_neg (Nat.not_lt.mpr hmax)]
    dsimp only
    rw [hinsert, hnewLeaf, hout]

theorem btreeInsert_single {root x : Nat} (halloc : Allocated store)
    (hdescend : descendTo store root id = .ok descent)
    (hpage : store.pages descent.leafId = some (.leaf descent.leaf))
    (hsingle : SingleLeaf descent.leaf.body x) (hx : x < id) (hid : id < idSpace) :
    ∃ store' out, btreeInsert store root id (wideRow id) 0 0 =
        promoteSeparator store' root 0 descent.path.reverse 0 id store.nextPageId out ∧
      Chain store' 0 store.nextPageId id ∧ Keeps (fun _ => True) store store' ∧
      Allocated store' ∧ out.newRoot = none := by
  obtain ⟨store', out, heq, hchain, hkeeps, halloc', hout, -⟩ := btreeInsert_append halloc hdescend
    hpage (Nat.le_trans hsingle.minKey (Nat.le_of_lt hx)) (fun other hother => by
      rw [hsingle.ids] at hother
      rwa [mem_singleton.mp hother]) hsingle.slots hsingle.full hid
  exact ⟨store', out, heq, hchain, hkeeps, halloc', hout⟩

end OneInsert

-- Filling a chain

section Filling

variable {root ownerOid : Nat} {s s' : BtreeState}

/-- Runs of wide rows. -/
abbrev WideRun : BtreeState → BtreeState → Prop :=
  Reach BtreeState.step (SizedAction wideRowSize)

theorem allocated_of_wideRun (h : WideRun (.format root ownerOid) s) : Allocated s.store := by
  obtain ⟨_, _, hinv, -⟩ := reach_inv h
  exact hinv.alloc

theorem step_insert_ok {store : TreeStore} {out : InsertPlacement}
    (h : btreeInsert s.store s.root id (wideRow id) 0 0 = (store, .ok out)) :
    WideRun s { s with
      store := store
      root := out.newRoot.getD s.root
      inserted := id :: s.inserted } := by
  refine .single ⟨.insert id (wideRow id) 0 0, sizedAction_wideRow s id, ?_⟩
  rw [BtreeState.step, h]

variable {node : InternalPage} {path : List PageId}

/-- **A key above a spine hangs a chain next to it**: the node above the spine has room, and
    its separators are above the key. -/
theorem insert_below (hrun : WideRun (.format root ownerOid) s) {level top : Nat} {page : PageId}
    (hpage : s.store.pages page = some (.internal node)) (hlevel : node.level = level + 1)
    (hsorted : Ascending node.entries) (habove : ∀ e ∈ node.entries, id < e.1)
    (hroom : node.entryCount < internalMaxEntries)
    (hspine : Spine s.store level node.leftmostChild top) (htop : top < id) (hid : id < idSpace)
    (hlead : Leads s.store (level + 1) id path s.root page)
    (hdepth : path.length + (level + 1) < maxBtreeDepth) :
    ∃ s' child, WideRun s s' ∧ s'.root = s.root ∧ Keeps (· ≠ level + 1) s.store s'.store ∧
      s'.store.pages page = some (.internal { node with entries := (id, child) :: node.entries }) ∧
      Chain s'.store level child id := by
  have halloc := allocated_of_wideRun hrun
  obtain ⟨nodes, leafId, leaf, x, hdescend, hleaf, hsingle, hx, hlength, hpath⟩ :=
    hspine.descends
  have hroute : node.childFor id = node.leftmostChild :=
    (InternalPage.childFor_eq_route hsorted id).trans (route_of_all_gt habove)
  have hlead' := hlead.snoc hpage hlevel
  rw [hroute] at hlead'
  obtain ⟨fuel, hfuel⟩ : ∃ fuel, maxBtreeDepth = fuel + (path ++ [page]).length := by
    rw [length_append, length_singleton]
    exact ⟨maxBtreeDepth - (path.length + 1), by omega⟩
  have hbelow : level < fuel := by
    rw [length_append, length_singleton] at hfuel
    omega
  have hto : descendTo s.store s.root id =
      .ok { path := path ++ [page] ++ nodes, leafId := leafId, leaf := leaf } := by
    rw [descendTo, hfuel, descendFrom_leads hlead' (hdescend id fuel htop hbelow)]
  obtain ⟨store₁, out₁, heq₁, hchain₁, hkeeps₁, halloc₁, hout₁⟩ :=
    btreeInsert_single halloc hto hleaf hsingle (Nat.lt_of_le_of_lt hx htop) hid
  obtain ⟨store₂, child, out₂, heq₂, hchain₂, hkeeps₂, halloc₂, hout₂⟩ :=
    @promoteSeparator_full top id s.root 0 htop (page :: path.reverse) nodes.reverse 0 _ store₁
      out₁ halloc₁ (hpath.keeps hkeeps₁) hchain₁
  rw [length_reverse, hlength, Nat.zero_add] at heq₂ hchain₂
  have hkeeps := hkeeps₁.trans hkeeps₂
  have hpage₂ := hkeeps.nodes page node hpage trivial
  obtain ⟨store₃, hstore₃⟩ : ∃ store₃, store₃ = store₂.put page
    (.internal { node with entries := (id, child) :: node.entries }) := ⟨_, rfl⟩
  have hinsert : btreeInsert s.store s.root id (wideRow id) 0 0 =
      (store₃, .ok (out₂.record { pageId := page })) := by
    rw [heq₁]
    show promoteSeparator store₁ s.root 0 (path ++ [page] ++ nodes).reverse 0 id _ out₁ = _
    rw [reverse_append, reverse_append, reverse_singleton, singleton_append,
      heq₂, promoteSeparator, TreeStore.get, hpage₂]
    dsimp only
    rw [if_pos (by rw [InternalPage.isFull]; simpa using hroom),
      InternalPage.insertEntry_of_new hsorted child (Nat.le_sub_one_of_lt hid) hroom
        (fun e he => Nat.ne_of_gt (habove e he)), insertSep_of_all_gt habove, hstore₃]
  have hput : Keeps (· ≠ level + 1) store₂ store₃ := by
    rw [hstore₃]
    refine ⟨fun id leaf hid => ⟨leaf, (update_of_ne ?_ _ _).trans hid, rfl⟩,
      fun id other hid hother => (update_of_ne ?_ _ _).trans hid⟩
    · rintro rfl
      rw [hpage₂] at hid
      cases hid
    · rintro rfl
      rw [hpage₂] at hid
      cases hid
      exact hother hlevel
  refine ⟨_, child, step_insert_ok hinsert, ?_, (hkeeps.imp (fun _ _ => trivial)).trans hput, ?_,
    hchain₂.keeps hput (fun l hl => Nat.ne_of_lt (Nat.lt_succ_of_le hl))⟩
  · show (out₂.record { pageId := page }).newRoot.getD s.root = s.root
    rw [show (out₂.record { pageId := page }).newRoot = out₂.newRoot from rfl, hout₂, hout₁]
    rfl
  · show store₃.pages page = _
    rw [hstore₃]
    exact update_self _ _ _

theorem insert_above_root (hrun : WideRun (.format root ownerOid) s) {level top id : Nat}
    (hspine : Spine s.store level s.root top) (htop : top < id) (hid : id < idSpace)
    (hdepth : level < maxBtreeDepth) :
    ∃ s' child, WideRun s s' ∧ Keeps (fun _ => True) s.store s'.store ∧
      s'.store.pages s'.root = some (.internal ⟨level + 1, s.root, [(id, child)], 0⟩) ∧
      Chain s'.store level child id ∧ id ∈ s'.inserted := by
  have halloc := allocated_of_wideRun hrun
  obtain ⟨nodes, leafId, leaf, x, hdescend, hleaf, hsingle, hx, hlength, hpath⟩ :=
    hspine.descends
  obtain ⟨store₁, out₁, heq₁, hchain₁, hkeeps₁, halloc₁, hout₁⟩ :=
    btreeInsert_single halloc (hdescend id maxBtreeDepth htop hdepth) hleaf hsingle
      (Nat.lt_of_le_of_lt hx htop) hid
  obtain ⟨store₂, child, out₂, heq₂, hchain₂, hkeeps₂, halloc₂, hout₂⟩ :=
    @promoteSeparator_full top id s.root 0 htop [] nodes.reverse 0 _ store₁ out₁ halloc₁
      (hpath.keeps hkeeps₁) hchain₁
  rw [length_reverse, hlength, Nat.zero_add] at heq₂ hchain₂
  obtain ⟨newRoot, hnewRoot⟩ : ∃ newRoot : InternalPage, newRoot =
    ⟨level + 1, s.root, [(id, child)], 0⟩ := ⟨_, rfl⟩
  have hkeeps := @Keeps.put_fresh (fun _ => True) store₂ halloc₂ (.internal newRoot)
  have hinsert : btreeInsert s.store s.root id (wideRow id) 0 0 =
      (store₂.createNew.put store₂.nextPageId (.internal newRoot),
        .ok { out₂.record { pageId := store₂.nextPageId } with
          newRoot := some store₂.nextPageId }) := by
    have hroom : (0 : Nat) < internalMaxEntries := by decide
    have hempty : (InternalPage.mk (level + 1) s.root [] 0).insertEntry id child =
        .ok ⟨level + 1, s.root, [(id, child)], 0⟩ :=
      @InternalPage.insertEntry_of_new ⟨level + 1, s.root, [], 0⟩ List.Pairwise.nil id child
        (Nat.le_sub_one_of_lt hid) hroom (fun e he => absurd he not_mem_nil)
    rw [heq₁, ← append_nil nodes.reverse, heq₂, promoteSeparator, InternalPage.createEmpty,
      if_neg (Nat.succ_ne_zero level), Except.bind, hempty, hnewRoot]
  refine ⟨_, child, step_insert_ok hinsert, (hkeeps₁.trans hkeeps₂).trans hkeeps, ?_,
    hchain₂.keeps hkeeps (fun _ _ => trivial), mem_cons_self⟩
  rw [← hnewRoot]
  exact update_self _ _ _

theorem widen (hrun : WideRun (.format root ownerOid) s) {level top : Nat} {page : PageId}
    {path : List PageId} (count : Nat) {node : InternalPage}
    (hpage : s.store.pages page = some (.internal node)) (hlevel : node.level = level + 1)
    (hsorted : Ascending node.entries) (habove : ∀ e ∈ node.entries, top + count < e.1)
    (hroom : node.entryCount + count ≤ internalMaxEntries)
    (hspine : Spine s.store level node.leftmostChild top) (hid : top + count < idSpace)
    (hlead : ∀ key, top < key → key ≤ top + count → Leads s.store (level + 1) key path s.root page)
    (hdepth : path.length + (level + 1) < maxBtreeDepth) :
    ∃ s' front, WideRun s s' ∧ s'.root = s.root ∧ Keeps (· ≠ level + 1) s.store s'.store ∧
      s'.store.pages page = some (.internal { node with entries := front ++ node.entries }) ∧
      front.length = count ∧ Ascending (front ++ node.entries) ∧
      ∀ e ∈ front, e.1 ≤ top + count := by
  induction count generalizing s node with
  | zero =>
    exact ⟨s, [], .refl, rfl, ⟨fun _ leaf hleaf => ⟨leaf, hleaf, rfl⟩, fun _ _ hnode _ => hnode⟩,
      hpage, rfl, hsorted, fun e he => absurd he not_mem_nil⟩
  | succ count ih =>
    obtain ⟨s₁, child, hrun₁, hroot₁, hkeeps₁, hpage₁, -⟩ := insert_below hrun hpage hlevel hsorted
      habove (by omega) hspine (Nat.lt_add_of_pos_right (Nat.succ_pos count)) hid
      (hlead _ (Nat.lt_add_of_pos_right (Nat.succ_pos count)) (Nat.le_refl _)) hdepth
    have hsorted₁ : Ascending ((top + (count + 1), child) :: node.entries) :=
      ascending_cons.mpr ⟨habove, hsorted⟩
    have habove₁ : ∀ e ∈ (top + (count + 1), child) :: node.entries, top + count < e.1 := by
      intro e he
      rcases mem_cons.mp he with rfl | he
      · exact Nat.lt_succ_self (top + count)
      · exact Nat.lt_of_succ_lt (habove e he)
    have hroom₁ : (node.entries.length + 1) + count ≤ internalMaxEntries := by
      rw [InternalPage.entryCount] at hroom
      omega
    obtain ⟨s₂, front, hrun₂, hroot₂, hkeeps₂, hpage₂, hcount₂, hsorted₂, hle₂⟩ :=
      @ih s₁ (hrun.trans hrun₁) { node with entries := (top + (count + 1), child) :: node.entries }
        hpage₁ hlevel hsorted₁ habove₁ hroom₁
        (hspine.keeps hkeeps₁ (fun l hl => Nat.ne_of_lt (Nat.lt_succ_of_le hl)))
        (Nat.lt_of_succ_lt hid)
        (fun key hlo hhi => by
          rw [hroot₁]
          exact (hlead key hlo (Nat.le_succ_of_le hhi)).keeps hkeeps₁ (fun l hl => Nat.ne_of_gt hl))
    refine ⟨s₂, front ++ [(top + (count + 1), child)], hrun₁.trans hrun₂, hroot₂.trans hroot₁,
      hkeeps₁.trans hkeeps₂, ?_, ?_, ?_, fun e he => ?_⟩
    · rw [hpage₂, append_assoc]
      rfl
    · rw [length_append, hcount₂]
      rfl
    · rw [append_assoc]
      exact hsorted₂
    · rcases Lib.mem_snoc.mp he with he | rfl
      · exact Nat.le_succ_of_le (hle₂ e he)
      · rfl

/-- How far above a chain's id the ids go that fill it. -/
def width : Nat → Nat
  | 0 => 0
  | level + 1 => width level + internalMaxEntries + width level

/-- A chain of the level can be filled up to a spine, wherever it hangs. -/
def Fillable (root ownerOid level : Nat) : Prop :=
  ∀ (s : BtreeState) (x : Nat) (path : List PageId) (page : PageId),
    WideRun (.format root ownerOid) s → Chain s.store level page x →
    (∀ key, x ≤ key → key ≤ x + width level → Leads s.store level key path s.root page) →
    path.length + level < maxBtreeDepth → x + width level < idSpace →
    ∃ s', WideRun s s' ∧ s'.root = s.root ∧ Keeps (level < ·) s.store s'.store ∧
      Spine s'.store level page (x + width level)

/-- A node with a spine on its left and a chain on its right is filled: the room between them,
    then the chain. -/
theorem fill_node {level : Nat} (hfill : Fillable root ownerOid level)
    (hrun : WideRun (.format root ownerOid) s) {top : Nat} {page child : PageId}
    (hpage : s.store.pages page = some (.internal node)) (hlevel : node.level = level + 1)
    (hentries : node.entries = [(top + internalMaxEntries, child)])
    (hspine : Spine s.store level node.leftmostChild top)
    (hchain : Chain s.store level child (top + internalMaxEntries))
    (hid : top + internalMaxEntries + width level < idSpace)
    (hlead : ∀ key, top < key → key ≤ top + internalMaxEntries + width level →
      Leads s.store (level + 1) key path s.root page)
    (hdepth : path.length + (level + 1) < maxBtreeDepth) :
    ∃ s', WideRun s s' ∧ s'.root = s.root ∧ Keeps (level + 1 < ·) s.store s'.store ∧
      Spine s'.store (level + 1) page (top + internalMaxEntries + width level) := by
  have hmax : internalMaxEntries = 677 + 1 := rfl
  have hlast : ∀ e ∈ node.entries, e.1 = top + internalMaxEntries := by
    intro e he
    rw [hentries] at he
    rw [mem_singleton.mp he]
  obtain ⟨s₁, front, hrun₁, hroot₁, hkeeps₁, hpage₁, hcount₁, hsorted₁, hle₁⟩ := widen hrun 677
    hpage hlevel (by rw [hentries]; exact pairwise_singleton _ _)
    (fun e he => by rw [hlast e he, hmax]; omega)
    (by rw [InternalPage.entryCount, hentries, hmax]; exact Nat.le_refl _) hspine (by omega)
    (fun key hlo hhi => hlead key hlo (by omega)) hdepth
  rw [hentries] at hpage₁ hsorted₁
  have hall : ∀ e ∈ front ++ [(top + internalMaxEntries, child)],
      e.1 ≤ top + internalMaxEntries := by
    intro e he
    rcases Lib.mem_snoc.mp he with he | rfl
    · exact Nat.le_trans (hle₁ e he) (by omega)
    · rfl
  -- The last child takes every id from its separator up.
  have hroute : ∀ key, top + internalMaxEntries ≤ key → route node.leftmostChild
      (front ++ [(top + internalMaxEntries, child)]) key = child := by
    intro key hkey
    exact route_concat (fun e he => Nat.le_trans (hall e (mem_append.mpr (.inl he))) hkey) hkey
  obtain ⟨s₂, hrun₂, hroot₂, hkeeps₂, hspine₂⟩ := hfill s₁ (top + internalMaxEntries)
    (path ++ [page]) child (hrun.trans hrun₁)
    (hchain.keeps hkeeps₁ (fun l hl => Nat.ne_of_lt (Nat.lt_succ_of_le hl)))
    (fun key hlo hhi => by
      have hlead₁ := (hlead key (by omega) hhi).keeps hkeeps₁ (fun l hl => Nat.ne_of_gt hl)
      rw [← hroot₁] at hlead₁
      have hsnoc := hlead₁.snoc hpage₁ hlevel
      rw [@InternalPage.childFor_eq_route { node with
        entries := front ++ [(top + internalMaxEntries, child)] } hsorted₁ key] at hsnoc
      rwa [hroute key hlo] at hsnoc)
    (by rw [length_append, length_singleton]; omega) hid
  refine ⟨s₂, hrun₁.trans hrun₂, hroot₂.trans hroot₁,
    (hkeeps₁.imp (fun l hl => Nat.ne_of_gt hl)).trans
      (hkeeps₂.imp (fun l hl => Nat.lt_of_succ_lt hl)),
    { node with entries := front ++ [(top + internalMaxEntries, child)] },
    ⟨hkeeps₂.nodes page _ hpage₁ (hlevel ▸ Nat.lt_succ_self level), hlevel, ?_, hsorted₁,
      fun e he => Nat.le_trans (hall e he) (Nat.le_add_right _ _)⟩, ?_⟩
  · rw [InternalPage.entryCount, length_append, hcount₁]
    rfl
  · show Spine s₂.store level (route node.leftmostChild _ _) _
    rw [hroute _ (Nat.le_add_right _ _)]
    exact hspine₂

theorem fillable (root ownerOid level : Nat) : Fillable root ownerOid level := by
  induction level with
  | zero =>
    intro s x path page _ hchain _ _ _
    obtain ⟨leaf, hpage, hsingle⟩ := hchain
    exact ⟨s, .refl, rfl, ⟨fun _ leaf hleaf => ⟨leaf, hleaf, rfl⟩, fun _ _ hnode _ => hnode⟩,
      leaf, x, hpage, hsingle, Nat.le_add_right x _⟩
  | succ level ih =>
    intro s x path page hrun hchain hlead hdepth hid
    obtain ⟨node, hpage, hlevel, hnil, hchild⟩ := hchain
    have hwidth : x + width (level + 1) = x + width level + internalMaxEntries + width level := by
      rw [width, ← Nat.add_assoc, ← Nat.add_assoc]
    rw [hwidth] at hlead hid ⊢
    have hnode : ∀ key, node.childFor key = node.leftmostChild := by
      intro key
      have hsorted : Ascending node.entries := by rw [hnil]; exact List.Pairwise.nil
      rw [InternalPage.childFor_eq_route hsorted, hnil, route]
    -- First the chain below the node.
    obtain ⟨s₁, hrun₁, hroot₁, hkeeps₁, hspine₁⟩ := ih s x (path ++ [page]) node.leftmostChild
      hrun hchild
      (fun key hlo hhi => by
        have hsnoc := (hlead key hlo (by omega)).snoc hpage hlevel
        rwa [hnode key] at hsnoc)
      (by rw [length_append, length_singleton]; omega) (by omega)
    have hpage₁ := hkeeps₁.nodes page node hpage (hlevel ▸ Nat.lt_succ_self level)
    have hlead₁ : ∀ key, x ≤ key → key ≤ x + width level + internalMaxEntries + width level →
        Leads s₁.store (level + 1) key path s₁.root page := by
      intro key hlo hhi
      rw [hroot₁]
      exact (hlead key hlo hhi).keeps hkeeps₁ (fun l hl => Nat.lt_of_succ_lt hl)
    -- Then one id above it, and what is between.
    obtain ⟨s₂, child, hrun₂, hroot₂, hkeeps₂, hpage₂, hchain₂⟩ := insert_below
      (hrun.trans hrun₁) hpage₁ hlevel (by rw [hnil]; exact List.Pairwise.nil)
      (fun e he => absurd (hnil ▸ he) not_mem_nil)
      (by rw [InternalPage.entryCount, hnil]; decide) hspine₁
      (Nat.lt_add_of_pos_right (show 0 < internalMaxEntries by decide)) (by omega)
      (hlead₁ _ (by omega) (by omega)) hdepth
    rw [hnil] at hpage₂
    obtain ⟨s₃, hrun₃, hroot₃, hkeeps₃, hspine₃⟩ := fill_node ih
      ((hrun.trans hrun₁).trans hrun₂) hpage₂ hlevel rfl
      (hspine₁.keeps hkeeps₂ (fun l hl => Nat.ne_of_lt (Nat.lt_succ_of_le hl))) hchain₂ hid
      (fun key hlo hhi => by
        rw [hroot₂]
        exact (hlead₁ key (by omega) hhi).keeps hkeeps₂ (fun l hl => Nat.ne_of_gt hl)) hdepth
    exact ⟨s₃, (hrun₁.trans hrun₂).trans hrun₃, (hroot₃.trans hroot₂).trans hroot₁,
      ((hkeeps₁.imp (fun l hl => Nat.lt_of_succ_lt hl)).trans
        (hkeeps₂.imp (fun l hl => Nat.ne_of_gt hl))).trans hkeeps₃, hspine₃⟩

theorem spine_reachable (root ownerOid : Nat) {level : Nat} (hlevel : level < maxBtreeDepth)
    (hid : width level < idSpace) :
    ∃ s, WideRun (.format root ownerOid) s ∧ Spine s.store level s.root (width level) := by
  induction level with
  | zero =>
    have hpage : (BtreeState.format root ownerOid).store.pages root = some (.leaf
        ⟨⟨0, [], emptyFreeSpace⟩, none, 0, ownerOid⟩) := if_pos rfl
    have hdescend : descendTo (BtreeState.format root ownerOid).store root 0 =
        .ok ⟨[], root, ⟨⟨0, [], emptyFreeSpace⟩, none, 0, ownerOid⟩⟩ := by
      rw [descendTo, maxBtreeDepth, descendFrom, TreeStore.get, hpage]
    obtain ⟨body, hinsert, hsingle⟩ := @insertTuple_wideRow ⟨0, [], emptyFreeSpace⟩ 0 (by decide)
      (Nat.le_refl _) rfl rfl
    have hrow : btreeInsert (BtreeState.format root ownerOid).store root 0 (wideRow 0) 0 0 =
        ((BtreeState.format root ownerOid).store.put root (.leaf ⟨body, none, 0, ownerOid⟩),
          .ok { pageId := root, slot := 0 }) := by
      rw [btreeInsert, keystoneId_wideRow (by decide)]
      dsimp only
      rw [if_neg (not_not.mpr rfl), hdescend]
      dsimp only
      rw [if_neg (Nat.not_lt_zero 0), checkDuplicate, hinsert]
    exact ⟨_, step_insert_ok hrow, _, 0, update_self _ _ _, hsingle, Nat.le_refl _⟩
  | succ level ih =>
    rw [width] at hid
    obtain ⟨s₁, hrun₁, hspine₁⟩ := ih (Nat.lt_of_succ_lt hlevel) (by omega)
    obtain ⟨s₂, child, hrun₂, hkeeps₂, hpage₂, hchain₂, -⟩ := insert_above_root hrun₁ hspine₁
      (Nat.lt_add_of_pos_right (show 0 < internalMaxEntries by decide)) (by omega)
      (Nat.lt_of_succ_lt hlevel)
    have hlead : ∀ key, Leads s₂.store (level + 1) key [] s₂.root s₂.root := fun _ => rfl
    obtain ⟨s₃, hrun₃, hroot₃, -, hspine₃⟩ := fill_node (fillable root ownerOid level)
      (hrun₁.trans hrun₂) hpage₂ rfl rfl (hspine₁.keeps hkeeps₂ (fun _ _ => trivial)) hchain₂ hid
      (fun key _ _ => hlead key)
      (by rw [length_nil, Nat.zero_add]; exact hlevel)
    exact ⟨s₃, (hrun₁.trans hrun₂).trans hrun₃, hroot₃ ▸ hspine₃⟩

end Filling

/-- The tree outgrows the depth a descent follows: a run of equal-sized rows, each inserted with
    success, after which no lookup succeeds. -/
theorem not_forall_lookupExact : ¬∀ s, Reach BtreeState.step (SizedAction wideRowSize)
    (.format 1000 1) s → WellShaped s.store s.rootLevel s.root 0 idSpace ∧ LookupExact s := by
  intro hall
  obtain ⟨s, hrun, hspine⟩ := @spine_reachable 1000 1 15 (by decide) (by decide)
  obtain ⟨s', child, hrun', -, hpage, -, hin⟩ := insert_above_root hrun hspine
    (Nat.lt_succ_self _) (by decide) (by decide)
  obtain ⟨bounds, height, hinv, -⟩ := reach_inv (hrun.trans hrun')
  have hlevel : s'.rootLevel = 16 := by rw [BtreeState.rootLevel, hpage]
  rcases hinv.lookupExact_iff.mp (hall s' (hrun.trans hrun')).2 with hlt | hnil
  · rw [hlevel] at hlt
    exact absurd hlt (by decide)
  · rw [hnil] at hin
    exact absurd hin not_mem_nil

end Kds.Storage.Btree
