/-
  Kds.Storage.BtreeRuns

  Runs of the clustered tree: inserts of ids the caller chooses, and slots retired, marked and
  overwritten in between.  Along every run of equal-sized payloads the tree stays in shape, and
  the ids a descent reaches are the ids inserted and not retired since
  (`btree_lookup_exact_iff`), as long as the root is no deeper than a descent may go.

  Whether a run can pass that depth is a question about how fast a tree can be made to grow
  (`Kds.Storage.BtreeDepth`).
-/

import Kds.Lib.Run
import Kds.Storage.BtreeInsert

namespace Kds.Storage.Btree

open Lib List
open Function (update update_self update_of_ne)

-- The runs

/-- A tree, and two ghosts: the ids inserted whose slot was not retired since, and the pages that
    failed inserts allocated. -/
structure BtreeState where
  store : TreeStore
  root : PageId
  inserted : List Nat
  failedPages : List PageId

inductive BtreeAction where
  | insert (id : Nat) (payload : Bytes) (trxId ownerOid : Nat)
  | retireSlot (pageId : PageId) (slot : Nat)
  | deleteMark (pageId : PageId) (slot trxId : Nat)
  | overwriteTuple (pageId : PageId) (slot : Nat) (payload : Bytes) (trxId undoPtr : Nat)

namespace BtreeState

/-- `FormatRoot` on the first page of a store. -/
def format (root ownerOid : Nat) : BtreeState where
  store :=
    { pages := fun pageId => if pageId = root then some (.leaf
        { body := { minKey := 0, freeSpace := emptyFreeSpace }, ownerOid := ownerOid }) else none
      nextPageId := root + 1 }
  root := root
  inserted := []
  failedPages := []

/-- The live tuple in a slot of a leaf. -/
def tupleAt (s : BtreeState) (pageId : PageId) (slot : Nat) : Option (LeafPage × HeapTuple) :=
  match s.store.pages pageId with
  | some (.leaf leaf) => (leaf.body.tupleAt slot).map (fun tuple => (leaf, tuple))
  | _ => none

/-- A leaf rewritten by an operation on one of its slots. -/
def setBody (s : BtreeState) (pageId : PageId) (leaf : LeafPage) (body : HeapPage) : BtreeState :=
  { s with store := s.store.put pageId (.leaf { leaf with body := body }) }

def step (s : BtreeState) : BtreeAction → Option BtreeState
  | .insert id payload trxId ownerOid =>
    let (store, answer) := btreeInsert s.store s.root id payload trxId ownerOid
    match answer with
    | .ok out => some
        { s with store := store, root := out.newRoot.getD s.root, inserted := id :: s.inserted }
    | .error _ =>
      let allocated := List.range' s.store.nextPageId (store.nextPageId - s.store.nextPageId)
      some { s with store := store, failedPages := allocated ++ s.failedPages }
  | .retireSlot pageId slot =>
    match s.tupleAt pageId slot with
    | none => none
    | some (leaf, tuple) =>
      match leaf.body.retireSlot slot with
      | .error _ => none
      | .ok body =>
        let inserted := if pageId ∈ s.failedPages then s.inserted
          else s.inserted.erase (keyOf tuple)
        some { s.setBody pageId leaf body with inserted := inserted }
  | .deleteMark pageId slot trxId =>
    match s.tupleAt pageId slot with
    | none => none
    | some (leaf, _) =>
      match leaf.body.deleteMark slot trxId with
      | .error _ => none
      | .ok body => some (s.setBody pageId leaf body)
  | .overwriteTuple pageId slot payload trxId undoPtr =>
    match s.tupleAt pageId slot with
    | none => none
    | some (leaf, _) =>
      match leaf.body.overwriteTuple slot payload trxId undoPtr with
      | .error _ => none
      | .ok body => some (s.setBody pageId leaf body)

end BtreeState

/-- An overwrite carries the id of the tuple it overwrites. -/
def KeepsId (s : BtreeState) : BtreeAction → Prop
  | .overwriteTuple pageId slot payload _ _ => ∀ leaf tuple,
      s.tupleAt pageId slot = some (leaf, tuple) →
      keystoneIdOfPayload payload = .ok (keyOf tuple)
  | _ => True

/-- Equal-sized payloads, each carrying its id. -/
def SizedAction (size : Nat) (s : BtreeState) (a : BtreeAction) : Prop :=
  KeepsId s a ∧
    match a with
    | .insert _ payload _ _ => payload.length = size
    | .overwriteTuple _ _ payload _ _ => payload.length = size
    | _ => True

-- What is promised

/-- A subtree as the routing rule wants it: leaves at level 0 with ids from their low key up to
    the next separator, separators strictly ascending, each child one level down. -/
def WellShaped (store : TreeStore) : Nat → PageId → Nat → Nat → Prop
  | 0, page, lo, hi => ∃ leaf, store.pages page = some (.leaf leaf) ∧ leaf.body.minKey = lo ∧
      ∀ id ∈ liveIds leaf.body.slots, lo ≤ id ∧ id < hi
  | level + 1, page, lo, hi => ∃ node, store.pages page = some (.internal node) ∧
      node.level = level + 1 ∧ Ascending node.entries ∧
      Sliced (WellShaped store level) lo hi node.leftmostChild node.entries

/-- The level the root is at. -/
def BtreeState.rootLevel (s : BtreeState) : Nat :=
  match s.store.pages s.root with
  | some (.internal node) => node.level
  | _ => 0

/-- A place holds a live tuple that carries the id. -/
def Carries (store : TreeStore) (loc : Location) (id : Nat) : Prop :=
  ∃ leaf length tuple, store.pages loc.pageId = some (.leaf leaf) ∧
    leaf.body.slots[loc.slot]? = some (.live length tuple) ∧
    keystoneIdOfPayload tuple.payload = .ok id

/-- A lookup succeeds exactly for the ids inserted and not retired, at a slot that carries the
    id. -/
def LookupExact (s : BtreeState) : Prop :=
  ∀ id, id < idSpace →
    if id ∈ s.inserted then
      ∃ loc, btreeLookup s.store s.root id = .ok loc ∧ Carries s.store loc id
    else ∃ e, btreeLookup s.store s.root id = .error e

-- Slots changed in place

variable {i id : Nat} {descent : Descent} {payload : Bytes} {tuple : HeapTuple} {a : BtreeAction}

theorem exists_around {slots : List HeapSlot} {slot : HeapSlot} (h : slots[i]? = some slot) :
    ∃ before after, slots = before ++ slot :: after ∧
      ∀ other, slots.set i other = before ++ other :: after := by
  obtain ⟨hlt, rfl⟩ := List.getElem?_eq_some_iff.mp h
  refine ⟨slots.take i, slots.drop (i + 1), ?_, fun other => ?_⟩
  · rw [getElem_cons_drop, take_append_drop]
  · exact set_eq_take_append_cons_drop.trans (if_pos hlt)

theorem liveIds_around (before after : List HeapSlot) (slot : HeapSlot) :
    liveIds (before ++ slot :: after) =
      liveIds before ++ ((slotId slot).toList ++ liveIds after) := by
  rw [liveIds_append, ← singleton_append, liveIds_append]
  rcases slot with _ | ⟨length, tuple⟩
  · rfl
  · rfl

theorem usedBytes_around (before after : List HeapSlot) (slot : HeapSlot) :
    usedBytes (before ++ slot :: after) =
      usedBytes before + (slotBytes slot + usedBytes after) := by
  rw [usedBytes_append]
  rfl

variable {leaf : LeafPage} {lo hi : Nat}

theorem LeafOk.setSlot {old new : HeapSlot} (h : LeafOk leaf lo hi)
    (hold : leaf.body.slots[i]? = some old) (hok : SlotOk new)
    (hid : slotId new = slotId old ∨ slotId new = none) (hbytes : slotBytes new ≤ slotBytes old) :
    LeafOk { leaf with body := leaf.body.setSlot i new } lo hi ∧
      ∀ k, k ∈ liveIds (leaf.body.setSlot i new).slots ↔
        k ∈ liveIds leaf.body.slots ∧ (slotId new = slotId old ∨ slotId old ≠ some k) := by
  obtain ⟨before, after, hslots, hset⟩ := exists_around hold
  have hnodup := h.nodup
  have hused := h.space
  rw [hslots, liveIds_around] at hnodup
  rw [hslots, usedBytes_around] at hused
  have hsub : (liveIds (leaf.body.setSlot i new).slots).Sublist (liveIds leaf.body.slots) := by
    rw [HeapPage.slots_setSlot, hset, hslots, liveIds_around, liveIds_around]
    refine (List.Sublist.refl _).append (List.Sublist.append ?_ (List.Sublist.refl _))
    rcases hid with hid | hid
    · rw [hid]
    · rw [hid]
      exact nil_sublist _
  refine ⟨⟨h.minKey, fun id hmem => h.range id (hsub.subset hmem), hsub.nodup h.nodup,
    fun slot hslot => ?_, ?_⟩, fun k => ?_⟩
  · change slot ∈ leaf.body.slots.set i new at hslot
    rcases mem_or_eq_of_mem_set hslot with hslot | rfl
    · exact h.slots slot hslot
    · exact hok
  · show leaf.body.freeSpace + usedBytes (leaf.body.slots.set i new) ≤ emptyFreeSpace
    rw [hset, usedBytes_around]
    omega
  · rw [HeapPage.slots_setSlot, hset, hslots, liveIds_around, liveIds_around]
    rcases hid with hid | hid
    · rw [hid]
      exact ⟨fun hk => ⟨hk, .inl rfl⟩, fun hk => hk.1⟩
    · rw [hid]
      rcases hkey : slotId old with _ | key
      · exact ⟨fun hk => ⟨hk, .inl rfl⟩, fun hk => hk.1⟩
      · rw [hkey] at hnodup
        have hnotin := (nodup_middle.mp hnodup)
        rw [nodup_cons, mem_append] at hnotin
        rw [mem_append, mem_append, mem_append, mem_append]
        show k ∈ liveIds before ∨ k ∈ [] ∨ k ∈ liveIds after ↔
          (k ∈ liveIds before ∨ k ∈ [key] ∨ k ∈ liveIds after) ∧
            ((none : Option Nat) = some key ∨ (some key : Option Nat) ≠ some k)
        simp only [mem_singleton, not_mem_nil, false_or, reduceCtorEq, ne_eq,
          Option.some.injEq]
        refine ⟨fun hk => ⟨hk.imp_right .inr, fun heq => hnotin.1 (heq ▸ hk)⟩, ?_⟩
        rintro ⟨hk | hk | hk, hne⟩
        · exact .inl hk
        · exact absurd hk.symm hne
        · exact .inr hk

-- What the tree holds

variable {store store' : TreeStore} {bounds : PageId → Option Bounds} {root : PageId}
  {height : Nat}

/-- An id some leaf of the tree holds. -/
def Holds (store : TreeStore) (bounds : PageId → Option Bounds) (id : Nat) : Prop :=
  ∃ page lo hi leaf, bounds page = some ⟨0, lo, hi⟩ ∧ store.pages page = some (.leaf leaf) ∧
    id ∈ liveIds leaf.body.slots

theorem Landed.holds_iff (h : TreeShape store bounds root height) {key : Nat}
    (hland : Landed store bounds root height key descent lo hi) :
    Holds store bounds key ↔ key ∈ liveIds descent.leaf.body.slots := by
  constructor
  · rintro ⟨page, u, v, leaf, hpage, hleaf, hmem⟩
    have hrange := ((h.pages page _ hpage).leaf_of_page hleaf).2.range key hmem
    obtain rfl : page = descent.leafId := h.apart page descent.leafId _ _ key hpage
      hland.leafBounds rfl hrange.1 hrange.2 hland.keyIn.1 hland.keyIn.2
    rw [hland.page] at hleaf
    cases hleaf
    exact hmem
  · exact fun hmem => ⟨_, lo, hi, descent.leaf, hland.leafBounds, hland.page, hmem⟩

theorem holds_split (h : TreeShape store bounds root height) {key sep : Nat}
    {oldLeaf newLeaf : LeafPage} {ids : List Nat}
    (hland : Landed store bounds root height key descent lo hi)
    (hsplit : LeafSplit store store' descent payload lo hi sep oldLeaf newLeaf ids) (k : Nat) :
    Holds store' (cut bounds descent.leafId store.nextPageId 0 lo sep hi) k ↔
      k ∈ ids ∨ ∃ page u v leaf, page ≠ descent.leafId ∧ bounds page = some ⟨0, u, v⟩ ∧
        store.pages page = some (.leaf leaf) ∧ k ∈ liveIds leaf.body.slots := by
  have hgrow := h.growing hland hsplit
  rw [← hsplit.ids.mem_iff, mem_append]
  constructor
  · rintro ⟨page, u, v, leaf, hpage, hleaf, hmem⟩
    rcases cut_eq_some hpage with ⟨rfl, -⟩ | ⟨rfl, -, -⟩ | ⟨hold, hnew, hpage'⟩
    · rw [hsplit.newPage] at hleaf
      cases hleaf
      exact .inl (.inr hmem)
    · rw [hsplit.oldPage] at hleaf
      cases hleaf
      exact .inl (.inl hmem)
    · rw [hsplit.other page hold hnew] at hleaf
      exact .inr ⟨page, u, v, leaf, hold, hpage', hleaf, hmem⟩
  · rintro ((hmem | hmem) | ⟨page, u, v, leaf, hne, hpage, hleaf, hmem⟩)
    · exact ⟨_, lo, sep, oldLeaf, cut_old hgrow.old_ne_child, hsplit.oldPage, hmem⟩
    · exact ⟨_, sep, hi, newLeaf, cut_child, hsplit.newPage, hmem⟩
    · have hnew : page ≠ store.nextPageId := Nat.ne_of_lt (h.below page _ hpage)
      refine ⟨page, u, v, leaf, ?_, (hsplit.other page hne hnew).trans hleaf, hmem⟩
      rw [cut_other hne hnew, hpage]

variable {page : PageId}

theorem holds_iff_at
    (hpage : bounds page = some ⟨0, lo, hi⟩) (hleaf : store.pages page = some (.leaf leaf))
    (k : Nat) :
    Holds store bounds k ↔ k ∈ liveIds leaf.body.slots ∨ ∃ other u v leaf', other ≠ page ∧
      bounds other = some ⟨0, u, v⟩ ∧ store.pages other = some (.leaf leaf') ∧
      k ∈ liveIds leaf'.body.slots := by
  constructor
  · rintro ⟨other, u, v, leaf', hother, hleaf', hmem⟩
    by_cases heq : other = page
    · subst heq
      rw [hleaf] at hleaf'
      cases hleaf'
      exact .inl hmem
    · exact .inr ⟨other, u, v, leaf', heq, hother, hleaf', hmem⟩
  · rintro (hmem | ⟨other, u, v, leaf', -, hother, hleaf', hmem⟩)
    · exact ⟨page, lo, hi, leaf, hpage, hleaf, hmem⟩
    · exact ⟨other, u, v, leaf', hother, hleaf', hmem⟩

theorem holds_setLeaf {leaf' : LeafPage}
    (hpage : bounds page = some ⟨0, lo, hi⟩) (hleaf' : store'.pages page = some (.leaf leaf'))
    (hother : ∀ id bd, bounds id = some bd → id ≠ page → store'.pages id = store.pages id)
    (k : Nat) :
    Holds store' bounds k ↔ k ∈ liveIds leaf'.body.slots ∨ ∃ other u v leaf, other ≠ page ∧
      bounds other = some ⟨0, u, v⟩ ∧ store.pages other = some (.leaf leaf) ∧
      k ∈ liveIds leaf.body.slots := by
  rw [holds_iff_at hpage hleaf' k]
  refine or_congr Iff.rfl (exists_congr fun other => exists_congr fun u => exists_congr fun v =>
    exists_congr fun leaf => and_congr_right fun hne => and_congr_right fun hbd => ?_)
  rw [hother other _ hbd hne]

theorem holds_sameLeaves {bounds' : PageId → Option Bounds} (hsame : SameLeaves store store')
    (hleaves : ∀ page u v, bounds' page = some ⟨0, u, v⟩ ↔ bounds page = some ⟨0, u, v⟩)
    (k : Nat) : Holds store' bounds' k ↔ Holds store bounds k :=
  exists_congr fun page => exists_congr fun u => exists_congr fun v => exists_congr fun leaf =>
    and_congr (hleaves page u v) (and_congr (hsame page leaf) Iff.rfl)

-- The invariant

/-- The tree is in shape and holds the ids inserted and not retired; the leaves it does not use
    are pages of failed inserts. -/
structure BtreeInv (s : BtreeState) (bounds : PageId → Option Bounds) (height : Nat) : Prop where
  shape : TreeShape s.store bounds s.root height
  alloc : Allocated s.store
  holds : ∀ k, k ∈ s.inserted ↔ Holds s.store bounds k
  nodup : s.inserted.Nodup
  known : ∀ id leaf, s.store.pages id = some (.leaf leaf) → id ∉ s.failedPages →
    ∃ bd, bounds id = some bd
  failedOut : ∀ id ∈ s.failedPages,
    bounds id = none ∧ ∃ leaf, s.store.pages id = some (.leaf leaf)

/-- Every payload in a leaf has the size. -/
def AllSized (size : Nat) (s : BtreeState) : Prop :=
  ∀ id leaf, s.store.pages id = some (.leaf leaf) → ∀ slot ∈ leaf.body.slots, SlotSized size slot

/-- The insert does not tear a leaf. -/
def NoTear (s : BtreeState) : BtreeAction → Prop
  | .insert id payload trxId _ => ∀ descent, descendTo s.store s.root id = .ok descent →
      ¬Tears descent.leaf id payload trxId
  | _ => True

/-- A fresh tree: one leaf owns every id. -/
def startBounds (root : PageId) : PageId → Option Bounds :=
  fun pageId => if pageId = root then some ⟨0, 0, idSpace⟩ else none

namespace BtreeInv

variable {s s' : BtreeState} {descent : Descent}

theorem rootLevel_eq (h : BtreeInv s bounds height) : s.rootLevel = height := by
  rw [BtreeState.rootLevel]
  rcases h.shape.pages s.root _ h.shape.root with ⟨leaf, hpage, hlevel, -⟩ | ⟨node, hpage, hok⟩
  · rw [hpage]
    exact hlevel.symm
  · rw [hpage]
    exact hok.level

theorem format (root ownerOid : Nat) :
    BtreeInv (BtreeState.format root ownerOid) (startBounds root) 0 := by
  have hpage : (BtreeState.format root ownerOid).store.pages root = some (.leaf
      { body := { minKey := 0, freeSpace := emptyFreeSpace }, ownerOid := ownerOid }) :=
    if_pos rfl
  have hbounds : ∀ {id bd}, startBounds root id = some bd → id = root ∧ bd = ⟨0, 0, idSpace⟩ := by
    intro id bd hid
    rw [startBounds] at hid
    split_ifs at hid with heq
    exact ⟨heq, (Option.some.inj hid).symm⟩
  have hpages : ∀ {id page}, (BtreeState.format root ownerOid).store.pages id = some page →
      id = root := by
    intro id page hid
    by_contra hne
    have hnone : (BtreeState.format root ownerOid).store.pages id = none :=
      if_neg hne
    rw [hnone] at hid
    cases hid
  refine ⟨⟨if_pos rfl, fun id bd hid => ?_, ?_, fun id bd hid => ?_,
    fun id bd hid => ?_⟩, fun id hid => ?_, fun k => ?_, nodup_nil, fun id leaf hid _ => ?_,
    fun id hid => absurd hid not_mem_nil⟩
  · obtain ⟨rfl, rfl⟩ := hbounds hid
    exact .leaf _ hpage rfl ⟨rfl, fun k hk => absurd hk not_mem_nil, nodup_nil,
      fun slot hslot => absurd hslot not_mem_nil, Nat.le_refl _⟩
  · intro p q bp bq key hp hq _ _ _ _ _
    rw [(hbounds hp).1, (hbounds hq).1]
  · rw [(hbounds hid).1]
    exact Nat.lt_succ_self root
  · rw [(hbounds hid).2]
  · exact if_neg (Nat.ne_of_gt hid)
  · refine ⟨fun hk => absurd hk not_mem_nil, ?_⟩
    rintro ⟨page, lo, hi, leaf, -, hleaf, hmem⟩
    rw [hpages hleaf, hpage] at hleaf
    cases hleaf
    exact absurd hmem not_mem_nil
  · rw [hpages hid]
    exact ⟨_, if_pos rfl⟩

theorem outside (h : BtreeInv s bounds height) (hnext : s.store.nextPageId ≤ store'.nextPageId)
    (halloc : Allocated store') (hpages : ∀ id bd, bounds id = some bd →
      store'.pages id = s.store.pages id) {failed : List PageId}
    (hknown : ∀ id leaf, store'.pages id = some (.leaf leaf) → id ∉ failed →
      ∃ bd, bounds id = some bd)
    (hfailed : ∀ id ∈ failed, bounds id = none ∧ ∃ leaf, store'.pages id = some (.leaf leaf)) :
    BtreeInv { s with store := store', failedPages := failed } bounds height := by
  refine ⟨⟨h.shape.root, fun id bd hid => ?_, h.shape.apart, fun id bd hid => ?_,
    h.shape.levels⟩, halloc, fun k => ?_, h.nodup, hknown, hfailed⟩
  · exact (h.shape.pages id bd hid).frame (hpages id bd hid) (fun _ _ _ _ _ _ hc => hc)
  · exact Nat.lt_of_lt_of_le (h.shape.below id bd hid) hnext
  · rw [h.holds k]
    refine exists_congr fun page => exists_congr fun u => exists_congr fun v =>
      exists_congr fun leaf => and_congr_right fun hbd => ?_
    show _ ↔ store'.pages page = _ ∧ _
    rw [hpages page _ hbd]

theorem others_iff (h : BtreeInv s bounds height) (hpage : bounds page = some ⟨0, lo, hi⟩)
    (hleaf : s.store.pages page = some (.leaf leaf)) (k : Nat) :
    (∃ other u v leaf', other ≠ page ∧ bounds other = some ⟨0, u, v⟩ ∧
        s.store.pages other = some (.leaf leaf') ∧ k ∈ liveIds leaf'.body.slots) ↔
      k ∈ s.inserted ∧ k ∉ liveIds leaf.body.slots := by
  rw [h.holds k, holds_iff_at hpage hleaf k]
  have hapart : ∀ other u v leaf', other ≠ page → bounds other = some ⟨0, u, v⟩ →
      s.store.pages other = some (.leaf leaf') → k ∈ liveIds leaf'.body.slots →
      k ∉ liveIds leaf.body.slots := by
    intro other u v leaf' hne hother hleaf' hmem hmem'
    have hrange := ((h.shape.pages other _ hother).leaf_of_page hleaf').2.range k hmem
    have hrange' := ((h.shape.pages page _ hpage).leaf_of_page hleaf).2.range k hmem'
    exact hne (h.shape.apart other page _ _ k hother hpage rfl hrange.1 hrange.2 hrange'.1
      hrange'.2)
  constructor
  · rintro ⟨other, u, v, leaf', hne, hother, hleaf', hmem⟩
    exact ⟨.inr ⟨other, u, v, leaf', hne, hother, hleaf', hmem⟩,
      hapart other u v leaf' hne hother hleaf' hmem⟩
  · rintro ⟨hmem | hothers, hnot⟩
    · exact absurd hmem hnot
    · exact hothers

theorem rewrite (h : BtreeInv s bounds height) {page : PageId} {lo hi : Nat}
    {leaf leaf' : LeafPage} (hpage : bounds page = some ⟨0, lo, hi⟩)
    (hleaf : s.store.pages page = some (.leaf leaf)) (hok : LeafOk leaf' lo hi)
    {inserted : List Nat} (hnodup : inserted.Nodup)
    (hids : ∀ k, k ∈ inserted ↔
      k ∈ liveIds leaf'.body.slots ∨ k ∈ s.inserted ∧ k ∉ liveIds leaf.body.slots) :
    BtreeInv { s with store := s.store.put page (.leaf leaf'), inserted := inserted } bounds
      height := by
  have hself : (s.store.put page (.leaf leaf')).pages page = some (.leaf leaf') :=
    update_self _ _ _
  have hne : ∀ id, id ≠ page → (s.store.put page (.leaf leaf')).pages id = s.store.pages id :=
    fun id hid => update_of_ne hid _ _
  refine ⟨h.shape.setLeaf hpage (Nat.le_refl _) (fun id hid _ => hne id hid) hself hok,
    h.alloc.put (h.shape.below page _ hpage) _, fun k => ?_, hnodup, fun id leaf'' hid hfail => ?_,
    fun id hid => ?_⟩
  · rw [hids k, holds_setLeaf hpage hself (fun id _ _ hid => hne id hid) k,
      h.others_iff hpage hleaf k]
  · by_cases heq : id = page
    · exact ⟨_, heq ▸ hpage⟩
    · exact h.known id leaf'' ((hne id heq).symm.trans hid) hfail
  · obtain ⟨hnone, leaf'', hleaf''⟩ := h.failedOut id hid
    refine ⟨hnone, leaf'', (hne id ?_).trans hleaf''⟩
    rintro rfl
    rw [hpage] at hnone
    cases hnone

theorem outcome (h : BtreeInv s bounds height) (id : Nat) (payload : Bytes)
    (trxId ownerOid : Nat) :
    InsertOutcome s.store bounds s.root height id payload trxId
      (btreeInsert s.store s.root id payload trxId ownerOid).1
      (btreeInsert s.store s.root id payload trxId ownerOid).2 :=
  btreeInsert_outcome h.shape h.alloc id payload trxId ownerOid

theorem grown (h : BtreeInv s bounds height) {sep : Nat} {store₁ : TreeStore}
    {oldLeaf newLeaf : LeafPage} {root' : PageId} {bounds' : PageId → Option Bounds} {height' : Nat}
    (hland : Landed s.store bounds s.root height id descent lo hi)
    (hsplit : LeafSplit s.store store₁ descent payload lo hi sep oldLeaf newLeaf
      (id :: liveIds descent.leaf.body.slots)) (hshape : TreeShape store' bounds' root' height')
    (hleaves : ∀ page u v, bounds' page = some ⟨0, u, v⟩ ↔
      cut bounds descent.leafId s.store.nextPageId 0 lo sep hi page = some ⟨0, u, v⟩)
    (hsame : SameLeaves store₁ store') (halloc : Allocated store') :
    BtreeInv { s with store := store', root := root', inserted := id :: s.inserted } bounds'
      height' := by
  have hnew : id ∉ s.inserted := by
    rw [h.holds id, hland.holds_iff h.shape]
    have hnodup := hsplit.ids.nodup_iff.mp (nodup_append.mpr ⟨hsplit.oldOk.nodup,
      hsplit.newOk.nodup, fun x hx y hy heq => ?_⟩)
    · exact (nodup_cons.mp hnodup).1
    · have hlow := (hsplit.oldOk.range x hx).2
      have hup := (hsplit.newOk.range y hy).1
      omega
  have hbounded : ∀ page bd, bounds page = some bd → bd.level = 0 → page ≠ descent.leafId →
      ∃ bd', bounds' page = some bd' := by
    intro page bd hbd hlevel hne
    obtain ⟨level, u, v⟩ := bd
    obtain rfl : level = 0 := hlevel
    refine ⟨_, (hleaves page u v).mpr ?_⟩
    rw [cut_other hne (Nat.ne_of_lt (h.shape.below page _ hbd)), hbd]
  refine ⟨hshape, halloc, fun k => ?_, nodup_cons.mpr ⟨hnew, h.nodup⟩,
    fun page leaf hpage hfail => ?_, fun page hfail => ?_⟩
  · show k ∈ id :: s.inserted ↔ Holds store' bounds' k
    rw [holds_sameLeaves hsame hleaves k, holds_split h.shape hland hsplit k,
      h.others_iff hland.leafBounds hland.page k, mem_cons, mem_cons]
    by_cases hmem : k ∈ liveIds descent.leaf.body.slots
    · have hin : k ∈ s.inserted := (h.holds k).mpr
        ⟨_, lo, hi, descent.leaf, hland.leafBounds, hland.page, hmem⟩
      exact ⟨fun _ => .inl (.inr hmem), fun _ => .inr hin⟩
    · constructor
      · rintro (rfl | hin)
        · exact .inl (.inl rfl)
        · exact .inr ⟨hin, hmem⟩
      · rintro ((rfl | hin) | ⟨hin, -⟩)
        · exact .inl rfl
        · exact absurd hin hmem
        · exact .inr hin
  · have hpage₁ := (hsame page leaf).mp hpage
    by_cases hold : page = descent.leafId
    · subst hold
      have hgrow := h.shape.growing hland hsplit
      exact ⟨_, (hleaves _ lo sep).mpr (cut_old hgrow.old_ne_child)⟩
    · by_cases hnext : page = s.store.nextPageId
      · subst hnext
        exact ⟨_, (hleaves _ sep hi).mpr cut_child⟩
      · rw [hsplit.other page hold hnext] at hpage₁
        obtain ⟨bd, hbd⟩ := h.known page leaf hpage₁ hfail
        exact hbounded page bd hbd ((h.shape.pages page bd hbd).leaf_of_page hpage₁).1 hold
  · obtain ⟨hnone, leaf, hleaf⟩ := h.failedOut page hfail
    have hold : page ≠ descent.leafId := by
      rintro rfl
      rw [hland.leafBounds] at hnone
      cases hnone
    have hnext : page ≠ s.store.nextPageId := Nat.ne_of_lt (h.alloc.lt hleaf)
    have hleaf' : store'.pages page = some (.leaf leaf) :=
      (hsame page leaf).mpr ((hsplit.other page hold hnext).trans hleaf)
    refine ⟨?_, leaf, hleaf'⟩
    by_contra hsome
    obtain ⟨⟨level, u, v⟩, hbd⟩ := Option.ne_none_iff_exists'.mp hsome
    obtain rfl : level = 0 := ((hshape.pages page _ hbd).leaf_of_page hleaf').1
    have hcut := (hleaves page u v).mp hbd
    rw [cut_other hold hnext, hnone] at hcut
    cases hcut

theorem placed (h : BtreeInv s bounds height) {body : HeapPage}
    (hland : Landed s.store bounds s.root height id descent lo hi)
    (hok : LeafOk { descent.leaf with body := body } lo hi) 
    (hids : liveIds body.slots = liveIds descent.leaf.body.slots ++ [id]) :
    BtreeInv { s with
      store := s.store.put descent.leafId (.leaf { descent.leaf with body := body })
      inserted := id :: s.inserted } bounds height := by
  have hnodup : (liveIds body.slots).Nodup := hok.nodup
  rw [hids] at hnodup
  have hnew : id ∉ s.inserted := by
    rw [h.holds id, hland.holds_iff h.shape]
    exact fun hmem => (nodup_append.mp hnodup).2.2 id hmem id (mem_singleton_self id) rfl
  refine h.rewrite hland.leafBounds hland.page hok (nodup_cons.mpr ⟨hnew, h.nodup⟩)
    (fun k => ?_)
  show k ∈ id :: s.inserted ↔ k ∈ liveIds body.slots ∨ _
  rw [hids, mem_cons, mem_append, mem_singleton]
  by_cases hmem : k ∈ liveIds descent.leaf.body.slots
  · have hin : k ∈ s.inserted := (h.holds k).mpr
      ⟨_, lo, hi, descent.leaf, hland.leafBounds, hland.page, hmem⟩
    exact ⟨fun _ => .inl (.inl hmem), fun _ => .inr hin⟩
  · constructor
    · rintro (rfl | hin)
      · exact .inl (.inr rfl)
      · exact .inr ⟨hin, hmem⟩
    · rintro ((hin | rfl) | ⟨hin, -⟩)
      · exact absurd hin hmem
      · exact .inl rfl
      · exact .inr hin

theorem failed (h : BtreeInv s bounds height) {newLeaf : LeafPage}
    (hnext : store'.nextPageId = s.store.nextPageId + 1)
    (hother : ∀ id, id ≠ s.store.nextPageId → store'.pages id = s.store.pages id)
    (hpage : store'.pages s.store.nextPageId = some (.leaf newLeaf)) :
    BtreeInv { s with store := store', failedPages := s.store.nextPageId :: s.failedPages } bounds
      height := by
  have hfresh : bounds s.store.nextPageId = none := by
    by_contra hsome
    obtain ⟨bd, hbd⟩ := Option.ne_none_iff_exists'.mp hsome
    exact Nat.lt_irrefl _ (h.shape.below _ _ hbd)
  refine h.outside (by rw [hnext]; exact Nat.le_succ _) (fun id hid => ?_) (fun id bd hbd => ?_)
    (fun id leaf hid hfail => ?_) (fun id hid => ?_)
  · rw [hnext] at hid
    rw [hother id (Nat.ne_of_gt hid)]
    exact h.alloc id (Nat.le_of_succ_le hid)
  · exact hother id (Nat.ne_of_lt (h.shape.below id bd hbd))
  · obtain ⟨hne, hnot⟩ := not_or.mp (fun hor => hfail (mem_cons.mpr hor))
    exact h.known id leaf ((hother id hne).symm.trans hid) hnot
  · rcases mem_cons.mp hid with rfl | hid
    · exact ⟨hfresh, newLeaf, hpage⟩
    · obtain ⟨hnone, leaf, hleaf⟩ := h.failedOut id hid
      exact ⟨hnone, leaf, (hother id (Nat.ne_of_lt (h.alloc.lt hleaf))).trans hleaf⟩

theorem insert (h : BtreeInv s bounds height) {id : Nat} {payload : Bytes} {trxId ownerOid : Nat}
    (hno : NoTear s (.insert id payload trxId ownerOid))
    (hstep : s.step (.insert id payload trxId ownerOid) = some s') :
    ∃ bounds' height', BtreeInv s' bounds' height' := by
  have hout := h.outcome id payload trxId ownerOid
  rw [BtreeState.step] at hstep
  obtain ⟨⟨store', answer⟩, hrun⟩ : ∃ r, btreeInsert s.store s.root id payload trxId ownerOid = r :=
    ⟨_, rfl⟩
  rw [hrun] at hstep hout
  dsimp only at hstep hout
  cases hout with
  | refused e =>
    rw [Nat.sub_self] at hstep
    cases hstep
    exact ⟨bounds, height, h⟩
  | wasted e newLeaf _ =>
    have hone : (s.store.createNew.put s.store.nextPageId (.leaf newLeaf)).nextPageId -
        s.store.nextPageId = 1 := Nat.add_sub_cancel_left _ 1
    rw [hone] at hstep
    cases hstep
    have hpage : (s.store.createNew.put s.store.nextPageId (.leaf newLeaf)).pages
        s.store.nextPageId = some (.leaf newLeaf) := update_self _ _ _
    exact ⟨bounds, height, h.failed rfl (fun id hid => update_of_ne hid _ _) hpage⟩
  | placed descent lo hi body slot hland _ hok hids =>
    cases hstep
    exact ⟨bounds, height, h.placed hland hok hids⟩
  | grown descent lo hi sep store₁ oldLeaf newLeaf _ out bounds' height' hland hsplit _ hshape
      hleaves hsame halloc _ =>
      cases hstep
      exact ⟨bounds', height', h.grown hland hsplit hshape hleaves hsame halloc⟩
  | stranded e descent lo hi _ newLeaf hland hsplit _ =>
    have hone : store'.nextPageId - s.store.nextPageId = 1 := by
      rw [hsplit.next]
      exact Nat.add_sub_cancel_left _ 1
    rw [hone] at hstep
    cases hstep
    -- The old leaf keeps its tuples; only its link is new.
    have hok := hland.ok
    have hkept := @rewrite _ _ s h descent.leafId lo hi descent.leaf
      { descent.leaf with nextPageId := some s.store.nextPageId } hland.leafBounds hland.page
      ⟨hok.minKey, hok.range, hok.nodup, hok.slots, hok.space⟩ s.inserted h.nodup
      (fun k => by
        refine ⟨fun hk => ?_, fun hk => hk.elim (fun hmem => ?_) And.left⟩
        · by_cases hmem : k ∈ liveIds descent.leaf.body.slots
          · exact .inl hmem
          · exact .inr ⟨hk, hmem⟩
        · exact (h.holds k).mpr ⟨_, lo, hi, descent.leaf, hland.leafBounds, hland.page, hmem⟩)
    refine ⟨bounds, height, hkept.failed hsplit.next (fun id hid => ?_) hsplit.newPage⟩
    show store'.pages id = update s.store.pages descent.leafId (some (.leaf
      { descent.leaf with nextPageId := some s.store.nextPageId })) id
    by_cases hleaf : id = descent.leafId
    · rw [hleaf, update_self, hsplit.oldPage]
    · rw [update_of_ne hleaf, hsplit.other id hleaf hid]
  | torn e descent lo hi sep _ oldLeaf newLeaf hland hsplit htears =>
    exact absurd htears (hno descent hland.descends)

theorem setSlot (h : BtreeInv s bounds height) {old new : HeapSlot}
    (hpage : s.store.pages page = some (.leaf leaf)) (hold : leaf.body.slots[i]? = some old)
    (hok : SlotOk old → SlotOk new) (hid : slotId new = slotId old ∨ slotId new = none)
    (hbytes : slotBytes new ≤ slotBytes old) {inserted : List Nat} (hnodup : inserted.Nodup)
    (hfailed : page ∈ s.failedPages → inserted = s.inserted)
    (hids : page ∉ s.failedPages → ∀ k, k ∈ inserted ↔
      k ∈ s.inserted ∧ (slotId new = slotId old ∨ slotId old ≠ some k)) :
    BtreeInv { s.setBody page leaf (leaf.body.setSlot i new) with inserted := inserted } bounds
      height := by
  have hlt := h.alloc.lt hpage
  by_cases hfail : page ∈ s.failedPages
  · rw [hfailed hfail]
    have hne : ∀ id, id ≠ page → (s.store.put page (.leaf { leaf with
        body := leaf.body.setSlot i new })).pages id = s.store.pages id :=
      fun id hid => update_of_ne hid _ _
    have hout := (h.failedOut page hfail).1
    have halloc : Allocated (s.store.put page (.leaf { leaf with
        body := leaf.body.setSlot i new })) := h.alloc.put hlt _
    refine @outside (s.store.put page _) _ _ s h (Nat.le_refl _) halloc (fun id bd hbd => hne id ?_)
      s.failedPages (fun id leaf' hid hnot => ?_) (fun id hid => ⟨(h.failedOut id hid).1, ?_⟩)
    · rintro rfl
      rw [hout] at hbd
      cases hbd
    · by_cases heq : id = page
      · exact absurd (heq ▸ hfail) hnot
      · exact h.known id leaf' ((hne id heq).symm.trans hid) hnot
    · by_cases heq : id = page
      · rw [heq]
        exact ⟨_, update_self page _ s.store.pages⟩
      · obtain ⟨leaf', hleaf'⟩ := (h.failedOut id hid).2
        exact ⟨leaf', (hne id heq).trans hleaf'⟩
  · obtain ⟨⟨level, lo, hi⟩, hbd⟩ := h.known page leaf hpage hfail
    obtain ⟨hlevel, hleafOk⟩ := (h.shape.pages page _ hbd).leaf_of_page hpage
    obtain rfl : level = 0 := hlevel
    obtain ⟨hok', hlive⟩ := hleafOk.setSlot hold
      (hok (hleafOk.slots old (mem_of_getElem? hold))) hid hbytes
    refine h.rewrite hbd hpage hok' hnodup (fun k => ?_)
    rw [hids hfail k]
    show _ ↔ k ∈ liveIds (leaf.body.setSlot i new).slots ∨ _
    rw [hlive k]
    by_cases hmem : k ∈ liveIds leaf.body.slots
    · have hin : k ∈ s.inserted := (h.holds k).mpr ⟨page, lo, hi, leaf, hbd, hpage, hmem⟩
      exact ⟨fun hk => .inl ⟨hmem, hk.2⟩, fun hk => hk.elim (fun hk => ⟨hin, hk.2⟩)
        (fun hk => absurd hmem hk.2)⟩
    · refine ⟨fun hk => .inr ⟨hk.1, hmem⟩, fun hk => hk.elim (fun hk => absurd hk.1 hmem)
        (fun hk => ⟨hk.1, .inr (fun hslot => hmem ?_)⟩)⟩
      rcases old with _ | ⟨length, tuple⟩
      · cases hslot
      · exact mem_liveIds.mpr ⟨length, tuple, mem_of_getElem? hold, Option.some.inj hslot⟩

end BtreeInv

variable {s : BtreeState}

theorem BtreeState.tupleAt_eq_some {slot : Nat} (h : s.tupleAt page slot = some (leaf, tuple)) :
    s.store.pages page = some (.leaf leaf) ∧
      ∃ length, leaf.body.slots[slot]? = some (.live length tuple) := by
  rw [BtreeState.tupleAt] at h
  rcases hpage : s.store.pages page with _ | ⟨leaf' | node⟩
  · rw [hpage] at h
    cases h
  · rw [hpage] at h
    obtain ⟨tuple', htuple, heq⟩ := Option.map_eq_some_iff.mp h
    cases heq
    exact ⟨rfl, HeapPage.tupleAt_eq_some.mp htuple⟩
  · rw [hpage] at h
    cases h

/-- A live slot rewritten in place: with the id it had, or retired. -/
structure SlotRewrite (s s' : BtreeState) (page : PageId) (leaf : LeafPage) (i length : Nat)
    (tuple : HeapTuple) (new : HeapSlot) : Prop where
  found : s.store.pages page = some (.leaf leaf)
  live : leaf.body.slots[i]? = some (.live length tuple)
  next : s' = { s.setBody page leaf (leaf.body.setSlot i new) with inserted := s'.inserted }
  ok : SlotOk (.live length tuple) → SlotOk new
  id : slotId new = some (keyOf tuple) ∧ s'.inserted = s.inserted ∨
    slotId new = none ∧ s'.inserted =
      if page ∈ s.failedPages then s.inserted else s.inserted.erase (keyOf tuple)
  bytes : slotBytes new ≤ slotBytes (.live length tuple)

variable {s' : BtreeState}

theorem BtreeState.step_slot (hkeeps : KeepsId s a)
    (hnot : ∀ id payload trxId ownerOid, a ≠ .insert id payload trxId ownerOid)
    (hstep : s.step a = some s') :
    ∃ page leaf i length tuple new, SlotRewrite s s' page leaf i length tuple new ∧
      ∀ size, SizedAction size s a → SlotSized size (.live length tuple) →
        SlotSized size new := by
  cases a with
  | insert id payload trxId ownerOid => exact absurd rfl (hnot id payload trxId ownerOid)
  | retireSlot page slot =>
    rw [BtreeState.step] at hstep
    rcases htuple : s.tupleAt page slot with _ | ⟨leaf, tuple⟩
    · rw [htuple] at hstep
      cases hstep
    rw [htuple] at hstep
    dsimp only at hstep
    obtain ⟨hpage, length, hold⟩ := BtreeState.tupleAt_eq_some htuple
    have hretire : leaf.body.retireSlot slot = .ok (leaf.body.setSlot slot .dead) := by
      rw [HeapPage.retireSlot, hold]
    rw [hretire] at hstep
    cases hstep
    exact ⟨page, leaf, slot, length, tuple, .dead, ⟨hpage, hold, rfl, fun _ => trivial,
      .inr ⟨rfl, rfl⟩, Nat.zero_le _⟩, fun _ _ _ => trivial⟩
  | deleteMark page slot trxId =>
    rw [BtreeState.step] at hstep
    rcases htuple : s.tupleAt page slot with _ | ⟨leaf, tuple⟩
    · rw [htuple] at hstep
      cases hstep
    rw [htuple] at hstep
    dsimp only at hstep
    rcases hmark : leaf.body.deleteMark slot trxId with e | body
    · rw [hmark] at hstep
      cases hstep
    rw [hmark] at hstep
    cases hstep
    obtain ⟨hpage, -⟩ := BtreeState.tupleAt_eq_some htuple
    obtain ⟨length, tuple, hold, htrx, rfl⟩ := HeapPage.deleteMark_eq_ok hmark
    exact ⟨page, leaf, slot, length, tuple, _, ⟨hpage, hold, rfl,
      fun hok => ⟨hok.1, hok.2.1, htrx⟩, .inl ⟨rfl, rfl⟩, Nat.le_refl _⟩,
      fun _ _ hsized => hsized⟩
  | overwriteTuple page slot payload trxId undoPtr =>
    rw [BtreeState.step] at hstep
    rcases htuple : s.tupleAt page slot with _ | ⟨leaf, tuple⟩
    · rw [htuple] at hstep
      cases hstep
    rw [htuple] at hstep
    dsimp only at hstep
    rcases hwrite : leaf.body.overwriteTuple slot payload trxId undoPtr with e | body
    · rw [hwrite] at hstep
      cases hstep
    rw [hwrite] at hstep
    cases hstep
    obtain ⟨hpage, length₀, hold₀⟩ := BtreeState.tupleAt_eq_some htuple
    obtain ⟨length, tuple', hold, htrx, hfit, rfl⟩ := HeapPage.overwriteTuple_eq_ok hwrite
    rw [hold₀] at hold
    cases hold
    have hkey := hkeeps leaf tuple htuple
    rw [keystoneIdOfPayload] at hkey
    split_ifs at hkey with hword
    have hid : slotId (.live length₀ { tuple with
        trxId := trxId, undoPtr := undoPtr, payload := payload }) = some (keyOf tuple) :=
      congrArg some (Except.ok.inj hkey)
    exact ⟨page, leaf, slot, length₀, tuple, _, ⟨hpage, hold₀, rfl,
      fun _ => ⟨Nat.not_lt.mp hword, hfit, htrx⟩, .inl ⟨hid, rfl⟩, Nat.le_refl _⟩,
      fun _ hsize _ => hsize.2⟩

theorem BtreeInv.slot (h : BtreeInv s bounds height) {length : Nat} {new : HeapSlot}
    (hslot : SlotRewrite s s' page leaf i length tuple new) : BtreeInv s' bounds height := by
  rw [hslot.next]
  rcases hslot.id with ⟨hid, hins⟩ | ⟨hid, hins⟩
  · rw [hins]
    exact h.setSlot hslot.found hslot.live hslot.ok (.inl hid) hslot.bytes h.nodup (fun _ => rfl)
      (fun _ k => ⟨fun hk => ⟨hk, .inl hid⟩, fun hk => hk.1⟩)
  · refine h.setSlot hslot.found hslot.live hslot.ok (.inr hid) hslot.bytes ?_
      (fun hfail => hins.trans (if_pos hfail)) (fun hfail k => ?_)
    · rw [hins]
      split_ifs
      · exact h.nodup
      · exact h.nodup.erase _
    · rw [hins, if_neg hfail, h.nodup.mem_erase_iff, and_comm]
      refine and_congr_right fun _ => ⟨fun hne => .inr (fun heq => ?_), fun hor heq => ?_⟩
      · exact hne (Option.some.inj heq).symm
      · rcases hor with hor | hor
        · rw [hid] at hor
          cases hor
        · exact hor (congrArg some heq.symm)

/-- Every step that tears no leaf keeps the tree's shape. -/
theorem BtreeInv.step (h : BtreeInv s bounds height) (hkeeps : KeepsId s a) (hno : NoTear s a)
    (hstep : s.step a = some s') : ∃ bounds' height', BtreeInv s' bounds' height' := by
  by_cases hinsert : ∃ id payload trxId ownerOid, a = .insert id payload trxId ownerOid
  · obtain ⟨id, payload, trxId, ownerOid, rfl⟩ := hinsert
    exact h.insert hno hstep
  · obtain ⟨page, leaf, i, length, tuple, new, hslot, -⟩ := BtreeState.step_slot hkeeps
      (fun id payload trxId ownerOid heq => hinsert ⟨id, payload, trxId, ownerOid, heq⟩) hstep
    exact ⟨bounds, height, h.slot hslot⟩

-- Equal-sized payloads

theorem BtreeInv.noTear (h : BtreeInv s bounds height) {size : Nat} (hall : AllSized size s)
    (hsized : SizedAction size s a) : NoTear s a := by
  cases a with
  | insert id payload trxId ownerOid =>
    rintro descent hdescend ⟨-, ⟨other, hother, hlt⟩, hcount, hnofit⟩
    have hid : id < idSpace := Nat.lt_of_lt_of_le hlt (le_maxTupleId_of_mem_liveIds hother |>.trans
      (Nat.sub_le _ _))
    obtain rfl : payload.length = size := hsized.2
    by_cases hheight : height < maxBtreeDepth
    · obtain ⟨descent', lo, hi, hdescend', hland⟩ := h.shape.landed hheight hid
      rw [hdescend] at hdescend'
      cases hdescend'
      exact hnofit (divisionFits_of_sized hland.ok id (hall _ _ hland.page) hcount)
    · obtain ⟨e, he, -⟩ := h.shape.too_deep (Nat.not_lt.mp hheight) hid
      rw [hdescend] at he
      cases he
  | retireSlot | deleteMark | overwriteTuple => trivial

variable {size : Nat}

theorem allSized_insert {answer : StatusOr InsertPlacement} (hsize : payload.length = size)
    (hall : ∀ id leaf, store.pages id = some (.leaf leaf) →
      ∀ slot ∈ leaf.body.slots, SlotSized size slot)
    (hout : InsertOutcome store bounds root height id payload trxId store' answer) :
    ∀ id leaf, store'.pages id = some (.leaf leaf) →
      ∀ slot ∈ leaf.body.slots, SlotSized size slot := by
  subst hsize
  -- The pages of a leaf in two, and every other page as it was.
  have hsplits : ∀ {descent lo hi sep store₁ oldLeaf newLeaf ids},
      store.pages descent.leafId = some (.leaf descent.leaf) →
      LeafSplit store store₁ descent payload lo hi sep oldLeaf newLeaf ids →
      ∀ id leaf, store₁.pages id = some (.leaf leaf) →
        ∀ slot ∈ leaf.body.slots, SlotSized payload.length slot := by
    intro descent lo hi sep store₁ oldLeaf newLeaf ids hpage hsplit id leaf hid slot hslot
    have hboth := hsplit.sized (hall _ _ hpage)
    by_cases hold : id = descent.leafId
    · rw [hold, hsplit.oldPage] at hid
      cases hid
      exact hboth slot (mem_append.mpr (.inl hslot))
    · by_cases hnew : id = store.nextPageId
      · rw [hnew, hsplit.newPage] at hid
        cases hid
        exact hboth slot (mem_append.mpr (.inr hslot))
      · rw [hsplit.other id hold hnew] at hid
        exact hall id leaf hid slot hslot
  cases hout with
  | refused e => exact hall
  | wasted e newLeaf hempty =>
    intro id leaf hid slot hslot
    change update store.pages store.nextPageId _ id = _ at hid
    by_cases hnew : id = store.nextPageId
    · rw [hnew, update_self] at hid
      cases hid
      rw [hempty] at hslot
      exact absurd hslot not_mem_nil
    · rw [update_of_ne hnew] at hid
      exact hall id leaf hid slot hslot
  | placed descent lo hi body place hland hinsert _ _ =>
    intro id leaf hid slot hslot
    change update store.pages descent.leafId _ id = _ at hid
    by_cases hold : id = descent.leafId
    · rw [hold, update_self] at hid
      cases hid
      rw [(HeapPage.insertTuple_eq_ok hinsert).2.2] at hslot
      rcases Lib.mem_snoc.mp hslot with hslot | rfl
      · exact hall _ _ hland.page slot hslot
      · rfl
    · rw [update_of_ne hold] at hid
      exact hall id leaf hid slot hslot
  | grown descent lo hi sep store₁ oldLeaf newLeaf _ out bounds' height' hland hsplit _ _ _ hsame =>
    exact fun id leaf hid => hsplits hland.page hsplit id leaf ((hsame id leaf).mp hid)
  | stranded e descent lo hi _ newLeaf hland hsplit _ => exact hsplits hland.page hsplit
  | torn e descent lo hi sep _ oldLeaf newLeaf hland hsplit _ => exact hsplits hland.page hsplit

theorem BtreeInv.step_sized (h : ∃ bounds height, BtreeInv s bounds height ∧ AllSized size s)
    (hok : SizedAction size s a) (hstep : s.step a = some s') :
    ∃ bounds' height', BtreeInv s' bounds' height' ∧ AllSized size s' := by
  obtain ⟨bounds, height, hinv, hall⟩ := h
  obtain ⟨bounds', height', hinv'⟩ := hinv.step hok.1 (hinv.noTear hall hok) hstep
  refine ⟨bounds', height', hinv', ?_⟩
  by_cases hinsert : ∃ id payload trxId ownerOid, a = .insert id payload trxId ownerOid
  · obtain ⟨id, payload, trxId, ownerOid, rfl⟩ := hinsert
    have hsized := allSized_insert hok.2 hall (hinv.outcome id payload trxId ownerOid)
    rw [BtreeState.step] at hstep
    dsimp only at hstep
    split at hstep
    · cases hstep
      exact hsized
    · cases hstep
      exact hsized
  · obtain ⟨page, leaf, i, length, tuple, new, hslot, hsized⟩ := BtreeState.step_slot hok.1
      (fun id payload trxId ownerOid heq => hinsert ⟨id, payload, trxId, ownerOid, heq⟩) hstep
    have hold : SlotSized size (.live length tuple) :=
      hall page leaf hslot.found _ (mem_of_getElem? hslot.live)
    rw [hslot.next]
    intro id leaf' hid slot hmem
    change update s.store.pages page _ id = _ at hid
    by_cases heq : id = page
    · rw [heq, update_self] at hid
      cases hid
      rcases mem_or_eq_of_mem_set hmem with hmem | rfl
      · exact hall page leaf hslot.found slot hmem
      · exact hsized size hok hold
    · rw [update_of_ne heq] at hid
      exact hall id leaf' hid slot hmem

-- The epochs

/-- No leaf's epoch passes the page ids handed out: a division, which raises it by one, takes a
    fresh page. -/
structure EpochsBelow (store : TreeStore) : Prop where
  epoch : ∀ id leaf, store.pages id = some (.leaf leaf) → leaf.relayoutEpoch ≤ store.nextPageId

namespace EpochsBelow

variable {store : TreeStore} {root : PageId} {ownerOid : Nat} {descent : Descent}

theorem createNew (h : EpochsBelow store) : EpochsBelow store.createNew :=
  ⟨fun id leaf hleaf => Nat.le_succ_of_le (h.epoch id leaf hleaf)⟩

theorem put (h : EpochsBelow store) {page : TreePage}
    (hpage : ∀ leaf, page = .leaf leaf → leaf.relayoutEpoch ≤ store.nextPageId) (pageId : PageId) :
    EpochsBelow (store.put pageId page) := by
  refine ⟨fun id leaf hleaf => ?_⟩
  by_cases hid : id = pageId
  · have hput : (store.put pageId page).pages id = some page := hid ▸ update_self ..
    exact hpage leaf (Option.some.inj (hput.symm.trans hleaf))
  · have hkept : (store.put pageId page).pages id = store.pages id := update_of_ne hid ..
    exact h.epoch id leaf (hkept.symm.trans hleaf)

theorem put_internal (h : EpochsBelow store) (pageId : PageId) (node : InternalPage) :
    EpochsBelow (store.put pageId (.internal node)) :=
  h.put (fun _ hleaf => by cases hleaf) pageId

theorem put_leaf (h : EpochsBelow store) (pageId : PageId) {leaf : LeafPage}
    (hleaf : leaf.relayoutEpoch ≤ store.nextPageId) : EpochsBelow (store.put pageId (.leaf leaf)) :=
  h.put (fun leaf' heq => by cases heq; exact hleaf) pageId

theorem divideInternalNode (h : EpochsBelow store) (nodeId : PageId) (node : InternalPage)
    (sep : Nat) (child : PageId) :
    EpochsBelow (divideInternalNode store nodeId node sep child ownerOid).1 := by
  unfold Btree.divideInternalNode
  dsimp only
  split_ifs
  · exact h
  · split
    · exact h
    · split
      · exact h.createNew
      · split
        · exact h.createNew.put_internal _ _
        · exact (h.createNew.put_internal _ _).put_internal _ _

theorem promoteSeparator (h : EpochsBelow store) (path : List PageId) (level sep : Nat)
    (child : PageId) (out : InsertPlacement) :
    EpochsBelow (promoteSeparator store root ownerOid path level sep child out).1 := by
  induction path generalizing store level sep child out with
  | nil =>
    unfold Btree.promoteSeparator
    dsimp only
    split
    · exact h.createNew
    · exact h.createNew.put_internal _ _
  | cons parentId path ih =>
    unfold Btree.promoteSeparator
    split
    · exact h
    · exact h
    · next parent _ =>
      split
      · split
        · exact h
        · exact h.put_internal _ _
      · split
        · dsimp only
          split
          · exact h.createNew
          · exact ih (h.createNew.put_internal _ _) ..
        · have hdivided := @h.divideInternalNode _ ownerOid parentId parent sep child
          split
          · next heq => rw [heq] at hdivided; exact hdivided
          · next heq => rw [heq] at hdivided; exact ih hdivided ..

theorem insertIntoHalf (h : EpochsBelow store) (descent : Descent) (id : Nat) (payload : Bytes)
    (trxId splitKey : Nat) (newLeafId : PageId) {newLeaf rebuilt : LeafPage}
    (hnew : newLeaf.relayoutEpoch ≤ store.nextPageId)
    (hrebuilt : rebuilt.relayoutEpoch ≤ store.nextPageId) :
    EpochsBelow (insertIntoHalf store root descent id payload trxId ownerOid splitKey newLeafId
      newLeaf rebuilt).1 := by
  unfold Btree.insertIntoHalf
  dsimp only
  split
  · exact (h.put_leaf _ hnew).put_leaf _ hrebuilt
  · refine EpochsBelow.promoteSeparator ((h.put_leaf _ ?_).put_leaf _ ?_) ..
    · split
      · exact hnew
      · exact hnew
    · split
      · exact hrebuilt
      · exact hrebuilt

theorem createEmptyAs_epoch {minKey : Nat} {leaf : LeafPage}
    (h : LeafPage.createEmptyAs minKey ownerOid = .ok leaf) : leaf.relayoutEpoch = 0 := by
  unfold LeafPage.createEmptyAs at h
  split at h
  · cases h
  · cases h
    rfl

theorem splitLeafAndInsert (h : EpochsBelow store)
    (hleaf : descent.leaf.relayoutEpoch ≤ store.nextPageId) (id : Nat) (payload : Bytes)
    (trxId : Nat) :
    EpochsBelow (splitLeafAndInsert store root descent id payload trxId ownerOid).1 := by
  unfold Btree.splitLeafAndInsert
  dsimp only
  split
  · exact h
  · split
    · exact h
    · split
      · exact h
      · split
        · exact h.createNew
        · next hcreated =>
          have hzero := (createEmptyAs_epoch hcreated).le.trans (Nat.zero_le (store.nextPageId + 1))
          split
          · exact h.createNew.put_leaf _ hzero
          · split
            · exact h.createNew.put_leaf _ hzero
            · next hrebuilt =>
              split
              · refine (h.createNew.put_leaf _ ?_).put_leaf _ ?_
                · exact hzero
                · exact (createEmptyAs_epoch hrebuilt).le.trans (Nat.zero_le (store.nextPageId + 1))
              · refine (h.createNew.put_leaf _ ?_).insertIntoHalf _ _ _ _ _ _ ?_ ?_
                · exact hzero
                · exact hzero
                · exact Nat.succ_le_succ hleaf

theorem appendLeafAndInsert (h : EpochsBelow store)
    (hleaf : descent.leaf.relayoutEpoch ≤ store.nextPageId) (id : Nat) (payload : Bytes)
    (trxId : Nat) :
    EpochsBelow (appendLeafAndInsert store root descent id payload trxId ownerOid).1 := by
  unfold Btree.appendLeafAndInsert
  dsimp only
  split
  · exact h.createNew
  · next hcreated =>
    have hzero := (createEmptyAs_epoch hcreated).le.trans (Nat.zero_le (store.nextPageId + 1))
    split
    · exact h.createNew.put_leaf _ hzero
    · refine ((h.createNew.put_leaf _ ?_).put_leaf _ ?_).promoteSeparator ..
      · exact hzero
      · exact Nat.le_succ_of_le hleaf

theorem stored_of_descendFrom {key fuel : Nat} {current : PageId}
    (h : descendFrom store key fuel current = .ok descent) :
    store.pages descent.leafId = some (.leaf descent.leaf) := by
  induction fuel generalizing current descent with
  | zero => cases h
  | succ fuel ih =>
    rw [descendFrom, TreeStore.get] at h
    rcases hpage : store.pages current with _ | leaf | node
    · rw [hpage] at h
      cases h
    · rw [hpage] at h
      cases h
      exact hpage
    · rw [hpage] at h
      dsimp only at h
      split at h
      · cases h
      · next hdescent =>
        cases h
        have hstored := ih hdescent
        exact hstored

theorem btreeInsert (h : EpochsBelow store) (root : PageId) (id : Nat) (payload : Bytes)
    (trxId ownerOid : Nat) :
    EpochsBelow (btreeInsert store root id payload trxId ownerOid).1 := by
  unfold Btree.btreeInsert
  split
  · exact h
  · split
    · exact h
    · split
      · exact h
      · next descent hdescent =>
        have hleaf := h.epoch _ _ (stored_of_descendFrom hdescent)
        split
        · exact h
        · split
          · exact h
          · split
            · exact h.put_leaf _ hleaf
            · split
              · exact h
              · split
                · exact h
                · split
                  · exact h.splitLeafAndInsert hleaf ..
                  · exact h.appendLeafAndInsert hleaf ..

end EpochsBelow

/-- A leaf's epoch stays below the number of pages taken. -/
theorem EpochsBelow.step {s s' : BtreeState} {a : BtreeAction} (h : EpochsBelow s.store)
    (hkeeps : KeepsId s a) (hstep : s.step a = some s') : EpochsBelow s'.store := by
  by_cases hinsert : ∃ id payload trxId ownerOid, a = .insert id payload trxId ownerOid
  · obtain ⟨id, payload, trxId, ownerOid, rfl⟩ := hinsert
    have hout := h.btreeInsert s.root id payload trxId ownerOid
    rw [BtreeState.step] at hstep
    dsimp only at hstep
    split at hstep
    · cases hstep
      exact hout
    · cases hstep
      exact hout
  · have hnot : ∀ id payload trxId ownerOid, a ≠ .insert id payload trxId ownerOid :=
      fun id payload trxId ownerOid heq => hinsert ⟨id, payload, trxId, ownerOid, heq⟩
    obtain ⟨page, leaf, i, length, tuple, new, hslot, -⟩ := BtreeState.step_slot hkeeps hnot hstep
    rw [hslot.next]
    exact h.put_leaf _ (h.epoch page leaf hslot.found)

/-- In every run a leaf's epoch stays below the number of page ids handed out, of which there are
    fewer than `2^31`: its 64 bits never wrap. -/
theorem epochsBelow_of_reach {root ownerOid : Nat} {ok : BtreeState → BtreeAction → Prop}
    (hok : ∀ s a, ok s a → KeepsId s a) {s : BtreeState}
    (hreach : Reach BtreeState.step ok (.format root ownerOid) s) : EpochsBelow s.store := by
  have hstart : EpochsBelow (BtreeState.format root ownerOid).store := by
    refine ⟨fun id leaf hleaf => ?_⟩
    rw [BtreeState.format] at hleaf
    dsimp only at hleaf
    split at hleaf
    · cases hleaf
      exact Nat.zero_le _
    · cases hleaf
  exact @Reach.invariant _ _ _ _ (fun s => EpochsBelow s.store) _ _ hreach hstart
    fun a h ha hstep => h.step (hok _ a ha) hstep

-- What every run promises

theorem TreeShape.wellShaped (h : TreeShape store bounds root height) :
    ∀ level page lo hi, bounds page = some ⟨level, lo, hi⟩ → WellShaped store level page lo hi := by
  intro level
  induction level with
  | zero =>
    intro page lo hi hbd
    obtain ⟨leaf, hpage, hok⟩ := (h.pages page _ hbd).leaf_of_level_zero rfl
    exact ⟨leaf, hpage, hok.minKey, hok.range⟩
  | succ level ih =>
    intro page lo hi hbd
    obtain ⟨node, hpage, hok⟩ := (h.pages page _ hbd).node_of_level_pos (Nat.succ_pos level)
    exact ⟨node, hpage, hok.level, hok.sorted, hok.sliced.imp (fun c a b _ _ hc => ih c a b hc)⟩

theorem BtreeInv.lookup (h : BtreeInv s bounds height) (hheight : height < maxBtreeDepth)
    (hid : id < idSpace) :
    if id ∈ s.inserted then
      ∃ loc, btreeLookup s.store s.root id = .ok loc ∧ Carries s.store loc id
    else ∃ e, btreeLookup s.store s.root id = .error e := by
  obtain ⟨descent, lo, hi, hdescend, hland⟩ := h.shape.landed hheight hid
  have hmem : id ∈ s.inserted ↔ id ∈ liveIds descent.leaf.body.slots :=
    (h.holds id).trans (hland.holds_iff h.shape)
  rw [btreeLookup, hdescend]
  dsimp only
  rcases findSlotForId_spec hland.ok.slots id with
    ⟨place, length, tuple, hfind, hslot, hkey⟩ | ⟨e, hfind, hcode, hnot⟩
  · have hlive := mem_of_getElem? hslot
    rw [if_pos (hmem.mpr (mem_liveIds.mpr ⟨length, tuple, hlive, hkey⟩)), hfind]
    refine ⟨_, rfl, descent.leaf, length, tuple, hland.page, hslot, ?_⟩
    rw [← hkey]
    exact slotKeystoneId_live (hland.ok.slots _ hlive)
  · rw [if_neg (fun hin => hnot (hmem.mp hin)), hfind]
    dsimp only
    rw [if_neg (not_not.mpr hcode)]
    exact ⟨_, rfl⟩

theorem BtreeInv.lookupExact_iff (h : BtreeInv s bounds height) :
    LookupExact s ↔ s.rootLevel < maxBtreeDepth ∨ s.inserted = [] := by
  rw [h.rootLevel_eq]
  by_cases hheight : height < maxBtreeDepth
  · exact iff_of_true (fun id hid => h.lookup hheight hid) (.inl hheight)
  -- Too deep: every lookup is refused.
  have hrefused : ∀ id, id < idSpace → ∃ e, btreeLookup s.store s.root id = .error e := by
    intro id hid
    obtain ⟨e, hdescend, -⟩ := h.shape.too_deep (Nat.not_lt.mp hheight) hid
    refine ⟨e, ?_⟩
    rw [btreeLookup, hdescend]
  constructor
  · intro hexact
    refine .inr (eq_nil_iff_forall_not_mem.mpr (fun id hin => ?_))
    obtain ⟨page, lo, hi, leaf, -, -, hmem⟩ := (h.holds id).mp hin
    have hid : id < idSpace := Nat.lt_of_le_of_lt (le_maxTupleId_of_mem_liveIds hmem) (by decide)
    have hfound := hexact id hid
    rw [if_pos hin] at hfound
    obtain ⟨loc, hok, -⟩ := hfound
    obtain ⟨e, he⟩ := hrefused id hid
    rw [hok] at he
    cases he
  · rintro (hlt | hnil) id hid
    · exact absurd hlt hheight
    · rw [if_neg (by rw [hnil]; exact not_mem_nil)]
      exact hrefused id hid

/-- Runs over rows of one bounded size keep the tree's shape. -/
theorem reach_inv {root ownerOid : Nat}
    (hreach : Reach BtreeState.step (SizedAction size) (.format root ownerOid) s) :
    ∃ bounds height, BtreeInv s bounds height ∧ AllSized size s := by
  refine hreach.invariant ⟨startBounds root, 0, BtreeInv.format root ownerOid, ?_⟩
    (fun action h hok hs => BtreeInv.step_sized h hok hs)
  intro id leaf hid slot hslot
  obtain ⟨bd, hbd⟩ := (BtreeInv.format root ownerOid).known id leaf hid not_mem_nil
  rw [startBounds] at hbd
  split_ifs at hbd with heq
  have hpage : (BtreeState.format root ownerOid).store.pages root = some (.leaf leaf) :=
    heq ▸ hid
  have hroot : (BtreeState.format root ownerOid).store.pages root = some (.leaf
      { body := { minKey := 0, freeSpace := emptyFreeSpace }, ownerOid := ownerOid }) :=
    if_pos rfl
  rw [hroot] at hpage
  cases hpage
  exact absurd hslot not_mem_nil

/-- **The tree stays in shape**, and a lookup finds exactly what is inserted, as long as the
    root is no deeper than a descent goes. -/
theorem btree_lookup_exact_iff {size root ownerOid : Nat} {s : BtreeState}
    (hreach : Reach BtreeState.step (SizedAction size) (.format root ownerOid) s) :
    WellShaped s.store s.rootLevel s.root 0 idSpace ∧
      (LookupExact s ↔ s.rootLevel < maxBtreeDepth ∨ s.inserted = []) := by
  obtain ⟨bounds, height, hinv, -⟩ := reach_inv hreach
  refine ⟨?_, hinv.lookupExact_iff⟩
  rw [hinv.rootLevel_eq]
  exact hinv.shape.wellShaped _ _ _ _ hinv.shape.root

/-- A row of 2600 bytes: a leaf holds three. -/
def thirdRow (id : UInt8) : Bytes := id :: List.replicate 2599 0

theorem length_thirdRow (id : UInt8) : (thirdRow id).length = 2600 :=
  congrArg (· + 1) length_replicate

/-- Four rows, the last of which splits the leaf of the others. -/
def splittingRun : List BtreeAction :=
  [.insert 10 (thirdRow 10) 1 1, .insert 20 (thirdRow 20) 1 1, .insert 30 (thirdRow 30) 1 1,
    .insert 40 (thirdRow 40) 2 1]

/-- The tree has two levels, with every row in it. -/
def hasSplit (s : BtreeState) : Bool := s.rootLevel = 1 && s.inserted = [40, 30, 20, 10]

theorem btree_lookup_exact_one : ∃ s, hasSplit s = true ∧
    WellShaped s.store s.rootLevel s.root 0 idSpace ∧
      (LookupExact s ↔ s.rootLevel < maxBtreeDepth ∨ s.inserted = []) := by
  have hrun : (runList BtreeState.step splittingRun (.format 1000 1)).any hasSplit = true := by
    decide +kernel
  obtain ⟨s, hs, hsplit⟩ := (Option.any_eq_true _ _).mp hrun
  have hsized : ∀ a ∈ splittingRun, ∀ s, SizedAction 2600 s a := by
    intro a ha s
    simp only [splittingRun, List.mem_cons, not_mem_nil, or_false] at ha
    rcases ha with rfl | rfl | rfl | rfl <;> exact ⟨trivial, length_thirdRow _⟩
  exact ⟨s, hsplit, btree_lookup_exact_iff (reach_of_runList hsized hs)⟩

/-- An insert above the rows of its leaf, and not at its low key. -/
def insertsAbove (s : BtreeState) : BtreeAction → Bool
  | .insert id _ _ _ =>
    match descendTo s.store s.root id with
    | .error _ => true
    | .ok descent =>
      descent.leaf.body.minKey ≠ id && (liveIds descent.leaf.body.slots).all (· < id)
  | _ => false

theorem insertsAbove_spec {trxId ownerOid : Nat}
    (h : insertsAbove s (.insert id payload trxId ownerOid) = true)
    (hdescend : descendTo s.store s.root id = .ok descent) :
    ¬Reopens descent.leaf id payload trxId ∧ ¬Tears descent.leaf id payload trxId := by
  rw [insertsAbove, hdescend] at h
  simp only [Bool.and_eq_true, decide_eq_true_eq, all_eq_true] at h
  refine ⟨fun hreopens => h.1 hreopens.2.1, fun htears => ?_⟩
  obtain ⟨-, ⟨other, hother, hlt⟩, -⟩ := htears
  exact Nat.lt_asymm hlt (h.2 other hother)

end Kds.Storage.Btree
