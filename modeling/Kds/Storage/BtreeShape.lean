/-
  Kds.Storage.BtreeShape

  The shape of a clustered tree, page by page: every page of the tree has a level and a range
  of ids, an internal node slices its range among its children, and two pages of one level own
  no id together.  Pages the tree does not use have no bounds.

  While a split climbs, the tree is in shape except for one parent: the levels above still
  see the page that was split with the range it had (`Growing.upper`), the levels below see
  its two halves (`Growing.lower`).  Each level the separator climbs moves that seam one level
  up (`Growing.lift`), until a node absorbs it or a new root does.
-/

import Kds.Storage.Btree
import Kds.Storage.BtreeLeaf
import Mathlib.Tactic.Common

namespace Kds.Storage.Btree

open Lib

/-- Every id is below this. -/
def idSpace : Nat := 2 ^ 40

/-- The level of a page of the tree, and the range `[lo, hi)` of ids it owns. -/
structure Bounds where
  level : Nat
  lo : Nat
  hi : Nat
  deriving DecidableEq

structure LeafOk (leaf : LeafPage) (lo hi : Nat) : Prop where
  minKey : leaf.body.minKey = lo
  range : ∀ id ∈ liveIds leaf.body.slots, lo ≤ id ∧ id < hi
  nodup : (liveIds leaf.body.slots).Nodup
  slots : ∀ slot ∈ leaf.body.slots, SlotOk slot
  space : leaf.body.freeSpace + usedBytes leaf.body.slots ≤ emptyFreeSpace

structure NodeOk (bounds : PageId → Option Bounds) (node : InternalPage) (bd : Bounds) :
    Prop where
  level : node.level = bd.level
  pos : 0 < bd.level
  sorted : Ascending node.entries
  room : node.entryCount ≤ internalMaxEntries
  seps : ∀ e ∈ node.entries, e.1 ≤ maxTupleId
  sliced : Sliced (fun child a b => bounds child = some ⟨bd.level - 1, a, b⟩) bd.lo bd.hi
    node.leftmostChild node.entries

inductive PageOk (store : TreeStore) (bounds : PageId → Option Bounds) (id : PageId)
    (bd : Bounds) : Prop where
  | leaf (leaf : LeafPage) (page : store.pages id = some (.leaf leaf)) (level : bd.level = 0)
      (ok : LeafOk leaf bd.lo bd.hi)
  | internal (node : InternalPage) (page : store.pages id = some (.internal node))
      (ok : NodeOk bounds node bd)

/-- Two pages of one level own no id together. -/
def Apart (bounds : PageId → Option Bounds) : Prop :=
  ∀ p q bp bq key, bounds p = some bp → bounds q = some bq → bp.level = bq.level →
    bp.lo ≤ key → key < bp.hi → bq.lo ≤ key → key < bq.hi → p = q

/-- A tree in shape: its root owns every id. -/
structure TreeShape (store : TreeStore) (bounds : PageId → Option Bounds) (root : PageId)
    (height : Nat) : Prop where
  root : bounds root = some ⟨height, 0, idSpace⟩
  pages : ∀ id bd, bounds id = some bd → PageOk store bounds id bd
  apart : Apart bounds
  below : ∀ id bd, bounds id = some bd → id < store.nextPageId
  levels : ∀ id bd, bounds id = some bd → bd.level ≤ height

/-- The bounds once a page gives the upper part of its range to another. -/
def cut (bounds : PageId → Option Bounds) (old child : PageId) (level a sep b : Nat) :
    PageId → Option Bounds :=
  Function.update (Function.update bounds old (some ⟨level, a, sep⟩)) child
    (some ⟨level, sep, b⟩)

/-- A split on its way up: `old` has given `[sep, b)` to `child`, and the node that routes
    `key` to `old` does not know it yet. -/
structure Growing (store : TreeStore) (bounds : PageId → Option Bounds) (root : PageId)
    (height level : Nat) (old child : PageId) (a sep b key : Nat) : Prop where
  root : bounds root = some ⟨height, 0, idSpace⟩
  oldBounds : bounds old = some ⟨level, a, b⟩
  fresh : bounds child = none
  below : ∀ id bd, bounds id = some bd → id < store.nextPageId
  childBelow : child < store.nextPageId
  levels : ∀ id bd, bounds id = some bd → bd.level ≤ height
  apart : Apart bounds
  keyIn : a ≤ key ∧ key < b
  sepIn : a ≤ sep ∧ sep < b
  sepMax : sep ≤ maxTupleId
  upper : ∀ id bd, bounds id = some bd → level < bd.level → PageOk store bounds id bd
  lower : ∀ id bd, cut bounds old child level a sep b id = some bd → bd.level ≤ level →
    PageOk store (cut bounds old child level a sep b) id bd

-- Reading a page in shape

section Pages

variable {store store' : TreeStore} {bounds bounds' : PageId → Option Bounds} {id : PageId}
  {bd : Bounds} {node : InternalPage}

theorem PageOk.leaf_of_level_zero (h : PageOk store bounds id bd) (hlevel : bd.level = 0) :
    ∃ leaf, store.pages id = some (.leaf leaf) ∧ LeafOk leaf bd.lo bd.hi := by
  rcases h with ⟨leaf, hpage, -, hok⟩ | ⟨node, -, hok⟩
  · exact ⟨leaf, hpage, hok⟩
  · exact absurd hok.pos (by omega)

theorem PageOk.node_of_level_pos (h : PageOk store bounds id bd) (hlevel : 0 < bd.level) :
    ∃ node, store.pages id = some (.internal node) ∧ NodeOk bounds node bd := by
  rcases h with ⟨leaf, -, hzero, -⟩ | ⟨node, hpage, hok⟩
  · omega
  · exact ⟨node, hpage, hok⟩

theorem PageOk.node_of_page (h : PageOk store bounds id bd)
    (hpage : store.pages id = some (.internal node)) : NodeOk bounds node bd := by
  rcases h with ⟨leaf, hpage', -, -⟩ | ⟨node', hpage', hok⟩
  · rw [hpage] at hpage'
    cases hpage'
  · rw [hpage] at hpage'
    cases hpage'
    exact hok

theorem PageOk.leaf_of_page {leaf : LeafPage} (h : PageOk store bounds id bd)
    (hpage : store.pages id = some (.leaf leaf)) : bd.level = 0 ∧ LeafOk leaf bd.lo bd.hi := by
  rcases h with ⟨leaf', hpage', hlevel, hok⟩ | ⟨node', hpage', -⟩
  · rw [hpage] at hpage'
    cases hpage'
    exact ⟨hlevel, hok⟩
  · rw [hpage] at hpage'
    cases hpage'

theorem NodeOk.frame (h : NodeOk bounds node bd)
    (hsame : ∀ c a b, bd.lo ≤ a → b ≤ bd.hi → bounds c = some ⟨bd.level - 1, a, b⟩ →
      bounds' c = some ⟨bd.level - 1, a, b⟩) : NodeOk bounds' node bd :=
  { h with sliced := h.sliced.imp hsame }

theorem PageOk.frame (h : PageOk store bounds id bd) (hpage : store'.pages id = store.pages id)
    (hsame : ∀ c a b, 0 < bd.level → bd.lo ≤ a → b ≤ bd.hi →
      bounds c = some ⟨bd.level - 1, a, b⟩ → bounds' c = some ⟨bd.level - 1, a, b⟩) :
    PageOk store' bounds' id bd := by
  rcases h with ⟨leaf, hleaf, hlevel, hok⟩ | ⟨node, hnode, hok⟩
  · exact .leaf leaf (hpage.trans hleaf) hlevel hok
  · exact .internal node (hpage.trans hnode) (hok.frame (fun c a b => hsame c a b hok.pos))

end Pages

-- The bounds after a cut

section Cut

variable {bounds : PageId → Option Bounds} {old child : PageId} {level a sep b : Nat} {id : PageId}
    {bd : Bounds}

theorem cut_child : cut bounds old child level a sep b child = some ⟨level, sep, b⟩ :=
  Function.update_self _ _ _

theorem cut_old (hne : old ≠ child) :
    cut bounds old child level a sep b old = some ⟨level, a, sep⟩ := by
  rw [cut, Function.update_of_ne hne, Function.update_self]

theorem cut_other (hold : id ≠ old) (hchild : id ≠ child) :
    cut bounds old child level a sep b id = bounds id := by
  rw [cut, Function.update_of_ne hchild, Function.update_of_ne hold]

theorem cut_eq_some (h : cut bounds old child level a sep b id = some bd) :
    (id = child ∧ bd = ⟨level, sep, b⟩) ∨ (id = old ∧ id ≠ child ∧ bd = ⟨level, a, sep⟩) ∨
      (id ≠ old ∧ id ≠ child ∧ bounds id = some bd) := by
  by_cases hchild : id = child
  · subst hchild
    rw [cut_child] at h
    exact .inl ⟨rfl, (Option.some.inj h).symm⟩
  · by_cases hold : id = old
    · subst hold
      rw [cut_old hchild] at h
      exact .inr (.inl ⟨rfl, hchild, (Option.some.inj h).symm⟩)
    · rw [cut_other hold hchild] at h
      exact .inr (.inr ⟨hold, hchild, h⟩)

theorem cut_of_level_ne {id : PageId} {bd : Bounds} (hold : bounds old = some ⟨level, a, b⟩)
    (hfresh : bounds child = none) (h : bounds id = some bd) (hlevel : bd.level ≠ level) :
    cut bounds old child level a sep b id = some bd := by
  rw [cut_other ?_ ?_, h]
  · rintro rfl
    rw [h] at hold
    exact hlevel (congrArg Bounds.level (Option.some.inj hold))
  · rintro rfl
    rw [h] at hfresh
    cases hfresh

theorem cut_level (h : cut bounds old child level a sep b id = some bd)
    (hlevel : bd.level ≠ level) : bounds id = some bd := by
  rcases cut_eq_some h with ⟨-, rfl⟩ | ⟨-, -, rfl⟩ | ⟨-, -, h⟩
  · exact absurd rfl hlevel
  · exact absurd rfl hlevel
  · exact h

theorem Apart.cut (h : Apart bounds) (hold : bounds old = some ⟨level, a, b⟩)
    (hsep : a ≤ sep ∧ sep < b) :
    Apart (cut bounds old child level a sep b) := by
  -- Each page of the cut tree owns part of what some page owned before.
  have hpart : ∀ id bd, Btree.cut bounds old child level a sep b id = some bd →
      ∃ id' bd', bounds id' = some bd' ∧ bd'.level = bd.level ∧ bd'.lo ≤ bd.lo ∧ bd.hi ≤ bd'.hi ∧
        (id' = old → (id = child ∧ bd.lo = sep) ∨ (id = old ∧ bd.hi = sep)) ∧
        (id' ≠ old → id = id') := by
    intro id bd hbd
    rcases cut_eq_some hbd with ⟨rfl, rfl⟩ | ⟨rfl, -, rfl⟩ | ⟨hne, -, hbd⟩
    · exact ⟨old, _, hold, rfl, hsep.1, Nat.le_refl _, fun _ => .inl ⟨rfl, rfl⟩,
        fun hne => absurd rfl hne⟩
    · exact ⟨id, _, hold, rfl, Nat.le_refl _, Nat.le_of_lt hsep.2, fun _ => .inr ⟨rfl, rfl⟩,
        fun hne => absurd rfl hne⟩
    · exact ⟨id, bd, hbd, rfl, Nat.le_refl _, Nat.le_refl _, fun heq => absurd heq hne,
        fun _ => rfl⟩
  intro p q bp bq key hp hq hlevel hplo hphi hqlo hqhi
  obtain ⟨p', bp', hp', hpl, hpa, hpb, hpold, hpne⟩ := hpart p bp hp
  obtain ⟨q', bq', hq', hql, hqa, hqb, hqold, hqne⟩ := hpart q bq hq
  have hsame : p' = q' := h p' q' bp' bq' key hp' hq' (by omega) (by omega) (by omega) (by omega)
    (by omega)
  subst hsame
  by_cases hpo : p' = old
  · rcases hpold hpo with ⟨rfl, hlo⟩ | ⟨rfl, hhi⟩
    · rcases hqold hpo with ⟨rfl, -⟩ | ⟨rfl, hhi'⟩
      · rfl
      · omega
    · rcases hqold hpo with ⟨rfl, hlo'⟩ | ⟨rfl, -⟩
      · omega
      · rfl
  · rw [hpne hpo, hqne hpo]

end Cut

-- One level up

namespace Growing

variable {store store' : TreeStore} {bounds : PageId → Option Bounds} {root : PageId}
  {height level : Nat} {old child : PageId} {a sep b key : Nat}

theorem old_ne_child (h : Growing store bounds root height level old child a sep b key) :
    old ≠ child := by
  rintro rfl
  have hfresh := h.fresh
  rw [h.oldBounds] at hfresh
  cases hfresh

theorem slice_other (h : Growing store bounds root height level old child a sep b key)
    {c : PageId} {u v : Nat} (hc : bounds c = some ⟨level, u, v⟩) (hkey : ¬(u ≤ key ∧ key < v)) :
    cut bounds old child level a sep b c = some ⟨level, u, v⟩ := by
  rw [cut_other ?_ ?_, hc]
  · rintro rfl
    rw [h.oldBounds] at hc
    cases hc
    exact hkey h.keyIn
  · rintro rfl
    rw [h.fresh] at hc
    cases hc

theorem slice_cut (h : Growing store bounds root height level old child a sep b key) {u v : Nat}
    (hc : bounds old = some ⟨level, u, v⟩) :
    u ≤ sep ∧ sep < v ∧ cut bounds old child level a sep b old = some ⟨level, u, sep⟩ ∧
      cut bounds old child level a sep b child = some ⟨level, sep, v⟩ := by
  rw [h.oldBounds] at hc
  cases hc
  exact ⟨h.sepIn.1, h.sepIn.2, cut_old h.old_ne_child, cut_child⟩

theorem upper_ok (h : Growing store bounds root height level old child a sep b key)
    {id : PageId} {bd : Bounds} (hid : bounds id = some bd) (hlevel : level < bd.level)
    (hkey : bd.level = level + 1 → ¬(bd.lo ≤ key ∧ key < bd.hi))
    (hpage : store'.pages id = store.pages id) :
    PageOk store' (cut bounds old child level a sep b) id bd := by
  refine (h.upper id bd hid hlevel).frame hpage (fun c u v _ hu hv hc => ?_)
  by_cases hnext : bd.level = level + 1
  · have hlvl : bd.level - 1 = level := by omega
    rw [hlvl] at hc ⊢
    exact h.slice_other hc (fun hin => hkey hnext ⟨by omega, by omega⟩)
  · exact cut_of_level_ne h.oldBounds h.fresh hc (by show bd.level - 1 ≠ level; omega)

variable {parent : PageId} {node : InternalPage} {lo hi : Nat}

theorem sliced_insert (h : Growing store bounds root height level old child a sep b key)
    (hok : NodeOk bounds node ⟨level + 1, lo, hi⟩) (hkey : lo ≤ key ∧ key < hi)
    (hroute : node.childFor key = old) (hnew : ∀ e ∈ node.entries, e.1 ≠ sep) :
    Sliced (fun c u v => cut bounds old child level a sep b c = some ⟨level, u, v⟩) lo hi
      node.leftmostChild (insertSep sep child node.entries) := by
  have hroute' : route node.leftmostChild node.entries key = old := by
    rw [← InternalPage.childFor_eq_route hok.sorted, hroute]
  refine hok.sliced.insertSep hkey.1 hkey.2 (fun c u v hc hin => h.slice_other hc hin)
    (fun u v hc _ _ => ?_) hnew
  rw [hroute'] at hc ⊢
  exact h.slice_cut hc

theorem sliced_cutLast (h : Growing store bounds root height level old child a sep b key)
    (hok : NodeOk bounds node ⟨level + 1, lo, hi⟩) (hkey : lo ≤ key ∧ key < hi)
    (hroute : node.childFor key = old) (hall : ∀ e ∈ node.entries, e.1 ≤ sep) :
    Sliced (fun c u v => cut bounds old child level a sep b c = some ⟨level, u, v⟩) lo sep
        node.leftmostChild node.entries ∧
      cut bounds old child level a sep b child = some ⟨level, sep, hi⟩ ∧ sep < hi := by
  have hroute' : route node.leftmostChild node.entries key = old := by
    rw [← InternalPage.childFor_eq_route hok.sorted, hroute]
  have hlast := hok.sliced.cutLast hkey.1 hkey.2 (fun c u v hc hin => h.slice_other hc hin)
    (fun u v hc _ _ => (by rw [hroute'] at hc ⊢; exact h.slice_cut hc)) hall
  exact hlast

theorem sep_new (h : Growing store bounds root height level old child a sep b key)
    (hok : NodeOk bounds node ⟨level + 1, lo, hi⟩) (hkey : lo ≤ key ∧ key < hi)
    (hroute : node.childFor key = old) (hstrict : a < sep) : ∀ e ∈ node.entries, e.1 ≠ sep := by
  have hroute' : route node.leftmostChild node.entries key = old := by
    rw [← InternalPage.childFor_eq_route hok.sorted, hroute]
  refine hok.sliced.ne_sep hkey.1 hkey.2 (fun u v hc _ _ => ?_)
  rw [hroute'] at hc
  have hsame : Bounds.mk level a b = ⟨level, u, v⟩ :=
    Option.some.inj (h.oldBounds.symm.trans hc)
  cases hsame
  exact ⟨hstrict, h.sepIn.2⟩

end Growing

end Kds.Storage.Btree
