/-
  Kds.Storage.BtreePromote

  `PromoteSeparator` puts a tree back in shape.  Each node on the way up absorbs the separator,
  grows a right neighbour, or divides; past the root a new root takes the two halves.  The one
  separator it can refuse is the first, when the leaf's parent already has it.
-/

import Kds.Storage.BtreeShape

namespace Kds.Storage.Btree

open Lib List
open Function (update update_self update_of_ne)

variable {store store' : TreeStore} {bounds : PageId → Option Bounds} {root : PageId}
  {height level : Nat} {old child : PageId} {a sep b key : Nat} {path : List PageId} {id : PageId}

-- The three things one level does

namespace Growing

variable {parent : PageId} {node : InternalPage} {lo hi : Nat}

theorem lower_ok (h : Growing store bounds root height level old child a sep b key)
    {bounds' : PageId → Option Bounds} {bd : Bounds}
    (hid : cut bounds old child level a sep b id = some bd) (hlevel : bd.level ≤ level)
    (hpage : store'.pages id = store.pages id)
    (hsame : ∀ c bc, cut bounds old child level a sep b c = some bc → bc.level < level →
      bounds' c = some bc) : PageOk store' bounds' id bd := by
  refine (h.lower id bd hid hlevel).frame hpage (fun c u v hpos _ _ hc => hsame c _ hc ?_)
  show bd.level - 1 < level
  omega

theorem below_cut (h : Growing store bounds root height level old child a sep b key) :
    ∀ id bd, cut bounds old child level a sep b id = some bd → id < store.nextPageId := by
  intro id bd hid
  rcases cut_eq_some hid with ⟨rfl, -⟩ | ⟨rfl, -, -⟩ | ⟨-, -, hid⟩
  · exact h.childBelow
  · exact h.below _ _ h.oldBounds
  · exact h.below id bd hid

theorem levels_cut (h : Growing store bounds root height level old child a sep b key) :
    ∀ id bd, cut bounds old child level a sep b id = some bd → bd.level ≤ height := by
  have hlevel : level ≤ height := h.levels old _ h.oldBounds
  intro id bd hid
  rcases cut_eq_some hid with ⟨-, rfl⟩ | ⟨-, -, rfl⟩ | ⟨-, -, hid⟩
  · exact hlevel
  · exact hlevel
  · exact h.levels id bd hid

theorem absorbed (h : Growing store bounds root height level old child a sep b key)
    (hparent : bounds parent = some ⟨level + 1, lo, hi⟩) (hkey : lo ≤ key ∧ key < hi)
    (hpage : store.pages parent = some (.internal node)) (hroute : node.childFor key = old)
    (hnew : ∀ e ∈ node.entries, e.1 ≠ sep) (hroom : node.entryCount < internalMaxEntries) :
    TreeShape (store.put parent (.internal { node with
        entries := insertSep sep child node.entries }))
      (cut bounds old child level a sep b) root height := by
  have hok := (h.upper parent _ hparent (Nat.lt_succ_self level)).node_of_page hpage
  have hother : ∀ id, id ≠ parent → (store.put parent (.internal { node with
      entries := insertSep sep child node.entries })).pages id = store.pages id :=
    fun id hid => update_of_ne hid _ _
  have hlift : ∀ {id bd}, bounds id = some bd → bd.level ≠ level →
      cut bounds old child level a sep b id = some bd :=
    fun hid hlevel => cut_of_level_ne h.oldBounds h.fresh hid hlevel
  have hparentCut := hlift hparent (Nat.succ_ne_self level)
  constructor
  · rcases Nat.eq_or_lt_of_le (h.levels old _ h.oldBounds) with heq | hlt
    · -- The root is above the split page: the parent is, and no page is above the root.
      have hroot := h.levels parent _ hparent
      change level = height at heq
      change level + 1 ≤ height at hroot
      omega
    · exact hlift h.root (Nat.ne_of_gt hlt)
  · intro id bd hid
    by_cases hidp : id = parent
    · subst hidp
      rw [hparentCut] at hid
      cases hid
      refine .internal { node with entries := insertSep sep child node.entries }
        (update_self _ _ _) ⟨hok.level, hok.pos, ascending_insertSep hok.sorted hnew, ?_,
        fun e he => ?_, ?_⟩
      · show (insertSep sep child node.entries).length ≤ internalMaxEntries
        rw [length_insertSep]
        exact hroom
      · rcases mem_insertSep.mp he with rfl | he
        · exact h.sepMax
        · exact hok.seps e he
      · exact h.sliced_insert hok hkey hroute hnew
    · by_cases hlevel : bd.level ≤ level
      · exact h.lower_ok hid hlevel (hother id hidp) (fun c bc hc _ => hc)
      · have hid' := cut_level hid (by omega)
        refine h.upper_ok hid' (by omega) (fun hnext hin => hidp ?_) (hother id hidp)
        exact h.apart id parent bd _ key hid' hparent hnext hin.1 hin.2 hkey.1 hkey.2
  · exact h.apart.cut h.oldBounds h.sepIn
  · exact h.below_cut
  · exact h.levels_cut

theorem lift (h : Growing store bounds root height level old child a sep b key)
    (hparent : bounds parent = some ⟨level + 1, lo, hi⟩) (hkey : lo ≤ key ∧ key < hi)
    {right : PageId} {leftNode rightNode : InternalPage} {sep' : Nat}
    (hright : right = store.nextPageId) (hnext : store'.nextPageId = store.nextPageId + 1)
    (hstore : ∀ id, id ≠ parent → id ≠ right → store'.pages id = store.pages id)
    (hleftPage : store'.pages parent = some (.internal leftNode))
    (hrightPage : store'.pages right = some (.internal rightNode))
    (hleft : NodeOk (cut bounds old child level a sep b) leftNode ⟨level + 1, lo, sep'⟩)
    (hrightOk : NodeOk (cut bounds old child level a sep b) rightNode ⟨level + 1, sep', hi⟩)
    (hsep : lo ≤ sep' ∧ sep' < hi) (hmax : sep' ≤ maxTupleId) :
    Growing store' (cut bounds old child level a sep b) root height (level + 1) parent right
      lo sep' hi key := by
  have hlift : ∀ {id bd}, bounds id = some bd → bd.level ≠ level →
      cut bounds old child level a sep b id = some bd :=
    fun hid hlevel => cut_of_level_ne h.oldBounds h.fresh hid hlevel
  have hparentCut := hlift hparent (Nat.succ_ne_self level)
  have hfresh : cut bounds old child level a sep b right = none := by
    by_contra hsome
    obtain ⟨bd, hbd⟩ := Option.ne_none_iff_exists'.mp hsome
    exact Nat.ne_of_lt (h.below_cut right bd hbd) hright
  have hpages : ∀ id bd, cut bounds old child level a sep b id = some bd → id ≠ parent →
      store'.pages id = store.pages id := by
    intro id bd hid hne
    refine hstore id hne (fun heq => ?_)
    rw [heq, hfresh] at hid
    cases hid
  -- The new cut touches no page of a level below the parent's.
  have hkeep : ∀ c bc, cut bounds old child level a sep b c = some bc → bc.level ≠ level + 1 →
      cut (cut bounds old child level a sep b) parent right (level + 1) lo sep' hi c = some bc :=
    fun c bc hc hne => cut_of_level_ne hparentCut hfresh hc hne
  refine ⟨?_, hparentCut, hfresh, fun id bd hid => ?_, ?_, h.levels_cut,
    h.apart.cut h.oldBounds h.sepIn, hkey, hsep, hmax, fun id bd hid hlevel => ?_,
    fun id bd hid hlevel => ?_⟩
  · refine hlift h.root (fun heq => ?_)
    have hle : level + 1 ≤ height := h.levels parent _ hparent
    change height = level at heq
    omega
  · rw [hnext]
    exact Nat.lt_succ_of_lt (h.below_cut id bd hid)
  · rw [hnext, hright]
    exact Nat.lt_succ_self _
  · have hid' := cut_level hid (by omega)
    refine h.upper_ok hid' (by omega) (fun heq => absurd heq (by omega)) (hpages id bd hid ?_)
    rintro rfl
    rw [hparentCut] at hid
    cases hid
    exact absurd hlevel (Nat.lt_irrefl _)
  · rcases cut_eq_some hid with ⟨rfl, rfl⟩ | ⟨rfl, -, rfl⟩ | ⟨hne, -, hid'⟩
    · exact .internal rightNode hrightPage (hrightOk.frame (fun c u v _ _ hc =>
        hkeep c _ hc (Nat.succ_ne_self level).symm))
    · exact .internal leftNode hleftPage (hleft.frame (fun c u v _ _ hc =>
        hkeep c _ hc (Nat.succ_ne_self level).symm))
    · by_cases hlow : bd.level ≤ level
      · refine h.lower_ok hid' hlow (hpages id bd hid' hne) (fun c bc hc hlt => ?_)
        exact hkeep c bc hc (by omega)
      · have hbd := cut_level hid' (by omega)
        have hok := h.upper_ok hbd (by omega)
          (fun hnext' hin => hne (h.apart id parent bd _ key hbd hparent hnext' hin.1 hin.2
            hkey.1 hkey.2)) (hpages id bd hid' hne)
        exact hok.frame rfl (fun c u v hpos _ _ hc => hkeep c _ hc (by
          show bd.level - 1 ≠ level + 1
          omega))

theorem newRoot (h : Growing store bounds root height height root child a sep b key)
    (ownerOid : Nat) :
    TreeShape ((store.createNew).put store.nextPageId (.internal
        { level := height + 1, leftmostChild := root, entries := [(sep, child)]
          ownerOid := ownerOid }))
      (update (cut bounds root child height a sep b) store.nextPageId
        (some ⟨height + 1, 0, idSpace⟩)) store.nextPageId (height + 1) := by
  have hab : Bounds.mk height a b = ⟨height, 0, idSpace⟩ :=
    Option.some.inj (h.oldBounds.symm.trans h.root)
  have ha : a = 0 := congrArg Bounds.lo hab
  have hb : b = idSpace := congrArg Bounds.hi hab
  subst ha hb
  have hkeep : ∀ id bd, cut bounds root child height 0 sep idSpace id = some bd →
      update (cut bounds root child height 0 sep idSpace) store.nextPageId
        (some ⟨height + 1, 0, idSpace⟩) id = some bd := by
    intro id bd hid
    rw [update_of_ne (Nat.ne_of_lt (h.below_cut id bd hid)), hid]
  have hcases : ∀ id bd, update (cut bounds root child height 0 sep idSpace)
      store.nextPageId (some ⟨height + 1, 0, idSpace⟩) id = some bd →
      (id = store.nextPageId ∧ bd = ⟨height + 1, 0, idSpace⟩) ∨
        (id ≠ store.nextPageId ∧ cut bounds root child height 0 sep idSpace id = some bd) := by
    intro id bd hid
    by_cases heq : id = store.nextPageId
    · subst heq
      rw [update_self] at hid
      exact .inl ⟨rfl, (Option.some.inj hid).symm⟩
    · rw [update_of_ne heq] at hid
      exact .inr ⟨heq, hid⟩
  refine ⟨update_self _ _ _, fun id bd hid => ?_, ?_, fun id bd hid => ?_,
    fun id bd hid => ?_⟩
  · rcases hcases id bd hid with ⟨rfl, rfl⟩ | ⟨hne, hid'⟩
    · refine .internal _ (update_self _ _ _) ⟨rfl, Nat.succ_pos _,
        pairwise_singleton _ _, by show 1 ≤ 678; omega, fun e he => ?_, ?_⟩
      · rw [mem_singleton.mp he]
        exact h.sepMax
      · exact ⟨Nat.zero_le _, hkeep _ _ (cut_old h.old_ne_child), Nat.le_of_lt h.sepIn.2,
          hkeep _ _ cut_child⟩
    · exact h.lower_ok hid' (h.levels_cut id bd hid') (update_of_ne hne _ _)
        (fun c bc hc _ => hkeep c bc hc)
  · intro p q bp bq k hp hq hlevel hplo hphi hqlo hqhi
    rcases hcases p bp hp with ⟨rfl, rfl⟩ | ⟨-, hp'⟩
    · rcases hcases q bq hq with ⟨rfl, -⟩ | ⟨-, hq'⟩
      · rfl
      · have hle := h.levels_cut q bq hq'
        change height + 1 = bq.level at hlevel
        omega
    · rcases hcases q bq hq with ⟨rfl, rfl⟩ | ⟨-, hq'⟩
      · have hle := h.levels_cut p bp hp'
        change bp.level = height + 1 at hlevel
        omega
      · exact (h.apart.cut h.oldBounds h.sepIn) p q bp bq k hp' hq' hlevel hplo hphi hqlo hqhi
  · rcases hcases id bd hid with ⟨rfl, -⟩ | ⟨-, hid'⟩
    · exact Nat.lt_succ_self _
    · exact Nat.lt_succ_of_lt (h.below_cut id bd hid')
  · rcases hcases id bd hid with ⟨-, rfl⟩ | ⟨-, hid'⟩
    · exact Nat.le_refl _
    · exact Nat.le_succ_of_le (h.levels_cut id bd hid')

end Growing

-- The climb

/-- The way up from a page to the root: each node routes the key to the page below it. -/
def Ascent (store : TreeStore) (bounds : PageId → Option Bounds) (root : PageId)
    (height key : Nat) : Nat → PageId → List PageId → Prop
  | level, bottom, [] => bottom = root ∧ level = height
  | level, bottom, parent :: rest =>
    (∃ node lo hi, store.pages parent = some (.internal node) ∧
      bounds parent = some ⟨level + 1, lo, hi⟩ ∧ (lo ≤ key ∧ key < hi) ∧
      node.childFor key = bottom) ∧
    Ascent store bounds root height key (level + 1) parent rest

theorem Ascent.frame {bounds' : PageId → Option Bounds} {bottom : PageId}
    (h : Ascent store bounds root height key level bottom path)
    (hsame : ∀ id bd, bounds id = some bd → level < bd.level →
      store'.pages id = store.pages id ∧ bounds' id = some bd) :
    Ascent store' bounds' root height key level bottom path := by
  induction path generalizing level bottom with
  | nil => exact h
  | cons parent rest ih =>
    obtain ⟨⟨node, lo, hi, hpage, hbounds, hkey, hroute⟩, hrest⟩ := h
    obtain ⟨hstore, hbounds'⟩ := hsame parent _ hbounds (Nat.lt_succ_self level)
    refine ⟨⟨node, lo, hi, hstore.trans hpage, hbounds', hkey, hroute⟩, ih hrest ?_⟩
    exact fun id bd hid hlevel => hsame id bd hid (Nat.lt_of_succ_lt hlevel)

/-- Pages that are not handed out yet hold nothing. -/
def Allocated (store : TreeStore) : Prop :=
  ∀ id, store.nextPageId ≤ id → store.pages id = none

theorem Allocated.lt {page : TreePage} (h : Allocated store) (hpage : store.pages id = some page) :
    id < store.nextPageId := by
  by_contra hge
  rw [h id (Nat.not_lt.mp hge)] at hpage
  cases hpage

theorem Allocated.put (h : Allocated store) (hid : id < store.nextPageId) (page : TreePage) :
    Allocated (store.put id page) := by
  intro other hother
  have hne : other ≠ id := Nat.ne_of_gt (Nat.lt_of_lt_of_le hid hother)
  show update store.pages id (some page) other = none
  rw [update_of_ne hne]
  exact h other hother

theorem Allocated.createNew (h : Allocated store) : Allocated store.createNew :=
  fun id hid => h id (Nat.le_of_succ_le hid)

/-- No leaf was written over, and none made: what an update of the internal levels does. -/
def SameLeaves (store store' : TreeStore) : Prop :=
  ∀ id leaf, store'.pages id = some (.leaf leaf) ↔ store.pages id = some (.leaf leaf)

theorem SameLeaves.put_internal (node : InternalPage)
    (hid : ∀ leaf, store.pages id ≠ some (.leaf leaf)) :
    SameLeaves store (store.put id (.internal node)) := by
  intro other leaf
  show update store.pages id (some (.internal node)) other = some (.leaf leaf) ↔ _
  by_cases heq : other = id
  · subst heq
    rw [update_self]
    exact ⟨fun h => (by cases h), fun h => absurd h (hid leaf)⟩
  · rw [update_of_ne heq]

theorem SameLeaves.createNew : SameLeaves store store.createNew := fun _ _ => Iff.rfl

theorem SameLeaves.trans {store'' : TreeStore} (h : SameLeaves store store')
    (h' : SameLeaves store' store'') : SameLeaves store store'' :=
  fun id leaf => (h' id leaf).trans (h id leaf)

theorem divideInternalNode_eq {node : InternalPage} (hsorted : Ascending node.entries)
    (hseps : ∀ e ∈ node.entries, e.1 ≤ maxTupleId) (hsep : sep ≤ maxTupleId)
    (hnew : ∀ e ∈ node.entries, e.1 ≠ sep) (hfull : node.entryCount = internalMaxEntries)
    (hlevel : node.level ≠ 0) (nodeId : PageId) (ownerOid : Nat) :
    ∃ lower median upper, insertSep sep child node.entries = lower ++ median :: upper ∧
      lower ≠ [] ∧ upper ≠ [] ∧
      divideInternalNode store nodeId node sep child ownerOid =
        ((store.createNew.put store.nextPageId (.internal
            { level := node.level, leftmostChild := median.2, entries := upper
              ownerOid := ownerOid })).put nodeId (.internal { node with entries := lower }),
          .ok ⟨median.1, store.nextPageId⟩) := by
  have hlen : (insertSep sep child node.entries).length = 679 := by
    rw [length_insertSep]
    exact congrArg (· + 1) hfull
  have hasc := @ascending_insertSep _ sep child _ hsorted hnew
  have hmax : ∀ e ∈ insertSep sep child node.entries, e.1 ≤ maxTupleId := by
    intro e he
    rcases mem_insertSep.mp he with rfl | he
    · exact hsep
    · exact hseps e he
  obtain ⟨lower, hlower⟩ : ∃ lower, (insertSep sep child node.entries).take 339 = lower := ⟨_, rfl⟩
  have hdrop : (insertSep sep child node.entries).drop 339 ≠ [] := by
    intro hnil
    have := congrArg List.length hnil
    rw [length_drop, hlen] at this
    cases this
  obtain ⟨median, upper, hupper⟩ := exists_cons_of_ne_nil hdrop
  have hsplit : insertSep sep child node.entries = lower ++ median :: upper := by
    rw [← hlower, ← hupper, take_append_drop]
  have hlowerLen : lower.length = 339 := by
    rw [← hlower, length_take, hlen]
    rfl
  have hupperLen : upper.length = 339 := by
    have := congrArg List.length hsplit
    rw [hlen, length_append, length_cons, hlowerLen] at this
    omega
  refine ⟨lower, median, upper, hsplit, ne_nil_of_length_pos (by omega),
    ne_nil_of_length_pos (by omega), ?_⟩
  rw [hsplit] at hasc hmax
  obtain ⟨hascLower, hascUpper, -⟩ := ascending_append.mp hasc
  have hhead : ¬(node.entries.dropWhile (fun e => decide (e.1 < sep))).head?.map Prod.fst =
      some sep := by
    intro hhead
    obtain ⟨e, he, hfst⟩ := Option.map_eq_some_iff.mp hhead
    exact hnew e ((dropWhile_sublist _).subset (mem_of_head? he)) hfst
  have hright : (InternalPage.createEmpty node.level median.2 ownerOid).bind
      (·.insertEntries upper) = .ok { level := node.level, leftmostChild := median.2
                                      entries := upper, ownerOid := ownerOid } := by
    rw [InternalPage.createEmpty, if_neg hlevel]
    refine (InternalPage.insertEntries_spec (ascending_cons.mp hascUpper).2
      (fun e he => hmax e (by simp [he])) ?_)
    show 0 + upper.length ≤ 678
    omega
  have hleft : (InternalPage.createEmpty node.level node.leftmostChild node.ownerOid).bind
      (·.insertEntries lower) = .ok { node with entries := lower } := by
    rw [InternalPage.createEmpty, if_neg hlevel]
    refine (InternalPage.insertEntries_spec hascLower (fun e he => hmax e (by simp [he])) ?_)
    show 0 + lower.length ≤ 678
    omega
  rw [divideInternalNode]
  dsimp only
  rw [if_neg hhead, ← insertSep_eq_takeWhile, hlen]
  rw [hupper]
  dsimp only
  rw [hright]
  dsimp only
  rw [hlower, hleft]

/-- The parent of the page that was split can take the separator: it is not there yet, or the
    parent is full and has nothing above it. -/
def SepFree (store : TreeStore) (sep : Nat) : List PageId → Prop
  | [] => True
  | parent :: _ => ∀ node, store.pages parent = some (.internal node) →
      (node.isFull = true → node.separatorAboveEveryEntry sep = false) →
      ∀ e ∈ node.entries, e.1 ≠ sep

theorem Growing.sepFree (h : Growing store bounds root height level old child a sep b key)
    (hpath : Ascent store bounds root height key level old path) (hstrict : a < sep) :
    SepFree store sep path := by
  rcases path with _ | ⟨parent, rest⟩
  · trivial
  · obtain ⟨⟨node, lo, hi, hpage, hparent, hkey, hroute⟩, -⟩ := hpath
    intro node' hpage' _
    obtain rfl : node = node' := by
      rw [hpage] at hpage'
      cases hpage'
      rfl
    have hok := (h.upper parent _ hparent (Nat.lt_succ_self level)).node_of_page hpage
    exact h.sep_new hok hkey hroute hstrict

theorem NodeOk.lo_lt {node : InternalPage} {bd : Bounds} (h : NodeOk bounds node bd)
    (hfull : node.entryCount = internalMaxEntries) {top : Nat}
    (htop : ∀ e ∈ node.entries, e.1 ≤ top) : bd.lo < top := by
  have hlen : node.entries.length = 678 := hfull
  rcases hentries : node.entries with _ | ⟨first, _ | ⟨second, rest⟩⟩
  · rw [hentries] at hlen
    cases hlen
  · rw [hentries] at hlen
    cases hlen
  · have hsorted := h.sorted
    rw [hentries] at hsorted htop
    have hlo := (h.sliced.sep_mem (show first ∈ node.entries by simp [hentries])).1
    have hlt := (ascending_cons.mp hsorted).1 second mem_cons_self
    have hle := htop second (by simp)
    omega

theorem cut_leaf_iff (hold : bounds old = some ⟨level, a, b⟩) (hfresh : bounds child = none)
    (hlevel : level ≠ 0) (id : PageId) (u v : Nat) :
    cut bounds old child level a sep b id = some ⟨0, u, v⟩ ↔ bounds id = some ⟨0, u, v⟩ :=
  ⟨fun h => cut_level h (Ne.symm hlevel), fun h => cut_of_level_ne hold hfresh h (Ne.symm hlevel)⟩

/-- What one level leaves behind when the separator climbs on: the seam one level up, and no
    leaf touched. -/
structure Climbed (store store' : TreeStore) (bounds : PageId → Option Bounds) (root : PageId)
    (height level : Nat) (parent right : PageId) (lo sep hi key : Nat) : Prop where
  growing : Growing store' bounds root height level parent right lo sep hi key
  strict : lo < sep
  above : ∀ id bd, bounds id = some bd → level < bd.level → store'.pages id = store.pages id
  leaves : SameLeaves store store'
  allocated : Allocated store'
  next : store.nextPageId ≤ store'.nextPageId

section Level

variable {parent : PageId} {node : InternalPage} {lo hi : Nat}

theorem Growing.append (h : Growing store bounds root height level old child a sep b key)
    (hparent : bounds parent = some ⟨level + 1, lo, hi⟩) (hkey : lo ≤ key ∧ key < hi)
    (hpage : store.pages parent = some (.internal node)) (hroute : node.childFor key = old)
    (hfull : node.entryCount = internalMaxEntries)
    (habove : node.separatorAboveEveryEntry sep = true) (halloc : Allocated store)
    (ownerOid : Nat) :
    Climbed store (store.createNew.put store.nextPageId (.internal
        ⟨level + 1, child, [], ownerOid⟩)) (cut bounds old child level a sep b) root height
      (level + 1) parent store.nextPageId lo sep hi key := by
  have hok := (h.upper parent _ hparent (Nat.lt_succ_self level)).node_of_page hpage
  have hall := (InternalPage.separatorAboveEveryEntry_iff hok.sorted sep).mp habove
  obtain ⟨hsliced, hchild, hlt⟩ := h.sliced_cutLast hok hkey hroute hall
  have hparentNe : parent ≠ store.nextPageId := Nat.ne_of_lt (h.below parent _ hparent)
  refine ⟨?_, hok.lo_lt hfull hall, fun id bd hid _ => ?_, ?_, ?_, Nat.le_succ _⟩
  · refine h.lift hparent hkey rfl rfl (fun id _ hid => update_of_ne hid _ _)
      ((update_of_ne hparentNe _ _).trans hpage) (update_self _ _ _)
      ⟨hok.level, hok.pos, hok.sorted, hok.room, hok.seps, hsliced⟩ ?_ ⟨hsliced.le, hlt⟩ h.sepMax
    exact ⟨rfl, hok.pos, List.Pairwise.nil, Nat.zero_le _,
      fun e he => absurd he not_mem_nil, Nat.le_of_lt hlt, hchild⟩
  · exact update_of_ne (Nat.ne_of_lt (h.below_cut id bd hid)) _ _
  · refine SameLeaves.createNew.trans (SameLeaves.put_internal _ ?_)
    exact fun leaf hleaf => Nat.lt_irrefl _ (halloc.lt hleaf)
  · exact halloc.createNew.put (Nat.lt_succ_self _) _

theorem Growing.divide (h : Growing store bounds root height level old child a sep b key)
    (hparent : bounds parent = some ⟨level + 1, lo, hi⟩) (hkey : lo ≤ key ∧ key < hi)
    (hpage : store.pages parent = some (.internal node)) (hroute : node.childFor key = old)
    (hfull : node.entryCount = internalMaxEntries) (hnew : ∀ e ∈ node.entries, e.1 ≠ sep)
    (halloc : Allocated store) (ownerOid : Nat) :
    ∃ store' msep, divideInternalNode store parent node sep child ownerOid =
        (store', .ok ⟨msep, store.nextPageId⟩) ∧
      Climbed store store' (cut bounds old child level a sep b) root height (level + 1) parent
        store.nextPageId lo msep hi key := by
  have hok := (h.upper parent _ hparent (Nat.lt_succ_self level)).node_of_page hpage
  obtain ⟨lower, ⟨msep, mchild⟩, upper, hsplit, hlower, hupper, hdiv⟩ :=
    @divideInternalNode_eq store child sep node hok.sorted hok.seps h.sepMax
      hnew hfull (by rw [hok.level]; exact Nat.succ_ne_zero level) parent ownerOid
  have hsliced := h.sliced_insert hok hkey hroute hnew
  have hasc := @ascending_insertSep _ sep child _ hok.sorted hnew
  have hmax : ∀ e ∈ insertSep sep child node.entries, e.1 ≤ maxTupleId := by
    intro e he
    rcases mem_insertSep.mp he with rfl | he
    · exact h.sepMax
    · exact hok.seps e he
  have hcount := length_insertSep sep child node.entries
  have hentries : node.entries.length = internalMaxEntries := hfull
  rw [hsplit] at hsliced hasc hmax hcount
  rw [length_append, length_cons] at hcount
  obtain ⟨hslicedLow, hslicedUp⟩ := Sliced.append_iff.mp hsliced
  obtain ⟨hascLow, hascUp, hcross⟩ := ascending_append.mp hasc
  have hmsep : msep ≤ maxTupleId := hmax (msep, mchild) (by simp)
  have hlo : lo < msep := by
    obtain ⟨first, hfirst⟩ := exists_mem_of_ne_nil lower hlower
    exact Nat.lt_of_le_of_lt (hslicedLow.sep_mem hfirst).1
      (hcross first hfirst (msep, mchild) mem_cons_self)
  have hhi : msep < hi := by
    obtain ⟨last, hlast⟩ := exists_mem_of_ne_nil upper hupper
    exact Nat.lt_of_lt_of_le ((ascending_cons.mp hascUp).1 last hlast)
      (hslicedUp.sep_mem hlast).2
  have hlowerRoom : lower.length ≤ internalMaxEntries := by
    have hpos := length_pos_of_ne_nil hupper
    omega
  have hupperRoom : upper.length ≤ internalMaxEntries := by
    have hpos := length_pos_of_ne_nil hlower
    omega
  have hparentLt := h.below parent _ hparent
  have hparentNe : parent ≠ store.nextPageId := Nat.ne_of_lt hparentLt
  have hother : ∀ id, id ≠ parent → id ≠ store.nextPageId →
      ((store.createNew.put store.nextPageId (.internal
        ⟨node.level, mchild, upper, ownerOid⟩)).put parent (.internal
        { node with entries := lower })).pages id = store.pages id :=
    fun id hidp hidn => (update_of_ne hidp _ _).trans (update_of_ne hidn _ _)
  refine ⟨_, msep, hdiv, ?_, hlo, fun id bd hid hup => hother id ?_ ?_, ?_, ?_, Nat.le_succ _⟩
  · refine h.lift hparent hkey rfl rfl hother (update_self _ _ _)
      ((update_of_ne hparentNe.symm _ _).trans (update_self _ _ _)) ?_ ?_
      ⟨Nat.le_of_lt hlo, hhi⟩ hmsep
    · exact ⟨hok.level, hok.pos, hascLow, hlowerRoom,
        fun e he => hmax e (mem_append_left _ he), hslicedLow⟩
    · exact ⟨hok.level, hok.pos, (ascending_cons.mp hascUp).2, hupperRoom,
        fun e he => hmax e (by simp [he]), hslicedUp⟩
  · rintro rfl
    rw [cut_of_level_ne h.oldBounds h.fresh hparent (Nat.succ_ne_self level)] at hid
    cases hid
    exact absurd hup (Nat.lt_irrefl _)
  · exact Nat.ne_of_lt (h.below_cut id bd hid)
  · refine (SameLeaves.createNew.trans (SameLeaves.put_internal _ ?_)).trans
      (SameLeaves.put_internal _ ?_)
    · exact fun leaf hleaf => Nat.lt_irrefl _ (halloc.lt hleaf)
    · intro leaf hleaf
      have hold : store.pages parent = some (.leaf leaf) :=
        (update_of_ne hparentNe _ _).symm.trans hleaf
      rw [hpage] at hold
      cases hold
  · exact (halloc.createNew.put (Nat.lt_succ_self _) _).put (Nat.lt_succ_of_lt hparentLt) _

end Level

/-- **The tree is in shape when the climb ends.**  By induction on the path: what is known of
    the split one level up is what the induction hypothesis asks. -/
theorem promoteSeparator_ok (h : Growing store bounds root height level old child a sep b key)
    (hpath : Ascent store bounds root height key level old path) (hfree : SepFree store sep path)
    (halloc : Allocated store) (ownerOid : Nat) (out : InsertPlacement)
    (hout : out.newRoot = none) :
    ∃ store' out' bounds' height',
      promoteSeparator store root ownerOid path level sep child out = (store', .ok out') ∧
      TreeShape store' bounds' (out'.newRoot.getD root) height' ∧
      (∀ id u v, bounds' id = some ⟨0, u, v⟩ ↔
        cut bounds old child level a sep b id = some ⟨0, u, v⟩) ∧
      SameLeaves store store' ∧ Allocated store' ∧ store.nextPageId ≤ store'.nextPageId ∧
      out'.pageId = out.pageId ∧ out'.slot = out.slot := by
  induction path generalizing store bounds level old child a sep b out with
  | nil =>
    obtain ⟨rfl, rfl⟩ := hpath
    have hput : (InternalPage.createEmpty (level + 1) old ownerOid).bind
        (·.insertEntry sep child) = .ok { level := level + 1, leftmostChild := old
                                          entries := [(sep, child)], ownerOid := ownerOid } := by
      rw [InternalPage.createEmpty, if_neg (Nat.succ_ne_zero level)]
      exact @InternalPage.insertEntry_of_new ⟨level + 1, old, [], ownerOid⟩ List.Pairwise.nil
        sep child h.sepMax (Nat.succ_pos 677) (fun e he => absurd he not_mem_nil)
    refine ⟨_, { out.record { pageId := store.nextPageId } with newRoot := some store.nextPageId },
      _, _, ?_, h.newRoot ownerOid, fun id u v => ?_, ?_, ?_, Nat.le_succ _, rfl, rfl⟩
    · rw [promoteSeparator]
      dsimp only
      rw [hput]
    · by_cases heq : id = store.nextPageId
      · subst heq
        rw [update_self]
        refine ⟨fun hid => (by cases hid), fun hid => ?_⟩
        exact absurd (h.below_cut _ _ hid) (Nat.lt_irrefl _)
      · rw [update_of_ne heq]
    · exact SameLeaves.createNew.trans (SameLeaves.put_internal _ (fun leaf hleaf =>
        Nat.lt_irrefl _ (halloc.lt hleaf)))
    · exact halloc.createNew.put (Nat.lt_succ_self _) _
  | cons parent rest ih =>
    obtain ⟨⟨node, lo, hi, hpage, hparent, hkey, hroute⟩, hrest⟩ := hpath
    have hok := (h.upper parent _ hparent (Nat.lt_succ_self level)).node_of_page hpage
    have hget : store.get parent = .ok (.internal node) := by rw [TreeStore.get, hpage]
    have hlevel : node.level = level + 1 := hok.level
    -- The rest of the climb, from the seam one level up.
    have hclimb : ∀ {store₁ sep₁} (out₁ : InsertPlacement), out₁.newRoot = none →
        Climbed store store₁ (cut bounds old child level a sep b) root height (level + 1) parent
          store.nextPageId lo sep₁ hi key →
        ∃ store' out' bounds' height',
          promoteSeparator store₁ root ownerOid rest (level + 1) sep₁ store.nextPageId out₁ =
            (store', .ok out') ∧
          TreeShape store' bounds' (out'.newRoot.getD root) height' ∧
          (∀ id u v, bounds' id = some ⟨0, u, v⟩ ↔
            cut bounds old child level a sep b id = some ⟨0, u, v⟩) ∧
          SameLeaves store store' ∧ Allocated store' ∧ store.nextPageId ≤ store'.nextPageId ∧
          out'.pageId = out₁.pageId ∧ out'.slot = out₁.slot := by
      intro store₁ sep₁ out₁ hout₁ hc
      have hpath' : Ascent store₁ (cut bounds old child level a sep b) root height key
          (level + 1) parent rest := by
        refine hrest.frame (fun id bd hid hup => ?_)
        have hid' := @cut_of_level_ne _ _ _ _ _ sep _ _ _ h.oldBounds h.fresh hid (by omega)
        exact ⟨hc.above id bd hid' hup, hid'⟩
      obtain ⟨store', out', bounds', height', heq, hshape, hleaves, hsame, halloc', hle,
        hpageId, hslot⟩ := ih hc.growing hpath' (hc.growing.sepFree hpath' hc.strict)
          hc.allocated out₁ hout₁
      refine ⟨store', out', bounds', height', heq, hshape, fun id u v => ?_,
        hc.leaves.trans hsame, halloc', Nat.le_trans hc.next hle, hpageId, hslot⟩
      rw [hleaves id u v]
      exact cut_leaf_iff hc.growing.oldBounds hc.growing.fresh (Nat.succ_ne_zero level) id u v
    rw [promoteSeparator, hget]
    dsimp only
    by_cases hfull : node.isFull = true
    · have hcount : node.entryCount = internalMaxEntries :=
        Nat.le_antisymm hok.room (of_decide_eq_true hfull)
      rw [if_neg (not_not.mpr hfull), hlevel]
      by_cases habove : node.separatorAboveEveryEntry sep = true
      · rw [if_pos habove, InternalPage.createEmpty, if_neg (Nat.succ_ne_zero level)]
        exact hclimb (out.record { pageId := store.nextPageId }) hout
          (h.append hparent hkey hpage hroute hcount habove halloc ownerOid)
      · have hfalse : node.separatorAboveEveryEntry sep = false := Bool.eq_false_iff.mpr habove
        obtain ⟨store₁, msep, hdiv, hc⟩ := h.divide hparent hkey hpage hroute hcount
          (hfree node hpage (fun _ => hfalse)) halloc ownerOid
        rw [if_neg habove, hdiv]
        exact hclimb ((out.record { pageId := store.nextPageId }).record { pageId := parent })
          hout hc
    · have hnew := hfree node hpage (fun hf => absurd hf hfull)
      have hroom : node.entryCount < internalMaxEntries := by
        have hlt := of_decide_eq_false (Bool.eq_false_iff.mpr hfull)
        exact Nat.not_le.mp hlt
      have hinternal : ∀ leaf, store.pages parent ≠ some (.leaf leaf) := by
        intro leaf hleaf
        rw [hpage] at hleaf
        cases hleaf
      rw [if_pos hfull, InternalPage.insertEntry_of_new hok.sorted child h.sepMax hroom hnew]
      refine ⟨_, _, _, height, rfl, ?_, fun id u v => Iff.rfl,
        SameLeaves.put_internal _ hinternal, halloc.put (h.below parent _ hparent) _,
        Nat.le_refl _, rfl, rfl⟩
      show TreeShape _ _ (out.newRoot.getD root) height
      rw [hout]
      exact h.absorbed hparent hkey hpage hroute hnew hroom

end Kds.Storage.Btree
