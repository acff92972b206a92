/-
  Kds.Wal.RedoTorn

  Torn pages at redo.  A page whose checksum fails is held back until its image comes, and the
  image is to be laid into a page that redo creates in its place; but the store refuses to create
  a page at an allocated id whose bytes are not zero.
-/

import Kds.Wal.Redo

namespace Kds.Wal

open Storage PageAlloc

-- What healing is

/-- The last image of a page in the log with every later record of the page applied. -/
def imageThenRecords (pageId : Nat) (records : List PageRecord) : Option PageBody :=
  records.foldl (fun body r =>
    if r.pageId = pageId then
      match r.body with
      | .fullPageImage image => some image.body
      | change => body.bind fun b => (applyBody b change).toOption
    else body) none

/-- Redo succeeds, counts the page as healed, and leaves its last image with what followed. -/
def Heals (coreId : Nat) (dirty : Nat → Option Nat) (records : List PageRecord)
    (store : RedoStore) (pageId : Nat) : Prop :=
  ∃ st page, redo coreId dirty records store = .ok st ∧ pageId ∈ st.stats.pagesHealed ∧
    st.store.pageAt pageId = some page ∧ some page.body = imageThenRecords pageId records

/-- The free map has the page, and its bytes on the device are non-zero and fail their
    checksum. -/
structure TornPage (store : RedoStore) (pageId : Nat) : Prop where
  allocated : store.isAllocated pageId = true
  torn : store.device pageId = .torn

-- The store keeps the page as it is

namespace RedoStore

variable {s s' : RedoStore} {pageId p : Nat} {page : Page}

theorem get_of_ne (h : p ≠ pageId) (s : RedoStore) :
    (s.get pageId).1.frames p = s.frames p ∧ (s.get pageId).1.device = s.device ∧
      (s.get pageId).1.isAllocated p = s.isAllocated p := by
  unfold get
  split_ifs
  · exact ⟨rfl, rfl, rfl⟩
  · rcases s.frames pageId with _ | page
    · rcases s.device pageId with _ | _ | e | page
      · exact ⟨rfl, rfl, rfl⟩
      · exact ⟨rfl, rfl, rfl⟩
      · exact ⟨rfl, rfl, rfl⟩
      · exact ⟨Function.update_of_ne h _ _, rfl, rfl⟩
    · exact ⟨rfl, rfl, rfl⟩

theorem createAt_of_ne (h : p ≠ pageId) (hs : s.createAt pageId = .ok (s', page)) :
    s'.frames p = s.frames p ∧ s'.device = s.device ∧ s'.isAllocated p = s.isAllocated p := by
  unfold createAt at hs
  split_ifs at hs
  cases hs
  refine ⟨Function.update_of_ne h _ _, rfl, ?_⟩
  unfold isAllocated
  dsimp only [setFrame]
  rw [Function.update_of_ne h]

theorem get_torn (h : TornPage s pageId) (hframe : s.frames pageId = none) :
    s.get pageId = (s, .error (.corruption "page checksum mismatch")) := by
  have halloc : ¬ s.isAllocated pageId = false := by
    rw [h.allocated]
    exact Bool.true_eq_false_eq_False
  rw [get, if_neg halloc, hframe, h.torn]

theorem get_frame (h : TornPage s pageId) (hframe : s.frames pageId = some page) :
    s.get pageId = (s, .ok page) := by
  have halloc : ¬ s.isAllocated pageId = false := by
    rw [h.allocated]
    exact Bool.true_eq_false_eq_False
  rw [get, if_neg halloc, hframe]

theorem createAt_torn (h : TornPage s pageId) :
    ∃ e, s.createAt pageId = .error e := by
  unfold createAt
  split_ifs with htop huse
  · exact ⟨_, rfl⟩
  · exact ⟨_, rfl⟩
  · refine absurd ?_ huse
    rw [h.allocated, deviceHoldsOnlyZeros, h.torn]
    simp

end RedoStore

-- No record heals it

/-- What stays true of a torn page while redo runs over it. -/
structure Unhealed (start : RedoStore) (pageId : Nat) (st : RedoState) : Prop where
  page : TornPage st.store pageId
  absent : start.frames pageId = none → st.store.frames pageId = none
  present : start.frames pageId ≠ none → st.store.frames pageId ≠ none ∧ pageId ∉ st.poisoned
  uncounted : pageId ∉ st.stats.pagesHealed

namespace Unhealed

variable {start : RedoStore} {pageId coreId : Nat} {st st' : RedoState} {r : PageRecord} {q : Nat}
    {page : Option Page} {dirty : Nat → Option Nat}

theorem heal_other (h : Unhealed start pageId st) (hq : pageId ≠ q) :
    Unhealed start pageId (st.heal q) := by
  unfold RedoState.heal
  split_ifs
  · refine ⟨h.page, h.absent, fun hp => ⟨(h.present hp).1, fun hin => ?_⟩, fun hin => ?_⟩
    · exact (h.present hp).2 (List.mem_of_mem_filter hin)
    · rcases Lib.mem_snoc.mp hin with hold | hnew
      · exact h.uncounted hold
      · exact hq hnew
  · exact h

theorem hold (h : Unhealed start pageId st) (hq : start.frames pageId ≠ none → pageId ≠ q) :
    Unhealed start pageId (st.hold q) := by
  unfold RedoState.hold
  split_ifs
  · exact h
  · refine ⟨h.page, h.absent, fun hp => ⟨(h.present hp).1, fun hin => ?_⟩, h.uncounted⟩
    rcases Lib.mem_snoc.mp hin with hold | hnew
    · exact (h.present hp).2 hold
    · exact hq hp hnew

theorem setFrame_other (h : Unhealed start pageId st) (hq : pageId ≠ q) (page : Page) :
    Unhealed start pageId { st with store := st.store.setFrame q page } := by
  have hframe : (st.store.setFrame q page).frames pageId = st.store.frames pageId :=
    Function.update_of_ne hq _ _
  exact ⟨⟨h.page.allocated, h.page.torn⟩, fun hp => hframe.trans (h.absent hp),
    fun hp => ⟨hframe ▸ (h.present hp).1, (h.present hp).2⟩, h.uncounted⟩

theorem withStore (h : Unhealed start pageId st) {s : RedoStore}
    (hs : s.frames pageId = st.store.frames pageId ∧ s.device = st.store.device ∧
      s.isAllocated pageId = st.store.isAllocated pageId) :
    Unhealed start pageId { st with store := s } := by
  obtain ⟨hframe, hdevice, halloc⟩ := hs
  exact ⟨⟨halloc.trans h.page.allocated, (congrFun hdevice pageId).trans h.page.torn⟩,
    fun hp => hframe.trans (h.absent hp),
    fun hp => ⟨hframe ▸ (h.present hp).1, (h.present hp).2⟩, h.uncounted⟩

theorem withStats (h : Unhealed start pageId st) (stats : RedoStats)
    (hstats : stats.pagesHealed = st.stats.pagesHealed) :
    Unhealed start pageId { st with stats := stats } :=
  ⟨h.page, h.absent, h.present, fun hin => h.uncounted (hstats ▸ hin)⟩

theorem acquire_other (h : Unhealed start pageId st) (hr : pageId ≠ r.pageId)
    (hs : st.acquire r = .ok (st', page)) : Unhealed start pageId st' := by
  have hget := RedoStore.get_of_ne hr st.store
  unfold RedoState.acquire at hs
  rcases hout : st.store.get r.pageId with ⟨s, e | found⟩
  · rw [hout] at hs
    dsimp only at hs
    split_ifs at hs with hcode himage hcreate
    · obtain ⟨rfl, -⟩ := Prod.mk.inj (Except.ok.inj hs)
      exact h.hold fun _ => hr
    · rcases hat : st.store.createAt r.pageId with e' | ⟨t, made⟩
      · rw [hat] at hs
        cases hs
      · rw [hat] at hs
        obtain ⟨rfl, -⟩ := Prod.mk.inj (Except.ok.inj hs)
        exact (h.withStore (RedoStore.createAt_of_ne hr hat)).heal_other hr
    · rcases hat : st.store.createAt r.pageId with e' | ⟨t, made⟩
      · rw [hat] at hs
        cases hs
      · rw [hat] at hs
        obtain ⟨rfl, -⟩ := Prod.mk.inj (Except.ok.inj hs)
        exact (h.withStore (RedoStore.createAt_of_ne hr hat)).withStats _ rfl
  · rw [hout] at hs hget
    obtain ⟨rfl, -⟩ := Prod.mk.inj (Except.ok.inj hs)
    exact h.withStore hget

theorem acquire_self (h : Unhealed start pageId st) (hr : r.pageId = pageId)
    (hs : st.acquire r = .ok (st', page)) : Unhealed start pageId st' ∧
      (start.frames pageId = none → page = none ∧ r.body.isImage = false) := by
  subst hr
  unfold RedoState.acquire at hs
  rcases hframe : st.store.frames r.pageId with _ | found
  · have hnone : start.frames r.pageId = none := by
      by_contra hsome
      exact (h.present hsome).1 hframe
    rw [RedoStore.get_torn h.page hframe] at hs
    dsimp only at hs
    rw [if_pos
      (show (Status.corruption "page checksum mismatch").code = .corruption from rfl)] at hs
    split_ifs at hs with himage
    · cases hs
      exact ⟨h.hold fun hp => absurd hnone hp, fun _ => ⟨rfl, himage⟩⟩
    · obtain ⟨e, he⟩ := RedoStore.createAt_torn h.page
      rw [he] at hs
      cases hs
  · have hsome : start.frames r.pageId ≠ none := by
      intro hnone
      rw [h.absent hnone] at hframe
      cases hframe
    rw [RedoStore.get_frame h.page hframe] at hs
    obtain ⟨rfl, -⟩ := Prod.mk.inj (Except.ok.inj hs)
    exact ⟨h, fun hnone => absurd hnone hsome⟩

theorem replay (h : Unhealed start pageId st) (hr : r.pageId = pageId → start.frames pageId ≠ none)
    {page : Page} (hs : st.replay coreId r page = .ok st') : Unhealed start pageId st' := by
  unfold RedoState.replay at hs
  split_ifs at hs with hheld hforeign hseen
  · cases hs
    exact h
  · cases hs
    exact h.withStats _ rfl
  · rcases hbody : RedoState.applied page r with e | body
    · rw [hbody] at hs
      cases hs
    · rw [hbody] at hs
      cases hs
      have hheal : Unhealed start pageId (st.noteImage r) := by
        unfold RedoState.noteImage
        split_ifs
        · have hcounted := h.withStats { st.stats with pageImages := st.stats.pageImages + 1 } rfl
          by_cases hself : pageId = r.pageId
          · rw [RedoState.heal, if_neg (hself ▸ (h.present (hr hself.symm)).2)]
            exact hcounted
          · exact hcounted.heal_other hself
        · exact h
      by_cases hself : pageId = r.pageId
      · have hframe := hr hself.symm
        refine ⟨⟨hheal.page.allocated, hheal.page.torn⟩, fun hnone => absurd hnone hframe,
          fun _ => ⟨?_, (hheal.present hframe).2⟩, hheal.uncounted⟩
        dsimp only [RedoState.stampPage, RedoStore.setFrame]
        rw [hself, Function.update_self]
        exact Option.some_ne_none _
      · exact (hheal.setFrame_other hself _).withStats _ rfl

theorem visit (h : Unhealed start pageId st) (hs : st.visit coreId dirty r = .ok st') :
    Unhealed start pageId st' ∧
      (start.frames pageId = none → r.pageId = pageId → r.body.isImage = true →
        (dirty pageId).any (· ≤ r.lsn) = false) := by
  unfold RedoState.visit at hs
  split_ifs at hs with hnoPage hdirty
  · cases hs
    refine ⟨h.withStats _ (st.stats.pagesHealed_passOver r.body), fun _ _ himage => ?_⟩
    rcases hbody : r.body with _ | _ | _ | _ | _ | _ | _ | image | _ | _ | _
    case fullPageImage =>
      rw [hbody] at hnoPage
      cases hnoPage
    all_goals
      rw [hbody] at himage
      cases himage
  · cases hs
    exact ⟨h.withStats _ rfl, fun _ hr _ => hr ▸ hdirty⟩
  · have hcounted : Unhealed start pageId st.noteRecord := h.withStats _ rfl
    rcases hout : st.noteRecord.acquire r with e | ⟨st1, _ | page⟩
    · rw [hout] at hs
      cases hs
    · rw [hout] at hs
      cases hs
      by_cases hr : r.pageId = pageId
      · obtain ⟨hst, hself⟩ := hcounted.acquire_self hr hout
        refine ⟨hst, fun hnone _ himage => ?_⟩
        rw [(hself hnone).2] at himage
        cases himage
      · exact ⟨hcounted.acquire_other (Ne.symm hr) hout, fun _ heq => absurd heq hr⟩
    · rw [hout] at hs
      by_cases hr : r.pageId = pageId
      · obtain ⟨hst, hself⟩ := hcounted.acquire_self hr hout
        have hsome : start.frames pageId ≠ none := fun hnone => by cases (hself hnone).1
        exact ⟨hst.replay (fun _ => hsome) hs, fun hnone => absurd hnone hsome⟩
      · exact ⟨(hcounted.acquire_other (Ne.symm hr) hout).replay (fun heq => absurd heq hr) hs,
          fun _ heq => absurd heq hr⟩

theorem foldlM {records : List PageRecord} (h : Unhealed start pageId st)
    (hs : records.foldlM (RedoState.visit coreId dirty) st = .ok st') :
    Unhealed start pageId st' ∧ (start.frames pageId = none → ∀ r ∈ records, r.pageId = pageId →
      r.body.isImage = true → (dirty pageId).any (· ≤ r.lsn) = false) := by
  induction records generalizing st with
  | nil =>
    cases hs
    exact ⟨h, fun _ r hr => by cases hr⟩
  | cons r records ih =>
    rw [List.foldlM_cons] at hs
    obtain ⟨st1, hvisit, hrest⟩ := bind_eq_ok.mp hs
    obtain ⟨hst1, hfirst⟩ := h.visit hvisit
    obtain ⟨hst', hlater⟩ := ih hst1 hrest
    refine ⟨hst', fun hnone r' hr' => ?_⟩
    rcases List.mem_cons.mp hr' with rfl | hin
    · exact hfirst hnone
    · exact hlater hnone r' hin

end Unhealed

-- Redo never heals a torn page

/-- **Redo never heals a torn page of this store.**  It does not count it as healed; where the
    page is in no frame, as at a mount, it is as unreadable afterwards as before, and redo fails
    if it comes to an image of the page. -/
theorem torn_page_never_healed (coreId : Nat) (dirty : Nat → Option Nat) (records : List PageRecord)
    (store : RedoStore) (pageId : Nat) (htorn : TornPage store pageId) :
    ¬ Heals coreId dirty records store pageId ∧
      (store.frames pageId = none →
        (∀ st, redo coreId dirty records store = .ok st → st.store.pageAt pageId = none) ∧
          ∀ r ∈ records, r.pageId = pageId → r.body.isImage = true →
            (dirty pageId).any (· ≤ r.lsn) = true →
            ∃ e, redo coreId dirty records store = .error e) := by
  have hstart : Unhealed store pageId (.start store) :=
    ⟨htorn, fun hnone => hnone, fun hsome => ⟨hsome, List.not_mem_nil⟩, List.not_mem_nil⟩
  have hfold : ∀ {st}, redo coreId dirty records store = .ok st →
      records.foldlM (RedoState.visit coreId dirty) (.start store) = .ok st := by
    intro st hst
    unfold redo at hst
    rcases hout : records.foldlM (RedoState.visit coreId dirty) (.start store) with e | st1
    · rw [hout] at hst
      cases hst
    · rw [hout] at hst
      dsimp only at hst
      rcases hmin : st1.poisoned.min? with _ | q
      · rw [hmin] at hst
        exact hst
      · rw [hmin] at hst
        cases hst
  refine ⟨?_, fun hnone => ⟨fun st hst => ?_, fun r hr hpage himage hdirty => ?_⟩⟩
  · rintro ⟨st, page, hst, hcounted, -⟩
    exact (hstart.foldlM (hfold hst)).1.uncounted hcounted
  · have hst' := (hstart.foldlM (hfold hst)).1
    rw [RedoStore.pageAt, RedoStore.get_torn hst'.page (hst'.absent hnone)]
    rfl
  · rcases hout : redo coreId dirty records store with e | st
    · exact ⟨e, rfl⟩
    · have hclean := (hstart.foldlM (hfold hout)).2 hnone r hr hpage himage
      rw [hclean] at hdirty
      cases hdirty

/-- Page 200 is torn on the device. -/
def tornStore : RedoStore :=
  ⟨fun p => p = 200, fun p => if p = 200 then .torn else .zeros, fun _ => none⟩

/-- The log holds an image of it and nothing else. -/
def imageLog : List PageRecord :=
  [⟨4096, 200, .fullPageImage ⟨0, 1, .heap .heap 0 { freeSpace := Btree.emptyFreeSpace }⟩⟩]

theorem tornStore_torn : TornPage tornStore 200 := ⟨rfl, rfl⟩

theorem torn_page_never_healed_image :
    ¬ Heals 0 (fun _ => some 4096) imageLog tornStore 200 ∧
      ∃ e, redo 0 (fun _ => some 4096) imageLog tornStore = .error e := by
  obtain ⟨hheals, hmount⟩ :=
    torn_page_never_healed 0 (fun _ => some 4096) imageLog tornStore 200 tornStore_torn
  obtain ⟨-, hfails⟩ := hmount rfl
  exact ⟨hheals, hfails _ List.mem_cons_self rfl rfl rfl⟩

/-- The image is in the replay range, and redo fails over the store's refusal. -/
theorem imageRefused :
    TornPage tornStore 200 ∧ (∃ r ∈ imageLog, r.pageId = 200 ∧ r.body.isImage = true) ∧
      redo 0 (fun _ => some 4096) imageLog tornStore =
        .error ⟨.alreadyExists, "page id already in use"⟩ ∧
      ¬ Heals 0 (fun _ => some 4096) imageLog tornStore 200 := by
  have hredo : redo 0 (fun _ => some 4096) imageLog tornStore =
      .error ⟨.alreadyExists, "page id already in use"⟩ := rfl
  refine ⟨tornStore_torn, ⟨_, List.mem_cons_self, rfl, rfl⟩, hredo, ?_⟩
  rintro ⟨st, page, hst, -⟩
  rw [hredo] at hst
  cases hst

end Kds.Wal
