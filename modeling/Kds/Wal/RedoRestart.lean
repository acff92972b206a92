/-
  Kds.Wal.RedoRestart

  Redo cut short and run again.  What a record does depends on its page alone (`redone`), and leaves
  the page where the record passes it over; so a second redo takes each page up from wherever the
  first one had brought it to the device (`redo_restarts`).
-/

import Kds.Wal.RedoReplay
import Kds.Wal.RedoTorn

namespace Kds.Wal

open Lib Storage PageAlloc List

variable {coreId p : Nat} {dirty : Nat → Option Nat} {r : PageRecord} {records : List PageRecord}
    {page : Page}

-- One page

/-- Redo looks at the record's page. -/
def looksAt (dirty : Nat → Option Nat) (r : PageRecord) : Bool :=
  !r.body.touchesNoPage && (dirty r.pageId).any (· ≤ r.lsn)

/-- A page, or its absence, after a record that redo looks at; `none` where redo fails. -/
def redone (coreId : Nat) (x : Option Page) (r : PageRecord) : Option Page :=
  if (x.isSome || r.body.creates) = false ∨ stampIsForeign (inHand x).stamp coreId = true then none
  else if r.lsn ≤ (inHand x).lsn then some (inHand x)
  else ((RedoState.applied (inHand x) r).toOption).map fun body =>
    ⟨r.lsn, streamStampFor coreId, body⟩

/-- A page that the record passes over. -/
def Seen (coreId : Nat) (r : PageRecord) (page : Page) : Prop :=
  stampIsForeign page.stamp coreId = false ∧ r.lsn ≤ page.lsn

theorem seen_of_redone {x : Option Page} (h : redone coreId x r = some page) :
    Seen coreId r page ∧ (inHand x).lsn ≤ page.lsn := by
  unfold redone at h
  split_ifs at h with hfails hseen
  · cases h
    exact ⟨⟨(Bool.not_eq_true _).mp (not_or.mp hfails).2, hseen⟩, Nat.le_refl _⟩
  · obtain ⟨body, -, rfl⟩ := Option.map_eq_some_iff.mp h
    refine ⟨⟨?_, Nat.le_refl _⟩, Nat.le_of_not_le hseen⟩
    exact (Bool.not_eq_true _).mp
      (@not_foreign coreId ⟨r.lsn, streamStampFor coreId, body⟩ (.inl rfl))

theorem redone_of_seen (h : Seen coreId r page) : redone coreId (some page) r = some page := by
  have hgoes : ¬ (((some page).isSome || r.body.creates) = false ∨
      stampIsForeign (inHand (some page)).stamp coreId = true) := by
    rw [show (inHand (some page)).stamp = page.stamp from rfl, h.1]
    simp
  unfold redone
  rw [if_neg hgoes]
  exact if_pos h.2

/-- The page `p` after a record. -/
def pageStep (coreId : Nat) (dirty : Nat → Option Nat) (p : Nat) (x : Option Page)
    (r : PageRecord) : Option (Option Page) :=
  if r.pageId = p ∧ looksAt dirty r = true then (redone coreId x r).map some else some x

theorem pageSteps_again {x y : Option Page}
    (h : records.foldlM (pageStep coreId dirty p) x = some y) :
    records.foldlM (pageStep coreId dirty p) y = some y ∧ ∀ page, x = some page →
      ∃ page', y = some page' ∧ ∀ r, Seen coreId r page → Seen coreId r page' := by
  induction records generalizing x with
  | nil =>
    cases h
    exact ⟨rfl, fun page hx => ⟨page, hx, fun _ hseen => hseen⟩⟩
  | cons first records ih =>
    rw [foldlM_cons] at h ⊢
    obtain ⟨mid, hmid, h⟩ := Option.bind_eq_some_iff.mp h
    obtain ⟨hagain, hstays⟩ := ih h
    unfold pageStep at hmid ⊢
    split_ifs at hmid ⊢ with hlooks
    · obtain ⟨page, hredone, rfl⟩ := Option.map_eq_some_iff.mp hmid
      obtain ⟨hseen, hle⟩ := seen_of_redone hredone
      obtain ⟨page', rfl, hlater⟩ := hstays page rfl
      refine ⟨?_, fun before hx => ⟨page', rfl, fun r hr => ?_⟩⟩
      · rw [redone_of_seen (hlater first hseen)]
        exact hagain
      · subst hx
        exact hlater r ⟨hseen.1, Nat.le_trans hr.2 hle⟩
    · cases hmid
      exact ⟨hagain, hstays⟩

-- The store

namespace RedoStore

variable {s s' : RedoStore} {x y : Option Page} {page : Page}

/-- The stores have the same of a page. -/
def SameAt (s s' : RedoStore) (p : Nat) : Prop :=
  s'.frames p = s.frames p ∧ s'.device = s.device ∧ s'.isAllocated p = s.isAllocated p

theorem SameAt.trans {s'' : RedoStore} (h : s.SameAt s' p) (h' : s'.SameAt s'' p) :
    s.SameAt s'' p :=
  ⟨h'.1.trans h.1, h'.2.1.trans h.2.1, h'.2.2.trans h.2.2⟩

theorem SameAt.get (h : s.SameAt s' p) : (s'.get p).2 = (s.get p).2 := by
  unfold RedoStore.get
  rw [h.1, h.2.1, h.2.2]
  split_ifs
  · rfl
  · split
    · rfl
    · split <;> rfl

theorem SameAt.shows (h : s.SameAt s' p) : s'.Shows p x ↔ s.Shows p x := by
  cases x with
  | none => rw [Shows, Shows, Absent, Absent, h.1, h.2.1, h.2.2]
  | some page => rw [Shows, Shows, pageAt, pageAt, h.get]

theorem get_of_absent (h : s.Absent p) : ∃ e, (s.get p).2 = .error e ∧ e.code = .notFound := by
  unfold RedoStore.get
  by_cases hno : s.isAllocated p = false
  · rw [if_pos hno]
    exact ⟨_, rfl, rfl⟩
  · obtain ⟨hframe, hzeros⟩ := h.resolve_left hno
    rw [if_neg hno, hframe, hzeros]
    exact ⟨_, rfl, rfl⟩

theorem Absent.not_pageAt (h : s.Absent p) : s.pageAt p ≠ some page := by
  obtain ⟨e, hget, -⟩ := get_of_absent h
  rw [pageAt, hget]
  exact (Option.some_ne_none page).symm

theorem Shows.unique (hx : s.Shows p x) (hy : s.Shows p y) : x = y := by
  cases x with
  | none =>
    cases y with
    | none => rfl
    | some page => exact absurd hy (Absent.not_pageAt hx)
  | some page =>
    cases y with
    | none => exact absurd hx (Absent.not_pageAt hy)
    | some page' => exact hx.symm.trans hy

/-- The page is there and cannot be read: its bytes are damaged. -/
def Damaged (s : RedoStore) (p : Nat) : Prop :=
  ∃ e, (s.get p).2 = .error e ∧ e.code = .corruption

theorem Shows.not_damaged (h : s.Shows p x) : ¬ s.Damaged p := by
  rintro ⟨e, hget, hcode⟩
  cases x with
  | none =>
    obtain ⟨e', hget', hcode'⟩ := get_of_absent h
    rw [Except.error.inj (hget.symm.trans hget'), hcode'] at hcode
    cases hcode
  | some page =>
    have hread : (s.get p).2.toOption = some page := h
    rw [hget] at hread
    cases hread

theorem createAt_spec (h : s.createAt p = .ok (s', page)) :
    s.Absent p ∧ usable p = true ∧ page = zeroPage ∧ s'.isAllocated p = true ∧
      s'.pageAt p = some zeroPage := by
  unfold createAt at h
  split_ifs at h with htop hfree
  cases h
  simp only [Bool.or_eq_true, Bool.and_eq_true, Bool.not_eq_true', not_or, not_and,
    Bool.not_eq_true, Bool.not_eq_false] at hfree
  have halloc : ({ s.setFrame p zeroPage with
      allocated := Function.update s.allocated p true } : RedoStore).isAllocated p = true := by
    unfold isAllocated
    rw [if_neg htop]
    exact Function.update_self _ _ _
  refine ⟨?_, ?_, rfl, halloc, ?_⟩
  · by_cases hno : s.isAllocated p = false
    · exact .inl hno
    · obtain ⟨hframe, hzeros⟩ := hfree.2 ((Bool.not_eq_false _).mp hno)
      refine .inr ⟨Option.not_isSome_iff_eq_none.mp (by simp [hframe]), ?_⟩
      unfold deviceHoldsOnlyZeros at hzeros
      split at hzeros
      · assumption
      · cases hzeros
  · unfold usable
    rw [hfree.1, decide_eq_true (Nat.not_le.mp htop)]
    rfl
  · have hframe : Function.update s.frames p (some zeroPage) p = some zeroPage :=
      Function.update_self _ _ _
    rw [pageAt_eq, if_neg ((Bool.not_eq_false _).mpr halloc)]
    dsimp only [setFrame]
    rw [hframe]

end RedoStore

-- One record

section Visit

variable {st st' : RedoState}

theorem acquire_cases {found : Option Page} (h : st.acquire r = .ok (st', found)) :
    (found = none ∧ st.store.Damaged r.pageId ∧ st' = st.hold r.pageId) ∨
    ∃ x, found = some (inHand x) ∧ st.store.Shows r.pageId x ∧
      (x = none → usable r.pageId = true ∧ r.body.creates = true) ∧
      st'.poisoned = st.poisoned ∧ st'.store.isAllocated r.pageId = true ∧
      st'.store.pageAt r.pageId = some (inHand x) ∧
      ∀ q, q ≠ r.pageId → st.store.SameAt st'.store q := by
  unfold RedoState.acquire at h
  rcases hget : st.store.get r.pageId with ⟨s, e | page⟩
  · rw [hget] at h
    dsimp only at h
    split_ifs at h with hcode himage hcreates
    · cases h
      exact .inl ⟨rfl, ⟨e, by rw [hget], hcode⟩, rfl⟩
    · rcases hat : st.store.createAt r.pageId with e' | ⟨t, made⟩
      · rw [hat] at h
        cases h
      · have habsent : st.store.Shows r.pageId none := (RedoStore.createAt_spec hat).1
        exact absurd ⟨e, by rw [hget], hcode⟩ habsent.not_damaged
    · rcases hat : st.store.createAt r.pageId with e' | ⟨t, made⟩
      · rw [hat] at h
        cases h
      · rw [hat] at h
        cases h
        obtain ⟨habsent, husable, rfl, halloc, hread⟩ := RedoStore.createAt_spec hat
        exact .inr ⟨none, rfl, habsent, fun _ => ⟨husable, hcreates⟩, rfl, halloc, hread,
          fun q hq => RedoStore.createAt_of_ne hq hat⟩
  · rw [hget] at h
    cases h
    have hpage : st.store.pageAt r.pageId = some page := by
      rw [RedoStore.pageAt, hget]
      rfl
    obtain ⟨-, s', hget', halloc, hsame⟩ := RedoStore.get_of_pageAt hpage
    obtain ⟨rfl, -⟩ := Prod.mk.inj (hget.symm.trans hget')
    have hother := fun q (hq : q ≠ r.pageId) => RedoStore.get_of_ne hq st.store
    rw [hget] at hother
    exact .inr ⟨some page, rfl, hpage, fun hnone => (by cases hnone), rfl, halloc,
      (hsame _).1.trans hpage, hother⟩

variable {x : Option Page}

theorem replay_spec (hfree : r.pageId ∉ st.poisoned) (hmade : x = none → r.body.creates = true)
    (halloc : st.store.isAllocated r.pageId = true)
    (hread : st.store.pageAt r.pageId = some (inHand x))
    (h : st.replay coreId r (inHand x) = .ok st') :
    ∃ page, redone coreId x r = some page ∧ st'.store.pageAt r.pageId = some page ∧
      st'.poisoned = st.poisoned ∧ ∀ q, q ≠ r.pageId → st.store.SameAt st'.store q := by
  have hmade' : (x.isSome || r.body.creates) = true := by
    cases x with
    | none => rw [hmade rfl, Bool.or_true]
    | some page => rfl
  unfold RedoState.replay at h
  split_ifs at h with hheld hforeign hseen
  · exact absurd hheld.1 hfree
  · cases h
    refine ⟨inHand x, ?_, hread, rfl, fun q _ => ⟨rfl, rfl, rfl⟩⟩
    rw [redone, if_neg (by rw [hmade']; simp [hforeign]), if_pos hseen]
  · rcases hbody : RedoState.applied (inHand x) r with e | body
    · rw [hbody] at h
      cases h
    · rw [hbody] at h
      cases h
      have hnote : (st.noteImage r).store = st.store ∧ (st.noteImage r).poisoned = st.poisoned := by
        unfold RedoState.noteImage
        split_ifs
        · rw [RedoState.heal, if_neg hfree]
          exact ⟨rfl, rfl⟩
        · exact ⟨rfl, rfl⟩
      refine ⟨⟨r.lsn, streamStampFor coreId, body⟩, ?_, ?_, hnote.2, fun q hq => ?_⟩
      · rw [redone, if_neg (by rw [hmade']; simp [hforeign]), if_neg hseen, hbody]
        rfl
      · rw [RedoState.stampPage, hnote.1]
        exact RedoStore.pageAt_setFrame halloc _
      · rw [RedoState.stampPage, hnote.1]
        exact ⟨Function.update_of_ne hq _ _, rfl, rfl⟩

theorem poisoned_hold_ne (st : RedoState) (pageId : Nat) : (st.hold pageId).poisoned ≠ [] := by
  unfold RedoState.hold
  split_ifs with hin
  · exact ne_nil_of_mem hin
  · exact append_ne_nil_of_right_ne_nil _ (cons_ne_nil _ _)

/-- What is held back is damaged. -/
def Held (st : RedoState) : Prop := ∀ p ∈ st.poisoned, st.store.Damaged p

/-- **What redo makes of a record**: nothing, if it does not look at it; it holds a damaged page
    back; or the page is redone, and only it. -/
theorem visit_cases (hheld : Held st) (h : st.visit coreId dirty r = .ok st') :
    (looksAt dirty r = false ∧ st'.store = st.store ∧ st'.poisoned = st.poisoned) ∨
    (st.store.Damaged r.pageId ∧ st'.store = st.store ∧
      st'.poisoned = (st.hold r.pageId).poisoned) ∨
    ∃ x page, looksAt dirty r = true ∧ st.store.Shows r.pageId x ∧
      (x = none → usable r.pageId = true) ∧ redone coreId x r = some page ∧
      st'.store.pageAt r.pageId = some page ∧ st'.poisoned = st.poisoned ∧
      ∀ q, q ≠ r.pageId → st.store.SameAt st'.store q := by
  unfold RedoState.visit at h
  split_ifs at h with hnone hclean
  · cases h
    exact .inl ⟨by rw [looksAt, hnone]; rfl, rfl, rfl⟩
  · cases h
    exact .inl ⟨by rw [looksAt, hclean, Bool.and_false], rfl, rfl⟩
  · have hlooks : looksAt dirty r = true := by
      rw [looksAt, (Bool.not_eq_true _).mp hnone, (Bool.not_eq_false _).mp hclean]
      rfl
    rcases hout : st.noteRecord.acquire r with e | ⟨st1, found⟩
    · rw [hout] at h
      cases h
    · rw [hout] at h
      rcases acquire_cases hout with ⟨rfl, hdamaged, rfl⟩ |
        ⟨x, rfl, hshows, hmade, hpoison, halloc, hread, hsame⟩
      · cases h
        refine .inr (.inl ⟨hdamaged, ?_, ?_⟩)
        · unfold RedoState.hold
          split_ifs <;> rfl
        · unfold RedoState.hold RedoState.noteRecord
          split_ifs <;> rfl
      · have hfree : r.pageId ∉ st1.poisoned := fun hin =>
          hshows.not_damaged (hheld _ (hpoison ▸ hin))
        obtain ⟨page, hredone, hpage, hpoison', hother⟩ :=
          replay_spec hfree (fun hx => (hmade hx).2) halloc hread h
        exact .inr (.inr ⟨x, page, hlooks, hshows, fun hx => (hmade hx).1, hredone, hpage,
          hpoison'.trans hpoison, fun q hq => (hsame q hq).trans (hother q hq)⟩)

theorem Held.visit (hheld : Held st) (h : st.visit coreId dirty r = .ok st') :
    Held st' ∧ st.poisoned ⊆ st'.poisoned := by
  rcases visit_cases hheld h with ⟨-, hstore, hpoison⟩ | ⟨hdamaged, hstore, hpoison⟩ |
    ⟨x, page, -, hshows, -, -, -, hpoison, hsame⟩
  · exact ⟨fun p hp => hstore ▸ hheld p (hpoison ▸ hp), fun p hp => hpoison ▸ hp⟩
  · unfold RedoState.hold at hpoison
    split_ifs at hpoison with hin
    · exact ⟨fun p hp => hstore ▸ hheld p (hpoison ▸ hp), fun p hp => hpoison ▸ hp⟩
    · refine ⟨fun p hp => ?_, fun p hp => hpoison ▸ mem_append_left _ hp⟩
      rw [hpoison] at hp
      rw [hstore]
      rcases Lib.mem_snoc.mp hp with hold | hnew
      · exact hheld p hold
      · exact hnew ▸ hdamaged
  · refine ⟨fun p hp => ?_, fun p hp => hpoison ▸ hp⟩
    have hold := hheld p (hpoison ▸ hp)
    have hne : p ≠ r.pageId := by
      rintro rfl
      exact hshows.not_damaged hold
    rw [RedoStore.Damaged, (hsame p hne).get]
    exact hold

theorem Held.foldlM (hheld : Held st)
    (h : records.foldlM (RedoState.visit coreId dirty) st = .ok st') :
    Held st' ∧ st.poisoned ⊆ st'.poisoned := by
  induction records generalizing st with
  | nil =>
    cases h
    exact ⟨hheld, fun _ hp => hp⟩
  | cons r records ih =>
    rw [foldlM_cons] at h
    obtain ⟨mid, hvisit, h⟩ := bind_eq_ok.mp h
    obtain ⟨hmid, hsub⟩ := hheld.visit hvisit
    obtain ⟨hend, hsub'⟩ := ih hmid h
    exact ⟨hend, fun p hp => hsub' (hsub hp)⟩

theorem shows_visit (hheld : Held st) (hend : st'.poisoned = [])
    (h : st.visit coreId dirty r = .ok st') (p : Nat) :
    (∀ x, st.store.Shows p x →
      ∃ y, pageStep coreId dirty p x r = some y ∧ st'.store.Shows p y) ∧
    ((∃ x, st.store.Shows p x ∧ (x = none → usable p = true)) ∨
      ¬ (r.pageId = p ∧ looksAt dirty r = true) ∧
        ∀ x, st'.store.Shows p x → st.store.Shows p x) := by
  by_cases hlook : r.pageId = p ∧ looksAt dirty r = true
  · obtain ⟨rfl, hlooks⟩ := hlook
    rcases visit_cases hheld h with ⟨hpass, -⟩ | ⟨-, -, hpoison⟩ |
      ⟨x, page, -, hshows, husable, hredone, hpage, -⟩
    · rw [hpass] at hlooks
      cases hlooks
    · exact absurd (hpoison.symm.trans hend) (poisoned_hold_ne st r.pageId)
    · refine ⟨fun x' hx' => ⟨some page, ?_, hpage⟩, .inl ⟨x, hshows, husable⟩⟩
      rw [hx'.unique hshows, pageStep, if_pos ⟨rfl, hlooks⟩, hredone]
      rfl
  · have hsame : ∀ x, st'.store.Shows p x ↔ st.store.Shows p x := by
      rcases visit_cases hheld h with ⟨-, hstore, -⟩ | ⟨-, -, hpoison⟩ |
        ⟨x, page, hlooks, -, -, -, -, -, hother⟩
      · exact fun x => by rw [hstore]
      · exact absurd (hpoison.symm.trans hend) (poisoned_hold_ne st r.pageId)
      · exact fun x => (hother p fun hp => hlook ⟨hp.symm, hlooks⟩).shows
    exact ⟨fun x hx => ⟨x, if_neg hlook, (hsame x).mpr hx⟩, .inr ⟨hlook, fun x => (hsame x).mp⟩⟩

theorem shows_foldlM (hheld : Held st) (hend : st'.poisoned = [])
    (h : records.foldlM (RedoState.visit coreId dirty) st = .ok st') (p : Nat) :
    (∀ x, st.store.Shows p x →
      ∃ y, records.foldlM (pageStep coreId dirty p) x = some y ∧ st'.store.Shows p y) ∧
    ((∃ r ∈ records, r.pageId = p ∧ looksAt dirty r = true) →
      ∃ x, st.store.Shows p x ∧ (x = none → usable p = true)) := by
  induction records generalizing st with
  | nil =>
    cases h
    refine ⟨fun x hx => ⟨x, rfl, hx⟩, ?_⟩
    rintro ⟨r, hr, -⟩
    cases hr
  | cons r records ih =>
    rw [foldlM_cons] at h
    obtain ⟨mid, hvisit, h⟩ := bind_eq_ok.mp h
    obtain ⟨hmid, -⟩ := hheld.visit hvisit
    have hclean : mid.poisoned = [] := subset_nil.mp (hend ▸ (hmid.foldlM h).2)
    obtain ⟨hstep, hhere⟩ := shows_visit hheld hclean hvisit p
    obtain ⟨hsteps, hlooked⟩ := ih hmid h
    refine ⟨fun x hx => ?_, ?_⟩
    · obtain ⟨y, hy, hshows⟩ := hstep x hx
      obtain ⟨z, hz, hshows'⟩ := hsteps y hshows
      exact ⟨z, by rw [foldlM_cons, hy]; exact hz, hshows'⟩
    · rintro ⟨r', hr', hlook⟩
      rcases hhere with hfound | ⟨hnot, hback⟩
      · exact hfound
      · rcases mem_cons.mp hr' with rfl | hlater
        · exact absurd hlook hnot
        · obtain ⟨x, hx, husable⟩ := hlooked ⟨r', hlater, hlook⟩
          exact ⟨x, hback x hx, husable⟩

theorem visit_of_redone (hclean : st.poisoned = []) (hshows : st.store.Shows r.pageId x)
    (husable : x = none → usable r.pageId = true) (hlooks : looksAt dirty r = true)
    (hredone : redone coreId x r = some page) :
    ∃ st', st.visit coreId dirty r = .ok st' ∧ st'.poisoned = [] := by
  obtain ⟨hnone, hdirty⟩ := Bool.and_eq_true_iff.mp hlooks
  rw [Bool.not_eq_true'] at hnone
  have hacquire : ∃ st1, st.noteRecord.acquire r = .ok (st1, some (inHand x)) ∧
      st1.poisoned = [] := by
    unfold RedoState.acquire
    dsimp only [RedoState.noteRecord]
    cases x with
    | some page =>
      obtain ⟨-, s', hget, -⟩ := RedoStore.get_of_pageAt hshows
      rw [hget]
      exact ⟨_, rfl, hclean⟩
    | none =>
      obtain ⟨⟨s', e, hget, hcode⟩, s1, hcreate, -⟩ :=
        RedoStore.createAt_of_absent hshows (husable rfl)
      have hcreates : (r.body.isPageInit || r.body.isImage) = true := by
        by_contra hno
        rw [redone, if_pos (.inl ((Bool.not_eq_true _).mp hno))] at hredone
        cases hredone
      rw [hget]
      dsimp only
      rw [if_neg (by rw [hcode]; decide), if_pos hcreates, hcreate]
      exact ⟨_, rfl, hclean⟩
  obtain ⟨st1, hacquire, hclean1⟩ := hacquire
  have hvisit : st.visit coreId dirty r = st1.replay coreId r (inHand x) := by
    unfold RedoState.visit
    rw [hnone, hdirty, hacquire]
    rfl
  have hfree : ¬ (r.pageId ∈ st1.poisoned ∧ r.body.isImage = false) := by
    rw [hclean1]
    exact fun h => not_mem_nil h.1
  rw [hvisit, RedoState.replay, if_neg hfree]
  rw [redone] at hredone
  split_ifs at hredone with hfails hseen
  · rw [if_neg (not_or.mp hfails).2, if_pos hseen]
    exact ⟨_, rfl, hclean1⟩
  · obtain ⟨body, hbody, -⟩ := Option.map_eq_some_iff.mp hredone
    rcases happlied : RedoState.applied (inHand x) r with e | body'
    · rw [happlied] at hbody
      cases hbody
    · rw [if_neg (not_or.mp hfails).2, if_neg hseen]
      exact ⟨_, rfl, (noteImage_of_clean hclean1).2⟩

theorem foldlM_of_redone (hclean : st.poisoned = [])
    (hpages : ∀ p, (∃ r ∈ records, r.pageId = p ∧ looksAt dirty r = true) →
      ∃ x y, st.store.Shows p x ∧ (x = none → usable p = true) ∧
        records.foldlM (pageStep coreId dirty p) x = some y) :
    ∃ st', records.foldlM (RedoState.visit coreId dirty) st = .ok st' ∧ st'.poisoned = [] := by
  induction records generalizing st with
  | nil => exact ⟨st, rfl, hclean⟩
  | cons r records ih =>
    have hheld : Held st := fun p hp => by rw [hclean] at hp; cases hp
    have hvisit : ∃ mid, st.visit coreId dirty r = .ok mid ∧ mid.poisoned = [] := by
      by_cases hlooks : looksAt dirty r = true
      · obtain ⟨x, y, hshows, husable, hsteps⟩ :=
          hpages r.pageId ⟨r, mem_cons_self, rfl, hlooks⟩
        rw [foldlM_cons, pageStep, if_pos ⟨rfl, hlooks⟩] at hsteps
        obtain ⟨mid, hmid, -⟩ := Option.bind_eq_some_iff.mp hsteps
        obtain ⟨page, hredone, -⟩ := Option.map_eq_some_iff.mp hmid
        exact visit_of_redone hclean hshows husable hlooks hredone
      · unfold RedoState.visit
        split_ifs with hnone hdirty
        · exact ⟨_, rfl, hclean⟩
        · exact ⟨_, rfl, hclean⟩
        · refine absurd ?_ hlooks
          rw [looksAt, (Bool.not_eq_true _).mp hnone, (Bool.not_eq_false _).mp hdirty]
          rfl
    obtain ⟨mid, hvisit, hclean'⟩ := hvisit
    obtain ⟨st', hfold, hend⟩ := ih hclean' fun p hlater => by
      obtain ⟨r', hr', hlook⟩ := hlater
      obtain ⟨x, z, hshows, husable, hsteps⟩ := hpages p ⟨r', mem_cons_of_mem r hr', hlook⟩
      obtain ⟨y, hy, hshows'⟩ := (shows_visit hheld hclean' hvisit p).1 x hshows
      rw [foldlM_cons, hy] at hsteps
      refine ⟨y, z, hshows', fun hnone => husable ?_, hsteps⟩
      rw [pageStep] at hy
      split_ifs at hy
      · obtain ⟨page, -, hpage⟩ := Option.map_eq_some_iff.mp hy
        exact absurd (hpage.trans hnone) (Option.some_ne_none page)
      · exact (Option.some.inj hy).trans hnone
    exact ⟨st', by rw [foldlM_cons, hvisit]; exact hfold, hend⟩

end Visit

-- Redo again

/-- What a crash leaves of a redo: each page as the redo had it at some point. -/
def CutShort (coreId : Nat) (dirty : Nat → Option Nat) (records : List PageRecord)
    (store crashed : RedoStore) : Prop :=
  ∀ p, ∃ sofar st, sofar <+: records ∧
    sofar.foldlM (RedoState.visit coreId dirty) (.start store) = .ok st ∧
    ∀ x, st.store.Shows p x → crashed.Shows p x

theorem redo_eq_ok {store : RedoStore} {st : RedoState} :
    redo coreId dirty records store = .ok st ↔
      records.foldlM (RedoState.visit coreId dirty) (.start store) = .ok st ∧ st.poisoned = [] := by
  unfold redo
  constructor
  · intro h
    rcases hfold : records.foldlM (RedoState.visit coreId dirty) (.start store) with e | st'
    · rw [hfold] at h
      cases h
    · rw [hfold] at h
      dsimp only at h
      rcases hmin : st'.poisoned.min? with _ | q
      · rw [hmin] at h
        cases h
        exact ⟨rfl, List.min?_eq_none_iff.mp hmin⟩
      · rw [hmin] at h
        cases h
  · rintro ⟨hfold, hend⟩
    rw [hfold]
    dsimp only
    rw [hend]
    rfl

/-- **Redo may be cut short and run again**: if it succeeds, then it does from whatever a crash
    leaves of it, and shows the same of every page. -/
theorem redo_restarts {store crashed : RedoStore} {st : RedoState}
    (h : redo coreId dirty records store = .ok st)
    (hcrash : CutShort coreId dirty records store crashed) :
    ∃ st', redo coreId dirty records crashed = .ok st' ∧
      ∀ p x, store.Shows p x → ∃ y, st.store.Shows p y ∧ st'.store.Shows p y := by
  have hheld : ∀ s, Held (.start s) := fun s p hp => by cases hp
  obtain ⟨hfold, hend⟩ := redo_eq_ok.mp h
  -- what the second redo finds of a page comes out as in the first
  have hpage : ∀ p x, store.Shows p x → ∃ y z, crashed.Shows p y ∧ (y = none → x = none) ∧
      records.foldlM (pageStep coreId dirty p) y = some z ∧ st.store.Shows p z := by
    intro p x hx
    obtain ⟨sofar, mid, ⟨rest, rfl⟩, hsofar, hcrashed⟩ := hcrash p
    rw [foldlM_append] at hfold
    obtain ⟨mid', hsofar', hrest⟩ := bind_eq_ok.mp hfold
    cases hsofar.symm.trans hsofar'
    have hmid := ((hheld store).foldlM hsofar).1
    have hclean : mid.poisoned = [] := subset_nil.mp (hend ▸ (hmid.foldlM hrest).2)
    obtain ⟨y, hy, hshows⟩ := (shows_foldlM (hheld store) hclean hsofar p).1 x hx
    obtain ⟨z, hz, hshows'⟩ := (shows_foldlM hmid hend hrest p).1 y hshows
    obtain ⟨hagain, hstays⟩ := pageSteps_again hy
    refine ⟨y, z, hcrashed y hshows, fun hnone => ?_, ?_, hshows'⟩
    · cases x with
      | none => rfl
      | some page =>
        obtain ⟨page', hpage', -⟩ := hstays page rfl
        exact absurd (hpage'.symm.trans hnone) (Option.some_ne_none page')
    · rw [foldlM_append, hagain]
      exact hz
  obtain ⟨st', hfold', hend'⟩ := @foldlM_of_redone coreId dirty records (.start crashed) rfl
    fun p hlook => by
      obtain ⟨x, hx, husable⟩ := (shows_foldlM (hheld store) hend hfold p).2 hlook
      obtain ⟨y, z, hy, hnone, hz, -⟩ := hpage p x hx
      exact ⟨y, z, hy, fun h => husable (hnone h), hz⟩
  refine ⟨st', redo_eq_ok.mpr ⟨hfold', hend'⟩, fun p x hx => ?_⟩
  obtain ⟨y, z, hy, -, hz, hshows⟩ := hpage p x hx
  obtain ⟨z', hz', hshows'⟩ := (shows_foldlM (hheld crashed) hend' hfold' p).1 y hy
  cases hz.symm.trans hz'
  exact ⟨z, hshows, hshows'⟩

/-- An empty leaf that counts so many bytes free. -/
def emptyLeaf (freeSpace : Nat) : Page := ⟨0, 1, .heap .heap 0 { freeSpace := freeSpace }⟩

/-- Pages 200 and 201, each restored twice. -/
def twoPages : List PageRecord :=
  [⟨4096, 200, .fullPageImage (emptyLeaf 100)⟩, ⟨4200, 201, .fullPageImage (emptyLeaf 200)⟩,
    ⟨4300, 200, .fullPageImage (emptyLeaf 300)⟩, ⟨4400, 201, .fullPageImage (emptyLeaf 400)⟩]

/-- The device has page 200 as the first record leaves it, and page 201 as the last one does. -/
def halfRedone : RedoStore where
  allocated p := p = 200 || p = 201
  device p :=
    if p = 200 then .holds { emptyLeaf 100 with lsn := 4096 }
    else if p = 201 then .holds { emptyLeaf 400 with lsn := 4400 } else .zeros
  frames _ := none

theorem halfRedone_cutShort : CutShort 0 wholeLog twoPages (storeAt []) halfRedone := by
  intro p
  by_cases hfirst : p = 200
  · refine ⟨twoPages.take 1, _, List.take_prefix 1 _, rfl, fun x hx => ?_⟩
    rw [hfirst] at hx ⊢
    cases x with
    | none => rcases hx with hx | ⟨hx, -⟩ <;> cases hx
    | some page =>
      cases hx
      rfl
  by_cases hlast : p = 201
  · refine ⟨twoPages, _, prefix_refl _, rfl, fun x hx => ?_⟩
    rw [hlast] at hx ⊢
    cases x with
    | none => rcases hx with hx | ⟨hx, -⟩ <;> cases hx
    | some page =>
      cases hx
      rfl
  · refine ⟨[], _, List.nil_prefix, rfl, fun x hx => ?_⟩
    have hnot : (storeAt []).isAllocated p = false := ite_self _
    cases x with
    | none => exact .inr ⟨rfl, (if_neg hfirst).trans (if_neg hlast)⟩
    | some page =>
      have hshown : (storeAt []).pageAt p = some page := hx
      rw [RedoStore.pageAt_eq, if_pos hnot] at hshown
      cases hshown

/-- The crash leaves the two pages at different records. -/
theorem redo_restarts_image :
    ∃ st st', redo 0 wholeLog twoPages (storeAt []) = .ok st ∧
      redo 0 wholeLog twoPages halfRedone = .ok st' ∧
      ∀ p x, (storeAt []).Shows p x → ∃ y, st.store.Shows p y ∧ st'.store.Shows p y := by
  have hfirst : ∃ st, redo 0 wholeLog twoPages (storeAt []) = .ok st := ⟨_, rfl⟩
  obtain ⟨st, hst⟩ := hfirst
  obtain ⟨st', hagain⟩ := redo_restarts hst halfRedone_cutShort
  exact ⟨st, st', hst, hagain⟩

end Kds.Wal
