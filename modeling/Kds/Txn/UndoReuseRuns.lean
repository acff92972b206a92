/-
  Kds.Txn.UndoReuseRuns

  No page of the undo log is used again while a reader may want a record that lies on it.

  What decides is the least bound among the views that are read through, and the next id.  It never
  falls (`Safe` is kept by every step), a page is formatted again only when its writers are below
  it, and every view sees a writer below it: so no reader follows a pointer such a writer stamped.
-/

import Kds.Txn.UndoPointers

namespace Kds.Txn

open Lib Storage List

namespace Core

/-- A writer every view sees, those still to be minted included. -/
def Settled (core : Core) (writer : Nat) : Prop :=
  writer < core.manager.nextId ∧ ∀ view ∈ core.views, writer < view.minVisibleBound

/-- **The invariant of a core.** -/
structure Safe (core : Core) : Prop where
  kept : core.undo.Kept core.Settled
  writers : ∀ e ∈ core.undo.history, e.writer < core.manager.nextId
  ids : ∀ txn ∈ core.manager.live, alwaysVisibleTrxId < txn.id ∧ txn.id < core.manager.nextId
  own : ∀ txn ∈ core.manager.live, txn.view.ownTrxId = txn.id
  leases : ∀ r ∈ core.readers, r.bound = r.view.minVisibleBound
  headers : Headers core.pages (Wrote core.undo)
  priors : ∀ e ∈ core.undo.history, Wrote core.undo e.version.priorTrxId e.version.priorUndoPtr
  trails : ∀ txn ∈ core.manager.live, ∀ entry ∈ txn.trail,
    Wrote core.undo entry.priorTrxId entry.priorUndoPtr
  chains : ∀ txn ∈ core.manager.live, txn.active = true → Chained core.undo.history txn

variable {core core' : Core} {txn txn' : Transaction} {w : Nat} {view : ReadView}
    {readers : List ReaderLease} {answers : AppendAnswers} {loc : Loc} {tuple : HeapTuple}

theorem mem_views_of_active (htxn : txn ∈ core.manager.live) (hactive : txn.active = true) :
    txn.view ∈ core.views :=
  mem_append_left _ (mem_map.mpr ⟨txn, mem_filter.mpr ⟨htxn, hactive⟩, rfl⟩)

theorem mem_views_of_leased {r : ReaderLease} (hr : r ∈ core.readers) : r.view ∈ core.views :=
  mem_append_right _ (mem_map.mpr ⟨r, hr, rfl⟩)

theorem mem_views : view ∈ core.views ↔
    (∃ txn ∈ core.manager.live, txn.active = true ∧ txn.view = view) ∨
      ∃ r ∈ core.readers, r.view = view := by
  simp only [views, mem_append, mem_map, mem_filter, and_assoc]

theorem Settled.visible (h : core.Settled w) (hview : view ∈ core.views) : view.visible w = true :=
  ReadView.visible_of_lt_minVisibleBound (h.2 view hview)

theorem Safe.settled_lt (h : core.Safe) (hw : core.Settled w) (htxn : txn ∈ core.manager.live)
    (hactive : txn.active = true) : w < txn.id := by
  have hbound := (ReadView.lt_minVisibleBound.mp (hw.2 _ (mem_views_of_active htxn hactive))).2.2
  rw [h.own txn htxn] at hbound
  have hid := (h.ids txn htxn).1
  rcases hbound with hnone | hlt
  · rw [hnone] at hid
    cases hid
  · exact hlt

theorem Safe.settled_of_lt_readHorizon (h : core.Safe) {e : UndoEntry} (he : e ∈ core.undo.history)
    (hlt : e.writer < core.readHorizon) : core.Settled e.writer := by
  obtain ⟨hlive, hleased⟩ := lt_bounds_of_lt_readHorizon hlt
  refine ⟨h.writers e he, fun view hview => ?_⟩
  rcases mem_views.mp hview with ⟨txn, htxn, hactive, rfl⟩ | ⟨r, hr, rfl⟩
  · exact hlive txn htxn hactive
  · exact h.leases r hr ▸ hleased r hr

theorem Safe.settled_lt_minted (h : core.Safe) (hw : core.Settled w) {m : TransactionManager}
    (hlive : m.live = core.manager.live) (hnext : core.manager.nextId ≤ m.nextId) {own : Nat}
    (hview : m.mintReadView own = .ok view) (hown : own = noTrxId ∨ w < own) :
    w < view.minVisibleBound := by
  refine lt_minVisibleBound_of_minted hview (lt_of_lt_of_le hw.1 hnext) ?_ hown
  intro txn htxn hactive
  exact h.settled_lt hw (hlive ▸ htxn) hactive

-- Steps that append no record

theorem Settled.mono (h : core.Settled w) (hnext : core.manager.nextId ≤ core'.manager.nextId)
    (hviews : ∀ view ∈ core'.views, view ∈ core.views ∨ w < view.minVisibleBound) :
    core'.Settled w := by
  refine ⟨lt_of_lt_of_le h.1 hnext, fun view hview => ?_⟩
  rcases hviews view hview with hold | hbound
  · exact h.2 view hold
  · exact hbound

theorem Safe.withReaders (h : core.Safe) (hleases : ∀ r ∈ readers, r.bound = r.view.minVisibleBound)
    (hviews : ∀ r ∈ readers, r.view ∈ core.views ∨
      ∀ w, core.Settled w → w < r.view.minVisibleBound) :
    ({ core with readers := readers } : Core).Safe := by
  refine { h with
    kept := h.kept.mono fun e he hw => hw.mono (Nat.le_refl _) fun view hview => ?_
    leases := hleases }
  rcases mem_views.mp hview with ⟨txn, htxn, hactive, rfl⟩ | ⟨r, hr, rfl⟩
  · exact .inl (mem_views_of_active htxn hactive)
  · exact (hviews r hr).imp_right fun hall => hall e.writer hw

/-- A transaction is replaced by one whose view, trail and chain the log still serves. -/
theorem Safe.update (h : core.Safe) (htxn : txn ∈ core.manager.live) (hid : txn'.id = txn.id)
    (hown : txn'.view.ownTrxId = txn.id)
    (hview : txn'.active = true → txn'.view ∈ core.views ∨
      ∀ w, core.Settled w → w < txn'.view.minVisibleBound)
    (htrail : ∀ entry ∈ txn'.trail, Wrote core.undo entry.priorTrxId entry.priorUndoPtr)
    (hchain : txn'.active = true → Chained core.undo.history txn') : (core.update txn').Safe := by
  refine { h with
    kept := h.kept.mono fun e he hw => hw.mono (Nat.le_refl _) fun view hv => ?_
    ids := fun t ht => ?_
    own := fun t ht => ?_
    trails := fun t ht => ?_
    chains := fun t ht hactive => ?_ }
  · rcases mem_views.mp hv with ⟨t, ht, hactive, rfl⟩ | ⟨r, hr, rfl⟩
    · rcases mem_update_live ht with rfl | ⟨ht, -⟩
      · exact (hview hactive).imp_right fun hall => hall e.writer hw
      · exact .inl (mem_views_of_active ht hactive)
    · exact .inl (mem_views_of_leased hr)
  · rcases mem_update_live ht with rfl | ⟨ht, -⟩
    · exact hid ▸ h.ids txn htxn
    · exact h.ids t ht
  · rcases mem_update_live ht with rfl | ⟨ht, -⟩
    · exact hown.trans hid.symm
    · exact h.own t ht
  · rcases mem_update_live ht with rfl | ⟨ht, -⟩
    · exact htrail
    · exact h.trails t ht
  · rcases mem_update_live ht with rfl | ⟨ht, -⟩
    · exact hchain hactive
    · exact h.chains t ht hactive

theorem Safe.window (h : core.Safe) {next : Nat} (hle : core.manager.nextId ≤ next) :
    ({ core with manager := { core.manager with nextId := next } } : Core).Safe :=
  { h with
    kept := h.kept.mono fun _ _ hw => hw.mono hle fun _ hview => .inl hview
    writers := fun e he => lt_of_lt_of_le (h.writers e he) hle
    ids := fun t ht => ⟨(h.ids t ht).1, lt_of_lt_of_le (h.ids t ht).2 hle⟩ }

/-- A new transaction's view needs no record that may be formatted over. -/
theorem Safe.begin (h : core.Safe) {isolation : IsolationLevel} {m : TransactionManager}
    (hboot : alwaysVisibleTrxId < core.manager.nextId)
    (hbegin : core.manager.begin isolation = .ok (m, txn)) :
    ({ core with manager := m } : Core).Safe := by
  obtain ⟨view, hview, rfl, rfl⟩ := begin_eq_ok hbegin
  have hmem : ∀ {t}, t ∈ core.manager.live ++ [{ id := core.manager.nextId, isolation := isolation
                                                 view := view }] →
      t ∈ core.manager.live ∨ t = { id := core.manager.nextId, isolation := isolation
                                    view := view } := fun ht =>
    (mem_append.mp ht).imp_right mem_singleton.mp
  refine { h with
    kept := h.kept.mono fun e he hw => hw.mono (Nat.le_succ _) fun v hv => ?_
    writers := fun e he => Nat.lt_succ_of_lt (h.writers e he)
    ids := fun t ht => ?_
    own := fun t ht => ?_
    trails := fun t ht => ?_
    chains := fun t ht hactive => ?_ }
  · rcases mem_views.mp hv with ⟨t, ht, hactive, rfl⟩ | ⟨r, hr, rfl⟩
    · rcases hmem ht with ht | rfl
      · exact .inl (mem_views_of_active ht hactive)
      · exact .inr (h.settled_lt_minted (m := { core.manager with
          nextId := core.manager.nextId + 1 }) hw rfl (Nat.le_succ _) hview (.inr hw.1))
    · exact .inl (mem_views_of_leased hr)
  · rcases hmem ht with ht | rfl
    · exact ⟨(h.ids t ht).1, Nat.lt_succ_of_lt (h.ids t ht).2⟩
    · exact ⟨hboot, Nat.lt_succ_self _⟩
  · rcases hmem ht with ht | rfl
    · exact h.own t ht
    · exact congrArg ReadView.ownTrxId (mintReadView_eq_ok hview)
  · rcases hmem ht with ht | rfl
    · exact h.trails t ht
    · intro entry hentry
      cases hentry
  · rcases hmem ht with ht | rfl
    · exact h.chains t ht hactive
    · -- no record is by a writer whose id was not handed out
      have hnone : ∀ e ∈ core.undo.history, e.writer ≠ core.manager.nextId := fun e he =>
        Nat.ne_of_lt (h.writers e he)
      refine ⟨(newestBy_of_no_record hnone).symm, fun older e newer hsplit hwriter => ?_⟩
      refine absurd hwriter (hnone e ?_)
      rw [hsplit]
      exact mem_append_right _ mem_cons_self

theorem Safe.startStatement (h : core.Safe) (htxn : txn ∈ core.manager.live)
    (hstart : core.manager.startStatement txn = .ok txn') : (core.update txn').Safe := by
  have hactive : txn.active = true := by
    rw [TransactionManager.startStatement] at hstart
    split_ifs at hstart with hdone
    simpa using hdone
  obtain ⟨view, rfl, hview⟩ := startStatement_eq_ok hstart
  have hchain : Chained core.undo.history { txn with view := view } :=
    (h.chains txn htxn hactive).congr rfl rfl
  rcases hview with rfl | hminted
  · exact h.update htxn rfl (h.own txn htxn) (fun _ => .inl (mem_views_of_active htxn hactive))
      (h.trails txn htxn) fun _ => hchain
  · refine h.update htxn rfl ?_ (fun _ => .inr fun w hw => ?_) (h.trails txn htxn) fun _ => hchain
    · exact congrArg ReadView.ownTrxId (mintReadView_eq_ok hminted)
    · exact h.settled_lt_minted hw rfl (Nat.le_refl _) hminted (.inr (h.settled_lt hw htxn hactive))

theorem Safe.registerReader (h : core.Safe)
    (hreg : Txn.registerReader core.readers view = .ok readers)
    (hview : core.manager.mintReadView noTrxId = .ok view ∨ view ∈ core.views) :
    ({ core with readers := readers } : Core).Safe := by
  rw [Txn.registerReader] at hreg
  split at hreg
  · cases hreg
  · cases hreg
    refine h.withReaders (fun r hr => ?_) fun r hr => ?_
    · rcases Lib.mem_snoc.mp hr with hold | rfl
      · exact h.leases r hold
      · rfl
    · rcases Lib.mem_snoc.mp hr with hold | rfl
      · exact .inl (mem_views_of_leased hold)
      · rcases hview with hminted | hheld
        · exact .inr fun w hw => h.settled_lt_minted hw rfl (Nat.le_refl _) hminted (.inl rfl)
        · exact .inl hheld

theorem Safe.release (h : core.Safe) (txn : Transaction) : (core.release txn).Safe := by
  rw [Core.release]
  split_ifs
  · exact h
  · have hsub : ∀ t ∈ core.manager.live.filter (·.id ≠ txn.id), t ∈ core.manager.live := fun t ht =>
      (mem_filter.mp ht).1
    refine { h with
      kept := h.kept.mono fun e he hw => hw.mono (Nat.le_refl _) fun view hview => ?_
      ids := fun t ht => h.ids t (hsub t ht)
      own := fun t ht => h.own t (hsub t ht)
      trails := fun t ht => h.trails t (hsub t ht)
      chains := fun t ht => h.chains t (hsub t ht) }
    rcases mem_views.mp hview with ⟨t, ht, hactive, rfl⟩ | ⟨r, hr, rfl⟩
    · exact .inl (mem_views_of_active (hsub t ht) hactive)
    · exact .inl (mem_views_of_leased hr)

theorem Safe.heap (h : core.Safe) {pages : Nat → Option HeapPage}
    (hkeeps : KeepsPointers core.pages pages) : ({ core with pages := pages } : Core).Safe := by
  refine { h with headers := fun pageId page hpage slot tuple htuple => ?_ }
  rcases hkeeps pageId page slot tuple hpage htuple with
    hnone | ⟨pageId', page', slot', tuple', hpage', htuple', htrx, hptr⟩
  · exact .inl hnone
  · exact htrx ▸ hptr ▸ h.headers pageId' page' hpage' slot' tuple' htuple'

theorem Safe.rollBack (h : core.Safe) (htxn : txn ∈ core.manager.live)
    (locateRow : Option RowLocator) : (core.rollBack txn locateRow).Safe := by
  have hpages : Headers (abort core.store txn locateRow).1.pages (Wrote core.undo) :=
    Headers.abort h.headers locateRow (h.trails txn htxn)
  have hsafe : ({ core with pages := (abort core.store txn locateRow).1.pages } : Core).Safe :=
    { h with headers := hpages }
  rw [Core.rollBack]
  by_cases hactive : txn.active = true
  · have hout : (abort core.store txn locateRow).2.1 =
        { txn with trail := [], active := false } := by
      rw [Txn.abort, if_neg (by simp [hactive])]
    rw [hout]
    exact hsafe.update htxn rfl (h.own txn htxn) (fun hf => by cases hf)
      (fun entry hentry => by cases hentry) fun hf => by cases hf
  · have hout : (abort core.store txn locateRow).2.1 = txn := by
      rw [Txn.abort, if_pos (by simp [hactive])]
    rw [hout]
    exact hsafe.update htxn rfl (h.own txn htxn) (fun ht => absurd ht hactive)
      (h.trails txn htxn) fun ht => absurd ht hactive

theorem Safe.commit (h : core.Safe) (htxn : txn ∈ core.manager.live) : (core.commit txn).Safe :=
  h.update htxn rfl (h.own txn htxn) (fun hf => by cases hf) (fun entry hentry => by cases hentry)
    fun hf => by cases hf

-- Steps that append one

/-- What `AppendUndo` leaves of a core: the pages of the heap and the readers, and the transaction
    with its new head where it succeeds. -/
theorem Safe.appendUndo (h : core.Safe) {fields : UndoVersion} {pk : Nat}
    {out : StatusOr (Transaction × Nat)} (htxn : txn ∈ core.manager.live)
    (hactive : txn.active = true)
    (hnew : ∀ pageId, answers.created = some pageId → core.undo.store pageId = none)
    (hprior : Wrote core.undo fields.priorTrxId fields.priorUndoPtr)
    (happend : core.appendUndo answers txn fields pk = (core', out)) :
    core'.Safe ∧ core'.pages = core.pages ∧ core.undo.history <+: core'.undo.history ∧
      ∀ t ptr, out = .ok (t, ptr) → t ∈ core'.manager.live ∧ t.active = true ∧ t.id = txn.id ∧
        Wrote core'.undo txn.id ptr := by
  have hspec := UndoPages.append_appended txn.id answers
    { fields with txnPrevUndoPtr := txn.lastUndoPtr, pk := pk } h.kept
    (fun e he hlt => h.settled_of_lt_readHorizon he hlt) hnew
  rw [Core.appendUndo] at happend
  rcases hcase : core.undo.append answers core.readHorizon txn.id
    { fields with txnPrevUndoPtr := txn.lastUndoPtr, pk := pk } with ⟨undo, res⟩
  rw [hcase] at hspec happend
  cases res with
  | error s =>
    cases happend
    have hhistory : undo.history = core.undo.history := hspec.failed s rfl
    have hgrown : core.undo.history <+: undo.history := hhistory ▸ prefix_refl _
    refine ⟨{ h with
      kept := hspec.kept
      writers := fun e he => h.writers e (hhistory ▸ he)
      headers := fun pageId page hpage slot tuple htuple =>
        (h.headers pageId page hpage slot tuple htuple).of_append hgrown
      priors := fun e he => (h.priors e (hhistory ▸ he)).of_append hgrown
      trails := fun t ht entry he => (h.trails t ht entry he).of_append hgrown
      chains := fun t ht hact => hhistory ▸ h.chains t ht hact }, rfl, hgrown, ?_⟩
    intro t ptr hok
    cases hok
  | ok ptr =>
    cases happend
    obtain ⟨rfl, pageId, offset, hhistory⟩ := hspec.wrote ptr rfl
    set e : UndoEntry := ⟨{ fields with txnPrevUndoPtr := txn.lastUndoPtr, pk := pk }, txn.id,
      pageId, offset⟩ with he
    have hgrown : core.undo.history <+: undo.history := hhistory ▸ prefix_append _ _
    have hmem : ∀ {x}, x ∈ undo.history → x ∈ core.undo.history ∨ x = e := fun hx =>
      (mem_append.mp (hhistory ▸ hx)).imp_right mem_singleton.mp
    have hwrote : Wrote undo txn.id (core.undo.history.length + 1) := by
      refine .inr ⟨e, ?_, rfl⟩
      show undo.history[core.undo.history.length]? = some e
      rw [hhistory, List.getElem?_concat_length]
    -- the log and the heads move in one step, so neither `Safe` alone holds in between
    refine ⟨⟨?_, fun x hx => ?_, fun t ht => ?_, fun t ht => ?_, h.leases,
      fun q page hpage slot tuple htuple =>
        (h.headers q page hpage slot tuple htuple).of_append hgrown,
      fun x hx => ?_, fun t ht entry hentry => ?_, fun t ht hact => ?_⟩, rfl, hgrown, ?_⟩
    · refine hspec.kept.mono fun x hx hw => hw.mono (Nat.le_refl _) fun view hview => ?_
      rcases mem_views.mp hview with ⟨t, ht, hact, rfl⟩ | ⟨r, hr, rfl⟩
      · rcases mem_update_live ht with rfl | ⟨ht, -⟩
        · have hview : txn.view ∈ core.views := mem_views_of_active htxn hactive
          exact .inl hview
        · exact .inl (mem_views_of_active ht hact)
      · exact .inl (mem_views_of_leased hr)
    · rcases hmem hx with hold | rfl
      · exact h.writers x hold
      · exact (h.ids txn htxn).2
    · rcases mem_update_live ht with rfl | ⟨ht, -⟩
      · exact h.ids txn htxn
      · exact h.ids t ht
    · rcases mem_update_live ht with rfl | ⟨ht, -⟩
      · exact h.own txn htxn
      · exact h.own t ht
    · rcases hmem hx with hold | rfl
      · exact (h.priors x hold).of_append hgrown
      · exact hprior.of_append hgrown
    · rcases mem_update_live ht with rfl | ⟨ht, -⟩
      · exact (h.trails txn htxn entry hentry).of_append hgrown
      · exact (h.trails t ht entry hentry).of_append hgrown
    · show Chained undo.history t
      rw [hhistory]
      rcases mem_update_live ht with rfl | ⟨ht, hne⟩
      · exact (h.chains txn htxn hactive).extend rfl rfl rfl rfl
      · exact (h.chains t ht hact).other (Ne.symm hne)
    · intro t ptr hok
      cases hok
      refine ⟨?_, hactive, rfl, hwrote⟩
      exact mem_map.mpr ⟨txn, htxn, if_pos rfl⟩

/-- The trail takes an entry whose prior pointer was written. -/
theorem Safe.note (h : core.Safe) (htxn : txn ∈ core.manager.live) {entry : TrailEntry}
    (hentry : Wrote core.undo entry.priorTrxId entry.priorUndoPtr)
    (hnoted : txn' = { txn with trail := txn.trail ++ [entry] }) : (core.update txn').Safe := by
  subst hnoted
  have hview : txn.active = true → txn.view ∈ core.views := mem_views_of_active htxn
  refine h.update htxn rfl (h.own txn htxn) (fun hactive => .inl (hview hactive))
    (fun x hx => ?_) fun hactive => (h.chains txn htxn hactive).congr rfl rfl
  rcases Lib.mem_snoc.mp hx with hold | rfl
  · exact h.trails txn htxn x hold
  · exact hentry

/-- A tuple takes a pointer that was written. -/
theorem Safe.stamp (h : core.Safe) {type : UndoRecordType} {payload : Bytes} {trxId ptr : Nat}
    (hwrote : Wrote core.undo trxId ptr) : (core.stamp type loc payload trxId ptr).Safe := by
  rw [Core.stamp]
  cases hpage : core.pages loc.1 with
  | none => exact h
  | some page =>
    dsimp only
    cases hstamp : stampTuple page type loc.2 payload trxId ptr with
    | error s => exact h
    | ok page' =>
      exact { h with
        headers := h.headers.update ((h.headers loc.1 page hpage).stampTuple hwrote hstamp) }

theorem Safe.wrote_of_tupleAt (h : core.Safe)
    (htuple : core.store.tupleAt loc.1 loc.2 = some tuple) :
    Wrote core.undo tuple.trxId tuple.undoPtr := by
  rw [Store.tupleAt] at htuple
  cases hpage : core.pages loc.1 with
  | none =>
    rw [show core.store.pages loc.1 = none from hpage] at htuple
    cases htuple
  | some page =>
    rw [show core.store.pages loc.1 = some page from hpage] at htuple
    exact h.headers loc.1 page hpage loc.2 tuple htuple

theorem Safe.noteInserted (h : core.Safe) (htxn : txn ∈ core.manager.live)
    (hactive : txn.active = true)
    (hnew : ∀ pageId, answers.created = some pageId → core.undo.store pageId = none) (relOid : Nat)
    (loc : Loc) (pk : Nat) : (core.noteInserted answers txn relOid loc pk).Safe := by
  rw [Core.noteInserted]
  rcases happend : core.appendUndo answers txn
    { type := .insert, targetPageId := loc.1, targetSlot := loc.2, pk := pk } pk with ⟨core', out⟩
  obtain ⟨hsafe, -, -, hout⟩ := h.appendUndo htxn hactive hnew (.inl rfl) happend
  cases out with
  | error s => exact hsafe
  | ok res =>
    obtain ⟨t, ptr⟩ := res
    obtain ⟨ht, -, -, -⟩ := hout t ptr rfl
    exact hsafe.note ht (.inl rfl) rfl

theorem Safe.overwrite (h : core.Safe) {answers : AppendAnswers} (htxn : txn ∈ core.manager.live)
    (hactive : txn.active = true)
    (hnew : ∀ pageId, answers.created = some pageId → core.undo.store pageId = none)
    (relOid : Nat) (loc : Loc) (pk : Nat) (payload : Bytes) (stamped : Bool) :
    (core.overwrite answers txn relOid loc pk payload stamped).Safe := by
  rw [Core.overwrite]
  cases htuple : core.store.tupleAt loc.1 loc.2 with
  | none => exact h
  | some tuple =>
    have hprior := h.wrote_of_tupleAt htuple
    dsimp only
    rcases happend : core.appendUndo answers txn
      { type := .overwrite, priorTrxId := tuple.trxId, priorUndoPtr := tuple.undoPtr
        targetPageId := loc.1, targetSlot := loc.2, pk := pk, image := tuple.payload } pk
      with ⟨core', out⟩
    obtain ⟨hsafe, -, hgrown, hout⟩ := h.appendUndo htxn hactive hnew hprior happend
    cases out with
    | error s => exact hsafe
    | ok res =>
      obtain ⟨t, ptr⟩ := res
      obtain ⟨ht, -, hid, hwrote⟩ := hout t ptr rfl
      have hnoted : (core'.update (t.noteOverwrite relOid loc.1 loc.2 pk tuple.trxId
          tuple.undoPtr tuple.payload)).Safe :=
        hsafe.note ht (hprior.of_append hgrown) rfl
      dsimp only
      split_ifs
      · exact hnoted.stamp (hid ▸ hwrote)
      · exact hnoted

theorem Safe.deleteMark (h : core.Safe) (htxn : txn ∈ core.manager.live)
    (hactive : txn.active = true)
    (hnew : ∀ pageId, answers.created = some pageId → core.undo.store pageId = none) (relOid : Nat)
    (loc : Loc) (pk : Nat) (stamped : Bool) :
    (core.deleteMark answers txn relOid loc pk stamped).Safe := by
  rw [Core.deleteMark]
  cases htuple : core.store.tupleAt loc.1 loc.2 with
  | none => exact h
  | some tuple =>
    have hprior := h.wrote_of_tupleAt htuple
    dsimp only
    rcases happend : core.appendUndo answers txn
      { type := .deleteMark, priorTrxId := tuple.trxId, priorUndoPtr := tuple.undoPtr
        targetPageId := loc.1, targetSlot := loc.2, pk := pk } pk with ⟨core', out⟩
    obtain ⟨hsafe, -, hgrown, hout⟩ := h.appendUndo htxn hactive hnew hprior happend
    cases out with
    | error s => exact hsafe
    | ok res =>
      obtain ⟨t, ptr⟩ := res
      obtain ⟨ht, -, hid, hwrote⟩ := hout t ptr rfl
      have hnoted : (core'.update (t.noteDeleteMark relOid loc.1 loc.2 pk tuple.trxId
          tuple.undoPtr)).Safe :=
        hsafe.note ht (hprior.of_append hgrown) rfl
      dsimp only
      split_ifs
      · exact hnoted.stamp (hid ▸ hwrote)
      · exact hnoted

theorem running_eq_some {id : Nat} (h : core.running id = some txn) :
    txn ∈ core.manager.live ∧ txn.active = true := by
  obtain ⟨hfind, hactive⟩ := Option.filter_eq_some_iff.mp h
  exact ⟨(find_eq_some hfind).1, hactive⟩

/-- Every step keeps each record that a view may still follow. -/
theorem Safe.step (h : core.Safe) {a : CoreAction} (hproper : core.Proper a)
    (hstep : core.step a = some core') : core'.Safe := by
  cases a with
  | begin isolation =>
    rw [Core.step] at hstep
    split_ifs at hstep with hboot
    split at hstep
    · cases hstep
    · next m txn hbegin =>
      cases hstep
      exact h.begin hboot hbegin
  | window next =>
    rw [Core.step] at hstep
    split_ifs at hstep with hle
    cases hstep
    exact h.window hle
  | startStatement id =>
    obtain ⟨txn, hfind, hstep⟩ := Option.bind_eq_some_iff.mp hstep
    split at hstep
    · cases hstep
    · next txn' hstart =>
      cases hstep
      exact h.startStatement (find_eq_some hfind).1 hstart
  | registerReader view =>
    rw [Core.step] at hstep
    split at hstep
    · cases hstep
    · next readers hreg =>
      cases hstep
      exact h.registerReader hreg hproper
  | releaseReader slot =>
    cases hstep
    have hsub : ∀ r ∈ unregisterReader core.readers slot, r ∈ core.readers := fun r hr =>
      (mem_filter.mp hr).1
    exact h.withReaders (fun r hr => h.leases r (hsub r hr)) fun r hr =>
      .inl (mem_views_of_leased (hsub r hr))
  | insert id relOid loc pk answers =>
    obtain ⟨txn, hrunning, rfl⟩ := Option.map_eq_some_iff.mp hstep
    obtain ⟨htxn, hactive⟩ := running_eq_some hrunning
    exact h.noteInserted htxn hactive hproper relOid loc pk
  | overwrite id relOid loc pk payload stamped answers =>
    obtain ⟨txn, hrunning, rfl⟩ := Option.map_eq_some_iff.mp hstep
    obtain ⟨htxn, hactive⟩ := running_eq_some hrunning
    exact h.overwrite htxn hactive hproper relOid loc pk payload stamped
  | deleteMark id relOid loc pk stamped answers =>
    obtain ⟨txn, hrunning, rfl⟩ := Option.map_eq_some_iff.mp hstep
    obtain ⟨htxn, hactive⟩ := running_eq_some hrunning
    exact h.deleteMark htxn hactive hproper relOid loc pk stamped
  | commit id =>
    obtain ⟨txn, hrunning, rfl⟩ := Option.map_eq_some_iff.mp hstep
    exact h.commit (running_eq_some hrunning).1
  | abort id locateRow =>
    obtain ⟨txn, hfind, rfl⟩ := Option.map_eq_some_iff.mp hstep
    exact h.rollBack (find_eq_some hfind).1 locateRow
  | release id =>
    obtain ⟨txn, -, rfl⟩ := Option.map_eq_some_iff.mp hstep
    exact h.release txn
  | heap pages =>
    cases hstep
    exact h.heap hproper

-- Reading

/-- A view that does not see a writer finds its record, on a page not used again. -/
theorem Safe.pointer_followed (h : core.Safe) (hview : view ∈ core.views) {trxId ptr : Nat}
    (hwrote : Wrote core.undo trxId ptr) (hsome : ptr ≠ noUndoPtr)
    (hunseen : view.visible trxId = false) :
    ∃ e, core.undo.entry ptr = some e ∧ e ∈ core.undo.history ∧ ¬ core.undo.Recycled ptr ∧
      core.undo.read ptr = .ok e.version ∧ core.undo.unrecycled.read ptr = .ok e.version := by
  obtain ⟨e, he, rfl⟩ := hwrote.resolve_left hsome
  have hfresh : ¬ core.undo.Recycled ptr := h.kept.not_recycled he fun hsettled => by
    rw [hsettled.visible hview] at hunseen
    cases hunseen
  exact ⟨e, he, UndoPages.mem_history_of_entry he, hfresh, h.kept.read_of_not_recycled he hfresh,
    UndoPages.unrecycled_read he⟩

theorem unseen_of_needsUndoWalk {trxId ptr : Nat} {deleted : Bool}
    (h : classify view trxId deleted ptr = .needsUndoWalk) :
    view.visible trxId = false ∧ ptr ≠ noUndoPtr := by
  rw [classify] at h
  split_ifs at h with hseen hdeleted hnone
  exact ⟨by simpa using hseen, hnone⟩

/-- **A walk** reads only records that lie where they were put, and finds what it would find if no
    page were ever used again. -/
theorem Safe.resolveThroughUndo_fresh (h : core.Safe) {view : ReadView} (hview : view ∈ core.views)
    (steps : Nat) {trxId ptr : Nat} {payload : Bytes} (hwrote : Wrote core.undo trxId ptr)
    (hunseen : view.visible trxId = false) :
    (∀ p ∈ (core.undo.resolveThroughUndo view steps ptr payload).1, ¬ core.undo.Recycled p) ∧
      (core.undo.resolveThroughUndo view steps ptr payload).2 =
        resolveThroughUndo view core.undo.unrecycled steps ptr payload := by
  induction steps generalizing trxId ptr payload with
  | zero => exact ⟨fun p hp => (by cases hp), rfl⟩
  | succ steps ih =>
    rw [UndoPages.resolveThroughUndo, resolveThroughUndo]
    by_cases hnone : ptr = noUndoPtr
    · rw [if_pos hnone, if_pos hnone]
      exact ⟨fun p hp => (by cases hp), rfl⟩
    rw [if_neg hnone, if_neg hnone]
    obtain ⟨e, -, hmem, hfresh, hread, hread'⟩ := h.pointer_followed hview hwrote hnone hunseen
    have hprior := h.priors e hmem
    have hone : ∀ p ∈ [ptr], ¬ core.undo.Recycled p := fun p hp =>
      mem_singleton.mp hp ▸ hfresh
    rw [hread, hread', ok_bind]
    dsimp only
    cases htype : e.version.type with
    | insert => exact ⟨hone, rfl⟩
    | overwrite =>
      cases hclass : classify view e.version.priorTrxId false e.version.priorUndoPtr with
      | visible => exact ⟨hone, rfl⟩
      | noVersion => exact ⟨hone, rfl⟩
      | needsUndoWalk =>
        obtain ⟨hreads, hsame⟩ := @ih _ _ e.version.image hprior
          (unseen_of_needsUndoWalk hclass).1
        exact ⟨forall_mem_cons.mpr ⟨hfresh, hreads⟩, hsame⟩
    | deleteMark =>
      cases hclass : classify view e.version.priorTrxId false e.version.priorUndoPtr with
      | visible => exact ⟨hone, rfl⟩
      | noVersion => exact ⟨hone, rfl⟩
      | needsUndoWalk =>
        obtain ⟨hreads, hsame⟩ := @ih _ _ payload hprior
          (unseen_of_needsUndoWalk hclass).1
        exact ⟨forall_mem_cons.mpr ⟨hfresh, hreads⟩, hsame⟩

theorem Safe.visibleVersion_fresh (h : core.Safe) (hview : view ∈ core.views)
    (hwrote : Wrote core.undo tuple.trxId tuple.undoPtr) :
    (∀ p ∈ (core.undo.visibleVersion view tuple).1, ¬ core.undo.Recycled p) ∧
      (core.undo.visibleVersion view tuple).2 = visibleVersion view core.undo.unrecycled tuple := by
  rw [UndoPages.visibleVersion, visibleVersion]
  cases hclass : classify view tuple.trxId tuple.deleted tuple.undoPtr with
  | visible => exact ⟨fun p hp => (by cases hp), rfl⟩
  | noVersion => exact ⟨fun p hp => (by cases hp), rfl⟩
  | needsUndoWalk =>
    exact h.resolveThroughUndo_fresh hview _ hwrote (unseen_of_needsUndoWalk hclass).1

/-- A running transaction's chain is its own records, last first. -/
theorem Safe.chain_intact (h : core.Safe) (htxn : txn ∈ core.manager.live)
    (hactive : txn.active = true) :
    core.undo.chain core.undo.history.length txn.lastUndoPtr =
      .ok (core.undo.writtenBy txn.id) := by
  have hchain := h.chains txn htxn hactive
  have hfresh : ∀ {ptr e}, core.undo.entry ptr = some e → e.writer = txn.id →
      core.undo.read ptr = .ok e.version := by
    intro ptr e he hwriter
    refine h.kept.read_of_not_recycled he (h.kept.not_recycled he fun hsettled => ?_)
    exact absurd hwriter (Nat.ne_of_lt (h.settled_lt hsettled htxn hactive))
  -- on the records up to any point, with at least as many steps
  have hgrown : ∀ (older newer : List UndoEntry) (steps : Nat),
      core.undo.history = older ++ newer → older.length ≤ steps →
      core.undo.chain steps (newestBy txn.id older) =
        .ok (((older.filter (·.writer = txn.id)).map (·.version)).reverse) := by
    intro older
    induction older using List.reverseRecOn with
    | nil =>
      intro newer steps _ _
      cases steps with
      | zero => rfl
      | succ steps => rfl
    | append_singleton older e ih =>
      intro newer steps hsplit hsteps
      rw [append_assoc, singleton_append] at hsplit
      rw [length_append, length_singleton] at hsteps
      rw [newestBy_append, filter_append]
      by_cases hwriter : e.writer = txn.id
      · obtain ⟨steps, rfl⟩ : ∃ n, steps = n + 1 := ⟨steps - 1, by omega⟩
        have hentry : core.undo.entry (older.length + 1) = some e := by
          show core.undo.history[older.length]? = some e
          rw [hsplit, List.getElem?_append_right (Nat.le_refl _), Nat.sub_self]
          rfl
        have holder := ih (e :: newer) steps hsplit (by omega)
        rw [← hchain.links older e newer hsplit hwriter] at holder
        have hlast : [e].filter (·.writer = txn.id) = [e] := by simp [hwriter]
        have hsome : older.length + 1 ≠ noUndoPtr := Nat.succ_ne_zero _
        rw [if_pos hwriter, hlast, map_append, reverse_append, UndoPages.chain,
          if_neg hsome, hfresh hentry hwriter]
        show (do
          let older ← core.undo.chain steps e.version.txnPrevUndoPtr
          (.ok (e.version :: older) : StatusOr (List UndoVersion))) = _
        rw [holder]
        rfl
      · have hlast : [e].filter (·.writer = txn.id) = [] := by simp [hwriter]
        rw [if_neg hwriter, hlast, append_nil]
        exact ih (e :: newer) steps hsplit (by omega)
  rw [hchain.head]
  exact hgrown core.undo.history [] _ (append_nil _).symm (Nat.le_refl _)

-- Every run

/-- **The start**: no transaction, no reader, and a chain of pages still to be begun.  The records
    and the pages of earlier runs are there, every pointer beside its writer. -/
structure Boot (core : Core) : Prop where
  live : core.manager.live = []
  readers : core.readers = []
  tail : core.undo.tail = none
  pages : core.undo.pages = []
  recycle : core.undo.recycle = []
  stored : ∀ e ∈ core.undo.history, (core.undo.store e.pageId).isSome
  packed : ∀ pageId page, core.undo.store pageId = some page → page.Packed
  found : ∀ ptr e, core.undo.entry ptr = some e → core.undo.formattedAt e.pageId < ptr →
    ∃ page, core.undo.store e.pageId = some page ∧ page.read e.offset = .ok e.version
  formatted : ∀ pageId, core.undo.formattedAt pageId ≤ core.undo.history.length
  writers : ∀ e ∈ core.undo.history, e.writer < core.manager.nextId
  headers : Headers core.pages (Wrote core.undo)
  priors : ∀ e ∈ core.undo.history, Wrote core.undo e.version.priorTrxId e.version.priorUndoPtr

theorem Boot.safe (h : core.Boot) : core.Safe := by
  have hviews : core.views = [] := by rw [views, h.live, h.readers]; rfl
  have hsettled : ∀ e ∈ core.undo.history, core.Settled e.writer := fun e he =>
    ⟨h.writers e he, fun view hview => by rw [hviews] at hview; cases hview⟩
  refine ⟨⟨h.stored, h.packed, h.found, h.formatted, ?_, ?_, ?_, ?_, ?_, ?_, ?_⟩, h.writers, ?_, ?_,
    ?_, h.headers, h.priors, ?_, ?_⟩
  · rw [h.pages]
    exact fun t ht => by cases ht
  · rw [h.recycle]
    exact fun p hp => by cases hp
  · rw [h.pages, h.recycle]
    exact nodup_nil
  · rw [h.tail, h.pages]
    rfl
  · exact fun ptr e he _ => hsettled e (UndoPages.mem_history_of_entry he)
  · exact fun e he _ => hsettled e he
  · rw [h.pages]
    exact fun ptr e _ _ t ht => by cases ht
  · rw [h.live]
    exact fun t ht => by cases ht
  · rw [h.live]
    exact fun t ht => by cases ht
  · rw [h.readers]
    exact fun r hr => by cases hr
  · rw [h.live]
    exact fun t ht => by cases ht
  · rw [h.live]
    exact fun t ht => by cases ht

theorem Boot.safe_of_runs {first last : Core} (h : first.Boot) (hrun : Runs first last) :
    last.Safe := by
  refine hrun.invariant h.safe ?_
  intro t u a hsafe hproper hstep
  exact hsafe.step hproper hstep

/-- **Undo pages are used again safely.**  After any run, every view that is read through (a running
    transaction's or a leased reader's) resolves every tuple on every page by reading only records
    whose page was not formatted since they were written, and finds what it would find had no page
    been used again; and every running transaction's chain reads back the records it wrote. -/
theorem undo_reuse_safe {first last : Core} (hboot : first.Boot) (hrun : Runs first last) :
    (∀ view ∈ last.views, ∀ pageId page slot tuple, last.pages pageId = some page →
      page.tupleAt slot = some tuple →
      (∀ ptr ∈ (last.undo.visibleVersion view tuple).1, ¬ last.undo.Recycled ptr) ∧
        (last.undo.visibleVersion view tuple).2 =
          visibleVersion view last.undo.unrecycled tuple) ∧
      ∀ txn ∈ last.manager.live, txn.active = true →
        last.undo.chain last.undo.history.length txn.lastUndoPtr =
          .ok (last.undo.writtenBy txn.id) := by
  have hsafe := hboot.safe_of_runs hrun
  refine ⟨fun view hview pageId page slot tuple hpage htuple => ?_, fun txn htxn hactive => ?_⟩
  · apply hsafe.visibleVersion_fresh hview
    exact hsafe.headers pageId page hpage slot tuple htuple
  · exact hsafe.chain_intact htxn hactive

/-- A row so wide that an undo page takes one image of it. -/
def wideRow : Core :=
  { manager := { nextId := 2 }
    pages := Function.update (fun _ => none) 1 (some { freeSpace := 0, slots :=
      [.live 4120 { trxId := alwaysVisibleTrxId, undoPtr := noUndoPtr
                    payload := List.replicate 4100 0 }] }) }

def rewriteRow (id : Nat) (created : Option Nat) : List CoreAction :=
  [.begin .readCommitted,
    .overwrite id 1000 (1, 0) 0 (List.replicate 4100 (UInt8.ofNat id)) true { created := created }]

/-- Three transactions rewrite the row; a reader is registered before the third, whose record goes
    on the page of the first. -/
def threeRewrites : List CoreAction :=
  rewriteRow 2 (some 200) ++ [.commit 2] ++ rewriteRow 3 (some 201) ++ [.commit 3] ++
    [.registerReader { upToTrxId := 4 }] ++ rewriteRow 4 none

/-- A check that implies `Proper`. -/
def properCheck (core : Core) : CoreAction → Bool
  | .registerReader view =>
    match core.manager.mintReadView noTrxId with
    | .ok minted => minted == view
    | .error _ => false
  | .insert _ _ _ _ answers | .overwrite _ _ _ _ _ _ answers | .deleteMark _ _ _ _ _ answers =>
    answers.created.all fun pageId => (core.undo.store pageId).isNone
  | .heap _ => false
  | _ => true

theorem proper_of_properCheck (core : Core) (a : CoreAction) (h : core.properCheck a = true) :
    core.Proper a := by
  have hcreated : ∀ {answers : AppendAnswers},
      (answers.created.all fun pageId => (core.undo.store pageId).isNone) = true →
      ∀ pageId, answers.created = some pageId → core.undo.store pageId = none := by
    intro answers hall pageId hsome
    rw [hsome] at hall
    exact Option.isNone_iff_eq_none.mp hall
  cases a with
  | registerReader view =>
    rw [properCheck] at h
    split at h
    · next minted hmint => exact .inl (hmint.trans (congrArg Except.ok (eq_of_beq h)))
    · cases h
  | insert => exact hcreated h
  | overwrite => exact hcreated h
  | deleteMark => exact hcreated h
  | heap => cases h
  | _ => trivial

theorem boot_wideRow : wideRow.Boot := by
  refine ⟨rfl, rfl, rfl, rfl, rfl, fun e he => (by cases he), fun p page hp => (by cases hp),
    fun ptr e he => ?_, fun p => Nat.le_refl 0, fun e he => (by cases he), fun p page hp => ?_,
    fun e he => (by cases he)⟩
  · cases ptr <;> cases he
  · have hone : Function.update (fun _ => none) 1 _ p = some page := hp
    by_cases heq : p = 1
    · rw [heq, Function.update_self] at hone
      cases hone
      intro slot tuple htuple
      obtain ⟨length, hslot⟩ := HeapPage.tupleAt_eq_some.mp htuple
      cases slot with
      | zero =>
        obtain ⟨-, rfl⟩ := HeapSlot.live.inj (Option.some.inj hslot)
        exact .inl rfl
      | succ slot => cases hslot
    · rw [Function.update_of_ne heq] at hone
      cases hone

theorem undo_reuse_safe_recycled :
    ∃ last, Runs wideRow last ∧ last.undo.formattedAt 200 = 2 ∧ last.undo.history.length = 3 ∧
      last.readers.length = 1 ∧
      (∀ view ∈ last.views, ∀ pageId page slot tuple, last.pages pageId = some page →
        page.tupleAt slot = some tuple →
        (∀ ptr ∈ (last.undo.visibleVersion view tuple).1, ¬ last.undo.Recycled ptr) ∧
          (last.undo.visibleVersion view tuple).2 =
            visibleVersion view last.undo.unrecycled tuple) ∧
        ∀ txn ∈ last.manager.live, txn.active = true →
          last.undo.chain last.undo.history.length txn.lastUndoPtr =
            .ok (last.undo.writtenBy txn.id) := by
  have hdone : (runList (guardStep properCheck Core.step) threeRewrites wideRow).any (fun core =>
      core.undo.formattedAt 200 == 2 && core.undo.history.length == 3 &&
        core.readers.length == 1) = true := by decide +kernel
  obtain ⟨last, hrun, hend⟩ := exists_reach_of_runList properCheck proper_of_properCheck
    threeRewrites wideRow _ hdone
  simp only [Bool.and_eq_true, beq_iff_eq] at hend
  exact ⟨last, hrun, hend.1.1, hend.1.2, hend.2, undo_reuse_safe boot_wideRow hrun⟩

end Core

end Kds.Txn
