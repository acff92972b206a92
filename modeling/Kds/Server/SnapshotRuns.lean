/-
  Kds.Server.SnapshotRuns

  Snapshot visibility over every run: a row resolved under a view, at any time after the view was
  minted, is what the transactions committed by then and the view's own have made of it, as long as
  the walk reads no more undo records than `maxUndoChainLength`.

  The invariant `Snapshots` ties the pages and the undo log to the remembered writes: a row's live
  writes are linked by undo records under the tuple on its page, one transaction in flight is on top
  of them, its trail takes exactly its own versions back, and each view sees the ids that had
  committed when it was minted.
-/

import Kds.Server.Snapshots
import Mathlib.Data.List.Find

namespace Kds.Server

open Lib Storage Txn List
open Function (update update_self update_of_ne update_eq_self update_idem)

/-- A view sees what had committed when it was minted, and its own transaction. -/
structure ViewSound (base : Nat) (committed aborted : List Nat) (view : ReadView × List Nat) :
    Prop where
  committed : ∀ id ∈ view.2, id ∈ committed
  visible : ∀ id, id ≠ noTrxId → id ∉ aborted →
    (view.1.visible id = true ↔ id < base ∨ id ∈ view.2 ∨ id = view.1.ownTrxId)

/-- **The invariant.** -/
structure Snapshots (s : SnapshotState) : Prop where
  isolated : s.engine.manager.Isolated
  base : alwaysVisibleTrxId < s.base ∧ s.base ≤ s.engine.manager.nextId
  rows : ∀ loc : Loc, s.engine.store.tupleAt loc.1 loc.2 = (s.live loc).head?
  linked : ∀ loc, Linked s.engine.store.undo (s.live loc)
  grounded : ∀ loc tuple, (s.live loc).getLast? = some tuple →
    tuple.undoPtr = noUndoPtr ∨ tuple.trxId < s.base
  layered : ∀ loc, Layered HeapTuple.trxId s.engine.manager.inFlightIds (s.live loc)
  writers : ∀ loc, ∀ tuple ∈ s.history loc,
    noTrxId < tuple.trxId ∧ tuple.trxId < s.engine.manager.nextId
  trails : ∀ txn ∈ s.engine.manager.live, txn.active = true →
    Unwinds txn.id txn.trail.reverse s.live
  ended : ∀ id, s.base ≤ id → id < s.engine.manager.nextId →
    id ∈ s.engine.manager.inFlightIds ∨ id ∈ s.committed ∨ id ∈ s.aborted
  running : ∀ id ∈ s.engine.manager.inFlightIds,
    s.base ≤ id ∧ id ∉ s.committed ∧ id ∉ s.aborted
  settled : ∀ id ∈ s.committed, s.base ≤ id ∧ id < s.engine.manager.nextId ∧ id ∉ s.aborted
  gone : ∀ id ∈ s.aborted, s.base ≤ id ∧ id < s.engine.manager.nextId
  views : ∀ view ∈ s.views, ViewSound s.base s.committed s.aborted view

variable {txn : Transaction} {m : TransactionManager}

theorem mem_live_update_of_ne {other : Transaction}
    (h : other ∈ (m.update txn).live) : other = txn ∨ other ∈ m.live ∧ other.id ≠ txn.id := by
  obtain ⟨t, ht, rfl⟩ := mem_map.mp h
  split_ifs with hsame
  · exact .inl rfl
  · exact .inr ⟨ht, hsame⟩

theorem mem_inFlightIds_of_ended {m : TransactionManager} {txn txn' : Transaction}
    (htxn : txn ∈ m.live) (hid : txn'.id = txn.id) (hended : txn'.active = false) {id : Nat} :
    id ∈ (m.update txn').inFlightIds ↔ id ≠ txn.id ∧ id ∈ m.inFlightIds := by
  rw [TransactionManager.mem_inFlightIds_update htxn hid]
  split_ifs with heq
  · rw [hended]
    exact ⟨fun hfalse => absurd hfalse Bool.false_ne_true, fun hboth => absurd heq hboth.1⟩
  · exact ⟨fun hin => ⟨heq, hin⟩, And.right⟩

variable {s : SnapshotState} {id : Nat}

theorem activeTxn_spec (h : s.activeTxn id = some txn) :
    txn ∈ s.engine.manager.live ∧ txn.active = true ∧ txn.id = id := by
  obtain ⟨hfind, hactive⟩ := Option.filter_eq_some_iff.mp h
  obtain ⟨hlive, hid⟩ := find_eq_some hfind
  exact ⟨hlive, hactive, hid⟩

namespace SnapshotState

/-- A step that is taken is one of the forms of `Took`. -/
theorem step_cases {s' : SnapshotState} {action : SnapshotAction} (h : s.step action = some s') :
    Took s action s' := by
  cases action with
  | mintView =>
    rw [step] at h
    split at h
    · cases h
    next view hview =>
    cases h
    exact .viewed hview
  | begin isolation =>
    rw [step] at h
    split at h
    · cases h
    next m txn hbegin =>
    cases h
    exact .began hbegin
  | startStatement id =>
    rw [step] at h
    split at h
    · cases h
    next txn htxn =>
    split at h
    · cases h
    next txn' hstart =>
    rw [TransactionManager.startStatement] at hstart
    cases h
    split at hstart
    · cases hstart
    split at hstart
    · next hread =>
      rw [← Except.ok.inj hstart, if_neg (hread ▸ IsolationLevel.noConfusion)]
      exact .kept htxn
    · next hread =>
      obtain ⟨view, hview, heq⟩ := bind_eq_ok.mp hstart
      rw [← Except.ok.inj heq, if_pos hread]
      exact .minted htxn hview
  | write id rel stmt loc =>
    rw [step] at h
    split at h
    · cases h
    next txn htxn =>
    split at h
    · cases h
    next store txn' hwrite =>
    cases h
    exact .wrote htxn hwrite
  | insert id relOid pageId pk payload =>
    rw [step] at h
    split at h
    · cases h
    next txn htxn =>
    split at h
    · cases h
    next store txn' slot hinsert =>
    cases h
    exact .inserted htxn hinsert
  | commit id =>
    rw [step] at h
    split at h
    · cases h
    next txn htxn =>
    cases h
    exact .committed htxn
  | abort id =>
    rw [step] at h
    split at h
    · cases h
    next txn htxn =>
    split at h
    · next store txn' logged habort =>
      cases h
      exact .aborted htxn habort
    · cases h

end SnapshotState

namespace Snapshots

variable {s : SnapshotState} {txn txn' : Transaction} {loc : Loc} {store : Store} {top : HeapTuple}
    {view : ReadView × List Nat}

theorem inFlight (_ : Snapshots s) (htxn : txn ∈ s.engine.manager.live)
    (hactive : txn.active = true) : txn.id ∈ s.engine.manager.inFlightIds :=
  TransactionManager.mem_inFlightIds.mpr ⟨txn, htxn, hactive, rfl⟩

theorem settled_of_visible (h : Snapshots s) (htxn : txn ∈ s.engine.manager.live)
    (hactive : txn.active = true) (hseen : txn.view.visible id = true) :
    id = txn.id ∨ id ∉ s.engine.manager.inFlightIds := by
  by_cases hown : id = txn.id
  · exact .inl hown
  · refine .inr fun hin => ?_
    rw [h.isolated.blind txn htxn hactive id hin hown] at hseen
    cases hseen

theorem no_other_version (h : Snapshots s) (htxn : txn ∈ s.engine.manager.live)
    (hactive : txn.active = true)
    (hseen : ∀ top, (s.live loc).head? = some top → txn.view.visible top.trxId = true)
    (hid : id ∈ s.engine.manager.inFlightIds) (hne : id ≠ txn.id) :
    ∀ tuple ∈ s.live loc, tuple.trxId ≠ id := by
  apply (h.layered loc).not_writer_of_head hid
  intro top htop heq
  rcases h.settled_of_visible htxn hactive (hseen top htop) with hown | hnot
  · exact hne (heq.symm.trans hown)
  · exact hnot (heq ▸ hid)

-- Views

theorem mintReadView (h : Snapshots s) (hisolated : m.Isolated)
    (hin : m.inFlightIds = s.engine.manager.inFlightIds) {own : Nat} {view : ReadView}
    (hown : own = noTrxId ∨ own < m.nextId) (hlate : s.engine.manager.nextId ≤ m.nextId)
    (hnext : ∀ id, id < m.nextId → id = own ∨ id < s.engine.manager.nextId)
    (hview : m.mintReadView own = .ok view) :
    ViewSound s.base s.committed s.aborted (view, s.committed) := by
  refine ⟨fun id hid => hid, fun id hne habort => ?_⟩
  have hviewOwn : view.ownTrxId = own := by rw [mintReadView_eq_ok hview]
  have hviewUp : view.upToTrxId = m.nextId := by rw [mintReadView_eq_ok hview]
  show view.visible id = true ↔ id < s.base ∨ id ∈ s.committed ∨ id = view.ownTrxId
  rw [hviewOwn]
  by_cases hstarted : id < m.nextId
  · rw [hisolated.minted_visible hview hstarted hne, hin]
    by_cases hself : id = own
    · exact ⟨fun _ => .inr (.inr hself), fun _ => .inl hself⟩
    · have hbefore : id < s.engine.manager.nextId := (hnext id hstarted).resolve_left hself
      constructor
      · rintro (heq | hnot)
        · exact absurd heq hself
        · by_cases hold : id < s.base
          · exact .inl hold
          · rcases h.ended id (Nat.not_lt.mp hold) hbefore with hrun | hdone | hgone
            · exact absurd hrun hnot
            · exact .inr (.inl hdone)
            · exact absurd hgone habort
      · rintro (hold | hdone | heq)
        · exact .inr fun hrun => Nat.not_le.mpr hold (h.running id hrun).1
        · exact .inr fun hrun => (h.running id hrun).2.1 hdone
        · exact absurd heq hself
  · have hself : id ≠ own := by
      rintro rfl
      exact hown.elim hne hstarted
    rw [ReadView.visible_other (.inr (by rw [hviewOwn]; exact hself)), hviewUp]
    have hboot : id ≠ alwaysVisibleTrxId := by
      have hfirst := h.base
      omega
    have hunseen : (decide (id = alwaysVisibleTrxId) || (decide (id < m.nextId) &&
        !view.inFlight.contains id)) = false := by
      rw [decide_eq_false hboot, decide_eq_false hstarted]
      rfl
    rw [hunseen]
    refine ⟨fun hfalse => absurd hfalse Bool.false_ne_true, ?_⟩
    rintro (hold | hdone | heq)
    · exact absurd (Nat.lt_of_lt_of_le hold (Nat.le_trans h.base.2 hlate)) hstarted
    · exact absurd (Nat.lt_of_lt_of_le (h.settled id hdone).2.1 hlate) hstarted
    · exact absurd heq hself

theorem mint (h : Snapshots s) {view : ReadView}
    (hsound : ViewSound s.base s.committed s.aborted (view, s.committed)) :
    Snapshots (s.mint view) := by
  refine { h with views := fun v hv => ?_ }
  rcases mem_cons.mp hv with rfl | hold
  · exact hsound
  · exact h.views v hold

-- Steps of the manager

theorem setView (h : Snapshots s) (htxn : txn ∈ s.engine.manager.live) (hactive : txn.active = true)
    (hid : txn'.id = txn.id) (htrail : txn'.trail = txn.trail) (hactive' : txn'.active = true)
    (hview : txn'.view = txn.view ∨
      s.engine.manager.mintReadView txn.id = .ok txn'.view) :
    Snapshots (s.setManager (s.engine.manager.update txn')) := by
  have hsame : ∀ id, id ∈ (s.engine.manager.update txn').inFlightIds ↔
      id ∈ s.engine.manager.inFlightIds := by
    intro id
    rw [TransactionManager.mem_inFlightIds_update htxn hid]
    split_ifs with heq
    · rw [heq]
      exact ⟨fun _ => h.inFlight htxn hactive, fun _ => hactive'⟩
    · exact Iff.rfl
  refine ⟨h.isolated.update htxn hactive hid hview, h.base, h.rows, h.linked, h.grounded,
    fun loc => (h.layered loc).mono fun id hin => (hsame id).mp hin, h.writers,
    fun t ht hact => ?_, fun id hlow hhigh => ?_, fun id hin => h.running id ((hsame id).mp hin),
    h.settled, h.gone, h.views⟩
  · rcases mem_live_update_of_ne ht with rfl | ⟨hold, -⟩
    · rw [hid, htrail]
      exact h.trails txn htxn hactive
    · exact h.trails t hold hact
  · exact (h.ended id hlow hhigh).imp_left (hsame id).mpr

theorem begin (h : Snapshots s) {isolation : IsolationLevel} {m' : TransactionManager}
    (hbegin : s.engine.manager.begin isolation = .ok (m', txn)) :
    Snapshots ((s.setManager m').mint txn.view) := by
  obtain ⟨hids, hnext⟩ := TransactionManager.inFlightIds_begin hbegin
  have hisolated := h.isolated.begin hbegin
  obtain ⟨view, hview, htxn, hm'⟩ := begin_eq_ok hbegin
  have hlive : m'.live = s.engine.manager.live ++ [txn] := by rw [hm']
  have htxnView : txn.view = view := by rw [htxn]
  have hfirst := h.base
  have hlater : ∀ id, id < s.engine.manager.nextId → id < m'.nextId := fun id hid => by
    rw [hnext]
    exact Nat.lt_succ_of_lt hid
  have hnew : ∀ loc, ∀ tuple ∈ s.live loc, tuple.trxId ≠ s.engine.manager.nextId :=
    fun loc tuple htuple =>
      Nat.ne_of_lt (h.writers loc tuple (mem_of_mem_filter htuple)).2
  -- the view is minted before the transaction is registered
  have hminted : ViewSound s.base s.committed s.aborted (view, s.committed) := by
    apply h.mintReadView h.isolated.next rfl (.inr (Nat.lt_succ_self _)) (Nat.le_succ _) _ hview
    intro id hid
    exact (Nat.lt_succ_iff_lt_or_eq.mp hid).symm
  have hbegun : Snapshots (s.setManager m') := by
    refine ⟨hisolated, ⟨hfirst.1, ?_⟩, h.rows, h.linked, h.grounded, fun loc => ?_,
      fun loc tuple htuple => ?_, fun t ht hactive => ?_, fun id hlow hhigh => ?_,
      fun id hin => ?_, fun id hid => ?_, fun id hid => ?_, h.views⟩
    · show s.base ≤ m'.nextId
      rw [hnext]
      exact Nat.le_succ_of_le hfirst.2
    · show Layered HeapTuple.trxId m'.inFlightIds (s.live loc)
      rw [hids]
      exact (h.layered loc).append_active (hnew loc)
    · exact ⟨(h.writers loc tuple htuple).1, hlater _ (h.writers loc tuple htuple).2⟩
    · change t ∈ m'.live at ht
      rw [hlive] at ht
      rcases Lib.mem_snoc.mp ht with hold | rfl
      · exact h.trails t hold hactive
      · rw [htxn]
        exact .nil hnew
    · change id < m'.nextId at hhigh
      show id ∈ m'.inFlightIds ∨ _
      rw [hids, mem_append, mem_singleton]
      rw [hnext] at hhigh
      rcases Nat.lt_succ_iff_lt_or_eq.mp hhigh with hbefore | heq
      · exact (h.ended id hlow hbefore).imp_left .inl
      · exact .inl (.inr heq)
    · change id ∈ m'.inFlightIds at hin
      rw [hids, mem_append, mem_singleton] at hin
      rcases hin with hrun | rfl
      · exact h.running id hrun
      · exact ⟨hfirst.2, fun hdone => Nat.lt_irrefl _ (h.settled _ hdone).2.1,
          fun hgone => Nat.lt_irrefl _ (h.gone _ hgone).2⟩
    · obtain ⟨hlow, hhigh, hnot⟩ := h.settled id hid
      exact ⟨hlow, hlater _ hhigh, hnot⟩
    · exact ⟨(h.gone id hid).1, hlater _ (h.gone id hid).2⟩
  apply hbegun.mint
  rw [htxnView]
  exact hminted

theorem commit (h : Snapshots s) (htxn : txn ∈ s.engine.manager.live)
    (hactive : txn.active = true) :
    Snapshots { s.setManager
        (s.engine.manager.update { txn with trail := [], active := false }) with
      committed := txn.id :: s.committed } := by
  have hids : ∀ id, id ∈ (s.engine.manager.update
      { txn with trail := [], active := false }).inFlightIds ↔
      id ≠ txn.id ∧ id ∈ s.engine.manager.inFlightIds := fun id =>
    @mem_inFlightIds_of_ended _ txn { txn with trail := [], active := false } htxn rfl rfl id
  have hrun := h.running txn.id (h.inFlight htxn hactive)
  refine ⟨h.isolated.update htxn hactive rfl (.inl rfl), h.base, h.rows, h.linked, h.grounded,
    fun loc => (h.layered loc).mono fun id hin => ((hids id).mp hin).2, h.writers,
    fun t ht hact => ?_, fun id hlow hhigh => ?_, fun id hin => ?_, fun id hid => ?_, h.gone,
    fun view hview => ⟨fun id hid => mem_cons_of_mem _ ((h.views view hview).committed id hid),
      (h.views view hview).visible⟩⟩
  · rcases mem_live_update_of_ne ht with rfl | ⟨hold, -⟩
    · cases hact
    · exact h.trails t hold hact
  · by_cases heq : id = txn.id
    · exact .inr (.inl (heq ▸ mem_cons_self))
    · rcases h.ended id hlow hhigh with hin | hdone | hgone
      · exact .inl ((hids id).mpr ⟨heq, hin⟩)
      · exact .inr (.inl (mem_cons_of_mem _ hdone))
      · exact .inr (.inr hgone)
  · obtain ⟨hne, hin⟩ := (hids id).mp hin
    obtain ⟨hlow, hnot, hgone⟩ := h.running id hin
    exact ⟨hlow, fun hmem => (mem_cons.mp hmem).elim hne hnot, hgone⟩
  · rcases mem_cons.mp hid with rfl | hold
    · exact ⟨hrun.1, (h.isolated.ids txn htxn).2, hrun.2.2⟩
    · exact h.settled id hold

-- Writes

/-- What a step that writes one row leaves: a version on top of the row's live ones. -/
structure PutsOnTop (e : Engine) (store : Store) (txn txn' : Transaction) (loc : Loc)
    (below : List HeapTuple) (top : HeapTuple) : Prop where
  others : ∀ other : Loc, other ≠ loc →
    store.tupleAt other.1 other.2 = e.store.tupleAt other.1 other.2
  here : store.tupleAt loc.1 loc.2 = some top
  writer : top.trxId = txn.id
  linked : Linked store.undo (top :: below)
  grounded : below = [] → top.undoPtr = noUndoPtr
  undo : ∃ record ptr, e.store.undo.append record = .ok (store.undo, ptr)
  seen : ∀ head, below.head? = some head → txn.view.visible head.trxId = true
  id_eq : txn'.id = txn.id
  view_eq : txn'.view = txn.view
  active_eq : txn'.active = txn.active
  trail : ∃ entry, txn'.trail = txn.trail ++ [entry] ∧ (entry.pageId, entry.slot) = loc ∧
    entry.TakesBack top below

theorem live_remember (txn : Transaction) (hhere : store.tupleAt loc.1 loc.2 = some top)
    (hkept : top.trxId ∉ s.aborted) :
    (s.remember store txn loc).live = update s.live loc (top :: s.live loc) := by
  funext other
  show (update s.history loc ((store.tupleAt loc.1 loc.2).toList ++ s.history loc)
    other).filter _ = _
  by_cases hloc : other = loc
  · have htop : (!s.aborted.contains top.trxId) = true := by
      rw [Bool.not_eq_true', contains_eq_mem, decide_eq_false_iff_not]
      exact hkept
    rw [hloc, update_self, update_self, hhere]
    exact filter_cons_of_pos htop
  · rw [update_of_ne hloc, update_of_ne hloc]
    rfl

theorem remember (h : Snapshots s) (htxn : txn ∈ s.engine.manager.live)
    (hactive : txn.active = true) (hput : PutsOnTop s.engine store txn txn' loc (s.live loc) top) :
    Snapshots (s.remember store txn' loc) := by
  have hin := h.inFlight htxn hactive
  have hrun := h.running txn.id hin
  have hkept : top.trxId ∉ s.aborted := hput.writer ▸ hrun.2.2
  have hlive := live_remember txn' hput.here hkept
  have hactive' : txn'.active = true := hput.active_eq.trans hactive
  have hsame : ∀ id, id ∈ (s.engine.manager.update txn').inFlightIds ↔
      id ∈ s.engine.manager.inFlightIds := by
    intro id
    rw [TransactionManager.mem_inFlightIds_update htxn hput.id_eq]
    split_ifs with heq
    · rw [heq]
      exact ⟨fun _ => hin, fun _ => hactive'⟩
    · exact Iff.rfl
  obtain ⟨record, ptr, happend⟩ := hput.undo
  obtain ⟨entry, htrail, hentry, hback⟩ := hput.trail
  refine ⟨h.isolated.update htxn hactive hput.id_eq (.inl hput.view_eq), h.base, fun other => ?_,
    fun other => ?_, fun other tuple hlast => ?_, fun other => ?_, fun other tuple htuple => ?_,
    fun t ht hact => ?_, fun id hlow hhigh => ?_, fun id hid => h.running id ((hsame id).mp hid),
    h.settled, h.gone, h.views⟩
  · rw [hlive]
    by_cases hloc : other = loc
    · rw [hloc, update_self]
      exact hput.here
    · rw [update_of_ne hloc]
      exact (hput.others other hloc).trans (h.rows other)
  · rw [hlive]
    by_cases hloc : other = loc
    · rw [hloc, update_self]
      exact hput.linked
    · rw [update_of_ne hloc]
      exact (h.linked other).append happend
  · rw [hlive] at hlast
    by_cases hloc : other = loc
    · rw [hloc, update_self] at hlast
      by_cases hempty : s.live loc = []
      · rw [hempty] at hlast
        cases hlast
        exact .inl (hput.grounded hempty)
      · rw [List.getLast?_cons_of_ne_nil hempty] at hlast
        exact h.grounded loc tuple hlast
    · rw [update_of_ne hloc] at hlast
      exact h.grounded other tuple hlast
  · rw [hlive]
    have hlayered : Layered HeapTuple.trxId s.engine.manager.inFlightIds
        (update s.live loc (top :: s.live loc) other) := by
      by_cases hloc : other = loc
      · rw [hloc, update_self]
        apply (h.layered loc).push (hput.writer ▸ hin)
        intro head hhead
        rw [hput.writer]
        exact h.settled_of_visible htxn hactive (hput.seen head hhead)
      · rw [update_of_ne hloc]
        exact h.layered other
    exact hlayered.mono fun id hid => (hsame id).mp hid
  · change tuple ∈ update s.history loc
      ((store.tupleAt loc.1 loc.2).toList ++ s.history loc) other at htuple
    by_cases hloc : other = loc
    · rw [hloc, update_self, hput.here] at htuple
      rcases mem_cons.mp htuple with rfl | hold
      · rw [hput.writer]
        exact ⟨Nat.lt_trans Nat.zero_lt_one (h.isolated.ids txn htxn).1,
          (h.isolated.ids txn htxn).2⟩
      · exact h.writers loc tuple hold
    · rw [update_of_ne hloc] at htuple
      exact h.writers other tuple htuple
  · rw [hlive]
    rcases mem_live_update_of_ne ht with rfl | ⟨hold, hne⟩
    · rw [hput.id_eq, htrail, reverse_append]
      have htop : update s.live loc (top :: s.live loc) (entry.pageId, entry.slot) =
          top :: s.live loc := by
        rw [hentry, update_self]
      refine .cons htop hput.writer hback ?_
      · rw [hentry, update_idem, update_eq_self]
        exact h.trails txn htxn hactive
    · apply (h.trails t hold hact).congr
      intro other
      by_cases hloc : other = loc
      · rw [hput.id_eq] at hne
        have hfree := h.no_other_version htxn hactive hput.seen (h.inFlight hold hact) hne
        rw [hloc, update_self]
        refine .inr ⟨hfree, fun tuple htuple => ?_⟩
        rcases mem_cons.mp htuple with rfl | hin'
        · rw [hput.writer]
          exact Ne.symm hne
        · exact hfree tuple hin'
      · rw [update_of_ne hloc]
        exact .inl rfl
  · exact (h.ended id hlow hhigh).imp_left (hsame id).mpr

theorem writeVersion (h : Snapshots s) (htxn : txn ∈ s.engine.manager.live) {rel : RelationAccess}
    {stmt : WriteStatement}
    (hwrite : SnapshotState.writeVersion s.engine txn rel stmt loc = .ok (store, txn')) :
    ∃ top, PutsOnTop s.engine store txn txn' loc (s.live loc) top := by
  obtain ⟨tuple, top, htuple, hseen, hpushed⟩ :=
    writeVersion_eq_ok (h.isolated.own txn htxn) (h.isolated.ids txn htxn).1 hwrite
  obtain ⟨rest, hrest⟩ : ∃ rest, s.live loc = tuple :: rest := by
    have hhead := (h.rows loc).symm.trans htuple
    cases hversions : s.live loc with
    | nil => rw [hversions] at hhead; cases hhead
    | cons head rest =>
      rw [hversions] at hhead
      exact ⟨rest, by rw [Option.some.inj hhead]⟩
  obtain ⟨record, ptr, happend⟩ := hpushed.undo
  obtain ⟨entry, htrail, hentry, hback⟩ := hpushed.trail
  have hlinked := (h.linked loc).append happend
  rw [hrest] at hlinked ⊢
  exact ⟨top, hpushed.others, hpushed.here, hpushed.writer, ⟨hpushed.supersedes, hlinked⟩,
    fun hnil => (by cases hnil), ⟨record, ptr, happend⟩,
    fun head hhead => Option.some.inj hhead ▸ hseen, hpushed.id_eq,
    hpushed.view_eq, hpushed.active_eq, entry, htrail, hentry, hback rest⟩

theorem insertVersion (h : Snapshots s) {relOid pageId pk slot : Nat} {payload : Bytes}
    (hinsert : SnapshotState.insertVersion s.engine txn relOid pageId pk payload =
      .ok (store, txn', slot)) :
    ∃ top, PutsOnTop s.engine store txn txn' (pageId, slot) (s.live (pageId, slot)) top := by
  rw [SnapshotState.insertVersion] at hinsert
  obtain ⟨page, hget, hinsert⟩ := bind_eq_ok.mp hinsert
  obtain ⟨⟨page', slot'⟩, hplace, hinsert⟩ := bind_eq_ok.mp hinsert
  obtain ⟨⟨store₁, txn₁, ptr⟩, happend, hinsert⟩ := bind_eq_ok.mp hinsert
  obtain ⟨rfl, hpair⟩ := Prod.mk.inj (Except.ok.inj hinsert)
  obtain ⟨rfl, rfl⟩ := Prod.mk.inj hpair
  obtain ⟨hpages, rfl, hundo⟩ := appendUndo_spec happend
  have hpage := Store.get_eq_ok.mp hget
  have hslots := HeapPage.tupleAt_insertTuple hplace
  -- the slot is a new one
  have hempty : s.live (pageId, slot') = [] := by
    have hfree : page.tupleAt slot' = none := by
      obtain ⟨rfl, -⟩ := HeapPage.insertTuple_eq_ok hplace
      cases htuple : page.tupleAt page.slots.length with
      | none => rfl
      | some tuple => exact absurd (HeapPage.slot_lt_of_tupleAt htuple) (Nat.lt_irrefl _)
    have hhead := (h.rows (pageId, slot')).symm.trans
      ((Store.tupleAt_of_pages hpage slot').trans hfree)
    exact List.head?_eq_none_iff.mp hhead
  have hat : ∀ other : Loc, store₁.tupleAt other.1 other.2 =
      (s.engine.store.put pageId page').tupleAt other.1 other.2 := fun other =>
    tupleAt_congr hpages other.1 other.2
  rw [hempty]
  refine ⟨{ trxId := txn.id, undoPtr := noUndoPtr, payload := payload }, fun other hne => ?_, ?_,
    rfl, trivial, fun _ => rfl, ⟨_, _, hundo⟩, fun head hhead => (by cases hhead), rfl, rfl, rfl,
    _, rfl, rfl, rfl⟩
  · rw [hat, Store.tupleAt_put]
    by_cases hsame : other.1 = pageId
    · have hslot : other.2 ≠ slot' := fun heq => hne (Prod.ext hsame heq)
      rw [if_pos hsame, hslots, if_neg hslot, hsame, Store.tupleAt_of_pages hpage]
    · rw [if_neg hsame]
  · rw [hat, Store.tupleAt_put, if_pos rfl, hslots, if_pos rfl]

-- Rollback

theorem abort (h : Snapshots s) (htxn : txn ∈ s.engine.manager.live) (hactive : txn.active = true)
    {logged : List LogRecord}
    (habort : Txn.abort s.engine.store txn none = (store, txn', logged, none)) :
    Snapshots { s with
      engine := { manager := s.engine.manager.update txn', store := store }
      aborted := txn.id :: s.aborted } := by
  obtain ⟨htxn', hunwind⟩ : txn' = { txn with trail := [], active := false } ∧
      unwind none txn.trail.reverse s.engine.store ([], none) = (store, logged, none) := by
    rw [Txn.abort, hactive] at habort
    obtain ⟨h₁, hrest⟩ := Prod.mk.inj habort
    obtain ⟨h₂, hrest⟩ := Prod.mk.inj hrest
    obtain ⟨h₃, h₄⟩ := Prod.mk.inj hrest
    exact ⟨h₂.symm, Prod.ext h₁ (Prod.ext h₃ h₄)⟩
  subst htxn'
  have hin := h.inFlight htxn hactive
  have hrun := h.running txn.id hin
  obtain ⟨hundo, htuples⟩ := (h.trails txn htxn hactive).unwind_pops h.rows hunwind
  have hids : ∀ id, id ∈ (s.engine.manager.update
      { txn with trail := [], active := false }).inFlightIds ↔
      id ≠ txn.id ∧ id ∈ s.engine.manager.inFlightIds := fun id =>
    @mem_inFlightIds_of_ended _ txn { txn with trail := [], active := false } htxn rfl rfl id
  -- what is left of a row is what lies under the transaction's versions
  have hleft : ∀ loc, ((s.history loc).filter fun tuple =>
      !(txn.id :: s.aborted).contains tuple.trxId) =
      (s.live loc).filter fun tuple => tuple.trxId != txn.id := by
    intro loc
    rw [SnapshotState.live, filter_filter]
    apply filter_congr
    intro tuple _
    rw [contains_cons, Bool.not_or]
    rfl
  have hdrop : ∀ loc, ((s.live loc).filter fun tuple => tuple.trxId != txn.id) =
      dropWriter HeapTuple.trxId txn.id (s.live loc) := fun loc =>
    (h.layered loc).filter_eq_dropWriter hin
  refine ⟨h.isolated.update htxn hactive rfl (.inl rfl), h.base, fun loc => ?_, fun loc => ?_,
    fun loc tuple hlast => ?_, fun loc => ?_, h.writers, fun t ht hact => ?_,
    fun id hlow hhigh => ?_, fun id hid => ?_, fun id hid => ?_, fun id hid => ?_,
    fun view hview => ⟨(h.views view hview).committed, fun id hne hnot =>
      (h.views view hview).visible id hne fun hgone => hnot (mem_cons_of_mem _ hgone)⟩⟩
  · show store.tupleAt loc.1 loc.2 = List.head? ((s.history loc).filter _)
    rw [hleft]
    exact htuples loc
  · show Linked store.undo ((s.history loc).filter _)
    rw [hleft, hdrop, hundo]
    obtain ⟨gone, hstack, -⟩ := Layered.takeWriter_append txn.id (s.live loc)
    have hlinked := h.linked loc
    rw [hstack] at hlinked
    exact hlinked.suffix
  · change List.getLast? ((s.history loc).filter _) = some tuple at hlast
    rw [hleft, hdrop] at hlast
    obtain ⟨gone, hstack, -⟩ := Layered.takeWriter_append txn.id (s.live loc)
    apply h.grounded loc
    rw [hstack, List.getLast?_append, hlast]
    rfl
  · show Layered HeapTuple.trxId _ ((s.history loc).filter _)
    rw [hleft, hdrop]
    exact (h.layered loc).drop.mono fun id hid => ((hids id).mp hid).2
  · rcases mem_live_update_of_ne ht with rfl | ⟨hold, hne⟩
    · cases hact
    · apply (h.trails t hold hact).congr
      intro loc
      show (s.history loc).filter _ = _ ∨ _ ∧ ∀ tuple ∈ (s.history loc).filter _, _
      rw [hleft]
      by_cases hfree : ∀ tuple ∈ s.live loc, tuple.trxId ≠ txn.id
      · refine .inl (filter_eq_self.mpr fun tuple htuple => ?_)
        exact bne_iff_ne.mpr (hfree tuple htuple)
      · -- the row has versions of the transaction, so of no other in flight
        obtain ⟨mine, hmine⟩ := not_forall.mp hfree
        obtain ⟨hmem, hwriter⟩ := Classical.not_imp.mp hmine
        have hnone : ∀ tuple ∈ s.live loc, tuple.trxId ≠ t.id := fun tuple htuple heq => by
          have hone := (h.layered loc).one_writer htuple hmem (heq ▸ h.inFlight hold hact)
            (not_not.mp hwriter ▸ hin)
          exact hne (heq.symm.trans (hone.trans (not_not.mp hwriter)))
        exact .inr ⟨hnone, fun tuple htuple => hnone tuple (mem_of_mem_filter htuple)⟩
  · by_cases heq : id = txn.id
    · exact .inr (.inr (heq ▸ mem_cons_self))
    · rcases h.ended id hlow hhigh with hmem | hdone | hgone
      · exact .inl ((hids id).mpr ⟨heq, hmem⟩)
      · exact .inr (.inl hdone)
      · exact .inr (.inr (mem_cons_of_mem _ hgone))
  · obtain ⟨hne, hmem⟩ := (hids id).mp hid
    obtain ⟨hlow, hnot, hgone⟩ := h.running id hmem
    exact ⟨hlow, hnot, fun hcons => (mem_cons.mp hcons).elim hne hgone⟩
  · obtain ⟨hlow, hhigh, hgone⟩ := h.settled id hid
    refine ⟨hlow, hhigh, fun hcons => ?_⟩
    rcases mem_cons.mp hcons with rfl | hold
    · exact hrun.2.1 hid
    · exact hgone hold
  · rcases mem_cons.mp hid with rfl | hold
    · exact ⟨hrun.1, (h.isolated.ids txn htxn).2⟩
    · exact h.gone id hold

-- Runs

/-- Every step keeps the invariant. -/
theorem step {s' : SnapshotState} (h : Snapshots s) (action : SnapshotAction)
    (hstep : s.step action = some s') : Snapshots s' := by
  cases SnapshotState.step_cases hstep with
  | began hbegin => exact h.begin hbegin
  | @minted _ txn view htxn hview =>
    obtain ⟨hlive, hactive, -⟩ := activeTxn_spec htxn
    have hset := @setView s txn { txn with view := view }
      h hlive hactive rfl rfl hactive (.inr hview)
    exact hset.mint <| h.mintReadView h.isolated rfl (.inr (h.isolated.ids _ hlive).2)
      (Nat.le_refl _) (fun _ hid => .inr hid) hview
  | kept htxn =>
    obtain ⟨hlive, hactive, -⟩ := activeTxn_spec htxn
    exact h.setView hlive hactive rfl rfl hactive (.inl rfl)
  | viewed hview =>
    exact h.mint (h.mintReadView h.isolated rfl (.inl rfl) (Nat.le_refl _)
      (fun _ hid => .inr hid) hview)
  | wrote htxn hwrite =>
    obtain ⟨hlive, hactive, -⟩ := activeTxn_spec htxn
    obtain ⟨top, hput⟩ := h.writeVersion hlive hwrite
    exact h.remember hlive hactive hput
  | inserted htxn hinsert =>
    obtain ⟨hlive, hactive, -⟩ := activeTxn_spec htxn
    obtain ⟨top, hput⟩ := h.insertVersion hinsert
    exact h.remember hlive hactive hput
  | committed htxn =>
    obtain ⟨hlive, hactive, rfl⟩ := activeTxn_spec htxn
    exact h.commit hlive hactive
  | aborted htxn habort =>
    obtain ⟨hlive, hactive, rfl⟩ := activeTxn_spec htxn
    exact h.abort hlive hactive habort

theorem start (settled : SettledStore) : Snapshots settled.start := by
  have hlive : ∀ loc : Loc, settled.start.live loc =
      (settled.store.tupleAt loc.1 loc.2).toList := fun loc =>
    filter_eq_self.mpr fun _ _ => rfl
  have hwriter : ∀ loc : Loc, ∀ tuple ∈ (settled.store.tupleAt loc.1 loc.2).toList,
      noTrxId < tuple.trxId ∧ tuple.trxId < settled.nextId := fun loc tuple htuple =>
    settled.writers loc tuple (Option.mem_toList.mp htuple)
  refine ⟨⟨settled.bootstrap, fun _ ht => absurd ht not_mem_nil,
      fun _ ht => absurd ht not_mem_nil, fun _ ht => absurd ht not_mem_nil,
      fun _ ht => absurd ht not_mem_nil⟩, ⟨settled.bootstrap, Nat.le_refl _⟩, fun loc => ?_,
    fun loc => ?_, fun loc tuple hlast => ?_, fun loc => ?_, hwriter,
    fun _ ht => absurd ht not_mem_nil, fun id hlow hhigh => absurd hhigh (Nat.not_lt.mpr hlow),
    fun _ hid => absurd hid not_mem_nil, fun _ hid => absurd hid not_mem_nil,
    fun _ hid => absurd hid not_mem_nil, fun _ hview => absurd hview not_mem_nil⟩
  · rw [hlive]
    exact (Option.head?_toList).symm
  · rw [hlive]
    cases settled.store.tupleAt loc.1 loc.2 <;> trivial
  · rw [hlive] at hlast
    exact .inr (hwriter loc tuple (mem_of_getLast? hlast)).2
  · rw [hlive]
    exact ⟨0, [], _, rfl, fun _ hv => absurd hv not_mem_nil,
      fun _ _ hin => absurd hin not_mem_nil⟩

/-- Every state of a run keeps the history that its snapshots are read from. -/
theorem reach {settled : SettledStore}
    (hreach : Reach SnapshotState.step (fun _ _ => True) settled.start s) : Snapshots s :=
  hreach.invariant (start settled) fun action ht _ hs => ht.step action hs

-- What a view finds

theorem seenVersion_eq (h : Snapshots s) (hview : view ∈ s.views) (loc : Loc) :
    seenVersion view.1.visible (s.live loc) = s.committedBefore view loc := by
  obtain ⟨hcommitted, hvisible⟩ := h.views view hview
  rw [seenVersion, SnapshotState.live, List.find?_filter, SnapshotState.committedBefore,
    seenVersion]
  congr 1
  refine List.find?_congr fun tuple htuple => ?_
  have hpos : tuple.trxId ≠ noTrxId := Nat.ne_of_gt (h.writers loc tuple htuple).1
  by_cases hgone : tuple.trxId ∈ s.aborted
  · have hnot : tuple.trxId ∉ view.2 := fun hin =>
      (h.settled _ (hcommitted _ hin)).2.2 hgone
    have hlate : ¬ tuple.trxId < s.base := Nat.not_lt.mpr (h.gone _ hgone).1
    simp [hgone, hnot, hlate]
  · have hiff := hvisible tuple.trxId hpos hgone
    rw [Bool.eq_iff_iff]
    simp [hgone, hiff, or_assoc]

theorem resolve_eq_ok (h : Snapshots s) (hview : view ∈ s.views) (loc : Loc)
    {found : Option Bytes} :
    s.resolve view.1 loc = .ok found ↔
      stepsBack view.1.visible (s.live loc) ≤ maxUndoChainLength ∧
        found = s.committedBefore view loc := by
  rw [← h.seenVersion_eq hview loc, SnapshotState.resolve, h.rows loc]
  cases hversions : s.live loc with
  | nil => simp [stepsBack, seenVersion, eq_comm]
  | cons tuple rest =>
    have hlinked := h.linked loc
    rw [hversions] at hlinked
    apply visibleVersion_eq_ok hlinked
    intro last hlast
    rw [← hversions] at hlast
    have hmem := mem_of_getLast? hlast
    obtain ⟨hhist, hkept⟩ := mem_filter.mp hmem
    refine (h.grounded loc last hlast).imp_right fun hold => ?_
    rw [Bool.not_eq_true', contains_eq_mem, decide_eq_false_iff_not] at hkept
    exact ((h.views view hview).visible last.trxId
      (Nat.ne_of_gt (h.writers loc last hhist).1) hkept).mpr (.inl hold)

theorem resolve_eq_ok_iff (h : Snapshots s) (hview : view ∈ s.views) (loc : Loc) :
    s.resolve view.1 loc = .ok (s.committedBefore view loc) ↔
      stepsBack view.1.visible (s.live loc) ≤ maxUndoChainLength :=
  (h.resolve_eq_ok hview loc).trans (and_iff_left rfl)

end Snapshots

/-- **Snapshot visibility**: at any time after a view was minted a row resolved under it is what the
    transactions committed by then and its own have made of it, if and only if the walk reads no
    more undo records than the bound. -/
theorem snapshot_visibility_iff (settled : SettledStore) {s : SnapshotState}
    (hreach : Reach SnapshotState.step (fun _ _ => True) settled.start s)
    {view : ReadView × List Nat} (hview : view ∈ s.views) (loc : Loc) :
    s.resolve view.1 loc = .ok (s.committedBefore view loc) ↔
      stepsBack view.1.visible (s.live loc) ≤ maxUndoChainLength :=
  (Snapshots.reach hreach).resolve_eq_ok_iff hview loc

-- Two transactions and one row

/-- One row, `id = 1`, of a transaction everybody sees. -/
def sampleSettled : SettledStore where
  store := sampleEngine.store
  nextId := 2
  bootstrap := by decide
  writers := by
    intro loc tuple htuple
    refine ⟨?_, sampleEngine_ordered.stored loc.1 loc.2 tuple htuple⟩
    by_cases hpage : loc.1 = 200
    · rw [hpage, Store.tupleAt_of_pages (show sampleEngine.store.pages 200 = some samplePage
        from rfl)] at htuple
      have hslot : loc.2 < 1 := HeapPage.slot_lt_of_tupleAt htuple
      obtain hzero : loc.2 = 0 := by omega
      rw [hzero] at htuple
      cases htuple
      decide
    · have hnone : sampleEngine.store.pages loc.1 = none := if_neg hpage
      rw [Store.tupleAt, hnone] at htuple
      cases htuple

/-- The bytes of the row. -/
def sampleBytes : Bytes := [1, 0, 0, 0, 0, 0, 0, 0, 1]

/-- Transaction 2 takes its snapshot, transaction 3 overwrites the row twice and commits. -/
def overwriteTwice : List SnapshotAction :=
  [.begin .repeatableRead, .begin .readCommitted, .write 3 sampleRelation (setWhere 1 2) (200, 0),
    .write 3 sampleRelation (setWhere 2 3) (200, 0), .commit 3]

theorem snapshot_visibility_overwriteTwice :
    ∃ s, Reach SnapshotState.step (fun _ _ => True) sampleSettled.start s ∧
      ∃ view ∈ s.views, (s.resolve view.1 (200, 0)).toOption = some (some sampleBytes) ∧
        (s.resolve view.1 (200, 0) = .ok (s.committedBefore view (200, 0)) ↔
          stepsBack view.1.visible (s.live (200, 0)) ≤ maxUndoChainLength) := by
  obtain ⟨s, hreach, hfound⟩ := @exists_reach_of_runList _ _ SnapshotState.step (fun _ _ => True)
    (fun _ _ => true) (fun _ _ _ => trivial) overwriteTwice sampleSettled.start
    (fun s => s.views.any fun view =>
      decide ((s.resolve view.1 (200, 0)).toOption = some (some sampleBytes)))
    (by decide +kernel)
  obtain ⟨view, hview, hresolved⟩ := any_eq_true.mp hfound
  exact ⟨s, hreach, view, hview, of_decide_eq_true hresolved,
    snapshot_visibility_iff sampleSettled hreach hview (200, 0)⟩

-- A row written again and again

/-- An UPDATE that leaves the row's bytes as they are. -/
def touchRow : WriteStatement where
  verb := .update .ok
  evaluate := fun _ _ => .ok true

/-- The sample row, in the first slot. -/
def HoldsSample (page : HeapPage) (tuple : HeapTuple) : Prop :=
  page.slots[0]? = some (.live 29 tuple) ∧ tuple.payload = sampleBytes ∧ tuple.deleted = false

/-- The row after `n` writes by transaction 3, which a view does not see. -/
structure Rewritten (n : Nat) (s : SnapshotState) : Prop where
  page : ∃ page tuple, s.engine.store.pages 200 = some page ∧ HoldsSample page tuple ∧
    (tuple.trxId = 3 ∨ tuple.trxId = alwaysVisibleTrxId)
  writer : ∃ txn, s.activeTxn 3 = some txn
  history : ∃ top last, s.history (200, 0) = top ++ [last] ∧ top.length = n ∧
    ∀ tuple ∈ top, tuple.trxId = 3
  aborted : s.aborted = []
  view : ∃ view ∈ s.views, view.1.visible 3 = false

theorem find_update_self {txn' : Transaction}
    (hfind : m.find id = some txn) (hid : txn'.id = id) : (m.update txn').find id = some txn' := by
  have hids : ((fun t : Transaction => decide (t.id = id)) ∘ fun t : Transaction =>
      if t.id = txn'.id then txn' else t) = fun t => decide (t.id = id) := by
    funext t
    show decide ((if t.id = txn'.id then txn' else t).id = id) = _
    split_ifs with hsame
    · rw [hid, hsame, hid]
    · rfl
  have hsame : txn.id = txn'.id := (find_eq_some hfind).2.trans hid.symm
  rw [TransactionManager.find] at hfind ⊢
  rw [TransactionManager.update, List.find?_map, hids, hfind]
  show some (if txn.id = txn'.id then txn' else txn) = some txn'
  rw [if_pos hsame]

theorem touchRow_goes_through {e : Engine} {page : HeapPage} {tuple : HeapTuple}
    (hpage : e.store.pages 200 = some page) (hrow : HoldsSample page tuple)
    (hid : txn.id ≤ maxTrxId) (hseen : txn.view.visible tuple.trxId = true) :
    ∃ store txn' page' written,
      SnapshotState.writeVersion e txn sampleRelation touchRow (200, 0) = .ok (store, txn') ∧
      txn'.id = txn.id ∧ txn'.active = txn.active ∧ store.pages 200 = some page' ∧
      HoldsSample page' written ∧ written.trxId = txn.id := by
  obtain ⟨hslot, hpayload, hdeleted⟩ := hrow
  have htuple : e.store.tupleAt 200 0 = some tuple := by
    rw [Store.tupleAt_of_pages hpage]
    exact HeapPage.tupleAt_eq_some.mpr ⟨29, hslot⟩
  have hclass : ¬ classify txn.view tuple.trxId tuple.deleted tuple.undoPtr = .noVersion := by
    rw [classify_of_visible hseen, hdeleted]
    decide
  have hkey : keystoneIdOfPayload tuple.payload = .ok 1 := by
    rw [hpayload]
    rfl
  have hconflict : checkWriteConflict txn tuple.trxId 1 = .ok () := by
    rw [checkWriteConflict]
    split_ifs <;> rfl
  let fields : UndoVersion :=
    { type := .overwrite, priorTrxId := tuple.trxId, priorUndoPtr := tuple.undoPtr
      targetPageId := 200, targetSlot := 0, txnPrevUndoPtr := txn.lastUndoPtr, pk := 1
      image := tuple.payload }
  have hsize : ¬ maxUndoImageLen < fields.image.length := by
    show ¬ maxUndoImageLen < tuple.payload.length
    rw [hpayload]
    decide
  let ptr := e.store.undo.records.length + 1
  let undo : UndoLog := ⟨e.store.undo.records ++ [fields]⟩
  let written : HeapTuple := { tuple with trxId := txn.id, undoPtr := ptr }
  let page' := page.setSlot 0 (.live 29 written)
  have happend : e.store.undo.append fields = .ok (undo, ptr) := if_neg hsize
  have hover : page.overwriteTuple 0 tuple.payload txn.id ptr = .ok page' := by
    apply HeapPage.overwriteTuple_of_live hslot hid
    rw [hpayload]
    decide
  let undone : Store := { e.store with undo := undo }
  let linked : Transaction := { txn with lastUndoPtr := ptr }
  refine ⟨undone.put 200 page', linked.noteOverwrite sampleRelation.oid 200 0 1 tuple.trxId
    tuple.undoPtr tuple.payload, page', written, ?_, rfl, rfl, Store.pages_put_self _ 200 page',
    ⟨List.getElem?_set_self (List.getElem?_eq_some_iff.mp hslot).1, hpayload, hdeleted⟩, rfl⟩
  rw [SnapshotState.writeVersion, htuple]
  dsimp only
  rw [if_neg hclass]
  refine bind_eq_ok.mpr ⟨1, hkey, bind_eq_ok.mpr ⟨(), hconflict, ?_⟩⟩
  refine bind_eq_ok.mpr ⟨tuple.payload, rfl, ?_⟩
  refine bind_eq_ok.mpr ⟨(undone, linked, ptr), bind_eq_ok.mpr ⟨(undo, ptr), happend, rfl⟩, ?_⟩
  exact bind_eq_ok.mpr ⟨page, Store.get_eq_ok.mpr hpage, bind_eq_ok.mpr ⟨page', hover, rfl⟩⟩

theorem Rewritten.step {n : Nat} (hsnap : Snapshots s) (h : Rewritten n s) :
    ∃ s', s.step (.write 3 sampleRelation touchRow (200, 0)) = some s' ∧ Rewritten (n + 1) s' := by
  obtain ⟨page, tuple, hpage, hrow, htrx⟩ := h.page
  obtain ⟨txn, htxn⟩ := h.writer
  obtain ⟨hlive, hactive, hid⟩ := activeTxn_spec htxn
  have hfind : s.engine.manager.find 3 = some txn := (Option.filter_eq_some_iff.mp htxn).1
  have hown := hsnap.isolated.own txn hlive
  have hseen : txn.view.visible tuple.trxId = true := by
    rcases htrx with hmine | hboot
    · rw [hmine, ← hid, ← hown]
      apply ReadView.visible_own
      rw [hown, hid]
      decide
    · rw [hboot]
      exact ReadView.visible_alwaysVisible txn.view
  have hmax : txn.id ≤ maxTrxId := by
    rw [hid]
    decide
  obtain ⟨store, txn', page', written, hwrite, hid', hactive', hpage', hrow', hwriter⟩ :=
    touchRow_goes_through hpage hrow hmax hseen
  refine ⟨s.remember store txn' (200, 0), ?_, ⟨page', written, hpage', hrow',
    .inl (hwriter.trans hid)⟩, ⟨txn', Option.filter_eq_some_iff.mpr
    ⟨find_update_self hfind (hid'.trans hid), hactive'.trans hactive⟩⟩, ?_, h.aborted, h.view⟩
  · rw [SnapshotState.step, htxn]
    dsimp only
    rw [hwrite]
  · obtain ⟨top, last, hhistory, hlength, hwriters⟩ := h.history
    have hhere : store.tupleAt 200 0 = some written := by
      rw [Store.tupleAt_of_pages hpage']
      exact HeapPage.tupleAt_eq_some.mpr ⟨29, hrow'.1⟩
    refine ⟨written :: top, last, ?_, congrArg Nat.succ hlength, fun t ht => ?_⟩
    · show update s.history (200, 0) ((store.tupleAt 200 0).toList ++
        s.history (200, 0)) (200, 0) = _
      rw [update_self, hhere, hhistory]
      rfl
    · rcases mem_cons.mp ht with rfl | hold
      · exact hwriter.trans hid
      · exact hwriters t hold

theorem exists_rewritten (n : Nat) : ∃ s,
    Reach SnapshotState.step (fun _ _ => True) sampleSettled.start s ∧ Rewritten n s := by
  induction n with
  | zero =>
    let begun := runList SnapshotState.step [.begin .repeatableRead, .begin .readCommitted]
      sampleSettled.start
    have hsome : begun.isSome = true := by decide +kernel
    obtain ⟨s, hs⟩ := Option.isSome_iff_exists.mp hsome
    refine ⟨s, reach_of_runList (fun _ _ _ => trivial) hs, ?_⟩
    have hs' : begun = some s := hs
    have hpages : begun.map (fun s => s.engine.store.pages 200) = some (some samplePage) := by
      decide +kernel
    have hfind : begun.map (fun s => (s.activeTxn 3).isSome) = some true := by decide +kernel
    have hhistory : begun.map (fun s => s.history (200, 0)) =
        some [{ trxId := 1, undoPtr := 0, payload := sampleBytes }] := by decide +kernel
    have haborted : begun.map (·.aborted) = some [] := by decide +kernel
    have hview : begun.map (fun s => s.views.any fun view => !view.1.visible 3) = some true := by
      decide +kernel
    rw [hs', Option.map_some] at hpages hfind hhistory haborted hview
    refine ⟨⟨samplePage, _, Option.some.inj hpages, ⟨rfl, rfl, rfl⟩, .inr rfl⟩,
      Option.isSome_iff_exists.mp (Option.some.inj hfind), ⟨[], _, Option.some.inj hhistory, rfl,
        fun _ ht => absurd ht not_mem_nil⟩, Option.some.inj haborted, ?_⟩
    obtain ⟨view, hmem, hunseen⟩ := any_eq_true.mp (Option.some.inj hview)
    exact ⟨view, hmem, by simpa using hunseen⟩
  | succ n ih =>
    obtain ⟨s, hreach, hrewritten⟩ := ih
    obtain ⟨s', hstep, hnext⟩ := hrewritten.step (Snapshots.reach hreach)
    exact ⟨s', hreach.tail ⟨_, trivial, hstep⟩, hnext⟩

theorem stepsBack_of_hidden {sees : Nat → Bool} {top : List HeapTuple} {last : HeapTuple}
    (h : ∀ tuple ∈ top, sees tuple.trxId = false) :
      stepsBack sees (top ++ [last]) = top.length := by
  induction top with
  | nil => rfl
  | cons tuple rest ih =>
    have hrest := ih fun t ht => h t (mem_cons_of_mem tuple ht)
    have hhidden := h tuple mem_cons_self
    cases rest with
    | nil =>
      show (if sees tuple.trxId = true then 0 else 0 + 1) = 1
      rw [hhidden]
      rfl
    | cons next rest =>
      show (if sees tuple.trxId = true then 0 else
        stepsBack sees (next :: rest ++ [last]) + 1) = _
      rw [hhidden, hrest]
      rfl

/-- A snapshot taken before 65537 writes of one row does not find the version it is entitled to. -/
theorem old_snapshot_not_resolved :
    ∃ s, Reach SnapshotState.step (fun _ _ => True) sampleSettled.start s ∧
      ∃ view ∈ s.views, s.resolve view.1 (200, 0) ≠ .ok (s.committedBefore view (200, 0)) := by
  obtain ⟨s, hreach, hrewritten⟩ := exists_rewritten (maxUndoChainLength + 1)
  obtain ⟨view, hview, hunseen⟩ := hrewritten.view
  obtain ⟨top, last, hhistory, hlength, hwriters⟩ := hrewritten.history
  refine ⟨s, hreach, view, hview, fun hfound => ?_⟩
  have hwithin := ((Snapshots.reach hreach).resolve_eq_ok_iff hview (200, 0)).mp hfound
  have hlive : s.live (200, 0) = top ++ [last] := by
    rw [SnapshotState.live, hhistory]
    refine filter_eq_self.mpr fun tuple _ => ?_
    rw [hrewritten.aborted]
    rfl
  rw [hlive, stepsBack_of_hidden fun tuple htuple => hwriters tuple htuple ▸ hunseen,
    hlength] at hwithin
  exact absurd hwithin (Nat.not_succ_le_self _)

end Kds.Server
