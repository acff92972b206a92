/-
  Kds.Server.Isolation

  What a transaction is promised of the others, over every run.  It supersedes no version of a row
  but its own and those that had committed when its view was minted (`no_lost_update`), and a row
  that it does not write reads the same under its view whenever it is read (`reads_repeat`).

  The first rests on `SeesDown`: of a row's live versions, the view of a transaction in flight sees
  all that lie below one it sees.
-/

import Kds.Server.SnapshotRuns

namespace Kds.Server

open Lib Storage Txn Snapshots List

-- What a step does

/-- Where an insert would put its row. -/
def SnapshotState.insertsAt (s : SnapshotState) (id relOid pageId pk : Nat) (payload : Bytes) :
    Option Loc := do
  let txn ← s.activeTxn id
  let (_, _, slot) ← (insertVersion s.engine txn relOid pageId pk payload).toOption
  some (pageId, slot)

/-- A step in which the transaction `own` neither writes the row nor rolls back. -/
def LeavesRow (own : Nat) (loc : Loc) (s : SnapshotState) : SnapshotAction → Prop
  | .write id _ _ at_ => id = own → at_ ≠ loc
  | .insert id relOid pageId pk payload => id = own →
      s.insertsAt id relOid pageId pk payload ≠ some loc
  | .abort id => id ≠ own
  | _ => True

instance (own : Nat) (loc : Loc) (s : SnapshotState) (a : SnapshotAction) :
    Decidable (LeavesRow own loc s a) := by
  unfold LeavesRow
  split <;> infer_instance

/-- The view of a transaction after a step that writes nothing: the one it had, or one that was
    minted in the step, and noted. -/
def ViewKept (s : SnapshotState) (views : List (ReadView × List Nat)) (t : Transaction) : Prop :=
  (∃ txn ∈ s.engine.manager.live, txn.active = true ∧ txn.view = t.view) ∨
    ∃ m own, TransactionManager.Isolated m ∧ m.inFlightIds = s.engine.manager.inFlightIds ∧
      s.engine.manager.nextId ≤ m.nextId ∧ m.mintReadView own = .ok t.view ∧
      (t.view, s.committed) ∈ views

/-- What a step does: it moves transactions, puts a version on top of a row, or takes back those of
    a transaction. -/
inductive Stepped (s : SnapshotState) (action : SnapshotAction) : SnapshotState → Prop where
  | moved {manager views committed} : (∀ v ∈ s.views, v ∈ views) →
      (∀ t ∈ manager.live, t.active = true → ViewKept s views t) →
      Stepped s action { s with
        engine := ⟨manager, s.engine.store⟩, views := views, committed := committed }
  | put {txn txn' store at_ top} : txn ∈ s.engine.manager.live → txn.active = true →
      PutsOnTop s.engine store txn txn' at_ (s.live at_) top →
      (∀ own loc, LeavesRow own loc s action → txn.id = own → at_ ≠ loc) →
      Stepped s action (s.remember store txn' at_)
  | ended {manager store id} : (∀ t ∈ manager.live, t.active = true → ViewKept s s.views t) →
      (∀ own loc, LeavesRow own loc s action → id ≠ own) →
      Stepped s action { s with engine := ⟨manager, store⟩, aborted := id :: s.aborted }

namespace Snapshots

variable {s s' : SnapshotState} {txn : Transaction}

/-- Where one handle changes, and keeps its view or is over, the views are kept. -/
theorem viewKept_update {views : List (ReadView × List Nat)} (htxn : txn.active = true →
      ViewKept s views txn) {t : Transaction}
    (ht : t ∈ (s.engine.manager.update txn).live) (hact : t.active = true) :
      ViewKept s views t := by
  rcases mem_live_update_of_ne ht with rfl | ⟨hold, -⟩
  · exact htxn hact
  · exact .inl ⟨t, hold, hact, rfl⟩

/-- Every step is of one of the three kinds. -/
theorem stepped (h : Snapshots s) {action : SnapshotAction} (hstep : s.step action = some s') :
    Stepped s action s' := by
  cases SnapshotState.step_cases hstep with
  | began hbegin =>
    obtain ⟨view, hview, rfl, rfl⟩ := begin_eq_ok hbegin
    refine .moved (fun v hv => mem_cons_of_mem _ hv) fun t ht hact => ?_
    rcases Lib.mem_snoc.mp ht with hold | rfl
    · exact .inl ⟨t, hold, hact, rfl⟩
    · exact .inr ⟨_, _, h.isolated.next, rfl, Nat.le_succ _, hview, mem_cons_self⟩
  | minted htxn hview =>
    refine .moved (fun v hv => mem_cons_of_mem _ hv) fun t => viewKept_update fun _ => ?_
    exact .inr ⟨_, _, h.isolated, rfl, Nat.le_refl _, hview, mem_cons_self⟩
  | kept htxn =>
    obtain ⟨hlive, hactive, -⟩ := activeTxn_spec htxn
    exact .moved (fun _ hv => hv) fun t => viewKept_update fun _ => .inl ⟨_, hlive, hactive, rfl⟩
  | viewed =>
    exact .moved (fun v hv => mem_cons_of_mem _ hv) fun t ht hact => .inl ⟨t, ht, hact, rfl⟩
  | wrote htxn hwrite =>
    obtain ⟨hlive, hactive, rfl⟩ := activeTxn_spec htxn
    obtain ⟨top, hput⟩ := h.writeVersion hlive hwrite
    exact .put hlive hactive hput fun own loc hleaves => hleaves
  | @inserted id relOid pageId pk payload txn _ _ slot htxn hinsert =>
    have hat : s.insertsAt id relOid pageId pk payload = some (pageId, slot) := by
      rw [SnapshotState.insertsAt, htxn]
      show ((SnapshotState.insertVersion s.engine txn relOid pageId pk payload).toOption >>= _) = _
      rw [hinsert]
      rfl
    obtain ⟨hlive, hactive, rfl⟩ := activeTxn_spec htxn
    obtain ⟨top, hput⟩ := h.insertVersion hinsert
    exact .put hlive hactive hput fun own loc hleaves hid hloc =>
      hleaves hid (hat.trans (congrArg some hloc))
  | committed =>
    exact .moved (fun _ hv => hv) fun t => viewKept_update fun hact =>
      absurd hact Bool.false_ne_true
  | aborted htxn habort =>
    obtain ⟨-, hactive, -⟩ := activeTxn_spec htxn
    rw [Txn.abort, hactive] at habort
    rw [← (Prod.mk.inj (Prod.mk.inj habort).2).1]
    exact .ended (fun t => viewKept_update fun hact => absurd hact Bool.false_ne_true)
      fun _ _ hother => hother

end Snapshots

-- What a view sees of a row

/-- Of these versions, newest first, the view sees all below one it sees. -/
def SeesDown (view : ReadView) (versions : List HeapTuple) : Prop :=
  versions.Pairwise fun newer older =>
    view.visible newer.trxId = true → view.visible older.trxId = true

variable {versions : List HeapTuple} {view : ReadView}

theorem SeesDown.all (h : SeesDown view versions)
    (hhead : ∀ head, versions.head? = some head → view.visible head.trxId = true) :
    ∀ tuple ∈ versions, view.visible tuple.trxId = true := by
  intro tuple htuple
  cases versions with
  | nil => cases htuple
  | cons head rest =>
    have hseen := hhead head rfl
    rcases mem_cons.mp htuple with rfl | hrest
    · exact hseen
    · exact (pairwise_cons.mp h).1 tuple hrest hseen

/-- A view minted now misses one transaction's versions at most, and those are on top. -/
theorem seesDown_minted {m : TransactionManager} (hisolated : m.Isolated) {own : Nat}
    (hview : m.mintReadView own = .ok view)
    (hlayered : Layered HeapTuple.trxId m.inFlightIds versions)
    (hids : ∀ tuple ∈ versions, noTrxId < tuple.trxId ∧ tuple.trxId < m.nextId) :
    SeesDown view versions := by
  obtain ⟨id, top, settled, rfl, htop, hsettled⟩ := hlayered
  have hbelow : ∀ tuple ∈ settled, view.visible tuple.trxId = true := fun tuple htuple =>
    have hid := hids tuple (mem_append_right _ htuple)
    (hisolated.minted_visible hview hid.2 (Nat.ne_of_gt hid.1)).mpr (.inr (hsettled tuple htuple))
  refine pairwise_append.mpr ⟨?_, ?_, fun _ _ older holder _ => hbelow older holder⟩
  · refine pairwise_of_forall_mem_list fun newer hnewer older holder hseen => ?_
    rw [(htop older holder).1, ← (htop newer hnewer).1]
    exact hseen
  · exact pairwise_of_forall_mem_list fun _ _ older holder _ => hbelow older holder

/-- What is known of a transaction in flight: its view was minted, and sees rows downwards. -/
structure Current (s : SnapshotState) (txn : Transaction) : Prop where
  minted : ∃ committed, (txn.view, committed) ∈ s.views
  down : ∀ loc, SeesDown txn.view (s.live loc)

/-- The invariant. -/
structure Isolates (s : SnapshotState) : Prop extends Snapshots s where
  current : ∀ txn ∈ s.engine.manager.live, txn.active = true → Current s txn

namespace Isolates

variable {s : SnapshotState} {txn txn' : Transaction}

theorem current_of_viewKept (h : Isolates s) {e : Engine} {views : List (ReadView × List Nat)}
    {committed aborted : List Nat} (hkept : ∀ v ∈ s.views, v ∈ views)
    (hsub : ∀ id ∈ s.aborted, id ∈ aborted) (hview : ViewKept s views txn) :
    Current ⟨e, s.base, s.history, committed, aborted, views⟩ txn := by
  have hold : (∃ committed, (txn.view, committed) ∈ views) ∧ ∀ loc,
    SeesDown txn.view (s.live loc) := by
    rcases hview with ⟨t, ht, hact, hsame⟩ | ⟨m, own, hisolated, hids, hlate, hview, hnoted⟩
    · obtain ⟨⟨committed, hminted⟩, hdown⟩ := h.current t ht hact
      rw [← hsame]
      exact ⟨⟨committed, hkept _ hminted⟩, hdown⟩
    · refine ⟨⟨s.committed, hnoted⟩, fun loc => ?_⟩
      apply seesDown_minted hisolated hview (hids ▸ h.layered loc)
      intro tuple htuple
      have hwriter := h.writers loc tuple (mem_of_mem_filter htuple)
      exact ⟨hwriter.1, Nat.lt_of_lt_of_le hwriter.2 hlate⟩
  refine ⟨hold.1, fun loc => (hold.2 loc).sublist ?_⟩
  apply monotone_filter_right
  intro tuple hleft
  simp only [Bool.not_eq_true', contains_eq_mem, decide_eq_false_iff_not] at hleft ⊢
  exact fun hmem => hleft (hsub _ hmem)

/-- A write goes on top of what its writer sees, and nobody else sees it. -/
theorem current_remember (h : Isolates s) (htxn : txn ∈ s.engine.manager.live)
    (hactive : txn.active = true) {store : Store} {loc : Loc} {top : HeapTuple}
    (hput : PutsOnTop s.engine store txn txn' loc (s.live loc) top) :
    ∀ t ∈ (s.remember store txn' loc).engine.manager.live, t.active = true →
      Current (s.remember store txn' loc) t := by
  have hin := h.inFlight htxn hactive
  have hlive := live_remember txn' hput.here (hput.writer ▸ (h.running txn.id hin).2.2)
  -- on the row itself the old versions get one more, on the others nothing changes
  have hdown : ∀ {view : ReadView}, (∀ other, SeesDown view (s.live other)) →
      (view.visible top.trxId = true → ∀ tuple ∈ s.live loc, view.visible tuple.trxId = true) →
      ∀ other, SeesDown view ((s.remember store txn' loc).live other) := by
    intro view hold htop other
    rw [hlive]
    by_cases hloc : other = loc
    · rw [hloc, Function.update_self]
      exact pairwise_cons.mpr ⟨fun older holder hseen => htop hseen older holder, hold loc⟩
    · rw [Function.update_of_ne hloc]
      exact hold other
  intro t ht hact
  rcases mem_live_update_of_ne ht with rfl | ⟨hold, hne⟩
  · obtain ⟨hminted, hmine⟩ := h.current txn htxn hactive
    rw [← hput.view_eq] at hminted hmine
    refine ⟨hminted, hdown hmine fun _ => (hmine loc).all fun head hhead => ?_⟩
    rw [hput.view_eq]
    exact hput.seen head hhead
  · obtain ⟨hminted, hother⟩ := h.current t hold hact
    refine ⟨hminted, hdown hother fun hseen => ?_⟩
    rw [hput.id_eq] at hne
    rw [hput.writer, h.isolated.blind t hold hact txn.id hin (Ne.symm hne)] at hseen
    cases hseen

/-- Every step, of whichever transaction, leaves the running ones isolated. -/
theorem step {s' : SnapshotState} (h : Isolates s) {action : SnapshotAction}
    (hstep : s.step action = some s') : Isolates s' := by
  refine ⟨h.toSnapshots.step action hstep, ?_⟩
  cases h.stepped hstep with
  | moved hkept hviews =>
    exact fun t ht hact => h.current_of_viewKept hkept (fun _ hid => hid) (hviews t ht hact)
  | put htxn hactive hput _ => exact h.current_remember htxn hactive hput
  | ended hviews _ =>
    exact fun t ht hact => h.current_of_viewKept (fun _ hv => hv)
      (fun _ hid => mem_cons_of_mem _ hid) (hviews t ht hact)

/-- And so does every run. -/
theorem reach {settled : SettledStore}
    (hreach : Reach SnapshotState.step (fun _ _ => True) settled.start s) : Isolates s :=
  hreach.invariant ⟨.start settled, fun _ ht => absurd ht not_mem_nil⟩
    fun _ ht _ hs => ht.step hs

end Isolates

/-- **No update is lost**: in every run, a row that a transaction overwrites or delete-marks has
    live versions only of its own, of those that had committed when its view was minted, and of
    those that had ended before the run. -/
theorem no_lost_update (settled : SettledStore) {s s' : SnapshotState}
    (hreach : Reach SnapshotState.step (fun _ _ => True) settled.start s) {id : Nat}
    {rel : RelationAccess} {stmt : WriteStatement} {loc : Loc}
    (hstep : s.step (.write id rel stmt loc) = some s') :
    ∃ txn committed, s.activeTxn id = some txn ∧ (txn.view, committed) ∈ s.views ∧
      ∀ tuple ∈ s.live loc, tuple.trxId < s.base ∨ tuple.trxId ∈ committed ∨ tuple.trxId = id := by
  have h := Isolates.reach hreach
  cases SnapshotState.step_cases hstep with
  | wrote htxn hwrite =>
    obtain ⟨hlive, hactive, hid⟩ := activeTxn_spec htxn
    obtain ⟨⟨committed, hminted⟩, hdown⟩ := h.current _ hlive hactive
    obtain ⟨top, hput⟩ := h.writeVersion hlive hwrite
    refine ⟨_, committed, htxn, hminted, fun tuple htuple => ?_⟩
    obtain ⟨hhist, hkept⟩ := mem_filter.mp htuple
    rw [Bool.not_eq_true', contains_eq_mem, decide_eq_false_iff_not] at hkept
    rw [← hid, ← h.isolated.own _ hlive]
    exact ((h.views _ hminted).visible tuple.trxId
      (Nat.ne_of_gt (h.writers loc tuple hhist).1) hkept).mp
      ((hdown loc).all hput.seen tuple htuple)

/-- Transaction 2 overwrites the row and commits before transaction 3 takes its view. -/
theorem no_lost_update_overwrite :
    ∃ s s', Reach SnapshotState.step (fun _ _ => True) sampleSettled.start s ∧
      s.step (.write 3 sampleRelation (setWhere 2 3) (200, 0)) = some s' ∧
      ∃ txn committed, s.activeTxn 3 = some txn ∧ (txn.view, committed) ∈ s.views ∧
        ∀ tuple ∈ s.live (200, 0),
          tuple.trxId < s.base ∨ tuple.trxId ∈ committed ∨ tuple.trxId = 3 := by
  obtain ⟨s, hreach, hfound⟩ := @exists_reach_of_runList _ _ SnapshotState.step (fun _ _ => True)
    (fun _ _ => true) (fun _ _ _ => trivial) [.begin .readCommitted,
      .write 2 sampleRelation (setWhere 1 2) (200, 0), .commit 2, .begin .repeatableRead]
    sampleSettled.start
    (fun s => (s.step (.write 3 sampleRelation (setWhere 2 3) (200, 0))).isSome)
    (by decide +kernel)
  obtain ⟨s', hstep⟩ := Option.isSome_iff_exists.mp hfound
  exact ⟨s, s', hreach, hstep, no_lost_update sampleSettled hreach hstep⟩

-- Reading again

namespace Snapshots

variable {s s' : SnapshotState} {view : ReadView × List Nat} {loc : Loc}

/-- A version on top by another transaction in flight is nothing to the view. -/
theorem committedBefore_remember (h : Snapshots s) (hview : view ∈ s.views) {txn txn' : Transaction}
    (htxn : txn ∈ s.engine.manager.live) (hactive : txn.active = true) {store : Store} {at_ : Loc}
    {top : HeapTuple} (hput : PutsOnTop s.engine store txn txn' at_ (s.live at_) top)
    (hleaves : txn.id = view.1.ownTrxId → at_ ≠ loc) :
    (s.remember store txn' at_).committedBefore view loc = s.committedBefore view loc := by
  unfold SnapshotState.committedBefore SnapshotState.remember
  dsimp only
  by_cases hloc : loc = at_
  · obtain ⟨hlow, hnot, -⟩ := h.running txn.id (h.inFlight htxn hactive)
    have hcommitted : txn.id ∉ view.2 := fun hin => hnot ((h.views view hview).committed _ hin)
    have hown : txn.id ≠ view.1.ownTrxId := fun heq => hleaves heq hloc.symm
    rw [hloc, Function.update_self, hput.here]
    apply seenVersion_cons_of_not_visible
    rw [hput.writer]
    simp [hlow, hcommitted, hown]
  · rw [Function.update_of_ne hloc]

theorem committedBefore_step (h : Snapshots s) (hview : view ∈ s.views) {action : SnapshotAction}
    (hleaves : LeavesRow view.1.ownTrxId loc s action) (hstep : s.step action = some s') :
    s'.committedBefore view loc = s.committedBefore view loc ∧ view ∈ s'.views := by
  cases h.stepped hstep with
  | moved hkept _ => exact ⟨rfl, hkept _ hview⟩
  | put htxn hactive hput hother =>
    exact ⟨h.committedBefore_remember hview htxn hactive hput (hother _ _ hleaves), hview⟩
  | @ended _ _ id _ hother =>
    refine ⟨?_, hview⟩
    unfold SnapshotState.committedBefore
    dsimp only
    congr 1
    funext writer
    by_cases hown : writer = view.1.ownTrxId
    · have hid : writer ≠ id := fun heq => hother _ _ hleaves (heq.symm.trans hown)
      rw [contains_cons, beq_eq_false_iff_ne.mpr hid, Bool.false_or]
    · rw [decide_eq_false hown, Bool.false_and, Bool.false_and]

end Snapshots

/-- **Reads repeat**: in every run, a row read under a view at two moments reads the same, if the
    view's own transaction neither wrote the row in between nor rolled back, whatever all others
    did. -/
theorem reads_repeat (settled : SettledStore) {s t : SnapshotState}
    (hreach : Reach SnapshotState.step (fun _ _ => True) settled.start s)
    {view : ReadView × List Nat} (hview : view ∈ s.views) {loc : Loc}
    (hrun : Reach SnapshotState.step (LeavesRow view.1.ownTrxId loc) s t)
      {first second : Option Bytes}
    (hfirst : s.resolve view.1 loc = .ok first) (hsecond : t.resolve view.1 loc = .ok second) :
    first = second := by
  have hsnap := Snapshots.reach hreach
  have hkept : ∀ {u : SnapshotState},
      Reach SnapshotState.step (LeavesRow view.1.ownTrxId loc) s u →
      Snapshots u ∧ u.committedBefore view loc = s.committedBefore view loc ∧ view ∈ u.views := by
    intro u hu
    induction hu with
    | refl => exact ⟨hsnap, rfl, hview⟩
    | tail _ hlast ih =>
      obtain ⟨action, hleaves, hstep⟩ := hlast
      obtain ⟨hbefore, hsame, hview⟩ := ih
      obtain ⟨hstill, hviews⟩ := hbefore.committedBefore_step hview hleaves hstep
      exact ⟨hbefore.step action hstep, hstill.trans hsame, hviews⟩
  obtain ⟨hlater, hsame, hthere⟩ := hkept hrun
  rw [(((hsnap.resolve_eq_ok hview loc).mp hfirst).2),
    ((hlater.resolve_eq_ok hthere loc).mp hsecond).2, hsame]

/-- Transaction 2 reads the row, transaction 3 overwrites it twice and commits, transaction 2 puts
    another row on the page and reads the first again. -/
theorem reads_repeat_overwriteTwice :
    ∃ s t, ∃ view ∈ s.views, ∃ first second,
      Reach SnapshotState.step (fun _ _ => True) sampleSettled.start s ∧
      Reach SnapshotState.step (LeavesRow view.1.ownTrxId (200, 0)) s t ∧
      s.resolve view.1 (200, 0) = .ok first ∧ t.resolve view.1 (200, 0) = .ok second ∧
      first = second := by
  let reads (view : ReadView × List Nat) (s : SnapshotState) : Bool :=
    (s.resolve view.1 (200, 0)).toOption = some (some sampleBytes)
  let later := runList (guardStep (fun s a => decide (LeavesRow 2 (200, 0) s a)) SnapshotState.step)
    (overwriteTwice.drop 2 ++ [.insert 2 sampleRelation.oid 200 2 (sampleBytes.set 0 2)])
  obtain ⟨s, hreach, hfound⟩ := @exists_reach_of_runList _ _ SnapshotState.step (fun _ _ => True)
    (fun _ _ => true) (fun _ _ _ => trivial) (overwriteTwice.take 2) sampleSettled.start
    (fun s => s.views.any fun view => view.1.ownTrxId = 2 && reads view s &&
      (later s).any (reads view)) (by decide +kernel)
  obtain ⟨view, hview, hchecks⟩ := any_eq_true.mp hfound
  simp only [Bool.and_eq_true, decide_eq_true_eq] at hchecks
  obtain ⟨⟨hown, hfirst⟩, hlater⟩ := hchecks
  obtain ⟨t, hrun, hsecond⟩ := exists_reach_of_runList _ (fun _ _ => of_decide_eq_true) _ s _ hlater
  rw [← hown] at hrun
  have hfirst := toOption_eq_some.mp (of_decide_eq_true hfirst)
  have hsecond := toOption_eq_some.mp (of_decide_eq_true hsecond)
  exact ⟨s, t, view, hview, _, _, hreach, hrun, hfirst, hsecond,
    reads_repeat sampleSettled hreach hview hrun hfirst hsecond⟩

end Kds.Server
