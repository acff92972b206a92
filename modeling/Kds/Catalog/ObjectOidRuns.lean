/-
  Kds.Catalog.ObjectOidRuns

  Object oids over the life of a database.  Between two mounts the counter is ahead of every oid
  that was stamped; at a mount it is read back from the rows, so it is ahead only if the highest
  stamped oid still stands in one of them.  `object_oids_unique` is about the runs in which it does
  whenever a CREATE TABLE reads the counter back.
-/

import Kds.Catalog.ObjectOids
import Kds.Lib.Run

namespace Kds.Catalog

open Lib

/-- **Object oids are unique**: what `GenerateUserOid` returned was not stamped anywhere. -/
def OidsUnique (s : OidState) : Prop := ∀ issue ∈ s.issued, issue.2 = false

/-- The highest stamped oid stands in a row that a scan of the two relations answers with. -/
def HighestStands (s : OidState) : Prop :=
  ∀ oid ∈ s.stamped, kUserOidStart ≤ oid → ∃ tuple ∈ s.shown, oid ≤ tuple.row.oid

/-- **The condition**, on the steps that read the counter back: a CREATE TABLE that is the first
    since the mount. -/
def ReadsBack (s : OidState) : OidAction → Prop
  | .create _ _ => s.next = none → HighestStands s
  | _ => True

/-- **What holds between steps**: the counter, once read back, is ahead of every stamped oid. -/
structure Counted (s : OidState) : Prop where
  unique : OidsUnique s
  ahead : ∀ n, s.next = some n → ∀ oid ∈ s.stamped, oid < n

/-- Nothing of the counter changes. -/
structure SameOids (s s' : OidState) : Prop where
  next : s'.next = s.next
  issued : s'.issued = s.issued
  stamped : s'.stamped = s.stamped

namespace SameOids

variable {s s' s'' : OidState}

theorem refl (s : OidState) : SameOids s s := ⟨rfl, rfl, rfl⟩

theorem trans (h : SameOids s s') (h' : SameOids s' s'') : SameOids s s'' :=
  ⟨h'.next.trans h.next, h'.issued.trans h.issued, h'.stamped.trans h.stamped⟩

theorem setSlot (s : OidState) (slot : Nat) (after : Option CatalogTuple) :
    SameOids s (s.setSlot slot after) := ⟨rfl, rfl, rfl⟩

theorem appendWrite (s : OidState) (trxId slot : Nat) (after : Option CatalogTuple) :
    SameOids s (s.appendWrite trxId slot after) := ⟨rfl, rfl, rfl⟩

theorem appendUndo (s : OidState) (trxId slot : Nat) (before : Option CatalogTuple) :
    SameOids s (s.appendUndo trxId slot before) := by
  rw [OidState.appendUndo]
  by_cases h : trxId = kBootstrapXid
  · rw [if_pos h]
    exact refl s
  · rw [if_neg h]
    exact ⟨rfl, rfl, rfl⟩

theorem note (s : OidState) (trxId slot : Nat) (before : Option CatalogTuple) :
    SameOids s (s.note trxId slot before) := by
  rw [OidState.note]
  by_cases h : trxId = kBootstrapXid
  · rw [if_pos h]
    exact refl s
  · rw [if_neg h]
    exact ⟨rfl, rfl, rfl⟩

theorem changeRow (s : OidState) (trxId slot : Nat) (before after : Option CatalogTuple)
    (outcome : WriteOutcome) : SameOids s (s.changeRow trxId slot before after outcome).1 := by
  have hchanged : SameOids s ((s.appendUndo trxId slot before).setSlot slot after) :=
    (appendUndo ..).trans (setSlot ..)
  cases outcome with
  | refused e => exact refl s
  | undoRefused e => exact refl s
  | logRefused e => exact hchanged
  | done => exact (hchanged.trans (appendWrite ..)).trans (note ..)

theorem sweepSlots (s : OidState) (trxId : Nat) (pick : CatalogTuple → Bool)
    (change : CatalogTuple → Option CatalogTuple) (outcome : Nat → WriteOutcome)
    (slots : List Nat) : SameOids s (s.sweepSlots trxId pick change outcome slots).1 := by
  induction slots generalizing s with
  | nil => exact refl s
  | cons slot rest ih =>
    rw [OidState.sweepSlots]
    split
    · exact ih s
    · next tuple hslot =>
      by_cases hpick : pick tuple = true
      · rw [if_pos hpick]
        have hchange := changeRow s trxId slot (some tuple) (change tuple) (outcome slot)
        split
        · next s₁ e heq =>
          rw [heq] at hchange
          exact hchange
        · next s₁ u heq =>
          rw [heq] at hchange
          exact hchange.trans (ih s₁)
      · rw [if_neg hpick]
        exact ih s

theorem dropTable (s : OidState) (table : Oid) (trxId : Nat) (retype : WriteOutcome)
    (outcome : Nat → WriteOutcome) : SameOids s (s.dropTable table trxId retype outcome).1 := by
  rw [OidState.dropTable]
  split
  · exact refl s
  · next slot hfind =>
    split
    · exact refl s
    · next tuple hslot =>
      by_cases hsystem : OidState.isSystemRow tuple = true
      · rw [if_pos hsystem]
        exact refl s
      · rw [if_neg hsystem]
        have hchange :=
          changeRow s trxId slot (some tuple) (some (OidState.retyped trxId tuple)) retype
        split
        · next s₁ e heq =>
          rw [heq] at hchange
          exact hchange
        · next s₁ u heq =>
          rw [heq] at hchange
          exact hchange.trans (sweepSlots ..)

theorem compensate (s : OidState) (trxId : Nat) : SameOids s (s.compensate trxId) := by
  rw [OidState.compensate]
  generalize s.trail.filter (fun entry => entry.1 == trxId) = entries
  induction entries generalizing s with
  | nil => exact refl s
  | cons entry rest ih => exact (setSlot s entry.2.1 entry.2.2).trans (ih _)

theorem endTrx (s : OidState) (trxId : Nat) (record : CatalogRecord) :
    SameOids s (s.endTrx trxId record) := ⟨rfl, rfl, rfl⟩

theorem undoLosers (s : OidState) (kept : List CatalogRecord) :
    SameOids s (s.undoLosers kept) := by
  have hundo : ∀ (records : List CatalogRecord) (s : OidState),
      SameOids s (records.foldl (OidState.undoOne kept) s) := by
    intro records
    induction records with
    | nil => exact refl
    | cons record rest ih =>
      intro s
      have hstep : SameOids s (OidState.undoOne kept s record) := by
        rw [OidState.undoOne.eq_def]
        split
        · split_ifs
          · exact (setSlot ..).trans (appendWrite ..)
          · exact refl s
        · exact refl s
      exact hstep.trans (ih _)
  have habort : ∀ (records : List CatalogRecord) (s : OidState),
      SameOids s (records.foldl (OidState.abortOne kept) s) := by
    intro records
    induction records with
    | nil => exact refl
    | cons record rest ih =>
      intro s
      have hstep : SameOids s (OidState.abortOne kept s record) := by
        rw [OidState.abortOne.eq_def]
        split
        · split_ifs
          · exact ⟨rfl, rfl, rfl⟩
          · exact refl s
        · exact refl s
      exact hstep.trans (ih _)
  exact (hundo kept s).trans (habort kept _)

theorem counted (h : SameOids s s') (hs : Counted s) : Counted s' := by
  refine ⟨?_, ?_⟩
  · rw [OidsUnique, h.issued]
    exact hs.unique
  · rw [h.next, h.stamped]
    exact hs.ahead

end SameOids

-- The counter

theorem le_highestIssuedUserOid (s : OidState) :
    kUserOidStart - 1 ≤ s.highestIssuedUserOid ∧
      ∀ tuple ∈ s.shown, tuple.row.oid ≤ s.highestIssuedUserOid := by
  have hfold : ∀ (tuples : List CatalogTuple) (floor : Oid),
      floor ≤ tuples.foldl (fun highest tuple => max highest tuple.row.oid) floor ∧
        ∀ tuple ∈ tuples,
          tuple.row.oid ≤ tuples.foldl (fun highest tuple => max highest tuple.row.oid) floor := by
    intro tuples
    induction tuples with
    | nil => exact fun floor => ⟨Nat.le_refl floor, fun _ htuple => absurd htuple List.not_mem_nil⟩
    | cons head rest ih =>
      intro floor
      obtain ⟨hfloor, hrest⟩ := ih (max floor head.row.oid)
      refine ⟨Nat.le_trans (Nat.le_max_left ..) hfloor, fun tuple htuple => ?_⟩
      rcases List.mem_cons.mp htuple with rfl | hin
      · exact Nat.le_trans (Nat.le_max_right ..) hfloor
      · exact hrest tuple hin
  exact hfold s.shown (kUserOidStart - 1)

namespace Counted

variable {s s' : OidState} {oid n : Oid}

theorem issueOid (h : Counted s) (hfresh : ∀ stamped ∈ s.stamped, stamped < oid) :
    Counted (s.issueOid oid) := by
  refine ⟨fun issue hissue => ?_, fun n hn stamped hstamped => ?_⟩
  · rcases List.mem_cons.mp hissue with rfl | hold
    · have hnot : oid ∉ s.stamped := fun hin => Nat.lt_irrefl oid (hfresh oid hin)
      show s.stamped.contains oid = false
      rw [List.contains_eq_mem, decide_eq_false_iff_not]
      exact hnot
    · exact h.unique issue hold
  · cases hn
    exact Nat.lt_succ_of_lt (hfresh stamped hstamped)

theorem generateUserOid (h : Counted s) (hstands : s.next = none → HighestStands s)
    {scan : Option Status} {answer : StatusOr Oid}
    (hgenerate : s.generateUserOid scan = (s', answer)) :
    Counted s' ∧ ∀ oid, answer = .ok oid → s'.next = some (oid + 1) := by
  unfold OidState.generateUserOid at hgenerate
  split at hgenerate
  · next oid hnext =>
    cases hgenerate
    refine ⟨h.issueOid (h.ahead oid hnext), fun o ho => ?_⟩
    cases ho
    rfl
  · next hnext =>
    split at hgenerate
    · cases hgenerate
      exact ⟨h, fun o ho => by cases ho⟩
    · cases hgenerate
      obtain ⟨hfloor, hrows⟩ := le_highestIssuedUserOid s
      refine ⟨h.issueOid fun stamped hstamped => ?_, fun o ho => ?_⟩
      · by_cases hstart : kUserOidStart ≤ stamped
        · obtain ⟨tuple, htuple, hle⟩ := hstands hnext stamped hstamped hstart
          exact Nat.lt_succ_of_le (Nat.le_trans hle (hrows tuple htuple))
        · have hbelow := Nat.le_sub_one_of_lt (Nat.not_le.mp hstart)
          exact Nat.lt_succ_of_le (Nat.le_trans hbelow hfloor)
      · cases ho
        rfl

theorem stamp (h : Counted s) (hnext : s.next = some n) (hlt : oid < n) :
    Counted (s.stamp oid) := by
  refine ⟨h.unique, fun n' hn' stamped hstamped => ?_⟩
  obtain rfl : n = n' := Option.some.inj (hnext.symm.trans hn')
  rcases List.mem_cons.mp hstamped with rfl | hold
  · exact hlt
  · exact h.ahead n hnext stamped hold

theorem insertRow (h : Counted s) (hnext : s.next = some n) {trxId : Nat} {row : CatalogRow}
    (hlt : row.oid < n) {outcome : WriteOutcome} {answer : StatusOr Unit}
    (hinsert : s.insertRow trxId row outcome = (s', answer)) :
    Counted s' ∧ s'.next = some n := by
  have hstamp : Counted (s.stamp row.oid) := h.stamp hnext hlt
  have hplaced : ∀ slots, SameOids (s.stamp row.oid) { s.stamp row.oid with slots := slots } :=
    fun slots => ⟨rfl, rfl, rfl⟩
  have hdone : ∀ {t : OidState}, SameOids (s.stamp row.oid) t → Counted t ∧ t.next = some n :=
    fun hsame => ⟨hsame.counted hstamp, hsame.next.trans hnext⟩
  cases outcome with
  | refused e =>
    obtain ⟨rfl, -⟩ := Prod.mk.inj hinsert
    exact ⟨h, hnext⟩
  | undoRefused e =>
    obtain ⟨rfl, -⟩ := Prod.mk.inj hinsert
    exact hdone (hplaced _)
  | logRefused e =>
    obtain ⟨rfl, -⟩ := Prod.mk.inj hinsert
    exact hdone ((hplaced _).trans (.appendUndo ..))
  | done =>
    obtain ⟨rfl, -⟩ := Prod.mk.inj hinsert
    exact hdone ((((hplaced _).trans (.appendUndo ..)).trans (.appendWrite ..)).trans (.note ..))

theorem createColumns (h : Counted s) (hnext : s.next = some n) {trxId : Nat} {relId : Oid}
    (outcomes : List WriteOutcome) : Counted (s.createColumns trxId relId outcomes).1 := by
  have hlt : ∀ oid, (CatalogRow.column oid relId).oid < oid + 1 := fun oid => Nat.lt_succ_self oid
  induction outcomes generalizing s n with
  | nil => exact h
  | cons outcome rest ih =>
    rw [OidState.createColumns]
    split
    · next s₁ e hgenerate =>
      exact (h.generateUserOid (fun hnone => by rw [hnone] at hnext; cases hnext) hgenerate).1
    · next s₁ oid hgenerate =>
      obtain ⟨hcounted, hissued⟩ :=
        h.generateUserOid (fun hnone => by rw [hnone] at hnext; cases hnext) hgenerate
      split
      · next s₂ e hinsert =>
        exact (hcounted.insertRow (hissued oid rfl) (hlt oid) hinsert).1
      · next s₂ u hinsert =>
        obtain ⟨hcounted', hnext'⟩ := hcounted.insertRow (hissued oid rfl) (hlt oid) hinsert
        exact ih hcounted' hnext'

theorem createTable (h : Counted s) (hstands : s.next = none → HighestStands s) (trxId : Nat)
    (plan : CreatePlan) : Counted (s.createTable trxId plan).1 := by
  rw [OidState.createTable]
  split
  · next s₁ e hgenerate => exact (h.generateUserOid hstands hgenerate).1
  · next s₁ oid hgenerate =>
    obtain ⟨hcounted, hissued⟩ := h.generateUserOid hstands hgenerate
    have hnext := hissued oid rfl
    split
    · exact hcounted
    · dsimp only
      have hstamped := hcounted.stamp hnext (Nat.lt_succ_self oid)
      split
      · exact hstamped
      · have hlt : (CatalogRow.object oid kNamespacePublic kTypeTable).oid < oid + 1 :=
          Nat.lt_succ_self oid
        split
        · next s₂ e hinsert => exact (hstamped.insertRow hnext hlt hinsert).1
        · next s₂ u hinsert =>
          obtain ⟨hcounted', hnext'⟩ := hstamped.insertRow hnext hlt hinsert
          split
          · exact hcounted'
          · have hcolumns := @createColumns s₂ (oid + 1) hcounted' hnext' trxId oid plan.columns
            split
            · next s₃ e heq =>
              rw [heq] at hcolumns
              exact hcolumns
            · next s₃ u heq =>
              rw [heq] at hcolumns
              exact hcolumns

/-- Where the highest oid stands at a read-back, the counter stays ahead of every oid. -/
theorem step (h : Counted s) (action : OidAction) (hreads : ReadsBack s action)
    (hstep : s.step action = some s') : Counted s' := by
  cases action with
  | begin =>
    cases hstep
    exact @SameOids.counted s _ ⟨rfl, rfl, rfl⟩ h
  | create trxId plan =>
    rw [OidState.step] at hstep
    split_ifs at hstep
    cases hstep
    exact h.createTable hreads trxId plan
  | drop trxId table retype outcome =>
    rw [OidState.step] at hstep
    split_ifs at hstep
    cases hstep
    exact (SameOids.dropTable ..).counted h
  | commit trxId =>
    rw [OidState.step] at hstep
    split_ifs at hstep
    cases hstep
    exact (SameOids.endTrx ..).counted h
  | rollback trxId =>
    rw [OidState.step] at hstep
    split_ifs at hstep
    cases hstep
    exact ((SameOids.compensate s trxId).trans (.endTrx ..)).counted h
  | purge horizon outcome =>
    rw [OidState.step] at hstep
    split_ifs at hstep
    cases hstep
    exact (SameOids.sweepSlots ..).counted h
  | sync =>
    cases hstep
    exact @SameOids.counted s _ ⟨rfl, rfl, rfl⟩ h
  | writeBack slot =>
    rw [OidState.step] at hstep
    split_ifs at hstep
    cases hstep
    exact @SameOids.counted s _ ⟨rfl, rfl, rfl⟩ h
  | restart lost survivor =>
    rw [OidState.step] at hstep
    split_ifs at hstep
    cases hstep
    -- the counter is gone, so it is ahead of nothing
    apply SameOids.counted ((SameOids.undoLosers _ _).trans (SameOids.sweepSlots ..))
    exact ⟨h.unique, fun n hn => by cases hn⟩

end Counted

-- Runs

/-- **Object oids are unique** for the life of the database, in every run in which the highest
    stamped oid stands in a row whenever the counter is read back. -/
theorem object_oids_unique (catalog : BootstrappedCatalog) {s : OidState}
    (hreach : Reach OidState.step ReadsBack catalog.start s) : OidsUnique s := by
  have hcounted : Counted s := by
    refine hreach.invariant ⟨fun issue hissue => absurd hissue List.not_mem_nil, fun n hn => ?_⟩
      fun action h hreads hstep => h.step action hreads hstep
    cases hn
  exact hcounted.unique

/-- `sys.objects` with one system relation. -/
def oneSystemRelation : BootstrappedCatalog where
  slots := [some { row := .object 100 10 kTypeTable, trxId := kBootstrapXid }]
  system := by
    intro tuple htuple
    rw [Option.some.inj (List.mem_singleton.mp htuple)]
    decide

/-- A CREATE TABLE is rolled back; after a clean restart its oid is issued again. -/
def rollBackThenRestart : List OidAction :=
  [.begin, .create 2 { columns := [.done] }, .rollback 2, .sync, .writeBack 1, .writeBack 2,
    .restart 0 fun _ => 0, .begin, .create 3 { columns := [.done] }]

theorem oid_reissued_after_rollback :
    ∃ s, Reach OidState.step (fun _ _ => True) oneSystemRelation.start s ∧
      s.issued.contains (4000, true) = true ∧ ¬ OidsUnique s := by
  obtain ⟨s, hreach, htwice⟩ := @exists_reach_of_runList _ _ OidState.step (fun _ _ => True)
    (fun _ _ => true) (fun _ _ _ => trivial) rollBackThenRestart oneSystemRelation.start
    (fun s => s.issued.contains (4000, true)) (by decide +kernel)
  refine ⟨s, hreach, htwice, fun hunique => ?_⟩
  cases hunique _ (List.contains_iff_mem.mp htwice)

/-- A run that meets the condition: of two tables the older is dropped before the restart. -/
def dropThenRestart : List OidAction :=
  [.begin, .create 2 { columns := [.done] }, .create 2 { columns := [.done] }, .commit 2, .begin,
    .drop 3 4000 .done fun _ => .done, .commit 3, .sync, .restart 0 fun _ => 0, .begin,
    .create 4 { columns := [.done] }]

/-- A check that implies the condition. -/
def readsBackHere (s : OidState) : OidAction → Bool
  | .create _ _ => s.next.isSome || s.stamped.all fun oid =>
    decide (oid < kUserOidStart) || s.shown.any fun tuple => decide (oid ≤ tuple.row.oid)
  | _ => true

theorem readsBackHere_sound (s : OidState) (action : OidAction)
    (h : readsBackHere s action = true) : ReadsBack s action := by
  cases action with
  | create trxId plan =>
    intro hnone oid hoid hstart
    rw [readsBackHere, hnone] at h
    have hall := List.all_eq_true.mp h oid hoid
    rw [Bool.or_eq_true, decide_eq_true_eq] at hall
    obtain ⟨tuple, htuple, hle⟩ :=
      List.any_eq_true.mp (hall.resolve_left (Nat.not_lt.mpr hstart))
    exact ⟨tuple, htuple, of_decide_eq_true hle⟩
  | _ => trivial

theorem object_oids_unique_dropThenRestart :
    ∃ s, Reach OidState.step ReadsBack oneSystemRelation.start s ∧
      s.issued.map (·.1) = [4005, 4004, 4003, 4002, 4001, 4000] ∧ OidsUnique s := by
  obtain ⟨s, hreach, hissued⟩ := @exists_reach_of_runList _ _ OidState.step ReadsBack
    readsBackHere readsBackHere_sound dropThenRestart oneSystemRelation.start
    (fun s => decide (s.issued.map (·.1) = [4005, 4004, 4003, 4002, 4001, 4000]))
    (by decide +kernel)
  exact ⟨s, hreach, of_decide_eq_true hissued, object_oids_unique oneSystemRelation hreach⟩

end Kds.Catalog
