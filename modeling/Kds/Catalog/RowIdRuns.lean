/-
  Kds.Catalog.RowIdRuns

  Row ids over whole runs: `row_ids_never_reissued` is what holds of every run in which no crash
  loses the record of a call that handed out or admitted an id (`Keeps`), and
  `id_reissued_after_crash` a run in which one does: a range granted to a peer before the log is
  synced.
-/

import Kds.Catalog.RowIdOwners
import Kds.Lib.Run

namespace Kds.Catalog

open Lib List

/-- A database after some CREATE TABLEs. -/
structure FreshTables where
  rows : Oid → Option SysTableRow
  marks : ∀ oid row, rows oid = some row → kFirstRowId ≤ row.nextId ∧
    row.nextId ≤ kMaxKeystoneId + 1

def FreshTables.start (tables : FreshTables) : RowIdState :=
  { page := tables.rows, base := tables.rows }

/-- **Row ids are kept apart**: none is issued twice, the recorded mark is above all that were
    issued, carved or admitted at or above it, an id was admitted below it under the flag only, and
    no id nor the mark is past the top of the id space. -/
structure RowIdsApart (s : RowIdState) : Prop where
  once : ∀ oid, (s.issued oid).Nodup
  spelled : ∀ oid, ∀ id ∈ s.issued oid, kFirstRowId ≤ id ∧ id ≤ kMaxKeystoneId
  issuedTaken : ∀ oid, ∀ id ∈ s.issued oid, id ∈ s.taken oid
  mark : ∀ oid row, s.page oid = some row → ∀ id ∈ s.taken oid, id < row.nextId
  flag : ∀ oid row, s.page oid = some row → s.below oid ≠ [] → row.keyOrder = .unordered
  bound : ∀ oid row, s.page oid = some row → row.nextId ≤ kMaxKeystoneId + 1

/-- **The condition**, step by step: a range is asked of at most the size of the id space; an id
    below the mark of an unordered relation is admitted on a row that is in the log as it is; and a
    crash keeps, in the log or in a page image, the record that each relation's last successful call
    rests on. -/
def Keeps (s : RowIdState) : RowIdAction → Prop
  | .fill _ count _ => count ≤ 2 ^ 40
  | .carve _ _ count _ => count ≤ 2 ^ 40
  | .admitExplicit oid id _ => ∀ row, s.page oid = some row → id < row.nextId →
      row.keyOrder = .unordered → s.loggedRow s.log oid = some row
  | .crash lost survivor => ∀ oid, s.handed oid ≤ lsnOf oid (s.log.drop lost) ∨
      s.handed oid ≤ (s.image oid (survivor oid)).1
  | _ => True

-- Steps

/-- What holds between steps. -/
structure Sound (s : RowIdState) : Prop where
  durable : Durable s
  owned : Owned s

namespace Sound

variable {s s' : RowIdState} {oid : Oid} {row row' : SysTableRow} {outcome : PersistOutcome}
    {ids : List Nat} {id count : Nat}

theorem persist (h : Sound s) (hrow : s.page oid = some row) (hcovers : row'.Covers row)
    (hvalid : ValidMark row') {answer : StatusOr Unit}
    (hpersist : s.persist oid row' outcome = (s', answer)) :
    Sound s' ∧ s'.taken = s.taken ∧
      (answer = .ok () → s'.page oid = some row' ∧ s'.loggedRow s'.log oid = some row') := by
  have hsame : s'.issued = s.issued ∧ s'.taken = s.taken ∧ s'.leases = s.leases ∧
      s'.grants = s.grants := by
    cases outcome <;> obtain ⟨rfl, -⟩ := Prod.mk.inj hpersist <;> exact ⟨rfl, rfl, rfl, rfl⟩
  obtain ⟨hissued, htaken, hleases, hgrants⟩ := hsame
  have howned : Owned s' := h.owned.congr hissued (fun o id hid => htaken ▸ hid) hleases hgrants
  refine ⟨⟨?_, howned⟩, htaken, fun hok => ?_⟩
  · cases outcome with
    | overwriteFails e =>
      rw [← (Prod.mk.inj hpersist).1]
      exact h.durable
    | appendFails e =>
      rw [← (Prod.mk.inj hpersist).1]
      exact h.durable.pageOnly hrow hcovers hvalid
    | stampFails e =>
      rw [← (Prod.mk.inj hpersist).1]
      exact h.durable.logged hrow hcovers hvalid
    | done =>
      rw [← (Prod.mk.inj hpersist).1]
      exact h.durable.logged hrow hcovers hvalid
  · subst hok
    cases outcome with
    | overwriteFails e => cases (Prod.mk.inj hpersist).2
    | appendFails e => cases (Prod.mk.inj hpersist).2
    | stampFails e => cases (Prod.mk.inj hpersist).2
    | done =>
      rw [← (Prod.mk.inj hpersist).1]
      exact ⟨Function.update_self .., RowIdState.loggedRow_cons_self ..⟩

theorem hand (h : Sound s) (hrow : s.page oid = some row)
    (hlogged : s.loggedRow s.log oid = some row) (hbelow : ∀ id ∈ ids, id < row.nextId) :
    Sound (s.hand oid ids) := by
  refine ⟨h.durable.hand hrow hlogged hbelow, h.owned.congr rfl (fun o id hid => ?_) rfl rfl⟩
  show id ∈ Function.update s.taken oid (ids ++ s.taken oid) o
  by_cases ho : o = oid
  · subst ho
    rw [Function.update_self]
    exact mem_append_right _ hid
  · rw [Function.update_of_ne ho]
    exact hid

theorem free_hand (h : Sound s) (hid : id ∈ ids) (hfresh : id ∉ s.taken oid)
    (hspell : kFirstRowId ≤ id ∧ id ≤ kMaxKeystoneId) : Free (s.hand oid ids) oid id := by
  obtain ⟨hissued, hleased, hgranted⟩ := h.owned.not_owned hfresh
  refine ⟨?_, hissued, hspell, hleased, hgranted⟩
  show id ∈ Function.update s.taken oid (ids ++ s.taken oid) oid
  rw [Function.update_self]
  exact mem_append_left _ hid

theorem fresh (h : Sound s) (hrow : s.page oid = some row) (hid : row.nextId ≤ id) :
    id ∉ s.taken oid := fun hin =>
  Nat.not_lt.mpr hid ((h.durable.page oid row hrow).2.mark id hin)

theorem issue (h : Sound s) (hnodup : ids.Nodup) (hfree : ∀ id ∈ ids, Free s oid id) :
    Sound (s.issue oid ids) :=
  ⟨h.durable.owners _ s.leases s.grants, h.owned.issue hnodup hfree⟩

theorem allocateRowIdRange (h : Sound s) (hcount : count ≤ 2 ^ 40) {answer : StatusOr Nat}
    (hrange : s.allocateRowIdRange oid count outcome = (s', answer)) :
    Sound s' ∧ ∀ first, answer = .ok first → ∀ id ∈ List.range' first count, Free s' oid id := by
  rw [RowIdState.allocateRowIdRange] at hrange
  split_ifs at hrange with hzero
  · cases hrange
    exact ⟨h, fun first hok => by cases hok⟩
  cases hrow : s.page oid with
  | none =>
    rw [hrow] at hrange
    cases hrange
    exact ⟨h, fun first hok => by cases hok⟩
  | some row =>
    rw [hrow] at hrange
    dsimp only at hrange
    obtain ⟨hvalid, -⟩ := h.durable.page oid row hrow
    split at hrange
    · cases hrange
      exact ⟨h, fun first hok => by cases hok⟩
    · next first row' htake =>
      obtain ⟨rfl, htop, hnext, hcovers⟩ :=
        takeRowIdRange_spec (Nat.pos_of_ne_zero hzero) hcount hvalid.2 htake
      have hvalid' : ValidMark row' := by
        refine ⟨Nat.le_trans hvalid.1 hcovers.mark, ?_⟩
        rw [hnext]
        exact htop
      split at hrange
      · next s₁ e hpersist =>
        cases hrange
        exact ⟨(h.persist hrow hcovers hvalid' hpersist).1, fun first hok => by cases hok⟩
      · next s₁ u hpersist =>
        cases hrange
        obtain ⟨hsound, htaken, hdone⟩ := h.persist hrow hcovers hvalid' hpersist
        obtain ⟨hrow', hlogged⟩ := hdone rfl
        refine ⟨hsound.hand hrow' hlogged fun id hid => ?_, fun first hok id hid => ?_⟩
        · have hlt := (mem_range'_1.mp hid).2
          rw [hnext]
          exact hlt
        · rw [← Except.ok.inj hok] at hid
          obtain ⟨hge, hlt⟩ := mem_range'_1.mp hid
          apply hsound.free_hand hid
          · rw [htaken]
            exact h.fresh hrow hge
          · exact ⟨Nat.le_trans hvalid.1 hge, by omega⟩

theorem allocateRowId (h : Sound s) : Sound (s.allocateRowId oid outcome).1 := by
  rw [RowIdState.allocateRowId]
  cases hrow : s.page oid with
  | none => exact h
  | some row =>
    dsimp only
    obtain ⟨hvalid, -⟩ := h.durable.page oid row hrow
    split
    · exact h
    · next id row' htake =>
      obtain ⟨rfl, htop, hnext, hcovers⟩ := takeRowId_spec htake
      have hvalid' : ValidMark row' := by
        refine ⟨Nat.le_trans hvalid.1 hcovers.mark, ?_⟩
        rw [hnext]
        exact Nat.succ_le_succ htop
      split
      · next s₁ e hpersist => exact (h.persist hrow hcovers hvalid' hpersist).1
      · next s₁ u hpersist =>
        obtain ⟨hsound, htaken, hdone⟩ := h.persist hrow hcovers hvalid' hpersist
        obtain ⟨hrow', hlogged⟩ := hdone rfl
        have hhand : Sound (s₁.hand oid [row.nextId]) := by
          apply hsound.hand hrow' hlogged
          intro id hid
          rw [mem_singleton.mp hid, hnext]
          exact Nat.lt_succ_self _
        apply hhand.issue (nodup_singleton _)
        intro id hid
        apply hsound.free_hand hid
        · rw [mem_singleton.mp hid, htaken]
          exact h.fresh hrow (Nat.le_refl _)
        · rw [mem_singleton.mp hid]
          exact ⟨hvalid.1, htop⟩

/-- **`AdmitExplicitRowId`**, where an id below the mark of an unordered relation finds the row in
    the log. -/
theorem admitExplicitRowId (h : Sound s)
    (hkept : ∀ row, s.page oid = some row → id < row.nextId → row.keyOrder = .unordered →
      s.loggedRow s.log oid = some row) : Sound (s.admitExplicitRowId oid id outcome).1 := by
  rw [RowIdState.admitExplicitRowId]
  split
  · exact h
  next hspell =>
  have hbounds : kFirstRowId ≤ id ∧ id ≤ kMaxKeystoneId := checkSpellable_ok hspell
  cases hrow : s.page oid with
  | none => exact h
  | some row =>
    dsimp only
    obtain ⟨hvalid, -⟩ := h.durable.page oid row hrow
    -- an id below the mark, on a row that is flagged and logged
    have hnote : ∀ {t : RowIdState} {r : SysTableRow}, Sound t → t.page oid = some r →
        t.loggedRow t.log oid = some r → r.keyOrder = .unordered →
        Sound ((t.hand oid []).noteBelow oid id) := by
      intro t r ht hr hlogged hflag
      refine ⟨ht.durable.noteBelow hr hlogged hflag id, ?_⟩
      exact (ht.hand hr hlogged fun _ hin => by cases hin).owned.congr rfl (fun _ _ hin => hin)
        rfl rfl
    cases hadmit : admitRowId oid row id with
    | error e => exact h
    | ok admission =>
      rcases admitRowId_spec hadmit with
        ⟨hlt, hflag, rfl⟩ | ⟨hlt, rfl⟩ | ⟨hge, rfl⟩
      · dsimp only
        rw [if_pos hlt]
        exact hnote h hrow (hkept row hrow hlt hflag) hflag
      · dsimp only
        have hcovers : SysTableRow.Covers { row with keyOrder := .unordered } row :=
          ⟨Nat.le_refl _, fun _ => rfl⟩
        split
        · next s₁ e hpersist => exact (h.persist hrow hcovers hvalid hpersist).1
        · next s₁ u hpersist =>
          obtain ⟨hsound, -, hdone⟩ := h.persist hrow hcovers hvalid hpersist
          obtain ⟨hrow', hlogged⟩ := hdone rfl
          rw [if_pos hlt]
          exact hnote hsound hrow' hlogged rfl
      · dsimp only
        have hcovers : SysTableRow.Covers { row with nextId := id + 1 } row :=
          ⟨Nat.le_succ_of_le hge, fun hflag => hflag⟩
        have hvalid' : ValidMark { row with nextId := id + 1 } :=
          ⟨Nat.le_succ_of_le hbounds.1, Nat.succ_le_succ hbounds.2⟩
        split
        · next s₁ e hpersist => exact (h.persist hrow hcovers hvalid' hpersist).1
        · next s₁ u hpersist =>
          obtain ⟨hsound, -, hdone⟩ := h.persist hrow hcovers hvalid' hpersist
          obtain ⟨hrow', hlogged⟩ := hdone rfl
          rw [if_neg (Nat.not_lt.mpr hge)]
          apply hsound.hand hrow' hlogged
          intro other hother
          rw [mem_singleton.mp hother]
          exact Nat.lt_succ_self id

theorem sortedFill (h : Sound s) (hcount : count ≤ 2 ^ 40) :
    Sound (s.sortedFill oid count outcome) := by
  rw [RowIdState.sortedFill]
  split
  · next s₁ e hrange => exact (h.allocateRowIdRange hcount hrange).1
  · next s₁ first hrange =>
    obtain ⟨hsound, hfree⟩ := h.allocateRowIdRange hcount hrange
    exact hsound.issue nodup_range' (hfree first rfl)

theorem carveForPeer (h : Sound s) {core : Nat} (hcount : count ≤ 2 ^ 40) :
    Sound (s.carveForPeer core oid count outcome) := by
  have hasked : RowIdState.requestCount count ≤ 2 ^ 40 := by
    rw [RowIdState.requestCount, kRowIdLeasePerGrant]
    split_ifs <;> omega
  rw [RowIdState.carveForPeer]
  split
  · next s₁ e hrange =>
    have hsound := (h.allocateRowIdRange hasked hrange).1
    refine ⟨hsound.durable.owners _ _ _, hsound.owned.send fun o id hid => ?_⟩
    exact absurd hid.2.2 (Nat.not_lt_zero id)
  · next s₁ first hrange =>
    obtain ⟨hsound, hfree⟩ := h.allocateRowIdRange hasked hrange
    refine ⟨hsound.durable.owners _ _ _, hsound.owned.send fun o id hid => ?_⟩
    obtain ⟨rfl, hin⟩ := hid
    exact hfree first rfl id (mem_range'_1.mpr hin)

theorem nextLeased (h : Sound s) {core : Nat} : Sound (s.nextLeased core oid) := by
  rw [RowIdState.nextLeased]
  split
  · next lease e htake =>
    refine ⟨h.durable.owners _ _ _, h.owned.setLease fun id hid => .inl ?_⟩
    exact (RowIdLease.holds_take_error htake id).mp hid
  · next lease id htake =>
    obtain ⟨hheld, hleft⟩ := RowIdLease.holds_take htake
    have hset : Sound (s.setLease core oid lease) :=
      ⟨h.durable.owners _ _ _, h.owned.setLease fun other hother =>
        .inl ((hleft other).mp hother).1⟩
    apply hset.issue (nodup_singleton id)
    intro other hother
    rw [mem_singleton.mp hother]
    obtain ⟨htaken, hissued, hspell⟩ := h.owned.leased core oid id hheld
    refine ⟨htaken, hissued, hspell, fun core' hid => ?_, fun grant hgrant hid => ?_⟩
    · rw [Owned.leaseOf_setLease] at hid
      split_ifs at hid with hhere
      · exact ((hleft id).mp hid).2 rfl
      · exact hhere ⟨h.owned.apart core' core oid id hid hheld, rfl⟩
    · exact (h.owned.granted grant hgrant oid id hid).2.2.2 core hheld

theorem receiveGrant (h : Sound s) {i : Nat} {grant : RowIdGrant}
    (hget : s.grants[i]? = some grant) :
    Sound (({ s with grants := s.grants.eraseIdx i } : RowIdState).receiveGrant grant) := by
  obtain ⟨howned, hfree⟩ := h.owned.arrive hget
  have hsound : Sound { s with grants := s.grants.eraseIdx i } := ⟨h.durable.owners _ _ _, howned⟩
  rw [RowIdState.receiveGrant]
  split_ifs with hzero
  · split
    · exact hsound
    · next lease hlease =>
      refine ⟨hsound.durable.owners _ _ _, howned.setLease fun id hid => .inl ?_⟩
      rw [RowIdState.leaseOf, hlease]
      exact hid
  · refine ⟨hsound.durable.owners _ _ _, howned.setLease fun id hid => ?_⟩
    exact (RowIdLease.holds_grant hid).imp_right fun hin => hfree id ⟨rfl, hin⟩

/-- Every step keeps the marks durable and every id with its owner. -/
theorem step (h : Sound s) (action : RowIdAction) (hkeeps : Keeps s action)
    (hstep : s.step action = some s') : Sound s' := by
  cases action with
  | allocate oid outcome =>
    cases hstep
    exact h.allocateRowId
  | fill oid count outcome =>
    cases hstep
    exact h.sortedFill hkeeps
  | carve core oid count outcome =>
    cases hstep
    exact h.carveForPeer hkeeps
  | deliver i =>
    obtain ⟨grant, hget, rfl⟩ := Option.map_eq_some_iff.mp hstep
    exact h.receiveGrant hget
  | next core oid =>
    cases hstep
    exact h.nextLeased
  | admitExplicit oid id outcome =>
    cases hstep
    exact h.admitExplicitRowId hkeeps
  | sync =>
    cases hstep
    exact ⟨h.durable.sync, h.owned.congr rfl (fun _ _ hid => hid) rfl rfl⟩
  | writeBack oid =>
    cases hrow : s.page oid with
    | none =>
      rw [RowIdState.step, hrow] at hstep
      cases hstep
    | some row =>
      rw [RowIdState.step, hrow] at hstep
      split_ifs at hstep with hsync
      cases hstep
      exact ⟨h.durable.writeBack hrow hsync, h.owned.congr rfl (fun _ _ hid => hid) rfl rfl⟩
  | crash lost survivor =>
    rw [RowIdState.step] at hstep
    split_ifs at hstep with hkept
    cases hstep
    exact ⟨h.durable.crash hkept hkeeps, h.owned.crash lost survivor⟩

theorem start (tables : FreshTables) : Sound tables.start := by
  have hsafe : ∀ row, SafeRow [] [] row := fun row =>
    ⟨fun _ hid => absurd hid not_mem_nil, fun hne => absurd rfl hne⟩
  have hheld : ∀ core oid id, ¬ (tables.start.leaseOf core oid).Holds id :=
    fun core oid id hid => absurd hid.2 (Nat.not_lt_zero id)
  have hrecords : ∀ n oid, lastRecord oid (([] : CatalogLog).drop n) = none := fun n oid => by
    rw [drop_nil]
    rfl
  constructor
  · exact {
      page := fun oid row hrow => ⟨tables.marks oid row hrow, hsafe row⟩
      records := fun n oid lsn row hlast => by
        cases (hrecords n oid).symm.trans hlast
      base := fun oid row hrow => ⟨tables.marks oid row hrow, fun _ => hsafe row⟩
      images := fun _ _ _ himg => absurd himg not_mem_nil
      imageSynced := fun _ _ _ himg => absurd himg not_mem_nil
      imageLogged := fun _ _ _ himg => absurd himg not_mem_nil
      imageCovers := fun _ _ _ himg => absurd himg not_mem_nil
      pageCovers := fun oid row logged hrow hlog => by
        rw [Option.some.inj ((show tables.rows oid = some row from hrow).symm.trans hlog)]
        exact SysTableRow.Covers.refl logged
      handed := fun _ => Nat.le_refl 0
      synced := Nat.le_refl 0 }
  · exact {
      once := fun _ => nodup_nil
      issued := fun _ _ hid => absurd hid not_mem_nil
      leased := fun core oid id hid => absurd hid (hheld core oid id)
      apart := fun core _ oid id hid => absurd hid (hheld core oid id)
      granted := fun _ hgrant => absurd hgrant not_mem_nil
      grantsApart := List.Pairwise.nil }

theorem apart (h : Sound s) : RowIdsApart s where
  once := h.owned.once
  spelled := fun oid id hid => (h.owned.issued oid id hid).2
  issuedTaken := fun oid id hid => (h.owned.issued oid id hid).1
  mark := fun oid row hrow => (h.durable.page oid row hrow).2.mark
  flag := fun oid row hrow => (h.durable.page oid row hrow).2.flag
  bound := fun oid row hrow => (h.durable.page oid row hrow).1.2

end Sound

-- Runs

/-- **Row ids are never reissued**, in every run whose steps meet the condition. -/
theorem row_ids_never_reissued (tables : FreshTables) {s : RowIdState}
    (hreach : Reach RowIdState.step Keeps tables.start s) : RowIdsApart s := by
  have hsound : Sound s :=
    hreach.invariant (Sound.start tables) fun action h hkeeps hstep => h.step action hkeeps hstep
  exact hsound.apart

/-- One table, oid 7, that has issued nothing. -/
def oneTable : FreshTables where
  rows oid := if oid = 7 then some { nextId := kFirstRowId, clusteredType := .btree } else none
  marks := by
    intro oid row hrow
    split_ifs at hrow
    cases hrow
    decide

/-- Peer 1 is granted ids 1 to 4096 and issues id 1; the record of the carve is lost, and core 0
    issues id 1. -/
def grantThenCrash : List RowIdAction :=
  [.carve 1 7 0 .done, .deliver 0, .next 1 7, .crash 1 fun _ => 0, .allocate 7 .done]

/-- Without the condition an id is issued twice. -/
theorem id_reissued_after_crash :
    ∃ s, Reach RowIdState.step (fun _ _ => True) oneTable.start s ∧ s.issued 7 = [1, 1] ∧
      ¬ RowIdsApart s := by
  obtain ⟨s, hreach, htwice⟩ := @exists_reach_of_runList _ _ RowIdState.step (fun _ _ => True)
    (fun _ _ => true) (fun _ _ _ => trivial) grantThenCrash oneTable.start
    (fun s => decide (s.issued 7 = [1, 1])) (by decide +kernel)
  have hissued : s.issued 7 = [1, 1] := of_decide_eq_true htwice
  refine ⟨s, hreach, hissued, fun hapart => ?_⟩
  have honce := hapart.once 7
  rw [hissued] at honce
  exact absurd honce (by decide)

/-- A check that implies the condition, of steps other than crashes. -/
def keepsHere (s : RowIdState) : RowIdAction → Bool
  | .fill _ count _ => decide (count ≤ 2 ^ 40)
  | .carve _ _ count _ => decide (count ≤ 2 ^ 40)
  | .admitExplicit oid _ _ => s.page oid |>.all fun row => decide (row.keyOrder = .ascending)
  | .crash .. => false
  | _ => true

theorem keepsHere_sound (s : RowIdState) (action : RowIdAction) (h : keepsHere s action = true) :
    Keeps s action := by
  cases action with
  | fill oid count outcome => exact @of_decide_eq_true (count ≤ 2 ^ 40) _ h
  | carve core oid count outcome => exact @of_decide_eq_true (count ≤ 2 ^ 40) _ h
  | admitExplicit oid id outcome =>
    intro row hrow _ hflag
    rw [keepsHere, hrow, Option.all_some, decide_eq_true_eq, hflag] at h
    cases h
  | crash lost survivor => cases h
  | _ => trivial

/-- A run that meets the condition: the log is synced before the grant goes out. -/
def grantThenSync : List RowIdAction :=
  [.carve 1 7 0 .done, .sync, .deliver 0, .next 1 7, .admitExplicit 7 4097 .done, .sync,
    .allocate 7 (.appendFails (.outOfSpace "wal full")), .writeBack 7, .allocate 7 .done]

theorem row_ids_never_reissued_grantThenSync :
    ∃ s, Reach RowIdState.step Keeps oneTable.start s ∧ s.issued 7 = [4099, 1] ∧
      RowIdsApart s := by
  obtain ⟨s, hreach, hissued⟩ := @exists_reach_of_runList _ _ RowIdState.step Keeps
    keepsHere keepsHere_sound grantThenSync oneTable.start
    (fun s => decide (s.issued 7 = [4099, 1])) (by decide +kernel)
  exact ⟨s, hreach, of_decide_eq_true hissued, row_ids_never_reissued oneTable hreach⟩

end Kds.Catalog
