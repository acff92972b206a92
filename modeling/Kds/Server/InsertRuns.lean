/-
  Kds.Server.InsertRuns

  What a failed INSERT leaves once its transaction has been rolled back.

  A rollback puts back what the trail names, and a row is in the trail only after the index
  entries, the assertion reservations and the undo record of its insertion: a row whose insertion
  stops at one of those is not taken back, and as soon as its writer has ended every new view sees
  it.  `failed_insert_leaves_no_row_iff` says that these are the only rows left behind.
-/

import Kds.Server.InsertPaths
import Mathlib.Data.List.Nodup

namespace Kds.Server

open Exec Lib Txn List TransactionManager

-- The property

namespace InsertState

/-- Some view that is open, or that could be minted now, reads a version of the row by `t`. -/
def Seen (s : InsertState) (t oid pk : Nat) : Prop :=
  ∃ view, ((∃ own, s.manager.mintReadView own = .ok view) ∨
      ∃ txn ∈ s.manager.live, view = txn.view) ∧
    ∃ v, readRow view (s.rows oid pk) = some v ∧ v.trxId = t

/-- Any run. -/
abbrev Runs : InsertState → InsertState → Prop := Reach InsertState.step fun _ _ => True

/-- Whenever `t` is rolled back after `s`, nobody ever sees the rows `pks` by `t`. -/
def LeavesNoRow (s : InsertState) (t oid : Nat) (pks : List Nat) : Prop :=
  ∀ before after later, Runs s before → before.step (.rollback t) = some after →
    Runs after later → ∀ pk ∈ pks, ¬ later.Seen t oid pk

end InsertState

/-- The first step of a row loop that refuses, `taken` being the keys the relation has. -/
def failingStep (taken : Nat → Bool) : List InsertRow → Option InsertStep
  | [] => none
  | row :: rest =>
    match InsertStep.order.find? fun step => (row.answer taken step).isSome with
    | some step => some step
    | none => failingStep (fun pk => pk == row.pk || taken pk) rest

/-- **The condition**: the step that refuses is not one between the placement of a tuple and its
    entry in the trail; of a fill, the batch fails with no row placed, if at all, and every undo
    record is written. -/
def TrailReached (s : InsertState) (stmt : InsertStatement) : Bool :=
  if stmt.fills then
    (InsertState.fillRefused stmt).isSome ||
      match stmt.chainAppendBatch with
      | some (n, _) => (stmt.rows.take n).isEmpty
      | none => stmt.rows.all fun row => (row.answers .appendUndo).isNone
  else
    match failingStep (s.taken stmt.oid) stmt.rows with
    | some step => !InsertStep.beforeTrail.contains step
    | none => true

-- The invariant

open InsertState

/-- Ids in order and each once, and few enough transactions for a view to track. -/
structure ManagerSound (m : TransactionManager) : Prop where
  isolated : m.Isolated
  tracked : m.activeCount ≤ maxTrackedLiveTxns
  distinct : (m.live.map (·.id)).Nodup

/-- **The run invariant**: an entry of a trail is of a transaction in flight, whose version is on
    top of the row. -/
structure InsertInv (s : InsertState) : Prop where
  manager : ManagerSound s.manager
  below : ∀ oid pk, ∀ v ∈ s.rows oid pk, v.trxId < s.manager.nextId
  onTop : ∀ t, ∀ entry ∈ s.trail t, t ∈ s.manager.inFlightIds ∧
    ∃ v older, s.rows entry.oid entry.pk = v :: older ∧ v.trxId = t
  priors : ∀ t, ∀ entry ∈ s.trail t, ∀ v ∈ entry.prior, v.trxId < s.manager.nextId

/-- A row as its insertion by `t` has left it, in the trail or not. -/
structure Held (s : InsertState) (t oid pk : Nat) (noted : Bool) : Prop where
  row : ∃ v, s.rows oid pk = [v] ∧ v.trxId = t ∧ v.deleted = false
  entry : noted = true ↔ ∃ entry ∈ s.trail t, entry.oid = oid ∧ entry.pk = pk
  prior : ∀ entry ∈ s.trail t, entry.oid = oid → entry.pk = pk → entry.prior = []

/-- A row of which nothing by `t` is left, nor can come back. -/
structure Gone (s : InsertState) (t oid pk : Nat) : Prop where
  ended : t ∉ s.manager.inFlightIds
  old : t < s.manager.nextId
  row : ∀ v ∈ s.rows oid pk, v.trxId ≠ t
  priors : ∀ t', ∀ entry ∈ s.trail t', entry.oid = oid → entry.pk = pk →
    ∀ v ∈ entry.prior, v.trxId ≠ t

-- Rows and trails after a change

namespace InsertState

variable {s : InsertState} {t oid pk : Nat} {trail : List TrailRow}

@[simp] theorem setRow_rows_self (versions : List RowVersion) :
    (s.setRow oid pk versions).rows oid pk = versions := by
  simp [setRow]

theorem setRow_rows_of_ne {oid' pk' : Nat} (h : ¬ (oid' = oid ∧ pk' = pk))
    (versions : List RowVersion) : (s.setRow oid pk versions).rows oid' pk' = s.rows oid' pk' := by
  by_cases hoid : oid' = oid
  · subst hoid
    have hpk : pk' ≠ pk := fun hpk => h ⟨rfl, hpk⟩
    simp [setRow, Function.update_of_ne hpk]
  · simp [setRow, Function.update_of_ne hoid]

@[simp] theorem setRow_trail (versions : List RowVersion) :
    (s.setRow oid pk versions).trail = s.trail := rfl

@[simp] theorem setRow_manager (versions : List RowVersion) :
    (s.setRow oid pk versions).manager = s.manager := rfl

@[simp] theorem note_rows (prior : List RowVersion) : (s.note t oid pk prior).rows = s.rows := rfl

@[simp] theorem note_manager (prior : List RowVersion) :
    (s.note t oid pk prior).manager = s.manager := rfl

theorem mem_note_trail {t' : Nat} {prior : List RowVersion} {entry : TrailRow} :
    entry ∈ (s.note t oid pk prior).trail t' ↔
      (t' = t ∧ entry = ⟨oid, pk, prior⟩) ∨ entry ∈ s.trail t' := by
  by_cases h : t' = t
  · subst h
    simp [note]
  · simp [note, h]

/-- What a trail says a row held before its first entry for the row. -/
def oldest (oid pk : Nat) : List TrailRow → Option (List RowVersion)
  | [] => none
  | entry :: older =>
    match oldest oid pk older with
    | some versions => some versions
    | none => if entry.oid = oid ∧ entry.pk = pk then some entry.prior else none

theorem unwindRows_frame (trail : List TrailRow) (s : InsertState) :
    (unwindRows trail s).manager = s.manager ∧ (unwindRows trail s).trail = s.trail ∧
      (unwindRows trail s).failed = s.failed := by
  induction trail generalizing s with
  | nil => exact ⟨rfl, rfl, rfl⟩
  | cons entry older ih =>
    rw [unwindRows]
    exact ih _

theorem unwindRows_rows (trail : List TrailRow) (s : InsertState) (oid pk : Nat) :
    (unwindRows trail s).rows oid pk = (oldest oid pk trail).getD (s.rows oid pk) := by
  induction trail generalizing s with
  | nil => rfl
  | cons entry older ih =>
    rw [unwindRows, ih, oldest]
    cases oldest oid pk older with
    | some versions => rfl
    | none =>
      by_cases hrow : entry.oid = oid ∧ entry.pk = pk
      · obtain ⟨rfl, rfl⟩ := hrow
        simp
      · have hne : ¬ (oid = entry.oid ∧ pk = entry.pk) :=
          fun h => hrow ⟨h.1.symm, h.2.symm⟩
        simp [hrow, setRow_rows_of_ne hne]

theorem oldest_eq_some {versions : List RowVersion} (h : oldest oid pk trail = some versions) :
    ∃ entry ∈ trail, entry.oid = oid ∧ entry.pk = pk ∧ entry.prior = versions := by
  induction trail with
  | nil => cases h
  | cons entry older ih =>
    rw [oldest] at h
    cases holder : oldest oid pk older with
    | some other =>
      rw [holder] at h
      cases h
      obtain ⟨e, he, hrest⟩ := ih holder
      exact ⟨e, mem_cons_of_mem _ he, hrest⟩
    | none =>
      rw [holder] at h
      dsimp only at h
      split_ifs at h with hrow
      exact ⟨entry, mem_cons_self, hrow.1, hrow.2, Option.some.inj h⟩

theorem oldest_eq_none :
    oldest oid pk trail = none ↔ ∀ entry ∈ trail, ¬ (entry.oid = oid ∧ entry.pk = pk) := by
  induction trail with
  | nil => exact iff_of_true rfl fun entry h => absurd h not_mem_nil
  | cons entry older ih =>
    rw [oldest, forall_mem_cons]
    cases holder : oldest oid pk older with
    | some versions =>
      rw [holder] at ih
      simp only [reduceCtorEq, false_iff] at ih ⊢
      exact fun h => ih h.2
    | none =>
      rw [holder] at ih
      simp only [true_iff] at ih
      by_cases hrow : entry.oid = oid ∧ entry.pk = pk
      · simp [hrow]
      · simp only [if_neg hrow, true_iff]
        exact ⟨hrow, ih⟩

end InsertState

-- The manager

theorem ManagerSound.empty : ManagerSound { nextId := alwaysVisibleTrxId + 1 } where
  isolated := ⟨Nat.lt_succ_self _, fun _ ht => absurd ht not_mem_nil,
    fun _ ht => absurd ht not_mem_nil, fun _ ht => absurd ht not_mem_nil,
    fun _ ht => absurd ht not_mem_nil⟩
  tracked := Nat.zero_le _
  distinct := nodup_nil

theorem ManagerSound.begin {m m' : TransactionManager} (h : ManagerSound m)
    {isolation : IsolationLevel} {txn : Transaction}
    (hbegin : m.begin isolation = .ok (m', txn)) : ManagerSound m' := by
  have hisolated := h.isolated.begin hbegin
  have hroom : ¬ maxTrackedLiveTxns ≤ m.activeCount := by
    intro hfull
    rw [TransactionManager.begin, if_pos hfull] at hbegin
    cases hbegin
  obtain ⟨view, -, rfl, rfl⟩ := begin_eq_ok hbegin
  refine ⟨hisolated, ?_, ?_⟩
  · show (m.live ++ [_]).countP Transaction.active ≤ _
    have hcount : m.live.countP Transaction.active < maxTrackedLiveTxns := Nat.lt_of_not_le hroom
    rw [countP_append, countP_singleton]
    exact hcount
  · show ((m.live ++ [_]).map Transaction.id).Nodup
    rw [map_append, nodup_append]
    refine ⟨h.distinct, by simp, ?_⟩
    intro id hid other hother heq
    obtain ⟨old, hold, rfl⟩ := mem_map.mp hid
    have hlt := (h.isolated.ids old hold).2
    rw [map_singleton, mem_singleton] at hother
    rw [heq, hother] at hlt
    exact Nat.lt_irrefl _ hlt

theorem ManagerSound.update {m : TransactionManager} (h : ManagerSound m) {txn txn' : Transaction}
    (htxn : txn ∈ m.live) (hactive : txn.active = true) (hid : txn'.id = txn.id)
    (hview : txn'.view = txn.view ∨ m.mintReadView txn.id = .ok txn'.view) :
    ManagerSound (m.update txn') := by
  refine ⟨h.isolated.update htxn hactive hid hview, Nat.le_trans ?_ h.tracked, ?_⟩
  · show (m.live.map fun t => if t.id = txn'.id then txn' else t).countP Transaction.active ≤ _
    rw [countP_map]
    refine countP_mono_left fun t ht hcount => ?_
    by_cases hsame : t.id = txn'.id
    · have heq : t = txn := inj_on_of_nodup_map h.distinct ht htxn (hsame.trans hid)
      rw [heq]
      exact hactive
    · simpa [hsame] using hcount
  · have hids : (m.update txn').live.map (·.id) = m.live.map (·.id) := by
      rw [TransactionManager.update, map_map]
      refine map_congr_left fun t _ => ?_
      by_cases hsame : t.id = txn'.id
      · simp [hsame]
      · simp [hsame]
    rw [hids]
    exact h.distinct

variable {m : TransactionManager}

theorem ManagerSound.exists_view (h : ManagerSound m) (own : Nat) :
    ∃ view, m.mintReadView own = .ok view := by
  have hfold : ∀ (txns : List Transaction) (view : ReadView),
      view.inFlight.length + txns.length ≤ maxTrackedLiveTxns →
      ∃ view', txns.foldlM (fun view t => view.addInFlight t.id) view = .ok view' := by
    intro txns
    induction txns with
    | nil => exact fun view _ => ⟨view, rfl⟩
    | cons t rest ih =>
      intro view hroom
      rw [length_cons] at hroom
      have hadd : view.addInFlight t.id =
          .ok { view with inFlight := view.inFlight ++ [t.id] } := by
        rw [ReadView.addInFlight, if_neg (by omega)]
      obtain ⟨view', hview'⟩ := ih { view with inFlight := view.inFlight ++ [t.id] }
        (by rw [length_append, length_singleton]; omega)
      exact ⟨view', bind_eq_ok.mpr ⟨_, hadd, hview'⟩⟩
  apply hfold
  have hcount : (m.live.filter fun t => t.active && t.id != own).length ≤ m.activeCount := by
    rw [← countP_eq_length_filter]
    refine countP_mono_left fun t _ ht => ?_
    exact (Bool.and_eq_true _ _ ▸ ht).1
  have htracked := h.tracked
  show 0 + _ ≤ _
  omega

variable {txn : Transaction}

theorem inFlight_of_find {t : Nat}
    (hfind : m.find t = some txn) (hactive : txn.active = true) : t ∈ m.inFlightIds := by
  obtain ⟨hlive, hid⟩ := find_eq_some hfind
  exact mem_inFlightIds.mpr ⟨txn, hlive, hactive, hid⟩

-- The steps

namespace InsertState

/-- **What a step can do.** -/
inductive Stepped (s : InsertState) : InsertAction → InsertState → Prop
  | begin {isolation m txn} (h : s.manager.begin isolation = .ok (m, txn)) :
      Stepped s (.begin isolation) { s with manager := m }
  | view {t txn txn'} (hfind : s.manager.find t = some txn) (hactive : txn.active = true)
      (hopen : t ∉ s.failed) (hid : txn'.id = txn.id) (hstill : txn'.active = true)
      (hview : txn'.view = txn.view ∨ s.manager.mintReadView txn.id = .ok txn'.view) :
      Stepped s (.startStatement t) { s with manager := s.manager.update txn' }
  | insert {t stmt} (hflight : t ∈ s.manager.inFlightIds) (hopen : t ∉ s.failed)
      (hfresh : stmt.fills = true → s.rangeFresh stmt = true) :
      Stepped s (.insert t stmt) (afterInsert t (s.insertParsed t stmt))
  | overwrite {t oid pk values refused txn} (hfind : s.manager.find t = some txn)
      (hactive : txn.active = true) (hopen : t ∉ s.failed) :
      Stepped s (.overwrite t oid pk values refused) (s.overwriteRow txn oid pk values refused)
  | commit {t txn} (hfind : s.manager.find t = some txn) (hactive : txn.active = true)
      (hopen : t ∉ s.failed) : Stepped s (.commit t) (s.finish txn)
  | rollback {t txn} (hfind : s.manager.find t = some txn) (hactive : txn.active = true) :
      Stepped s (.rollback t) ((unwindRows (s.trail t) s).finish txn)

variable {s : InsertState}

theorem withTxn_eq_some {s' : InsertState} {t : Nat} {evenFailed : Bool}
    {f : Transaction → InsertState} (h : s.withTxn t evenFailed f = some s') :
    ∃ txn, s.manager.find t = some txn ∧ txn.active = true ∧
      (evenFailed = true ∨ t ∉ s.failed) ∧ s' = f txn := by
  rw [withTxn] at h
  cases hfind : s.manager.find t with
  | none => simp [hfind] at h
  | some txn =>
    simp only [hfind] at h
    split_ifs at h with hok
    simp only [Bool.and_eq_true, Bool.or_eq_true, Bool.not_eq_true', contains_eq_mem,
      decide_eq_false_iff_not] at hok
    exact ⟨txn, rfl, hok.1, hok.2, (Option.some.inj h).symm⟩

theorem runInsert_eq_some {t : Nat} {stmt : InsertStatement}
    {out : InsertOutcome} (h : s.runInsert t stmt = some out) :
    t ∈ s.manager.inFlightIds ∧ t ∉ s.failed ∧ (stmt.fills = true → s.rangeFresh stmt = true) ∧
      out = s.insertParsed t stmt := by
  rw [runInsert] at h
  cases hfind : s.manager.find t with
  | none => simp [hfind] at h
  | some txn =>
    simp only [hfind] at h
    split_ifs at h with hok
    simp only [Bool.and_eq_true, Bool.or_eq_true, Bool.not_eq_true', contains_eq_mem,
      decide_eq_false_iff_not] at hok
    refine ⟨inFlight_of_find hfind hok.1.1, hok.1.2, fun hfills => ?_, (Option.some.inj h).symm⟩
    exact hok.2.resolve_left (by simp [hfills])

theorem stepped {s' : InsertState} {a : InsertAction} (h : s.step a = some s') :
    Stepped s a s' := by
  cases a with
  | begin isolation =>
    rw [step] at h
    cases hbegin : s.manager.begin isolation with
    | error e => simp [hbegin, Except.map, Except.toOption] at h
    | ok out =>
      simp only [hbegin, Except.map, Except.toOption, Option.some.injEq] at h
      subst h
      exact @Stepped.begin s isolation out.1 out.2 hbegin
  | startStatement t =>
    rw [step] at h
    cases hfind : s.manager.find t with
    | none => simp [hfind] at h
    | some txn =>
      simp only [hfind] at h
      split_ifs at h with hfailed
      cases hstart : s.manager.startStatement txn with
      | error e => simp [hstart, Except.map, Except.toOption] at h
      | ok txn' =>
        simp only [hstart, Except.map, Except.toOption, Option.some.injEq] at h
        subst h
        have hactive : txn.active = true := by
          by_contra hended
          rw [TransactionManager.startStatement, if_pos (by simpa using hended)] at hstart
          cases hstart
        obtain ⟨view, rfl, hview⟩ := startStatement_eq_ok hstart
        exact .view hfind hactive (by simpa using hfailed) rfl hactive hview
  | insert t stmt =>
    rw [step] at h
    obtain ⟨out, hout, rfl⟩ := Option.map_eq_some_iff.mp h
    obtain ⟨hflight, hopen, hfresh, rfl⟩ := runInsert_eq_some hout
    exact .insert hflight hopen hfresh
  | overwrite t oid pk values refused =>
    obtain ⟨txn, hfind, hactive, hopen, rfl⟩ := withTxn_eq_some h
    exact .overwrite hfind hactive (hopen.resolve_left Bool.false_ne_true)
  | commit t =>
    obtain ⟨txn, hfind, hactive, hopen, rfl⟩ := withTxn_eq_some h
    exact .commit hfind hactive (hopen.resolve_left Bool.false_ne_true)
  | rollback t =>
    obtain ⟨txn, hfind, hactive, -, rfl⟩ := withTxn_eq_some h
    exact .rollback hfind hactive

end InsertState

variable {s : InsertState} {t oid pk : Nat}

-- One tuple placed

variable {entry : TrailRow} {t' oid' id : Nat} {row : InsertRow} {prior : List RowVersion}
    {stmt : InsertStatement} {a : InsertAction} {pk' : Nat}

theorem InsertInv.row_of_entry (h : InsertInv s) {v : RowVersion} {older : List RowVersion}
    (hrow : s.rows oid pk = v :: older) (hv : v.trxId = t) (hentry : entry ∈ s.trail t')
    (hoid : entry.oid = oid) (hpk : entry.pk = pk) : t' = t := by
  obtain ⟨-, top, rest, htop, hwriter⟩ := h.onTop t' entry hentry
  rw [hoid, hpk, hrow] at htop
  obtain ⟨rfl, -⟩ := List.cons.inj htop
  exact hwriter.symm.trans hv

theorem InsertInv.no_entry (h : InsertInv s) (hfree : s.rows oid pk = [])
    (hentry : entry ∈ s.trail t) : ¬ (entry.oid = oid ∧ entry.pk = pk) := by
  rintro ⟨rfl, rfl⟩
  obtain ⟨-, top, rest, htop, -⟩ := h.onTop t entry hentry
  rw [hfree] at htop
  cases htop

theorem InsertInv.place (h : InsertInv s) (ht : t ∈ s.manager.inFlightIds)
    (hfree : s.rows oid row.pk = []) : InsertInv (s.place t oid row) where
  manager := h.manager
  below oid' pk' v hv := by
    rw [InsertState.place] at hv
    by_cases hsame : oid' = oid ∧ pk' = row.pk
    · obtain ⟨rfl, rfl⟩ := hsame
      rw [setRow_rows_self] at hv
      rw [mem_singleton.mp hv]
      exact (h.manager.isolated.inFlight_bounds ht).2
    · rw [setRow_rows_of_ne hsame] at hv
      exact h.below oid' pk' v hv
  onTop t' entry hentry := by
    obtain ⟨hflight, v, older, hrow, hv⟩ := h.onTop t' entry hentry
    refine ⟨hflight, v, older, ?_, hv⟩
    rw [InsertState.place, setRow_rows_of_ne (h.no_entry hfree hentry)]
    exact hrow
  priors := h.priors

theorem InsertInv.note (h : InsertInv s) (ht : t ∈ s.manager.inFlightIds)
    (hprior : ∀ v ∈ prior, v.trxId < s.manager.nextId)
    (htop : ∃ v older, s.rows oid pk = v :: older ∧ v.trxId = t) :
    InsertInv (s.note t oid pk prior) where
  manager := h.manager
  below := h.below
  onTop t' entry hentry := by
    rcases mem_note_trail.mp hentry with ⟨rfl, rfl⟩ | hold
    · exact ⟨ht, htop⟩
    · exact h.onTop t' entry hold
  priors t' entry hentry := by
    rcases mem_note_trail.mp hentry with ⟨rfl, rfl⟩ | hold
    · exact hprior
    · exact h.priors t' entry hold

theorem Held.placed (h : InsertInv s) (hfree : s.rows oid row.pk = []) :
    Held (s.place t oid row) t oid row.pk false where
  row := ⟨_, setRow_rows_self _, rfl, rfl⟩
  entry := by
    refine iff_of_false Bool.false_ne_true ?_
    rintro ⟨entry, hentry, hkey⟩
    exact h.no_entry hfree hentry hkey
  prior entry hentry hoid hpk := absurd ⟨hoid, hpk⟩ (h.no_entry hfree hentry)

theorem Held.noted {noted : Bool} (h : Held s t oid pk noted) :
    Held (s.note t oid pk []) t oid pk true where
  row := h.row
  entry := iff_of_true rfl ⟨_, mem_note_trail.mpr (.inl ⟨rfl, rfl⟩), rfl, rfl⟩
  prior entry hentry hoid hpk := by
    rcases mem_note_trail.mp hentry with ⟨-, rfl⟩ | hold
    · rfl
    · exact h.prior entry hold hoid hpk

theorem Held.place {noted : Bool} (h : Held s t oid pk noted) (hne : ¬ (oid = oid' ∧ pk = row.pk)) :
    Held (s.place t' oid' row) t oid pk noted where
  row := by
    rw [InsertState.place, setRow_rows_of_ne hne]
    exact h.row
  entry := h.entry
  prior := h.prior

theorem Held.note {noted : Bool} (h : Held s t oid pk noted)
    (hne : t' = t → ¬ (oid = oid' ∧ pk = pk')) :
    Held (s.note t' oid' pk' prior) t oid pk noted where
  row := h.row
  entry := by
    rw [h.entry]
    constructor
    · rintro ⟨entry, hentry, hkey⟩
      exact ⟨entry, mem_note_trail.mpr (.inr hentry), hkey⟩
    · rintro ⟨entry, hentry, hoid, hpk⟩
      rcases mem_note_trail.mp hentry with ⟨rfl, rfl⟩ | hold
      · exact absurd ⟨hoid.symm, hpk.symm⟩ (hne rfl)
      · exact ⟨entry, hold, hoid, hpk⟩
  prior entry hentry hoid hpk := by
    rcases mem_note_trail.mp hentry with ⟨rfl, rfl⟩ | hold
    · exact absurd ⟨hoid.symm, hpk.symm⟩ (hne rfl)
    · exact h.prior entry hold hoid hpk

theorem Gone.place (h : Gone s t oid pk) (hne : t' ≠ t) :
    Gone (s.place t' oid' row) t oid pk where
  ended := h.ended
  old := h.old
  row v hv := by
    rw [InsertState.place] at hv
    by_cases hsame : oid = oid' ∧ pk = row.pk
    · obtain ⟨rfl, rfl⟩ := hsame
      rw [setRow_rows_self] at hv
      rw [mem_singleton.mp hv]
      exact hne
    · rw [setRow_rows_of_ne hsame] at hv
      exact h.row v hv
  priors := h.priors

theorem Gone.note (h : Gone s t oid pk)
    (hprior : oid' = oid → pk' = pk → ∀ v ∈ prior, v.trxId ≠ t) :
    Gone (s.note t' oid' pk' prior) t oid pk where
  ended := h.ended
  old := h.old
  row := h.row
  priors t'' entry hentry hoid hpk := by
    rcases mem_note_trail.mp hentry with ⟨rfl, rfl⟩ | hold
    · exact hprior hoid hpk
    · exact h.priors t'' entry hold hoid hpk

-- A statement's rows, one at a time

/-- What the steps of a row's INSERT answer first. -/
def InsertRow.failing (row : InsertRow) (taken : Nat → Bool) : Option InsertStep :=
  InsertStep.order.find? fun step => (row.answer taken step).isSome

theorem InsertRow.free_of_answers
    (h : InsertStep.beforePlacement.findSome? (row.answer (s.taken oid)) = none) :
    s.rows oid row.pk = [] := by
  have hplaced := List.findSome?_eq_none_iff.mp h .insertIntoRelation (by decide)
  by_contra hne
  have htaken : s.taken oid row.pk = true := by
    rw [InsertState.taken, Bool.not_eq_true', isEmpty_eq_false_iff]
    exact hne
  simp [InsertRow.answer, htaken] at hplaced

/-- **One row**: refused with nothing placed, refused with the tuple in its page only, or in the
    trail. -/
theorem insertOneRow_cases (s : InsertState) (t oid : Nat) (row : InsertRow) :
    (∃ e, ∃ step ∈ InsertStep.beforePlacement, row.failing (s.taken oid) = some step ∧
      s.insertOneRow t oid row = { state := s, status := some e }) ∨
    (∃ e, ∃ step ∈ InsertStep.beforeTrail, row.failing (s.taken oid) = some step ∧
      s.rows oid row.pk = [] ∧
      s.insertOneRow t oid row =
        { state := s.place t oid row, placed := [row.pk], status := some e }) ∨
    ∃ status, ((status.isSome = true ∧ ∃ step ∈ InsertStep.afterTrail,
        row.failing (s.taken oid) = some step) ∨
        (status = none ∧ row.failing (s.taken oid) = none)) ∧
      s.rows oid row.pk = [] ∧
      s.insertOneRow t oid row =
        { state := (s.place t oid row).note t oid row.pk [], placed := [row.pk]
          status := status } := by
  rw [InsertRow.failing, InsertStep.order, List.find?_append, List.find?_append]
  cases hbefore : InsertStep.beforePlacement.findSome? (row.answer (s.taken oid)) with
  | some e =>
    obtain ⟨step, hstep, hfind⟩ := find?_of_findSome? hbefore
    refine .inl ⟨e, step, hstep, by rw [hfind]; rfl, ?_⟩
    simp only [InsertState.insertOneRow, hbefore]
  | none =>
    have hfree := InsertRow.free_of_answers hbefore
    rw [find?_of_findSome?_none hbefore]
    cases hwindow : InsertStep.beforeTrail.findSome? (row.answer (s.taken oid)) with
    | some e =>
      obtain ⟨step, hstep, hfind⟩ := find?_of_findSome? hwindow
      refine .inr (.inl ⟨e, step, hstep, by rw [hfind]; rfl, hfree, ?_⟩)
      simp only [InsertState.insertOneRow, hbefore, hwindow]
    | none =>
      rw [find?_of_findSome?_none hwindow]
      refine .inr (.inr ⟨InsertStep.afterTrail.findSome? (row.answer (s.taken oid)), ?_, hfree,
        by simp only [InsertState.insertOneRow, hbefore, hwindow]⟩)
      cases hafter : InsertStep.afterTrail.findSome? (row.answer (s.taken oid)) with
      | some e =>
        obtain ⟨step, hstep, hfind⟩ := find?_of_findSome? hafter
        exact .inl ⟨rfl, step, hstep, hfind⟩
      | none => exact .inr ⟨rfl, find?_of_findSome?_none hafter⟩

theorem InsertInv.insertRow (h : InsertInv s) (ht : t ∈ s.manager.inFlightIds)
    (hfree : s.rows oid row.pk = []) : InsertInv ((s.place t oid row).note t oid row.pk []) := by
  apply (h.place ht hfree).note ht
  · exact fun v hv => absurd hv not_mem_nil
  · exact ⟨_, [], setRow_rows_self _, rfl⟩

theorem taken_place (row : InsertRow) :
    (s.place t oid row).taken oid = fun pk => pk == row.pk || s.taken oid pk := by
  funext pk
  rw [InsertState.taken, InsertState.place]
  by_cases hpk : pk = row.pk
  · subst hpk
    simp
  · rw [setRow_rows_of_ne (fun hsame => hpk hsame.2)]
    simp [InsertState.taken, hpk]

/-- What a statement by `t` does to the rows and trails: the invariant stays, and rows held before
    it stay as they are. -/
structure Inserted (s : InsertState) (t oid : Nat) (out : InsertOutcome) : Prop where
  inv : InsertInv out.state
  manager : out.state.manager = s.manager
  failed : out.state.failed = s.failed
  kept : ∀ {t' oid' pk' noted}, Held s t' oid' pk' noted → Held out.state t' oid' pk' noted
  gone : ∀ {t' oid' pk'}, t' ≠ t → Gone s t' oid' pk' → Gone out.state t' oid' pk'

theorem Held.insertRow {noted : Bool} (h : Held s t oid pk noted)
    (hfree : s.rows oid' row.pk = []) :
    Held ((s.place t' oid' row).note t' oid' row.pk []) t oid pk noted := by
  have hne : ¬ (oid = oid' ∧ pk = row.pk) := by
    rintro ⟨rfl, rfl⟩
    obtain ⟨v, hrow, -⟩ := h.row
    rw [hfree] at hrow
    cases hrow
  exact (h.place hne).note fun _ => hne

/-- **The row loop**: where the step that refuses is none of those between placement and trail,
    every row placed is in the trail; otherwise one is not. -/
theorem insertRows_spec (rows : List InsertRow) (h : InsertInv s)
    (ht : t ∈ s.manager.inFlightIds) :
    Inserted s t oid (InsertState.insertRows t oid rows s) ∧
      ((∀ step, failingStep (s.taken oid) rows = some step →
          step ∉ InsertStep.beforeTrail) →
        ∀ pk ∈ (InsertState.insertRows t oid rows s).placed,
          Held (InsertState.insertRows t oid rows s).state t oid pk true) ∧
      (∀ step ∈ InsertStep.beforeTrail, failingStep (s.taken oid) rows = some step →
        ∃ pk ∈ (InsertState.insertRows t oid rows s).placed,
          Held (InsertState.insertRows t oid rows s).state t oid pk false) := by
  induction rows generalizing s with
  | nil =>
    refine ⟨⟨h, rfl, rfl, fun hheld => hheld, fun _ hgone => hgone⟩, ?_, ?_⟩
    · exact fun _ pk hpk => absurd hpk not_mem_nil
    · intro step _ hstep
      cases hstep
  | cons row rest ih =>
    rw [InsertState.insertRows, failingStep]
    rcases insertOneRow_cases s t oid row with
      ⟨e, step, hstep, hfailing, hone⟩ | ⟨e, step, hstep, hfailing, hfree, hone⟩ |
        ⟨status, hstatus, hfree, hone⟩
    · rw [hone, show InsertStep.order.find? _ = _ from hfailing]
      refine ⟨⟨h, rfl, rfl, fun hheld => hheld, fun _ hgone => hgone⟩, ?_, ?_⟩
      · exact fun _ pk hpk => absurd hpk not_mem_nil
      · intro other hother heq
        cases heq
        exact absurd hstep (by revert hother; cases step <;> decide)
    · rw [hone, show InsertStep.order.find? _ = _ from hfailing]
      have hheld : Held (s.place t oid row) t oid row.pk false := Held.placed h hfree
      refine ⟨⟨h.place ht hfree, rfl, rfl, fun hold => ?_, fun hne hgone => hgone.place
        (Ne.symm hne)⟩, ?_, ?_⟩
      · apply hold.place
        rintro ⟨rfl, rfl⟩
        obtain ⟨v, hrow, -⟩ := hold.row
        rw [hfree] at hrow
        cases hrow
      · exact fun hclear => absurd hstep (hclear step rfl)
      · exact fun _ _ _ => ⟨row.pk, mem_cons_self, hheld⟩
    · have hinv := h.insertRow ht hfree
      have hheld : Held ((s.place t oid row).note t oid row.pk []) t oid row.pk true :=
        (Held.placed h hfree).noted
      have hgone : ∀ {t' oid' pk'}, t' ≠ t → Gone s t' oid' pk' →
          Gone ((s.place t oid row).note t oid row.pk []) t' oid' pk' := fun hne hold =>
        (hold.place (Ne.symm hne)).note fun _ _ v hv => absurd hv not_mem_nil
      rw [hone]
      rcases hstatus with ⟨hsome, step, hstep, hfailing⟩ | ⟨rfl, hfailing⟩
      · rw [show InsertStep.order.find? _ = _ from hfailing]
        obtain ⟨e, rfl⟩ := Option.isSome_iff_exists.mp hsome
        refine ⟨⟨hinv, rfl, rfl, fun hold => hold.insertRow hfree, hgone⟩, ?_, ?_⟩
        · intro _ pk hpk
          rw [mem_singleton.mp hpk]
          exact hheld
        · intro other hother heq
          cases heq
          exact absurd hstep (by revert hother; cases step <;> decide)
      · rw [show InsertStep.order.find? _ = _ from hfailing]
        have htaken : ((s.place t oid row).note t oid row.pk []).taken oid =
            fun pk => pk == row.pk || s.taken oid pk := taken_place row
        obtain ⟨hlater, hclear, hlost⟩ := ih hinv ht
        rw [htaken] at hclear hlost
        refine ⟨⟨hlater.inv, hlater.manager, hlater.failed,
          fun hold => hlater.kept (hold.insertRow hfree),
          fun hne hold => hlater.gone hne (hgone hne hold)⟩, ?_, ?_⟩
        · intro hsteps pk hpk
          rcases mem_append.mp hpk with hfirst | hrest
          · rw [mem_singleton.mp hfirst]
            exact hlater.kept hheld
          · exact hclear hsteps pk hrest
        · intro step hstep heq
          obtain ⟨pk, hpk, hfalse⟩ := hlost step hstep heq
          exact ⟨pk, mem_append_right _ hpk, hfalse⟩

-- The sorted fill

theorem placeRows_spec (rows : List InsertRow) (h : InsertInv s)
    (ht : t ∈ s.manager.inFlightIds) (hfree : ∀ row ∈ rows, s.rows oid row.pk = [])
    (hnodup : (rows.map (·.pk)).Nodup) (placed : List Nat) (status : Option Status) :
    Inserted s t oid
        { state := rows.foldl (fun s row => s.place t oid row) s, placed := placed
          status := status } ∧
      ∀ row ∈ rows, Held (rows.foldl (fun s row => s.place t oid row) s) t oid row.pk false := by
  induction rows generalizing s with
  | nil =>
    exact ⟨⟨h, rfl, rfl, fun hheld => hheld, fun _ hgone => hgone⟩,
      fun row hrow => absurd hrow not_mem_nil⟩
  | cons row rest ih =>
    obtain ⟨hnew, hrest⟩ := nodup_cons.mp hnodup
    have hrow := hfree row mem_cons_self
    have hfree' : ∀ other ∈ rest, (s.place t oid row).rows oid other.pk = [] := by
      intro other hother
      have hne : ¬ (oid = oid ∧ other.pk = row.pk) := fun hsame =>
        hnew (mem_map.mpr ⟨other, hother, hsame.2⟩)
      rw [InsertState.place, setRow_rows_of_ne hne]
      exact hfree other (mem_cons_of_mem row hother)
    obtain ⟨hlater, hheld⟩ := ih (h.place ht hrow) ht hfree' hrest
    refine ⟨⟨hlater.inv, hlater.manager, hlater.failed, fun hold => ?_, fun hne hgone =>
      hlater.gone hne (hgone.place (Ne.symm hne))⟩, ?_⟩
    · apply hlater.kept
      apply hold.place
      rintro ⟨rfl, rfl⟩
      obtain ⟨v, hv, -⟩ := hold.row
      rw [hrow] at hv
      cases hv
    · intro other hother
      rcases mem_cons.mp hother with rfl | hmem
      · exact hlater.kept (Held.placed h hrow)
      · exact hheld other hmem

theorem noteRows_spec (rows : List InsertRow) (h : InsertInv s)
    (ht : t ∈ s.manager.inFlightIds) (hheld : ∀ row ∈ rows, Held s t oid row.pk false)
    (hnodup : (rows.map (·.pk)).Nodup) :
    InsertInv (InsertState.noteRows t oid rows s).1 ∧
      (InsertState.noteRows t oid rows s).1.manager = s.manager ∧
      (InsertState.noteRows t oid rows s).1.failed = s.failed ∧
      (∀ {t' oid' pk' noted}, (∀ row ∈ rows, ¬ (oid' = oid ∧ pk' = row.pk)) →
        Held s t' oid' pk' noted → Held (InsertState.noteRows t oid rows s).1 t' oid' pk' noted) ∧
      (∀ {t' oid' pk'}, t' ≠ t → Gone s t' oid' pk' →
        Gone (InsertState.noteRows t oid rows s).1 t' oid' pk') ∧
      ((rows.all fun row => (row.answers .appendUndo).isNone) = true →
        ∀ row ∈ rows, Held (InsertState.noteRows t oid rows s).1 t oid row.pk true) ∧
      ((rows.all fun row => (row.answers .appendUndo).isNone) = false →
        ∃ row ∈ rows, Held (InsertState.noteRows t oid rows s).1 t oid row.pk false) := by
  induction rows generalizing s with
  | nil =>
    refine ⟨h, rfl, rfl, fun _ hold => hold, fun _ hgone => hgone, ?_, ?_⟩
    · exact fun _ row hrow => absurd hrow not_mem_nil
    · exact fun hall => absurd hall (by decide)
  | cons row rest ih =>
    obtain ⟨hnew, hrest⟩ := nodup_cons.mp hnodup
    have hrow := hheld row mem_cons_self
    rw [InsertState.noteRows, all_cons]
    cases hundo : row.answers .appendUndo with
    | some e =>
      refine ⟨h, rfl, rfl, fun _ hold => hold, fun _ hgone => hgone, ?_, ?_⟩
      · exact fun hall => absurd hall (by simp)
      · exact fun _ => ⟨row, mem_cons_self, hrow⟩
    | none =>
      have hne : ∀ other ∈ rest, ¬ (oid = oid ∧ other.pk = row.pk) := fun other hother hsame =>
        hnew (mem_map.mpr ⟨other, hother, hsame.2⟩)
      obtain ⟨v, hv, hwriter, -⟩ := hrow.row
      have hinv : InsertInv (s.note t oid row.pk []) :=
        h.note ht (fun v hv => absurd hv not_mem_nil) ⟨v, [], hv, hwriter⟩
      obtain ⟨h₁, h₂, h₃, hkept, hgone, hall, hsome⟩ :=
        ih hinv ht (fun other hother =>
          (hheld other (mem_cons_of_mem row hother)).note fun _ => hne other hother) hrest
      refine ⟨h₁, h₂, h₃, fun hother hold => ?_, fun hdiff hold => ?_, fun hnone => ?_,
        fun hnone => ?_⟩
      · apply hkept fun other hmem => hother other (mem_cons_of_mem row hmem)
        exact hold.note fun _ => hother row mem_cons_self
      · exact hgone hdiff (hold.note fun _ _ v hv => absurd hv not_mem_nil)
      · intro other hother
        rcases mem_cons.mp hother with rfl | hmem
        · apply hkept (fun later hlater hsame =>
            hne later hlater ⟨rfl, hsame.2.symm⟩) hrow.noted
        · exact hall (by simpa using hnone) other hmem
      · obtain ⟨other, hmem, hfalse⟩ := hsome (by simpa using hnone)
        exact ⟨other, mem_cons_of_mem row hmem, hfalse⟩

theorem sortedFill_spec (h : InsertInv s) (ht : t ∈ s.manager.inFlightIds)
    (hfresh : s.rangeFresh stmt = true) (hfills : stmt.fills = true) :
    Inserted s t stmt.oid (s.sortedFill t stmt) ∧
      (TrailReached s stmt = true → ∀ pk ∈ (s.sortedFill t stmt).placed,
        Held (s.sortedFill t stmt).state t stmt.oid pk true) ∧
      (TrailReached s stmt = false → ∃ pk ∈ (s.sortedFill t stmt).placed,
        Held (s.sortedFill t stmt).state t stmt.oid pk false) := by
  rw [InsertState.rangeFresh, Bool.and_eq_true, decide_eq_true_eq, all_eq_true] at hfresh
  obtain ⟨hnodup, hnew⟩ := hfresh
  have hfree : ∀ row ∈ stmt.rows, s.rows stmt.oid row.pk = [] := by
    intro row hrow
    simpa [InsertState.taken] using hnew row hrow
  rw [TrailReached, if_pos hfills, InsertState.sortedFill]
  cases hrefused : InsertState.fillRefused stmt with
  | some e =>
    refine ⟨⟨h, rfl, rfl, fun hold => hold, fun _ hgone => hgone⟩, ?_, ?_⟩
    · exact fun _ pk hpk => absurd hpk not_mem_nil
    · exact fun hfalse => absurd hfalse (by simp)
  | none =>
    simp only [Option.isSome_none, Bool.false_or]
    cases hbatch : stmt.chainAppendBatch with
    | some cut =>
      obtain ⟨n, e⟩ := cut
      have hsub : ∀ row ∈ stmt.rows.take n, row ∈ stmt.rows := fun row hrow =>
        mem_of_mem_take hrow
      obtain ⟨hinserted, hheld⟩ := placeRows_spec (stmt.rows.take n) h ht
        (fun row hrow => hfree row (hsub row hrow))
        (hnodup.sublist ((take_sublist n stmt.rows).map _))
        ((stmt.rows.take n).map (·.pk)) (some e)
      refine ⟨hinserted, fun hempty pk hpk => ?_, fun hplaced => ?_⟩
      · obtain ⟨row, hrow, -⟩ := mem_map.mp hpk
        rw [isEmpty_iff.mp hempty] at hrow
        exact absurd hrow not_mem_nil
      · obtain ⟨row, hrow⟩ := exists_mem_of_ne_nil _ (isEmpty_eq_false_iff.mp hplaced)
        exact ⟨row.pk, mem_map_of_mem hrow, hheld row hrow⟩
    | none =>
      obtain ⟨hplaced, hheld⟩ := placeRows_spec stmt.rows h ht hfree hnodup [] none
      obtain ⟨hinv, hmanager, hfailed, hkept, hgone, hall, hsome⟩ :=
        noteRows_spec stmt.rows hplaced.inv (by rw [hplaced.manager]; exact ht) hheld hnodup
      refine ⟨⟨hinv, hmanager.trans hplaced.manager, hfailed.trans hplaced.failed,
        fun hold => ?_, fun hne hold => hgone hne (hplaced.gone hne hold)⟩, ?_, ?_⟩
      · refine hkept (fun row hrow hsame => ?_) (hplaced.kept hold)
        obtain ⟨v, hv, -⟩ := hold.row
        rw [hsame.1, hsame.2, hfree row hrow] at hv
        cases hv
      · intro hnone pk hpk
        obtain ⟨row, hrow, rfl⟩ := mem_map.mp hpk
        exact hall hnone row hrow
      · intro hnone
        obtain ⟨row, hrow, hfalse⟩ := hsome hnone
        exact ⟨row.pk, mem_map_of_mem hrow, hfalse⟩

theorem insertParsed_spec (h : InsertInv s) (ht : t ∈ s.manager.inFlightIds)
    (hfresh : stmt.fills = true → s.rangeFresh stmt = true) :
    Inserted s t stmt.oid (s.insertParsed t stmt) ∧
      (TrailReached s stmt = true → ∀ pk ∈ (s.insertParsed t stmt).placed,
        Held (s.insertParsed t stmt).state t stmt.oid pk true) ∧
      (TrailReached s stmt = false → ∃ pk ∈ (s.insertParsed t stmt).placed,
        Held (s.insertParsed t stmt).state t stmt.oid pk false) := by
  rw [InsertState.insertParsed]
  by_cases hfills : stmt.fills = true
  · rw [if_pos hfills]
    exact sortedFill_spec h ht (hfresh hfills) hfills
  · rw [if_neg hfills, TrailReached, if_neg hfills]
    obtain ⟨hinserted, hclear, hlost⟩ := @insertRows_spec s t stmt.oid stmt.rows h ht
    refine ⟨hinserted, fun hreached => hclear fun step hstep => ?_, fun hmissed => ?_⟩
    · rw [hstep] at hreached
      simpa using hreached
    · cases hstep : failingStep (s.taken stmt.oid) stmt.rows with
      | none => simp [hstep] at hmissed
      | some step =>
        rw [hstep] at hmissed
        exact hlost step (by simpa using hmissed) hstep

-- The other steps

theorem overwriteRow_cases (s : InsertState) (txn : Transaction) (oid pk : Nat)
    (values : Option (List AstValue)) (refused : Option Status) :
    s.overwriteRow txn oid pk values refused = s ∨
    s.overwriteRow txn oid pk values refused = s.fail txn.id ∨
    ∃ tuple older, s.rows oid pk = tuple :: older ∧
      checkWriteConflict txn tuple.trxId pk = .ok () ∧
      s.overwriteRow txn oid pk values refused =
        (s.note txn.id oid pk (tuple :: older)).setRow oid pk
          ({ trxId := txn.id, deleted := values.isNone, values := values.getD tuple.values } ::
            tuple :: older) := by
  rw [InsertState.overwriteRow]
  cases hrow : s.rows oid pk with
  | nil => exact .inl rfl
  | cons tuple older =>
    dsimp only
    by_cases hclass :
        classify txn.view tuple.trxId tuple.deleted (undoPtrOf older) = .noVersion
    · rw [if_pos hclass]
      exact .inl rfl
    · rw [if_neg hclass]
      cases hconflict : checkWriteConflict txn tuple.trxId pk with
      | error e => exact .inr (.inl rfl)
      | ok _ =>
        cases refused with
        | some e => exact .inr (.inl rfl)
        | none => exact .inr (.inr ⟨tuple, older, rfl, hconflict, rfl⟩)

theorem writer_settled (h : m.Isolated) (hlive : txn ∈ m.live) (hactive : txn.active = true)
    {cur : Nat} (hconflict : checkWriteConflict txn cur pk = .ok ()) :
    cur = txn.id ∨ cur ∉ m.inFlightIds := by
  by_contra hother
  obtain ⟨hne, hmem⟩ := not_or.mp hother
  have hmem := not_not.mp hmem
  have hboot : cur ≠ alwaysVisibleTrxId := Nat.ne_of_gt (h.inFlight_bounds hmem).1
  rw [checkWriteConflict, if_neg hboot, if_neg hne, h.blind txn hlive hactive cur hmem hne]
    at hconflict
  cases hconflict

theorem InsertInv.overwriteRow (h : InsertInv s) (hlive : txn ∈ s.manager.live)
    (hactive : txn.active = true) (values : Option (List AstValue)) (refused : Option Status) :
    InsertInv (s.overwriteRow txn oid pk values refused) := by
  rcases overwriteRow_cases s txn oid pk values refused with heq | heq | ⟨tuple, older, hrow,
    hconflict, heq⟩
  · rw [heq]
    exact h
  · rw [heq]
    exact ⟨h.manager, h.below, h.onTop, h.priors⟩
  · rw [heq]
    have hflight : txn.id ∈ s.manager.inFlightIds :=
      mem_inFlightIds.mpr ⟨txn, hlive, hactive, rfl⟩
    have hbelow := (h.manager.isolated.inFlight_bounds hflight).2
    constructor
    · exact h.manager
    · intro oid' pk' v hv
      by_cases hsame : oid' = oid ∧ pk' = pk
      · obtain ⟨rfl, rfl⟩ := hsame
        rw [setRow_rows_self] at hv
        rcases mem_cons.mp hv with rfl | hold
        · exact hbelow
        · exact h.below oid' pk' v (hrow ▸ hold)
      · rw [setRow_rows_of_ne hsame] at hv
        exact h.below oid' pk' v hv
    · intro t' entry hentry
      by_cases hsame : entry.oid = oid ∧ entry.pk = pk
      · have ht' : t' = txn.id := by
          rcases mem_note_trail.mp hentry with ⟨rfl, -⟩ | hold
          · rfl
          · have hwriter := h.row_of_entry hrow rfl hold hsame.1 hsame.2
            rcases writer_settled h.manager.isolated hlive hactive hconflict with hown | hsettled
            · exact hwriter.trans hown
            · exact absurd (hwriter ▸ (h.onTop t' entry hold).1) hsettled
        rw [ht', hsame.1, hsame.2]
        exact ⟨hflight, _, _, setRow_rows_self _, rfl⟩
      · rw [setRow_rows_of_ne hsame]
        rcases mem_note_trail.mp hentry with ⟨rfl, rfl⟩ | hold
        · exact absurd ⟨rfl, rfl⟩ hsame
        · exact h.onTop t' entry hold
    · intro t' entry hentry
      rcases mem_note_trail.mp hentry with ⟨rfl, rfl⟩ | hold
      · exact fun v hv => h.below oid pk v (hrow ▸ hv)
      · exact h.priors t' entry hold

theorem Held.overwriteRow {noted : Bool} (hinv : InsertInv s) (h : Held s t oid pk noted)
    (ht : t ∈ s.manager.inFlightIds) (hlive : txn ∈ s.manager.live) (hactive : txn.active = true)
    (hne : txn.id ≠ t) (values : Option (List AstValue)) (refused : Option Status) :
    Held (s.overwriteRow txn oid' pk' values refused) t oid pk noted := by
  rcases overwriteRow_cases s txn oid' pk' values refused with heq | heq | ⟨tuple, older, hrow,
    hconflict, heq⟩
  · rw [heq]
    exact h
  · rw [heq]
    exact ⟨h.row, h.entry, h.prior⟩
  · have hother : ¬ (oid = oid' ∧ pk = pk') := by
      rintro ⟨rfl, rfl⟩
      obtain ⟨v, hv, hwriter, -⟩ := h.row
      rw [hrow] at hv
      obtain ⟨rfl, -⟩ := List.cons.inj hv
      rcases writer_settled hinv.manager.isolated hlive hactive hconflict with hown | hsettled
      · exact hne (hown.symm.trans hwriter)
      · exact hsettled (hwriter ▸ ht)
    rw [heq]
    have hnoted : Held (s.note txn.id oid' pk' (tuple :: older)) t oid pk noted :=
      h.note fun _ => hother
    refine ⟨?_, hnoted.entry, hnoted.prior⟩
    rw [setRow_rows_of_ne hother]
    exact h.row

theorem Gone.overwriteRow (h : Gone s t oid pk) (hne : txn.id ≠ t) (values : Option (List AstValue))
    (refused : Option Status) : Gone (s.overwriteRow txn oid' pk' values refused) t oid pk := by
  rcases overwriteRow_cases s txn oid' pk' values refused with heq | heq | ⟨tuple, older, hrow,
    -, heq⟩
  · rw [heq]
    exact h
  · rw [heq]
    exact ⟨h.ended, h.old, h.row, h.priors⟩
  · rw [heq]
    have hnoted : Gone (s.note txn.id oid' pk' (tuple :: older)) t oid pk := by
      apply h.note
      rintro rfl rfl v hv
      exact h.row v (hrow ▸ hv)
    refine ⟨hnoted.ended, hnoted.old, ?_, hnoted.priors⟩
    intro v hv
    by_cases hsame : oid = oid' ∧ pk = pk'
    · obtain ⟨rfl, rfl⟩ := hsame
      rw [setRow_rows_self] at hv
      rcases mem_cons.mp hv with rfl | hold
      · exact hne
      · exact h.row v (hrow ▸ hold)
    · rw [setRow_rows_of_ne hsame] at hv
      exact h.row v hv

theorem mem_inFlight_finish (hlive : txn ∈ s.manager.live) :
    id ∈ (s.finish txn).manager.inFlightIds ↔ id ≠ txn.id ∧ id ∈ s.manager.inFlightIds := by
  refine (@mem_inFlightIds_update s.manager txn
    { txn with trail := [], active := false } hlive rfl id).trans ?_
  by_cases hid : id = txn.id <;> simp [hid]

theorem mem_finish_trail : entry ∈ (s.finish txn).trail t' ↔ t' ≠ txn.id ∧ entry ∈ s.trail t' := by
  show entry ∈ Function.update s.trail txn.id [] t' ↔ _
  by_cases hid : t' = txn.id
  · simp [hid]
  · simp [hid]

theorem InsertInv.finish (h : InsertInv s) (hlive : txn ∈ s.manager.live)
    (hactive : txn.active = true) : InsertInv (s.finish txn) where
  manager := h.manager.update hlive hactive rfl (.inl rfl)
  below := h.below
  onTop t' entry hentry := by
    obtain ⟨hne, hold⟩ := mem_finish_trail.mp hentry
    obtain ⟨hflight, htop⟩ := h.onTop t' entry hold
    exact ⟨(mem_inFlight_finish hlive).mpr ⟨hne, hflight⟩, htop⟩
  priors t' entry hentry := h.priors t' entry (mem_finish_trail.mp hentry).2

theorem Held.finish {noted : Bool} (h : Held s t oid pk noted) (hne : txn.id ≠ t) :
    Held (s.finish txn) t oid pk noted where
  row := h.row
  entry := by
    rw [h.entry]
    constructor
    · rintro ⟨entry, hentry, hkey⟩
      exact ⟨entry, mem_finish_trail.mpr ⟨Ne.symm hne, hentry⟩, hkey⟩
    · rintro ⟨entry, hentry, hkey⟩
      exact ⟨entry, (mem_finish_trail.mp hentry).2, hkey⟩
  prior entry hentry := h.prior entry (mem_finish_trail.mp hentry).2

theorem Gone.finish (h : Gone s t oid pk) (hlive : txn ∈ s.manager.live) :
    Gone (s.finish txn) t oid pk where
  ended hmem := h.ended ((mem_inFlight_finish hlive).mp hmem).2
  old := h.old
  row := h.row
  priors t' entry hentry := h.priors t' entry (mem_finish_trail.mp hentry).2

theorem InsertInv.unwound (h : InsertInv s) (hlive : txn ∈ s.manager.live)
    (hactive : txn.active = true) :
    InsertInv ((InsertState.unwindRows (s.trail txn.id) s).finish txn) := by
  obtain ⟨hmanager, htrail, -⟩ := unwindRows_frame (s.trail txn.id) s
  have hrows := unwindRows_rows (s.trail txn.id) s
  set u := InsertState.unwindRows (s.trail txn.id) s
  have hlive' : txn ∈ u.manager.live := hmanager ▸ hlive
  constructor
  · exact ManagerSound.update (hmanager ▸ h.manager) hlive' hactive rfl (.inl rfl)
  · intro oid pk v hv
    show v.trxId < u.manager.nextId
    rw [hmanager]
    have hv : v ∈ u.rows oid pk := hv
    rw [hrows] at hv
    cases hold : InsertState.oldest oid pk (s.trail txn.id) with
    | none =>
      rw [hold] at hv
      exact h.below oid pk v hv
    | some versions =>
      rw [hold] at hv
      obtain ⟨entry, hentry, -, -, rfl⟩ := oldest_eq_some hold
      exact h.priors txn.id entry hentry v hv
  · intro t' entry hentry
    obtain ⟨hne, hentry⟩ := mem_finish_trail.mp hentry
    rw [htrail] at hentry
    obtain ⟨hflight, v, older, hrow, hv⟩ := h.onTop t' entry hentry
    refine ⟨(mem_inFlight_finish hlive').mpr ⟨hne, hmanager ▸ hflight⟩, v, older, ?_, hv⟩
    show u.rows entry.oid entry.pk = _
    rw [hrows, oldest_eq_none.mpr ?_]
    · exact hrow
    · intro other hother hsame
      exact hne (h.row_of_entry hrow hv hother hsame.1 hsame.2).symm
  · intro t' entry hentry
    have hentry := (mem_finish_trail.mp hentry).2
    rw [htrail] at hentry
    show ∀ v ∈ entry.prior, v.trxId < u.manager.nextId
    rw [hmanager]
    exact h.priors t' entry hentry

theorem Held.unwound {noted : Bool} (hinv : InsertInv s) (h : Held s t oid pk noted)
    (hne : txn.id ≠ t) :
    Held ((InsertState.unwindRows (s.trail txn.id) s).finish txn) t oid pk noted := by
  obtain ⟨-, htrail, -⟩ := unwindRows_frame (s.trail txn.id) s
  have hrows := unwindRows_rows (s.trail txn.id) s oid pk
  set u := InsertState.unwindRows (s.trail txn.id) s
  obtain ⟨v, hrow, hv, hdeleted⟩ := h.row
  have hnone : InsertState.oldest oid pk (s.trail txn.id) = none := by
    apply oldest_eq_none.mpr
    intro entry hentry hsame
    exact hne (hinv.row_of_entry hrow hv hentry hsame.1 hsame.2)
  rw [hnone] at hrows
  have hheld : Held u t oid pk noted :=
    ⟨⟨v, hrows.trans hrow, hv, hdeleted⟩, by rw [htrail]; exact h.entry,
      by rw [htrail]; exact h.prior⟩
  exact hheld.finish hne

theorem Gone.unwound (h : Gone s t oid pk) (hlive : txn ∈ s.manager.live) :
    Gone ((InsertState.unwindRows (s.trail txn.id) s).finish txn) t oid pk := by
  obtain ⟨hmanager, htrail, -⟩ := unwindRows_frame (s.trail txn.id) s
  have hrows := unwindRows_rows (s.trail txn.id) s oid pk
  set u := InsertState.unwindRows (s.trail txn.id) s
  have hgone : Gone u t oid pk := by
    refine ⟨hmanager ▸ h.ended, hmanager ▸ h.old, ?_, by rw [htrail]; exact h.priors⟩
    intro v hv
    rw [hrows] at hv
    cases hold : InsertState.oldest oid pk (s.trail txn.id) with
    | none =>
      rw [hold] at hv
      exact h.row v hv
    | some versions =>
      rw [hold] at hv
      obtain ⟨entry, hentry, hoid, hpk, rfl⟩ := oldest_eq_some hold
      exact h.priors txn.id entry hentry hoid hpk v hv
  exact hgone.finish (hmanager ▸ hlive)

-- Runs

theorem InsertInv.of_manager (h : InsertInv s) (hm : ManagerSound m)
    (hnext : s.manager.nextId ≤ m.nextId)
    (hflight : ∀ id ∈ s.manager.inFlightIds, id ∈ m.inFlightIds) :
    InsertInv { s with manager := m } where
  manager := hm
  below oid pk v hv := Nat.lt_of_lt_of_le (h.below oid pk v hv) hnext
  onTop t entry hentry := (h.onTop t entry hentry).imp_left (hflight t)
  priors t entry hentry v hv := Nat.lt_of_lt_of_le (h.priors t entry hentry v hv) hnext

theorem mem_inFlight_begin {isolation : IsolationLevel}
    (h : s.manager.begin isolation = .ok (m, txn)) :
    id ∈ m.inFlightIds ↔ id ∈ s.manager.inFlightIds ∨ id = s.manager.nextId := by
  rw [(inFlightIds_begin h).1, mem_append, mem_singleton]

theorem mem_inFlight_view {txn' : Transaction} (hfind : s.manager.find t = some txn)
    (hactive : txn.active = true) (hid : txn'.id = txn.id) (hstill : txn'.active = true) :
    id ∈ (s.manager.update txn').inFlightIds ↔ id ∈ s.manager.inFlightIds := by
  rw [mem_inFlightIds_update (find_eq_some hfind).1 hid]
  by_cases hsame : id = txn.id
  · subst hsame
    simp [hstill, (find_eq_some hfind).2 ▸ inFlight_of_find hfind hactive]
  · simp [hsame]

theorem Inserted.afterInsert {out : InsertOutcome} (h : Inserted s t oid out) :
    (InsertState.afterInsert t out).rows = out.state.rows ∧
      (InsertState.afterInsert t out).trail = out.state.trail ∧
      (InsertState.afterInsert t out).manager = s.manager := by
  rw [InsertState.afterInsert]
  split
  · exact ⟨rfl, rfl, h.manager⟩
  · exact ⟨rfl, rfl, h.manager⟩

variable {s' : InsertState}

theorem InsertInv.of_eq (h : InsertInv s) (hrows : s'.rows = s.rows)
    (htrail : s'.trail = s.trail) (hmanager : s'.manager = s.manager) : InsertInv s' := by
  obtain ⟨h₁, h₂, h₃, h₄⟩ := h
  constructor <;> simpa only [hrows, htrail, hmanager]

theorem Held.of_eq {noted : Bool} (h : Held s t oid pk noted)
    (hrows : s'.rows = s.rows) (htrail : s'.trail = s.trail) : Held s' t oid pk noted := by
  obtain ⟨h₁, h₂, h₃⟩ := h
  constructor <;> simpa only [hrows, htrail]

theorem Gone.of_eq (h : Gone s t oid pk) (hrows : s'.rows = s.rows)
    (htrail : s'.trail = s.trail) (hmanager : s'.manager = s.manager) : Gone s' t oid pk := by
  obtain ⟨h₁, h₂, h₃, h₄⟩ := h
  constructor <;> simpa only [hrows, htrail, hmanager]

/-- Every statement, refused or not, keeps the invariant. -/
theorem InsertInv.step (h : InsertInv s) (hs : s.step a = some s') : InsertInv s' := by
  cases InsertState.stepped hs with
  | begin hbegin =>
    have hnext := (inFlightIds_begin hbegin).2
    exact h.of_manager (h.manager.begin hbegin) (by omega)
      fun id hid => (mem_inFlight_begin hbegin).mpr (.inl hid)
  | view hfind hactive hopen hid hstill hview =>
    exact h.of_manager (h.manager.update (find_eq_some hfind).1 hactive hid hview)
      (Nat.le_refl _) fun id hmem => (mem_inFlight_view hfind hactive hid hstill).mpr hmem
  | insert hflight hopen hfresh =>
    have hinserted := (insertParsed_spec h hflight hfresh).1
    obtain ⟨hrows, htrail, hmanager⟩ := hinserted.afterInsert
    exact hinserted.inv.of_eq hrows htrail (hmanager.trans hinserted.manager.symm)
  | overwrite hfind hactive hopen => exact h.overwriteRow (find_eq_some hfind).1 hactive _ _
  | commit hfind hactive hopen => exact h.finish (find_eq_some hfind).1 hactive
  | rollback hfind hactive =>
    obtain ⟨hlive, rfl⟩ := find_eq_some hfind
    exact h.unwound hlive hactive

theorem InsertInv.empty : InsertInv InsertState.empty where
  manager := ManagerSound.empty
  below _ _ _ hv := absurd hv not_mem_nil
  onTop _ _ hentry := absurd hentry not_mem_nil
  priors _ _ hentry := absurd hentry not_mem_nil

theorem InsertInv.run (h : InsertInv s) (hrun : InsertState.Runs s s') : InsertInv s' :=
  hrun.invariant h fun _ hinv _ hs => hinv.step hs

/-- A transaction that has failed and still runs keeps its row where it put it. -/
theorem Held.step (hinv : InsertInv s) {noted : Bool} (h : Held s t oid pk noted)
    (hfailed : t ∈ s.failed) (hs : s.step a = some s') (hflight : t ∈ s'.manager.inFlightIds) :
    Held s' t oid pk noted ∧ t ∈ s'.failed := by
  cases InsertState.stepped hs with
  | begin hbegin => exact ⟨h.of_eq rfl rfl, hfailed⟩
  | view hfind hactive hopen hid hstill hview => exact ⟨h.of_eq rfl rfl, hfailed⟩
  | @insert t' stmt hflight' hopen hfresh =>
    have hinserted := (insertParsed_spec hinv hflight' hfresh).1
    obtain ⟨hrows, htrail, -⟩ := hinserted.afterInsert
    refine ⟨(hinserted.kept h).of_eq hrows htrail, ?_⟩
    rw [InsertState.afterInsert]
    split
    · exact mem_cons_of_mem _ (hinserted.failed ▸ hfailed)
    · exact hinserted.failed ▸ hfailed
  | @overwrite t' oid' pk' values refused txn hfind hactive hopen =>
    obtain ⟨hlive, rfl⟩ := find_eq_some hfind
    have hne : txn.id ≠ t := fun heq => hopen (heq ▸ hfailed)
    have hmanager : (s.overwriteRow txn oid' pk' values refused).manager = s.manager ∧
        t ∈ (s.overwriteRow txn oid' pk' values refused).failed := by
      rcases overwriteRow_cases s txn oid' pk' values refused with heq | heq |
        ⟨tuple, older, -, -, heq⟩
      · rw [heq]
        exact ⟨rfl, hfailed⟩
      · rw [heq]
        exact ⟨rfl, mem_cons_of_mem _ hfailed⟩
      · rw [heq]
        exact ⟨rfl, hfailed⟩
    exact ⟨h.overwriteRow hinv (hmanager.1 ▸ hflight) hlive hactive hne values refused,
      hmanager.2⟩
  | @commit t' txn hfind hactive hopen =>
    obtain ⟨hlive, rfl⟩ := find_eq_some hfind
    exact ⟨h.finish fun heq => hopen (heq ▸ hfailed), hfailed⟩
  | @rollback t' txn hfind hactive =>
    obtain ⟨hlive, rfl⟩ := find_eq_some hfind
    obtain ⟨hmanager, -, hmarks⟩ := unwindRows_frame (s.trail txn.id) s
    have hne : txn.id ≠ t := fun heq =>
      ((mem_inFlight_finish (hmanager ▸ hlive)).mp hflight).1 heq.symm
    exact ⟨h.unwound hinv hne, hmarks ▸ hfailed⟩

/-- A transaction that has ended never runs again. -/
theorem ended_step (hs : InsertInv s) (hended : t ∉ s.manager.inFlightIds)
    (hold : t < s.manager.nextId) (hstep : s.step a = some s') :
    t ∉ s'.manager.inFlightIds ∧ t < s'.manager.nextId := by
  cases InsertState.stepped hstep with
  | @begin isolation m txn hbegin =>
    refine ⟨fun hmem => ?_, ?_⟩
    · rcases (mem_inFlight_begin hbegin).mp hmem with hin | rfl
      · exact hended hin
      · exact Nat.lt_irrefl _ hold
    · have hnext := (inFlightIds_begin hbegin).2
      show t < m.nextId
      omega
  | view hfind hactive hopen hid hstill hview =>
    exact ⟨mt (mem_inFlight_view hfind hactive hid hstill).mp hended, hold⟩
  | insert hflight hopen hfresh =>
    obtain ⟨-, -, hmanager⟩ := (insertParsed_spec hs hflight hfresh).1.afterInsert
    rw [hmanager]
    exact ⟨hended, hold⟩
  | @overwrite t' oid' pk' values refused txn hfind hactive hopen =>
    have hmanager : (s.overwriteRow txn oid' pk' values refused).manager = s.manager := by
      rcases overwriteRow_cases s txn oid' pk' values refused with heq | heq |
        ⟨tuple, older, -, -, heq⟩ <;> rw [heq] <;> rfl
    rw [hmanager]
    exact ⟨hended, hold⟩
  | commit hfind hactive hopen =>
    exact ⟨fun hmem => hended ((mem_inFlight_finish (find_eq_some hfind).1).mp hmem).2, hold⟩
  | @rollback t' txn hfind hactive =>
    obtain ⟨hmanager, -, -⟩ := unwindRows_frame (s.trail t') s
    have hlive := hmanager ▸ (find_eq_some hfind).1
    refine ⟨fun hmem => hended (hmanager ▸ ((mem_inFlight_finish hlive).mp hmem).2), ?_⟩
    show t < (InsertState.unwindRows (s.trail t') s).manager.nextId
    rw [hmanager]
    exact hold

/-- A row that was taken back stays away. -/
theorem Gone.step (hinv : InsertInv s) (h : Gone s t oid pk) (hs : s.step a = some s') :
    Gone s' t oid pk := by
  obtain ⟨hended, hold⟩ := ended_step hinv h.ended h.old hs
  have hother : ∀ {t'}, t' ∈ s.manager.inFlightIds → t' ≠ t := fun hin heq => h.ended (heq ▸ hin)
  cases InsertState.stepped hs with
  | begin hbegin => exact ⟨hended, hold, h.row, h.priors⟩
  | view hfind hactive hopen hid hstill hview => exact ⟨hended, hold, h.row, h.priors⟩
  | insert hflight hopen hfresh =>
    have hinserted := (insertParsed_spec hinv hflight hfresh).1
    obtain ⟨hrows, htrail, hmanager⟩ := hinserted.afterInsert
    exact (hinserted.gone (hother hflight).symm h).of_eq hrows htrail
      (hmanager.trans hinserted.manager.symm)
  | overwrite hfind hactive hopen =>
    exact h.overwriteRow (hother ((find_eq_some hfind).2 ▸ inFlight_of_find hfind hactive)) _ _
  | commit hfind hactive hopen => exact h.finish (find_eq_some hfind).1
  | rollback hfind hactive =>
    obtain ⟨hlive, rfl⟩ := find_eq_some hfind
    exact h.unwound hlive

-- After the rollback

/-- What a held row is once its transaction has been rolled back: gone if the trail has it, and
    otherwise there for every new view. -/
theorem Held.rolledBack (hinv : InsertInv s) {noted : Bool} (h : Held s t oid pk noted)
    (hs : s.step (.rollback t) = some s') :
    (noted = true → Gone s' t oid pk) ∧ (noted = false → s'.Seen t oid pk) := by
  have hinv' := hinv.step hs
  cases InsertState.stepped hs with
  | @rollback _ txn hfind hactive =>
    obtain ⟨hlive, rfl⟩ := find_eq_some hfind
    obtain ⟨hmanager, htrail, -⟩ := unwindRows_frame (s.trail txn.id) s
    have hrows := unwindRows_rows (s.trail txn.id) s oid pk
    have hended : txn.id ∉
        ((InsertState.unwindRows (s.trail txn.id) s).finish txn).manager.inFlightIds := fun hmem =>
      ((mem_inFlight_finish (hmanager ▸ hlive)).mp hmem).1 rfl
    have hbounds := hinv.manager.isolated.inFlight_bounds
      (mem_inFlightIds.mpr ⟨txn, hlive, hactive, rfl⟩)
    have hold : txn.id <
        ((InsertState.unwindRows (s.trail txn.id) s).finish txn).manager.nextId := by
      show txn.id < (InsertState.unwindRows (s.trail txn.id) s).manager.nextId
      rw [hmanager]
      exact hbounds.2
    obtain ⟨v, hrow, hv, hdeleted⟩ := h.row
    refine ⟨fun hnoted => ?_, fun hmissed => ?_⟩
    · have hempty : ((InsertState.unwindRows (s.trail txn.id) s).finish txn).rows oid pk = [] := by
        show (InsertState.unwindRows (s.trail txn.id) s).rows oid pk = []
        rw [hrows]
        cases holdest : InsertState.oldest oid pk (s.trail txn.id) with
        | none =>
          obtain ⟨entry, hentry, hkey⟩ := h.entry.mp hnoted
          exact absurd hkey (oldest_eq_none.mp holdest entry hentry)
        | some versions =>
          obtain ⟨entry, hentry, hoid, hpk, rfl⟩ := oldest_eq_some holdest
          exact h.prior entry hentry hoid hpk
      refine ⟨hended, hold, fun u hu => ?_, fun t' entry hentry hoid hpk => ?_⟩
      · rw [hempty] at hu
        exact absurd hu not_mem_nil
      · exact absurd ⟨hoid, hpk⟩ (hinv'.no_entry hempty hentry)
    · have hkept : ((InsertState.unwindRows (s.trail txn.id) s).finish txn).rows oid pk = [v] := by
        show (InsertState.unwindRows (s.trail txn.id) s).rows oid pk = [v]
        rw [hrows, oldest_eq_none.mpr, Option.getD_none, hrow]
        intro entry hentry hkey
        rw [h.entry.mpr ⟨entry, hentry, hkey⟩] at hmissed
        cases hmissed
      obtain ⟨view, hview⟩ := hinv'.manager.exists_view noTrxId
      refine ⟨view, .inl ⟨noTrxId, hview⟩, v, ?_, hv⟩
      have hvisible : view.visible v.trxId = true := by
        rw [hv]
        exact (hinv'.manager.isolated.minted_visible hview hold
          (Nat.ne_of_gt (Nat.lt_trans Nat.zero_lt_one hbounds.1))).mpr (.inr hended)
      rw [hkept, readRow]
      simp [hvisible, hdeleted]

theorem Gone.not_seen (h : Gone s t oid pk) : ¬ s.Seen t oid pk := by
  rintro ⟨view, -, v, hread, hv⟩
  rw [readRow, Option.filter_eq_some_iff] at hread
  exact h.row v (mem_of_find?_eq_some hread.1) hv

theorem Held.run (hinv : InsertInv s) {noted : Bool} (h : Held s t oid pk noted)
    (hfailed : t ∈ s.failed) (hold : t < s.manager.nextId) (hrun : InsertState.Runs s s')
    (hflight : t ∈ s'.manager.inFlightIds) : Held s' t oid pk noted := by
  have hall : InsertInv s' ∧ t < s'.manager.nextId ∧
      (t ∈ s'.manager.inFlightIds → Held s' t oid pk noted ∧ t ∈ s'.failed) := by
    refine @Reach.invariant _ _ _ _ (fun u => InsertInv u ∧ t < u.manager.nextId ∧
      (t ∈ u.manager.inFlightIds → Held u t oid pk noted ∧ t ∈ u.failed)) _ _ hrun
      ⟨hinv, hold, fun _ => ⟨h, hfailed⟩⟩ ?_
    intro u u' a hu _ hs
    obtain ⟨hinv, hold, hheld⟩ := hu
    have hold' : t < u'.manager.nextId := by
      cases InsertState.stepped hs with
      | @begin isolation m txn hbegin =>
        have hnext := (inFlightIds_begin hbegin).2
        show t < m.nextId
        omega
      | view hfind hactive hopen hid hstill hview => exact hold
      | insert hin hopen hfresh =>
        rw [(insertParsed_spec hinv hin hfresh).1.afterInsert.2.2]
        exact hold
      | @overwrite t' oid' pk' values refused txn hfind hactive hopen =>
        rcases overwriteRow_cases u txn oid' pk' values refused with heq | heq |
          ⟨tuple, older, -, -, heq⟩ <;> rw [heq] <;> exact hold
      | commit hfind hactive hopen => exact hold
      | @rollback t' txn hfind hactive =>
        show t < (InsertState.unwindRows (u.trail t') u).manager.nextId
        rw [(unwindRows_frame (u.trail t') u).1]
        exact hold
    refine ⟨hinv.step hs, hold', fun hin => ?_⟩
    by_cases hbefore : t ∈ u.manager.inFlightIds
    · exact (hheld hbefore).1.step hinv (hheld hbefore).2 hs hin
    · exact absurd hin (ended_step hinv hbefore hold hs).1
  exact (hall.2.2 hflight).1

/-- **A failed INSERT leaves no row**, in any state a run reaches and however the steps of its
    rows answer, exactly when the step that refuses is not one between the placement of a tuple
    and its entry in the trail. -/
theorem failed_insert_leaves_no_row_iff (hreach : InsertState.Runs .empty s)
    {stmt : InsertStatement} {out : InsertOutcome} (hrun : s.runInsert t stmt = some out)
    (hfail : out.status.isSome = true) :
    (InsertState.afterInsert t out).LeavesNoRow t stmt.oid out.placed ↔
      TrailReached s stmt = true := by
  obtain ⟨hflight, -, hfresh, rfl⟩ := runInsert_eq_some hrun
  have hinv := InsertInv.empty.run hreach
  obtain ⟨hinserted, hclear, hlost⟩ := insertParsed_spec hinv hflight hfresh
  obtain ⟨hrows, htrail, hmanager⟩ := hinserted.afterInsert
  obtain ⟨e, he⟩ := Option.isSome_iff_exists.mp hfail
  have hinv' := hinserted.inv.of_eq hrows htrail (hmanager.trans hinserted.manager.symm)
  have hfailed : t ∈ (InsertState.afterInsert t (s.insertParsed t stmt)).failed := by
    rw [InsertState.afterInsert, he]
    exact mem_cons_self
  have hold : t < (InsertState.afterInsert t (s.insertParsed t stmt)).manager.nextId := by
    rw [hmanager]
    exact (hinv.manager.isolated.inFlight_bounds hflight).2
  constructor
  · intro hleaves
    by_contra hmissed
    obtain ⟨pk, hpk, hheld⟩ := hlost (Bool.eq_false_iff.mpr hmissed)
    have hheld := hheld.of_eq hrows htrail
    obtain ⟨txn, hlive, hactive, hid⟩ := mem_inFlightIds.mp (hmanager ▸ hflight)
    obtain ⟨after, hafter⟩ : ∃ after,
        (InsertState.afterInsert t (s.insertParsed t stmt)).step (.rollback t) = some after := by
      rw [InsertState.step, InsertState.withTxn]
      cases hfind : (InsertState.afterInsert t (s.insertParsed t stmt)).manager.find t with
      | none => exact absurd hid (by simpa using List.find?_eq_none.mp hfind txn hlive)
      | some other =>
        obtain ⟨hother, hsame⟩ := find_eq_some hfind
        have heq : other = txn :=
          inj_on_of_nodup_map hinv'.manager.distinct hother hlive (hsame.trans hid.symm)
        simp [heq, hactive]
    exact hleaves _ after after Relation.ReflTransGen.refl hafter Relation.ReflTransGen.refl pk hpk
      ((hheld.rolledBack hinv' hafter).2 rfl)
  · intro hreached before after later hbefore hafter hlater pk hpk
    have hheld := (hclear hreached pk hpk).of_eq hrows htrail
    have hbeforeInv := hinv'.run hbefore
    have hin : t ∈ before.manager.inFlightIds := by
      cases InsertState.stepped hafter with
      | rollback hfind hactive => exact inFlight_of_find hfind hactive
    have hgone := ((hheld.run hinv' hfailed hold hbefore hin).rolledBack hbeforeInv hafter).1 rfl
    have hlaterGone : InsertInv later ∧ Gone later t stmt.oid pk :=
      @Reach.invariant _ _ _ _ (fun u => InsertInv u ∧ Gone u t stmt.oid pk) _ _ hlater
        ⟨hbeforeInv.step hafter, hgone⟩ fun _ hu _ hs => ⟨hu.1.step hs, hu.2.step hu.1 hs⟩
    exact hlaterGone.2.not_seen

-- An index that refuses the row

/-- A row of relation 1, and the steps it is refused at. -/
def sampleInsertRow (pk : Nat) (refusing : List InsertStep) : InsertRow where
  pk := pk
  values := [.ofInt pk]
  answers step := if step ∈ refusing then some ⟨.ioError, "page read failed"⟩ else none

/-- Two rows, the second one's index maintenance failing. -/
def sampleInsertStatement : InsertStatement where
  oid := 1
  rows := [sampleInsertRow 5 [], sampleInsertRow 6 [.maintainIndexes]]

theorem second_row_stays :
    ∃ s out, InsertState.Runs .empty s ∧ s.runInsert 2 sampleInsertStatement = some out ∧
      out.status.isSome = true ∧ out.placed = [5, 6] ∧
      ((InsertState.afterInsert 2 out).LeavesNoRow 2 sampleInsertStatement.oid out.placed ↔
        TrailReached s sampleInsertStatement = true) := by
  obtain ⟨s, hreach, hend⟩ := @exists_reach_of_runList _ _ InsertState.step (fun _ _ => True)
    (fun _ _ => true) (fun _ _ _ => trivial) [.begin .readCommitted] .empty
    (fun s : InsertState => (s.runInsert 2 sampleInsertStatement).any fun out : InsertOutcome =>
      out.status.isSome && decide (out.placed = [5, 6])) (by decide +kernel)
  obtain ⟨out, hrun, hout⟩ := (Option.any_eq_true _ _).mp hend
  rw [Bool.and_eq_true, decide_eq_true_eq] at hout
  exact ⟨s, out, hreach, hrun, hout.1, hout.2,
    failed_insert_leaves_no_row_iff hreach hrun hout.1⟩

/-- The row whose index entry was refused is in no trail: the rollback of its statement leaves it,
    and every later view reads it. -/
theorem refused_index_leaves_row :
    ¬ ∀ s t stmt out, InsertState.Runs .empty s → s.runInsert t stmt = some out →
      out.status.isSome = true →
      (InsertState.afterInsert t out).LeavesNoRow t stmt.oid out.placed := by
  intro hclaim
  obtain ⟨s, hreach, hend⟩ := @exists_reach_of_runList _ _ InsertState.step (fun _ _ => True)
    (fun _ _ => true) (fun _ _ _ => trivial) [.begin .readCommitted] .empty
    (fun s : InsertState => (s.runInsert 2 sampleInsertStatement).any fun out : InsertOutcome =>
      out.status.isSome && out.placed.contains 6 &&
        ((InsertState.afterInsert 2 out).step (.rollback 2)).any fun after =>
          (after.manager.mintReadView 0).toOption.any fun view =>
            (readRow view (after.rows 1 6)).any fun v => v.trxId == 2) (by decide +kernel)
  obtain ⟨out, hrun, hout⟩ := (Option.any_eq_true _ _).mp hend
  simp only [Bool.and_eq_true, contains_eq_mem, decide_eq_true_eq] at hout
  obtain ⟨⟨hfail, hplaced⟩, hafter⟩ := hout
  obtain ⟨after, hstep, hview⟩ := (Option.any_eq_true _ _).mp hafter
  obtain ⟨view, hmint, hread⟩ := (Option.any_eq_true _ _).mp hview
  obtain ⟨v, hv, hwriter⟩ := (Option.any_eq_true _ _).mp hread
  have hminted : after.manager.mintReadView 0 = .ok view := by
    cases h : after.manager.mintReadView 0 with
    | error e => rw [h] at hmint; cases hmint
    | ok other =>
      rw [h] at hmint
      exact congrArg Except.ok (Option.some.inj hmint)
  exact hclaim s 2 sampleInsertStatement out hreach hrun hfail _ after after
    Relation.ReflTransGen.refl hstep Relation.ReflTransGen.refl 6 hplaced
    ⟨view, .inl ⟨0, hminted⟩, v, hv, by simpa using hwriter⟩

end Kds.Server
