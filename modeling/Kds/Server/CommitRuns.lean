/-
  Kds.Server.CommitRuns

  What a refused commit leaves, over whole runs.

  The enforcer takes a transaction's reservations off its pending list before the first step that
  can fail, so once a commit has been refused nothing can take them back: the headers keep what
  the transaction moved.  An autocommit statement's transaction, moreover, is neither aborted nor
  erased, and a group commit whose wait fails has been committed.  `failed_commit_undone_iff` says
  that these are the only ways a refused commit leaves something behind.
-/

import Kds.Server.CommitPaths

namespace Kds.Server

open Exec Lib
open Function (update update_self update_of_ne)

-- Unwinding a trail

/-- What a trail says a row held before its first entry for the row. -/
def oldestPrior : List WriteEntry → Nat → Option StoredRow
  | [], _ => none
  | entry :: rest, row =>
    match oldestPrior rest row with
    | some v => some v
    | none => if entry.row = row then some entry.prior else none

theorem unwind_apply (trail : List WriteEntry) (rows : Nat → StoredRow) (row : Nat) :
    CommitState.unwind trail rows row = (oldestPrior trail row).getD (rows row) := by
  induction trail generalizing rows with
  | nil => rfl
  | cons entry rest ih =>
    rw [CommitState.unwind, ih, oldestPrior]
    cases oldestPrior rest row with
    | some v => rfl
    | none =>
      by_cases hrow : entry.row = row
      · simp [hrow]
      · simp [hrow, update_of_ne (Ne.symm hrow)]

theorem unwind_eq_or_mem (trail : List WriteEntry) (rows : Nat → StoredRow) (row : Nat) :
    CommitState.unwind trail rows row = rows row ∨
      ∃ entry ∈ trail, entry.row = row ∧ CommitState.unwind trail rows row = entry.prior := by
  induction trail generalizing rows with
  | nil => exact .inl rfl
  | cons entry rest ih =>
    rw [CommitState.unwind]
    rcases ih (update rows entry.row entry.prior) with heq | ⟨later, hmem, hrow, heq⟩
    · by_cases hrow : entry.row = row
      · exact .inr ⟨entry, List.mem_cons_self, hrow, by rw [heq, ← hrow, update_self]⟩
      · exact .inl (by rw [heq, update_of_ne (Ne.symm hrow)])
    · exact .inr ⟨later, List.mem_cons_of_mem _ hmem, hrow, heq⟩

-- The trails of the live set

/-- What holds of one transaction of the live set: the rows it has written are its own, and its
    trail knows what they held. -/
structure TxnTraced (s : CommitState) (t : TxnId) (entry : TxnEntry) : Prop where
  active : entry.active = true
  pos : 0 < t
  written : ∀ row v, s.original t row = some v → v.writer ≠ t ∧ (s.rows row).writer = t
  own : ∀ row, (s.rows row).writer = t → (s.original t row).isSome = true
  trailRows : ∀ w ∈ entry.trail, (s.original t w.row).isSome = true
  priors : ∀ w ∈ entry.trail, w.prior.writer < s.nextTrxId ∧
    (w.prior.writer = t ∨ s.txns w.prior.writer = none)
  restores : entry.failed = false → ∀ row, oldestPrior entry.trail row = s.original t row

/-- **The run invariant.** -/
structure Traced (s : CommitState) : Prop where
  txn : ∀ t entry, s.txns t = some entry → TxnTraced s t entry
  below : ∀ t entry, s.txns t = some entry → t < s.nextTrxId
  rowsBelow : ∀ row, (s.rows row).writer < s.nextTrxId
  fresh : ∀ t, s.nextTrxId ≤ t → ∀ row, s.original t row = none
  started : 0 < s.nextTrxId

variable {s s' : CommitState}

theorem Traced.of_eq (h : Traced s) (hrows : s'.rows = s.rows)
    (htxns : s'.txns = s.txns) (hnext : s'.nextTrxId = s.nextTrxId)
    (horiginal : s'.original = s.original) : Traced s' := by
  constructor
  · intro t entry ht
    rw [htxns] at ht
    obtain ⟨h₁, h₂, h₃, h₄, h₅, h₆, h₇⟩ := h.txn t entry ht
    constructor <;> simpa only [hrows, htxns, hnext, horiginal]
  · simpa only [htxns, hnext] using h.below
  · simpa only [hrows, hnext] using h.rowsBelow
  · simpa only [horiginal, hnext] using h.fresh
  · simpa only [hnext] using h.started

variable {t : TxnId} {entry : TxnEntry} {row : Nat} {err : Option Status}
    {stop : Option (Nat × Status)}

theorem TxnTraced.of_other (h : TxnTraced s t entry) (hnext : s.nextTrxId ≤ s'.nextTrxId)
    (hpriors : ∀ v, v < s.nextTrxId → s.txns v = none → s'.txns v = none)
    (horiginal : s'.original t = s.original t)
    (hkept : ∀ row, (s.rows row).writer = t → s'.rows row = s.rows row)
    (hnew : ∀ row, (s'.rows row).writer = t → s'.rows row = s.rows row) :
    TxnTraced s' t entry where
  active := h.active
  pos := h.pos
  written row v hv := by
    rw [horiginal] at hv
    obtain ⟨hne, hwriter⟩ := h.written row v hv
    exact ⟨hne, by rw [hkept row hwriter]; exact hwriter⟩
  own row hrow := by
    rw [horiginal]
    exact h.own row (by rw [← hnew row hrow]; exact hrow)
  trailRows w hw := by
    rw [horiginal]
    exact h.trailRows w hw
  priors w hw := by
    obtain ⟨hlt, hprior⟩ := h.priors w hw
    exact ⟨Nat.lt_of_lt_of_le hlt hnext, hprior.imp_right fun hnone => hpriors _ hlt hnone⟩
  restores hok row := by
    rw [horiginal]
    exact h.restores hok row

theorem Traced.writer_of_writableBy (h : Traced s) {u : TxnId} (ht : s.txns t = some entry)
    (hrow : (s.rows row).writer = t) (hwritable : s.writableBy u row = true) : t = u := by
  simp only [CommitState.writableBy, hrow, ht, Option.any_some, (h.txn t entry ht).active,
    Bool.not_true, Bool.or_false, beq_iff_eq] at hwritable
  exact hwritable

theorem Traced.setTxn (h : Traced s) {entry' : TxnEntry} (ht : s.txns t = some entry)
    (hactive : entry'.active = true) (htrail : entry'.trail = entry.trail)
    (hfailed : entry'.failed = false → entry.failed = false) : Traced (s.setTxn t entry') := by
  have hnone : ∀ v, s.txns v = none → (s.setTxn t entry').txns v = none := by
    intro v hv
    have hne : v ≠ t := fun heq => by simp [heq, ht] at hv
    simpa [CommitState.setTxn, update_of_ne hne] using hv
  constructor
  · intro u e hu
    by_cases htu : u = t
    · subst htu
      obtain rfl : entry' = e := by simpa [CommitState.setTxn] using hu
      obtain ⟨_, hpos, hwritten, hown, htrailRows, hpriors, hrestores⟩ := h.txn u entry ht
      refine ⟨hactive, hpos, hwritten, hown, htrail ▸ htrailRows, ?_, ?_⟩
      · intro w hw
        obtain ⟨hlt, hprior⟩ := hpriors w (htrail ▸ hw)
        exact ⟨hlt, hprior.imp_right (hnone _)⟩
      · intro hok row
        rw [htrail]
        exact hrestores (hfailed hok) row
    · have hu' : s.txns u = some e := by
        simpa [CommitState.setTxn, update_of_ne htu] using hu
      exact (h.txn u e hu').of_other (Nat.le_refl _) (fun v _ => hnone v) rfl (fun _ _ => rfl)
        fun _ _ => rfl
  · intro u e hu
    by_cases htu : u = t
    · exact htu ▸ h.below t entry ht
    · exact h.below u e (by simpa [CommitState.setTxn, update_of_ne htu] using hu)
  · exact h.rowsBelow
  · exact h.fresh
  · exact h.started

theorem Traced.writeRow (h : Traced s) (ht : s.txns t = some entry)
    (values : Option (List AstValue)) (entry' : TxnEntry)
    (hfree : (s.rows row).writer = t ∨ s.txns (s.rows row).writer = none)
    (hactive : entry'.active = true) (htrail : entry'.trail = entry.trail ∧ entry'.failed = true ∨
      entry'.trail = ⟨row, s.rows row⟩ :: entry.trail ∧
        (entry'.failed = false → entry.failed = false)) :
    Traced ((s.writeRow t row values).setTxn t entry') := by
  have htxns : ∀ v, s.txns v = none → ((s.writeRow t row values).setTxn t entry').txns v =
    none := by
    intro v hv
    have hne : v ≠ t := fun heq => by simp [heq, ht] at hv
    simpa [CommitState.setTxn, CommitState.writeRow, update_of_ne hne] using hv
  have hrows : ∀ r, ((s.writeRow t row values).setTxn t entry').rows r =
      if r = row then { values := values, writer := t } else s.rows r := by
    intro r
    by_cases hr : r = row
    · simp [CommitState.setTxn, CommitState.writeRow, hr]
    · simp [CommitState.setTxn, CommitState.writeRow, hr]
  have hown : ∀ r, ((s.writeRow t row values).setTxn t entry').original t r =
      if r = row then some ((s.original t row).getD (s.rows row)) else s.original t r := by
    intro r
    by_cases hr : r = row
    · simp [CommitState.setTxn, CommitState.writeRow, hr]
    · simp [CommitState.setTxn, CommitState.writeRow, hr]
  have hother : ∀ u, u ≠ t →
      ((s.writeRow t row values).setTxn t entry').original u = s.original u := by
    intro u hu
    simp [CommitState.setTxn, CommitState.writeRow, update_of_ne hu]
  have htraced := h.txn t entry ht
  constructor
  · intro u e hu
    by_cases htu : u = t
    · subst htu
      obtain rfl : entry' = e := by simpa [CommitState.setTxn] using hu
      refine ⟨hactive, htraced.pos, ?_, ?_, ?_, ?_, ?_⟩
      · intro r v hv
        rw [hown] at hv
        rw [hrows]
        by_cases hr : r = row
        · rw [if_pos hr] at hv ⊢
          refine ⟨?_, rfl⟩
          cases hv
          cases horiginal : s.original u row with
          | some v => exact (htraced.written row v horiginal).1
          | none =>
            intro hwriter
            have := htraced.own row hwriter
            rw [horiginal] at this
            cases this
        · rw [if_neg hr] at hv ⊢
          exact htraced.written r v hv
      · intro r hr
        rw [hown]
        by_cases hrow : r = row
        · rw [if_pos hrow]
          rfl
        · rw [if_neg hrow]
          rw [hrows, if_neg hrow] at hr
          exact htraced.own r hr
      · intro w hw
        rw [hown]
        split
        · rfl
        · next hrow =>
          rcases htrail with ⟨hsame, _⟩ | ⟨hcons, _⟩
          · exact htraced.trailRows w (hsame ▸ hw)
          · rcases List.mem_cons.mp (hcons ▸ hw) with rfl | hold
            · exact absurd rfl hrow
            · exact htraced.trailRows w hold
      · intro w hw
        have hbefore : w ∈ entry.trail ∨ w = ⟨row, s.rows row⟩ := by
          rcases htrail with ⟨hsame, _⟩ | ⟨hcons, _⟩
          · exact .inl (hsame ▸ hw)
          · exact (List.mem_cons.mp (hcons ▸ hw)).symm
        rcases hbefore with hold | rfl
        · obtain ⟨hlt, hprior⟩ := htraced.priors w hold
          exact ⟨hlt, hprior.imp_right (htxns _)⟩
        · exact ⟨h.rowsBelow row, hfree.imp_right (htxns _)⟩
      · intro hok r
        rcases htrail with ⟨_, hfailed⟩ | ⟨hcons, hfailed⟩
        · rw [hok] at hfailed
          cases hfailed
        · have hrestores := htraced.restores (hfailed hok)
          rw [hcons, oldestPrior, hown, hrestores r]
          by_cases hr : r = row
          · subst hr
            cases s.original u r <;> simp
          · rw [if_neg hr, if_neg (Ne.symm hr)]
            cases s.original u r <;> rfl
    · have hu' : s.txns u = some e := by
        simpa [CommitState.setTxn, CommitState.writeRow, update_of_ne htu] using hu
      refine (h.txn u e hu').of_other (Nat.le_refl _) (fun v _ => htxns v) (hother u htu) ?_ ?_
      · intro r hr
        rw [hrows, if_neg]
        rintro rfl
        rcases hfree with hmine | hgone
        · exact htu (hr.symm.trans hmine)
        · rw [hr, hu'] at hgone
          cases hgone
      · intro r hr
        rw [hrows] at hr ⊢
        by_cases hrow : r = row
        · rw [if_pos hrow] at hr
          exact absurd hr.symm htu
        · rw [if_neg hrow]
  · intro u e hu
    by_cases htu : u = t
    · exact htu ▸ h.below t entry ht
    · exact h.below u e
        (by simpa [CommitState.setTxn, CommitState.writeRow, update_of_ne htu] using hu)
  · intro r
    rw [hrows]
    split
    · exact h.below t entry ht
    · exact h.rowsBelow r
  · intro u hu r
    have hne : u ≠ t := fun heq => by
      have := h.below t entry ht
      exact absurd (heq ▸ hu) (Nat.not_le.mpr this)
    rw [hother u hne]
    exact h.fresh u hu r
  · exact h.started

theorem Traced.remove (h : Traced s) (ht : s.txns t = some entry) (trail : List WriteEntry)
    (htrail : ∀ w ∈ trail, w ∈ entry.trail) :
    Traced { s with
      rows := CommitState.unwind trail s.rows, txns := update s.txns t none } := by
  have htraced := h.txn t entry ht
  have hnone : ∀ v, s.txns v = none → update s.txns t none v = none := by
    intro v hv
    by_cases hne : v = t
    · rw [hne, update_self]
    · rw [update_of_ne hne]
      exact hv
  have hchanged : ∀ r, CommitState.unwind trail s.rows r = s.rows r ∨
      (s.rows r).writer = t ∧ ∃ w ∈ entry.trail, CommitState.unwind trail s.rows r = w.prior := by
    intro r
    refine (unwind_eq_or_mem trail s.rows r).imp_right ?_
    rintro ⟨w, hw, rfl, heq⟩
    obtain ⟨v, hv⟩ := Option.isSome_iff_exists.mp (htraced.trailRows w (htrail w hw))
    exact ⟨(htraced.written w.row v hv).2, w, htrail w hw, heq⟩
  constructor
  · intro u e hu
    have htu : u ≠ t := fun heq => by simp [heq] at hu
    have hu' : s.txns u = some e := by simpa [update_of_ne htu] using hu
    refine (h.txn u e hu').of_other (Nat.le_refl _) (fun v _ => hnone v) rfl ?_ ?_
    · intro r hr
      rcases hchanged r with hsame | ⟨hwriter, _⟩
      · exact hsame
      · exact absurd (hr.symm.trans hwriter) htu
    · intro r hr
      rcases hchanged r with hsame | ⟨_, w, hw, heq⟩
      · exact hsame
      · change (CommitState.unwind trail s.rows r).writer = u at hr
        rw [heq] at hr
        rcases (htraced.priors w hw).2 with hmine | hgone
        · exact absurd (hr.symm.trans hmine) htu
        · rw [hr, hu'] at hgone
          cases hgone
  · intro u e hu
    have htu : u ≠ t := fun heq => by simp [heq] at hu
    exact h.below u e (by simpa [update_of_ne htu] using hu)
  · intro r
    rcases hchanged r with hsame | ⟨_, w, hw, heq⟩
    · show (CommitState.unwind trail s.rows r).writer < s.nextTrxId
      rw [hsame]
      exact h.rowsBelow r
    · show (CommitState.unwind trail s.rows r).writer < s.nextTrxId
      rw [heq]
      exact (htraced.priors w hw).1
  · exact h.fresh
  · exact h.started

-- Every step keeps the trails

theorem Traced.drop (h : Traced s) (ht : s.txns t = some entry) :
    Traced { s with txns := update s.txns t none } :=
  (h.remove ht [] (fun w hw => (by cases hw))).of_eq rfl rfl rfl rfl

theorem Traced.abortAndRelease (h : Traced s) (ht : s.txns t = some entry) :
    Traced (s.abortAndRelease t entry) :=
  (h.remove ht entry.trail (fun _ hw => hw)).of_eq rfl rfl rfl rfl

theorem Traced.release (h : Traced s) (t : TxnId) : Traced (s.release t) := by
  unfold CommitState.release
  split
  · next entry ht =>
    split
    · exact h
    · exact h.drop ht
  · exact h

variable {env : CommitState.CommitEnv}

theorem managerCommit_release (hrun : s.managerCommit env t entry = (s', none)) :
    s'.release t = { s with txns := update s.txns t none } := by
  unfold CommitState.managerCommit at hrun
  split at hrun
  · cases hrun
  · obtain ⟨rfl, -⟩ := Prod.mk.inj hrun
    simp [CommitState.release, CommitState.setTxn]

variable {status : Status}

theorem managerCommit_refused
    (hrun : s.managerCommit env t entry = (s', some status)) : s' = s := by
  unfold CommitState.managerCommit at hrun
  split at hrun
  · exact (Prod.mk.inj hrun).1.symm
  · cases hrun

theorem Traced.commitEnd (h : Traced s) (ht : s.txns t = some entry) :
    Traced (s.commitEnd env t entry).1 := by
  have hsettled : ∀ s₁ err, s.commitTxn env t = (s₁, err) → Traced s₁ ∧ s₁.txns t = some entry := by
    intro s₁ err hrun
    obtain ⟨rfl, -⟩ := Prod.mk.inj hrun
    exact ⟨h.of_eq rfl rfl rfl rfl, ht⟩
  have hnobody : ∀ s₁, Traced s₁ → s₁.txns t = some entry →
      Traced (s₁.setTxn t { entry with holder := .nobody }) := fun s₁ h₁ ht₁ =>
    h₁.setTxn ht₁ (h₁.txn t entry ht₁).active rfl id
  unfold CommitState.commitEnd
  split
  · unfold CommitState.handleCommit
    split
    · next s₁ status hrun => exact (hsettled s₁ _ hrun).1
    · next s₁ hrun =>
      obtain ⟨h₁, ht₁⟩ := hsettled s₁ _ hrun
      split
      · next s₂ status hcommit =>
        obtain rfl := managerCommit_refused hcommit
        exact h₁.abortAndRelease ht₁
      · next s₂ hcommit =>
        dsimp only
        rw [managerCommit_release hcommit]
        exact h₁.drop ht₁
  · unfold CommitState.endWriteOk
    split
    · next s₁ status hrun =>
      obtain ⟨h₁, ht₁⟩ := hsettled s₁ _ hrun
      exact hnobody s₁ h₁ ht₁
    · next s₁ hrun =>
      obtain ⟨h₁, ht₁⟩ := hsettled s₁ _ hrun
      split
      · next s₂ status hcommit =>
        obtain rfl := managerCommit_refused hcommit
        exact (hnobody s₂ h₁ ht₁).release t
      · next s₂ hcommit =>
        dsimp only
        rw [managerCommit_release hcommit]
        exact h₁.drop ht₁
  · exact h

theorem enforcerAbort_frame (hrun : s.enforcerAbort t stop = (s', err)) :
    s'.rows = s.rows ∧ s'.txns = s.txns ∧ s'.nextTrxId = s.nextTrxId ∧
      s'.original = s.original := by
  unfold CommitState.enforcerAbort at hrun
  split at hrun
  · obtain ⟨rfl, -⟩ := Prod.mk.inj hrun
    exact ⟨rfl, rfl, rfl, rfl⟩
  · dsimp only at hrun
    split at hrun
    · obtain ⟨rfl, -⟩ := Prod.mk.inj hrun
      exact ⟨rfl, rfl, rfl, rfl⟩
    · obtain ⟨rfl, -⟩ := Prod.mk.inj hrun
      exact ⟨rfl, rfl, rfl, rfl⟩

theorem Traced.enforcerAbort (h : Traced s) (hrun : s.enforcerAbort t stop = (s', err)) :
    Traced s' := by
  obtain ⟨hrows, htxns, hnext, horiginal⟩ := enforcerAbort_frame hrun
  exact h.of_eq hrows htxns hnext horiginal

theorem Traced.handleRollback (h : Traced s) (ht : s.txns t = some entry)
    (stop : Option (Nat × Status)) : Traced (s.handleRollback t entry stop).1 := by
  unfold CommitState.handleRollback
  split
  · next s₁ status hrun => exact h.enforcerAbort hrun
  · next s₁ hrun =>
    have ht₁ : s₁.txns t = some entry := by rw [(enforcerAbort_frame hrun).2.1, ht]
    exact (h.enforcerAbort hrun).abortAndRelease ht₁

theorem Traced.endWriteFailed (h : Traced s) (ht : s.txns t = some entry)
    (stop : Option (Nat × Status)) : Traced (s.endWriteFailed t entry stop).1 := by
  unfold CommitState.endWriteFailed
  split
  · next s₁ status hrun =>
    have ht₁ : s₁.txns t = some entry := by rw [(enforcerAbort_frame hrun).2.1, ht]
    have h₁ := h.enforcerAbort hrun
    exact h₁.setTxn ht₁ (h₁.txn t entry ht₁).active rfl id
  · next s₁ hrun =>
    have ht₁ : s₁.txns t = some entry := by rw [(enforcerAbort_frame hrun).2.1, ht]
    exact (h.enforcerAbort hrun).abortAndRelease ht₁

theorem Traced.fail (h : Traced s) (ht : s.txns t = some entry) : Traced (s.fail t entry) :=
  h.setTxn ht (h.txn t entry ht).active rfl fun hok => by cases hok

section

variable {chainAppend : Nat → StatusOr EntryAt} {formatValue : Nat → AstValue → String}
  {relationOf : Nat → Oid}

variable {s : CommitState}

variable {row : Nat} {undoOk : Bool} {values : Option (List AstValue)}

theorem Traced.insertRow (h : Traced s) (ht : s.txns t = some entry) {oid : Oid}
    {values : List AstValue} (hunused : s.rows row = {}) :
    Traced (s.insertRow chainAppend formatValue t entry oid row values undoOk) := by
  have hfree : (s.rows row).writer = t ∨ s.txns (s.rows row).writer = none := by
    refine .inr ?_
    rw [hunused]
    show s.txns 0 = none
    cases hzero : s.txns 0 with
    | none => rfl
    | some e => exact absurd (h.txn 0 e hzero).pos (Nat.lt_irrefl 0)
  have hactive := (h.txn t entry ht).active
  unfold CommitState.insertRow
  split
  · exact h.fail ht
  · dsimp only
    split
    · exact (h.writeRow ht (some values) { entry with failed := true } hfree hactive
        (.inl ⟨rfl, rfl⟩)).of_eq rfl rfl rfl rfl
    · exact (h.writeRow ht (some values)
        { entry with trail := ⟨row, s.rows row⟩ :: entry.trail } hfree hactive
        (.inr ⟨rfl, id⟩)).of_eq rfl rfl rfl rfl

theorem Traced.overwriteRow (h : Traced s) (ht : s.txns t = some entry)
    {out : Outcome (List LiveAssertion × Reserving)} (hwritable : s.writableBy t row = true) :
    Traced (s.overwriteRow t entry row out values undoOk) := by
  have hfree : (s.rows row).writer = t ∨ s.txns (s.rows row).writer = none := by
    cases hwriter : s.txns (s.rows row).writer with
    | none => exact .inr rfl
    | some e => exact .inl (h.writer_of_writableBy hwriter rfl hwritable)
  have hactive := (h.txn t entry ht).active
  unfold CommitState.overwriteRow
  dsimp only
  split
  · exact (h.fail ht).of_eq rfl rfl rfl rfl
  · exact (h.writeRow ht values { entry with trail := ⟨row, s.rows row⟩ :: entry.trail }
      hfree hactive (.inr ⟨rfl, id⟩)).of_eq rfl rfl rfl rfl

theorem Traced.begin {s : CommitState} (h : Traced s) (holder : Holder) :
    Traced { s.setTxn s.nextTrxId { holder := holder } with nextTrxId := s.nextTrxId + 1 } := by
  have hnone : ∀ v, v < s.nextTrxId → s.txns v = none →
      (s.setTxn s.nextTrxId { holder := holder }).txns v = none := by
    intro v hlt hv
    simpa [CommitState.setTxn, update_of_ne (Nat.ne_of_lt hlt)] using hv
  constructor
  · intro u e hu
    by_cases hnew : u = s.nextTrxId
    · subst hnew
      obtain rfl : { holder := holder } = e := by simpa [CommitState.setTxn] using hu
      have hfresh := h.fresh s.nextTrxId (Nat.le_refl _)
      refine ⟨rfl, h.started, ?_, ?_, ?_, ?_, ?_⟩
      · intro row v hv
        exact absurd hv (by simp [CommitState.setTxn, hfresh])
      · intro row hrow
        change (s.rows row).writer = s.nextTrxId at hrow
        exact absurd (h.rowsBelow row) (by rw [hrow]; exact Nat.lt_irrefl _)
      · intro w hw
        cases hw
      · intro w hw
        cases hw
      · intro _ row
        exact (hfresh row).symm
    · have hu' : s.txns u = some e := by
        simpa [CommitState.setTxn, update_of_ne hnew] using hu
      exact (h.txn u e hu').of_other (Nat.le_succ _) hnone rfl (fun _ _ => rfl) fun _ _ => rfl
  · intro u e hu
    by_cases hnew : u = s.nextTrxId
    · exact hnew ▸ Nat.lt_succ_self _
    · have hu' : s.txns u = some e := by
        simpa [CommitState.setTxn, update_of_ne hnew] using hu
      exact Nat.lt_succ_of_lt (h.below u e hu')
  · exact fun row => Nat.lt_succ_of_lt (h.rowsBelow row)
  · exact fun u hu => h.fresh u (Nat.le_of_succ_le hu)
  · exact Nat.succ_pos _

variable {s' : CommitState}

variable {t : TxnId} {allowed : TxnEntry → Bool} {body : TxnEntry → CommitState}

theorem stepOf_eq_some (h : stepOf s t allowed body = some s') :
    ∃ entry, s.txns t = some entry ∧ allowed entry = true ∧ s' = s.account t (body entry) := by
  unfold stepOf at h
  split at h
  · next entry ht =>
    split at h
    · next hallowed => exact ⟨entry, ht, hallowed, (Option.some.inj h).symm⟩
    · cases h
  · cases h

theorem Traced.stepOf (h : Server.stepOf s t allowed body = some s')
    (hbody : ∀ entry, s.txns t = some entry → Traced (body entry)) : Traced s' := by
  obtain ⟨entry, ht, _, rfl⟩ := stepOf_eq_some h
  exact (hbody entry ht).of_eq rfl rfl rfl rfl

theorem Traced.writeStep (h : Traced s)
    {reserve : List AstValue → Outcome (List LiveAssertion × Reserving)}
    (hrun : Server.writeStep s t row values undoOk reserve = some s') : Traced s' := by
  unfold Server.writeStep at hrun
  split at hrun
  · apply Traced.stepOf hrun
    intro entry ht
    split
    · next hwritable => exact h.overwriteRow ht hwritable
    · exact h.fail ht
  · cases hrun

/-- Every step of a commit or an abort leaves trails that restore their rows. -/
theorem Traced.step (a : CommitAction) (h : Traced s)
    (hrun : commitStep chainAppend formatValue relationOf s a = some s') : Traced s' := by
  cases a with
  | begin holder =>
    simp only [commitStep] at hrun
    split at hrun
    · cases hrun
    · cases hrun
      exact h.begin holder
  | insert t row values undoOk =>
    simp only [commitStep] at hrun
    split at hrun
    · next hunused => exact Traced.stepOf hrun fun entry ht => h.insertRow ht hunused
    · cases hrun
  | update t row values undoOk => exact h.writeStep hrun
  | delete t row undoOk => exact h.writeStep hrun
  | fail t => exact Traced.stepOf hrun fun entry ht => h.fail ht
  | commit t env => exact Traced.stepOf hrun fun entry ht => h.commitEnd ht
  | rollback t stop => exact Traced.stepOf hrun fun entry ht => h.handleRollback ht stop
  | endFailed t stop => exact Traced.stepOf hrun fun entry ht => h.endWriteFailed ht stop

end

-- A refused commit

/-- The transaction's steps, taken together, have left the rows it wrote and every group as they
    were, and it is gone from the manager's live set. -/
structure Undone (t : TxnId) (s s' : CommitState) : Prop where
  rows : ∀ row v, s.original t row = some v → s'.rows row = v
  headers : ∀ id key, s'.moved t id key = (0, 0)
  gone : s'.txns t = none

/-- The state once a commit of `t` was refused, what follows of itself has followed, and the
    client has sent ROLLBACK. -/
def afterFailedCommit (env : CommitState.CommitEnv) (s : CommitState) (t : TxnId)
    (entry : TxnEntry) (stop : Option (Nat × Status)) : CommitState :=
  s.account t ((s.commitEnd env t entry).1.clientRollback t stop)

/-- The commit was refused by the wait for the device: the enforcer and the commit record had let
    it through. -/
def RefusedByWait (env : CommitState.CommitEnv) (s : CommitState) (t : TxnId) : Prop :=
  (s.commitTxn env t).2 = none ∧ env.commitRecord = none

instance (env : CommitState.CommitEnv) (s : CommitState) (t : TxnId) :
    Decidable (RefusedByWait env s t) := by
  unfold RefusedByWait
  infer_instance

/-- What a refused commit and the ROLLBACK behind it come to, but for the pending lists: an
    explicit transaction's rows are unwound and its entry erased; a statement's transaction stays
    as it is, in nobody's hands; one refused by the wait has committed. -/
theorem failedCommit_cases (stop : Option (Nat × Status))
    (ht : s.txns t = some entry) (hactive : entry.active = true)
    (hrefused : (s.commitEnd env t entry).2 = some status) :
    let s' := (s.commitEnd env t entry).1.clientRollback t stop
    s'.live = s.live ∧
      ((¬ RefusedByWait env s t ∧ entry.holder = .session ∧
          s'.rows = CommitState.unwind entry.trail s.rows ∧ s'.txns t = none) ∨
        (¬ RefusedByWait env s t ∧ entry.holder = .statement ∧ s'.txns t ≠ none) ∨
        (RefusedByWait env s t ∧ s'.rows = s.rows ∧ s'.txns t = none)) := by
  unfold RefusedByWait
  cases hholder : entry.holder with
  | nobody => simp [CommitState.commitEnd, hholder] at hrefused
  | session =>
    simp only [CommitState.commitEnd, hholder, CommitState.handleCommit] at hrefused ⊢
    cases hsettle : s.commitTxn env t with
    | mk s₁ err =>
      obtain ⟨rfl, -⟩ := Prod.mk.inj hsettle
      cases err with
      | some e =>
        simp [CommitState.clientRollback, ht, hholder, CommitState.handleRollback,
          CommitState.enforcerAbort, CommitState.abortAndRelease]
      | none =>
        cases hrecord : env.commitRecord with
        | some e =>
          simp [CommitState.managerCommit, hrecord, CommitState.abortAndRelease,
            CommitState.clientRollback]
        | none =>
          simp [CommitState.managerCommit, hrecord, CommitState.release,
            CommitState.setTxn, CommitState.clientRollback]
  | statement =>
    simp only [CommitState.commitEnd, hholder, CommitState.endWriteOk] at hrefused ⊢
    cases hsettle : s.commitTxn env t with
    | mk s₁ err =>
      obtain ⟨rfl, -⟩ := Prod.mk.inj hsettle
      cases err with
      | some e => simp [CommitState.setTxn, CommitState.clientRollback]
      | none =>
        cases hrecord : env.commitRecord with
        | some e =>
          simp [CommitState.managerCommit, hrecord, CommitState.release,
            CommitState.setTxn, CommitState.clientRollback, hactive]
        | none =>
          simp [CommitState.managerCommit, hrecord, CommitState.release,
            CommitState.setTxn, CommitState.clientRollback]

/-- A database before its first transaction, with some assertions built. -/
def CommitState.initial (live : List LiveAssertion) : CommitState := { live := live }

theorem traced_initial (live : List LiveAssertion) : Traced (.initial live) where
  txn t entry ht := by cases ht
  below t entry ht := by cases ht
  rowsBelow row := (by decide : (0 : Nat) < 2)
  fresh t _ row := rfl
  started := (by decide : (0 : Nat) < 2)

/-- **When a refused commit leaves nothing.**  In every state a run reaches and for every
    transaction whose commit is refused there, the refusal, what follows of itself and the client's
    ROLLBACK leave nothing of it exactly when its statements had moved no group's count or sum in
    total, and either it was explicit and not refused by the wait for the device, or it was refused
    by that wait and had written no row. -/
theorem failed_commit_undone_iff {chainAppend : Nat → StatusOr EntryAt}
    {formatValue : Nat → AstValue → String} {relationOf : Nat → Oid} {live : List LiveAssertion}
    {s : CommitState} {t : TxnId} {entry : TxnEntry} {env : CommitState.CommitEnv}
    {status : Status} (stop : Option (Nat × Status))
    (hreach : Reach (commitStep chainAppend formatValue relationOf) (fun _ _ => True)
      (.initial live) s)
    (ht : s.txns t = some entry) (hopen : entry.isOpen = true)
    (hrefused : (s.commitEnd env t entry).2 = some status) :
    Undone t s (afterFailedCommit env s t entry stop) ↔
      (∀ id key, s.moved t id key = (0, 0)) ∧
        if RefusedByWait env s t then ∀ row, s.original t row = none
        else entry.holder = .session := by
  have htraced : Traced s := hreach.invariant (traced_initial live) fun a h _ hrun => h.step a hrun
  have hentry := htraced.txn t entry ht
  obtain ⟨hlive, hcases⟩ := failedCommit_cases stop ht hentry.active hrefused
  have hmoved : ∀ id key,
      (afterFailedCommit env s t entry stop).moved t id key = s.moved t id key := by
    intro id key
    show update s.moved t _ t id key = _
    rw [update_self, hlive]
    apply Prod.ext
    · show (s.moved t id key).1 + _ = _
      simp
    · show (s.moved t id key).2 + _ = _
      simp
  have hok : entry.failed = false := by
    simp only [TxnEntry.isOpen, Bool.and_eq_true, Bool.not_eq_true'] at hopen
    exact hopen.1.2
  rcases hcases with ⟨hwait, hholder, hrows, hgone⟩ | ⟨hwait, hholder, hstays⟩ | ⟨hwait, hrows,
    hgone⟩
  · -- explicit: the trail puts back what each row held
    rw [if_neg hwait]
    constructor
    · intro h
      exact ⟨fun id key => (hmoved id key).symm.trans (h.headers id key), hholder⟩
    · rintro ⟨hzero, _⟩
      refine ⟨fun row v hv => ?_, fun id key => (hmoved id key).trans (hzero id key), hgone⟩
      show ((s.commitEnd env t entry).1.clientRollback t stop).rows row = v
      rw [hrows, unwind_apply, hentry.restores hok row, hv]
      rfl
  · -- a statement's own: still in the live set
    rw [if_neg hwait, hholder]
    constructor
    · intro h
      exact absurd h.gone hstays
    · rintro ⟨_, hsession⟩
      cases hsession
  · -- committed: a row it wrote carries its id, which none of the versions before it does
    rw [if_pos hwait]
    constructor
    · intro h
      refine ⟨fun id key => (hmoved id key).symm.trans (h.headers id key), fun row => ?_⟩
      cases hv : s.original t row with
      | none => rfl
      | some v =>
        have hback : s.rows row = v := by
          have := h.rows row v hv
          change ((s.commitEnd env t entry).1.clientRollback t stop).rows row = v at this
          rwa [hrows] at this
        obtain ⟨hne, hwriter⟩ := hentry.written row v hv
        exact absurd (hback ▸ hwriter) hne
    · rintro ⟨hzero, hunwritten⟩
      refine ⟨fun row v hv => ?_, fun id key => (hmoved id key).trans (hzero id key), hgone⟩
      rw [hunwritten row] at hv
      cases hv

/-- One assertion: at most ten rows of relation 1 to a value of its second column. -/
def tenPerGroup : LiveAssertion where
  decl := {
    assertionId := 7, targetOid := 1, name := "ten", aggregate := .count, bound := 10
    groupCols := [1] }
  cabin := {}

/-- Row 0 is of relation 1, which the assertion is on, every other row of relation 2. -/
def sampleRowRelation (row : Nat) : Oid := if row = 0 then 1 else 2

def sampleStep : CommitState → CommitAction → Option CommitState :=
  commitStep (fun n => .ok (200, n)) (fun _ _ => "") sampleRowRelation

def sampleRow : List AstValue := [.ofInt 1, .ofInt 5]

/-- The commit record cannot be written. -/
def logFull : CommitState.CommitEnv := { commitRecord := some (.outOfSpace "log full") }

/-- An explicit transaction whose row no assertion counts: refused by the log, it leaves
    nothing. -/
theorem refused_commit_of_uncounted_row :
    ∃ s entry, Reach sampleStep (fun _ _ => True) (.initial [tenPerGroup]) s ∧
      s.txns 2 = some entry ∧ s.original 2 1 = some {} ∧
      (s.commitEnd logFull 2 entry).2 = some (.outOfSpace "log full") ∧
      Undone 2 s (afterFailedCommit logFull s 2 entry none) := by
  refine ⟨_, _, @reach_of_runList _ _ _ _ [.begin .session, .insert 2 1 sampleRow true]
    (fun _ _ _ => trivial) _ _ rfl, rfl, rfl, rfl, ?_⟩
  refine (failed_commit_undone_iff none (@reach_of_runList _ _ _ _
    [.begin .session, .insert 2 1 sampleRow true] (fun _ _ _ => trivial) _ _ rfl) rfl rfl rfl).mpr
    ⟨fun id key => ?_, rfl⟩
  show (0, 0) + (headerOf [tenPerGroup] id key - headerOf [tenPerGroup] id key) = (0, 0)
  apply Prod.ext <;> simp

/-- The same refusal after a row the assertion counts: the group keeps the row of the rolled-back
    transaction.  And for a statement of its own: the transaction stays in the live set. -/
theorem refused_commit_leaves_count_and_transaction :
    (∃ s, Reach sampleStep (fun _ _ => True) (.initial [tenPerGroup]) s ∧
      ∃ entry, s.txns 2 = some entry ∧ entry.isOpen = true ∧
        (s.commitEnd logFull 2 entry).2 = some (.outOfSpace "log full") ∧
        headerOf s.live 7 (encodeGroupKey [.ofInt 5]) = (1, 1) ∧
        (afterFailedCommit logFull s 2 entry none).txns 2 = none ∧
        (afterFailedCommit logFull s 2 entry none).rows 0 = {} ∧
        headerOf (afterFailedCommit logFull s 2 entry none).live 7 (encodeGroupKey [.ofInt 5]) =
          (1, 1) ∧
        ¬ Undone 2 s (afterFailedCommit logFull s 2 entry none)) ∧
    (∃ s, Reach sampleStep (fun _ _ => True) (.initial [tenPerGroup]) s ∧
      ∃ entry, s.txns 2 = some entry ∧ entry.isOpen = true ∧
        (s.commitEnd logFull 2 entry).2 = some (.outOfSpace "log full") ∧
        (afterFailedCommit logFull s 2 entry none).txns 2 ≠ none ∧
        ¬ Undone 2 s (afterFailedCommit logFull s 2 entry none)) := by
  constructor
  · refine ⟨_, @reach_of_runList _ _ _ _ [.begin .session, .insert 2 0 sampleRow true]
      (fun _ _ _ => trivial) _ _ rfl, _, rfl, rfl, rfl, by decide +kernel, rfl, rfl,
      by decide +kernel, fun h => ?_⟩
    have hzero := h.headers 7 (encodeGroupKey [.ofInt 5])
    revert hzero
    decide +kernel
  · refine ⟨_, @reach_of_runList _ _ _ _ [.begin .statement, .insert 2 1 sampleRow true]
      (fun _ _ _ => trivial) _ _ rfl, _, rfl, rfl, rfl, ?_, fun h => ?_⟩
    · intro hgone
      cases hgone
    · cases h.gone

end Kds.Server
