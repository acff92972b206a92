/-
  Kds.Server.FkInvariant

  Referential integrity, and the invariant that carries it.  `ReferencesHold` is the property of
  one way the transactions in flight may end: each child row that is then committed names a parent
  row that is then live.  The invariant (`Sound`) has it of every such way, together with what the
  checks rely on: one transaction in flight on a row at a time, no open view that sees another one,
  and Cabin sets that have every row which may still turn out to have their value.

  Then what the two checks say in such a state, and what one more version of a row does to it.
-/

import Kds.Lib.Run
import Kds.Lib.VersionStack
import Kds.Server.FkWrites

namespace Kds.Server

open Exec Lib Txn List

-- The property

/-- A row once the transactions in `aborted` have rolled back and the others have committed. -/
abbrev FkState.outcomeOf (s : FkState) (aborted : List Nat) (oid pk : Nat) : Option RowVersion :=
  outcome RowVersion.trxId aborted (s.tables.rows oid pk)

/-- A key that is NULL, or names a parent row that is live in the outcome. -/
def NamesLive (s : FkState) (aborted : List Nat) (parentOid : Nat) (v : AstValue) : Prop :=
  v.type = .null ∨ v.type = .int ∧ ∃ p : Nat, v.intVal = p ∧
    ∃ parent, s.outcomeOf aborted parentOid p = some parent ∧ parent.deleted = false

/-- Every committed child row's foreign keys, in one outcome. -/
def ReferencesHold (cat : Catalog) (s : FkState) (aborted : List Nat) : Prop :=
  ∀ fk ∈ cat.fkeys, ∀ c child, s.outcomeOf aborted fk.childOid c = some child →
    child.deleted = false → ∀ v, child.values[fk.columnNo]? = some v →
    NamesLive s aborted fk.parentOid v

/-- The last value a SET list gives a column. -/
def lastAssigned (access : TableAccess) (assignments : List Assignment) (columnNo : Nat) :
    Option AstValue :=
  assignments.foldl (fun last a =>
    if access.columns.findIdx? (·.name = a.colName) = some columnNo then some a.val.value
    else last) none

/-- **The writes the checks are enough for**, none of them stopped in the middle of a row. -/
def Admissible (cat : Catalog) (s : FkState) : FkAction → Prop
  | .insert _ oid rows _ stranded => stranded = 0 ∧ ∀ row ∈ rows, ∀ fk ∈ cat.fkeysOut oid, ∀ v,
      row.values[fk.columnNo - 1]? = some v → v.type = .int → 0 ≤ v.intVal
  | .update _ oid _ assignments => ∀ access, cat.tables oid = some access →
      ∀ fk ∈ cat.fkeysOut oid, ∀ v, lastAssigned access assignments fk.columnNo = some v →
      firstAssigned access assignments fk.columnNo = some v ∧ (v.type = .int → 0 ≤ v.intVal)
  | .delete id oid pk _ => ∀ fk ∈ cat.fkeysIn oid, ∀ c tuple older,
      s.tables.rows fk.childOid c = tuple :: older → tuple.trxId ∈ s.manager.inFlightIds →
      tuple.trxId ≠ id → hasKey fk.columnNo pk tuple = false →
      ∀ child, s.outcomeOf s.manager.inFlightIds fk.childOid c = some child →
      child.deleted = false → hasKey fk.columnNo pk child = false
  | .abort _ ending => ending = .done
  | _ => True

-- The invariant

/-- A delete mark lies on the live version it deletes. -/
def MarksKeep : List RowVersion → Prop
  | [] => True
  | v :: older => (v.deleted = true →
      ∃ u, older.head? = some u ∧ u.deleted = false ∧ u.values = v.values) ∧ MarksKeep older

/-- A version that some way of ending the transactions in flight leaves. -/
def Possible (inFlight : List Nat) (versions : List RowVersion) (v : RowVersion) : Prop :=
  v ∈ versions ∧ (v.trxId ∈ inFlight ∨ outcome RowVersion.trxId inFlight versions = some v)

/-- An observed value's set has every row that may have the value. -/
def CabinComplete (cat : Catalog) (inFlight : List Nat) (db : Tables) (observed : Observed) :
    Prop :=
  ∀ fk ∈ cat.fkeys, ∀ child, cat.tables fk.childOid = some child →
    child.cabined fk.columnNo = true → ∀ value entries,
    observed fk.childOid fk.columnNo value = some entries → ∀ pk v,
    Possible inFlight (db.rows fk.childOid pk) v → v.deleted = false →
    hasKey fk.columnNo value v = true → pk ∈ entries

/-- What every row keeps: who wrote its versions, and what they hold. -/
structure RowsSound (cat : Catalog) (m : TransactionManager) (db : Tables) : Prop where
  stored : ∀ oid pk, ∀ v ∈ db.rows oid pk, alwaysVisibleTrxId < v.trxId ∧ v.trxId < m.nextId
  layered : ∀ oid pk, Layered RowVersion.trxId m.inFlightIds (db.rows oid pk)
  walked : ∀ oid pk, db.rows oid pk ≠ [] → pk ∈ db.walk oid
  marks : ∀ oid pk, MarksKeep (db.rows oid pk)
  keys : ∀ fk ∈ cat.fkeys, ∀ c, ∀ v ∈ db.rows fk.childOid c,
    ∃ x, v.values[fk.columnNo]? = some x ∧ AstValue.StoredKey x

/-- A transaction's trail has one entry for each version it has on top of a row. -/
def TrailsKept (m : TransactionManager) (db : Tables) (trail : Nat → List (Nat × Nat)) : Prop :=
  (∀ id, id ∉ m.inFlightIds → trail id = []) ∧
  ∀ id ∈ m.inFlightIds, ∀ oid pk, (trail id).count (oid, pk) =
    ((db.rows oid pk).takeWhile fun v => decide (v.trxId = id)).length

structure Sound (cat : Catalog) (s : FkState) : Prop where
  isolated : s.manager.Isolated
  rows : RowsSound cat s.manager s.tables
  trails : TrailsKept s.manager s.tables s.trail
  cabins : CabinComplete cat s.manager.inFlightIds s.tables s.observed
  references : ∀ aborted ⊆ s.manager.inFlightIds, ReferencesHold cat s aborted

theorem RowsSound.hasColumn {cat : Catalog} {m : TransactionManager} {db : Tables}
    (h : RowsSound cat m db) {fk : ForeignKey} (hfk : fk ∈ cat.fkeys) :
    HasColumn db fk.childOid fk.columnNo := by
  intro pk tuple older hrow
  obtain ⟨x, hx, -⟩ := h.keys fk hfk pk tuple (hrow ▸ mem_cons_self)
  exact ⟨x, hx⟩

theorem possible_head {inFlight : List Nat} {tuple : RowVersion} {older : List RowVersion} :
    Possible inFlight (tuple :: older) tuple := by
  refine ⟨mem_cons_self, ?_⟩
  by_cases hmem : tuple.trxId ∈ inFlight
  · exact .inl hmem
  · exact .inr (outcome_cons_of_not_mem hmem)

theorem Possible.cons {inFlight : List Nat} {tuple v : RowVersion} {older : List RowVersion}
    (h : Possible inFlight older v) (htuple : tuple.trxId ∈ inFlight) :
    Possible inFlight (tuple :: older) v := by
  refine ⟨mem_cons_of_mem tuple h.1, h.2.imp_right fun hout => ?_⟩
  rw [outcome_cons_of_mem htuple]
  exact hout

theorem Possible.of_cons {inFlight : List Nat} {tuple v : RowVersion} {older : List RowVersion}
    (h : Possible inFlight (tuple :: older) v) (htuple : tuple.trxId ∈ inFlight) :
    v = tuple ∨ Possible inFlight older v := by
  obtain ⟨hmem, hcase⟩ := h
  rcases mem_cons.mp hmem with rfl | hmem
  · exact .inl rfl
  · refine .inr ⟨hmem, hcase.imp_right fun hout => ?_⟩
    rwa [outcome_cons_of_mem htuple] at hout

-- The checks

section

variable {cat : Catalog} {s : FkState} {id : Nat} {view : ReadView} {aborted : List Nat}
    {child : TableAccess} {fk : ForeignKey} {observed : Observed} {own parentPk : Nat}

theorem outcome_of_visible (hs : Sound cat s) (hview : s.manager.mintReadView id = .ok view)
    {oid pk : Nat} {tuple : RowVersion} {older : List RowVersion}
    (hrow : s.tables.rows oid pk = tuple :: older) (hvis : view.visible tuple.trxId = true)
    (hsub : aborted ⊆ s.manager.inFlightIds) (hid : id ∉ aborted) :
    s.outcomeOf aborted oid pk = some tuple := by
  have hstored := hs.rows.stored oid pk tuple (hrow ▸ mem_cons_self)
  have hpos : tuple.trxId ≠ noTrxId :=
    Nat.ne_of_gt (Nat.lt_trans Nat.zero_lt_one hstored.1)
  have hseen := (hs.isolated.minted_visible hview hstored.2 hpos).mp hvis
  have hnot : tuple.trxId ∉ aborted := by
    rcases hseen with hown | hsettled
    · rw [hown]; exact hid
    · exact fun hmem => hsettled (hsub hmem)
  show outcome RowVersion.trxId aborted (s.tables.rows oid pk) = some tuple
  rw [hrow, outcome_cons_of_not_mem hnot]

/-- **The forward check**: an id that passes names a parent that is live in every outcome that
    keeps the checking transaction. -/
theorem namesLive_of_check (hs : Sound cat s) (hview : s.manager.mintReadView id = .ok view)
    (hfk : fk ∈ cat.fkeys) {v : AstValue} (hkey : v.type = .null ∨ v.type = .int)
    (hpos : v.type = .int → 0 ≤ v.intVal)
    (hcheck : checkForeignKeyOnWrite cat s.tables child fk v view = .ok ())
    (hsub : aborted ⊆ s.manager.inFlightIds) (hid : id ∉ aborted) :
    NamesLive s aborted fk.parentOid v := by
  refine hkey.imp_right fun hint => ⟨hint, v.intVal.toNat, ?_, ?_⟩
  · have := hpos hint
    omega
  · rw [checkForeignKeyOnWrite, if_neg (by have := hpos hint; simp [hint, this])] at hcheck
    obtain ⟨parent, haccess, hcheck⟩ := bind_eq_ok.mp hcheck
    have hclustered := (cat.declared fk hfk).parent parent (Catalog.initTableAccess_eq_ok haccess)
    rw [checkParentPresent, if_pos hclustered] at hcheck
    dsimp only at hcheck
    cases hrow : s.tables.rows fk.parentOid v.intVal.toNat with
    | nil => rw [hrow] at hcheck; cases hcheck
    | cons tuple older =>
      rw [hrow] at hcheck
      dsimp only at hcheck
      cases hvis : view.visible tuple.trxId with
      | false => rw [checkVisibility, hvis] at hcheck; cases hcheck
      | true =>
        cases hdel : tuple.deleted with
        | true => rw [checkVisibility, hvis, hdel] at hcheck; cases hcheck
        | false => exact ⟨tuple, outcome_of_visible hs hview hrow hvis hsub hid, hdel⟩

theorem mem_entries_of_decides (hs : Sound cat s) (hview : s.manager.mintReadView own = .ok view)
    (hcabins : CabinComplete cat s.manager.inFlightIds s.tables observed) (hfk : fk ∈ cat.fkeys)
    (hchild : cat.tables fk.childOid = some child) (hcabined : child.cabined fk.columnNo = true)
    {entries : List Nat} (hentries : observed fk.childOid fk.columnNo parentPk = some entries)
    {pk : Nat} {verdict : FkVerdict}
    (hdec : Decides s.tables fk.childOid fk.columnNo parentPk view pk verdict) : pk ∈ entries := by
  obtain ⟨tuple, older, hrow, hkey, hcase⟩ := (decides_iff (hs.rows.hasColumn hfk)).mp hdec
  have hcomplete := hcabins fk hfk child hchild hcabined parentPk entries hentries pk
  rw [hrow] at hcomplete
  cases hdel : tuple.deleted with
  | false => exact hcomplete tuple possible_head hdel hkey
  | true =>
    -- a mark another transaction has put: the version under it names the key as well
    have hvis : view.visible tuple.trxId = false := by
      rcases hcase with ⟨hvis, -⟩ | ⟨-, hlive, -⟩
      · exact hvis
      · rw [hdel] at hlive; cases hlive
    have hstored := hs.rows.stored fk.childOid pk tuple (hrow ▸ mem_cons_self)
    have hflight : tuple.trxId ∈ s.manager.inFlightIds := by
      by_contra hnot
      have hpos : tuple.trxId ≠ noTrxId :=
        Nat.ne_of_gt (Nat.lt_trans Nat.zero_lt_one hstored.1)
      rw [(hs.isolated.minted_visible hview hstored.2 hpos).mpr (.inr hnot)] at hvis
      cases hvis
    have hmarks := hs.rows.marks fk.childOid pk
    rw [hrow] at hmarks
    obtain ⟨u, hu, hudel, huvalues⟩ := hmarks.1 hdel
    obtain ⟨rest, rfl⟩ : ∃ rest, older = u :: rest := by
      cases older with
      | nil => cases hu
      | cons w rest => exact ⟨rest, by rw [Option.some.inj hu]⟩
    have hukey : hasKey fk.columnNo parentPk u = true := by
      rw [hasKey, huvalues]
      exact hkey
    exact hcomplete u (possible_head.cons hflight) hudel hukey

/-- **The reverse check through either path** searches rows that cover every row that decides. -/
theorem checkNoChildReferences_answers (hs : Sound cat s)
    (hview : s.manager.mintReadView own = .ok view)
    (hcabins : CabinComplete cat s.manager.inFlightIds s.tables observed) (hfk : fk ∈ cat.fkeys)
    (hchild : cat.tables fk.childOid = some child) (parentPk : Nat) (hintOk : Nat → Bool) :
    ∃ out pks, checkNoChildReferences s.tables observed child fk.childOid fk.columnNo parentPk view
        hintOk = .ok out ∧
      (out.observed = observed ∨
        out.observed = unobserve observed fk.childOid fk.columnNo parentPk) ∧
      AnswersFor s.tables fk.childOid fk.columnNo parentPk view pks out.verdict ∧
      ∀ pk v, Decides s.tables fk.childOid fk.columnNo parentPk view pk v → pk ∈ pks := by
  have hcol := hs.rows.hasColumn hfk
  have hwalked : ∀ pk v, Decides s.tables fk.childOid fk.columnNo parentPk view pk v →
      pk ∈ s.tables.walk fk.childOid := by
    rintro pk v ⟨tuple, older, hrow, -⟩
    exact hs.rows.walked fk.childOid pk (by rw [hrow]; exact cons_ne_nil _ _)
  obtain ⟨verdict, hwalk, hanswers⟩ := @walkChildren_answers s.tables fk.childOid fk.columnNo
    parentPk view hcol (s.tables.walk fk.childOid)
  rw [checkNoChildReferences]
  dsimp only
  rw [hwalk]
  cases hlookup : (if child.cabined fk.columnNo then observed fk.childOid fk.columnNo parentPk
      else none) with
  | none => exact ⟨_, _, rfl, .inl rfl, hanswers, hwalked⟩
  | some entries =>
    dsimp only
    have hcabined : child.cabined fk.columnNo = true := by
      by_contra hnot
      rw [if_neg hnot] at hlookup
      cases hlookup
    rw [if_pos hcabined] at hlookup
    rcases @cabinChildren_answers s.tables fk.childOid fk.columnNo parentPk view hcol child hintOk
      entries [] (fun _ h => (by cases h)) with hgiven | ⟨v, hserved, hans⟩
    · rw [hgiven]
      exact ⟨_, _, rfl, .inr rfl, hanswers, hwalked⟩
    · rw [hserved]
      exact ⟨_, entries, rfl, .inl rfl, hans, fun pk w hdec =>
        mem_entries_of_decides hs hview hcabins hfk hchild hcabined hlookup hdec⟩

theorem CabinComplete.unobserve {inFlight : List Nat} {db : Tables}
    (h : CabinComplete cat inFlight db observed) (oid columnNo : Nat) (value : Int) :
    CabinComplete cat inFlight db (Exec.unobserve observed oid columnNo value) := by
  intro fk hfk child hchild hcabined value' entries hentries
  rw [Exec.unobserve] at hentries
  split_ifs at hentries
  exact h fk hfk child hchild hcabined value' entries hentries

theorem checkNoChildrenBeforeDelete_ok (hs : Sound cat s)
    (hview : s.manager.mintReadView own = .ok view) {hintOk : Nat → Bool} (fkeys : List ForeignKey)
    (hfkeys : ∀ fk ∈ fkeys, fk ∈ cat.fkeys) {out : Observed}
    (hcabins : CabinComplete cat s.manager.inFlightIds s.tables observed)
    (h : checkNoChildrenBeforeDelete cat s.tables parentPk view hintOk fkeys observed = .ok out) :
    CabinComplete cat s.manager.inFlightIds s.tables out ∧
      ∀ fk ∈ fkeys, ∀ pk v, ¬ Decides s.tables fk.childOid fk.columnNo parentPk view pk v := by
  induction fkeys generalizing observed with
  | nil =>
    cases h
    exact ⟨hcabins, fun _ hfk => (by cases hfk)⟩
  | cons fk rest ih =>
    rw [checkNoChildrenBeforeDelete] at h
    obtain ⟨child, haccess, h⟩ := bind_eq_ok.mp h
    obtain ⟨outcome, hcheck, h⟩ := bind_eq_ok.mp h
    have hchild := Catalog.initTableAccess_eq_ok haccess
    have hmem := hfkeys fk mem_cons_self
    obtain ⟨out', pks, hrun, hobserved, hanswers, hcover⟩ :=
      checkNoChildReferences_answers hs hview hcabins hmem hchild parentPk hintOk
    obtain rfl : outcome = out' := Except.ok.inj (hcheck.symm.trans hrun)
    cases hverdict : outcome.verdict with
    | busy => rw [hverdict] at h; cases h
    | violation => rw [hverdict] at h; cases h
    | pass =>
      rw [hverdict] at h hanswers
      have hcabins' : CabinComplete cat s.manager.inFlightIds s.tables outcome.observed := by
        rcases hobserved with heq | heq
        · rw [heq]; exact hcabins
        · rw [heq]; exact hcabins.unobserve _ _ _
      obtain ⟨hdone, hrest⟩ := ih (fun f hf => hfkeys f (mem_cons_of_mem fk hf)) hcabins' h
      refine ⟨hdone, fun f hf => ?_⟩
      rcases mem_cons.mp hf with rfl | hf
      · intro pk v hdec
        rcases hanswers with ⟨-, hnone⟩ | ⟨k, -, hpass⟩
        · exact hnone pk (hcover pk v hdec) v hdec
        · exact decides_ne_pass (hs.rows.hasColumn hmem) hpass
      · exact hrest f hf

end

-- One more version

section

variable {cat : Catalog} {s : FkState} {oid pk : Nat} {v : RowVersion}

/-- The row with one more version, and where walks meet the relation's rows. -/
def pushRow (db : Tables) (oid pk : Nat) (v : RowVersion) : Tables :=
  setRow db oid pk (v :: db.rows oid pk)

theorem pushRow_rows (db : Tables) (oid pk : Nat) (v : RowVersion) (oid' pk' : Nat) :
    (pushRow db oid pk v).rows oid' pk' =
      if oid' = oid ∧ pk' = pk then v :: db.rows oid' pk' else db.rows oid' pk' := by
  show (if oid' = oid ∧ pk' = pk then v :: db.rows oid pk else db.rows oid' pk') = _
  split_ifs with h
  · rw [h.1, h.2]
  · rfl

/-- A row that a transaction may write: nothing of another transaction in flight is on top. -/
def Writable (s : FkState) (id oid pk : Nat) : Prop :=
  ∀ top, (s.tables.rows oid pk).head? = some top →
    top.trxId = id ∨ top.trxId ∉ s.manager.inFlightIds

theorem RowsSound.push (h : RowsSound cat s.manager s.tables)
    (hactive : v.trxId ∈ s.manager.inFlightIds) (hisolated : s.manager.Isolated)
    (hwritable : Writable s v.trxId oid pk)
    (hmarks : v.deleted = true → ∃ u, (s.tables.rows oid pk).head? = some u ∧
      u.deleted = false ∧ u.values = v.values)
    (hkeys : ∀ fk ∈ cat.fkeys, fk.childOid = oid →
      ∃ x, v.values[fk.columnNo]? = some x ∧ AstValue.StoredKey x)
    {walk : List Nat} (hpk : pk ∈ walk) (hwalk : s.tables.walk oid ⊆ walk) :
    RowsSound cat s.manager (setWalk (pushRow s.tables oid pk v) oid walk) := by
  have hrows : ∀ oid' pk', (setWalk (pushRow s.tables oid pk v) oid walk).rows oid' pk' =
      if oid' = oid ∧ pk' = pk then v :: s.tables.rows oid' pk' else s.tables.rows oid' pk' :=
    pushRow_rows s.tables oid pk v
  refine ⟨fun oid' pk' u hu => ?_, fun oid' pk' => ?_, fun oid' pk' hne => ?_, fun oid' pk' => ?_,
    fun fk hfk c u hu => ?_⟩
  · rw [hrows] at hu
    split_ifs at hu with hsame
    · rcases mem_cons.mp hu with rfl | hu
      · exact hisolated.inFlight_bounds hactive
      · exact h.stored oid' pk' u hu
    · exact h.stored oid' pk' u hu
  · rw [hrows]
    split_ifs with hsame
    · obtain ⟨rfl, rfl⟩ := hsame
      exact (h.layered _ _).push hactive hwritable
    · exact h.layered oid' pk'
  · rw [hrows] at hne
    show pk' ∈ if oid' = oid then walk else s.tables.walk oid'
    by_cases hoid : oid' = oid
    · rw [if_pos hoid]
      by_cases hsame : pk' = pk
      · rw [hsame]; exact hpk
      · rw [if_neg (fun hboth => hsame hboth.2)] at hne
        exact hwalk (hoid ▸ h.walked oid' pk' hne)
    · rw [if_neg hoid]
      rw [if_neg (fun hboth => hoid hboth.1)] at hne
      exact h.walked oid' pk' hne
  · rw [hrows]
    split_ifs with hsame
    · obtain ⟨rfl, rfl⟩ := hsame
      exact ⟨hmarks, h.marks _ _⟩
    · exact h.marks oid' pk'
  · rw [hrows] at hu
    split_ifs at hu with hsame
    · rcases mem_cons.mp hu with rfl | hu
      · exact hkeys fk hfk hsame.1
      · exact h.keys fk hfk c u hu
    · exact h.keys fk hfk c u hu

theorem takeWhile_nil_of_head {p : RowVersion → Bool} {versions : List RowVersion}
    (h : ∀ top, versions.head? = some top → p top = false) : versions.takeWhile p = [] := by
  cases versions with
  | nil => rfl
  | cons top older =>
    rw [takeWhile_cons, h top rfl]
    rfl

theorem TrailsKept.push (h : TrailsKept s.manager s.tables s.trail)
    (hactive : v.trxId ∈ s.manager.inFlightIds) (hwritable : Writable s v.trxId oid pk)
    (walk : List Nat) :
    TrailsKept s.manager (setWalk (pushRow s.tables oid pk v) oid walk)
      (noteWrite s.trail v.trxId oid pk) := by
  refine ⟨fun id hid => ?_, fun id hid oid' pk' => ?_⟩
  · have hne : id ≠ v.trxId := fun heq => hid (heq ▸ hactive)
    rw [noteWrite, if_neg hne]
    exact h.1 id hid
  · have hcount := h.2 id hid oid' pk'
    show ((noteWrite s.trail v.trxId oid pk) id).count (oid', pk') =
      (((pushRow s.tables oid pk v).rows oid' pk').takeWhile _).length
    rw [noteWrite, pushRow_rows]
    by_cases hid' : id = v.trxId
    · rw [if_pos hid', count_cons, hcount]
      by_cases hsame : oid' = oid ∧ pk' = pk
      · rw [if_pos hsame, takeWhile_cons_of_pos (by simp [hid']), length_cons,
          if_pos (by simp [hsame])]
      · have hne : ((oid, pk) == (oid', pk')) = false := by
          rw [beq_eq_false_iff_ne]
          intro heq
          obtain ⟨hoid, hpk⟩ := Prod.mk.inj heq
          exact hsame ⟨hoid.symm, hpk.symm⟩
        rw [if_neg hsame, hne]
        rfl
    · rw [if_neg hid', hcount]
      split_ifs with hsame
      · -- nothing of the other transaction is on this row
        obtain ⟨rfl, rfl⟩ := hsame
        have hnew : decide (v.trxId = id) = false := by simp [Ne.symm hid']
        rw [takeWhile_cons, hnew, takeWhile_nil_of_head]
        · rfl
        · intro top htop
          rcases hwritable top htop with hown | hsettled
          · rw [hown]; exact hnew
          · exact decide_eq_false fun heq => hsettled (heq ▸ hid)
      · rfl

/-- **References after a write.**  The new version's keys must name live parents in every outcome
    that keeps its writer, and if it is a mark, no child may name the row in such an outcome. -/
theorem references_push (h : ∀ aborted ⊆ s.manager.inFlightIds, ReferencesHold cat s aborted)
    {s' : FkState} (hrows : ∀ oid' pk', s'.tables.rows oid' pk' =
      if oid' = oid ∧ pk' = pk then v :: s.tables.rows oid' pk' else s.tables.rows oid' pk')
    (hnew : ∀ aborted ⊆ s.manager.inFlightIds, v.trxId ∉ aborted → v.deleted = false →
      ∀ fk ∈ cat.fkeys, fk.childOid = oid → ∀ x, v.values[fk.columnNo]? = some x →
      NamesLive s aborted fk.parentOid x)
    (hmark : ∀ aborted ⊆ s.manager.inFlightIds, v.trxId ∉ aborted → v.deleted = true →
      ∀ fk ∈ cat.fkeys, fk.parentOid = oid → ∀ c child,
      s.outcomeOf aborted fk.childOid c = some child → child.deleted = false →
      hasKey fk.columnNo pk child = false) :
    ∀ aborted ⊆ s.manager.inFlightIds, ReferencesHold cat s' aborted := by
  intro aborted hsub
  have hout : ∀ oid' pk', s'.outcomeOf aborted oid' pk' =
      if (oid' = oid ∧ pk' = pk) ∧ v.trxId ∉ aborted then some v
      else s.outcomeOf aborted oid' pk' := by
    intro oid' pk'
    show outcome _ _ (s'.tables.rows oid' pk') = _
    rw [hrows]
    by_cases hsame : oid' = oid ∧ pk' = pk
    · rw [if_pos hsame]
      by_cases hmem : v.trxId ∈ aborted
      · rw [if_neg (fun hboth => hboth.2 hmem), outcome_cons_of_mem hmem]
      · rw [if_pos ⟨hsame, hmem⟩, outcome_cons_of_not_mem hmem]
    · rw [if_neg hsame, if_neg (fun hboth => hsame hboth.1)]
  -- a parent that was live is live, unless it is the row that is marked
  have hstays : ∀ fk ∈ cat.fkeys, ∀ c child, s'.outcomeOf aborted fk.childOid c = some child →
      child.deleted = false → ∀ x, child.values[fk.columnNo]? = some x →
      (s.outcomeOf aborted fk.childOid c = some child ∨ v.deleted = false) →
      NamesLive s aborted fk.parentOid x → NamesLive s' aborted fk.parentOid x := by
    intro fk hfk c child hchild hlive x hx hwhich
    refine Or.imp_right fun ⟨hint, p, hp, parent, hparent, hplive⟩ => ⟨hint, p, hp, ?_⟩
    rw [hout]
    split_ifs with hcase
    · refine ⟨v, rfl, ?_⟩
      by_contra hdel
      have hdel : v.deleted = true := by simpa using hdel
      have hold := hwhich.resolve_right (by simp [hdel])
      have hkey := hmark aborted hsub hcase.2 hdel fk hfk hcase.1.1 c child hold hlive
      rw [hasKey, hx, ← hcase.1.2] at hkey
      simp [hint, hp] at hkey
    · exact ⟨parent, hparent, hplive⟩
  intro fk hfk c child hchild hlive x hx
  have hchild' := hchild
  rw [hout] at hchild'
  split_ifs at hchild' with hcase
  · cases hchild'
    exact hstays fk hfk c v hchild hlive x hx (.inr hlive)
      (hnew aborted hsub hcase.2 hlive fk hfk hcase.1.1 x hx)
  · exact hstays fk hfk c child hchild hlive x hx (.inl hchild')
      (h aborted hsub fk hfk c child hchild' hlive x hx)

theorem CabinComplete.push (h : CabinComplete cat s.manager.inFlightIds s.tables s.observed)
    (hactive : v.trxId ∈ s.manager.inFlightIds) {db : Tables}
    (hrows : ∀ oid' pk', db.rows oid' pk' =
      if oid' = oid ∧ pk' = pk then v :: s.tables.rows oid' pk' else s.tables.rows oid' pk')
    {observed : Observed}
    (hgrow : ∀ oid' columnNo value entries, observed oid' columnNo value = some entries →
      ∃ before, s.observed oid' columnNo value = some before ∧ before ⊆ entries)
    (hjoin : v.deleted = false → ∀ fk ∈ cat.fkeys, fk.childOid = oid → ∀ child,
      cat.tables oid = some child → child.cabined fk.columnNo = true → ∀ value entries,
      observed oid fk.columnNo value = some entries → hasKey fk.columnNo value v = true →
      pk ∈ entries) :
    CabinComplete cat s.manager.inFlightIds db observed := by
  intro fk hfk child hchild hcabined value entries hentries pk' u hpossible hlive hkey
  obtain ⟨before, hbefore, hsubset⟩ := hgrow _ _ _ _ hentries
  have hold := h fk hfk child hchild hcabined value before hbefore pk' u
  rw [hrows] at hpossible
  split_ifs at hpossible with hsame
  · rcases hpossible.of_cons hactive with rfl | hpossible
    · rw [hsame.2]
      rw [hsame.1] at hchild hentries
      exact hjoin hlive fk hfk hsame.1 child hchild hcabined value entries hentries hkey
    · exact hsubset (hold hpossible hlive hkey)
  · exact hsubset (hold hpossible hlive hkey)

end

end Kds.Server
