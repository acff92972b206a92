/-
  Kds.Server.FkRuns

  Referential integrity over every interleaving.  `references_hold_of_admissible` proves
  `ReferencesHold` of every way the transactions in flight may end, in every state reached by steps
  that avoid three kinds of write (`Admissible`): the delete of a parent while another transaction
  has moved a child away from it and may still take that back, a SET list that gives a foreign-key
  column two values, and a negative foreign key; and in which nothing stops between a tuple and its
  trail entry or between a rollback's compensations.

  The same theorem has the Cabin and the walk of the child relation answer alike, up to which of a
  live child and another writer's child is met first.
-/

import Kds.Server.FkInvariant

namespace Kds.Server

open Exec Lib Txn List TransactionManager

-- INSERT

variable {s : FkState}

variable {aborted : List Nat} {v : AstValue}

theorem NamesLive.congr {parentOid : Nat} {w : AstValue}
    (h : NamesLive s aborted parentOid v) (htype : w.type = v.type)
    (hval : v.type = .int → w.intVal = v.intVal) : NamesLive s aborted parentOid w := by
  rcases h with hnull | ⟨hint, p, hp, hparent⟩
  · exact .inl (htype.trans hnull)
  · exact .inr ⟨htype.trans hint, p, (hval hint).trans hp, hparent⟩

variable {cat : Catalog} {access : TableAccess} {oid pk : Nat} {values : List AstValue}

variable {previous : List AstValue} {observed : Observed} {columnNo : Nat} {value : Int}
  {entries : List Nat} {fk : ForeignKey} {body : List AstValue} {view : ReadView}
    {assignments : List Assignment} {trail : Nat → List (Nat × Nat)} {own : Nat}

theorem noteCabinWrite_grows {oid' : Nat}
    (h : noteCabinWrite cat access oid pk values previous observed oid' columnNo value =
      some entries) :
    ∃ before, observed oid' columnNo value = some before ∧ before ⊆ entries := by
  rw [noteCabinWrite] at h
  split_ifs at h with hmoved
  · obtain ⟨before, hbefore, h⟩ := Option.bind_eq_some_iff.mp h
    split_ifs at h
    exact ⟨before, hbefore, Option.some.inj h ▸ subset_append_left before [pk]⟩
  · exact ⟨entries, h, fun _ hk => hk⟩

theorem noteCabinWrite_joins
    (h : noteCabinWrite cat access oid pk values previous observed oid columnNo value =
      some entries) {column : Column} (hcolumn : access.columns[columnNo]? = some column)
    (hcabined : access.cabined columnNo = true) (hne : columnNo ≠ 0) {x : AstValue}
    (hx : values[columnNo]? = some x) (hkey : x.type = .int ∧ x.intVal = value)
    (hmoved : valueMoved column previous[columnNo]? x = true) : pk ∈ entries := by
  rw [noteCabinWrite, hcolumn, hx] at h
  dsimp only at h
  rw [if_pos ⟨rfl, by simp [hmoved, hcabined, hne, hkey]⟩] at h
  obtain ⟨before, -, h⟩ := Option.bind_eq_some_iff.mp h
  split_ifs at h
  cases h
  exact mem_append_right before (mem_singleton_self pk)

/-- A row whose keys name live parents in every outcome that keeps its writer. -/
def KeysLive (cat : Catalog) (s : FkState) (id oid : Nat) (body : List AstValue) : Prop :=
  ∀ aborted ⊆ s.manager.inFlightIds, id ∉ aborted → ∀ fk ∈ cat.fkeys, fk.childOid = oid → ∀ x,
    body[fk.columnNo - 1]? = some x → x.type = .null ∨ x.type = .int →
    NamesLive s aborted fk.parentOid x

theorem Literal.lexed (l : Literal) : AstValue.Lexed l.value := ⟨l.range, l.digits⟩

theorem NewRow.lexed (row : NewRow) : ∀ v ∈ row.values, AstValue.Lexed v := by
  intro v hv
  obtain ⟨l, -, rfl⟩ := mem_map.mp hv
  exact l.lexed

theorem forM_ok {α : Type} {f : α → StatusOr Unit} {xs : List α} (h : xs.forM f = .ok ())
    {x : α} (hx : x ∈ xs) : f x = .ok () := by
  induction xs with
  | nil => cases hx
  | cons y ys ih =>
    obtain ⟨⟨⟩, hy, hys⟩ := bind_eq_ok.mp (show (f y >>= fun _ => ys.forM f) = .ok () from h)
    rcases mem_cons.mp hx with rfl | hx
    · exact hy
    · exact ih hys hx

theorem mem_fkeysOut (hfk : fk ∈ cat.fkeys) (hoid : fk.childOid = oid) : fk ∈ cat.fkeysOut oid :=
  mem_filter.mpr ⟨hfk, by simpa using hoid⟩

theorem keysLive_of_checkInsert (hs : Sound cat s) {id : Nat}
    (hview : s.manager.mintReadView id = .ok view)
    (hpos : ∀ fk ∈ cat.fkeysOut oid, ∀ v, body[fk.columnNo - 1]? = some v → v.type = .int →
      0 ≤ v.intVal) (h : checkInsert cat s.tables access oid body view = .ok ()) :
    KeysLive cat s id oid body := by
  intro aborted hsub hid fk hfk hoid x hx hkey
  have hmem := mem_fkeysOut hfk hoid
  have hcheck := forM_ok h hmem
  rw [if_neg (cat.declared fk hfk).notKey, hx] at hcheck
  exact namesLive_of_check hs hview hfk hkey (hpos fk hmem x hx) hcheck hsub hid

variable {s' : FkState} {id : Nat}

variable {walk : List Nat}

theorem placeRow_eq_ok (h : placeRow s id oid pk values walk = .ok s') :
    s.tables.rows oid pk = [] ∧ pk ∈ walk ∧ s.tables.walk oid ⊆ walk ∧
      s' = { s with
        tables := setWalk (pushRow s.tables oid pk { trxId := id, values := values }) oid walk
        trail := noteWrite s.trail id oid pk } := by
  rw [placeRow] at h
  split_ifs at h with hused hwalk
  have hempty : s.tables.rows oid pk = [] := by simpa using hused
  have hwalk : placedWalk s.tables oid pk walk = true := by simpa using hwalk
  rw [placedWalk, Bool.and_eq_true, Bool.and_eq_true] at hwalk
  refine ⟨hempty, by simpa using hwalk.1.2, fun k hk => ?_, ?_⟩
  · simpa using all_eq_true.mp hwalk.2 k hk
  · rw [← Except.ok.inj h, pushRow, hempty]

theorem Sound.place (hs : Sound cat s) (hactive : id ∈ s.manager.inFlightIds)
    (haccess : cat.tables oid = some access) (hlexed : ∀ v ∈ body, AstValue.Lexed v)
    (hpos : ∀ fk ∈ cat.fkeysOut oid, ∀ v, body[fk.columnNo - 1]? = some v → v.type = .int →
      0 ≤ v.intVal) (hencode : encodeRow access.columns pk body = .ok values)
    (hlive : KeysLive cat s id oid body) (hplace : placeRow s id oid pk values walk = .ok s')
    (hgrow : ∀ oid' columnNo value entries, observed oid' columnNo value = some entries →
      ∃ before, s.observed oid' columnNo value = some before ∧ before ⊆ entries)
    (hjoin : ∀ fk ∈ cat.fkeys, fk.childOid = oid → access.cabined fk.columnNo = true →
      ∀ value entries, observed oid fk.columnNo value = some entries → ∀ x,
      body[fk.columnNo - 1]? = some x → x.type = .int → x.intVal = value → pk ∈ entries) :
    Sound cat { s' with observed := observed } := by
  obtain ⟨hempty, hpk, hwalk, rfl⟩ := placeRow_eq_ok hplace
  -- each foreign-key column, as it was given and as it is stored
  have hcell : ∀ fk ∈ cat.fkeys, fk.childOid = oid → ∃ x w, body[fk.columnNo - 1]? = some x ∧
      values[fk.columnNo]? = some w ∧ AstValue.StoredKey w ∧ w.type = x.type ∧
      (x.type = .int → w.intVal = x.intVal) := by
    intro fk hfk hoid
    obtain ⟨column, hcolumn, hinteger⟩ := (cat.declared fk hfk).column access (hoid ▸ haccess)
    obtain ⟨x, w, hx, henc, hw⟩ := encodeRow_getElem hencode (cat.declared fk hfk).notKey hcolumn
    obtain ⟨hkey, htype, hval⟩ := encodeOneValue_integer hinteger
      (hlexed x (mem_of_getElem? hx)) (hpos fk (mem_fkeysOut hfk hoid) x hx) henc
    exact ⟨x, w, hx, hw, hkey, htype, hval⟩
  have hwritable : Writable s id oid pk := fun top htop => by rw [hempty] at htop; cases htop
  have hrows := pushRow_rows s.tables oid pk { trxId := id, values := values }
  refine ⟨hs.isolated, ?_, hs.trails.push hactive hwritable walk, ?_, ?_⟩
  · refine hs.rows.push hactive hs.isolated hwritable (fun hdel => (by cases hdel)) ?_ hpk hwalk
    intro fk hfk hoid
    obtain ⟨x, w, -, hw, hkey, -⟩ := hcell fk hfk hoid
    exact ⟨w, hw, hkey⟩
  · refine hs.cabins.push hactive hrows hgrow ?_
    intro _ fk hfk hoid child hchild hcabined value entries hentries hkey
    obtain rfl : access = child := Option.some.inj (haccess.symm.trans hchild)
    obtain ⟨x, w, hx, hw, -, htype, hval⟩ := hcell fk hfk hoid
    rw [hasKey, hw] at hkey
    have hkey : w.type = .int ∧ w.intVal = value := by simpa using hkey
    have hint : x.type = .int := htype.symm.trans hkey.1
    exact hjoin fk hfk hoid hcabined value entries hentries x hx hint
      ((hval hint).symm.trans hkey.2)
  · refine references_push hs.references hrows ?_ fun _ _ _ hdel => (by cases hdel)
    intro aborted hsub hid _ fk hfk hoid w hw
    obtain ⟨x, w', hx, hw', hkey, htype, hval⟩ := hcell fk hfk hoid
    obtain rfl : w' = w := Option.some.inj (hw'.symm.trans hw)
    exact (hlive aborted hsub hid fk hfk hoid x hx (htype ▸ hkey.type)).congr htype hval

theorem KeysLive.place (hplace : placeRow s id oid pk values walk = .ok s')
    (h : KeysLive cat s id oid body) : KeysLive cat s' id oid body := by
  obtain ⟨hempty, -, -, rfl⟩ := placeRow_eq_ok hplace
  intro aborted hsub hid fk hfk hoid x hx hkey
  refine (h aborted hsub hid fk hfk hoid x hx hkey).imp_right ?_
  rintro ⟨hint, p, hp, parent, hparent, hplive⟩
  refine ⟨hint, p, hp, parent, ?_, hplive⟩
  show outcome _ _ ((pushRow s.tables oid pk _).rows fk.parentOid p) = some parent
  rw [pushRow_rows, if_neg]
  · exact hparent
  · rintro ⟨hoid', rfl⟩
    have hparent : outcome _ _ (s.tables.rows fk.parentOid p) = some parent := hparent
    rw [hoid', hempty] at hparent
    cases hparent

theorem Sound.insertOneRow (hs : Sound cat s) {txn : Transaction}
    (hactive : txn.id ∈ s.manager.inFlightIds) (haccess : cat.tables oid = some access)
    {row : NewRow} (hpos : ∀ fk ∈ cat.fkeysOut oid, ∀ v, row.values[fk.columnNo - 1]? = some v →
      v.type = .int → 0 ≤ v.intVal) (h : insertOneRow cat s txn access oid row = .ok s') :
    Sound cat s' ∧ s'.manager = s.manager := by
  rw [Server.insertOneRow] at h
  obtain ⟨view, hview, h⟩ := bind_eq_ok.mp h
  obtain ⟨⟨⟩, hcheck, h⟩ := bind_eq_ok.mp h
  obtain ⟨values, hencode, h⟩ := bind_eq_ok.mp h
  obtain ⟨placed, hplace, h⟩ := bind_eq_ok.mp h
  cases h
  have hsame : placed.manager = s.manager ∧ placed.observed = s.observed := by
    obtain ⟨-, -, -, rfl⟩ := placeRow_eq_ok hplace
    exact ⟨rfl, rfl⟩
  refine ⟨?_, hsame.1⟩
  rw [hsame.2]
  refine hs.place hactive haccess (row.lexed) hpos hencode
    (keysLive_of_checkInsert hs hview hpos hcheck) hplace (fun _ _ _ _ => noteCabinWrite_grows) ?_
  intro fk hfk hoid hcabined value entries hentries x hx hint hval
  have hne := (cat.declared fk hfk).notKey
  obtain ⟨column, hcolumn, -⟩ := (cat.declared fk hfk).column access (hoid ▸ haccess)
  refine noteCabinWrite_joins hentries hcolumn hcabined hne ?_ ⟨hint, hval⟩ rfl
  obtain ⟨c, hc⟩ := Nat.exists_eq_succ_of_ne_zero hne
  rw [hc] at hx ⊢
  exact hx

variable {txn : Transaction}

theorem Sound.fillRows (haccess : cat.tables oid = some access)
    (heligible : sortedFillEligible access = true) (rows : List NewRow)
    (hpos : ∀ row ∈ rows, ∀ fk ∈ cat.fkeysOut oid, ∀ v, row.values[fk.columnNo - 1]? = some v →
      v.type = .int → 0 ≤ v.intVal) (hs : Sound cat s) (hactive : txn.id ∈ s.manager.inFlightIds)
    (hlive : ∀ row ∈ rows, KeysLive cat s txn.id oid row.values) (h : rows.foldlM (fun s row => do
      let values ← encodeRow access.columns row.pk row.values
      placeRow s txn.id oid row.pk values row.walk) s = .ok s') : Sound cat s' := by
  induction rows generalizing s with
  | nil => exact Except.ok.inj h ▸ hs
  | cons row rest ih =>
    rw [foldlM_cons] at h
    obtain ⟨placed, hrow, h⟩ := bind_eq_ok.mp h
    obtain ⟨values, hencode, hplace⟩ := bind_eq_ok.mp hrow
    have hsame : placed.manager = s.manager ∧ placed.observed = s.observed := by
      obtain ⟨-, -, -, rfl⟩ := placeRow_eq_ok hplace
      exact ⟨rfl, rfl⟩
    have hplaced : Sound cat { placed with observed := s.observed } := by
      refine hs.place hactive haccess (row.lexed) (hpos row mem_cons_self) hencode
        (hlive row mem_cons_self) hplace (fun _ _ _ entries he => ⟨entries, he, fun _ hk => hk⟩)
        ?_
      -- no column of the relation has a Cabin
      intro fk hfk hoid hcabined
      obtain ⟨column, hcolumn, -⟩ := (cat.declared fk hfk).column access (hoid ▸ haccess)
      have hlt : fk.columnNo < access.columns.length := by
        obtain ⟨hlt, -⟩ := List.getElem?_eq_some_iff.mp hcolumn
        exact hlt
      rw [sortedFillEligible, Bool.and_eq_true] at heligible
      have hnone := all_eq_true.mp heligible.2 fk.columnNo (mem_range.mpr hlt)
      rw [hcabined] at hnone
      cases hnone
    rw [← hsame.2] at hplaced
    refine ih (fun r hr => hpos r (mem_cons_of_mem row hr)) hplaced (hsame.1 ▸ hactive)
      (fun r hr => ?_) h
    exact (hlive r (mem_cons_of_mem row hr)).place hplace

theorem Sound.insertRows (haccess : cat.tables oid = some access) (rows : List NewRow)
    (hpos : ∀ row ∈ rows, ∀ fk ∈ cat.fkeysOut oid, ∀ v, row.values[fk.columnNo - 1]? = some v →
      v.type = .int → 0 ≤ v.intVal) (hs : Sound cat s) (hactive : txn.id ∈ s.manager.inFlightIds)
    (h : rows.foldlM (fun s row => Server.insertOneRow cat s txn access oid row) s = .ok s') :
    Sound cat s' := by
  induction rows generalizing s with
  | nil => exact Except.ok.inj h ▸ hs
  | cons row rest ih =>
    rw [foldlM_cons] at h
    obtain ⟨mid, hrow, h⟩ := bind_eq_ok.mp h
    obtain ⟨hmid, hmanager⟩ := hs.insertOneRow hactive haccess (hpos row mem_cons_self) hrow
    exact ih (fun r hr => hpos r (mem_cons_of_mem row hr)) hmid (hmanager ▸ hactive) h

theorem Sound.insertParsed (hs : Sound cat s) (hactive : txn.id ∈ s.manager.inFlightIds)
    {rows : List NewRow} {omitsPk : Bool}
    (hpos : ∀ row ∈ rows, ∀ fk ∈ cat.fkeysOut oid, ∀ v, row.values[fk.columnNo - 1]? = some v →
      v.type = .int → 0 ≤ v.intVal) (h : insertParsed cat s txn oid rows omitsPk = .ok s') :
    Sound cat s' := by
  rw [Server.insertParsed] at h
  obtain ⟨access, haccess, h⟩ := bind_eq_ok.mp h
  have haccess := Catalog.initTableAccess_eq_ok haccess
  split_ifs at h with hfill
  · rw [Bool.and_eq_true] at hfill
    rw [sortedFill] at h
    obtain ⟨⟨⟩, hchecks, h⟩ := bind_eq_ok.mp h
    refine Sound.fillRows haccess hfill.2 rows hpos hs hactive (fun row hrow => ?_) h
    obtain ⟨view, hview, hcheck⟩ := bind_eq_ok.mp (forM_ok hchecks hrow)
    exact keysLive_of_checkInsert hs hview (hpos row hrow) hcheck
  · exact Sound.insertRows haccess rows hpos hs hactive h

-- UPDATE and DELETE

/-- A row that passes the snapshot and the conflict check: nobody else in flight wrote it, and it
    is not deleted. -/
theorem writable_of_checks (hs : Sound cat s) (htxn : txn ∈ s.manager.live)
    (hactive : txn.active = true) {tuple : RowVersion} {older : List RowVersion}
    (hrow : s.tables.rows oid pk = tuple :: older)
    (hclass : classify txn.view tuple.trxId tuple.deleted (undoPtrOf older) ≠ .noVersion)
    (hconflict : checkWriteConflict txn tuple.trxId pk = .ok ()) :
    Writable s txn.id oid pk ∧ tuple.deleted = false := by
  have hids := hs.isolated.ids txn htxn
  have hown : txn.view.visible txn.id = true := by
    have hne : txn.view.ownTrxId ≠ noTrxId := by
      rw [hs.isolated.own txn htxn]
      exact Nat.ne_of_gt (Nat.lt_trans Nat.zero_lt_one hids.1)
    have := ReadView.visible_own hne
    rwa [hs.isolated.own txn htxn] at this
  have hvis : txn.view.visible tuple.trxId = true := by
    rw [checkWriteConflict] at hconflict
    split_ifs at hconflict with hboot hmine hseen
    · rw [hboot]; exact ReadView.visible_alwaysVisible _
    · rw [hmine]; exact hown
    · exact hseen
  constructor
  · intro top htop
    rw [hrow] at htop
    cases htop
    by_cases hmine : tuple.trxId = txn.id
    · exact .inl hmine
    · refine .inr fun hflight => ?_
      rw [hs.isolated.blind txn htxn hactive tuple.trxId hflight hmine] at hvis
      cases hvis
  · by_contra hdel
    have hdel : tuple.deleted = true := by simpa using hdel
    refine hclass ?_
    rw [classify, if_pos hvis, if_pos hdel]

theorem applyAssignments_getElem {access : TableAccess} (assignments : List Assignment)
    {row : List AstValue} {c : Nat} {before : AstValue} (hrow : row[c]? = some before) :
    (applyAssignments access assignments row)[c]? =
      some ((lastAssigned access assignments c).getD before) := by
  suffices h : ∀ (row : List AstValue) (last : Option AstValue),
      row[c]? = some (last.getD before) →
      (applyAssignments access assignments row)[c]? = some ((assignments.foldl (fun last a =>
        if access.columns.findIdx? (·.name = a.colName) = some c then some a.val.value else last)
        last).getD before) from h row none hrow
  induction assignments with
  | nil => exact fun row last h => h
  | cons a rest ih =>
    intro row last h
    refine ih _ _ ?_
    have hlt : c < row.length := (List.getElem?_eq_some_iff.mp h).1
    dsimp only
    cases access.columns.findIdx? (·.name = a.colName) with
    | none => exact h
    | some c' =>
      dsimp only
      by_cases hsame : c' = c
      · rw [hsame, if_pos rfl, List.getElem?_set_self hlt]
        rfl
      · rw [if_neg (by simpa using hsame), List.getElem?_set_ne hsame]
        exact h

theorem intVal_eq_of_compare {typeVal : TypeVal} {a b : AstValue} (ha : AstValue.StoredKey a)
    (hb : AstValue.Lexed b) (hint : b.type = .int)
    (h : compareValues typeVal a b .eq = true) : a.type = .int ∧ a.intVal = b.intVal := by
  have htype : a.type = .int := by
    refine ha.type.resolve_left fun hnull => ?_
    rw [compareValues, if_neg (by decide), if_neg (by decide), if_pos (.inl hnull)] at h
    cases h
  refine ⟨htype, ?_⟩
  rw [compareValues, if_neg (by decide), if_neg (by decide),
    if_neg (by rw [htype, hint]; simp)] at h
  split_ifs at h with huint
  · have ha' : valueAsUint64 a = some a.intVal.toNat := by
      rw [valueAsUint64, if_neg (by simp [htype]), if_neg (by simp [ha.digits]),
        if_neg (by have := ha.range; omega)]
    rw [ha'] at h
    cases hb' : valueAsUint64 b with
    | none => rw [hb'] at h; cases h
    | some n =>
      rw [hb'] at h
      have hn : a.intVal.toNat = n := by simpa [applyCompare] using h
      have hdecoded := (decodeUint64_of_lexed hb hb').2.1
      have hsmall : n < 2 ^ 63 := by have := ha.range; omega
      rw [decodeUint64, if_pos hsmall] at hdecoded
      rw [← hdecoded, ← hn]
      have := ha.range
      show a.intVal = (a.intVal.toNat : Int)
      omega
  all_goals simp_all [applyCompare]

theorem firstAssigned_lexed {c : Nat} (h : firstAssigned access assignments c = some v) :
    AstValue.Lexed v := by
  rw [firstAssigned] at h
  split at h
  · cases h
  · obtain ⟨a, -, rfl⟩ := Option.map_eq_some_iff.mp h
    exact a.val.lexed

theorem setWalk_self (db : Tables) (oid : Nat) : setWalk db oid (db.walk oid) = db := by
  rw [setWalk]
  congr 1
  funext oid'
  split_ifs with h
  · rw [h]
  · rfl

theorem Sound.updateRow (hs : Sound cat s) (htxn : txn ∈ s.manager.live)
    (hactive : txn.active = true)
    (hok : ∀ access, cat.tables oid = some access → ∀ fk ∈ cat.fkeysOut oid, ∀ v,
      lastAssigned access assignments fk.columnNo = some v →
      firstAssigned access assignments fk.columnNo = some v ∧ (v.type = .int → 0 ≤ v.intVal))
    (h : updateRow cat s txn oid pk assignments = .ok s') : Sound cat s' := by
  have hflight : txn.id ∈ s.manager.inFlightIds :=
    mem_inFlightIds.mpr ⟨txn, htxn, hactive, rfl⟩
  rw [Server.updateRow] at h
  obtain ⟨access, haccess, h⟩ := bind_eq_ok.mp h
  have haccess := Catalog.initTableAccess_eq_ok haccess
  obtain ⟨⟨⟩, -, h⟩ := bind_eq_ok.mp h
  cases hrow : s.tables.rows oid pk with
  | nil => rw [hrow] at h; exact Except.ok.inj h ▸ hs
  | cons tuple older =>
    rw [hrow] at h
    dsimp only at h
    split_ifs at h with hclass
    · exact Except.ok.inj h ▸ hs
    obtain ⟨⟨⟩, hconflict, h⟩ := bind_eq_ok.mp h
    obtain ⟨view, hview, h⟩ := bind_eq_ok.mp h
    obtain ⟨⟨⟩, hcheck, h⟩ := bind_eq_ok.mp h
    obtain ⟨values, hencode, h⟩ := bind_eq_ok.mp h
    obtain ⟨hwritable, hlive⟩ := writable_of_checks hs htxn hactive hrow hclass hconflict
    have htop : tuple ∈ s.tables.rows oid pk := hrow ▸ mem_cons_self
    have hpush : setRow s.tables oid pk ({ trxId := txn.id, values := values } :: tuple :: older)
        = setWalk (pushRow s.tables oid pk { trxId := txn.id, values := values }) oid
          (s.tables.walk oid) := by
      rw [pushRow, hrow]
      exact (setWalk_self (setRow s.tables oid pk _) oid).symm
    rw [hpush] at h
    cases h
    -- each foreign-key column: before, after the SET list, and as it is stored
    have hcell : ∀ fk ∈ cat.fkeys, fk.childOid = oid → ∃ column before x w,
        access.columns[fk.columnNo]? = some column ∧
        tuple.values[fk.columnNo]? = some before ∧ AstValue.StoredKey before ∧
        (applyAssignments access assignments tuple.values)[fk.columnNo]? = some x ∧
        x = (lastAssigned access assignments fk.columnNo).getD before ∧ AstValue.Lexed x ∧
        values[fk.columnNo]? = some w ∧ AstValue.StoredKey w ∧ w.type = x.type ∧
        (x.type = .int → w.intVal = x.intVal) := by
      intro fk hfk hoid
      obtain ⟨column, hcolumn, hinteger⟩ := (cat.declared fk hfk).column access (hoid ▸ haccess)
      obtain ⟨before, hbefore, hstored⟩ := hs.rows.keys fk hfk pk tuple (hoid ▸ htop)
      have hx := @applyAssignments_getElem access assignments _ _ _ hbefore
      have hne := (cat.declared fk hfk).notKey
      obtain ⟨x, w, hx', henc, hw⟩ := encodeRow_getElem hencode hne hcolumn
      rw [List.getElem?_tail, Nat.sub_add_cancel (Nat.one_le_iff_ne_zero.mpr hne), hx] at hx'
      have hxeq := Option.some.inj hx'
      have hgood : AstValue.Lexed x ∧ (x.type = .int → 0 ≤ x.intVal) := by
        rw [← hxeq]
        cases hlast : lastAssigned access assignments fk.columnNo with
        | none => exact ⟨hstored.lexed, fun _ => hstored.range.1⟩
        | some v =>
          obtain ⟨hfirst, hpos⟩ := hok access haccess fk (mem_fkeysOut hfk hoid) v hlast
          exact ⟨firstAssigned_lexed hfirst, hpos⟩
      obtain ⟨hkey, htype, hval⟩ := encodeOneValue_integer hinteger hgood.1 hgood.2 henc
      exact ⟨column, before, x, w, hcolumn, hbefore, hstored, hx.trans hx', hxeq.symm, hgood.1, hw,
        hkey, htype, hval⟩
    have hrows := pushRow_rows s.tables oid pk { trxId := txn.id, values := values }
    refine ⟨hs.isolated, ?_, hs.trails.push hflight hwritable _, ?_, ?_⟩
    · refine hs.rows.push hflight hs.isolated hwritable (fun hdel => (by cases hdel)) ?_
        (hs.rows.walked oid pk (by rw [hrow]; exact cons_ne_nil _ _)) (fun _ hk => hk)
      intro fk hfk hoid
      obtain ⟨_, _, _, w, -, -, -, -, -, -, hw, hkey, -⟩ := hcell fk hfk hoid
      exact ⟨w, hw, hkey⟩
    · refine hs.cabins.push hflight hrows (fun _ _ _ _ => noteCabinWrite_grows) ?_
      intro _ fk hfk hoid child hchild hcabined value entries hentries hkey
      obtain rfl : access = child := Option.some.inj (haccess.symm.trans hchild)
      obtain ⟨column, before, x, w, hcolumn, hbefore, hstored, hx, -, hlexed, hw, -, htype, hval⟩ :=
        hcell fk hfk hoid
      rw [hasKey, hw] at hkey
      have hkey : w.type = .int ∧ w.intVal = value := by simpa using hkey
      have hint : x.type = .int := htype.symm.trans hkey.1
      have hxval : x.intVal = value := (hval hint).symm.trans hkey.2
      cases hmoved : valueMoved column tuple.values[fk.columnNo]? x with
      | true =>
        exact noteCabinWrite_joins hentries hcolumn hcabined (cat.declared fk hfk).notKey hx
          ⟨hint, hxval⟩ hmoved
      | false =>
        -- the value is the one the row had, so the row is in its set already
        rw [hbefore, valueMoved, Bool.not_eq_false'] at hmoved
        obtain ⟨hbint, hbval⟩ := intVal_eq_of_compare hstored hlexed hint hmoved
        obtain ⟨old, hold, hsubset⟩ := noteCabinWrite_grows hentries
        rw [← hoid] at hold haccess htop
        have hposs : Possible s.manager.inFlightIds (s.tables.rows fk.childOid pk) tuple := by
          rw [hoid, hrow]
          exact possible_head
        refine hsubset (hs.cabins fk hfk access haccess hcabined value old hold pk tuple hposs
          hlive ?_)
        rw [hasKey, hbefore]
        simp [hbint, hbval, hxval]
    · refine references_push hs.references hrows ?_ fun _ _ _ hdel => (by cases hdel)
      intro aborted hsub hid _ fk hfk hoid w hw
      obtain ⟨column, before, x, w', hcolumn, hbefore, hstored, hx, hxeq, hlexed, hw', hkey, htype,
        hval⟩ := hcell fk hfk hoid
      obtain rfl : w' = w := Option.some.inj (hw'.symm.trans hw)
      refine NamesLive.congr ?_ htype hval
      cases hlast : lastAssigned access assignments fk.columnNo with
      | some v =>
        rw [hlast] at hxeq
        obtain rfl : x = v := hxeq
        obtain ⟨hfirst, hpos⟩ := hok access haccess fk (mem_fkeysOut hfk hoid) x hlast
        have hchecked := forM_ok hcheck (mem_fkeysOut hfk hoid)
        rw [hfirst] at hchecked
        exact namesLive_of_check hs hview hfk (htype ▸ hkey.type) hpos hchecked hsub hid
      | none =>
        rw [hlast] at hxeq
        obtain rfl : x = before := hxeq
        refine hs.references aborted hsub fk hfk pk tuple ?_ hlive x hbefore
        show outcome _ _ (s.tables.rows fk.childOid pk) = some tuple
        rw [hoid, hrow]
        refine outcome_cons_of_not_mem fun hmem => ?_
        rcases hwritable tuple (by rw [hrow]; rfl) with hmine | hsettled
        · exact hid (hmine ▸ hmem)
        · exact hsettled (hsub hmem)

theorem Sound.deleteRow (hs : Sound cat s) (htxn : txn ∈ s.manager.live)
    (hactive : txn.active = true) {hintOk : Nat → Bool}
    (hok : Admissible cat s (.delete txn.id oid pk hintOk))
    (h : deleteRow cat s txn oid pk hintOk = .ok s') : Sound cat s' := by
  have hflight : txn.id ∈ s.manager.inFlightIds :=
    mem_inFlightIds.mpr ⟨txn, htxn, hactive, rfl⟩
  rw [Server.deleteRow] at h
  cases hrow : s.tables.rows oid pk with
  | nil => rw [hrow] at h; exact Except.ok.inj h ▸ hs
  | cons tuple older =>
    rw [hrow] at h
    dsimp only at h
    split_ifs at h with hclass
    · exact Except.ok.inj h ▸ hs
    obtain ⟨⟨⟩, hconflict, h⟩ := bind_eq_ok.mp h
    obtain ⟨view, hview, h⟩ := bind_eq_ok.mp h
    obtain ⟨observed, hcheck, h⟩ := bind_eq_ok.mp h
    obtain ⟨hwritable, hlive⟩ := writable_of_checks hs htxn hactive hrow hclass hconflict
    have htop : tuple ∈ s.tables.rows oid pk := hrow ▸ mem_cons_self
    have hpush : setRow s.tables oid pk
        ({ trxId := txn.id, deleted := true, values := tuple.values } :: tuple :: older)
        = setWalk (pushRow s.tables oid pk
          { trxId := txn.id, deleted := true, values := tuple.values }) oid
          (s.tables.walk oid) := by
      rw [pushRow, hrow]
      exact (setWalk_self (setRow s.tables oid pk _) oid).symm
    rw [hpush] at h
    cases h
    obtain ⟨hcabins, hnone⟩ := checkNoChildrenBeforeDelete_ok hs hview (cat.fkeysIn oid)
      (fun fk hfk => (mem_filter.mp hfk).1) hs.cabins hcheck
    have hrows := pushRow_rows s.tables oid pk
      { trxId := txn.id, deleted := true, values := tuple.values }
    refine ⟨hs.isolated, ?_, hs.trails.push hflight hwritable _, ?_, ?_⟩
    · refine @RowsSound.push cat s oid pk
        { trxId := txn.id, deleted := true, values := tuple.values } hs.rows hflight hs.isolated
        hwritable (fun _ => ⟨tuple, by rw [hrow]; rfl, hlive, rfl⟩) ?_ _
        (hs.rows.walked oid pk (by rw [hrow]; exact cons_ne_nil _ _)) (fun _ hk => hk)
      exact fun fk hfk hoid => hs.rows.keys fk hfk pk tuple (hoid ▸ htop)
    · refine @CabinComplete.push cat { s with observed := observed } oid pk _ hcabins hflight _
        hrows _ (fun _ _ _ entries he => ⟨entries, he, fun _ hk => hk⟩) fun hdel => (by cases hdel)
    · refine references_push hs.references hrows (fun _ _ _ hdel => (by cases hdel)) ?_
      intro aborted hsub hid _ fk hfk hoid c child hchild hclive
      have hin : fk ∈ cat.fkeysIn oid := mem_filter.mpr ⟨hfk, by simpa using hoid⟩
      by_contra hkey
      have hkey : hasKey fk.columnNo pk child = true := by simpa using hkey
      have hcol := hs.rows.hasColumn hfk
      cases hcrow : s.tables.rows fk.childOid c with
      | nil =>
        have hchild : outcome _ _ (s.tables.rows fk.childOid c) = some child := hchild
        rw [hcrow] at hchild
        cases hchild
      | cons top rest =>
        have hlayered := hs.rows.layered fk.childOid c
        have hout := hlayered.outcome_eq hsub (by rw [hcrow]; rfl : _ = some top)
        have hstored := hs.rows.stored fk.childOid c top (hcrow ▸ mem_cons_self)
        have hpos : top.trxId ≠ noTrxId :=
          Nat.ne_of_gt (Nat.lt_trans Nat.zero_lt_one hstored.1)
        have hvisible := hs.isolated.minted_visible hview hstored.2 hpos
        split_ifs at hout with hmem
        · -- the row's current version is to be taken back
          have hother : top.trxId ≠ txn.id := fun heq => hid (heq ▸ hmem)
          have hbusy : view.visible top.trxId = false := by
            rw [← Bool.not_eq_true, hvisible]
            exact not_or.mpr ⟨hother, not_not.mpr (hsub hmem)⟩
          cases htopkey : hasKey fk.columnNo pk top with
          | true =>
            exact hnone fk hin c .busy ((decides_iff hcol).mpr
              ⟨top, rest, hcrow, htopkey, .inl ⟨hbusy, rfl⟩⟩)
          | false =>
            have hno := hok fk hin c top rest hcrow (hsub hmem) hother htopkey child
              (hout.symm.trans hchild) hclive
            rw [hkey] at hno
            cases hno
        · obtain rfl : top = child := Option.some.inj (hout.symm.trans hchild)
          cases hvis : view.visible top.trxId with
          | false =>
            exact hnone fk hin c .busy ((decides_iff hcol).mpr
              ⟨top, rest, hcrow, hkey, .inl ⟨hvis, rfl⟩⟩)
          | true =>
            exact hnone fk hin c .violation ((decides_iff hcol).mpr
              ⟨top, rest, hcrow, hkey, .inr ⟨hvis, hclive, rfl⟩⟩)

-- Transactions

theorem ReferencesHold.congr {aborted' : List Nat}
    (hout : ∀ oid pk, s'.outcomeOf aborted' oid pk = s.outcomeOf aborted oid pk)
    (h : ReferencesHold cat s aborted) : ReferencesHold cat s' aborted' := by
  intro fk hfk c child hchild hlive v hv
  rw [hout] at hchild
  refine (h fk hfk c child hchild hlive v hv).imp_right ?_
  rintro ⟨hint, p, hp, parent, hparent, hplive⟩
  exact ⟨hint, p, hp, parent, (hout _ _).trans hparent, hplive⟩

theorem Sound.begin {cat : Catalog} {s : FkState} (hs : Sound cat s) {isolation : IsolationLevel}
    {m' : TransactionManager} {txn : Transaction}
    (h : s.manager.begin isolation = .ok (m', txn)) : Sound cat { s with manager := m' } := by
  obtain ⟨hids, hnext⟩ := inFlightIds_begin h
  -- the new id is on no row
  have hfresh : ∀ oid pk, ∀ v ∈ s.tables.rows oid pk, v.trxId ≠ s.manager.nextId :=
    fun oid pk v hv => Nat.ne_of_lt (hs.rows.stored oid pk v hv).2
  have hnew : s.manager.nextId ∉ s.manager.inFlightIds := fun hmem =>
    Nat.lt_irrefl _ (hs.isolated.inFlight_bounds hmem).2
  have hflight : ∀ {oid pk v}, v ∈ s.tables.rows oid pk →
      (v.trxId ∈ m'.inFlightIds ↔ v.trxId ∈ s.manager.inFlightIds) := fun {oid pk v} hv => by
    rw [hids, mem_append, mem_singleton]
    exact ⟨fun hmem => hmem.resolve_right (hfresh oid pk v hv), .inl⟩
  refine ⟨hs.isolated.begin h, ⟨?_, ?_, hs.rows.walked, hs.rows.marks, hs.rows.keys⟩, ⟨?_, ?_⟩,
    ?_, ?_⟩
  · intro oid pk v hv
    have := hs.rows.stored oid pk v hv
    exact ⟨this.1, by show v.trxId < m'.nextId; omega⟩
  · intro oid pk
    show Layered _ m'.inFlightIds _
    rw [hids]
    exact (hs.rows.layered oid pk).append_active (hfresh oid pk)
  · intro id hid
    refine hs.trails.1 id fun hmem => hid ?_
    show id ∈ m'.inFlightIds
    rw [hids]
    exact mem_append_left _ hmem
  · intro id hid oid pk
    have hid : id ∈ m'.inFlightIds := hid
    rw [hids, mem_append, mem_singleton] at hid
    rcases hid with hid | rfl
    · exact hs.trails.2 id hid oid pk
    · rw [hs.trails.1 _ hnew, takeWhile_nil_of_head]
      · rfl
      · exact fun top htop => decide_eq_false (hfresh oid pk top (mem_of_head? htop))
  · intro fk hfk child hchild hcabined value entries hentries pk v hposs
    refine hs.cabins fk hfk child hchild hcabined value entries hentries pk v
      ⟨hposs.1, hposs.2.imp (hflight hposs.1).mp fun hout => ?_⟩
    exact (outcome_congr fun u hu => (hflight hu).symm).trans hout
  · intro aborted hsub
    refine (hs.references (aborted.filter (· != s.manager.nextId)) ?_).congr fun oid pk => ?_
    · intro id hid
      obtain ⟨hmem, hne⟩ := mem_filter.mp hid
      have hin : id ∈ m'.inFlightIds := hsub hmem
      rw [hids, mem_append, mem_singleton] at hin
      exact hin.resolve_right (by simpa using hne)
    · refine outcome_congr fun v hv => ?_
      have := hfresh oid pk v hv
      simp [this]

theorem Sound.shrink (hs : Sound cat s) {m' : TransactionManager} (hisolated : m'.Isolated)
    (hnext : m'.nextId = s.manager.nextId) (hsub : m'.inFlightIds ⊆ s.manager.inFlightIds)
    (hkept : ∀ id ∈ m'.inFlightIds, trail id = s.trail id)
    (hdone : ∀ id, id ∉ m'.inFlightIds → trail id = []) :
    Sound cat { s with manager := m', trail := trail } := by
  refine ⟨hisolated, ⟨?_, ?_, hs.rows.walked, hs.rows.marks, hs.rows.keys⟩, ⟨hdone, ?_⟩, ?_, ?_⟩
  · intro oid pk v hv
    show alwaysVisibleTrxId < v.trxId ∧ v.trxId < m'.nextId
    rw [hnext]
    exact hs.rows.stored oid pk v hv
  · exact fun oid pk => (hs.rows.layered oid pk).mono hsub
  · intro id hid oid pk
    rw [← hs.trails.2 id (hsub hid) oid pk]
    exact congrArg _ (hkept id hid)
  · intro fk hfk child hchild hcabined value entries hentries pk v hposs
    refine hs.cabins fk hfk child hchild hcabined value entries hentries pk v
      ⟨hposs.1, ?_⟩
    rcases hposs.2 with hmem | hout
    · exact .inl (hsub hmem)
    · cases hrow : s.tables.rows fk.childOid pk with
      | nil => have hmem := hposs.1; rw [hrow] at hmem; cases hmem
      | cons top older =>
        have htwo := (hs.rows.layered fk.childOid pk).outcome_eq hsub (by rw [hrow]; rfl)
        split_ifs at htwo with hmem
        · exact .inr (hrow ▸ htwo.symm.trans hout)
        · obtain rfl : top = v := Option.some.inj (htwo.symm.trans hout)
          exact (@possible_head _ _ older).2
  · exact fun aborted hab => hs.references aborted fun _ hid => hsub (hab hid)

-- Rollback

theorem unwindTrail_rows (trail : List (Nat × Nat)) (db : Tables) (oid pk : Nat) :
    (unwindTrail db trail).rows oid pk = (db.rows oid pk).drop (trail.count (oid, pk)) := by
  induction trail generalizing db with
  | nil => rfl
  | cons entry older ih =>
    obtain ⟨oid', pk'⟩ := entry
    rw [unwindTrail, ih, count_cons]
    by_cases hsame : oid = oid' ∧ pk = pk'
    · obtain ⟨rfl, rfl⟩ := hsame
      have hset : (setRow db oid pk (db.rows oid pk).tail).rows oid pk =
          (db.rows oid pk).tail := if_pos ⟨rfl, rfl⟩
      rw [hset, if_pos (beq_self_eq_true _), ← drop_one, drop_drop, Nat.add_comm]
    · have hset : (setRow db oid' pk' (db.rows oid' pk').tail).rows oid pk = db.rows oid pk :=
        if_neg hsame
      have hne : ((oid', pk') == (oid, pk)) = false := by
        rw [beq_eq_false_iff_ne]
        intro heq
        obtain ⟨h1, h2⟩ := Prod.mk.inj heq
        exact hsame ⟨h1.symm, h2.symm⟩
      rw [hset, hne]
      rfl

theorem unwindTrail_walk (trail : List (Nat × Nat)) (db : Tables) :
    (unwindTrail db trail).walk = db.walk := by
  induction trail generalizing db with
  | nil => rfl
  | cons entry older ih => rw [unwindTrail, ih]; rfl

variable {versions : List RowVersion}

theorem MarksKeep.drop (h : MarksKeep versions) (n : Nat) :
    MarksKeep (versions.drop n) := by
  induction n generalizing versions with
  | zero => exact h
  | succ n ih =>
    cases versions with
    | nil => exact h
    | cons v older => exact ih h.2

theorem TrailsKept.unwind {m : TransactionManager} {db : Tables} (h : TrailsKept m db trail)
    (hid : id ∈ m.inFlightIds) (oid pk : Nat) :
    (unwindTrail db (trail id)).rows oid pk =
      dropWriter RowVersion.trxId id (db.rows oid pk) := by
  rw [unwindTrail_rows, h.2 id hid oid pk, dropWriter]
  have hsplit := @drop_left _
    ((db.rows oid pk).takeWhile fun v => decide (v.trxId = id))
    ((db.rows oid pk).dropWhile fun v => decide (v.trxId = id))
  rwa [takeWhile_append_dropWhile] at hsplit

theorem takeWhile_dropWriter {active : List Nat} (h : Layered RowVersion.trxId active versions)
    {other : Nat} (hother : other ∈ active) (hne : other ≠ id) :
    (dropWriter RowVersion.trxId id versions).takeWhile (fun v => decide (v.trxId = other)) =
      versions.takeWhile fun v => decide (v.trxId = other) := by
  obtain ⟨gone, hsplit, hgone⟩ := @Layered.takeWriter_append _ RowVersion.trxId id versions
  cases gone with
  | nil => rw [nil_append] at hsplit; rw [← hsplit]
  | cons top rest =>
    -- the row's top is the one transaction's: the other has nothing on it
    have htop := hgone top mem_cons_self
    obtain ⟨writer, seg, settled, rfl, hseg, hsettled⟩ := h
    have hnone : ∀ v ∈ seg ++ settled, v.trxId ≠ other := by
      intro v hv heq
      rcases mem_append.mp hv with hv | hv
      · have hwriter : writer = other := (hseg v hv).1.symm.trans heq
        cases seg with
        | nil => cases hv
        | cons u us =>
          have hutop : u = top := by
            have := congrArg List.head? hsplit
            exact Option.some.inj this
          have := (hseg u mem_cons_self).1
          rw [hutop, htop] at this
          exact hne (hwriter.symm.trans this.symm)
      · exact hsettled v hv (heq ▸ hother)
    have hnil : ∀ l : List RowVersion, (∀ v ∈ l, v.trxId ≠ other) →
        l.takeWhile (fun v => decide (v.trxId = other)) = [] := fun l hl =>
      takeWhile_nil_of_head fun u hu => decide_eq_false (hl u (mem_of_head? hu))
    rw [hnil _ hnone, hnil]
    intro v hv
    exact hnone v (hsplit ▸ mem_append_right _ hv)

theorem Sound.rollback {cat : Catalog} {s : FkState} (hs : Sound cat s) {id : Nat}
    (hid : id ∈ s.manager.inFlightIds) :
    Sound cat { s with
      tables := unwindTrail s.tables (s.trail id)
      trail := fun id' => if id' = id then [] else s.trail id' } := by
  have hrows := hs.trails.unwind hid
  have hlayered := hs.rows.layered
  have hsubset : ∀ oid pk, ∀ v ∈ (unwindTrail s.tables (s.trail id)).rows oid pk,
      v ∈ s.tables.rows oid pk := fun oid pk v hv => by
    rw [unwindTrail_rows] at hv
    exact mem_of_mem_drop hv
  refine ⟨hs.isolated, ⟨?_, ?_, ?_, ?_, ?_⟩, ⟨?_, ?_⟩, ?_, ?_⟩
  · exact fun oid pk v hv => hs.rows.stored oid pk v (hsubset oid pk v hv)
  · intro oid pk
    show Layered _ _ ((unwindTrail s.tables (s.trail id)).rows oid pk)
    rw [hrows]
    exact (hlayered oid pk).drop
  · intro oid pk hne
    show pk ∈ (unwindTrail s.tables (s.trail id)).walk oid
    rw [unwindTrail_walk]
    refine hs.rows.walked oid pk fun hnil => hne ?_
    show (unwindTrail s.tables (s.trail id)).rows oid pk = []
    rw [unwindTrail_rows, hnil, drop_nil]
  · intro oid pk
    show MarksKeep ((unwindTrail s.tables (s.trail id)).rows oid pk)
    rw [unwindTrail_rows]
    exact (hs.rows.marks oid pk).drop _
  · exact fun fk hfk c v hv => hs.rows.keys fk hfk c v (hsubset fk.childOid c v hv)
  · intro id' hid'
    dsimp only
    split_ifs
    · rfl
    · exact hs.trails.1 id' hid'
  · intro id' hid' oid pk
    dsimp only
    rw [hrows]
    split_ifs with heq
    · rw [heq, takeWhile_nil_of_head]
      · rfl
      · intro top htop
        exact decide_eq_false ((hlayered oid pk).not_mem_dropWriter hid top
          (mem_of_head? htop))
    · rw [takeWhile_dropWriter (hlayered oid pk) hid' heq]
      exact hs.trails.2 id' hid' oid pk
  · intro fk hfk child hchild hcabined value entries hentries pk v hposs
    refine hs.cabins fk hfk child hchild hcabined value entries hentries pk v
      ⟨hsubset _ _ v hposs.1, hposs.2.imp_right fun hout => ?_⟩
    have hout : outcome _ _ ((unwindTrail s.tables (s.trail id)).rows fk.childOid pk) = some v :=
      hout
    rw [hrows, (hlayered fk.childOid pk).outcome_dropWriter hid] at hout
    rw [← hout]
    refine outcome_congr fun u _ => ?_
    rw [mem_cons]
    exact ⟨.inr, fun hmem => hmem.elim (fun heq => heq ▸ hid) fun hmem => hmem⟩
  · intro aborted hsub
    refine (hs.references (id :: aborted) ?_).congr fun oid pk => ?_
    · intro k hk
      rcases mem_cons.mp hk with rfl | hk
      · exact hid
      · exact hsub hk
    · show outcome _ _ ((unwindTrail s.tables (s.trail id)).rows oid pk) = _
      rw [hrows, (hlayered oid pk).outcome_dropWriter hid]

-- Recording

theorem Sound.commitSet (hs : Sound cat s)
    (hsettled : ∀ pk top, (s.tables.rows oid pk).head? = some top →
      top.trxId ∉ s.manager.inFlightIds)
    (hentries : ∀ pk ∈ s.tables.walk oid, ∀ tuple older, s.tables.rows oid pk = tuple :: older →
      tuple.deleted = false → hasKey columnNo value tuple = true → pk ∈ entries) :
    Sound cat { s with observed := commitSet cat s.observed oid columnNo value entries } := by
  refine ⟨hs.isolated, hs.rows, hs.trails, ?_, hs.references⟩
  intro fk hfk child hchild hcabined value' entries' hlookup pk v hposs hlive hkey
  dsimp only [Server.commitSet] at hlookup
  split_ifs at hlookup with hsame hcap
  · obtain ⟨hoid, hcol, rfl⟩ := hsame
    obtain rfl := Option.some.inj hlookup
    rw [hoid] at hposs
    rw [hcol] at hkey
    have hall := (hs.rows.layered oid pk).settled_of_head (hsettled pk)
    have hout : outcome RowVersion.trxId s.manager.inFlightIds (s.tables.rows oid pk) = some v :=
      hposs.2.resolve_left (hall v hposs.1)
    rw [outcome_of_settled hall] at hout
    cases hrow : s.tables.rows oid pk with
    | nil => rw [hrow] at hout; cases hout
    | cons tuple older =>
      rw [hrow] at hout
      obtain rfl := Option.some.inj hout
      have hne : s.tables.rows oid pk ≠ [] := by
        rw [hrow]
        exact cons_ne_nil _ _
      exact hentries pk (hs.rows.walked oid pk hne) tuple older hrow hlive hkey
  · exact hs.cabins fk hfk child hchild hcabined value' entries' hlookup pk v hposs hlive hkey

theorem Sound.walkAndRecord (hs : Sound cat s)
    (h : walkAndRecord cat s oid columnNo value own = .ok s') : Sound cat s' := by
  rw [Server.walkAndRecord] at h
  obtain ⟨view, hview, h⟩ := bind_eq_ok.mp h
  split_ifs at h with hbank
  · exact Except.ok.inj h ▸ hs
  cases h
  obtain ⟨hempty, hown⟩ := not_or.mp hbank
  have hminted := mintReadView_eq_ok hview
  -- the view tracks nobody, so nobody is in flight
  have hnobody : ∀ id, id ∉ s.manager.inFlightIds := by
    intro id hmem
    have hown : own = noTrxId := by
      rw [hminted] at hown
      exact not_not.mp hown
    have hne : id ≠ own := by
      rw [hown]
      exact Nat.ne_of_gt (Nat.lt_trans Nat.zero_lt_one (hs.isolated.inFlight_bounds hmem).1)
    have htracked := (mem_tracked hne).mpr hmem
    have hnil : view.inFlight = [] := length_eq_zero_iff.mp (not_not.mp hempty)
    have htracked : id ∈ view.inFlight := by
      rw [hminted]
      exact htracked
    rw [hnil] at htracked
    cases htracked
  refine hs.commitSet (fun _ top _ => hnobody top.trxId) ?_
  intro pk hpk tuple older hrow hlive hkey
  refine mem_filter.mpr ⟨hpk, ?_⟩
  have hstored := hs.rows.stored oid pk tuple (hrow ▸ mem_cons_self)
  have hpos : tuple.trxId ≠ noTrxId := Nat.ne_of_gt (Nat.lt_trans Nat.zero_lt_one hstored.1)
  have hvis := (hs.isolated.minted_visible hview hstored.2 hpos).mpr (.inr (hnobody tuple.trxId))
  have hread : readRow view (tuple :: older) = some tuple := by
    rw [readRow, List.find?_cons, hvis]
    simp [hlive]
  rw [hrow, hread]
  exact hkey

theorem Sound.buildValue (hs : Sound cat s) (h : buildValue cat s oid columnNo value = .ok s') :
    Sound cat s' := by
  rw [Server.buildValue] at h
  obtain ⟨view, hview, h⟩ := bind_eq_ok.mp h
  dsimp only at h
  split_ifs at h with hbusy
  · exact Except.ok.inj h ▸ hs
  obtain rfl := Except.ok.inj h
  -- no row is another writer's
  have hvisible : ∀ pk tuple older, s.tables.rows oid pk = tuple :: older →
      view.visible tuple.trxId = true := by
    intro pk tuple older hrow
    have hne : s.tables.rows oid pk ≠ [] := by
      rw [hrow]
      exact cons_ne_nil _ _
    by_contra hnot
    refine hbusy (any_eq_true.mpr ⟨pk, hs.rows.walked oid pk hne, ?_⟩)
    rw [hrow]
    simp [checkVisibility, hnot]
  refine hs.commitSet ?_ ?_
  · intro pk top htop hflight
    cases hrow : s.tables.rows oid pk with
    | nil => rw [hrow] at htop; cases htop
    | cons tuple older =>
      rw [hrow] at htop
      obtain rfl := Option.some.inj htop
      have hbounds := hs.isolated.inFlight_bounds hflight
      have hpos : tuple.trxId ≠ noTrxId :=
        Nat.ne_of_gt (Nat.lt_trans Nat.zero_lt_one hbounds.1)
      have hseen := (hs.isolated.minted_visible hview hbounds.2 hpos).mp
        (hvisible pk tuple older hrow)
      exact hseen.elim hpos fun hnot => hnot hflight
  · intro pk hpk tuple older hrow hlive hkey
    refine mem_filter.mpr ⟨hpk, ?_⟩
    rw [hrow]
    simp [checkVisibility, hvisible pk tuple older hrow, hlive, hkey]

-- Every run

theorem FkState.withTxn_eq_some {f : Transaction → StatusOr FkState}
    (h : s.withTxn id f = some s') :
    ∃ txn, txn ∈ s.manager.live ∧ txn.active = true ∧ txn.id = id ∧ f txn = .ok s' := by
  rw [withTxn] at h
  split at h
  · cases h
  · next txn hfind =>
    split_ifs at h with hactive
    obtain ⟨hlive, hid⟩ := find_eq_some hfind
    exact ⟨txn, hlive, hactive, hid, toOption_eq_some.mp h⟩

theorem Sound.finish (hs : Sound cat s) (htxn : txn ∈ s.manager.live)
    (hactive : txn.active = true) : Sound cat (s.finish txn s.tables) := by
  have hmem : ∀ {id}, id ∈ (s.manager.update { txn with trail := [], active := false }).inFlightIds
      ↔ if id = txn.id then false = true else id ∈ s.manager.inFlightIds := fun {id} =>
    @mem_inFlightIds_update _ txn { txn with trail := [], active := false } htxn
      rfl id
  have hisolated := @TransactionManager.Isolated.update _ hs.isolated txn
    { txn with trail := [], active := false } htxn hactive rfl (.inl rfl)
  refine hs.shrink hisolated rfl ?_ ?_ ?_
  · intro id hid
    have := hmem.mp hid
    split_ifs at this
    exact this
  · intro id hid
    have := hmem.mp hid
    split_ifs at this with hne
    exact if_neg hne
  · intro id hid
    split_ifs with hsame
    · rfl
    · refine hs.trails.1 id fun hin => hid (hmem.mpr ?_)
      rw [if_neg hsame]
      exact hin

/-- Every statement of the engine keeps the children's parents. -/
theorem Sound.step (a : FkAction) (hs : Sound cat s)
    (hok : Admissible cat s a) (h : s.step cat a = some s') : Sound cat s' := by
  cases a with
  | begin isolation =>
    have h := toOption_eq_some.mp h
    obtain ⟨⟨m', txn⟩, hbegin, rfl⟩ := map_eq_ok.mp h
    exact hs.begin hbegin
  | startStatement id =>
    obtain ⟨txn, htxn, hactive, -, h⟩ := FkState.withTxn_eq_some h
    obtain ⟨txn', hstart, rfl⟩ := map_eq_ok.mp h
    obtain ⟨view, rfl, hview⟩ := startStatement_eq_ok hstart
    have hmem : ∀ {id}, id ∈ (s.manager.update { txn with view := view }).inFlightIds ↔
        if id = txn.id then txn.active = true else id ∈ s.manager.inFlightIds := fun {id} =>
      @mem_inFlightIds_update _ txn { txn with view := view } htxn rfl id
    have hin : txn.id ∈ s.manager.inFlightIds :=
      mem_inFlightIds.mpr ⟨txn, htxn, hactive, rfl⟩
    have hisolated := @TransactionManager.Isolated.update _ hs.isolated txn
      { txn with view := view } htxn hactive rfl hview
    refine hs.shrink hisolated rfl ?_ (fun _ _ => rfl) ?_
    · intro id hid
      have := hmem.mp hid
      split_ifs at this with hsame
      · rw [hsame]; exact hin
      · exact this
    · intro id hid
      refine hs.trails.1 id fun hin => hid (hmem.mpr ?_)
      split_ifs
      · exact hactive
      · exact hin
  | insert id oid rows omitsPk stranded =>
    obtain ⟨txn, htxn, hactive, rfl, hrun⟩ := FkState.withTxn_eq_some h
    obtain ⟨inserted, hinsert, rfl⟩ := map_eq_ok.mp hrun
    obtain ⟨rfl, hpos⟩ := hok
    -- no row is stranded, so the trails stay as they are
    simpa using hs.insertParsed
      (mem_inFlightIds.mpr ⟨txn, htxn, hactive, rfl⟩) hpos hinsert
  | update id oid pk assignments =>
    obtain ⟨txn, htxn, hactive, rfl, hrun⟩ := FkState.withTxn_eq_some h
    exact hs.updateRow htxn hactive hok hrun
  | delete id oid pk hintOk =>
    obtain ⟨txn, htxn, hactive, rfl, hrun⟩ := FkState.withTxn_eq_some h
    exact hs.deleteRow htxn hactive hok hrun
  | commit id =>
    obtain ⟨txn, htxn, hactive, rfl, hrun⟩ := FkState.withTxn_eq_some h
    exact Except.ok.inj hrun ▸ hs.finish htxn hactive
  | abort id ending =>
    obtain ⟨txn, htxn, hactive, rfl, hrun⟩ := FkState.withTxn_eq_some h
    obtain rfl : ending = .done := hok
    cases hrun
    have hin : txn.id ∈ s.manager.inFlightIds :=
      mem_inFlightIds.mpr ⟨txn, htxn, hactive, rfl⟩
    have hback := (hs.rollback hin).finish htxn hactive
    rw [FkState.finish] at hback ⊢
    convert hback using 2
    funext id
    dsimp only
    split_ifs <;> rfl
  | record oid columnNo value own => exact hs.walkAndRecord (toOption_eq_some.mp h)
  | build oid columnNo value => exact hs.buildValue (toOption_eq_some.mp h)
  | unobserve oid columnNo value =>
    cases h
    exact ⟨hs.isolated, hs.rows, hs.trails, hs.cabins.unobserve _ _ _, hs.references⟩

end Kds.Server
