/-
  Kds.Exec.FkCheck

  The two foreign-key checks (`src/exec/fk_check.cpp`).  A row that names a parent asks whether the
  parent's current version is there (`checkParentPresent`); a row that may be named asks whether
  any child's current bytes name it (`checkNoChildReferences`), through the Cabin on the child's
  column when the value has been observed, and by walking the child relation otherwise.  Both read
  current versions and say `busy` of one whose writer is another transaction in flight.

  Rows are kept with their versions, newest first: the newest is the stored tuple, the others are
  its undo chain.  A row without versions is a slot that holds nothing.
-/

import Kds.Exec.Compare
import Kds.Txn.ReadView

namespace Kds.Exec

open Txn

-- Relations

/-- What a column stores (`EncodeOneValue`).  Signed columns are 1, 2, 4 or 8 bytes wide; how the
    types that are no integers encode is left open. -/
inductive ColumnType where
  | int (width : Nat)
  | uint64
  | other (encode : AstValue → StatusOr AstValue)

/-- `IsIntegerTypeVal`. -/
def ColumnType.isInteger : ColumnType → Bool
  | .int _ | .uint64 => true
  | .other _ => false

/-- The type number `CompareValues` is given. -/
def ColumnType.typeVal : ColumnType → TypeVal
  | .uint64 => typeValUint64
  | _ => typeValInt64

structure Column where
  name : String
  type : ColumnType
  nullable : Bool := false

/-- The part of `TableAccess` a write reads; `cabined` is `cabin_mask`. -/
structure TableAccess where
  name : String
  columns : List Column
  clustered : Bool
  cabined : Nat → Bool := fun _ => false

/-- `ForeignKeyRef`, with both of its relations. -/
structure ForeignKey where
  childOid : Nat
  columnNo : Nat
  parentOid : Nat
  deriving DecidableEq

/-- What `CheckForeignKeyDeclaration` lets through: a column after the key, of an integer type,
    naming a clustered relation. -/
structure ForeignKey.Declared (fk : ForeignKey) (tables : Nat → Option TableAccess) : Prop where
  notKey : fk.columnNo ≠ 0
  column : ∀ child, tables fk.childOid = some child →
    ∃ column, child.columns[fk.columnNo]? = some column ∧ column.type.isInteger = true
  parent : ∀ parent, tables fk.parentOid = some parent → parent.clustered = true

structure Catalog where
  tables : Nat → Option TableAccess
  fkeys : List ForeignKey
  maxEntriesPerValue : Nat
  declared : ∀ fk ∈ fkeys, fk.Declared tables

namespace Catalog

def fkeysOut (c : Catalog) (oid : Nat) : List ForeignKey := c.fkeys.filter (·.childOid = oid)
def fkeysIn (c : Catalog) (oid : Nat) : List ForeignKey := c.fkeys.filter (·.parentOid = oid)

/-- `InitTableAccess`. -/
def initTableAccess (c : Catalog) (oid : Nat) : StatusOr TableAccess :=
  match c.tables oid with
  | some access => .ok access
  | none => .error (.notFound ("no relation with oid " ++ toString oid))

theorem initTableAccess_eq_ok {c : Catalog} {oid : Nat} {access : TableAccess}
    (h : c.initTableAccess oid = .ok access) : c.tables oid = some access := by
  rw [initTableAccess] at h
  split at h
  · next access' htable => rw [htable, Except.ok.inj h]
  · cases h

end Catalog

-- Rows

/-- One version of a row: its decoded columns, the key first. -/
structure RowVersion where
  trxId : Nat
  deleted : Bool := false
  values : List AstValue
  deriving DecidableEq

/-- The rows of every relation by key, and the keys in the order a walk meets their slots. -/
structure Tables where
  rows : Nat → Nat → List RowVersion
  walk : Nat → List Nat

/-- A `uint64` as a cell decodes it: digits only where the signed field cannot hold it. -/
def decodeUint64 (n : Nat) : AstValue :=
  if n < 2 ^ 63 then .ofInt n
  else { type := .int, intVal := n - 2 ^ 64, rawIntText := decimalText n }

/-- One column of `EncodeRow`, read back. -/
def encodeOneValue (column : Column) (v : AstValue) : StatusOr AstValue :=
  if v.type = .null then
    if column.nullable then .ok .null
    else .error (.invalidArgument ("column '" ++ column.name ++ "' is NOT NULL and cannot take " ++
      "NULL (declare it NULL at CREATE TABLE to opt in - docs/spec/null.md)"))
  else if v.type = .param then
    .error (.corruption ("column '" ++ column.name ++ "': parameter '$" ++ textOf v.strVal ++
      "' has no bound value to store"))
  else
    match column.type with
    | .int width =>
      if v.type ≠ .int then
        .error (.invalidArgument ("column '" ++ column.name ++ "' expects an integer"))
      else if -2 ^ (width * 8 - 1) ≤ v.intVal ∧ v.intVal < 2 ^ (width * 8 - 1) then
        .ok (.ofInt v.intVal)
      else
        .error (.invalidArgument ("value " ++ toString v.intVal ++ " does not fit column '" ++
          column.name ++ "'"))
    | .uint64 =>
      if v.type ≠ .int then
        .error (.invalidArgument ("column '" ++ column.name ++ "' expects an integer"))
      else
        match valueAsUint64 v with
        | some n => .ok (decodeUint64 n)
        | none => .error ((Status.invalidArgument (uint64Refusal v)).withContext
            ("column '" ++ column.name ++ "'"))
    | .other encode => encode v

def encodeColumns : List Column → List AstValue → StatusOr (List AstValue)
  | column :: columns, v :: vs => do
    let stored ← encodeOneValue column v
    let rest ← encodeColumns columns vs
    .ok (stored :: rest)
  | _, _ => .ok []

/-- `EncodeRow`, as the row it decodes to. -/
def encodeRow (columns : List Column) (pk : Nat) (body : List AstValue) :
    StatusOr (List AstValue) :=
  if body.length ≠ columns.length - 1 then
    .error (.invalidArgument ("expected " ++ toString (columns.length - 1) ++
      " value(s) after the primary key, got " ++ toString body.length))
  else do
    let rest ← encodeColumns columns.tail body
    .ok (.ofInt pk :: rest)

-- The forward check

/-- `enum class FkVerdict`. -/
inductive FkVerdict where
  | pass | busy | violation
  deriving DecidableEq

/-- `VerdictOf`. -/
def verdictOf : CheckVerdict → FkVerdict
  | .live => .pass
  | .busy => .busy
  | .absent => .violation

/-- `CheckParentPresent`: the tree is descended, a heap is walked. -/
def checkParentPresent (db : Tables) (parent : TableAccess) (oid parentPk : Nat)
    (view : ReadView) : FkVerdict :=
  let found :=
    if parent.clustered then some parentPk
    else (db.walk oid).find? fun pk => !(db.rows oid pk).isEmpty && pk == parentPk
  match found with
  | none => .violation
  | some pk =>
    match db.rows oid pk with
    | [] => .violation
    | tuple :: _ => verdictOf (checkVisibility view tuple.trxId tuple.deleted)

-- The reverse check

/-- `ForeignKeyValue`: the column as an id, if it is one. -/
def foreignKeyValue (columnNo : Nat) (values : List AstValue) : StatusOr (Option Nat) :=
  match values[columnNo]? with
  | none => .error (.corruption ("a foreign key names column " ++ toString columnNo ++
      " of a relation with " ++ toString values.length ++ " column(s)"))
  | some v => .ok (if v.type ≠ .int ∨ v.intVal < 0 then none else some v.intVal.toNat)

/-- What one child tuple decides, if it decides anything: the key test first, then whose version
    it is. -/
def childVerdict (columnNo parentPk : Nat) (view : ReadView) (tuple : RowVersion) :
    StatusOr (Option FkVerdict) := do
  let value ← foreignKeyValue columnNo tuple.values
  if value ≠ some parentPk then .ok none
  else
    match checkVisibility view tuple.trxId tuple.deleted with
    | .absent => .ok none
    | .busy => .ok (some .busy)
    | .live => .ok (some .violation)

/-- The walk of the child relation: the first tuple that decides. -/
def walkChildren (db : Tables) (oid columnNo parentPk : Nat) (view : ReadView) :
    List Nat → StatusOr FkVerdict
  | [] => .ok .pass
  | pk :: rest =>
    match db.rows oid pk with
    | [] => walkChildren db oid columnNo parentPk view rest
    | tuple :: _ => do
      match ← childVerdict columnNo parentPk view tuple with
      | some verdict => .ok verdict
      | none => walkChildren db oid columnNo parentPk view rest

/-- The entries of an observed value, each key once.  `hintOk` says which entries' hints verify;
    a tree heals the others, a heap gives the Cabin up (`none`). -/
def cabinChildren (db : Tables) (child : TableAccess) (oid columnNo parentPk : Nat)
    (view : ReadView) (hintOk : Nat → Bool) : List Nat → List Nat → StatusOr (Option FkVerdict)
  | _, [] => .ok (some .pass)
  | seen, pk :: rest =>
    if pk ∈ seen then cabinChildren db child oid columnNo parentPk view hintOk seen rest
    else if !hintOk pk && !child.clustered then .ok none
    else
      match db.rows oid pk with
      | [] => cabinChildren db child oid columnNo parentPk view hintOk (pk :: seen) rest
      | tuple :: _ => do
        match ← childVerdict columnNo parentPk view tuple with
        | some verdict => .ok (some verdict)
        | none => cabinChildren db child oid columnNo parentPk view hintOk (pk :: seen) rest

/-- The observed values of the Cabins on integer columns: the entry set of a value. -/
abbrev Observed := Nat → Nat → Int → Option (List Nat)

/-- `Unobserve`. -/
def unobserve (observed : Observed) (oid columnNo : Nat) (value : Int) : Observed :=
  fun oid' columnNo' value' =>
    if oid' = oid ∧ columnNo' = columnNo ∧ value' = value then none
    else observed oid' columnNo' value'

/-- `struct FkReverseOutcome`, with the Cabins the check leaves. -/
structure FkReverseOutcome where
  verdict : FkVerdict
  servedFromCabin : Bool := false
  observed : Observed

/-- `CheckNoChildReferences`. -/
def checkNoChildReferences (db : Tables) (observed : Observed) (child : TableAccess)
    (oid columnNo parentPk : Nat) (view : ReadView) (hintOk : Nat → Bool) :
    StatusOr FkReverseOutcome :=
  let walk (observed : Observed) := do
    let verdict ← walkChildren db oid columnNo parentPk view (db.walk oid)
    .ok { verdict := verdict, observed := observed }
  match if child.cabined columnNo then observed oid columnNo parentPk else none with
  | none => walk observed
  | some entries => do
    match ← cabinChildren db child oid columnNo parentPk view hintOk [] entries with
    | some verdict => .ok { verdict := verdict, servedFromCabin := true, observed := observed }
    | none => walk (unobserve observed oid columnNo parentPk)

-- What the codec keeps of a key

/-- A value whose digits, if it has any, say what its signed field says. -/
structure AstValue.Lexed (v : AstValue) : Prop where
  range : -2 ^ 63 ≤ v.intVal ∧ v.intVal < 2 ^ 63
  digits : ∀ n, parseUint64Text v.rawIntText = some n →
    v.intVal = if n < 2 ^ 63 then (n : Int) else n - 2 ^ 64

/-- What is stored of a foreign key: NULL, or an id in the signed field alone. -/
structure AstValue.StoredKey (v : AstValue) : Prop where
  type : v.type = .null ∨ v.type = .int
  digits : v.rawIntText = []
  range : 0 ≤ v.intVal ∧ v.intVal < 2 ^ 63

variable {v : AstValue} {column : Column}

theorem AstValue.StoredKey.lexed (h : AstValue.StoredKey v) : AstValue.Lexed v := by
  refine ⟨⟨by have := h.range; omega, h.range.2⟩, fun n hn => ?_⟩
  rw [h.digits] at hn
  cases hn

theorem decodeUint64_of_lexed (hlexed : AstValue.Lexed v) {n : Nat} (h : valueAsUint64 v = some n) :
    (decodeUint64 n).type = .int ∧ (decodeUint64 n).intVal = v.intVal ∧
      (0 ≤ v.intVal → (decodeUint64 n).rawIntText = []) := by
  have hrange := hlexed.range
  have hval : n < 2 ^ 64 ∧ v.intVal = if n < 2 ^ 63 then (n : Int) else n - 2 ^ 64 := by
    rw [valueAsUint64] at h
    split_ifs at h with htype htext hneg
    · exact ⟨parseUint64Text_lt h, hlexed.digits n h⟩
    · cases h
      rw [if_pos (by omega)]
      omega
  obtain ⟨hlt, hval⟩ := hval
  rw [decodeUint64]
  split_ifs with hsmall
  · rw [if_pos hsmall] at hval
    exact ⟨rfl, hval.symm, fun _ => rfl⟩
  · rw [if_neg hsmall] at hval
    refine ⟨rfl, hval.symm, fun hpos => ?_⟩
    omega

theorem encodeOneValue_integer {w : AstValue} (hcolumn : column.type.isInteger = true)
    (hlexed : AstValue.Lexed v) (hid : v.type = .int → 0 ≤ v.intVal)
    (h : encodeOneValue column v = .ok w) :
    AstValue.StoredKey w ∧ w.type = v.type ∧ (v.type = .int → w.intVal = v.intVal) := by
  rw [encodeOneValue] at h
  have hrange := hlexed.range
  by_cases hnull : v.type = .null
  · rw [if_pos hnull] at h
    split_ifs at h
    cases h
    exact ⟨⟨.inl rfl, rfl, by decide⟩, hnull.symm, fun hint => by rw [hnull] at hint; cases hint⟩
  rw [if_neg hnull] at h
  by_cases hparam : v.type = .param
  · rw [if_pos hparam] at h
    cases h
  rw [if_neg hparam] at h
  cases htype : column.type with
  | int width =>
    rw [htype] at h
    dsimp only at h
    split_ifs at h with hint hfits
    have hint : v.type = .int := not_not.mp hint
    cases h
    exact ⟨⟨.inr rfl, rfl, hid hint, hrange.2⟩, hint.symm, fun _ => rfl⟩
  | uint64 =>
    rw [htype] at h
    dsimp only at h
    split_ifs at h with hint
    have hint : v.type = .int := not_not.mp hint
    split at h
    · next n hn =>
      cases h
      obtain ⟨hty, hval, htext⟩ := decodeUint64_of_lexed hlexed hn
      exact ⟨⟨.inr hty, htext (hid hint), by rw [hval]; exact ⟨hid hint, hrange.2⟩⟩,
        hty.trans hint.symm, fun _ => hval⟩
    · cases h
  | other encode =>
    rw [htype] at hcolumn
    cases hcolumn

theorem encodeColumns_getElem {columns : List Column} {body stored : List AstValue}
    (hlen : body.length = columns.length) (h : encodeColumns columns body = .ok stored) {c : Nat}
    {column : Column} (hcolumn : columns[c]? = some column) :
    ∃ v w, body[c]? = some v ∧ encodeOneValue column v = .ok w ∧ stored[c]? = some w := by
  induction columns generalizing body stored c with
  | nil => cases hcolumn
  | cons col columns ih =>
    cases body with
    | nil => cases hlen
    | cons v vs =>
      rw [encodeColumns] at h
      obtain ⟨w, hw, h⟩ := bind_eq_ok.mp h
      obtain ⟨rest, hrest, h⟩ := bind_eq_ok.mp h
      cases h
      cases c with
      | zero =>
        obtain rfl : col = column := Option.some.inj hcolumn
        exact ⟨v, w, rfl, hw, rfl⟩
      | succ c => exact ih (Nat.succ.inj hlen) hrest hcolumn

theorem encodeRow_getElem {columns : List Column} {pk : Nat} {body values : List AstValue}
    (h : encodeRow columns pk body = .ok values) {c : Nat} (hc : c ≠ 0)
    (hcolumn : columns[c]? = some column) :
    ∃ v w, body[c - 1]? = some v ∧ encodeOneValue column v = .ok w ∧ values[c]? = some w := by
  rw [encodeRow] at h
  split_ifs at h with hlen
  obtain ⟨rest, hrest, h⟩ := bind_eq_ok.mp h
  cases h
  obtain ⟨c, rfl⟩ := Nat.exists_eq_succ_of_ne_zero hc
  have htail : columns.tail[c]? = some column := by rw [List.getElem?_tail]; exact hcolumn
  have hlen' : body.length = columns.tail.length := by
    rw [List.length_tail]
    exact not_not.mp hlen
  exact encodeColumns_getElem hlen' hrest htail

-- The walk and the Cabin

section

variable {db : Tables} {oid columnNo parentPk : Nat} {view : ReadView}

/-- Whether a version's column is the key of a value. -/
def hasKey (columnNo : Nat) (value : Int) (version : RowVersion) : Bool :=
  match version.values[columnNo]? with
  | some v => decide (v.type = .int ∧ v.intVal = value)
  | none => false

/-- A row's current version decides the reverse check. -/
def Decides (db : Tables) (oid columnNo parentPk : Nat) (view : ReadView) (pk : Nat)
    (verdict : FkVerdict) : Prop :=
  ∃ tuple older, db.rows oid pk = tuple :: older ∧
    childVerdict columnNo parentPk view tuple = .ok (some verdict)

/-- What a search of some rows answers: that none decides, or what one of them decides. -/
def AnswersFor (db : Tables) (oid columnNo parentPk : Nat) (view : ReadView) (pks : List Nat)
    (verdict : FkVerdict) : Prop :=
  (verdict = .pass ∧ ∀ pk ∈ pks, ∀ v, ¬ Decides db oid columnNo parentPk view pk v) ∨
    ∃ pk ∈ pks, Decides db oid columnNo parentPk view pk verdict

/-- The column is there in every row. -/
def HasColumn (db : Tables) (oid columnNo : Nat) : Prop :=
  ∀ pk tuple older, db.rows oid pk = tuple :: older → ∃ v, tuple.values[columnNo]? = some v

theorem foreignKeyValue_eq {values : List AstValue} {v : AstValue}
    (hv : values[columnNo]? = some v) :
    ∃ value, foreignKeyValue columnNo values = .ok value ∧
      (value = some parentPk ↔ v.type = .int ∧ v.intVal = parentPk) := by
  refine ⟨_, by rw [foreignKeyValue, hv], ?_⟩
  split_ifs with hbad
  · refine ⟨fun h => (by cases h), fun ⟨hint, hval⟩ => ?_⟩
    rcases hbad with hne | hneg
    · exact absurd hint hne
    · omega
  · obtain ⟨hint, hpos⟩ := not_or.mp hbad
    refine ⟨fun h => ⟨not_not.mp hint, ?_⟩, fun ⟨_, hval⟩ => ?_⟩
    · have := Option.some.inj h
      omega
    · rw [hval, Int.toNat_natCast]

theorem childVerdict_eq {tuple : RowVersion} (h : ∃ v, tuple.values[columnNo]? = some v) :
    childVerdict columnNo parentPk view tuple = .ok (
      if hasKey columnNo parentPk tuple then
        match checkVisibility view tuple.trxId tuple.deleted with
        | .absent => none
        | .busy => some .busy
        | .live => some .violation
      else none) := by
  obtain ⟨v, hv⟩ := h
  obtain ⟨value, hvalue, hiff⟩ := @foreignKeyValue_eq columnNo parentPk _ _ hv
  have hkey : hasKey columnNo parentPk tuple = decide (value = some parentPk) := by
    rw [hasKey, hv]
    exact decide_eq_decide.mpr hiff.symm
  rw [childVerdict, hvalue, hkey]
  show (if value ≠ some parentPk then _ else _) = _
  by_cases hsome : value = some parentPk
  · rw [if_neg (not_not.mpr hsome), if_pos (by simpa using hsome)]
    cases checkVisibility view tuple.trxId tuple.deleted <;> rfl
  · rw [if_pos hsome, if_neg (by simpa using hsome)]

variable {pk : Nat}

theorem decides_iff (hcol : HasColumn db oid columnNo) {verdict : FkVerdict} :
    Decides db oid columnNo parentPk view pk verdict ↔
      ∃ tuple older, db.rows oid pk = tuple :: older ∧ hasKey columnNo parentPk tuple = true ∧
        ((view.visible tuple.trxId = false ∧ verdict = .busy) ∨
          (view.visible tuple.trxId = true ∧ tuple.deleted = false ∧ verdict = .violation)) := by
  constructor
  · rintro ⟨tuple, older, hrow, hdec⟩
    refine ⟨tuple, older, hrow, ?_⟩
    rw [childVerdict_eq (hcol pk tuple older hrow)] at hdec
    have hdec := Except.ok.inj hdec
    split_ifs at hdec with hkey
    refine ⟨hkey, ?_⟩
    cases hvis : view.visible tuple.trxId with
    | false =>
      rw [checkVisibility, hvis] at hdec
      exact .inl ⟨rfl, (Option.some.inj hdec).symm⟩
    | true =>
      cases hdel : tuple.deleted with
      | true => rw [checkVisibility, hvis, hdel] at hdec; cases hdec
      | false =>
        rw [checkVisibility, hvis, hdel] at hdec
        exact .inr ⟨rfl, rfl, (Option.some.inj hdec).symm⟩
  · rintro ⟨tuple, older, hrow, hkey, hcase⟩
    refine ⟨tuple, older, hrow, ?_⟩
    rw [childVerdict_eq (hcol pk tuple older hrow), if_pos hkey]
    rcases hcase with ⟨hvis, rfl⟩ | ⟨hvis, hdel, rfl⟩
    · rw [checkVisibility, hvis]
      rfl
    · rw [checkVisibility, hvis, hdel]
      rfl

theorem decides_ne_pass (hcol : HasColumn db oid columnNo) :
    ¬ Decides db oid columnNo parentPk view pk .pass := by
  rw [decides_iff hcol]
  rintro ⟨_, _, _, _, ⟨_, h⟩ | ⟨_, _, h⟩⟩ <;> cases h

theorem not_decides_of_none {tuple : RowVersion} {older : List RowVersion}
    (hrow : db.rows oid pk = tuple :: older)
    (h : childVerdict columnNo parentPk view tuple = .ok none) (v : FkVerdict) :
    ¬ Decides db oid columnNo parentPk view pk v := by
  rintro ⟨tuple', older', hrow', hdec⟩
  obtain ⟨rfl, -⟩ := List.cons.inj (hrow.symm.trans hrow')
  rw [h] at hdec
  cases hdec

theorem not_decides_of_nil (hrow : db.rows oid pk = []) (v : FkVerdict) :
    ¬ Decides db oid columnNo parentPk view pk v := by
  rintro ⟨tuple, older, hrow', -⟩
  rw [hrow] at hrow'
  cases hrow'

theorem AnswersFor.cons {pk : Nat} {pks : List Nat} {verdict : FkVerdict}
    (hnone : ∀ v, ¬ Decides db oid columnNo parentPk view pk v)
    (h : AnswersFor db oid columnNo parentPk view pks verdict) :
    AnswersFor db oid columnNo parentPk view (pk :: pks) verdict := by
  rcases h with ⟨hpass, hall⟩ | ⟨k, hk, hdec⟩
  · refine .inl ⟨hpass, fun k hk => ?_⟩
    rcases List.mem_cons.mp hk with rfl | hk
    · exact hnone
    · exact hall k hk
  · exact .inr ⟨k, List.mem_cons_of_mem pk hk, hdec⟩

theorem walkChildren_answers (hcol : HasColumn db oid columnNo) (pks : List Nat) :
    ∃ verdict, walkChildren db oid columnNo parentPk view pks = .ok verdict ∧
      AnswersFor db oid columnNo parentPk view pks verdict := by
  induction pks with
  | nil => exact ⟨.pass, rfl, .inl ⟨rfl, fun _ h => (by cases h)⟩⟩
  | cons pk rest ih =>
    obtain ⟨verdict, hwalk, hanswers⟩ := ih
    rw [walkChildren.eq_def]
    dsimp only
    cases hrow : db.rows oid pk with
    | nil => exact ⟨verdict, hwalk, hanswers.cons (not_decides_of_nil hrow)⟩
    | cons tuple older =>
      dsimp only
      have hchild := @childVerdict_eq columnNo parentPk view tuple (hcol pk tuple older hrow)
      generalize (if hasKey columnNo parentPk tuple then _ else _) = out at hchild
      rw [hchild]
      cases out with
      | none => exact ⟨verdict, hwalk, hanswers.cons (not_decides_of_none hrow hchild)⟩
      | some v => exact ⟨v, rfl, .inr ⟨pk, List.mem_cons_self, tuple, older, hrow, hchild⟩⟩

theorem cabinChildren_answers (hcol : HasColumn db oid columnNo) (child : TableAccess)
    (hintOk : Nat → Bool) (entries : List Nat) :
    ∀ seen, (∀ pk ∈ seen, ∀ v, ¬ Decides db oid columnNo parentPk view pk v) →
      cabinChildren db child oid columnNo parentPk view hintOk seen entries = .ok none ∨
      ∃ verdict,
        cabinChildren db child oid columnNo parentPk view hintOk seen entries =
          .ok (some verdict) ∧
        AnswersFor db oid columnNo parentPk view entries verdict := by
  induction entries with
  | nil => exact fun seen _ => .inr ⟨.pass, rfl, .inl ⟨rfl, fun _ h => (by cases h)⟩⟩
  | cons pk rest ih =>
    intro seen hseen
    rw [cabinChildren.eq_def]
    dsimp only
    split_ifs with hin hhint
    · exact (ih seen hseen).imp_right fun ⟨v, hrun, hans⟩ => ⟨v, hrun, hans.cons (hseen pk hin)⟩
    · exact .inl rfl
    · have hgo : (∀ v, ¬ Decides db oid columnNo parentPk view pk v) →
          cabinChildren db child oid columnNo parentPk view hintOk (pk :: seen) rest = .ok none ∨
          ∃ verdict, cabinChildren db child oid columnNo parentPk view hintOk (pk :: seen) rest =
              .ok (some verdict) ∧
            AnswersFor db oid columnNo parentPk view (pk :: rest) verdict := fun hnone =>
        (ih (pk :: seen) fun k hk => (List.mem_cons.mp hk).elim (fun heq => heq ▸ hnone)
          (hseen k)).imp_right fun ⟨v, hrun, hans⟩ => ⟨v, hrun, hans.cons hnone⟩
      cases hrow : db.rows oid pk with
      | nil => exact hgo (not_decides_of_nil hrow)
      | cons tuple older =>
        dsimp only
        have hchild := @childVerdict_eq columnNo parentPk view tuple
          (hcol pk tuple older hrow)
        generalize (if hasKey columnNo parentPk tuple then _ else _) = out at hchild
        rw [hchild]
        cases out with
        | none => exact hgo (not_decides_of_none hrow hchild)
        | some v =>
          exact .inr ⟨v, rfl, .inr ⟨pk, List.mem_cons_self, tuple, older, hrow, hchild⟩⟩

theorem AnswersFor.agree {pks pks' : List Nat}
    {v v' : FkVerdict} (h : AnswersFor db oid columnNo parentPk view pks v)
    (h' : AnswersFor db oid columnNo parentPk view pks' v')
    (hcover : ∀ pk w, Decides db oid columnNo parentPk view pk w → pk ∈ pks ∧ pk ∈ pks')
    (hpure : ∀ pk pk' w w', Decides db oid columnNo parentPk view pk w →
      Decides db oid columnNo parentPk view pk' w' → w = w') : v = v' := by
  rcases h with ⟨rfl, hall⟩ | ⟨pk, -, hdec⟩
  · rcases h' with ⟨rfl, -⟩ | ⟨pk', -, hdec'⟩
    · rfl
    · exact absurd hdec' (hall pk' (hcover pk' v' hdec').1 v')
  · rcases h' with ⟨rfl, hall'⟩ | ⟨pk', -, hdec'⟩
    · exact absurd hdec (hall' pk (hcover pk v hdec).2 v)
    · exact hpure pk pk' v v' hdec hdec'

end

end Kds.Exec
