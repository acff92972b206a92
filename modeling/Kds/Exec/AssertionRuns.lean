/-
  Kds.Exec.AssertionRuns

  Assertion enforcement over whole runs: any number of transactions interleave their INSERTs,
  UPDATEs, DELETEs, commits and aborts on one core, and the question is whether the rows that
  end up committed respect every bound.

  A statement is one step: between its admission and its reservation nothing else runs.  A
  statement that fails leaves its transaction failed, and a failed transaction can only abort.  An
  INSERT can be refused after its tuple is placed, and a COMMIT or a ROLLBACK halfway: each such
  stop is an outcome of the step here, with what the code leaves behind.

  Headers count reserved departures together with reserved arrivals, so a statement can be
  admitted into room that an uncommitted departure freed and that an abort takes back.  The
  counterexample is `deleteFreesRoom`; `assertion_bounds_hold` says that this, together with a
  departure of a negative SUM contribution and with those stops, is all that can go wrong.
-/

import Kds.Exec.AssertionLedger
import Kds.Lib.Run
import Mathlib.Algebra.BigOperators.Group.Finset.Piecewise
import Mathlib.Algebra.Order.BigOperators.Group.Finset

namespace Kds.Exec

open Lib List
open Function (update update_self)

-- The system

/-- A version of a row; `none` is no row. -/
abbrev Version := Option (List AstValue)

/-- A row of some relation: the version committed transactions left (the one a rollback of the
    writer leaves), the version on the page, and the transaction in flight that wrote the latter. -/
structure TableRow where
  oid : Oid
  committed : Option (List AstValue)
  current : Option (List AstValue)
  writer : Option TxnId
  deriving DecidableEq

/-- The registry and its reservations, the transactions in flight and the rows.  `failed` is the
    session's failed state: a transaction in it has only ROLLBACK left. -/
structure EngineState where
  live : List LiveAssertion
  pending : TxnId → List Reservation
  appended : Nat
  inFlight : Finset TxnId
  failed : TxnId → Bool
  nextTxn : TxnId
  rows : List TableRow

/-- How a COMMIT ends. -/
inductive CommitEnd where
  | done
  /-- `CommitTxn` is refused, or the commit record of a statement that is its own transaction: the
      reservations are forgotten and the transaction goes on. -/
  | refused
  /-- The commit record is refused and `HandleCommit` rolls the rows back. -/
  | rolledBack (left : Nat → Option Version)

/-- How a ROLLBACK ends. -/
inductive AbortEnd where
  | done
  /-- `AbortTxn` is refused by a page or the log after it has reversed `n` reservations. -/
  | refused (n : Nat)
  /-- `TransactionManager::Abort` is refused before it has restored every row. -/
  | stuck (left : Nat → Option Version)

/-- A statement's last arguments say what the code past its reservations answers: index
    maintenance and the undo record of an INSERT, the undo record and the page write of the others.
    A refusal past the trail entry leaves what the statement followed by `fail` leaves. -/
inductive Action where
  | begin
  | insert (t : TxnId) (oid : Oid) (row : List AstValue) (indexed logged : Option Status := none)
  | update (t : TxnId) (i : Nat) (newRow : List AstValue) (written : Option Status := none)
  | delete (t : TxnId) (i : Nat) (written : Option Status := none)
  /-- A statement that fails before it reserves or places anything. -/
  | fail (t : TxnId)
  | commit (t : TxnId) (ending : CommitEnd := .done)
  | abort (t : TxnId) (ending : AbortEnd := .done)

/-- First-updater-wins: a row another transaction in flight has written cannot be written. -/
def TableRow.writableBy (r : TableRow) (t : TxnId) : Bool :=
  r.writer == none || r.writer == some t

namespace EngineState

def IsOpen (s : EngineState) (t : TxnId) : Prop :=
  t ∈ s.inFlight ∧ s.failed t = false

instance (s : EngineState) (t : TxnId) : Decidable (s.IsOpen t) := by
  unfold IsOpen; infer_instance

/-- A statement of `t` failed. -/
def failTxn (s : EngineState) (t : TxnId) : EngineState :=
  { s with failed := update s.failed t true }

def endTxn (s : EngineState) (t : TxnId) : EngineState :=
  { s with
    pending := update s.pending t []
    inFlight := s.inFlight.erase t }

/-- Put a statement's reservations in place and then either its effect on the rows, or, when an
    assertion stopped it, the transaction's failed state. -/
def settle (s : EngineState) (t : TxnId)
    (out : Outcome (List LiveAssertion × Reserving)) (rows : List TableRow) : EngineState :=
  let s' := { s with
    live := out.1.1
    pending := update s.pending t out.1.2.pending
    appended := out.1.2.appended }
  match out.2 with
  | some _ => s'.failTxn t
  | none => { s' with rows := rows }

def reserving (s : EngineState) (t : TxnId) : Reserving :=
  { pending := s.pending t, appended := s.appended }

/-- The reservations of `t` are out of the pending map; the transaction goes on. -/
def forget (s : EngineState) (t : TxnId) : EngineState :=
  { s with pending := update s.pending t [] }

/-- The rows after a rollback of `t`.  Of a row that it did not restore, `left` names the version
    that stays, and with the transaction gone everybody sees that one. -/
def rolledBack (s : EngineState) (t : TxnId) (left : Nat → Option Version) : List TableRow :=
  s.rows.mapIdx fun i r =>
    if r.writer = some t then
      match left i with
      | some version => { r with committed := version, current := version, writer := none }
      | none => { r with current := r.committed, writer := none }
    else r

end EngineState

/-- Reservations, and then what refuses the statement after them, if anything does. -/
def Outcome.andThen {α : Type} (out : Outcome α) (later : Option Status) : Outcome α :=
  (out.1, out.2.or later)

section

variable (chainAppend : Nat → StatusOr EntryAt) (formatValue : Nat → AstValue → String)

/-- One step; `none` where the action cannot be taken.  An INSERT into a relation with an
    assertion over the pk reads outside its VALUES list and is no step. -/
def step (s : EngineState) : Action → Option EngineState
  | .begin => some { s with
      inFlight := insert s.nextTxn s.inFlight
      failed := update s.failed s.nextTxn false
      nextTxn := s.nextTxn + 1 }
  | .insert t oid row indexed logged =>
    if s.IsOpen t ∧ ∀ a ∈ s.live, a.decl.targetOid = oid → a.decl.PastPk then
      match admitInsert formatValue oid row.tail s.live with
      | some _ => some (s.failTxn t)
      | none =>
        -- a tuple placed before the trail entry is there: no rollback takes it away
        let stuck := s.rows ++ [⟨oid, some row, some row, some t⟩]
        match indexed with
        | some _ => some { s.failTxn t with rows := stuck }
        | none =>
          let out := (reserveInsert chainAppend oid row.tail s.live (s.reserving t)).andThen logged
          match out.2 with
          | some _ => some { s.settle t out s.rows with rows := stuck }
          | none => some (s.settle t out (s.rows ++ [⟨oid, none, some row, some t⟩]))
    else none
  | .update t i newRow written =>
    if s.IsOpen t then
      match s.rows[i]? with
      | some r =>
        match r.current with
        | some oldRow =>
          if r.writableBy t then
            some (s.settle t
              ((admitAndReserveUpdate chainAppend formatValue r.oid oldRow newRow s.live
                (s.reserving t)).andThen written)
              (s.rows.set i { r with current := some newRow, writer := some t }))
          else some (s.failTxn t)
        | none => none
      | none => none
    else none
  | .delete t i written =>
    if s.IsOpen t then
      match s.rows[i]? with
      | some r =>
        match r.current with
        | some oldRow =>
          if r.writableBy t then
            some (s.settle t
              ((reserveDelete chainAppend r.oid oldRow s.live (s.reserving t)).andThen written)
              (s.rows.set i { r with current := none, writer := some t }))
          else some (s.failTxn t)
        | none => none
      | none => none
    else none
  | .fail t => if s.IsOpen t then some (s.failTxn t) else none
  | .commit t ending =>
    if s.IsOpen t then
      match ending with
      | .done => some { s.endTxn t with
          rows := s.rows.map fun r =>
            if r.writer = some t then { r with committed := r.current, writer := none } else r }
      | .refused => some (s.forget t)
      | .rolledBack left => some { s.endTxn t with rows := s.rolledBack t left }
    else none
  | .abort t ending =>
    if t ∈ s.inFlight then
      match ending with
      | .refused n =>
        some { s.forget t with live := (abortTxn ((s.pending t).reverse.take n) s.live).1 }
      | .done =>
        match abortTxn (s.pending t).reverse s.live with
        | (live, some _) => some { s.forget t with live := live }
        | (live, none) => some { s.endTxn t with
            live := live
            rows := s.rows.map fun r =>
              if r.writer = some t then { r with current := r.committed, writer := none } else r }
      | .stuck left =>
        match abortTxn (s.pending t).reverse s.live with
        | (live, some _) => some { s.forget t with live := live }
        | (live, none) => some { s.endTxn t with live := live, rows := s.rolledBack t left }
    else none

end

-- What must hold, and when it does

/-- What a version of a row of `oid` adds to a group; no row and another relation's row add
    nothing. -/
def AssertionDecl.valueOf (d : AssertionDecl) (key : List UInt8) (oid : Oid)
    (version : Option (List AstValue)) : Int :=
  if d.targetOid = oid then version.elim 0 (d.rowValue key) else 0

/-- A group's aggregate over the committed rows. -/
def committedAggregate (rows : List TableRow) (d : AssertionDecl) (key : List UInt8) : Int :=
  (rows.map fun r => d.valueOf key r.oid r.committed).sum

/-- The start: nothing in flight, every header equal to its group's aggregate over the committed
    rows and within the bound; the registry holds one assertion per id. -/
structure EngineState.Start (s : EngineState) : Prop where
  ids : (s.live.map (·.decl.assertionId)).Nodup
  inFlight : s.inFlight = ∅
  pending : ∀ t, s.pending t = []
  unwritten : ∀ r ∈ s.rows, r.writer = none ∧ r.current = r.committed
  header : ∀ a ∈ s.live, ∀ key,
    a.cabin.aggregateOf a.decl.aggregate key = committedAggregate s.rows a.decl key
  bound : ∀ a ∈ s.live, ∀ key, a.cabin.aggregateOf a.decl.aggregate key ≤ a.decl.bound

/-- The row version a statement replaces and the one it leaves. -/
structure Change where
  txn : TxnId
  oid : Oid
  before : Option (List AstValue)
  after : Option (List AstValue)

def Action.change (s : EngineState) : Action → Option Change
  | .insert t oid row _ _ => some ⟨t, oid, none, some row⟩
  | .update t i newRow none => s.rows[i]?.map fun r => ⟨t, r.oid, r.current, some newRow⟩
  | .delete t i none => s.rows[i]?.map fun r => ⟨t, r.oid, r.current, none⟩
  | _ => none

def Change.adds (c : Change) (d : AssertionDecl) (key : List UInt8) : Int :=
  d.valueOf key c.oid c.after - d.valueOf key c.oid c.before

/-- The group is the one the statement's new row joins, so the statement was checked there. -/
def Change.ArrivesIn (c : Change) (d : AssertionDecl) (key : List UInt8) : Prop :=
  ∃ row, c.after = some row ∧ d.keyFor row 0 = key

namespace EngineState

/-- What the group's header rises by, at the worst, when `t` ends: a failed transaction gives its
    reservations back, an open one only those that had lowered the header. -/
def takenBack (s : EngineState) (d : AssertionDecl) (key : List UInt8) (t : TxnId) : Int :=
  let net := netOf d.aggregate.meter d.assertionId key (s.pending t)
  if s.failed t then -net else max 0 (-net)

/-- The admission checks' own comparison: the group joined has room by its header. -/
def Admitted (s : EngineState) (c : Change) : Prop :=
  ∀ a ∈ s.live, a.decl.targetOid = c.oid → ∀ key, c.ArrivesIn a.decl key →
    0 < c.adds a.decl key →
      a.cabin.aggregateOf a.decl.aggregate key + c.adds a.decl key ≤ a.decl.bound

section

variable (chainAppend : Nat → StatusOr EntryAt) (formatValue : Nat → AstValue → String)

/-- Nothing stops halfway: an INSERT that places its tuple gets to its trail entry, and a COMMIT
    and a ROLLBACK get to their ends, the latter without overflow while it unwinds. -/
def GoesThrough (s : EngineState) : Action → Prop
  | .insert t oid row indexed logged => admitInsert formatValue oid row.tail s.live = none →
      indexed = none ∧
        ((reserveInsert chainAppend oid row.tail s.live (s.reserving t)).andThen logged).2 = none
  | .commit _ ending => ending = .done
  | .abort t ending => ending = .done ∧ UnwindInRange s.live (s.pending t).reverse
  | _ => True

end

end EngineState

-- The invariant

/-- What `t`'s writes add to a group. -/
def rowNet (rows : List TableRow) (t : TxnId) (d : AssertionDecl) (key : List UInt8) : Int :=
  (rows.map fun r => if r.writer = some t then
    d.valueOf key r.oid r.current - d.valueOf key r.oid r.committed else 0).sum

namespace EngineState

/-- The part of a reading that no pending reservation accounts for. -/
def settledPart (s : EngineState) (a : LiveAssertion) (m : Meter) (key : List UInt8) : Int :=
  m.read a.cabin key - ∑ t ∈ s.inFlight, netOf m a.decl.assertionId key (s.pending t)

/-- **The books**: a header is its committed part plus the pending reservations, and an open
    transaction's reservations are what its rows add. -/
structure Books (s : EngineState) : Prop where
  ids : (s.live.map (·.decl.assertionId)).Nodup
  fresh : ∀ t ∈ s.inFlight, t < s.nextTxn
  noPending : ∀ t, t ∉ s.inFlight → s.pending t = []
  writers : ∀ r ∈ s.rows, ∀ t, r.writer = some t → t ∈ s.inFlight
  unwritten : ∀ r ∈ s.rows, r.writer = none → r.current = r.committed
  settledAggregate : ∀ a ∈ s.live, ∀ key,
    s.settledPart a a.decl.aggregate.meter key = committedAggregate s.rows a.decl key
  settledEntries : ∀ a ∈ s.live, ∀ loc key, 0 ≤ s.settledPart a (.entry loc) key
  openNet : ∀ t, s.IsOpen t → ∀ a ∈ s.live, ∀ key,
    netOf a.decl.aggregate.meter a.decl.assertionId key (s.pending t) = rowNet s.rows t a.decl key

/-- **The run invariant**: the books, and the header within the bound even with everything taken
    back that can be. -/
structure Inv (s : EngineState) : Prop extends s.Books where
  worst : ∀ a ∈ s.live, ∀ key,
    a.cabin.aggregateOf a.decl.aggregate key + ∑ t ∈ s.inFlight, s.takenBack a.decl key t ≤
      a.decl.bound

variable {s : EngineState}

end EngineState

namespace EngineState

variable {s : EngineState} {i : Nat} {rs' back : List Reservation} {c : Change}
    {out : Outcome (List LiveAssertion × Reserving)} {f : TableRow → TableRow}

/-- How the rows change under a statement: one row of `c.txn` goes from `c.before` to `c.after`,
    and the committed versions stay. -/
structure RowsChange (rows rows' : List TableRow) (c : Change) : Prop where
  committed : ∀ d key, committedAggregate rows' d key = committedAggregate rows d key
  net : ∀ t d key, rowNet rows' t d key = rowNet rows t d key +
    if t = c.txn then c.adds d key else 0
  writers : ∀ r ∈ rows', ∀ t, r.writer = some t → t = c.txn ∨ ∃ r₀ ∈ rows, r₀.writer = some t
  unwritten : ∀ r ∈ rows', r.writer = none → r ∈ rows

theorem rowsChange_append (rows : List TableRow) (t : TxnId) (oid : Oid) (row : List AstValue) :
    RowsChange rows (rows ++ [⟨oid, none, some row, some t⟩]) ⟨t, oid, none, some row⟩ where
  committed d key := by simp [committedAggregate, AssertionDecl.valueOf]
  net u d key := by
    simp only [rowNet, map_append, sum_append, map_cons, map_nil,
      sum_cons, sum_nil, Option.some.injEq, Change.adds]
    by_cases hu : t = u
    · simp [hu]
    · simp [hu, Ne.symm hu]
  writers r hr u hu := by
    rcases mem_append.mp hr with hr | hr
    · exact .inr ⟨r, hr, hu⟩
    · simp only [mem_singleton] at hr
      subst hr
      exact .inl (Option.some.inj hu).symm
  unwritten r hr hnone := by
    rcases mem_append.mp hr with hr | hr
    · exact hr
    · simp only [mem_singleton] at hr
      subst hr
      cases hnone

variable {rows : List TableRow}

theorem sum_map_set {α : Type} {l : List α} (f : α → Int) {i : Nat} {x : α} (h : l[i]? = some x)
    (y : α) : ((l.set i y).map f).sum = (l.map f).sum - f x + f y := by
  obtain ⟨hi, rfl⟩ := List.getElem?_eq_some_iff.mp h
  rw [map_set, sum_set', dif_pos (by rwa [length_map]), getElem_map]
  omega

theorem rowsChange_set {r : TableRow} (hr : rows[i]? = some r) {t : TxnId}
    (hwritable : r.writableBy t = true) (hunwritten : r.writer = none → r.current = r.committed)
    (after : Option (List AstValue)) :
    RowsChange rows (rows.set i { r with current := after, writer := some t })
      ⟨t, r.oid, r.current, after⟩ where
  committed d key := by
    unfold committedAggregate
    rw [sum_map_set _ hr]
    simp
  net u d key := by
    unfold rowNet
    rw [sum_map_set _ hr]
    simp only [Option.some.injEq, Change.adds]
    have hwriter : r.writer = none ∨ r.writer = some t := by
      simpa [TableRow.writableBy] using hwritable
    by_cases hu : t = u
    · subst hu
      rcases hwriter with hw | hw
      · simp [hw, hunwritten hw]
      · simp [hw]
        omega
    · have hne : r.writer ≠ some u := by
        rcases hwriter with hw | hw
        · simp [hw]
        · simp [hw, hu]
      simp [hu, Ne.symm hu, hne]
  writers r' hr' u hu := by
    rcases mem_or_eq_of_mem_set hr' with hr' | rfl
    · exact .inr ⟨r', hr', hu⟩
    · exact .inl (Option.some.inj hu).symm
  unwritten r' hr' hnone := by
    rcases mem_or_eq_of_mem_set hr' with hr' | rfl
    · exact hr'
    · cases hnone

variable {live live' : List LiveAssertion}

theorem inStep_ids {rs : List Reservation} (h : InStep live live' rs rs') :
    live'.map (·.decl.assertionId) = live.map (·.decl.assertionId) := by
  unfold InStep at h
  induction h with
  | nil => rfl
  | cons hd _ ih => simp [hd.1, ih]

theorem exists_of_forall₂ {R : LiveAssertion → LiveAssertion → Prop} (h : List.Forall₂ R live live')
    {a' : LiveAssertion} (ha' : a' ∈ live') : ∃ a ∈ live, R a a' := by
  induction h with
  | nil => simp at ha'
  | cons hd _ ih =>
    rcases mem_cons.mp ha' with rfl | ha'
    · exact ⟨_, by simp, hd⟩
    · obtain ⟨a, ha, hR⟩ := ih ha'
      exact ⟨a, mem_cons_of_mem _ ha, hR⟩

variable {t : TxnId}

theorem sum_inFlight_update {f g : TxnId → Int} {inFlight : Finset TxnId}
    (ht : t ∈ inFlight) (h : ∀ u, u ≠ t → g u = f u) :
    ∑ u ∈ inFlight, g u = ∑ u ∈ inFlight, f u - f t + g t := by
  have hothers : ∑ u ∈ inFlight.erase t, g u = ∑ u ∈ inFlight.erase t, f u :=
    Finset.sum_congr rfl fun u hu => h u (Finset.ne_of_mem_erase hu)
  have hf := Finset.add_sum_erase inFlight f ht
  have hg := Finset.add_sum_erase inFlight g ht
  linarith

variable {s' : EngineState}

theorem books_reserve (h : s.Books) (ht : t ∈ s.inFlight)
    (hlive : InStep s.live s'.live (s.pending t) rs')
    (hpend : s'.pending = update s.pending t rs') (hin : s'.inFlight = s.inFlight)
    (hnext : s'.nextTxn = s.nextTxn) (hfailed : ∀ u, u ≠ t → s'.failed u = s.failed u)
    (hcommitted : ∀ d key, committedAggregate s'.rows d key = committedAggregate s.rows d key)
    (hwriters : ∀ r ∈ s'.rows, ∀ u, r.writer = some u → u ∈ s.inFlight)
    (hunwritten : ∀ r ∈ s'.rows, r.writer = none → r.current = r.committed)
    (hothers : ∀ u, u ≠ t → ∀ d key, rowNet s'.rows u d key = rowNet s.rows u d key)
    (hown : s'.failed t = false → ∀ a ∈ s.live, ∀ key,
      netOf a.decl.aggregate.meter a.decl.assertionId key rs' = rowNet s'.rows t a.decl key) :
    s'.Books := by
  have hpend_t : s'.pending t = rs' := by simp [hpend]
  have hpend_ne : ∀ u, u ≠ t → s'.pending u = s.pending u := fun u hu => by simp [hpend, hu]
  have hsettled : ∀ a' ∈ s'.live, ∃ a ∈ s.live, a'.decl = a.decl ∧
      ∀ m key, s'.settledPart a' m key = s.settledPart a m key := by
    intro a' ha'
    obtain ⟨a, ha, hdecl, hread⟩ := exists_of_forall₂ hlive ha'
    refine ⟨a, ha, hdecl, fun m key => ?_⟩
    unfold settledPart
    rw [hin, hdecl, sum_inFlight_update (f := fun u => netOf m a.decl.assertionId key (s.pending u))
      ht fun u hu => by rw [hpend_ne u hu], hpend_t]
    have := hread m key
    omega
  refine ⟨?_, ?_, ?_, ?_, hunwritten, ?_, ?_, ?_⟩
  · rw [inStep_ids hlive]
    exact h.ids
  · rw [hin, hnext]
    exact h.fresh
  · intro u hu
    rw [hin] at hu
    rw [hpend_ne u fun heq => hu (heq ▸ ht)]
    exact h.noPending u hu
  · rw [hin]
    exact hwriters
  · intro a' ha' key
    obtain ⟨a, ha, hdecl, hset⟩ := hsettled a' ha'
    rw [hset, hdecl, hcommitted]
    exact h.settledAggregate a ha key
  · intro a' ha' loc key
    obtain ⟨a, ha, -, hset⟩ := hsettled a' ha'
    rw [hset]
    exact h.settledEntries a ha loc key
  · intro u hu a' ha' key
    obtain ⟨a, ha, hdecl, -⟩ := hsettled a' ha'
    rw [hdecl]
    by_cases hut : u = t
    · subst hut
      rw [hpend_t]
      exact hown hu.2 a ha key
    · rw [hpend_ne u hut, hothers u hut]
      exact h.openNet u ⟨hin ▸ hu.1, (hfailed u hut) ▸ hu.2⟩ a ha key

/-- What a statement of an open transaction that got past its checks has done: the row change
    `c`, with reservations in step with the headers, and, when it ran through, admitted and
    reserved for exactly what the row change adds. -/
structure Statement (s : EngineState) (c : Change)
    (out : Outcome (List LiveAssertion × Reserving)) (rows : List TableRow) : Prop where
  opened : s.IsOpen c.txn
  inStep : InStep s.live out.1.1 (s.pending c.txn) out.1.2.pending
  other : ∀ m id key, id ∉ s.live.map (·.decl.assertionId) →
    netOf m id key out.1.2.pending = netOf m id key (s.pending c.txn)
  adds : out.2 = none → ∀ a ∈ s.live, ∀ key,
    netOf a.decl.aggregate.meter a.decl.assertionId key out.1.2.pending =
      netOf a.decl.aggregate.meter a.decl.assertionId key (s.pending c.txn) + c.adds a.decl key
  admitted : out.2 = none → s.Admitted c
  change : RowsChange s.rows rows c

/-- A statement refused after its reservations. -/
theorem Statement.andThen {rows : List TableRow} (h : s.Statement c out rows)
    (later : Option Status) : s.Statement c (out.andThen later) rows :=
  have hnone : (out.andThen later).2 = none → out.2 = none := fun heq =>
    (Option.or_eq_none_iff.mp heq).1
  ⟨h.opened, h.inStep, h.other, fun heq => h.adds (hnone heq), fun heq => h.admitted (hnone heq),
    h.change⟩

theorem inStep_refl (live : List LiveAssertion) (rs : List Reservation) : InStep live live rs rs :=
  inStep_of_other fun _ _ _ _ => rfl

theorem books_failTxn (h : s.Books) (hopen : s.IsOpen t) : (s.failTxn t).Books := by
  refine books_reserve h hopen.1 (inStep_refl _ _) (by simp [failTxn]) rfl rfl ?_ (fun _ _ => rfl)
    h.writers h.unwritten (fun _ _ _ _ => rfl) ?_
  · intro u hu
    simp [failTxn, hu]
  · intro hfalse
    simp [failTxn] at hfalse

theorem books_settle (h : s.Books) (hst : s.Statement c out rows) :
    (s.settle c.txn out rows).Books := by
  unfold settle
  dsimp only
  cases herr : out.2 with
  | some e =>
    refine books_reserve h hst.opened.1 hst.inStep rfl rfl rfl ?_ ?_ h.writers h.unwritten ?_ ?_
    · intro u hu
      simp [failTxn, hu]
    · exact fun _ _ => rfl
    · exact fun _ _ _ _ => rfl
    · intro hfalse
      simp [failTxn] at hfalse
  | none =>
    have hrows := hst.change
    refine books_reserve h hst.opened.1 hst.inStep rfl rfl rfl ?_ hrows.committed ?_ ?_ ?_ ?_
    · exact fun _ _ => rfl
    · intro r hr u hu
      rcases hrows.writers r hr u hu with rfl | ⟨r₀, hr₀, hu₀⟩
      · exact hst.opened.1
      · exact h.writers r₀ hr₀ u hu₀
    · exact fun r hr hnone => h.unwritten r (hrows.unwritten r hr hnone) hnone
    · intro u hu d key
      rw [hrows.net]
      simp [hu]
    · intro _ a ha key
      rw [hst.adds herr a ha key, hrows.net, if_pos rfl, h.openNet c.txn hst.opened a ha key]

theorem books_begin (h : s.Books) :
    EngineState.Books { s with
      inFlight := insert s.nextTxn s.inFlight
      failed := update s.failed s.nextTxn false
      nextTxn := s.nextTxn + 1 } := by
  have hnew : s.nextTxn ∉ s.inFlight := fun hmem => Nat.lt_irrefl _ (h.fresh _ hmem)
  have hempty : s.pending s.nextTxn = [] := h.noPending _ hnew
  have hnet : ∀ d key, rowNet s.rows s.nextTxn d key = 0 := by
    intro d key
    refine sum_eq_zero fun x hx => ?_
    obtain ⟨r, hr, rfl⟩ := mem_map.mp hx
    refine if_neg fun hw => hnew (h.writers r hr _ hw)
  refine ⟨h.ids, ?_, ?_, ?_, h.unwritten, ?_, ?_, ?_⟩
  · intro u hu
    rcases Finset.mem_insert.mp hu with rfl | hu
    · exact Nat.lt_succ_self _
    · exact Nat.lt_succ_of_lt (h.fresh u hu)
  · intro u hu
    exact h.noPending u fun hmem => hu (Finset.mem_insert_of_mem hmem)
  · intro r hr u hu
    exact Finset.mem_insert_of_mem (h.writers r hr u hu)
  · intro a ha key
    rw [← h.settledAggregate a ha key]
    simp [settledPart, Finset.sum_insert hnew, hempty]
  · intro a ha loc key
    have := h.settledEntries a ha loc key
    simpa [settledPart, Finset.sum_insert hnew, hempty] using this
  · intro u hu a ha key
    by_cases hun : u = s.nextTxn
    · subst hun
      simp [hempty, hnet]
    · refine h.openNet u ⟨?_, ?_⟩ a ha key
      · exact (Finset.mem_insert.mp hu.1).resolve_left hun
      · simpa [hun] using hu.2

theorem rowNet_end (hf : ∀ r, (f r).oid = r.oid ∧ (f r).writer = none) {u : TxnId} (hu : u ≠ t)
    (d : AssertionDecl) (key : List UInt8) :
    rowNet (rows.map fun r => if r.writer = some t then f r else r) u d key =
      rowNet rows u d key := by
  unfold rowNet
  rw [map_map]
  congr 1
  refine map_congr_left fun r _ => ?_
  by_cases hw : r.writer = some t
  · simp [hw, (hf r).2, Ne.symm hu]
  · simp [hw]

theorem sum_inFlight_end (ht : t ∈ s.inFlight) (g : TxnId → List Reservation → Int) :
    ∑ u ∈ s.inFlight.erase t, g u (update s.pending t [] u) =
      ∑ u ∈ s.inFlight, g u (s.pending u) - g t (s.pending t) := by
  have hpend : ∀ u, u ≠ t → update s.pending t [] u = s.pending u := fun u hu => by
    simp [hu]
  rw [← Finset.add_sum_erase _ _ ht, Finset.sum_congr rfl fun u hu => by
    rw [hpend u (Finset.ne_of_mem_erase hu)]]
  omega

/-- **Ending a transaction keeps the books**, when the headers give back `back` and the committed
    rows gain what of the transaction's reservations is not given back. -/
theorem books_end (h : s.Books) (ht : t ∈ s.inFlight) (hlive : TakenBack s.live live' back)
    (hf : ∀ r, (f r).oid = r.oid ∧ (f r).writer = none ∧ (f r).current = (f r).committed)
    (hcommitted : ∀ a ∈ s.live, ∀ key, committedAggregate
      (s.rows.map fun r => if r.writer = some t then f r else r) a.decl key =
        committedAggregate s.rows a.decl key +
          (netOf a.decl.aggregate.meter a.decl.assertionId key (s.pending t) -
            netOf a.decl.aggregate.meter a.decl.assertionId key back)) (hentries : ∀ loc id key,
      netOf (.entry loc) id key back ≤ netOf (.entry loc) id key (s.pending t)) :
    EngineState.Books { s.endTxn t with
      live := live'
      rows := s.rows.map fun r => if r.writer = some t then f r else r } := by
  have hpend : ∀ u, u ≠ t → update s.pending t [] u = s.pending u := fun u hu => by
    simp [hu]
  refine ⟨?_, ?_, ?_, ?_, ?_, ?_, ?_, ?_⟩
  · have := congrArg (List.map AssertionDecl.assertionId) hlive.map_decl
    have hids : live'.map (·.decl.assertionId) = s.live.map (·.decl.assertionId) := by
      simpa [map_map, Function.comp_def] using this
    exact hids ▸ h.ids
  · exact fun u hu => h.fresh u (Finset.mem_of_mem_erase hu)
  · intro u hu
    by_cases hut : u = t
    · simp [endTxn, hut]
    · dsimp only [endTxn]
      rw [hpend u hut]
      exact h.noPending u fun hmem => hu (Finset.mem_erase.mpr ⟨hut, hmem⟩)
  · intro r hr u hu
    obtain ⟨r₀, hr₀, rfl⟩ := mem_map.mp hr
    by_cases hw : r₀.writer = some t
    · simp [hw, (hf r₀).2.1] at hu
    · rw [if_neg hw] at hu
      exact Finset.mem_erase.mpr ⟨fun heq => hw (heq ▸ hu), h.writers r₀ hr₀ u hu⟩
  · intro r hr hnone
    obtain ⟨r₀, hr₀, rfl⟩ := mem_map.mp hr
    by_cases hw : r₀.writer = some t
    · simp [hw, (hf r₀).2.2]
    · rw [if_neg hw] at hnone ⊢
      exact h.unwritten r₀ hr₀ hnone
  · intro a' ha' key
    obtain ⟨a, ha, hdecl, hread⟩ := exists_of_forall₂ hlive ha'
    have h₁ := h.settledAggregate a ha key
    have h₂ := hcommitted a ha key
    have h₃ := sum_inFlight_end ht
      fun _ rs => netOf a.decl.aggregate.meter a.decl.assertionId key rs
    unfold settledPart at h₁ ⊢
    dsimp only [endTxn] at h₃ ⊢
    rw [hdecl, h₃, hread, h₂]
    omega
  · intro a' ha' loc key
    obtain ⟨a, ha, hdecl, hread⟩ := exists_of_forall₂ hlive ha'
    have h₁ := h.settledEntries a ha loc key
    have h₂ := hentries loc a.decl.assertionId key
    have h₃ := sum_inFlight_end ht fun _ rs => netOf (.entry loc) a.decl.assertionId key rs
    unfold settledPart at h₁ ⊢
    dsimp only [endTxn] at h₃ ⊢
    rw [hdecl, h₃, hread]
    omega
  · intro u hu a' ha' key
    obtain ⟨a, ha, hdecl, -⟩ := exists_of_forall₂ hlive ha'
    have hut : u ≠ t := Finset.ne_of_mem_erase hu.1
    dsimp only [endTxn]
    rw [hdecl, hpend u hut, rowNet_end (fun r => ⟨(hf r).1, (hf r).2.1⟩) hut]
    exact h.openNet u ⟨Finset.mem_of_mem_erase hu.1, hu.2⟩ a ha key

theorem takenBack_nil (live : List LiveAssertion) : TakenBack live live [] := by
  rw [TakenBack, List.forall₂_same]
  exact fun a _ => ⟨rfl, fun m key => by simp⟩

theorem books_commit (h : s.Books) (hopen : s.IsOpen t) :
    EngineState.Books { s.endTxn t with
      rows := s.rows.map fun r =>
        if r.writer = some t then { r with committed := r.current, writer := none } else r } := by
  refine books_end h hopen.1 (takenBack_nil s.live) (fun r => ⟨rfl, rfl, rfl⟩) ?_ ?_
  · intro a ha key
    rw [netOf_nil, sub_zero, h.openNet t hopen a ha key]
    unfold committedAggregate rowNet
    rw [map_map, ← sum_map_add]
    congr 1
    refine map_congr_left fun r _ => ?_
    by_cases hw : r.writer = some t
    · simp [hw]
    · simp [hw]
  · exact fun loc id key => netOf_entry_nonneg loc id key _

theorem entriesHeld_of_books (h : s.Books) (ht : t ∈ s.inFlight) :
    EntriesHeld s.live (s.pending t).reverse := by
  intro a ha key loc
  have h₁ := h.settledEntries a ha loc key
  unfold settledPart at h₁
  rw [← Finset.add_sum_erase _ _ ht] at h₁
  have h₂ : 0 ≤ ∑ u ∈ s.inFlight.erase t, netOf (.entry loc) a.decl.assertionId key (s.pending u) :=
    Finset.sum_nonneg fun u _ => netOf_entry_nonneg loc _ key _
  rw [netOf_reverse]
  simp only [Meter.read] at h₁
  omega

theorem books_abort (h : s.Books) (ht : t ∈ s.inFlight)
    (hrange : UnwindInRange s.live (s.pending t).reverse) :
    EngineState.Books { s.endTxn t with
      live := (abortTxn (s.pending t).reverse s.live).1
      rows := s.rows.map fun r =>
        if r.writer = some t then { r with current := r.committed, writer := none } else r } := by
  obtain ⟨live', hok, htaken⟩ := abortTxn_spec h.ids (entriesHeld_of_books h ht) hrange
  rw [hok]
  refine books_end h ht htaken (fun r => ⟨rfl, rfl, rfl⟩) ?_ ?_
  · intro a ha key
    rw [netOf_reverse, sub_self, add_zero]
    unfold committedAggregate
    rw [map_map]
    congr 1
    refine map_congr_left fun r _ => ?_
    by_cases hw : r.writer = some t
    · simp [hw]
    · simp [hw]
  · exact fun loc id key => (netOf_reverse _ _ _ _).le

section

variable {chainAppend : Nat → StatusOr EntryAt} {formatValue : Nat → AstValue → String}

variable {s : EngineState}

variable {act : Action}

theorem admitted_insert {oid : Oid} {row : List AstValue}
    (hpast : ∀ a ∈ s.live, a.decl.targetOid = oid → a.decl.PastPk)
    (hadm : admitInsert formatValue oid row.tail s.live = none) (t : TxnId) :
    s.Admitted ⟨t, oid, none, some row⟩ := by
  rintro b hb hoid k ⟨row', hrow', hkey⟩ _
  obtain rfl : row = row' := Option.some.inj hrow'
  have hp := hpast b hb hoid
  have hval := admitInsert_eq_none hadm b hb hoid
  rw [AssertionDecl.keyFor_tail hp, AssertionDecl.contributionOf_tail hp, hkey] at hval
  simpa [Change.adds, AssertionDecl.valueOf, AssertionDecl.rowValue, hoid, hkey] using hval

theorem statement_insert (h : s.Books) {oid : Oid} {row : List AstValue} (hopen : s.IsOpen t)
    (hpast : ∀ a ∈ s.live, a.decl.targetOid = oid → a.decl.PastPk)
    (hadm : admitInsert formatValue oid row.tail s.live = none) :
    s.Statement ⟨t, oid, none, some row⟩
      (reserveInsert chainAppend oid row.tail s.live (s.reserving t))
      (s.rows ++ [⟨oid, none, some row, some t⟩]) := by
  have hadds : ∀ a ∈ s.live, ∀ key, (if a.decl.targetOid = oid then
      (if a.decl.keyFor row.tail 1 = key then a.decl.contributionOf row.tail 1 else 0) else 0) =
        Change.adds ⟨t, oid, none, some row⟩ a.decl key := by
    intro a ha key
    by_cases hoid : a.decl.targetOid = oid
    · have hp := hpast a ha hoid
      simp [Change.adds, AssertionDecl.valueOf, AssertionDecl.rowValue, hoid,
        AssertionDecl.keyFor_tail hp, AssertionDecl.contributionOf_tail hp]
    · simp [Change.adds, AssertionDecl.valueOf, hoid]
  obtain ⟨hstep, hother⟩ := forEachOn_conserves (reserveInsert_body row.tail) h.ids
    (show reserveInsert chainAppend oid row.tail s.live (s.reserving t) = ((_, _), _) from rfl)
  refine ⟨hopen, hstep, hother, ?_, ?_, rowsChange_append _ _ _ _⟩
  · intro hnone a ha key
    have hrun : reserveInsert chainAppend oid row.tail s.live (s.reserving t) =
        ((_, _), none) := Prod.ext rfl hnone
    rw [← hadds a ha key]
    exact (forEachOn_success (reserveInsert_body row.tail) h.ids hrun a ha).2 key
  · exact fun _ => admitted_insert hpast hadm t

variable {i : Nat} {r : TableRow}

theorem statement_update (h : s.Books) {oldRow newRow : List AstValue} (hopen : s.IsOpen t)
    (hr : s.rows[i]? = some r) (hcur : r.current = some oldRow)
    (hwritable : r.writableBy t = true) :
    s.Statement ⟨t, r.oid, r.current, some newRow⟩
      (admitAndReserveUpdate chainAppend formatValue r.oid oldRow newRow s.live (s.reserving t))
      (s.rows.set i { r with current := some newRow, writer := some t }) := by
  have hadds : ∀ a ∈ s.live, ∀ key, (if a.decl.targetOid = r.oid then
      a.decl.rowValue key newRow - a.decl.rowValue key oldRow else 0) =
        Change.adds ⟨t, r.oid, r.current, some newRow⟩ a.decl key := by
    intro a _ key
    by_cases hoid : a.decl.targetOid = r.oid <;>
      simp [Change.adds, AssertionDecl.valueOf, hoid, hcur]
  have hbody := @updateOne_body chainAppend formatValue oldRow newRow
  obtain ⟨hstep, hother⟩ := forEachOn_conserves hbody h.ids
    (show admitAndReserveUpdate chainAppend formatValue r.oid oldRow newRow s.live
      (s.reserving t) = ((_, _), _) from rfl)
  have hsuccess := fun (hnone : (admitAndReserveUpdate chainAppend formatValue r.oid oldRow newRow
      s.live (s.reserving t)).2 = none) =>
    forEachOn_success (updateOne_body oldRow newRow) h.ids
      (show admitAndReserveUpdate chainAppend formatValue r.oid oldRow newRow
        s.live (s.reserving t) = ((_, _), none) from Prod.ext rfl hnone)
  refine ⟨hopen, hstep, hother, ?_, ?_,
    rowsChange_set hr hwritable (h.unwritten r (mem_of_getElem? hr)) _⟩
  · intro hnone a ha key
    rw [← hadds a ha key]
    exact (hsuccess hnone a ha).2 key
  · rintro hnone b hb hoid k ⟨row', hrow', hkey⟩ hpos'
    obtain rfl : newRow = row' := Option.some.inj hrow'
    have hval := (hsuccess hnone b hb).1 hoid
    unfold AdmittedUpdate at hval
    dsimp only at hval
    rw [hkey] at hval
    rw [← hadds b hb k, if_pos hoid] at hpos' ⊢
    exact hval hpos'

theorem statement_delete (h : s.Books) {oldRow : List AstValue} (hopen : s.IsOpen t)
    (hr : s.rows[i]? = some r) (hcur : r.current = some oldRow)
    (hwritable : r.writableBy t = true) :
    s.Statement ⟨t, r.oid, r.current, none⟩
      (reserveDelete chainAppend r.oid oldRow s.live (s.reserving t))
      (s.rows.set i { r with current := none, writer := some t }) := by
  obtain ⟨hstep, hother⟩ := forEachOn_conserves (reserveDelete_body oldRow) h.ids
    (show reserveDelete chainAppend r.oid oldRow s.live (s.reserving t) = ((_, _), _) from rfl)
  refine ⟨hopen, hstep, hother, ?_, ?_,
    rowsChange_set hr hwritable (h.unwritten r (mem_of_getElem? hr)) _⟩
  · intro hnone a ha key
    have hrun : reserveDelete chainAppend r.oid oldRow s.live (s.reserving t) =
        ((_, _), none) := Prod.ext rfl hnone
    rw [(forEachOn_success (reserveDelete_body oldRow) h.ids hrun a ha).2 key]
    by_cases hoid : a.decl.targetOid = r.oid <;>
      simp [Change.adds, AssertionDecl.valueOf, hoid, hcur, reserving]
  · -- a DELETE joins no group, so its admission asks nothing
    rintro - b _ _ k ⟨row', hrow', -⟩
    cases hrow'

variable {s' : EngineState}

/-- What a step that goes through does: it begins a transaction, fails one, runs a statement,
    commits or rolls back. -/
theorem step_cases (h : s.Books) (hok : s.GoesThrough chainAppend formatValue act)
    (hstep : step chainAppend formatValue s act = some s') :
    (s' = { s with
      inFlight := insert s.nextTxn s.inFlight
      failed := update s.failed s.nextTxn false
      nextTxn := s.nextTxn + 1 }) ∨
    (∃ t, s.IsOpen t ∧ s' = s.failTxn t) ∨
    (∃ c out rows, (out.2 = none → act.change s = some c) ∧ s.Statement c out rows ∧
      s' = s.settle c.txn out rows) ∨
    (∃ t, s.IsOpen t ∧ s' = { s.endTxn t with
      rows := s.rows.map fun r =>
        if r.writer = some t then { r with committed := r.current, writer := none } else r }) ∨
    (∃ t, t ∈ s.inFlight ∧ UnwindInRange s.live (s.pending t).reverse ∧ s' = { s.endTxn t with
      live := (abortTxn (s.pending t).reverse s.live).1
      rows := s.rows.map fun r =>
        if r.writer = some t then { r with current := r.committed, writer := none } else r }) := by
  cases act with
  | begin => exact .inl (Option.some.inj hstep).symm
  | insert t oid row indexed logged =>
    simp only [step] at hstep
    split_ifs at hstep with hen
    split at hstep
    · exact .inr (.inl ⟨t, hen.1, (Option.some.inj hstep).symm⟩)
    · next hadm =>
      obtain ⟨rfl, hreserved⟩ := hok hadm
      dsimp only at hstep
      rw [hreserved] at hstep
      exact .inr (.inr (.inl ⟨_, _, _, fun _ => rfl,
        (statement_insert h hen.1 hen.2 hadm).andThen logged, (Option.some.inj hstep).symm⟩))
  | update t i newRow written =>
    simp only [step] at hstep
    split_ifs at hstep with hopen
    split at hstep
    · next r hr =>
      split at hstep
      · next oldRow hcur =>
        split_ifs at hstep with hw
        · refine .inr (.inr (.inl ⟨_, _, _, fun hnone => ?_,
            (statement_update h hopen hr hcur hw).andThen written, (Option.some.inj hstep).symm⟩))
          obtain rfl := (Option.or_eq_none_iff.mp hnone).2
          simp [Action.change, hr]
        · exact .inr (.inl ⟨t, hopen, (Option.some.inj hstep).symm⟩)
      · cases hstep
    · cases hstep
  | delete t i written =>
    simp only [step] at hstep
    split_ifs at hstep with hopen
    split at hstep
    · next r hr =>
      split at hstep
      · next oldRow hcur =>
        split_ifs at hstep with hw
        · refine .inr (.inr (.inl ⟨_, _, _, fun hnone => ?_,
            (statement_delete h hopen hr hcur hw).andThen written, (Option.some.inj hstep).symm⟩))
          obtain rfl := (Option.or_eq_none_iff.mp hnone).2
          simp [Action.change, hr]
        · exact .inr (.inl ⟨t, hopen, (Option.some.inj hstep).symm⟩)
      · cases hstep
    · cases hstep
  | fail t =>
    simp only [step] at hstep
    split_ifs at hstep with hopen
    exact .inr (.inl ⟨t, hopen, (Option.some.inj hstep).symm⟩)
  | commit t ending =>
    obtain rfl : ending = .done := hok
    simp only [step] at hstep
    split_ifs at hstep with hopen
    exact .inr (.inr (.inr (.inl ⟨t, hopen, (Option.some.inj hstep).symm⟩)))
  | abort t ending =>
    obtain ⟨rfl, hrange⟩ := hok
    simp only [step] at hstep
    split_ifs at hstep with ht
    obtain ⟨live', hall, -⟩ := abortTxn_spec h.ids (entriesHeld_of_books h ht) hrange
    rw [hall] at hstep
    refine .inr (.inr (.inr (.inr ⟨t, ht, hrange, ?_⟩)))
    rw [hall]
    exact (Option.some.inj hstep).symm

/-- A step that goes through keeps the books: headers, pending entries and rows agree. -/
theorem books_step (act : Action) (h : s.Books) (hok : s.GoesThrough chainAppend formatValue act)
    (hstep : step chainAppend formatValue s act = some s') : s'.Books := by
  rcases step_cases h hok hstep with rfl | ⟨t, hopen, rfl⟩ | ⟨c, out, rows, -, hst, rfl⟩ |
    ⟨t, hopen, rfl⟩ | ⟨t, ht, hrange, rfl⟩
  · exact books_begin h
  · exact books_failTxn h hopen
  · exact books_settle h hst
  · exact books_commit h hopen
  · exact books_abort h ht hrange

end

end EngineState

end Kds.Exec
