/-
  Kds.Exec.AssertionVerdict

  CREATE ASSERTION's verdict (`BuildBoundCabin`, `src/exec/assertion_build.cpp`) against the rows
  alone.  The bound and the checked arithmetic are applied as each row lands, so a SUM may be
  refused for a running total that the rows which follow take back.

  `build_verdict_iff` says when the verdict is that of the totals: for one scan order, where no
  running total passes the bound and its total does not; for every order, where no part of a
  group does.
-/

import Kds.Exec.AssertionBuild
import Mathlib.Data.List.Perm.Subperm

namespace Kds.Exec

open List

/-- `BoundCabinChainWriter::Append` over pages and a log that take every record: the n-th entry lies
    at `place n`, and `EncodeAssertEntry` refuses a group key that its length field cannot hold. -/
def appendEntry (place : Nat → EntryAt) (n : Nat) (key : List UInt8) : StatusOr EntryAt :=
  if 0xFFFF < key.length then
    .error (.invalidArgument "wal payload: assert group key longer than a uint16 length")
  else .ok (place n)

/-- `BuildBoundCabin` over such pages and such a log. -/
abbrev scanRelation (place : Nat → EntryAt) (formatValue : Nat → AstValue → String)
    (d : AssertionDecl) (tableName : String) : List TableRow → Nat → BoundCabin →
      StatusOr BoundCabin :=
  BoundCabin.buildBoundCabin (appendEntry place) formatValue d tableName

/-- A live row of the relation that the scan gives to a group. -/
def AssertionDecl.Enters (d : AssertionDecl) (r : TableRow) (key : List UInt8) : Prop :=
  r.oid = d.targetOid ∧ ∃ row, r.committed = some row ∧ d.keyFor row 0 = key

/-- The declaration's groups, counted: the cardinality that every header carries. -/
def AssertionDecl.counting (d : AssertionDecl) : AssertionDecl := { d with aggregate := .count }

/-- What a group has to be for its rows to land: its key not too long for a record, both counters
    in range, the bound kept. -/
structure Within (d : AssertionDecl) (rows : List TableRow) (key : List UInt8) : Prop where
  short : ¬ 0xFFFF < key.length
  count : InInt64 (committedAggregate rows d.counting key)
  aggregate : InInt64 (committedAggregate rows d key)
  bound : committedAggregate rows d key ≤ d.bound

/-- Every group's aggregate over the live rows fits and is at most the bound. -/
def Admissible (d : AssertionDecl) (rows : List TableRow) : Prop :=
  ∀ r ∈ rows, ∀ key, d.Enters r key →
    InInt64 (committedAggregate rows d key) ∧ committedAggregate rows d key ≤ d.bound

/-- No running total of a scan leaves the range or passes the bound, and no key is too long. -/
def LandsInOrder (d : AssertionDecl) (rows : List TableRow) : Prop :=
  ∀ seen r rest, rows = seen ++ r :: rest → ∀ key, d.Enters r key → Within d (seen ++ [r]) key

/-- The same of every part of a group, in whatever order. -/
def LandsInParts (d : AssertionDecl) (rows : List TableRow) : Prop :=
  ∀ part, part.Subperm rows → ∀ r ∈ part, ∀ key, d.Enters r key → Within d part key

/-- A verdict that depends on the rows only, and a directory of exactly their groups. -/
structure VerdictByRows (outcome : StatusOr BoundCabin) (d : AssertionDecl)
    (rows : List TableRow) : Prop where
  verdict : (∃ cabin, outcome = .ok cabin) ↔ Admissible d rows
  groups : ∀ cabin, outcome = .ok cabin → ∀ key,
    (cabin.find key).isSome = true ↔ ∃ r ∈ rows, d.Enters r key
  headers : ∀ cabin, outcome = .ok cabin → ∀ key header, cabin.find key = some header →
    header.aggregate d.aggregate = committedAggregate rows d key

-- An entry that lands

namespace BoundCabin

variable {c : BoundCabin} {key : List UInt8} {delta : Int} {loc : EntryAt}

theorem apply_isOk_iff :
    (∃ c', c.apply key delta loc = .ok c') ↔
      InInt64 (c.countOf key + 1) ∧ InInt64 (c.sumOf key + delta) := by
  have hcount := (c.moved_ensureGroup key).count key
  have hsum := (c.moved_ensureGroup key).sum key
  simp only [countOf, sumOf, find_ensureGroup_self, Option.map_some, Option.getD_some, if_true,
    Int.add_zero] at hcount hsum
  simp only [apply, find_ensureGroup_self, countOf, sumOf]
  rw [hcount, hsum, checkedAdd, checkedAdd]
  split_ifs <;> simp [*]

theorem isSome_find_ensureGroup (c : BoundCabin) (key k : List UInt8) :
    ((c.ensureGroup key).find k).isSome = true ↔ k = key ∨ (c.find k).isSome = true := by
  by_cases hk : k = key
  · rw [hk, find_ensureGroup_self]
    simp
  · rw [find_ensureGroup_ne c hk]
    simp [hk]

theorem isSome_find_apply {c' : BoundCabin} (h : c.apply key delta loc = .ok c') (k : List UInt8) :
    (c'.find k).isSome = true ↔ k = key ∨ (c.find k).isSome = true := by
  rw [← isSome_find_ensureGroup c key k]
  unfold apply at h
  dsimp only at h
  rw [find_ensureGroup_self] at h
  dsimp only at h
  split at h
  · cases h
  split at h
  · cases h
  · cases h
    rw [find_modify]
    · split_ifs <;> simp
    · exact fun _ => rfl

theorem aggregate_eq_aggregateOf {header : GroupHeader}
    (h : c.find key = some header) (agg : BoundAggregate) :
    header.aggregate agg = c.aggregateOf agg key := by
  cases agg <;> simp [GroupHeader.aggregate, aggregateOf, countOf, sumOf, h]

end BoundCabin

-- Rows, one more and in another order

section

variable {d : AssertionDecl} {rows rows' seen rest : List TableRow} {r : TableRow}
  {key : List UInt8} {row : List AstValue} {c c' : BoundCabin}

theorem committedAggregate_concat (d : AssertionDecl) (key : List UInt8) :
    committedAggregate (seen ++ [r]) d key =
      committedAggregate seen d key + d.valueOf key r.oid r.committed := by
  simp [committedAggregate]

theorem committedAggregate_perm (h : rows.Perm rows') (d : AssertionDecl) (key : List UInt8) :
    committedAggregate rows d key = committedAggregate rows' d key :=
  (h.map _).sum_eq

theorem Within.perm (h : rows.Perm rows') (hwithin : Within d rows key) : Within d rows' key := by
  refine ⟨hwithin.short, ?_, ?_, ?_⟩
  · exact committedAggregate_perm h d.counting key ▸ hwithin.count
  · exact committedAggregate_perm h d key ▸ hwithin.aggregate
  · exact committedAggregate_perm h d key ▸ hwithin.bound

theorem admissible_perm (h : rows.Perm rows') : Admissible d rows ↔ Admissible d rows' := by
  unfold Admissible
  simp only [h.mem_iff, committedAggregate_perm h]

/-- A directory that has counted the rows seen so far. -/
structure Counted (d : AssertionDecl) (seen : List TableRow) (c : BoundCabin) : Prop where
  count : ∀ key, c.countOf key = committedAggregate seen d.counting key
  sum : ∀ key, c.sumOf key = committedAggregate seen d key
  groups : ∀ key, (c.find key).isSome = true ↔ ∃ r ∈ seen, d.Enters r key

theorem Counted.aggregateOf (h : Counted d seen c) (key : List UInt8) :
    c.aggregateOf d.aggregate key = committedAggregate seen d key := by
  cases hagg : d.aggregate with
  | sum => exact h.sum key
  | count =>
    have hcounting : d.counting = d := by
      rw [AssertionDecl.counting, ← hagg]
    rw [← hcounting]
    exact h.count key

theorem Counted.skip (h : Counted d seen c) (hskip : ∀ key, ¬ d.Enters r key) :
    Counted d (seen ++ [r]) c := by
  have hzero : ∀ d' : AssertionDecl, d'.targetOid = d.targetOid → ∀ key,
      d'.valueOf key r.oid r.committed = 0 := by
    intro d' hoid key
    unfold AssertionDecl.valueOf
    split_ifs with htarget
    · cases hrow : r.committed with
      | none => rfl
      | some row => exact absurd ⟨htarget.symm.trans hoid, row, hrow, rfl⟩ (hskip (d.keyFor row 0))
    · rfl
  constructor
  · intro key
    rw [committedAggregate_concat, hzero d.counting rfl, Int.add_zero]
    exact h.count key
  · intro key
    rw [committedAggregate_concat, hzero d rfl, Int.add_zero]
    exact h.sum key
  · intro key
    simp [h.groups, hskip]

theorem Counted.land (h : Counted d seen c) (hoid : r.oid = d.targetOid)
    (hrow : r.committed = some row) {loc : EntryAt}
    (happly : (c.ensureGroup (d.keyFor row 0)).apply (d.keyFor row 0) (d.contributionOf row 0) loc =
      .ok c') : Counted d (seen ++ [r]) c' := by
  obtain ⟨hmoved, -⟩ := BoundCabin.apply_ok happly
  have hborn := c.moved_ensureGroup (d.keyFor row 0)
  constructor
  · intro key
    rw [hmoved.count, hborn.count, h.count, committedAggregate_concat, hrow]
    have hone : d.counting.valueOf key r.oid (some row) =
        if d.keyFor row 0 = key then 1 else 0 := by
      rw [AssertionDecl.valueOf, hoid]
      exact if_pos rfl
    rw [hone]
    by_cases hkey : d.keyFor row 0 = key
    · simp [hkey]
    · simp [hkey, Ne.symm hkey]
  · intro key
    rw [hmoved.sum, hborn.sum, h.sum, committedAggregate_concat, hrow]
    have hvalue : d.valueOf key r.oid (some row) =
        if d.keyFor row 0 = key then d.contributionOf row 0 else 0 := by
      rw [AssertionDecl.valueOf, hoid]
      exact if_pos rfl
    rw [hvalue]
    by_cases hkey : d.keyFor row 0 = key
    · simp [hkey]
    · simp [hkey, Ne.symm hkey]
  · intro key
    rw [BoundCabin.isSome_find_apply happly, BoundCabin.isSome_find_ensureGroup, h.groups]
    simp only [mem_append, mem_singleton, or_and_right, exists_or, exists_eq_left]
    have hhere : d.Enters r key ↔ key = d.keyFor row 0 := by
      simp [AssertionDecl.Enters, hoid, hrow, eq_comm]
    rw [hhere, ← or_assoc, or_self, or_comm]

theorem Counted.lands_iff (h : Counted d seen c) (hoid : r.oid = d.targetOid)
    (hrow : r.committed = some row) (hkey : ¬ 0xFFFF < (d.keyFor row 0).length) (loc : EntryAt) :
    (∃ c', (c.ensureGroup (d.keyFor row 0)).apply (d.keyFor row 0) (d.contributionOf row 0) loc =
        .ok c' ∧ ¬ d.bound < c'.aggregateOf d.aggregate (d.keyFor row 0)) ↔
      Within d (seen ++ [r]) (d.keyFor row 0) := by
  have hborn := c.moved_ensureGroup (d.keyFor row 0)
  have hcount : committedAggregate (seen ++ [r]) d.counting (d.keyFor row 0) =
      (c.ensureGroup (d.keyFor row 0)).countOf (d.keyFor row 0) + 1 := by
    rw [hborn.count, h.count, committedAggregate_concat, hrow]
    simp [AssertionDecl.valueOf, AssertionDecl.counting, hoid, AssertionDecl.rowValue,
      AssertionDecl.keyFor, AssertionDecl.contributionOf]
  have hsum : committedAggregate (seen ++ [r]) d (d.keyFor row 0) =
      (c.ensureGroup (d.keyFor row 0)).sumOf (d.keyFor row 0) + d.contributionOf row 0 := by
    rw [hborn.sum, h.sum, committedAggregate_concat, hrow]
    simp [AssertionDecl.valueOf, hoid, AssertionDecl.rowValue]
  constructor
  · rintro ⟨c', happly, hbound⟩
    obtain ⟨hc, hs⟩ := BoundCabin.apply_isOk_iff.mp ⟨c', happly⟩
    rw [(h.land hoid hrow happly).aggregateOf] at hbound
    exact ⟨hkey, hcount ▸ hc, hsum ▸ hs, not_lt.mp hbound⟩
  · intro hwithin
    obtain ⟨c', happly⟩ := BoundCabin.apply_isOk_iff.mpr
      ⟨hcount ▸ hwithin.count, hsum ▸ hwithin.aggregate⟩
    refine ⟨c', happly, ?_⟩
    rw [(h.land hoid hrow happly).aggregateOf]
    exact not_lt.mpr hwithin.bound

-- The scan

section

variable (place : Nat → EntryAt) (formatValue : Nat → AstValue → String) (tableName : String)

/-- **Spec of the scan**, from any row on: it goes through exactly where every running total is
    within range, and counts the rows. -/
theorem scan_from (hsettled : ∀ r ∈ rest, r.oid = d.targetOid → r.writer = none)
    (h : Counted d seen c) (n : Nat) :
    ((∃ c', scanRelation place formatValue d tableName rest n c = .ok c') ↔
        ∀ done r after, rest = done ++ r :: after → ∀ key, d.Enters r key →
          Within d (seen ++ done ++ [r]) key) ∧
      ∀ c', scanRelation place formatValue d tableName rest n c = .ok c' →
        Counted d (seen ++ rest) c' := by
  induction rest generalizing seen c n with
  | nil =>
    refine ⟨⟨fun _ done r after hsplit => by simp at hsplit, fun _ => ⟨c, rfl⟩⟩, ?_⟩
    rintro c' hbuild
    cases hbuild
    rwa [append_nil]
  | cons r rest ih =>
    obtain ⟨hhere, hthere⟩ := forall_mem_cons.mp hsettled
    -- The splits of the rows are the first row's and those of the rest.
    have hsplits : (∀ done x after, r :: rest = done ++ x :: after → ∀ key, d.Enters x key →
          Within d (seen ++ done ++ [x]) key) ↔
        (∀ key, d.Enters r key → Within d (seen ++ [r]) key) ∧
          ∀ done x after, rest = done ++ x :: after → ∀ key, d.Enters x key →
            Within d (seen ++ [r] ++ done ++ [x]) key := by
      constructor
      · intro hall
        refine ⟨fun key hkey => by simpa using hall [] r rest rfl key hkey, ?_⟩
        intro done x after hsplit key hkey
        simpa using hall (r :: done) x after (by rw [hsplit, cons_append]) key hkey
      · rintro ⟨hfirst, hrest⟩ done x after hsplit key hkey
        cases done with
        | nil =>
          obtain ⟨rfl, -⟩ := List.cons.inj hsplit
          simpa using hfirst key hkey
        | cons y done =>
          obtain ⟨rfl, htail⟩ := List.cons.inj hsplit
          simpa using hrest done x after htail key hkey
    have hconcat : seen ++ r :: rest = seen ++ [r] ++ rest := append_cons ..
    rw [hsplits, hconcat]
    have hskipped : (∀ key, ¬ d.Enters r key) →
        scanRelation place formatValue d tableName (r :: rest) n c =
          scanRelation place formatValue d tableName rest n c := by
      intro hskip
      rw [scanRelation, BoundCabin.buildBoundCabin]
      split
      · next hoid =>
        rw [hhere hoid]
        cases hrow : r.committed with
        | none => rfl
        | some row => exact absurd ⟨hoid, row, hrow, rfl⟩ (hskip (d.keyFor row 0))
      · rfl
    by_cases hskip : ∀ key, ¬ d.Enters r key
    · rw [hskipped hskip]
      obtain ⟨hiff, hcounted⟩ := ih hthere (h.skip hskip) n
      refine ⟨hiff.trans ?_, hcounted⟩
      exact (and_iff_right fun key hkey => absurd hkey (hskip key)).symm
    · obtain ⟨key, hkey⟩ := not_forall_not.mp hskip
      obtain ⟨hoid, row, hrow, rfl⟩ := id hkey
      have hfirst : (∀ key, d.Enters r key → Within d (seen ++ [r]) key) ↔
          Within d (seen ++ [r]) (d.keyFor row 0) := by
        refine ⟨fun hall => hall _ hkey, ?_⟩
        rintro hwithin key ⟨-, row', hrow', rfl⟩
        cases hrow.symm.trans hrow'
        exact hwithin
      rw [hfirst]
      unfold scanRelation BoundCabin.buildBoundCabin
      rw [if_pos hoid, hhere hoid, hrow]
      dsimp only [appendEntry]
      split_ifs with hlong
      · exact ⟨⟨fun ⟨_, hbad⟩ => (by cases hbad), fun hall => absurd hlong hall.1.short⟩,
          fun _ hbad => (by cases hbad)⟩
      rw [← h.lands_iff hoid hrow hlong (place n)]
      dsimp only
      cases happly : (c.ensureGroup (d.keyFor row 0)).apply (d.keyFor row 0)
          (d.contributionOf row 0) (place n) with
      | error e => simp
      | ok c₁ =>
        obtain ⟨hiff, hcounted⟩ := ih hthere (h.land hoid hrow happly) (n + 1)
        dsimp only
        split_ifs with hbound
        · refine ⟨⟨fun ⟨_, hbad⟩ => (by cases hbad), ?_⟩, fun _ hbad => (by cases hbad)⟩
          rintro ⟨⟨c', hc', hunder⟩, -⟩
          cases hc'
          exact absurd hbound hunder
        · exact ⟨hiff.trans (and_iff_right ⟨c₁, rfl, hbound⟩).symm, hcounted⟩

theorem scan_counts (hsettled : ∀ r ∈ rows, r.oid = d.targetOid → r.writer = none) :
    ((∃ c', scanRelation place formatValue d tableName rows 0 {} = .ok c') ↔ LandsInOrder d rows) ∧
      ∀ c', scanRelation place formatValue d tableName rows 0 {} = .ok c' → Counted d rows c' := by
  have hempty : Counted d [] {} := ⟨fun _ => rfl, fun _ => rfl, fun _ => by simp [BoundCabin.find]⟩
  simpa [LandsInOrder] using scan_from place formatValue tableName hsettled hempty 0

theorem LandsInOrder.admissible (h : LandsInOrder d rows) : Admissible d rows := by
  intro r hr key hkey
  induction rows using List.reverseRecOn with
  | nil => simp at hr
  | append_singleton seen x ih =>
    by_cases hx : d.Enters x key
    · exact ⟨(h seen x [] rfl key hx).aggregate, (h seen x [] rfl key hx).bound⟩
    · -- the last row of another group leaves the group's total as it was
      have hzero : d.valueOf key x.oid x.committed = 0 := by
        unfold AssertionDecl.valueOf
        split_ifs with hoid
        · cases hrow : x.committed with
          | none => rfl
          | some row => exact if_neg fun hk => hx ⟨hoid.symm, row, hrow, hk⟩
        · rfl
      rw [committedAggregate_concat, hzero, Int.add_zero]
      apply ih
      · intro before y after hsplit
        exact h before y (after ++ [x]) (by rw [hsplit]; simp)
      · rcases Lib.mem_snoc.mp hr with hr | hr
        · exact hr
        · exact absurd (hr ▸ hkey) hx

theorem verdictByRows_iff (hsettled : ∀ r ∈ rows, r.oid = d.targetOid → r.writer = none) :
    VerdictByRows (scanRelation place formatValue d tableName rows 0 {}) d rows ↔
      (Admissible d rows → LandsInOrder d rows) := by
  obtain ⟨hiff, hcounted⟩ := scan_counts place formatValue tableName hsettled
  refine ⟨fun h hadm => hiff.mp (h.verdict.mpr hadm), fun h => ⟨?_, ?_, ?_⟩⟩
  · rw [hiff]
    exact ⟨LandsInOrder.admissible, h⟩
  · exact fun cabin hcabin key => (hcounted cabin hcabin).groups key
  · intro cabin hcabin key header hheader
    rw [BoundCabin.aggregate_eq_aggregateOf hheader]
    exact (hcounted cabin hcabin).aggregateOf key

end

theorem landsInParts_iff :
    (∀ rows' : List TableRow, rows'.Perm rows → LandsInOrder d rows') ↔ LandsInParts d rows := by
  constructor
  · intro h part hpart r hr key hkey
    obtain ⟨before, after, rfl⟩ := append_of_mem hr
    obtain ⟨others, hothers⟩ : ∃ others, (before ++ r :: after ++ others).Perm rows :=
      ⟨rows.diff _, subperm_append_diff_self_of_count_le fun x _ => hpart.count_le x⟩
    have hlast : (before ++ after ++ [r]).Perm (before ++ r :: after) := by
      rw [append_assoc]
      exact List.Perm.append_left _ perm_append_comm
    refine Within.perm hlast (h (before ++ after ++ r :: others) ?_ _ r others rfl key hkey)
    refine List.Perm.trans ?_ hothers
    rw [append_cons]
    exact hlast.append_right others
  · intro h rows' hperm seen r rest hsplit
    have hpart : (seen ++ [r]).Subperm rows := by
      refine List.Subperm.trans ?_ hperm.subperm
      have hconcat : seen ++ r :: rest = seen ++ [r] ++ rest := append_cons ..
      rw [hsplit, hconcat]
      exact (sublist_append_left _ _).subperm
    exact h _ hpart r (by simp)

end

/-- **CREATE ASSERTION goes by the rows alone exactly where no running total goes wrong on its
    own**: over one scan order, and over every order of the same rows. -/
theorem build_verdict_iff (place : Nat → EntryAt) (formatValue : Nat → AstValue → String)
    (d : AssertionDecl) (tableName : String) (rows : List TableRow)
    (hsettled : ∀ r ∈ rows, r.oid = d.targetOid → r.writer = none) :
    (VerdictByRows (scanRelation place formatValue d tableName rows 0 {}) d rows ↔
        (Admissible d rows → LandsInOrder d rows)) ∧
      ((∀ rows' : List TableRow, rows'.Perm rows →
          VerdictByRows (scanRelation place formatValue d tableName rows' 0 {}) d rows') ↔
        (Admissible d rows → LandsInParts d rows)) := by
  refine ⟨verdictByRows_iff place formatValue tableName hsettled, ?_⟩
  have hevery : ∀ rows' : List TableRow, rows'.Perm rows →
      (VerdictByRows (scanRelation place formatValue d tableName rows' 0 {}) d rows' ↔
        (Admissible d rows → LandsInOrder d rows')) := by
    intro rows' hperm
    rw [← admissible_perm hperm]
    exact verdictByRows_iff place formatValue tableName fun r hr => hsettled r (hperm.mem_iff.mp hr)
  rw [← landsInParts_iff]
  constructor
  · exact fun h hadm rows' hperm => (hevery rows' hperm).mp (h rows' hperm) hadm
  · exact fun h rows' hperm => (hevery rows' hperm).mpr fun hadm => h hadm rows' hperm

/-- `CHECK (SUM(v) <= 10) ... GROUP BY g`. -/
def sumUnderTen : AssertionDecl where
  assertionId := 1
  targetOid := 1
  name := "under_ten"
  aggregate := .sum
  bound := 10
  groupCols := [1]
  sumCol := 2

/-- A settled row of the relation: its key, its group and its summand. -/
def summand (pk value : Int) : TableRow where
  oid := 1
  committed := some [.ofInt pk, .ofInt 7, .ofInt value]
  current := some [.ofInt pk, .ofInt 7, .ofInt value]
  writer := none

/-- CREATE ASSERTION over some rows of the relation. -/
def buildUnderTen (rows : List TableRow) : StatusOr BoundCabin :=
  scanRelation (fun n => (5, n)) (fun _ _ => "") sumUnderTen "t" rows 0 {}

/-- Summands of 20 and −15, within the bound together: the build refuses them in that order and
    takes them in the other. -/
theorem verdict_depends_on_order :
    Admissible sumUnderTen [summand 1 20, summand 2 (-15)] ∧
      ¬ VerdictByRows (buildUnderTen [summand 1 20, summand 2 (-15)]) sumUnderTen
        [summand 1 20, summand 2 (-15)] ∧
      (buildUnderTen [summand 2 (-15), summand 1 20]).toOption.isSome = true := by
  have hadm : Admissible sumUnderTen [summand 1 20, summand 2 (-15)] := by
    have hgroup : ∀ r ∈ [summand 1 20, summand 2 (-15)], ∀ key, sumUnderTen.Enters r key →
        key = sumUnderTen.keyFor [.ofInt 1, .ofInt 7, .ofInt 20] 0 := by
      rintro r hr key ⟨-, row, hrow, rfl⟩
      rcases mem_cons.mp hr with rfl | hr
      · cases hrow
        rfl
      · rw [mem_singleton.mp hr] at hrow
        cases hrow
        rfl
    intro r hr key hkey
    rw [hgroup r hr key hkey]
    decide
  refine ⟨hadm, fun h => ?_, by decide⟩
  obtain ⟨cabin, hcabin⟩ := h.verdict.mpr hadm
  have hrefused : (buildUnderTen [summand 1 20, summand 2 (-15)]).toOption = none := by
    decide
  rw [hcabin] at hrefused
  cases hrefused

theorem build_verdict_two_summands :
    (VerdictByRows (buildUnderTen [summand 1 2, summand 2 3]) sumUnderTen
        [summand 1 2, summand 2 3] ↔ (Admissible sumUnderTen [summand 1 2, summand 2 3] →
          LandsInOrder sumUnderTen [summand 1 2, summand 2 3])) ∧
      ((∀ rows' : List TableRow, rows'.Perm [summand 1 2, summand 2 3] →
          VerdictByRows (buildUnderTen rows') sumUnderTen rows') ↔
        (Admissible sumUnderTen [summand 1 2, summand 2 3] →
          LandsInParts sumUnderTen [summand 1 2, summand 2 3])) := by
  apply build_verdict_iff
  decide

end Kds.Exec
