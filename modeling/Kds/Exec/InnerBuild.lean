/-
  Kds.Exec.InnerBuild

  The statement-local inner build (`include/kds/exec/inner_build.hpp` and the walked-step arms of
  `src/exec/step_vm.cpp`): the first walk of an annotated inner side buckets its rows by the join
  column, and later outer rows probe their key's bucket instead of walking.

  * `walkAndBuild` is the join's form: a map is published only by a walk that ran to the end,
    unstopped and under the cap; a capped one declines for the rest of the statement.
  * `walkPrefixAndProbe` is a sub-chain's: its sink may cut a walk, so the map covers a prefix,
    the next outer row replays that prefix from its bucket and resumes the walk at the mark.

  A row is bucketed when every conjunct but the keyed equality holds *under the outer row that is
  current while it is walked*.  `innerBuild_matches_walk_iff` says what that costs: the build
  never changes a result exactly when no other conjunct can reject, under one outer row, an inner
  row the whole residual accepts under another.

  Left out: the per-statement budgets and the counters, which no emission depends on, and the
  hash table inside the map, which is a lookup by key over an append-only list.
-/

import Kds.Exec.StepChain

namespace Kds.Exec

-- The relation, as a walk meets it

/-- A page of the inner relation: its slots in the order the walk emits them, and what the
    statement's snapshot resolves each slot to (`none`: no visible version). -/
structure InnerPage where
  order : List Nat
  tuple : Nat → Option Row

/-- The page chain. -/
abbrev Relation := List InnerPage

/-- One slot visited: the page's place in the chain, the slot's place in the page's order. -/
structure Visit where
  page : Nat
  ordinal : Nat
  slot : Nat
  deriving DecidableEq

def pageVisits (page ordinal : Nat) : List Nat → List Visit
  | [] => []
  | slot :: slots => ⟨page, ordinal, slot⟩ :: pageVisits page (ordinal + 1) slots

def visitsFrom (page : Nat) : Relation → List Visit
  | [] => []
  | p :: rest => pageVisits page 0 p.order ++ visitsFrom (page + 1) rest

/-- The walk order of the whole relation. -/
def Relation.visits (rel : Relation) : List Visit := visitsFrom 0 rel

def Relation.tupleAt (rel : Relation) (page slot : Nat) : Option Row :=
  match rel[page]? with
  | none => none
  | some p => p.tuple slot

/-- `WalkMark`: a page and how many of its rows are covered. -/
structure WalkMark where
  page : Nat
  visited : Nat
  deriving DecidableEq

/-- The walk that resumes at a mark starts at its page and skips the rows it covers there. -/
def resumeAt (visits : List Visit) : Option WalkMark → List Visit
  | none => visits
  | some m => visits.filter fun v =>
    ¬ (v.page < m.page ∨ (v.page = m.page ∧ v.ordinal < m.visited))

-- The map

/-- `InnerBuild`: entries in walk order, each under its key. -/
structure InnerBuild where
  entries : List (CabinKey × (Nat × Nat)) := []

namespace InnerBuild

def rows (m : InnerBuild) : Nat := m.entries.length

/-- `Add`: refused past the index type's limit. -/
def add (m : InnerBuild) (key : CabinKey) (loc : Nat × Nat) : Option InnerBuild :=
  if 0xFFFFFFFF ≤ m.entries.length then none else some ⟨m.entries ++ [(key, loc)]⟩

/-- `Find`: the bucket, front to back. -/
def find (m : InnerBuild) (key : CabinKey) : List (Nat × Nat) :=
  m.entries.filterMap fun e => if e.1 = key then some e.2 else none

end InnerBuild

inductive BuildPhase where
  | idle | built | declined
  deriving DecidableEq

/-- `InnerBuildState`, one per annotated step and statement. -/
structure InnerBuildState where
  phase : BuildPhase := .idle
  map : InnerBuild := {}
  mark : Option WalkMark := none
  frozen : Bool := false

/-- The part of `Step` the build reads; `filterColumns` is a column mask, `none` for all. -/
structure Step where
  slot : Nat
  columns : Nat
  residual : List StepPredicate
  build : Option BuildKey
  hasRange : Bool := false
  filterColumns : Option Nat := none

/-- `BuildIsArmable`. -/
def buildIsArmable (step : Step) : Bool :=
  !step.hasRange &&
    match step.build with
    | none => false
    | some key => decide (key.residualPos < step.residual.length) &&
        decide (key.colPos < step.columns) &&
        match step.filterColumns with
        | none => true
        | some mask => decide (key.colPos < 64) && mask.testBit key.colPos

-- Execution for one outer row

/-- What the sink has received for this outer row, and whether it stopped the walk. -/
structure Emission where
  emitted : List Row := []
  stopped : Bool := false

/-- The live recording of a building walk. -/
structure BuildRecording where
  map : InnerBuild
  overCap : Bool := false

section Execution

variable (scope : Scope) (rel : Relation) (step : Step) (subChains : OuterRow → Row → Bool)
  (stops : List Row → Bool) (maxRows : Nat)

def emit (e : Emission) (r : Row) : Emission :=
  { emitted := e.emitted ++ [r], stopped := stops (e.emitted ++ [r]) }

/-- `AcceptTupleAt` without a build: the whole residual, then the attached sub-chains. -/
def acceptTupleAt (o : OuterRow) (tuple : Option Row) (e : Emission) : Emission :=
  match tuple with
  | none => e
  | some r =>
    if evaluateAll scope step.slot step.residual o r && subChains o r then emit stops e r else e

/-- The bucketing: the key is made before the cap is consulted, so a NULL takes no room. -/
def bucketRow (key : BuildKey) (loc : Nat × Nat) (r : Row) (rec : BuildRecording) :
    BuildRecording :=
  if rec.overCap then rec
  else
    match makeValueKey (r.cell key.colPos).val with
    | none => rec
    | some k =>
      if maxRows ≤ rec.map.rows then { rec with overCap := true }
      else
        match rec.map.add k loc with
        | none => { rec with overCap := true }
        | some map => { rec with map := map }

/-- `AcceptTupleAt` while this step's build is live: the other conjuncts decide bucketing, the
    keyed one then decides emission. -/
def acceptBuilding (key : BuildKey) (o : OuterRow) (loc : Nat × Nat) (tuple : Option Row)
    (s : BuildRecording × Emission) : BuildRecording × Emission :=
  match tuple with
  | none => s
  | some r =>
    if evaluateAllExcept scope step.slot step.residual o r key.residualPos then
      let rec' := bucketRow maxRows key loc r s.1
      match step.residual[key.residualPos]? with
      | none => (rec', s.2)
      | some pred =>
        if evaluateConjunct scope step.slot pred o r && subChains o r then
          (rec', emit stops s.2 r)
        else (rec', s.2)
    else s

/-- `RunWalkStep`: every slot in order, until the sink stops. -/
def runWalkStep (o : OuterRow) : List Visit → Emission → Emission
  | [], e => e
  | v :: vs, e =>
    if e.stopped then e
    else runWalkStep o vs
      (acceptTupleAt scope step subChains stops o (rel.tupleAt v.page v.slot) e)

/-- `RunWalkStep` with a recording live. -/
def runWalkBuilding (key : BuildKey) (o : OuterRow) :
    List Visit → BuildRecording × Emission → BuildRecording × Emission
  | [], s => s
  | v :: vs, s =>
    if s.2.stopped then s
    else runWalkBuilding key o vs
      (acceptBuilding scope step subChains stops maxRows key o (v.page, v.slot)
        (rel.tupleAt v.page v.slot) s)

/-- `ProbeBuild`: replay the bucket of the outer row's key, the full residual re-evaluated; a
    NULL key replays nothing. -/
def probeBuild (key : BuildKey) (o : OuterRow) (map : InnerBuild) (e : Emission) : Emission :=
  match makeValueKey (o key.keyFrom).val with
  | none => e
  | some k => go (map.find k) e
where
  go : List (Nat × Nat) → Emission → Emission
    | [], e => e
    | loc :: locs, e =>
      if e.stopped then e
      else go locs (acceptTupleAt scope step subChains stops o (rel.tupleAt loc.1 loc.2) e)

/-- `WalkAndBuild`: the join's form. -/
def walkAndBuild (o : OuterRow) (st : InnerBuildState) : InnerBuildState × Emission :=
  let plain := runWalkStep scope rel step subChains stops o rel.visits {}
  match step.build with
  | none => (st, plain)
  | some key =>
    if !buildIsArmable step || maxRows == 0 || st.phase = .declined then (st, plain)
    else if st.phase = .built then
      (st, probeBuild scope rel step subChains stops key o st.map {})
    else
      let r := runWalkBuilding scope rel step subChains stops maxRows key o rel.visits
        ({ map := st.map }, {})
      if !r.2.stopped && !r.1.overCap then ({ st with phase := .built, map := r.1.map }, r.2)
      else ({ st with map := {}, phase := if r.1.overCap then .declined else st.phase }, r.2)

/-- The state of a prefix walk: the recording, the sink, the mark and whether the cap froze it,
    and whether the walk ended on a stop. -/
structure PrefixWalk where
  build : BuildRecording
  e : Emission
  mark : Option WalkMark
  markFrozen : Bool := false
  cut : Bool := false

/-- After a visited row: the mark moves past it unless the cap has stopped the map, which visits
    the row without bucketing it, so that the mark may not claim it. -/
def PrefixWalk.advance (w : PrefixWalk) (v : Visit) (r : BuildRecording × Emission) :
    PrefixWalk :=
  if w.markFrozen then { w with build := r.1, e := r.2 }
  else if r.1.overCap then { w with build := r.1, e := r.2, markFrozen := true }
  else { w with build := r.1, e := r.2, mark := some ⟨v.page, v.ordinal + 1⟩ }

/-- `RunWalkStep` with a prefix to extend. -/
def runWalkPrefix (key : BuildKey) (o : OuterRow) : List Visit → PrefixWalk → PrefixWalk
  | [], w => w
  | v :: vs, w =>
    if w.e.stopped then { w with cut := true }
    else
      let r := acceptBuilding scope step subChains stops maxRows key o (v.page, v.slot)
        (rel.tupleAt v.page v.slot) (w.build, w.e)
      if r.2.stopped then { w.advance v r with cut := true }
      else runWalkPrefix key o vs (w.advance v r)

/-- `WalkPrefixAndProbe`: a sub-chain's form. -/
def walkPrefixAndProbe (o : OuterRow) (st : InnerBuildState) : InnerBuildState × Emission :=
  match step.build with
  | none => (st, runWalkStep scope rel step subChains stops o rel.visits {})
  | some key =>
    if !buildIsArmable step || maxRows == 0 then
      (st, runWalkStep scope rel step subChains stops o rel.visits {})
    else
      let e := if st.map.rows > 0 then
        probeBuild scope rel step subChains stops key o st.map {} else {}
      if e.stopped then (st, e)
      else if st.phase = .built then (st, e)
      else
        let w := runWalkPrefix scope rel step subChains stops maxRows key o
          (resumeAt rel.visits st.mark)
          { build := { map := st.map, overCap := st.frozen }, e := e, mark := st.mark }
        ({ map := w.build.map
           mark := w.mark
           frozen := st.frozen || w.build.overCap
           phase := if !w.cut && !w.markFrozen then .built else st.phase }, w.e)

end Execution

-- Execution over all outer rows

/-- Which of the two arms runs the step: a join's stop ends the statement, a sub-chain's only its
    own evaluation. -/
inductive BuildForm where
  | join | subChain
  deriving DecidableEq

/-- One execution per outer row, the build state threaded through; `stops i` is the sink of the
    `i`-th.  The result is what each sink received, outer row by outer row. -/
def runOuterRows (form : BuildForm) (stops : Nat → List Row → Bool)
    (exec : (List Row → Bool) → OuterRow → InnerBuildState → InnerBuildState × Emission) :
    Nat → List OuterRow → InnerBuildState → List (List Row)
  | _, [], _ => []
  | i, o :: os, st =>
    let r := exec (stops i) o st
    r.2.emitted ::
      if form = .join ∧ r.2.stopped then [] else runOuterRows form stops exec (i + 1) os r.1

section

variable (scope : Scope) (rel : Relation) (step : Step) (subChains : OuterRow → Row → Bool)
  (stops : Nat → List Row → Bool)

/-- The statement with the build. -/
def runWithBuild (form : BuildForm) (maxRows : Nat) (outers : List OuterRow) : List (List Row) :=
  runOuterRows form stops
    (fun sink => match form with
      | .join => walkAndBuild scope rel step subChains sink maxRows
      | .subChain => walkPrefixAndProbe scope rel step subChains sink maxRows)
    0 outers {}

/-- The statement with the plain walk. -/
def runPlain (form : BuildForm) (outers : List OuterRow) : List (List Row) :=
  runOuterRows form stops
    (fun sink o st => (st, runWalkStep scope rel step subChains sink o rel.visits {}))
    0 outers {}

end

end Kds.Exec
