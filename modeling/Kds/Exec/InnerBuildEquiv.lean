/-
  Kds.Exec.InnerBuildEquiv

  When the inner build changes a result.  A walk and a probe are both reduced to handing the sink
  one list of rows (`emitRows`), so the question is whether a bucket replays the rows the walk
  would have accepted; `Serves` says that a map does so for a prefix of the walk, and one visited
  row at a time keeps it true as long as the row's bucketing did not depend on the outer row.
-/

import Kds.Exec.InnerBuild
import Mathlib.Data.Set.Basic

namespace Kds.Exec

open List

section

variable {scope : Scope} {rel : Relation} {step : Step} {subChains : OuterRow → Row → Bool}
  {stops : List Row → Bool} {maxRows : Nat} {key : BuildKey} {e : Emission} {r : Row}
    {rows : Set Row} {vs : List Visit} {build : BuildRecording} {st : InnerBuildState}

-- Walks and probes as one list of rows

/-- The row an outer row accepts at a slot, if any. -/
def accepted (scope : Scope) (step : Step) (subChains : OuterRow → Row → Bool) (o : OuterRow)
    (tuple : Option Row) : Option Row :=
  tuple.filter fun r => evaluateAll scope step.slot step.residual o r && subChains o r

/-- Hand the sink rows until it stops. -/
def emitRows (stops : List Row → Bool) : List Row → Emission → Emission
  | [], e => e
  | r :: rs, e => if e.stopped then e else emitRows stops rs (emit stops e r)

theorem emitRows_of_stopped (h : e.stopped = true) (rs : List Row) : emitRows stops rs e = e := by
  cases rs with
  | nil => rfl
  | cons r rs => rw [emitRows, if_pos h]

theorem emitRows_append (rs rs' : List Row) (e : Emission) :
    emitRows stops (rs ++ rs') e = emitRows stops rs' (emitRows stops rs e) := by
  induction rs generalizing e with
  | nil => rfl
  | cons r rs ih =>
    rw [cons_append, emitRows, emitRows]
    by_cases h : e.stopped = true
    · rw [if_pos h, if_pos h, emitRows_of_stopped h]
    · rw [if_neg h, if_neg h, ih]

theorem acceptTupleAt_eq (o : OuterRow) (tuple : Option Row) (e : Emission) :
    acceptTupleAt scope step subChains stops o tuple e =
      match accepted scope step subChains o tuple with
      | none => e
      | some r => emit stops e r := by
  cases tuple with
  | none => rfl
  | some r =>
    rw [acceptTupleAt, accepted]
    cases h : evaluateAll scope step.slot step.residual o r && subChains o r with
    | false => simp [Option.filter, h]
    | true => simp [Option.filter, h]

theorem emitRows_toList (x : Option Row) (h : e.stopped = false) :
    emitRows stops x.toList e = match x with
      | none => e
      | some r => emit stops e r := by
  cases x with
  | none => rfl
  | some r => simp [Option.toList, emitRows, h]

/-- The rows an outer row accepts among the tuples at some places. -/
def acceptedAt (scope : Scope) (rel : Relation) (step : Step) (subChains : OuterRow → Row → Bool)
    (o : OuterRow) (locs : List (Nat × Nat)) : List Row :=
  locs.filterMap fun loc => accepted scope step subChains o (rel.tupleAt loc.1 loc.2)

def Visit.loc (v : Visit) : Nat × Nat := (v.page, v.slot)

theorem acceptedAt_cons (o : OuterRow) (loc : Nat × Nat) (locs : List (Nat × Nat)) :
    acceptedAt scope rel step subChains o (loc :: locs) =
      (accepted scope step subChains o (rel.tupleAt loc.1 loc.2)).toList ++
        acceptedAt scope rel step subChains o locs := by
  rw [acceptedAt, filterMap_cons]
  cases accepted scope step subChains o (rel.tupleAt loc.1 loc.2) <;> rfl

theorem acceptedAt_append (o : OuterRow) (locs locs' : List (Nat × Nat)) :
    acceptedAt scope rel step subChains o (locs ++ locs') =
      acceptedAt scope rel step subChains o locs ++ acceptedAt scope rel step subChains o locs' :=
  filterMap_append

theorem probeGo_eq (o : OuterRow) (locs : List (Nat × Nat)) (e : Emission) :
    probeBuild.go scope rel step subChains stops o locs e =
      emitRows stops (acceptedAt scope rel step subChains o locs) e := by
  induction locs generalizing e with
  | nil => rfl
  | cons loc locs ih =>
    rw [probeBuild.go, acceptedAt_cons, emitRows_append]
    cases h : e.stopped with
    | true => rw [if_pos rfl, emitRows_of_stopped h, emitRows_of_stopped h]
    | false =>
      rw [if_neg (by decide), ih, acceptTupleAt_eq, emitRows_toList _ h]

theorem runWalkStep_eq (o : OuterRow) (vs : List Visit) (e : Emission) :
    runWalkStep scope rel step subChains stops o vs e =
      emitRows stops (acceptedAt scope rel step subChains o (vs.map Visit.loc)) e := by
  induction vs generalizing e with
  | nil => rfl
  | cons v vs ih =>
    rw [runWalkStep, map_cons, acceptedAt_cons, emitRows_append]
    cases h : e.stopped with
    | true => rw [if_pos rfl, emitRows_of_stopped h, emitRows_of_stopped h]
    | false =>
      rw [if_neg (by decide), ih, acceptTupleAt_eq, emitRows_toList _ h]
      rfl

/-- The rows a probe replays for an outer row. -/
def bucketRows (scope : Scope) (rel : Relation) (step : Step) (subChains : OuterRow → Row → Bool)
    (key : BuildKey) (o : OuterRow) (map : InnerBuild) : List Row :=
  match makeValueKey (o key.keyFrom).val with
  | none => []
  | some k => acceptedAt scope rel step subChains o (map.find k)

theorem probeBuild_eq (o : OuterRow) (map : InnerBuild) (e : Emission) :
    probeBuild scope rel step subChains stops key o map e =
      emitRows stops (bucketRows scope rel step subChains key o map) e := by
  rw [probeBuild, bucketRows]
  cases makeValueKey (o key.keyFrom).val with
  | none => rfl
  | some k => exact probeGo_eq o _ e

-- What a map serves

/-- For every outer row of the domain, the map replays exactly the rows the walk accepts among
    the visits `vs`. -/
def Serves (scope : Scope) (rel : Relation) (step : Step) (subChains : OuterRow → Row → Bool)
    (key : BuildKey) (outers : Set OuterRow) (map : InnerBuild) (vs : List Visit) : Prop :=
  ∀ o ∈ outers, bucketRows scope rel step subChains key o map =
    acceptedAt scope rel step subChains o (vs.map Visit.loc)

/-- The other conjuncts do not separate outer rows: a row the whole residual accepts under one of
    them passes the other conjuncts under each of them. -/
def OthersAgree (scope : Scope) (step : Step) (key : BuildKey) (outers : Set OuterRow)
    (rows : Set Row) : Prop :=
  ∀ o₁ ∈ outers, ∀ o₂ ∈ outers, ∀ r ∈ rows,
    evaluateAll scope step.slot step.residual o₂ r = true →
      evaluateAllExcept scope step.slot step.residual o₁ r key.residualPos = true

/-- Every version a walk can meet is a row of the domain. -/
def Relation.Holds (rel : Relation) (rows : Set Row) : Prop :=
  ∀ p ∈ rel, ∀ slot r, p.tuple slot = some r → r ∈ rows

theorem Relation.Holds.tupleAt (h : rel.Holds rows) {page slot : Nat}
    (hr : rel.tupleAt page slot = some r) : r ∈ rows := by
  rw [Relation.tupleAt] at hr
  split at hr
  · cases hr
  · next p hp => exact h p (mem_of_getElem? hp) slot r hr

variable {o : OuterRow} {tuple : Option Row}

theorem accepted_eq_some (h : accepted scope step subChains o tuple = some r) :
    tuple = some r ∧ evaluateAll scope step.slot step.residual o r = true := by
  rw [accepted, Option.filter_eq_some_iff, Bool.and_eq_true] at h
  exact ⟨h.1, h.2.1⟩

theorem key_of_accepted (hnames : key.Names step.residual step.slot)
    (h : accepted scope step subChains o tuple = some r) :
    ∃ k, makeValueKey (r.cell key.colPos).val = some k ∧
      makeValueKey (o key.keyFrom).val = some k := by
  obtain ⟨pred, eq, hpred, heq, hcol, hfrom⟩ := hnames.exists_pred
  obtain ⟨-, hall⟩ := accepted_eq_some h
  rw [evaluateAll_eq_except hpred, Bool.and_eq_true] at hall
  rw [← hcol, ← hfrom]
  exact keys_of_keyed heq hall.2

theorem serves_nil (outers : Set OuterRow) :
    Serves scope rel step subChains key outers {} [] := by
  intro o _
  rw [bucketRows]
  cases makeValueKey (o key.keyFrom).val <;> rfl

theorem find_append (m : InnerBuild) (k k' : CabinKey) (loc : Nat × Nat) :
    InnerBuild.find ⟨m.entries ++ [(k', loc)]⟩ k =
      m.find k ++ if k' = k then [loc] else [] := by
  rw [InnerBuild.find, filterMap_append, InnerBuild.find]
  by_cases h : k' = k
  · simp [h]
  · simp [h]

variable {outers : Set OuterRow} {map : InnerBuild} {v : Visit}

theorem serves_snoc (h : Serves scope rel step subChains key outers map vs)
    (hnone : ∀ o ∈ outers, accepted scope step subChains o (rel.tupleAt v.page v.slot) = none) :
    Serves scope rel step subChains key outers map (vs ++ [v]) := by
  intro o ho
  have hv := hnone o ho
  rw [map_append, acceptedAt_append, h o ho, map_cons, acceptedAt_cons, Visit.loc, hv]
  simp [acceptedAt]

theorem serves_snoc_entry (hnames : key.Names step.residual step.slot) {k : CabinKey}
    (h : Serves scope rel step subChains key outers map vs)
    (htuple : rel.tupleAt v.page v.slot = some r)
    (hk : makeValueKey (r.cell key.colPos).val = some k) :
    Serves scope rel step subChains key outers ⟨map.entries ++ [(k, v.loc)]⟩ (vs ++ [v]) := by
  intro o ho
  have hold := h o ho
  rw [map_append, acceptedAt_append, ← hold, map_cons, acceptedAt_cons, Visit.loc]
  cases hacc : accepted scope step subChains o (rel.tupleAt v.page v.slot) with
  | none =>
    rw [bucketRows, bucketRows]
    cases hko : makeValueKey (o key.keyFrom).val with
    | none => rfl
    | some k' =>
      dsimp only
      rw [find_append, acceptedAt_append]
      congr 1
      by_cases hkk : k = k'
      · rw [if_pos hkk, acceptedAt_cons, hacc]
        rfl
      · rw [if_neg hkk]
        rfl
  | some r' =>
    obtain ⟨htuple', -⟩ := accepted_eq_some hacc
    obtain rfl : r = r' := Option.some.inj (htuple.symm.trans htuple')
    obtain ⟨k', hk', hko⟩ := key_of_accepted hnames hacc
    obtain rfl : k = k' := Option.some.inj (hk.symm.trans hk')
    rw [bucketRows, bucketRows, hko]
    dsimp only
    rw [find_append, acceptedAt_append, if_pos rfl, acceptedAt_cons, hacc]
    rfl

-- A building walk

/-- The bucketing half of `acceptBuilding`. -/
def bucketTuple (scope : Scope) (step : Step) (maxRows : Nat) (key : BuildKey) (o : OuterRow)
    (loc : Nat × Nat) (tuple : Option Row) (build : BuildRecording) : BuildRecording :=
  match tuple with
  | none => build
  | some r =>
    if evaluateAllExcept scope step.slot step.residual o r key.residualPos then
      bucketRow maxRows key loc r build
    else build

theorem acceptBuilding_eq (hnames : key.Names step.residual step.slot) (o : OuterRow)
    (loc : Nat × Nat) (tuple : Option Row) (build : BuildRecording) (e : Emission) :
    acceptBuilding scope step subChains stops maxRows key o loc tuple (build, e) =
      (bucketTuple scope step maxRows key o loc tuple build,
        acceptTupleAt scope step subChains stops o tuple e) := by
  obtain ⟨pred, -, hpred, -⟩ := hnames.exists_pred
  cases tuple with
  | none => rfl
  | some r =>
    rw [acceptBuilding, bucketTuple, acceptTupleAt, evaluateAll_eq_except hpred]
    dsimp only
    rw [hpred]
    cases evaluateAllExcept scope step.slot step.residual o r key.residualPos with
    | false => rfl
    | true =>
      simp only [if_true, Bool.true_and]
      split <;> rfl

theorem bucketRow_cases (loc : Nat × Nat) (r : Row) (build : BuildRecording) :
    bucketRow maxRows key loc r build = build ∨
      bucketRow maxRows key loc r build = { build with overCap := true } ∨
      (build.overCap = false ∧ ∃ map, bucketRow maxRows key loc r build =
        { build with map := map }) := by
  rw [bucketRow]
  by_cases hcap : build.overCap = true
  · exact .inl (if_pos hcap)
  · rw [if_neg hcap]
    split
    · exact .inl rfl
    · split_ifs with hfull
      · exact .inr (.inl rfl)
      · split
        · exact .inr (.inl rfl)
        · next map _ => exact .inr (.inr ⟨by simpa using hcap, map, rfl⟩)

theorem bucketTuple_cases (o : OuterRow) (loc : Nat × Nat) (tuple : Option Row)
    (build : BuildRecording) :
    bucketTuple scope step maxRows key o loc tuple build = build ∨
      bucketTuple scope step maxRows key o loc tuple build = { build with overCap := true } ∨
      (build.overCap = false ∧
        ∃ map, bucketTuple scope step maxRows key o loc tuple build =
          { build with map := map }) := by
  cases tuple with
  | none => exact .inl rfl
  | some r =>
    rw [bucketTuple]
    split_ifs
    · exact bucketRow_cases loc r build
    · exact .inl rfl

theorem bucketTuple_map_of_overCap {loc : Nat × Nat}
    (h : (bucketTuple scope step maxRows key o loc tuple build).overCap = true) :
    (bucketTuple scope step maxRows key o loc tuple build).map = build.map := by
  rcases @bucketTuple_cases scope step maxRows key o loc tuple build with
    heq | heq | ⟨hcap, map, heq⟩
  · rw [heq]
  · rw [heq]
  · rw [heq] at h
    exact absurd h (by simp [hcap])

theorem bucketTuple_overCap (o : OuterRow) (loc : Nat × Nat) (tuple : Option Row)
    (h : build.overCap = true) :
    (bucketTuple scope step maxRows key o loc tuple build).overCap = true := by
  rcases @bucketTuple_cases scope step maxRows key o loc tuple build with
    heq | heq | ⟨hcap, map, heq⟩
  · rw [heq, h]
  · rw [heq]
  · exact absurd h (by simp [hcap])

/-- **One visit keeps the map serving**: where the other conjuncts do not separate outer rows and
    the cap has not stopped it, the row is bucketed for every outer row that accepts it. -/
theorem serves_bucketTuple (hnames : key.Names step.residual step.slot)
    (hagree : OthersAgree scope step key outers rows) (hrel : rel.Holds rows) (ho : o ∈ outers)
    (v : Visit) (h : Serves scope rel step subChains key outers build.map vs)
    (hcap : (bucketTuple scope step maxRows key o v.loc (rel.tupleAt v.page v.slot)
      build).overCap = false) :
    Serves scope rel step subChains key outers
      (bucketTuple scope step maxRows key o v.loc (rel.tupleAt v.page v.slot) build).map
      (vs ++ [v]) := by
  cases htuple : rel.tupleAt v.page v.slot with
  | none =>
    refine serves_snoc h fun o' _ => ?_
    rw [htuple]
    rfl
  | some r =>
    have hr : r ∈ rows := hrel.tupleAt htuple
    rw [htuple] at hcap
    rw [bucketTuple] at hcap ⊢
    by_cases hothers : evaluateAllExcept scope step.slot step.residual o r key.residualPos = true
    · rw [if_pos hothers] at hcap ⊢
      rw [bucketRow] at hcap ⊢
      by_cases hover : build.overCap = true
      · rw [if_pos hover] at hcap
        exact absurd hover (by simp [hcap])
      · rw [if_neg hover] at hcap ⊢
        cases hk : makeValueKey (r.cell key.colPos).val with
        | none =>
          -- a row without a key satisfies no equality
          refine serves_snoc h fun o' _ => ?_
          cases hacc : accepted scope step subChains o' (rel.tupleAt v.page v.slot) with
          | none => rfl
          | some r' =>
            obtain ⟨htuple', -⟩ := accepted_eq_some hacc
            obtain rfl : r = r' := Option.some.inj (htuple.symm.trans htuple')
            obtain ⟨k, hk', -⟩ := key_of_accepted hnames hacc
            rw [hk] at hk'
            cases hk'
        | some k =>
          rw [hk] at hcap
          dsimp only at hcap ⊢
          by_cases hfull : maxRows ≤ build.map.rows
          · rw [if_pos hfull] at hcap
            cases hcap
          · rw [if_neg hfull] at hcap ⊢
            rw [InnerBuild.add] at hcap ⊢
            split_ifs at hcap ⊢ with hlimit
            exact serves_snoc_entry hnames h htuple hk
    · rw [if_neg hothers]
      refine serves_snoc h fun o' ho' => ?_
      cases hacc : accepted scope step subChains o' (rel.tupleAt v.page v.slot) with
      | none => rfl
      | some r' =>
        obtain ⟨htuple', hall⟩ := accepted_eq_some hacc
        obtain rfl : r = r' := Option.some.inj (htuple.symm.trans htuple')
        exact absurd (hagree o ho o' ho' r hr hall) hothers

theorem runWalkBuilding_overCap (hnames : key.Names step.residual step.slot) (o : OuterRow)
    (vs : List Visit) (e : Emission) (h : build.overCap = true) :
    (runWalkBuilding scope rel step subChains stops maxRows key o vs (build, e)).1.overCap =
      true := by
  induction vs generalizing build e with
  | nil => exact h
  | cons v vs ih =>
    rw [runWalkBuilding]
    split_ifs
    · exact h
    · rw [acceptBuilding_eq hnames]
      exact ih _ (bucketTuple_overCap o _ _ h)

/-- **A building walk answers as the plain one**, and one that ran to the end under the cap has
    a map that serves everything it visited. -/
theorem runWalkBuilding_spec (hnames : key.Names step.residual step.slot) {outers : Set OuterRow}
    {rows : Set Row} (hagree : OthersAgree scope step key outers rows) (hrel : rel.Holds rows)
    {o : OuterRow} (ho : o ∈ outers) (vs : List Visit) (build : BuildRecording) (e : Emission) :
    (runWalkBuilding scope rel step subChains stops maxRows key o vs (build, e)).2 =
        runWalkStep scope rel step subChains stops o vs e ∧
      ∀ covered, Serves scope rel step subChains key outers build.map covered →
        (runWalkStep scope rel step subChains stops o vs e).stopped = false →
        (runWalkBuilding scope rel step subChains stops maxRows key o vs (build, e)).1.overCap =
          false →
        Serves scope rel step subChains key outers
          (runWalkBuilding scope rel step subChains stops maxRows key o vs (build, e)).1.map
          (covered ++ vs) := by
  induction vs generalizing build e with
  | nil =>
    refine ⟨rfl, fun covered h _ _ => ?_⟩
    rw [append_nil]
    exact h
  | cons v vs ih =>
    rw [runWalkBuilding, runWalkStep]
    cases hstop : e.stopped with
    | true =>
      refine ⟨rfl, fun covered h hrun _ => ?_⟩
      rw [if_pos rfl, hstop] at hrun
      cases hrun
    | false =>
      rw [if_neg (by decide), if_neg (by decide), acceptBuilding_eq hnames]
      obtain ⟨hemit, hserve⟩ := ih
        (bucketTuple scope step maxRows key o (v.page, v.slot) (rel.tupleAt v.page v.slot) build)
        (acceptTupleAt scope step subChains stops o (rel.tupleAt v.page v.slot) e)
      refine ⟨hemit, fun covered h hrun hcap => ?_⟩
      have hcap' : (bucketTuple scope step maxRows key o (v.page, v.slot)
          (rel.tupleAt v.page v.slot) build).overCap = false := by
        by_contra hover
        rw [runWalkBuilding_overCap hnames o vs _ (eq_true_of_ne_false hover)] at hcap
        cases hcap
      have hnext := serves_bucketTuple hnames hagree hrel ho v h hcap'
      rw [append_cons]
      exact hserve _ hnext hrun hcap

-- Marks

/-- The walk order: by page, then by place in the page. -/
def Visit.Before (v w : Visit) : Prop :=
  v.page < w.page ∨ (v.page = w.page ∧ v.ordinal < w.ordinal)

variable {page : Nat}

theorem mem_pageVisits {ordinal : Nat} {slots : List Nat}
    (h : v ∈ pageVisits page ordinal slots) : v.page = page ∧ ordinal ≤ v.ordinal := by
  induction slots generalizing ordinal with
  | nil => cases h
  | cons s slots ih =>
    rcases mem_cons.mp h with rfl | h
    · exact ⟨rfl, le_refl _⟩
    · obtain ⟨hpage, hord⟩ := ih h
      exact ⟨hpage, by omega⟩

theorem mem_visitsFrom (h : v ∈ visitsFrom page rel) : page ≤ v.page := by
  induction rel generalizing page with
  | nil => cases h
  | cons p rest ih =>
    rcases mem_append.mp h with h | h
    · exact (mem_pageVisits h).1.ge
    · have := ih h
      omega

theorem pairwise_pageVisits (page ordinal : Nat) (slots : List Nat) :
    (pageVisits page ordinal slots).Pairwise Visit.Before := by
  induction slots generalizing ordinal with
  | nil => exact .nil
  | cons s slots ih =>
    refine .cons (fun v hv => ?_) (ih (ordinal + 1))
    obtain ⟨hpage, hord⟩ := mem_pageVisits hv
    refine .inr ⟨hpage.symm, ?_⟩
    show ordinal < v.ordinal
    omega

theorem pairwise_visitsFrom (page : Nat) (rel : Relation) :
    (visitsFrom page rel).Pairwise Visit.Before := by
  induction rel generalizing page with
  | nil => exact .nil
  | cons p rest ih =>
    rw [visitsFrom, pairwise_append]
    refine ⟨pairwise_pageVisits page 0 p.order, ih (page + 1), fun v hv w hw => ?_⟩
    have hv := (mem_pageVisits hv).1
    have hw := mem_visitsFrom hw
    exact .inl (by omega)

theorem resumeAt_mark {covered rest : List Visit}
    (hsorted : (covered ++ v :: rest).Pairwise Visit.Before) :
    resumeAt (covered ++ v :: rest) (some ⟨v.page, v.ordinal + 1⟩) = rest := by
  rw [pairwise_append] at hsorted
  obtain ⟨-, htail, hcross⟩ := hsorted
  obtain ⟨hrest, -⟩ := pairwise_cons.mp htail
  have hdone : covered.filter (fun w => decide (¬ (w.page < v.page ∨
      (w.page = v.page ∧ w.ordinal < v.ordinal + 1)))) = [] := by
    rw [filter_eq_nil_iff]
    intro w hw
    rcases hcross w hw v (by simp) with h | ⟨h₁, h₂⟩ <;> simp <;> omega
  have hleft : rest.filter (fun w => decide (¬ (w.page < v.page ∨
      (w.page = v.page ∧ w.ordinal < v.ordinal + 1)))) = rest := by
    rw [filter_eq_self]
    intro w hw
    rcases hrest w hw with h | ⟨h₁, h₂⟩ <;> simp <;> omega
  rw [resumeAt, filter_append, filter_cons_of_neg (by simp), hdone, hleft,
    nil_append]

-- A prefix walk

/-- What a prefix map and its mark say together: the map serves the visits before the mark, and
    the resumed walk visits exactly the others. -/
def PrefixServed (scope : Scope) (rel : Relation) (step : Step)
    (subChains : OuterRow → Row → Bool) (key : BuildKey) (outers : Set OuterRow)
    (map : InnerBuild) (mark : Option WalkMark) (covered rest : List Visit) : Prop :=
  rel.visits = covered ++ rest ∧ Serves scope rel step subChains key outers map covered ∧
    resumeAt rel.visits mark = rest

/-- Where a prefix walk stands: the mark is where the walk is, or the cap has frozen it. -/
def PrefixWalk.StandsAt (w : PrefixWalk) (rest vs : List Visit) : Prop :=
  (w.markFrozen = false ∧ rest = vs) ∨ (w.markFrozen = true ∧ w.build.overCap = true)

@[simp] theorem advance_e (w : PrefixWalk) (v : Visit) (r : BuildRecording × Emission) :
    (w.advance v r).e = r.2 := by
  rw [PrefixWalk.advance]
  split_ifs <;> rfl

theorem served_advance (hnames : key.Names step.residual step.slot)
    (hagree : OthersAgree scope step key outers rows) (hrel : rel.Holds rows) (ho : o ∈ outers)
    {w : PrefixWalk} {covered rest : List Visit} (e : Emission)
    (hserved : PrefixServed scope rel step subChains key outers w.build.map w.mark covered rest)
    (hstands : w.StandsAt rest (v :: vs)) :
    ∃ covered' rest', PrefixServed scope rel step subChains key outers
        (w.advance v (bucketTuple scope step maxRows key o v.loc (rel.tupleAt v.page v.slot)
          w.build, e)).build.map
        (w.advance v (bucketTuple scope step maxRows key o v.loc (rel.tupleAt v.page v.slot)
          w.build, e)).mark covered' rest' ∧
      (w.advance v (bucketTuple scope step maxRows key o v.loc (rel.tupleAt v.page v.slot)
        w.build, e)).StandsAt rest' vs := by
  obtain ⟨hsplit, hserves, hresume⟩ := hserved
  rcases hstands with ⟨hfrozen, rfl⟩ | ⟨hfrozen, hcap⟩
  · cases hover : (bucketTuple scope step maxRows key o v.loc (rel.tupleAt v.page v.slot)
        w.build).overCap with
    | true =>
      -- the cap stopped the map at this row: the mark stays before it
      rw [PrefixWalk.advance, if_neg (by simp [hfrozen]), if_pos hover]
      refine ⟨covered, v :: vs, ⟨hsplit, ?_, hresume⟩, .inr ⟨rfl, hover⟩⟩
      exact bucketTuple_map_of_overCap hover ▸ hserves
    | false =>
      rw [PrefixWalk.advance, if_neg (by simp [hfrozen]), if_neg (by simp [hover])]
      refine ⟨covered ++ [v], vs, ⟨?_, ?_, ?_⟩, .inl ⟨hfrozen, rfl⟩⟩
      · rw [hsplit, append_cons]
      · exact serves_bucketTuple hnames hagree hrel ho v hserves hover
      · have hsorted := pairwise_visitsFrom 0 rel
        rw [← Relation.visits, hsplit] at hsorted
        rw [hsplit]
        exact resumeAt_mark hsorted
  · have hover : (bucketTuple scope step maxRows key o v.loc (rel.tupleAt v.page v.slot)
        w.build).overCap = true := bucketTuple_overCap o v.loc _ hcap
    rw [PrefixWalk.advance, if_pos hfrozen]
    refine ⟨covered, rest, ⟨hsplit, ?_, hresume⟩, .inr ⟨hfrozen, hover⟩⟩
    exact bucketTuple_map_of_overCap hover ▸ hserves

/-- **A prefix walk answers as the plain one from the mark on**, and leaves a map and a mark that
    agree; one that was neither cut nor frozen leaves nothing past the mark. -/
theorem runWalkPrefix_spec (hnames : key.Names step.residual step.slot) {outers : Set OuterRow}
    {rows : Set Row} (hagree : OthersAgree scope step key outers rows) (hrel : rel.Holds rows)
    {o : OuterRow} (ho : o ∈ outers) (vs : List Visit) (w : PrefixWalk)
    (hstop : w.e.stopped = false) {covered rest : List Visit}
    (hserved : PrefixServed scope rel step subChains key outers w.build.map w.mark covered rest)
    (hstands : w.StandsAt rest vs) :
    (runWalkPrefix scope rel step subChains stops maxRows key o vs w).e =
        runWalkStep scope rel step subChains stops o vs w.e ∧
      ∃ covered' rest', PrefixServed scope rel step subChains key outers
          (runWalkPrefix scope rel step subChains stops maxRows key o vs w).build.map
          (runWalkPrefix scope rel step subChains stops maxRows key o vs w).mark covered' rest' ∧
        ((runWalkPrefix scope rel step subChains stops maxRows key o vs w).cut = false →
          (runWalkPrefix scope rel step subChains stops maxRows key o vs w).markFrozen = false →
          rest' = []) := by
  induction vs generalizing w covered rest with
  | nil =>
    refine ⟨rfl, covered, rest, hserved, fun _ hfrozen => ?_⟩
    rcases hstands with ⟨-, hrest⟩ | ⟨hfrozen', -⟩
    · exact hrest
    · exact absurd (hfrozen'.symm.trans hfrozen) (by decide)
  | cons v vs ih =>
    have hgoes : ¬ w.e.stopped = true := by simp [hstop]
    rw [runWalkPrefix, if_neg hgoes, runWalkStep, if_neg hgoes, acceptBuilding_eq hnames]
    dsimp only
    obtain ⟨covered', rest', hserved', hstands'⟩ := served_advance hnames hagree hrel ho
      (acceptTupleAt scope step subChains stops o (rel.tupleAt v.page v.slot) w.e)
      hserved hstands
    cases hstop' : (acceptTupleAt scope step subChains stops o (rel.tupleAt v.page v.slot)
        w.e).stopped with
    | true =>
      rw [if_pos rfl]
      refine ⟨?_, covered', rest', hserved', fun hc => by cases hc⟩
      rw [runWalkStep_eq, emitRows_of_stopped hstop']
      exact advance_e w v _
    | false =>
      rw [if_neg (by decide)]
      have hrun := ih (w.advance v (bucketTuple scope step maxRows key o v.loc
        (rel.tupleAt v.page v.slot) w.build, acceptTupleAt scope step subChains stops o
          (rel.tupleAt v.page v.slot) w.e)) (by rw [advance_e]; exact hstop') hserved' hstands'
      rw [advance_e] at hrun
      exact hrun

-- One outer row

/-- What the join's state promises between outer rows: no map before the build is published,
    and a published one serves the whole walk. -/
def JoinServed (scope : Scope) (rel : Relation) (step : Step)
    (subChains : OuterRow → Row → Bool) (key : BuildKey) (outers : Set OuterRow)
    (st : InnerBuildState) : Prop :=
  (st.phase ≠ .built → st.map = {}) ∧
    (st.phase = .built → Serves scope rel step subChains key outers st.map rel.visits)

theorem walkAndBuild_spec (hkey : step.build = some key)
    (hnames : key.Names step.residual step.slot) (hagree : OthersAgree scope step key outers rows)
    (hrel : rel.Holds rows) (ho : o ∈ outers)
    (hst : JoinServed scope rel step subChains key outers st) :
    (walkAndBuild scope rel step subChains stops maxRows o st).2 =
        runWalkStep scope rel step subChains stops o rel.visits {} ∧
      JoinServed scope rel step subChains key outers
        (walkAndBuild scope rel step subChains stops maxRows o st).1 := by
  rw [walkAndBuild, hkey]
  dsimp only
  by_cases hoff : (!buildIsArmable step || maxRows == 0 || st.phase = .declined) = true
  · rw [if_pos hoff]
    exact ⟨rfl, hst⟩
  · rw [if_neg hoff]
    by_cases hbuilt : st.phase = .built
    · rw [if_pos hbuilt]
      refine ⟨?_, hst⟩
      rw [probeBuild_eq, hst.2 hbuilt o ho, runWalkStep_eq]
    · rw [if_neg hbuilt]
      obtain ⟨hemit, hserve⟩ := @runWalkBuilding_spec scope rel step subChains stops maxRows key
        hnames outers rows hagree hrel o ho rel.visits { map := st.map } {}
      have hempty : Serves scope rel step subChains key outers st.map [] := by
        rw [hst.1 hbuilt]
        exact serves_nil outers
      split_ifs with hdone hcapped
      · rw [Bool.and_eq_true, Bool.not_eq_true', Bool.not_eq_true'] at hdone
        refine ⟨hemit, fun h => absurd rfl h, fun _ => ?_⟩
        exact hserve [] hempty (hemit ▸ hdone.1) hdone.2
      · exact ⟨hemit, fun _ => rfl, fun h => by cases h⟩
      · exact ⟨hemit, fun _ => rfl, fun h => absurd h hbuilt⟩

/-- What a sub-chain's state promises: map and mark agree, and a finished walk left nothing. -/
def SubChainServed (scope : Scope) (rel : Relation) (step : Step)
    (subChains : OuterRow → Row → Bool) (key : BuildKey) (outers : Set OuterRow)
    (st : InnerBuildState) : Prop :=
  ∃ covered rest, PrefixServed scope rel step subChains key outers st.map st.mark covered rest ∧
    (st.phase = .built → rest = [])

theorem bucketRows_of_rows_zero (h : ¬ map.rows > 0) (o : OuterRow) :
    bucketRows scope rel step subChains key o map = [] := by
  have hnil : map.entries = [] := eq_nil_of_length_eq_zero (Nat.eq_zero_of_not_pos h)
  rw [bucketRows]
  cases makeValueKey (o key.keyFrom).val with
  | none => rfl
  | some k => simp [InnerBuild.find, hnil, acceptedAt]

theorem walkPrefixAndProbe_spec (hkey : step.build = some key)
    (hnames : key.Names step.residual step.slot) (hagree : OthersAgree scope step key outers rows)
    (hrel : rel.Holds rows) (ho : o ∈ outers)
    (hst : SubChainServed scope rel step subChains key outers st) :
    (walkPrefixAndProbe scope rel step subChains stops maxRows o st).2 =
        runWalkStep scope rel step subChains stops o rel.visits {} ∧
      SubChainServed scope rel step subChains key outers
        (walkPrefixAndProbe scope rel step subChains stops maxRows o st).1 := by
  obtain ⟨covered, rest, hserved, hbuilt⟩ := hst
  obtain ⟨hsplit, hserves, hresume⟩ := id hserved
  rw [walkPrefixAndProbe, hkey]
  dsimp only
  by_cases hoff : (!buildIsArmable step || maxRows == 0) = true
  · rw [if_pos hoff]
    exact ⟨rfl, covered, rest, hserved, hbuilt⟩
  · rw [if_neg hoff]
    -- the replay stands for the walk of the covered prefix
    have hreplay : (if st.map.rows > 0 then
        probeBuild scope rel step subChains stops key o st.map {} else {}) =
        runWalkStep scope rel step subChains stops o covered {} := by
      rw [runWalkStep_eq, ← hserves o ho]
      split_ifs with hrows
      · exact probeBuild_eq o st.map {}
      · rw [bucketRows_of_rows_zero hrows]
        rfl
    have hwalk : runWalkStep scope rel step subChains stops o rel.visits {} =
        runWalkStep scope rel step subChains stops o rest
          (runWalkStep scope rel step subChains stops o covered {}) := by
      rw [hsplit, runWalkStep_eq, runWalkStep_eq, runWalkStep_eq, map_append,
        acceptedAt_append, emitRows_append]
    rw [hreplay, hwalk]
    cases hstop : (runWalkStep scope rel step subChains stops o covered {}).stopped with
    | true =>
      rw [if_pos rfl]
      refine ⟨?_, covered, rest, hserved, hbuilt⟩
      rw [runWalkStep_eq o rest, emitRows_of_stopped hstop]
    | false =>
      rw [if_neg (by decide)]
      by_cases hphase : st.phase = .built
      · rw [if_pos hphase]
        refine ⟨?_, covered, rest, hserved, hbuilt⟩
        rw [hbuilt hphase]
        rfl
      · rw [if_neg hphase, hresume]
        obtain ⟨hemit, covered', rest', hserved', hrest'⟩ :=
          @runWalkPrefix_spec scope rel step subChains stops maxRows key hnames outers rows hagree
            hrel o ho rest
            { build := { map := st.map, overCap := st.frozen }
              e := runWalkStep scope rel step subChains stops o covered {}
              mark := st.mark } hstop covered rest hserved (.inl ⟨rfl, rfl⟩)
        refine ⟨hemit, covered', rest', hserved', fun h => ?_⟩
        dsimp only at h
        split_ifs at h with hdone
        · rw [Bool.and_eq_true, Bool.not_eq_true', Bool.not_eq_true'] at hdone
          exact hrest' hdone.1 hdone.2
        · exact absurd h hphase

-- Whole statements

theorem runOuterRows_eq {form : BuildForm} {sinks : Nat → List Row → Bool}
    {exec : (List Row → Bool) → OuterRow → InnerBuildState → InnerBuildState × Emission}
    {plain : (List Row → Bool) → OuterRow → Emission} {inv : InnerBuildState → Prop}
    (hstep : ∀ sink, ∀ o ∈ outers, ∀ st, inv st →
      (exec sink o st).2 = plain sink o ∧ inv (exec sink o st).1) (os : List OuterRow)
    (hos : ∀ o ∈ os, o ∈ outers) (i : Nat) (hst : inv st) (st' : InnerBuildState) :
    runOuterRows form sinks exec i os st =
      runOuterRows form sinks (fun sink o st => (st, plain sink o)) i os st' := by
  induction os generalizing i st with
  | nil => rfl
  | cons o os ih =>
    obtain ⟨hemit, hst'⟩ := hstep (sinks i) o (hos o (by simp)) st hst
    rw [runOuterRows, runOuterRows]
    dsimp only
    rw [hemit, ih (fun o' ho' => hos o' (by simp [ho'])) (i + 1) hst']

theorem runWithBuild_eq_plain (hkey : step.build = some key)
    (hnames : key.Names step.residual step.slot) (hagree : OthersAgree scope step key outers rows)
    (hrel : rel.Holds rows) (form : BuildForm) (sinks : Nat → List Row → Bool) {os : List OuterRow}
    (hos : ∀ o ∈ os, o ∈ outers) :
    runWithBuild scope rel step subChains sinks form maxRows os =
      runPlain scope rel step subChains sinks form os := by
  rw [runWithBuild, runPlain]
  cases form with
  | join =>
    have hstep : ∀ sink, ∀ o ∈ outers, ∀ st,
        JoinServed scope rel step subChains key outers st →
        (walkAndBuild scope rel step subChains sink maxRows o st).2 =
            runWalkStep scope rel step subChains sink o rel.visits {} ∧
          JoinServed scope rel step subChains key outers
            (walkAndBuild scope rel step subChains sink maxRows o st).1 :=
      fun sink o ho st hst => walkAndBuild_spec hkey hnames hagree hrel ho hst
    exact runOuterRows_eq hstep os hos 0 ⟨fun _ => rfl, fun h => by cases h⟩ {}
  | subChain =>
    have hstep : ∀ sink, ∀ o ∈ outers, ∀ st,
        SubChainServed scope rel step subChains key outers st →
        (walkPrefixAndProbe scope rel step subChains sink maxRows o st).2 =
            runWalkStep scope rel step subChains sink o rel.visits {} ∧
          SubChainServed scope rel step subChains key outers
            (walkPrefixAndProbe scope rel step subChains sink maxRows o st).1 :=
      fun sink o ho st hst => walkPrefixAndProbe_spec hkey hnames hagree hrel ho hst
    exact runOuterRows_eq hstep os hos 0
      ⟨[], rel.visits, ⟨rfl, serves_nil outers, rfl⟩, fun h => by cases h⟩ {}

end

/-- A relation of one row. -/
def oneRow (r : Row) : Relation := [⟨[0], fun _ => some r⟩]

theorem oneRow_holds {rows : Set Row} (hr : r ∈ rows) : (oneRow r).Holds rows := by
  intro p hp slot r' hr'
  obtain rfl : p = ⟨[0], fun _ => some r⟩ := mem_singleton.mp hp
  obtain rfl : r = r' := Option.some.inj hr'
  exact hr

variable {r : Row}

/-- Where another conjunct rejects the only row under the first outer row, the published map is
    empty, and the second outer row loses the row its whole residual accepts. -/
theorem rejected_row_lost {scope : Scope} {step : Step} {key : BuildKey}
    (hkey : step.build = some key) (harm : buildIsArmable step = true)
    (hnames : key.Names step.residual step.slot) {o₁ o₂ : OuterRow}
    (haccept : evaluateAll scope step.slot step.residual o₂ r = true)
    (hreject : evaluateAllExcept scope step.slot step.residual o₁ r key.residualPos = false) :
    runWithBuild scope (oneRow r) step (fun _ _ => true) (fun _ _ => false) .join 1 [o₁, o₂] ≠
      runPlain scope (oneRow r) step (fun _ _ => true) (fun _ _ => false) .join [o₁, o₂] := by
  obtain ⟨pred, -, hpred, -⟩ := hnames.exists_pred
  have hreject' : evaluateAll scope step.slot step.residual o₁ r = false := by
    rw [evaluateAll_eq_except hpred, hreject, Bool.false_and]
  have htuple : (oneRow r).tupleAt 0 0 = some r := rfl
  have hvisits : (oneRow r).visits = [⟨0, 0, 0⟩] := rfl
  have hplain : runPlain scope (oneRow r) step (fun _ _ => true) (fun _ _ => false) .join
      [o₁, o₂] = [[], [r]] := by
    simp [runPlain, runOuterRows, runWalkStep, hvisits, htuple, acceptTupleAt, hreject', haccept,
      emit]
  have hfirst : walkAndBuild scope (oneRow r) step (fun _ _ => true) (fun _ => false) 1 o₁ {} =
      ({ phase := .built }, {}) := by
    simp [walkAndBuild, hkey, harm, runWalkBuilding, hvisits, htuple, acceptBuilding, hreject]
  have hbuild : runWithBuild scope (oneRow r) step (fun _ _ => true) (fun _ _ => false) .join 1
      [o₁, o₂] = [[], []] := by
    simp only [runWithBuild, runOuterRows, hfirst]
    simp only [walkAndBuild, hkey, harm, probeBuild]
    cases makeValueKey (o₂ key.keyFrom).val with
    | none => rfl
    | some k => rfl
  rw [hbuild, hplain]
  simp

/-- **When the inner build never changes a result.**  For a step whose annotation the compiler
    made, over any outer rows and inner rows: every relation of these rows, sequence of these
    outer rows, sub-chain, stop position and cap gives the sinks, in either form, what the plain
    walk gives them, exactly when no conjunct beside the keyed equality rejects under one outer
    row an inner row that the whole residual accepts under another. -/
theorem innerBuild_matches_walk_iff {scope : Scope} {step : Step} {key : BuildKey}
    (hkey : step.build = some key)
    (hcompiled : buildKeyOf scope step.residual step.slot = some key)
    (harm : buildIsArmable step = true) (outers : Set OuterRow) (rows : Set Row) :
    (∀ (form : BuildForm) (rel : Relation), rel.Holds rows →
      ∀ (subChains : OuterRow → Row → Bool) (sinks : Nat → List Row → Bool) (maxRows : Nat)
        (os : List OuterRow), (∀ o ∈ os, o ∈ outers) →
        runWithBuild scope rel step subChains sinks form maxRows os =
          runPlain scope rel step subChains sinks form os) ↔
      OthersAgree scope step key outers rows := by
  have hnames := buildKeyOf_names hcompiled
  constructor
  · intro hsame o₁ ho₁ o₂ ho₂ r hr haccept
    by_contra hreject
    refine rejected_row_lost hkey harm hnames haccept (eq_false_of_ne_true hreject) ?_
    refine hsame .join (oneRow r) (oneRow_holds hr) _ _ 1 [o₁, o₂] fun o ho => ?_
    rcases mem_cons.mp ho with rfl | ho
    · exact ho₁
    · exact mem_singleton.mp ho ▸ ho₂
  · intro hagree form rel hrel subChains sinks maxRows os hos
    exact runWithBuild_eq_plain hkey hnames hagree hrel form sinks hos

-- `r JOIN s ON s.c1 = r.c1`, alone and beside `s.c2 > r.c2`

def intCell (n : Nat) (h : n < 2 ^ 63 := by decide) : Cell :=
  ⟨.ofInt n, ⟨by show -2 ^ 63 ≤ (n : Int) ∧ (n : Int) < 2 ^ 63; omega, .inl rfl⟩⟩

def joinOnC1 : StepPredicate := ⟨⟨0, 1, 1⟩, .eq, .column ⟨0, 0, 1⟩⟩

def c2Above : StepPredicate := ⟨⟨0, 1, 2⟩, .gt, .column ⟨0, 0, 2⟩⟩

def joinStep (residual : List StepPredicate) : Step where
  slot := 1
  columns := 3
  residual := residual
  build := some ⟨1, ⟨0, 0, 1⟩, 0⟩

/-- The row of `r`, by column position. -/
def outerRow (c1 c2 : Cell) : OuterRow := fun ref => if ref.colPos = 1 then c1 else c2

/-- A sub-chain whose sink stops at the first row, keyed on `s.c1 = r.c1` alone: the second outer
    row finds the row the first one's walk was cut at. -/
theorem keyedEquality_alone_unchanged :
    OthersAgree (fun _ => ⟨typeValInt64, 8⟩) (joinStep [joinOnC1]) ⟨1, ⟨0, 0, 1⟩, 0⟩ Set.univ
        Set.univ ∧
      runWithBuild (fun _ => ⟨typeValInt64, 8⟩) (oneRow [intCell 1, intCell 7, intCell 50])
          (joinStep [joinOnC1]) (fun _ _ => true) (fun _ _ => true) .subChain 100
          [outerRow (intCell 7) (intCell 100), outerRow (intCell 7) (intCell 0)] =
        runPlain (fun _ => ⟨typeValInt64, 8⟩) (oneRow [intCell 1, intCell 7, intCell 50])
          (joinStep [joinOnC1]) (fun _ _ => true) (fun _ _ => true) .subChain
          [outerRow (intCell 7) (intCell 100), outerRow (intCell 7) (intCell 0)] := by
  have hagree : OthersAgree (fun _ => ⟨typeValInt64, 8⟩) (joinStep [joinOnC1]) ⟨1, ⟨0, 0, 1⟩, 0⟩
      Set.univ Set.univ := fun _ _ _ _ _ _ _ => rfl
  refine ⟨hagree, ?_⟩
  exact (innerBuild_matches_walk_iff rfl (by decide) (by decide) Set.univ Set.univ).mpr hagree
    .subChain _ (fun _ _ _ _ _ => trivial) _ _ 100 _ fun _ _ => trivial

/-- The first outer row, (7, 100), rejects the inner row (1, 7, 50) on `s.c2 > r.c2`, so the map is
    published without it; the second, (7, 0), joins it in the walk and finds an empty bucket. -/
theorem outerConjunct_loses_row :
    buildKeyOf (fun _ => ⟨typeValInt64, 8⟩) [joinOnC1, c2Above] 1 = some ⟨1, ⟨0, 0, 1⟩, 0⟩ ∧
      buildIsArmable (joinStep [joinOnC1, c2Above]) = true ∧
      runWithBuild (fun _ => ⟨typeValInt64, 8⟩) (oneRow [intCell 1, intCell 7, intCell 50])
          (joinStep [joinOnC1, c2Above]) (fun _ _ => true) (fun _ _ => false) .join 100
          [outerRow (intCell 7) (intCell 100), outerRow (intCell 7) (intCell 0)] =
        [[], []] ∧
      runPlain (fun _ => ⟨typeValInt64, 8⟩) (oneRow [intCell 1, intCell 7, intCell 50])
          (joinStep [joinOnC1, c2Above]) (fun _ _ => true) (fun _ _ => false) .join
          [outerRow (intCell 7) (intCell 100), outerRow (intCell 7) (intCell 0)] =
        [[], [[intCell 1, intCell 7, intCell 50]]] := by
  decide

end Kds.Exec
