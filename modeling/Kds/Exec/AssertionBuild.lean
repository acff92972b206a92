/-
  Kds.Exec.AssertionBuild

  Building the Bound Cabin of a relation that already has rows
  (`src/exec/assertion_build.cpp`, `BuildBoundCabin`), and putting the assertion into and out of
  the registry (`AssertionEnforcer::Adopt`, `Evict`).

  The scan reads settled state: a row that a transaction in flight has written refuses the build.
  So a built directory counts exactly the committed rows, and adopting it keeps the books.

  Left out: the leaf walk (the rows come in scan order), the chain's pages and log records (what
  the append of the n-th entry answers for its group key is the parameter `entryAt`), and the
  checkpoint base logged at the end.
-/

import Kds.Exec.AssertionRuns

namespace Kds.Exec

section

variable (entryAt : Nat → List UInt8 → StatusOr EntryAt) (formatValue : Nat → AstValue → String)

/-- `BuildBoundCabin`: one entry per row of the relation, the bound checked as each row lands. -/
def BoundCabin.buildBoundCabin (d : AssertionDecl) (tableName : String) :
    List TableRow → Nat → BoundCabin → StatusOr BoundCabin
  | [], _, cabin => .ok cabin
  | r :: rest, n, cabin =>
    if r.oid = d.targetOid then
      match r.writer, r.committed with
      | some _, _ => .error (.txnConflict ("relation '" ++ tableName ++
          "' has a row written by an in-flight transaction; CREATE ASSERTION reads settled " ++
          "state - retry when it has ended"))
      | none, none => BoundCabin.buildBoundCabin d tableName rest n cabin
      | none, some row =>
        match entryAt n (d.keyFor row 0) with
        | .error e => .error e
        | .ok loc =>
          match (cabin.ensureGroup (d.keyFor row 0)).apply (d.keyFor row 0)
              (d.contributionOf row 0) loc with
          | .error e => .error e
          | .ok cabin' =>
            if d.bound < cabin'.aggregateOf d.aggregate (d.keyFor row 0) then
              .error (refuse formatValue d row 0)
            else BoundCabin.buildBoundCabin d tableName rest (n + 1) cabin'
    else BoundCabin.buildBoundCabin d tableName rest n cabin

end

/-- `AssertionEnforcer::Adopt`: `insert_or_assign` by id. -/
def adopt (a : LiveAssertion) (live : List LiveAssertion) : List LiveAssertion :=
  live.filter (fun b => b.decl.assertionId ≠ a.decl.assertionId) ++ [a]

/-- `AssertionEnforcer::Evict`; an id the registry does not hold is left alone. -/
def evict (id : Nat) (live : List LiveAssertion) : List LiveAssertion :=
  live.filter fun b => b.decl.assertionId ≠ id

-- What a build counts

variable {d : AssertionDecl}

namespace EngineState

-- Adopting and evicting keep the books

/-- No reservation of any transaction names the id. -/
def Unheard (s : EngineState) (id : Nat) : Prop :=
  ∀ t m key, netOf m id key (s.pending t) = 0

variable {d : AssertionDecl} {s : EngineState}

theorem books_evict (h : s.Books) (id : Nat) :
    EngineState.Books { s with live := evict id s.live } := by
  have hsub : ∀ a ∈ evict id s.live, a ∈ s.live := fun a ha => List.mem_of_mem_filter ha
  refine ⟨?_, h.fresh, h.noPending, h.writers, h.unwritten, ?_, ?_, ?_⟩
  · exact h.ids.sublist (List.filter_sublist.map _)
  · exact fun a ha => h.settledAggregate a (hsub a ha)
  · exact fun a ha => h.settledEntries a (hsub a ha)
  · exact fun t ht a ha => h.openNet t ht a (hsub a ha)

section

variable {chainAppend : Nat → StatusOr EntryAt} {formatValue : Nat → AstValue → String}

theorem inStep_decl {live live' : List LiveAssertion} {rs rs' : List Reservation}
    (h : InStep live live' rs rs') : live'.map (·.decl) = live.map (·.decl) := by
  unfold InStep at h
  induction h with
  | nil => rfl
  | cons hd _ ih => simp [hd.1, ih]

theorem abortTxn_decl {live : List LiveAssertion} (rs : List Reservation) :
    (abortTxn rs live).1.map (·.decl) = live.map (·.decl) := by
  have hone : ∀ (r : Reservation) {l l' : List LiveAssertion}, unreserveIn r l = .ok l' →
      l'.map (·.decl) = l.map (·.decl) := by
    intro r l
    induction l with
    | nil =>
      intro l' h
      cases h
      rfl
    | cons a rest ih =>
      intro l' h
      unfold unreserveIn at h
      split at h
      · split at h
        · cases h
        · cases h
          rfl
      · split at h
        · cases h
        · next rest' hrest =>
          cases h
          simp [ih hrest]
  induction rs generalizing live with
  | nil => rfl
  | cons r rs ih =>
    unfold abortTxn
    split
    · rfl
    · next live' hlive =>
      rw [ih, hone r hlive]

variable {s s' : EngineState} {act : Action}

theorem decls_step (h : s.Books) (hok : s.GoesThrough chainAppend formatValue act)
    (hstep : step chainAppend formatValue s act = some s') :
    s'.live.map (·.decl) = s.live.map (·.decl) := by
  rcases step_cases h hok hstep with rfl | ⟨t, -, rfl⟩ | ⟨c, out, rows, -, hst, rfl⟩ |
    ⟨t, -, rfl⟩ | ⟨t, -, -, rfl⟩
  · rfl
  · rfl
  · have hdecl := inStep_decl hst.inStep
    unfold settle
    dsimp only
    split
    · exact hdecl
    · exact hdecl
  · rfl
  · exact abortTxn_decl _

theorem unheard_step (h : s.Books) (hok : s.GoesThrough chainAppend formatValue act)
    (hstep : step chainAppend formatValue s act = some s') {id : Nat}
    (hout : id ∉ s.live.map (·.decl.assertionId)) (hunheard : s.Unheard id) : s'.Unheard id := by
  have hend : ∀ t₀, ∀ t m key, netOf m id key (Function.update s.pending t₀ [] t) = 0 := by
    intro t₀ t m key
    by_cases ht : t = t₀
    · simp [ht]
    · rw [Function.update_of_ne ht]
      exact hunheard t m key
  rcases step_cases h hok hstep with rfl | ⟨t, -, rfl⟩ | ⟨c, out, rows, -, hst, rfl⟩ |
    ⟨t, -, rfl⟩ | ⟨t, -, -, rfl⟩
  · exact hunheard
  · exact hunheard
  · have hpend : (s.settle c.txn out rows).pending =
        Function.update s.pending c.txn out.1.2.pending := by
      unfold settle
      dsimp only
      split <;> rfl
    intro t m key
    rw [hpend]
    by_cases ht : t = c.txn
    · subst ht
      rw [Function.update_self, hst.other m id key hout]
      exact hunheard _ m key
    · rw [Function.update_of_ne ht]
      exact hunheard t m key
  · exact hend t
  · exact hend t

end

end EngineState

end Kds.Exec
