/-
  Kds.Server.ShippedExecutor

  The owner's half of statement shipping (`src/server/shipped_statement_executor.cpp`): the map of
  running statements and the record of answered ones, both keyed by the requester and its session,
  and the owner's ordinary dispatcher, reduced to the line it answers with and to whether the
  statement has left an effect that commits (`HandleInsert` and its siblings, `EndWrite`,
  `WalManager::Commit` and `TransactionManager::Abort`).

  What a statement meets below the dispatcher is a parameter of each execution: which of its rows
  reached the transaction's trail, which compensations, commit steps and syncs refuse.
-/

import Kds.Server.StatementShip

namespace Kds.Server.Shipping

open List
open Function (update update_self update_of_ne)

-- The dispatcher

/-- `wal::DurabilityClass`. -/
inductive DurabilityClass where
  | strict | group | relaxed
  deriving DecidableEq

/-- A row a statement has placed or overwritten: whether its trail entry was reached, and what its
    compensation answers if it is asked to run. -/
structure RowWrite where
  trailed : Bool := true
  compensation : Option Refusal := none
  deriving DecidableEq

/-- A write statement's execution: the line its body answers with, the rows it has written, and
    the answers of the steps that can end it. -/
structure WriteBody where
  line : Text
  rows : List RowWrite
  /-- `AssertionEnforcer::AbortTxn`. -/
  release : Option Refusal := none
  /-- `AssertionEnforcer::CommitTxn`. -/
  settle : Option Refusal := none
  /-- The append of the commit record. -/
  commitRecord : Option Refusal := none
  /-- The strict class's sync. -/
  sync : Option Refusal := none
  deriving DecidableEq

/-- A body has failed when its line says so. -/
def WriteBody.failed (body : WriteBody) : Bool :=
  errPrefix.isPrefixOf body.line

/-- `WalManager::Commit`: what it answers, and whether the commit record is in the log.  A record
    whose sync fails stays staged, and a later sync makes it durable. -/
def walCommit (durability : DurabilityClass) (body : WriteBody) : Option Refusal × Bool :=
  match body.commitRecord with
  | some refusal => (some refusal, false)
  | none =>
    match durability with
    | .strict => (body.sync, true)
    | .group | .relaxed => (none, true)

/-- `TransactionManager::Abort`: the trail newest first, to its end, the first failure answered;
    a row that is not in the trail, or whose compensation fails, stays. -/
def abortTrail (rows : List RowWrite) : Option Refusal × Bool :=
  ((rows.filter (·.trailed)).reverse.findSome? (·.compensation),
    rows.any fun row => !row.trailed || row.compensation.isSome)

/-- `EndWrite` of an autocommit statement: what it answers, and whether an effect commits.  A
    transaction that neither commits nor aborts keeps its rows to itself, but for the rows its
    log knows nothing of. -/
def endWrite (durability : DurabilityClass) (body : WriteBody) : Option Refusal × Bool :=
  if body.failed then
    match body.release with
    | some refusal => (some refusal, body.rows.any fun row => !row.trailed)
    | none => abortTrail body.rows
  else
    match body.settle with
    | some refusal => (some refusal, false)
    | none =>
      let committed := walCommit durability body
      (committed.1, committed.2 && !body.rows.isEmpty)

/-- `DispatchOutcome`, with the session's transaction flag; `kept` says that the statement has an
    effect that commits. -/
structure DispatchOutcome where
  response : Text
  shouldStop : Bool := false
  inExplicitTxn : Bool := false
  kept : Bool := false
  deriving DecidableEq

/-- What the owner runs for a statement: one that writes nothing, a write, one that opens a
    transaction, one that ends the session. -/
inductive Body where
  | read (line : Text)
  | write (body : WriteBody)
  | begins (line : Text)
  | stops (line : Text)
  deriving DecidableEq

/-- `HandleInsert`, `HandleUpdate` and `HandleDelete` after the statement's body: a refused end
    replaces the line of a body that succeeded.  The group class answers once its record is
    durable. -/
def handleWrite (durability : DurabilityClass) (body : WriteBody) : DispatchOutcome :=
  let ended := endWrite durability body
  match ended.1 with
  | some refusal =>
    { response := if body.failed then body.line else errorReply refusal, kept := ended.2 }
  | none => { response := body.line, kept := ended.2 }

/-- `DispatchAsync` on a session of the statement's own. -/
def dispatch (durability : DurabilityClass) : Body → DispatchOutcome
  | .read line => { response := line }
  | .write body => handleWrite durability body
  | .begins line => { response := line, inExplicitTxn := true }
  | .stops line => { response := line, shouldStop := true }

/-- The condition under which a refused write has left nothing: a body that fails has all its rows
    in the trail, and where the trail is unwound every compensation succeeds; a body that succeeds
    and whose commit record is in the log has it synced, if it waits for that. -/
def leavesNothingBehind (durability : DurabilityClass) : Body → Bool
  | .write body =>
    if body.failed then
      body.rows.all fun row =>
        row.trailed && (body.release.isSome || row.compensation.isNone)
    else
      body.rows.isEmpty || body.settle.isSome || body.commitRecord.isSome ||
        durability != .strict || body.sync.isNone
  | _ => true

/-- The answer `Finish` makes of an outcome. -/
def finishAnswer (out : DispatchOutcome) : Option Refusal × Text :=
  if out.shouldStop then
    (some (refused .unsupported
      ("statement shipping: a statement that ends the session may not be shipped; " ++
        "run it on the core the connection is on")), [])
  else if out.inExplicitTxn then
    (some (refused .unsupported
      ("statement shipping: a shipped statement runs in autocommit and may not open a " ++
        "transaction; run it on the core the connection is on")), [])
  else
    match statusFromErrorReply out.response with
    | some refusal => (some refusal, [])
    | none => (none, out.response)

-- The record

/-- `kShippedDedupRetentionNs`. -/
def retentionNs : Nat := 2 * deadlineNs

/-- `kShippedDedupMaxRecords`. -/
def maxRecords : Nat := 4096

/-- `DedupKey`: requester and session id. -/
abbrev DedupKey := Nat × Nat

/-- `StatementShipServer::ShippedStatement`. -/
structure ShippedStatement where
  requester : Nat
  sessionId : Nat
  sequence : Nat
  targetOid : Nat
  role : Role
  text : Text
  deriving DecidableEq

/-- A statement that runs; its reply closure holds the ring's request id. -/
structure Running where
  text : Text
  role : Role
  requestId : Nat
  sequence : Nat
  deriving DecidableEq

/-- The outcome kept for a duplicate to be answered from. -/
structure Answered where
  sequence : Nat
  status : Option Refusal
  text : Text
  atNs : Nat
  deriving DecidableEq

/-- `ShippedStatementExecutor`. -/
structure Executor where
  running : DedupKey → Option Running := fun _ => none
  answered : DedupKey → Option Answered := fun _ => none
  answeredOrder : List DedupKey := []

/-- The loop of `Expire`, oldest record first, up to the first one still young. -/
def expireFrom (now : Nat) : List DedupKey → (DedupKey → Option Answered) →
    (DedupKey → Option Answered) × List DedupKey
  | [], answered => (answered, [])
  | key :: rest, answered =>
    match answered key with
    | some record =>
      if now - record.atNs < retentionNs then (answered, key :: rest)
      else expireFrom now rest (update answered key none)
    | none => (answered, key :: rest)

/-- `ShippedStatementExecutor::Expire`. -/
def Executor.expire (owner : Executor) (now : Nat) : Executor :=
  let kept := expireFrom now owner.answeredOrder owner.answered
  { owner with answered := kept.1, answeredOrder := kept.2 }

/-- `running_.emplace`. -/
def Executor.emplace (owner : Executor) (key : DedupKey) (state : Running) : Executor :=
  { owner with running := update owner.running key (some state) }

/-- `running_.erase`. -/
def Executor.eraseRunning (owner : Executor) (key : DedupKey) : Executor :=
  { owner with running := update owner.running key none }

@[simp] theorem Executor.emplace_running (owner : Executor) (key : DedupKey) (state : Running) :
    (owner.emplace key state).running = update owner.running key (some state) := rfl

@[simp] theorem Executor.emplace_answered (owner : Executor) (key : DedupKey) (state : Running) :
    (owner.emplace key state).answered = owner.answered := rfl

@[simp] theorem Executor.eraseRunning_running (owner : Executor) (key : DedupKey) :
    (owner.eraseRunning key).running = update owner.running key none := rfl

@[simp] theorem Executor.eraseRunning_answered (owner : Executor) (key : DedupKey) :
    (owner.eraseRunning key).answered = owner.answered := rfl

/-- The answer to a statement of a session that is running another here. -/
def stillRunning (coreId sequence : Nat) : Refusal :=
  refused .unknownOutcome
    ("statement shipping: core " ++ toString coreId ++
      " is still running a statement for this session, so whether sequence " ++
      toString sequence ++ " ran cannot be established from here")

/-- The answer to a statement of a session that has been answered a later one. -/
def superseded (coreId held sequence : Nat) : Refusal :=
  refused .unknownOutcome
    ("statement shipping: core " ++ toString coreId ++ " has answered sequence " ++
      toString held ++ " for this session and no longer holds the outcome of sequence " ++
      toString sequence ++ "; whether it ran cannot be established from here")

/-- `ShippedStatementExecutor::Execute`: an answer given without running anything, or `none` and
    the statement is running. -/
def Executor.execute (owner : Executor) (coreId now : Nat) (statement : ShippedStatement)
    (requestId : Nat) : Executor × Option (Option Refusal × Text) :=
  let owner := owner.expire now
  let key := (statement.requester, statement.sessionId)
  let start : Executor × Option (Option Refusal × Text) :=
    match owner.running key with
    | some _ => (owner, some (some (stillRunning coreId statement.sequence), []))
    | none =>
      (owner.emplace key
        { text := statement.text, role := statement.role, requestId := requestId
          sequence := statement.sequence }, none)
  match owner.answered key with
  | none => start
  | some record =>
    if record.sequence = statement.sequence then (owner, some (record.status, record.text))
    else if statement.sequence < record.sequence then
      (owner, some (some (superseded coreId record.sequence statement.sequence), []))
    else start

/-- The eviction loop of `Remember`. -/
def evict : List DedupKey → (DedupKey → Option Answered) →
    (DedupKey → Option Answered) × List DedupKey
  | [], answered => (answered, [])
  | key :: rest, answered =>
    if maxRecords < (key :: rest).length then evict rest (update answered key none)
    else (answered, key :: rest)

/-- The record's order with `key` at the back: a new node, or the key's own one moved. -/
def touch (owner : Executor) (key : DedupKey) : List DedupKey :=
  if (owner.answered key).isSome then owner.answeredOrder.erase key ++ [key]
  else owner.answeredOrder ++ [key]

/-- `ShippedStatementExecutor::Remember`. -/
def Executor.remember (owner : Executor) (now : Nat) (key : DedupKey) (sequence : Nat)
    (answer : Option Refusal × Text) : Executor :=
  let record : Answered :=
    { sequence := sequence, status := answer.1, text := answer.2, atNs := now }
  let kept := evict (touch owner key) (update owner.answered key (some record))
  { owner with answered := kept.1, answeredOrder := kept.2 }

/-- `ShippedStatementExecutor::Finish`, the dispatcher having answered with `out`. -/
def Executor.finish (owner : Executor) (now : Nat) (key : DedupKey) (out : DispatchOutcome) :
    Option (Executor × Running × (Option Refusal × Text)) :=
  match owner.running key with
  | none => none
  | some state =>
    let answer := finishAnswer out
    some ((owner.eraseRunning key).remember now key state.sequence answer, state, answer)

/-- A finish that would push an older record out before its time. -/
def Executor.overflowsOn (owner : Executor) (key : DedupKey) : Bool :=
  (owner.answered key).isNone && decide (maxRecords ≤ owner.answeredOrder.length)

-- What a refused statement leaves

theorem statusFromErrorReply_eq_none {line : Text} :
    statusFromErrorReply line = none ↔ errPrefix.isPrefixOf line = false := by
  rw [statusFromErrorReply]
  split
  · next herr =>
    refine iff_of_false ?_ fun h => Bool.noConfusion (h.symm.trans herr)
    dsimp only
    split <;> exact fun h => Option.noConfusion rfl (heq_of_eq h)
  · next hline => exact iff_of_true rfl (Bool.eq_false_iff.mpr hline)

theorem finishAnswer_ok {out : DispatchOutcome} {text : Text}
    (h : finishAnswer out = (none, text)) :
    text = out.response ∧ errPrefix.isPrefixOf out.response = false := by
  rw [finishAnswer] at h
  by_cases hstop : out.shouldStop = true
  · rw [if_pos hstop] at h
    exact absurd (congrArg Prod.fst h) (by simp)
  · rw [if_neg hstop] at h
    by_cases htxn : out.inExplicitTxn = true
    · rw [if_pos htxn] at h
      exact absurd (congrArg Prod.fst h) (by simp)
    · rw [if_neg htxn] at h
      cases hline : statusFromErrorReply out.response with
      | some refusal =>
        rw [hline] at h
        exact absurd (congrArg Prod.fst h) (by simp)
      | none =>
        rw [hline] at h
        exact ⟨(congrArg Prod.snd h).symm, statusFromErrorReply_eq_none.mp hline⟩

variable {body : WriteBody}

theorem abortTrail_kept (hrelease : body.release = none)
    (h : (body.rows.all fun row => row.trailed &&
      (body.release.isSome || row.compensation.isNone)) = true) :
    (abortTrail body.rows).2 = false := by
  rw [abortTrail]
  simp only [any_eq_false]
  intro row hrow
  have hrow' := all_eq_true.mp h row hrow
  simp only [hrelease, Option.isSome_none, Bool.false_or, Bool.and_eq_true,
    Option.isNone_iff_eq_none] at hrow'
  simp [hrow'.1, hrow'.2]

variable {durability : DurabilityClass}

theorem endWrite_kept (hcond : leavesNothingBehind durability (.write body) = true)
    (h : body.failed = true ∨ (endWrite durability body).1.isSome = true) :
    (endWrite durability body).2 = false := by
  rw [leavesNothingBehind] at hcond
  by_cases hfailed : body.failed = true
  · rw [if_pos hfailed] at hcond
    rw [endWrite, if_pos hfailed]
    cases hrelease : body.release with
    | none => exact abortTrail_kept hrelease hcond
    | some refusal =>
      show (body.rows.any fun row => !row.trailed) = false
      rw [any_eq_false]
      intro row hrow
      have htrailed := all_eq_true.mp hcond row hrow
      simp only [Bool.and_eq_true] at htrailed
      simp [htrailed.1]
  · have hend := h.resolve_left hfailed
    rw [if_neg hfailed] at hcond
    rw [endWrite, if_neg hfailed] at hend ⊢
    cases hsettle : body.settle with
    | some refusal => rfl
    | none =>
      simp only [hsettle] at hend hcond
      show ((walCommit durability body).2 && !body.rows.isEmpty) = false
      cases hrecord : body.commitRecord with
      | some refusal => simp [walCommit, hrecord]
      | none =>
        simp only [walCommit, hrecord] at hend hcond ⊢
        cases durability with
        | strict =>
          have hsync : body.sync.isNone = false := by
            rw [Option.isNone_eq_false_iff]
            exact hend
          simpa [hsync] using hcond
        | group => simp at hend
        | relaxed => simp at hend

theorem dispatch_kept {body : Body} {refusal : Refusal}
    (hcond : leavesNothingBehind durability body = true)
    (h : (finishAnswer (dispatch durability body)).1 = some refusal) :
    (dispatch durability body).kept = false := by
  cases body with
  | read line => rfl
  | begins line => rfl
  | stops line => rfl
  | write body =>
    show (handleWrite durability body).kept = false
    rw [handleWrite]
    cases hend : (endWrite durability body).1 with
    | some ended => exact endWrite_kept hcond (.inr (by rw [hend]; rfl))
    | none =>
      apply endWrite_kept hcond
      refine .inl ?_
      by_contra hfailed
      have hline : statusFromErrorReply body.line = none :=
        statusFromErrorReply_eq_none.mpr (Bool.eq_false_iff.mpr hfailed)
      simp [dispatch, handleWrite, hend, finishAnswer, hline] at h

-- What each entry point does

theorem expireFrom_apply (now : Nat) (order : List DedupKey) (answered : DedupKey → Option Answered)
    (key : DedupKey) :
    (expireFrom now order answered).1 key = answered key ∨
      ((expireFrom now order answered).1 key = none ∧
        ∃ record, answered key = some record ∧ retentionNs ≤ now - record.atNs) := by
  induction order generalizing answered with
  | nil => exact .inl rfl
  | cons oldest rest ih =>
    rw [expireFrom]
    cases hfront : answered oldest with
    | none => exact .inl rfl
    | some record =>
      show _ ∨ (_ ∧ _)
      dsimp only
      split
      · exact .inl rfl
      · next hold =>
        by_cases hkey : key = oldest
        · subst hkey
          refine .inr ⟨?_, record, hfront, by omega⟩
          rcases ih (update answered key none) with hsame | ⟨hnone, -⟩
          · rw [hsame, update_self]
          · exact hnone
        · have hrest := ih (update answered oldest none)
          rwa [update_of_ne hkey] at hrest

variable {owner : Executor}

variable {now : Nat} {key : DedupKey} {record : Answered}

theorem Executor.expire_answered (h : (owner.expire now).answered key = some record) :
    owner.answered key = some record := by
  rcases expireFrom_apply now owner.answeredOrder owner.answered key with hsame | ⟨hnone, -⟩
  · exact hsame.symm.trans h
  · exact absurd (hnone.symm.trans h) (by simp)

theorem Executor.expire_young
    (h : owner.answered key = some record) (hyoung : now < record.atNs + retentionNs) :
    (owner.expire now).answered key = some record := by
  rcases expireFrom_apply now owner.answeredOrder owner.answered key with hsame | ⟨-, old, hold,
    hage⟩
  · exact hsame.trans h
  · obtain rfl : old = record := Option.some.inj (hold.symm.trans h)
    have hpos : 0 < retentionNs := by decide
    omega

@[simp] theorem Executor.expire_running (owner : Executor) (now : Nat) :
    (owner.expire now).running = owner.running := rfl

/-- **Inversion of `Execute`**: answered from the record, answered that nothing can be known, or
    started, and then nothing of the session runs and the record holds an earlier statement. -/
theorem Executor.execute_cases (owner : Executor) (coreId now : Nat) (st : ShippedStatement)
    (requestId : Nat) :
    (∃ record, (owner.expire now).answered (st.requester, st.sessionId) = some record ∧
      record.sequence = st.sequence ∧
      owner.execute coreId now st requestId =
        (owner.expire now, some (record.status, record.text))) ∨
    (∃ refusal : Refusal, refusal.code = .unknownOutcome ∧
      owner.execute coreId now st requestId = (owner.expire now, some (some refusal, []))) ∨
    (owner.running (st.requester, st.sessionId) = none ∧
      (∀ record, (owner.expire now).answered (st.requester, st.sessionId) = some record →
        record.sequence < st.sequence) ∧
      owner.execute coreId now st requestId =
        ((owner.expire now).emplace (st.requester, st.sessionId)
          { text := st.text, role := st.role, requestId := requestId, sequence := st.sequence },
          none)) := by
  have hstart : owner.running (st.requester, st.sessionId) = none ∨
      ∃ state, owner.running (st.requester, st.sessionId) = some state := by
    cases owner.running (st.requester, st.sessionId) with
    | none => exact .inl rfl
    | some state => exact .inr ⟨state, rfl⟩
  cases hrecord : (owner.expire now).answered (st.requester, st.sessionId) with
  | none =>
    rcases hstart with hfree | ⟨state, hbusy⟩
    · refine .inr (.inr ⟨hfree, ?_, ?_⟩)
      · intro record h
        cases h
      · simp [Executor.execute, hrecord, hfree]
    · refine .inr (.inl ⟨stillRunning coreId st.sequence, rfl, ?_⟩)
      simp only [Executor.execute, hrecord, hbusy, Executor.expire_running]
  | some record =>
    by_cases hsame : record.sequence = st.sequence
    · refine .inl ⟨record, rfl, hsame, ?_⟩
      simp only [Executor.execute, hrecord, hsame, if_true]
    · by_cases hlater : st.sequence < record.sequence
      · refine .inr (.inl ⟨superseded coreId record.sequence st.sequence, rfl, ?_⟩)
        simp only [Executor.execute, hrecord, hsame, hlater, if_true, if_false]
      · rcases hstart with hfree | ⟨state, hbusy⟩
        · refine .inr (.inr ⟨hfree, ?_, ?_⟩)
          · intro other h
            obtain rfl : record = other := Option.some.inj h
            omega
          · simp [Executor.execute, hrecord, hsame, hlater, hfree]
        · refine .inr (.inl ⟨stillRunning coreId st.sequence, rfl, ?_⟩)
          simp only [Executor.execute, hrecord, hsame, hlater, hbusy, if_false,
            Executor.expire_running]

-- The order list

/-- The order list holds each record's key exactly once, and not more than the bound of them. -/
structure Executor.Listed (owner : Executor) : Prop where
  nodup : owner.answeredOrder.Nodup
  mem_iff : ∀ key, key ∈ owner.answeredOrder ↔ (owner.answered key).isSome = true
  bounded : owner.answeredOrder.length ≤ maxRecords

theorem Executor.Listed.init : Executor.Listed {} where
  nodup := nodup_nil
  mem_iff key := by simp
  bounded := Nat.zero_le _

theorem Executor.Listed.emplace (h : owner.Listed) (key : DedupKey)
    (state : Running) : (owner.emplace key state).Listed :=
  ⟨h.nodup, h.mem_iff, h.bounded⟩

theorem Executor.Listed.eraseRunning (h : owner.Listed) (key : DedupKey) :
    (owner.eraseRunning key).Listed :=
  ⟨h.nodup, h.mem_iff, h.bounded⟩

theorem mem_iff_pop {key₀ : DedupKey} {rest : List DedupKey}
    {answered : DedupKey → Option Answered} (hnodup : (key₀ :: rest).Nodup)
    (h : ∀ key, key ∈ key₀ :: rest ↔ (answered key).isSome = true) (key : DedupKey) :
    key ∈ rest ↔ (update answered key₀ none key).isSome = true := by
  by_cases hkey : key = key₀
  · subst hkey
    simp [(nodup_cons.mp hnodup).1]
  · rw [update_of_ne hkey, ← h key, mem_cons]
    simp [hkey]

theorem expireFrom_listed (now : Nat) (order : List DedupKey)
    (answered : DedupKey → Option Answered) (hnodup : order.Nodup)
    (h : ∀ key, key ∈ order ↔ (answered key).isSome = true) :
    (expireFrom now order answered).2.Nodup ∧
      (∀ key, key ∈ (expireFrom now order answered).2 ↔
        ((expireFrom now order answered).1 key).isSome = true) ∧
      (expireFrom now order answered).2.length ≤ order.length := by
  induction order generalizing answered with
  | nil => exact ⟨hnodup, h, Nat.le_refl _⟩
  | cons oldest rest ih =>
    rw [expireFrom]
    cases hfront : answered oldest with
    | none => exact ⟨hnodup, h, Nat.le_refl _⟩
    | some record =>
      dsimp only
      split
      · exact ⟨hnodup, h, Nat.le_refl _⟩
      · obtain ⟨hnodup', hmem', hlen⟩ :=
          ih (update answered oldest none) (nodup_cons.mp hnodup).2
              (mem_iff_pop hnodup h)
        exact ⟨hnodup', hmem', Nat.le_succ_of_le hlen⟩

theorem Executor.Listed.expire (h : owner.Listed) (now : Nat) : (owner.expire now).Listed := by
  obtain ⟨hnodup, hmem, hlen⟩ :=
    expireFrom_listed now owner.answeredOrder owner.answered h.nodup h.mem_iff
  exact ⟨hnodup, hmem, Nat.le_trans hlen h.bounded⟩

theorem evict_of_length_le {order : List DedupKey} (answered : DedupKey → Option Answered)
    (h : order.length ≤ maxRecords) : evict order answered = (answered, order) := by
  cases order with
  | nil => rfl
  | cons key rest => rw [evict, if_neg (by omega)]

theorem touch_length (h : owner.Listed) (hroom : owner.overflowsOn key = false) :
    (touch owner key).length ≤ maxRecords := by
  have hbound := h.bounded
  rw [touch]
  split
  · next hsome =>
    have hmem := (h.mem_iff key).mpr hsome
    have hpos := length_pos_of_mem hmem
    rw [length_append, length_erase_of_mem hmem, length_singleton]
    omega
  · next hnone =>
    have hlt : ¬ maxRecords ≤ owner.answeredOrder.length := by
      intro hfull
      simp [Executor.overflowsOn, Option.not_isSome_iff_eq_none.mp hnone, hfull] at hroom
    rw [length_append, length_singleton]
    omega

theorem Executor.remember_eq (h : owner.Listed) (hroom : owner.overflowsOn key = false)
    (now sequence : Nat) (answer : Option Refusal × Text) :
    owner.remember now key sequence answer =
      { owner with
        answered := update owner.answered key
          (some { sequence := sequence, status := answer.1, text := answer.2, atNs := now })
        answeredOrder := touch owner key } := by
  rw [Executor.remember, evict_of_length_le _ (touch_length h hroom)]

theorem Executor.Listed.remember (h : owner.Listed) (hroom : owner.overflowsOn key = false)
    (now sequence : Nat) (answer : Option Refusal × Text) :
    (owner.remember now key sequence answer).Listed := by
  rw [Executor.remember_eq h hroom]
  refine ⟨?_, fun other => ?_, touch_length h hroom⟩
  · show (touch owner key).Nodup
    rw [touch]
    split
    · refine (nodup_append.mpr ⟨h.nodup.erase _, by simp, ?_⟩)
      intro a ha b hb hab
      rw [mem_singleton.mp hb] at hab
      exact (List.Nodup.mem_erase_iff h.nodup).mp ha |>.1 hab
    · next hnone =>
      refine (nodup_append.mpr ⟨h.nodup, by simp, ?_⟩)
      intro a ha b hb hab
      rw [mem_singleton.mp hb] at hab
      exact hnone ((h.mem_iff key).mp (hab ▸ ha))
  · show other ∈ touch owner key ↔ (update owner.answered key _ other).isSome = true
    by_cases hkey : other = key
    · subst hkey
      rw [update_self, touch]
      split <;> simp
    · rw [update_of_ne hkey, ← h.mem_iff other, touch]
      split
      · rw [mem_append, List.Nodup.mem_erase_iff h.nodup]
        simp [hkey]
      · simp [hkey]

end Kds.Server.Shipping
