/-
  Kds.Server.ShipRuns

  Shipped statements over whole runs: any number of cores, each owner and arrival core at once,
  messages that are delayed, reordered and delivered again, executions that park, deadlines that
  fire and records that expire.

  The record answers a duplicate and the map of running statements stops it, so a statement runs
  once; replies carry the identity they answer, so an answer is its own statement's.  A refusal,
  however, does not always mean that nothing has happened: `shipped_statements_truthful` states
  under which condition on the executions it does.
-/

import Kds.Lib.Run
import Kds.Server.ShippedExecutor
import Mathlib.Data.List.Nodup

namespace Kds.Server.Shipping

open Lib List
open Function (update update_self update_of_ne)

-- The system

/-- What names a statement: the core it was shipped from, the session there, its sequence. -/
structure Identity where
  requester : Nat
  sessionId : Nat
  sequence : Nat
  deriving DecidableEq

def Identity.key (identity : Identity) : DedupKey :=
  (identity.requester, identity.sessionId)

/-- A statement as the arrival core's dispatcher routes it. -/
structure Statement where
  ownerCore : Nat
  targetOid : Nat
  relation : String
  text : Text
  deriving DecidableEq

/-- An instance: its cores, the class its commits use, the cores with an executor installed, and
    the statement each identity stands for. -/
structure Instance where
  coreCount : Nat
  durability : DurabilityClass
  installed : Nat → Bool
  statementOf : Identity → Statement

structure RequestMessage where
  srcCore : Nat
  ownerCore : Nat
  requestId : Nat
  payload : RequestPayload
  deriving DecidableEq

structure ReplyMessage where
  dstCore : Nat
  requestId : Nat
  payload : ReplyPayload
  deriving DecidableEq

def RequestMessage.identity (m : RequestMessage) : Identity :=
  ⟨m.srcCore, m.payload.sessionId, m.payload.sequence⟩

def ReplyMessage.identity (m : ReplyMessage) : Identity :=
  ⟨m.dstCore, m.payload.sessionId, m.payload.sequence⟩

/-- History: an execution that has ended. -/
structure Finished where
  identity : Identity
  text : Text
  out : DispatchOutcome
  atNs : Nat
  deriving DecidableEq

/-- History: what a parked statement's client was told. -/
structure Told where
  identity : Identity
  status : Option Refusal
  line : Text
  deriving DecidableEq

/-- All cores of an instance, the messages sent so far, and the history.  A message sent may arrive
    at any later time, in any order and any number of times. -/
structure ShipState where
  now : Nat := 0
  owners : Nat → Executor := fun _ => {}
  waiting : Nat → Waiting := fun _ _ => none
  requests : List RequestMessage := []
  replies : List ReplyMessage := []
  started : List Identity := []
  finished : List Finished := []
  told : List Told := []

inductive ShipAction where
  | tick (ns : Nat)
  | ship (identity : Identity) (requestId : Nat) (role : Role)
  | deliverRequest (m : RequestMessage)
  | finish (ownerCore : Nat) (key : DedupKey) (body : Body)
  | deliverReply (m : ReplyMessage)
  | wake (core requestId : Nat)

namespace ShipState

variable (cfg : Instance)

def setOwner (s : ShipState) (core : Nat) (owner : Executor) : ShipState :=
  { s with owners := update s.owners core owner }

def setWaiting (s : ShipState) (core : Nat) (waiting : Waiting) : ShipState :=
  { s with waiting := update s.waiting core waiting }

/-- `StatementShipServer::Reply`. -/
def sendReply (s : ShipState) (identity : Identity) (requestId : Nat)
    (answer : Option Refusal × Text) : ShipState :=
  match reply identity.sessionId identity.sequence answer.1 answer.2 with
  | some payload =>
    { s with replies := ⟨identity.requester, requestId, payload⟩ :: s.replies }
  | none => s

/-- `StatementShipServer::OnRequest`. -/
def onRequest (s : ShipState) (m : RequestMessage) : ShipState :=
  match statementTextOf m.payload with
  | .error refusal => s.sendReply m.identity m.requestId (some refusal, [])
  | .ok text =>
    match roleOf m.payload with
    | .error refusal => s.sendReply m.identity m.requestId (some refusal, [])
    | .ok role =>
      if !cfg.installed m.ownerCore then
        s.sendReply m.identity m.requestId
          (some (refused .unsupported
            ("statement shipping: this core has no executor installed; " ++
              "the wire is built and the owner-side execution is not (SS3)")), [])
      else
        let statement : ShippedStatement :=
          { requester := m.srcCore, sessionId := m.payload.sessionId
            sequence := m.payload.sequence, targetOid := m.payload.targetOid
            role := role, text := text }
        let out := (s.owners m.ownerCore).execute m.ownerCore s.now statement m.requestId
        let s := s.setOwner m.ownerCore out.1
        match out.2 with
        | some answer => s.sendReply m.identity m.requestId answer
        | none => { s with started := m.identity :: s.started }

/-- `StatementShipClient::Ship` on the requester's core; a refusal changes nothing. -/
def shipStatement (s : ShipState) (identity : Identity) (requestId : Nat) (role : Role) :
    ShipState :=
  let statement := cfg.statementOf identity
  match ship cfg.coreCount s.now (s.waiting identity.requester) statement.ownerCore requestId
      identity.sessionId identity.sequence statement.targetOid role statement.text with
  | .error _ => s
  | .ok (waiting, payload) =>
    { s.setWaiting identity.requester waiting with
      requests := ⟨identity.requester, statement.ownerCore, requestId, payload⟩ :: s.requests }

/-- The completion of a statement's task on its owner: `Finish` and its reply. -/
def finishStatement (s : ShipState) (ownerCore : Nat) (key : DedupKey) (body : Body) :
    Option ShipState :=
  let out := dispatch cfg.durability body
  match (s.owners ownerCore).finish s.now key out with
  | none => none
  | some (owner, state, answer) =>
    let identity : Identity := ⟨key.1, key.2, state.sequence⟩
    some (({ s.setOwner ownerCore owner with
      finished := ⟨identity, state.text, out, s.now⟩ :: s.finished }).sendReply identity
        state.requestId answer)

/-- A parked statement whose wait has settled. -/
def wakeStatement (s : ShipState) (core requestId : Nat) : Option ShipState :=
  match s.waiting core requestId with
  | none => none
  | some waiter =>
    if settled s.now (s.waiting core) requestId then
      let identity : Identity := ⟨core, waiter.sessionId, waiter.sequence⟩
      let statement := cfg.statementOf identity
      let out := finishShipped (s.waiting core) requestId statement.ownerCore statement.relation
      some { s.setWaiting core out.2 with told := ⟨identity, out.1.1, out.1.2⟩ :: s.told }
    else none

end ShipState

/-- One step; `none` where the action cannot be taken. -/
def shipStep (cfg : Instance) (s : ShipState) : ShipAction → Option ShipState
  | .tick ns => some { s with now := s.now + ns }
  | .ship identity requestId role => some (s.shipStatement cfg identity requestId role)
  | .deliverRequest m => if m ∈ s.requests then some (s.onRequest cfg m) else none
  | .finish ownerCore key body => s.finishStatement cfg ownerCore key body
  | .deliverReply m =>
    if m ∈ s.replies then
      some (s.setWaiting m.dstCore (receive (s.waiting m.dstCore) m.requestId m.payload))
    else none
  | .wake core requestId => s.wakeStatement cfg core requestId

-- The property

/-- A request arrives before the record of its statement expires, and no record is pushed out
    before its time. -/
def InTime (s : ShipState) : ShipAction → Prop
  | .deliverRequest m =>
    ∀ f ∈ s.finished, f.identity = m.identity → s.now < f.atNs + retentionNs
  | .finish ownerCore key _ => (s.owners ownerCore).overflowsOn key = false
  | _ => True

/-- Every execution is one that leaves nothing behind where it is refused. -/
def LeavesNothing (cfg : Instance) : ShipAction → Prop
  | .finish _ _ body => leavesNothingBehind cfg.durability body = true
  | _ => True

/-- Each statement is executed at most once. -/
def AtMostOnce (s : ShipState) : Prop := s.started.Nodup

/-- Who is told OK is handed the line that the execution of this very statement produced. -/
def AnsweredByItsOwn (cfg : Instance) (s : ShipState) : Prop :=
  ∀ told ∈ s.told, told.status = none →
    ∃ f ∈ s.finished, f.identity = told.identity ∧
      f.text = (cfg.statementOf told.identity).text ∧ told.line = f.out.response ∧
      errPrefix.isPrefixOf f.out.response = false

/-- Who is told a refusal other than an unknown outcome belongs to a statement without an effect
    that commits. -/
def RefusedWithoutEffect (s : ShipState) : Prop :=
  ∀ told ∈ s.told, ∀ refusal, told.status = some refusal → refusal.code ≠ .unknownOutcome →
    ∀ f ∈ s.finished, f.identity = told.identity → f.out.kept = false

-- The invariant

/-- Where an answer for a statement can come from: it is an execution's own, it is unknown, or the
    owner has no executor at all. -/
def Sourced (cfg : Instance) (finished : List Finished) (identity : Identity)
    (status : Option Refusal) (text : Text) : Prop :=
  match status with
  | none => ∃ f ∈ finished, f.identity = identity ∧ finishAnswer f.out = (none, text)
  | some refusal =>
    refusal.code = .unknownOutcome ∨
    cfg.installed (cfg.statementOf identity).ownerCore = false ∨
    ∃ f ∈ finished, f.identity = identity ∧ (finishAnswer f.out).1.isSome = true

/-- What a payload says once it is read. -/
def ReplyPayload.answer (payload : ReplyPayload) : Option Refusal × Text :=
  let text := payload.text.take payload.textLen
  (fromWire payload.statusCode text, text)

/-- **The run invariant.** -/
structure ShipInv (cfg : Instance) (s : ShipState) : Prop where
  requests : ∀ m ∈ s.requests,
    m.ownerCore = (cfg.statementOf m.identity).ownerCore ∧
      statementTextOf m.payload = .ok (cfg.statementOf m.identity).text ∧
      ∃ role, roleOf m.payload = .ok role
  running : ∀ core key state, (s.owners core).running key = some state →
    ⟨key.1, key.2, state.sequence⟩ ∈ s.started ∧
      (cfg.statementOf ⟨key.1, key.2, state.sequence⟩).ownerCore = core ∧
      state.text = (cfg.statementOf ⟨key.1, key.2, state.sequence⟩).text ∧
      ∀ f ∈ s.finished, f.identity ≠ ⟨key.1, key.2, state.sequence⟩
  started : ∀ identity ∈ s.started,
    cfg.installed (cfg.statementOf identity).ownerCore = true ∧
      ((∃ state, (s.owners (cfg.statementOf identity).ownerCore).running identity.key = some state ∧
          state.sequence = identity.sequence) ∨
        ∃ f ∈ s.finished, f.identity = identity)
  once : s.started.Nodup
  finished : ∀ f ∈ s.finished, f.identity ∈ s.started ∧
    f.text = (cfg.statementOf f.identity).text ∧ f.atNs ≤ s.now
  finishedOnce : (s.finished.map (·.identity)).Nodup
  remembered : ∀ f ∈ s.finished, s.now < f.atNs + retentionNs →
    ∃ record, (s.owners (cfg.statementOf f.identity).ownerCore).answered f.identity.key =
        some record ∧ f.identity.sequence ≤ record.sequence ∧ f.atNs ≤ record.atNs
  later : ∀ f ∈ s.finished, s.now < f.atNs + retentionNs →
    ∀ state, (s.owners (cfg.statementOf f.identity).ownerCore).running f.identity.key =
      some state → f.identity.sequence < state.sequence
  answered : ∀ core key record, (s.owners core).answered key = some record →
    ∃ f ∈ s.finished, f.identity = ⟨key.1, key.2, record.sequence⟩ ∧
      finishAnswer f.out = (record.status, record.text)
  listed : ∀ core, (s.owners core).Listed
  replies : ∀ m ∈ s.replies, m.payload.textLen ≤ replyTextMax ∧
    Sourced cfg s.finished m.identity m.payload.answer.1 m.payload.answer.2
  waiting : ∀ core requestId waiter, s.waiting core requestId = some waiter →
    waiter.arrived = true →
      Sourced cfg s.finished ⟨core, waiter.sessionId, waiter.sequence⟩ waiter.status waiter.text
  told : ∀ told ∈ s.told, Sourced cfg s.finished told.identity told.status told.line

variable {cfg : Instance} {s : ShipState} {fin : List Finished} {status : Option Refusal}
    {text : Text} {requestId core : Nat} {s' : ShipState} {a : ShipAction}

theorem ShipInv.init : ShipInv cfg {} where
  requests m hm := absurd hm (not_mem_nil)
  running core key state h := by cases h
  started identity h := absurd h (not_mem_nil)
  once := nodup_nil
  finished f hf := absurd hf (not_mem_nil)
  finishedOnce := nodup_nil
  remembered f hf := absurd hf (not_mem_nil)
  later f hf := absurd hf (not_mem_nil)
  answered core key record h := by cases h
  listed _ := Executor.Listed.init
  replies m hm := absurd hm (not_mem_nil)
  waiting core requestId waiter h := by cases h
  told t ht := absurd ht (not_mem_nil)

-- Replies

theorem Sourced.mono {fin' : List Finished} (hsub : ∀ f ∈ fin, f ∈ fin') {identity : Identity}
    (h : Sourced cfg fin identity status text) : Sourced cfg fin' identity status text := by
  cases status with
  | none =>
    obtain ⟨f, hf, hrest⟩ := h
    exact ⟨f, hsub f hf, hrest⟩
  | some refusal =>
    rcases h with hunknown | hnone | ⟨f, hf, hrest⟩
    · exact .inl hunknown
    · exact .inr (.inl hnone)
    · exact .inr (.inr ⟨f, hsub f hf, hrest⟩)

theorem Sourced.of_code {identity : Identity} {refusal refusal' : Refusal} (text text' : Text)
    (hcode : refusal'.code = refusal.code) (h : Sourced cfg fin identity (some refusal) text) :
    Sourced cfg fin identity (some refusal') text' :=
  h.imp_left hcode.trans

theorem Sourced.of_answer (f : Finished) (hf : f ∈ fin) (h : finishAnswer f.out = (status, text)) :
    Sourced cfg fin f.identity status text := by
  cases status with
  | none => exact ⟨f, hf, rfl, h⟩
  | some refusal => exact .inr (.inr ⟨f, hf, rfl, by rw [h]; rfl⟩)

/-- **Encoding an answer keeps what it is**: an answer crosses whole or becomes an unknown
    outcome, a refusal keeps its code. -/
theorem Sourced.reply {identity : Identity} (h : Sourced cfg fin identity status text) :
    ∃ payload, reply identity.sessionId identity.sequence status text = some payload ∧
      payload.sessionId = identity.sessionId ∧ payload.sequence = identity.sequence ∧
      payload.textLen ≤ replyTextMax ∧
      Sourced cfg fin identity payload.answer.1 payload.answer.2 := by
  have hrefusal : ∀ refusal answerText, answerOf status text = (some refusal, answerText) →
      Sourced cfg fin identity (some refusal) answerText →
      ∃ payload, Shipping.reply identity.sessionId identity.sequence status text = some payload ∧
        payload.sessionId = identity.sessionId ∧ payload.sequence = identity.sequence ∧
        payload.textLen ≤ replyTextMax ∧
        Sourced cfg fin identity payload.answer.1 payload.answer.2 := by
    intro refusal answerText hanswer hsourced
    refine ⟨_, reply_of_refusal _ _ hanswer, rfl, rfl,
      (utf8PrefixLen_le refusal.message replyTextMax).1, ?_⟩
    rw [ReplyPayload.answer]
    simp only [fromWire_wireCode, Option.map_some]
    exact Sourced.of_code answerText _ rfl hsourced
  cases status with
  | some refusal => exact hrefusal refusal text rfl h
  | none =>
    by_cases hlong : replyTextMax < text.length
    · exact hrefusal (overLongReply text.length) [] (if_pos hlong) (.inl rfl)
    · refine ⟨_, reply_of_answer _ _ hlong, rfl, rfl, Nat.le_of_not_lt hlong, ?_⟩
      rw [ReplyPayload.answer]
      simp only [fromWire_wireCode, Option.map_none, take_padTo]
      exact h

theorem ShipInv.sendReply (h : ShipInv cfg s) {identity : Identity} {answer : Option Refusal × Text}
    (hsource : Sourced cfg s.finished identity answer.1 answer.2) :
    ShipInv cfg (s.sendReply identity requestId answer) := by
  obtain ⟨payload, hreply, hsession, hsequence, hlen, hpayload⟩ := hsource.reply
  rw [ShipState.sendReply, hreply]
  refine { h with replies := ?_ }
  intro m hm
  rcases mem_cons.mp hm with rfl | hold
  · have hid : ReplyMessage.identity ⟨identity.requester, requestId, payload⟩ = identity := by
      rw [ReplyMessage.identity, hsession, hsequence]
    rw [hid]
    exact ⟨hlen, hpayload⟩
  · exact h.replies m hold

-- The owner's steps

@[simp] theorem setOwner_owners_self (core : Nat) (owner : Executor) :
    (s.setOwner core owner).owners core = owner :=
  update_self ..

theorem setOwner_owners_of_ne {other : Nat} (h : other ≠ core) (owner : Executor) :
    (s.setOwner core owner).owners other = s.owners other :=
  update_of_ne h ..

theorem ShipInv.setOwner_expired (h : ShipInv cfg s) (core : Nat) :
    ShipInv cfg (s.setOwner core ((s.owners core).expire s.now)) := by
  have hrunning : ∀ other,
      ((s.setOwner core ((s.owners core).expire s.now)).owners other).running =
        (s.owners other).running := by
    intro other
    by_cases hcore : other = core
    · subst hcore
      rw [setOwner_owners_self, Executor.expire_running]
    · rw [setOwner_owners_of_ne hcore]
  refine { h with
    running := ?_, started := ?_, remembered := ?_, later := ?_, answered := ?_, listed := ?_ }
  · intro other key state hstate
    rw [hrunning] at hstate
    exact h.running other key state hstate
  · intro identity hid
    rw [hrunning]
    exact h.started identity hid
  · intro f hf hyoung
    obtain ⟨record, hrecord, hseq, hat⟩ := h.remembered f hf hyoung
    refine ⟨record, ?_, hseq, hat⟩
    by_cases hcore : (cfg.statementOf f.identity).ownerCore = core
    · rw [hcore] at hrecord ⊢
      rw [setOwner_owners_self]
      exact Executor.expire_young hrecord (Nat.lt_of_lt_of_le hyoung (by omega))
    · rw [setOwner_owners_of_ne hcore]
      exact hrecord
  · intro f hf hyoung
    rw [hrunning]
    exact h.later f hf hyoung
  · intro other key record hrecord
    by_cases hcore : other = core
    · subst hcore
      rw [setOwner_owners_self] at hrecord
      exact h.answered other key record (Executor.expire_answered hrecord)
    · rw [setOwner_owners_of_ne hcore] at hrecord
      exact h.answered other key record hrecord
  · intro other
    by_cases hcore : other = core
    · subst hcore
      rw [setOwner_owners_self]
      exact (h.listed other).expire s.now
    · rw [setOwner_owners_of_ne hcore]
      exact h.listed other

/-- A statement starts: nothing of its session runs, the record holds at most an earlier one, and
    no execution of it has ended longer ago than the record is kept. -/
theorem ShipInv.start (h : ShipInv cfg s) {identity : Identity} (state : Running)
    (howner : (cfg.statementOf identity).ownerCore = core) (hinstalled : cfg.installed core = true)
    (hsequence : state.sequence = identity.sequence)
    (htext : state.text = (cfg.statementOf identity).text)
    (hfree : (s.owners core).running identity.key = none)
    (hrecord : ∀ record, (s.owners core).answered identity.key = some record →
      record.sequence < identity.sequence)
    (hintime : ∀ f ∈ s.finished, f.identity = identity → s.now < f.atNs + retentionNs) :
    ShipInv cfg { s.setOwner core ((s.owners core).emplace identity.key state) with
      started := identity :: s.started } := by
  have hid : (⟨identity.key.1, identity.key.2, state.sequence⟩ : Identity) = identity := by
    rw [hsequence]
    rfl
  have hunfinished : ∀ f ∈ s.finished, f.identity ≠ identity := by
    intro f hf heq
    obtain ⟨record, hanswered, hseq, -⟩ := h.remembered f hf (hintime f hf heq)
    rw [heq, howner] at hanswered
    rw [heq] at hseq
    exact absurd (hrecord record hanswered) (by omega)
  have hfresh : identity ∉ s.started := by
    intro hstarted
    rcases (h.started identity hstarted).2 with ⟨other, hrunning, -⟩ | ⟨f, hf, heq⟩
    · rw [howner, hfree] at hrunning
      cases hrunning
    · exact hunfinished f hf heq
  -- What runs is the new statement, or what ran before.
  have hruns : ∀ other key running,
      ((s.setOwner core ((s.owners core).emplace identity.key state)).owners other).running key =
        some running →
      (other = core ∧ key = identity.key ∧ running = state) ∨
        (s.owners other).running key = some running := by
    intro other key running hrunning
    by_cases hcore : other = core
    · subst hcore
      rw [setOwner_owners_self, Executor.emplace_running] at hrunning
      by_cases hkey : key = identity.key
      · subst hkey
        rw [update_self] at hrunning
        exact .inl ⟨rfl, rfl, (Option.some.inj hrunning).symm⟩
      · rw [update_of_ne hkey] at hrunning
        exact .inr hrunning
    · rw [setOwner_owners_of_ne hcore] at hrunning
      exact .inr hrunning
  have hanswered : ∀ other,
      ((s.setOwner core ((s.owners core).emplace identity.key state)).owners other).answered =
        (s.owners other).answered := by
    intro other
    by_cases hcore : other = core
    · subst hcore
      rw [setOwner_owners_self, Executor.emplace_answered]
    · rw [setOwner_owners_of_ne hcore]
  refine { h with
    running := ?_, started := ?_, once := nodup_cons.mpr ⟨hfresh, h.once⟩, finished := ?_
    remembered := ?_, later := ?_, answered := ?_, listed := ?_ }
  · intro other key running hrunning
    rcases hruns other key running hrunning with ⟨rfl, rfl, rfl⟩ | hold
    · rw [hid]
      exact ⟨mem_cons_self, howner, htext, hunfinished⟩
    · obtain ⟨hstarted, hrest⟩ := h.running other key running hold
      exact ⟨mem_cons_of_mem _ hstarted, hrest⟩
  · intro other hother
    rcases mem_cons.mp hother with rfl | hold
    · refine ⟨by rw [howner]; exact hinstalled, .inl ⟨state, ?_, hsequence⟩⟩
      show ((s.setOwner core _).owners _).running _ = _
      rw [howner, setOwner_owners_self]
      exact update_self ..
    · refine (h.started other hold).imp_right (Or.imp_left ?_)
      rintro ⟨running, hrunning, hseq⟩
      refine ⟨running, ?_, hseq⟩
      show ((s.setOwner core _).owners _).running _ = _
      by_cases hcore : (cfg.statementOf other).ownerCore = core
      · rw [hcore] at hrunning ⊢
        rw [setOwner_owners_self]
        refine (update_of_ne ?_ ..).trans hrunning
        intro hkey
        rw [hkey, hfree] at hrunning
        cases hrunning
      · rw [setOwner_owners_of_ne hcore]
        exact hrunning
  · intro f hf
    exact (h.finished f hf).imp_left (mem_cons_of_mem _)
  · intro f hf hyoung
    show ∃ record, ((s.setOwner core _).owners _).answered _ = _ ∧ _
    rw [hanswered]
    exact h.remembered f hf hyoung
  · intro f hf hyoung running hrunning
    rcases hruns _ _ running hrunning with ⟨hcore, hkey, rfl⟩ | hold
    · obtain ⟨record, hrec, hseq, -⟩ := h.remembered f hf hyoung
      rw [hcore, hkey] at hrec
      exact Nat.lt_of_le_of_lt hseq (hsequence ▸ hrecord record hrec)
    · exact h.later f hf hyoung running hold
  · intro other key record hrec
    rw [show ((s.setOwner core _).owners other).answered key = _ from congrFun (hanswered other)
      key] at hrec
    exact h.answered other key record hrec
  · intro other
    by_cases hcore : other = core
    · subst hcore
      show ((s.setOwner other _).owners other).Listed
      rw [setOwner_owners_self]
      exact (h.listed other).emplace _ _
    · show ((s.setOwner core _).owners other).Listed
      rw [setOwner_owners_of_ne hcore]
      exact h.listed other

theorem ShipInv.onRequest (h : ShipInv cfg s) {m : RequestMessage} (hm : m ∈ s.requests)
    (hintime : ∀ f ∈ s.finished, f.identity = m.identity → s.now < f.atNs + retentionNs) :
    ShipInv cfg (s.onRequest cfg m) := by
  obtain ⟨howner, htext, role, hrole⟩ := h.requests m hm
  rw [ShipState.onRequest, htext]
  dsimp only
  rw [hrole]
  dsimp only
  by_cases hinstalled : cfg.installed m.ownerCore = true
  · rw [if_neg (by simp [hinstalled])]
    have hexpired := h.setOwner_expired m.ownerCore
    rcases Executor.execute_cases (s.owners m.ownerCore) m.ownerCore s.now
        { requester := m.srcCore, sessionId := m.payload.sessionId
          sequence := m.payload.sequence, targetOid := m.payload.targetOid
          role := role, text := (cfg.statementOf m.identity).text } m.requestId with
      ⟨record, hrecord, hsame, heq⟩ | ⟨refusal, hcode, heq⟩ | ⟨hfree, hearlier, heq⟩
    · rw [heq]
      apply hexpired.sendReply
      obtain ⟨f, hf, hid, hanswer⟩ := h.answered _ _ record (Executor.expire_answered hrecord)
      have hidentity : f.identity = m.identity := by
        rw [hid, hsame]
        rfl
      rw [← hidentity]
      exact Sourced.of_answer f hf hanswer
    · rw [heq]
      exact hexpired.sendReply (.inl hcode)
    · rw [heq]
      dsimp only
      have hself : (s.setOwner m.ownerCore ((s.owners m.ownerCore).expire s.now)).owners
          m.ownerCore = (s.owners m.ownerCore).expire s.now := setOwner_owners_self ..
      have hstart := hexpired.start
        ⟨(cfg.statementOf m.identity).text, role, m.requestId, m.payload.sequence⟩
        howner.symm hinstalled rfl rfl (by rw [hself]; exact hfree)
        (by rw [hself]; exact hearlier) hintime
      rw [hself] at hstart
      have hidem : (s.setOwner m.ownerCore ((s.owners m.ownerCore).expire s.now)).setOwner
          m.ownerCore = s.setOwner m.ownerCore := by
        funext owner
        simp [ShipState.setOwner]
      rwa [hidem] at hstart
  · rw [if_pos (by simpa using hinstalled)]
    refine h.sendReply (.inr (.inl ?_))
    rw [← howner]
    exact Bool.eq_false_iff.mpr hinstalled

/-- The owners' tables once a statement has ended: its key runs no more, and is answered. -/
structure Ends (s : ShipState) (core : Nat) (key : DedupKey) (record : Answered) (t : ShipState) :
    Prop where
  runs : ∀ other otherKey running, (t.owners other).running otherKey = some running →
    (s.owners other).running otherKey = some running ∧ ¬ (other = core ∧ otherKey = key)
  kept : ∀ other otherKey, ¬ (other = core ∧ otherKey = key) →
    (t.owners other).running otherKey = (s.owners other).running otherKey ∧
      (t.owners other).answered otherKey = (s.owners other).answered otherKey
  recorded : (t.owners core).answered key = some record
  listed : ∀ other, (t.owners other).Listed

theorem ShipInv.ends (h : ShipInv cfg s) {key : DedupKey}
    (hroom : (s.owners core).overflowsOn key = false) (sequence : Nat)
    (answer : Option Refusal × Text) :
    Ends s core key { sequence := sequence, status := answer.1, text := answer.2, atNs := s.now }
      (s.setOwner core (((s.owners core).eraseRunning key).remember s.now key sequence
        answer)) := by
  have hroom' : ((s.owners core).eraseRunning key).overflowsOn key = false := hroom
  have hremember := Executor.remember_eq ((h.listed core).eraseRunning key) hroom' s.now
    sequence answer
  have hlisted := Executor.Listed.remember ((h.listed core).eraseRunning key) hroom' s.now
    sequence answer
  refine ⟨fun other otherKey running hrun => ?_, fun other otherKey hother => ?_, ?_,
    fun other => ?_⟩
  · by_cases hcore : other = core
    · subst hcore
      rw [setOwner_owners_self, hremember] at hrun
      by_cases hkey : otherKey = key
      · subst hkey
        rw [Executor.eraseRunning_running, update_self] at hrun
        cases hrun
      · rw [Executor.eraseRunning_running, update_of_ne hkey] at hrun
        exact ⟨hrun, fun hboth => hkey hboth.2⟩
    · rw [setOwner_owners_of_ne hcore] at hrun
      exact ⟨hrun, fun hboth => hcore hboth.1⟩
  · by_cases hcore : other = core
    · subst hcore
      have hkey : otherKey ≠ key := fun hkey => hother ⟨rfl, hkey⟩
      rw [setOwner_owners_self, hremember]
      exact ⟨update_of_ne hkey .., update_of_ne hkey ..⟩
    · rw [setOwner_owners_of_ne hcore]
      exact ⟨rfl, rfl⟩
  · rw [setOwner_owners_self, hremember]
    exact update_self ..
  · by_cases hcore : other = core
    · subst hcore
      rw [setOwner_owners_self]
      exact hlisted
    · rw [setOwner_owners_of_ne hcore]
      exact h.listed other

/-- An execution that ends joins the finished ones, and its answer is the one remembered. -/
theorem ShipInv.ended (h : ShipInv cfg s) {key : DedupKey} {state : Running}
    (hrunning : (s.owners core).running key = some state) {out : DispatchOutcome}
    {owners : Nat → Executor} {record : Answered}
    (hends : Ends s core key record { s with owners := owners })
    (hrecord : record = { sequence := state.sequence, status := (finishAnswer out).1
                          text := (finishAnswer out).2, atNs := s.now }) :
    ShipInv cfg { s with
      owners := owners
      finished := ⟨⟨key.1, key.2, state.sequence⟩, state.text, out, s.now⟩ :: s.finished } := by
  obtain ⟨hstarted, howner, htext, hunfinished⟩ := h.running core key state hrunning
  subst hrecord
  have hsub : ∀ f ∈ s.finished, f ∈
      (⟨⟨key.1, key.2, state.sequence⟩, state.text, out, s.now⟩ : Finished) :: s.finished :=
    fun f hf => mem_cons_of_mem _ hf
  refine { h with
    running := ?_, started := ?_, finished := ?_, finishedOnce := ?_, remembered := ?_
    later := ?_, answered := ?_, listed := hends.listed, replies := ?_, waiting := ?_, told := ?_ }
  · intro other otherKey running hrun
    obtain ⟨hold, hother⟩ := hends.runs other otherKey running hrun
    obtain ⟨h₁, h₂, h₃, h₄⟩ := h.running other otherKey running hold
    refine ⟨h₁, h₂, h₃, fun f hf => ?_⟩
    rcases mem_cons.mp hf with rfl | hf
    · intro heq
      have hkey : key = otherKey := Prod.ext (congrArg Identity.requester heq)
        (congrArg Identity.sessionId heq)
      refine hother ⟨?_, hkey.symm⟩
      rw [← h₂, ← howner]
      exact congrArg (fun i => (cfg.statementOf i).ownerCore) heq.symm
    · exact h₄ f hf
  · intro other hother
    refine (h.started other hother).imp_right ?_
    rintro (⟨running, hrun, hseq⟩ | ⟨f, hf, hid⟩)
    · by_cases hthis : (cfg.statementOf other).ownerCore = core ∧ other.key = key
      · refine .inr ⟨_, mem_cons_self, ?_⟩
        rw [hthis.1, hthis.2, hrunning] at hrun
        cases hrun
        show (⟨key.1, key.2, state.sequence⟩ : Identity) = other
        rw [hseq, ← hthis.2]
        rfl
      · exact .inl ⟨running, (hends.kept _ _ hthis).1.trans hrun, hseq⟩
    · exact .inr ⟨f, hsub f hf, hid⟩
  · intro f hf
    rcases mem_cons.mp hf with rfl | hf
    · exact ⟨hstarted, htext, Nat.le_refl _⟩
    · exact h.finished f hf
  · refine nodup_cons.mpr ⟨?_, h.finishedOnce⟩
    intro hmem
    obtain ⟨f, hf, heq⟩ := mem_map.mp hmem
    exact hunfinished f hf heq
  · intro f hf hyoung
    rcases mem_cons.mp hf with rfl | hf
    · refine ⟨⟨state.sequence, (finishAnswer out).1, (finishAnswer out).2, s.now⟩, ?_,
        Nat.le_refl _, Nat.le_refl _⟩
      show (owners (cfg.statementOf ⟨key.1, key.2, state.sequence⟩).ownerCore).answered _ = _
      rw [howner]
      exact hends.recorded
    · by_cases hthis : (cfg.statementOf f.identity).ownerCore = core ∧ f.identity.key = key
      · refine ⟨⟨state.sequence, (finishAnswer out).1, (finishAnswer out).2, s.now⟩, ?_, ?_,
          (h.finished f hf).2.2⟩
        · show (owners _).answered _ = _
          rw [hthis.1, hthis.2]
          exact hends.recorded
        · have hlater := h.later f hf hyoung state (by rw [hthis.1, hthis.2]; exact hrunning)
          exact Nat.le_of_lt hlater
      · obtain ⟨record, hrec, hrest⟩ := h.remembered f hf hyoung
        exact ⟨record, (hends.kept _ _ hthis).2.trans hrec, hrest⟩
  · intro f hf hyoung running hrun
    obtain ⟨hold, hother⟩ := hends.runs _ _ running hrun
    rcases mem_cons.mp hf with rfl | hf
    · exact absurd ⟨howner, rfl⟩ hother
    · exact h.later f hf hyoung running hold
  · intro other otherKey record hrec
    by_cases hthis : other = core ∧ otherKey = key
    · obtain ⟨rfl, rfl⟩ := hthis
      cases hends.recorded.symm.trans hrec
      exact ⟨_, mem_cons_self, rfl, rfl⟩
    · obtain ⟨f, hf, hrest⟩ :=
        h.answered other otherKey record ((hends.kept _ _ hthis).2.symm.trans hrec)
      exact ⟨f, hsub f hf, hrest⟩
  · intro m hm
    exact (h.replies m hm).imp_right (Sourced.mono hsub)
  · intro other requestId waiter hwaiter harrived
    exact (h.waiting other requestId waiter hwaiter harrived).mono hsub
  · intro t ht
    exact (h.told t ht).mono hsub

theorem ShipInv.finishStatement (h : ShipInv cfg s) {key : DedupKey} {body : Body}
    (hroom : (s.owners core).overflowsOn key = false)
    (hs : s.finishStatement cfg core key body = some s') : ShipInv cfg s' := by
  cases hrunning : (s.owners core).running key with
  | none => simp [ShipState.finishStatement, Executor.finish, hrunning] at hs
  | some state =>
    simp only [ShipState.finishStatement, Executor.finish, hrunning] at hs
    cases hs
    apply ShipInv.sendReply
    · exact h.ended hrunning (h.ends hroom state.sequence _) rfl
    · exact Sourced.of_answer ⟨⟨key.1, key.2, state.sequence⟩, state.text,
        dispatch cfg.durability body, s.now⟩ mem_cons_self rfl

-- The arrival core's steps

theorem ShipInv.setWaiting (h : ShipInv cfg s) (core : Nat) (waiting : Waiting)
    (hwaiting : ∀ requestId waiter, waiting requestId = some waiter → waiter.arrived = true →
      Sourced cfg s.finished ⟨core, waiter.sessionId, waiter.sequence⟩ waiter.status
        waiter.text) :
    ShipInv cfg (s.setWaiting core waiting) := by
  refine { h with waiting := ?_ }
  intro other requestId waiter hwaiter
  by_cases hcore : other = core
  · subst hcore
    rw [show (s.setWaiting other waiting).waiting other = waiting from update_self ..]
      at hwaiter
    exact hwaiting requestId waiter hwaiter
  · rw [show (s.setWaiting core waiting).waiting other = s.waiting other from
      update_of_ne hcore ..] at hwaiter
    exact h.waiting other requestId waiter hwaiter

theorem ShipInv.shipStatement (h : ShipInv cfg s) (identity : Identity) (requestId : Nat)
    (role : Role) : ShipInv cfg (s.shipStatement cfg identity requestId role) := by
  rw [ShipState.shipStatement]
  dsimp only
  rw [ship]
  split_ifs with hparked hcore
  · exact h
  · exact h
  · cases hrequest : requestOf identity.sessionId identity.sequence
        (cfg.statementOf identity).targetOid role (cfg.statementOf identity).text with
    | error refusal => exact h
    | ok payload =>
      obtain ⟨hsession, hsequence, htext, hrole⟩ := requestOf_ok hrequest
      dsimp only
      have hopened := h.setWaiting identity.requester
        (update (s.waiting identity.requester) requestId
          (some { sessionId := identity.sessionId, sequence := identity.sequence
                  deadline := s.now + deadlineNs, sentNs := s.now }))
        (fun otherId waiter hwaiter harrived => by
          by_cases hid : otherId = requestId
          · subst hid
            rw [update_self] at hwaiter
            cases hwaiter
            cases harrived
          · rw [update_of_ne hid] at hwaiter
            exact h.waiting _ otherId waiter hwaiter harrived)
      refine { hopened with requests := ?_ }
      intro m hm
      rcases mem_cons.mp hm with rfl | hold
      · have hid : RequestMessage.identity ⟨identity.requester,
            (cfg.statementOf identity).ownerCore, requestId, payload⟩ = identity := by
          rw [RequestMessage.identity, hsession, hsequence]
        rw [hid]
        exact ⟨rfl, htext, role, hrole⟩
      · exact h.requests m hold

theorem ShipInv.receive (h : ShipInv cfg s) {m : ReplyMessage} (hm : m ∈ s.replies) :
    ShipInv cfg (s.setWaiting m.dstCore
      (receive (s.waiting m.dstCore) m.requestId m.payload)) := by
  obtain ⟨hlen, hsourced⟩ := h.replies m hm
  apply h.setWaiting
  intro requestId waiter hwaiter harrived
  rw [Shipping.receive] at hwaiter
  cases hparked : s.waiting m.dstCore m.requestId with
  | none =>
    rw [hparked] at hwaiter
    exact h.waiting _ requestId waiter hwaiter harrived
  | some parked =>
    rw [hparked] at hwaiter
    dsimp only at hwaiter
    split_ifs at hwaiter with hother
    · exact h.waiting _ requestId waiter hwaiter harrived
    · by_cases hid : requestId = m.requestId
      · subst hid
        rw [update_self] at hwaiter
        cases hwaiter
        obtain ⟨hsession, hsequence⟩ := not_or.mp hother
        have hidentity : m.identity = ⟨m.dstCore, parked.sessionId, parked.sequence⟩ := by
          rw [ReplyMessage.identity, not_not.mp hsession, not_not.mp hsequence]
        rw [hidentity] at hsourced
        rw [Waiter.arrive, if_neg (by omega)]
        dsimp only
        rw [ReplyPayload.answer] at hsourced
        cases hstatus : fromWire m.payload.statusCode
            (m.payload.text.take m.payload.textLen) with
        | none => simpa [hstatus] using hsourced
        | some refusal =>
          simp only [hstatus] at hsourced
          exact Sourced.of_code _ _ rfl hsourced
      · rw [update_of_ne hid] at hwaiter
        exact h.waiting _ requestId waiter hwaiter harrived

theorem ShipInv.wakeStatement (h : ShipInv cfg s)
    (hs : s.wakeStatement cfg core requestId = some s') : ShipInv cfg s' := by
  rw [ShipState.wakeStatement] at hs
  cases hparked : s.waiting core requestId with
  | none => simp [hparked] at hs
  | some waiter =>
    simp only [hparked] at hs
    split_ifs at hs with hsettled
    cases hs
    have hclosed := h.setWaiting core (update (s.waiting core) requestId none)
      (fun otherId other hother harrived => by
        by_cases hid : otherId = requestId
        · subst hid
          rw [update_self] at hother
          cases hother
        · rw [update_of_ne hid] at hother
          exact h.waiting core otherId other hother harrived)
    refine { hclosed with told := ?_ }
    intro t ht
    rcases mem_cons.mp ht with rfl | hold
    · simp only [finishShipped, hparked]
      by_cases harrived : waiter.arrived = true
      · have hsourced := h.waiting core requestId waiter hparked harrived
        simp only [harrived, Bool.not_true, Bool.false_eq_true, if_false]
        cases hstatus : waiter.status with
        | none =>
          rw [hstatus] at hsourced
          exact hsourced
        | some refusal =>
          rw [hstatus] at hsourced
          exact Sourced.of_code _ _ rfl hsourced
      · simp only [harrived, Bool.not_false, if_true]
        exact .inl rfl
    · exact h.told t hold

theorem ShipInv.tick (h : ShipInv cfg s) (ns : Nat) :
    ShipInv cfg { s with now := s.now + ns } := by
  refine { h with finished := ?_, remembered := ?_, later := ?_ }
  · intro f hf
    obtain ⟨hstarted, htext, hat⟩ := h.finished f hf
    exact ⟨hstarted, htext, Nat.le_trans hat (Nat.le_add_right ..)⟩
  · intro f hf hyoung
    exact h.remembered f hf (Nat.lt_of_le_of_lt (Nat.le_add_right ..) hyoung)
  · intro f hf hyoung
    exact h.later f hf (Nat.lt_of_le_of_lt (Nat.le_add_right ..) hyoung)

-- The run

/-- A step in time keeps the invariant of shipped statements. -/
theorem ShipInv.step (h : ShipInv cfg s) (hintime : InTime s a) (hs : shipStep cfg s a = some s') :
    ShipInv cfg s' := by
  cases a with
  | tick ns =>
    cases hs
    exact h.tick ns
  | ship identity requestId role =>
    cases hs
    exact h.shipStatement identity requestId role
  | deliverRequest m =>
    rw [shipStep] at hs
    split_ifs at hs with hm
    cases hs
    exact h.onRequest hm hintime
  | finish core key body => exact h.finishStatement hintime hs
  | deliverReply m =>
    rw [shipStep] at hs
    split_ifs at hs with hm
    cases hs
    exact h.receive hm
  | wake core requestId => exact h.wakeStatement hs

theorem shipInv_reach (hreach : Reach (shipStep cfg) InTime {} s) : ShipInv cfg s :=
  hreach.invariant ShipInv.init fun _ hinv hintime hs => hinv.step hintime hs

/-- Where an execution was refused, it left nothing. -/
def RefusalsEmpty (s : ShipState) : Prop :=
  ∀ f ∈ s.finished, (finishAnswer f.out).1.isSome = true → f.out.kept = false

theorem sendReply_finished (identity : Identity) (requestId : Nat)
    (answer : Option Refusal × Text) :
    (s.sendReply identity requestId answer).finished = s.finished := by
  rw [ShipState.sendReply]
  split <;> rfl

theorem onRequest_finished (m : RequestMessage) : (s.onRequest cfg m).finished = s.finished := by
  rw [ShipState.onRequest]
  cases statementTextOf m.payload with
  | error refusal => exact sendReply_finished ..
  | ok text =>
    dsimp only
    cases roleOf m.payload with
    | error refusal => exact sendReply_finished ..
    | ok role =>
      dsimp only
      split
      · exact sendReply_finished ..
      · split
        · exact sendReply_finished ..
        · rfl

theorem shipStatement_finished (identity : Identity) (requestId : Nat) (role : Role) :
    (s.shipStatement cfg identity requestId role).finished = s.finished := by
  rw [ShipState.shipStatement]
  dsimp only
  split <;> rfl

/-- An execution that is refused and leaves nothing keeps every refusal empty. -/
theorem RefusalsEmpty.step (h : RefusalsEmpty s) (hcond : LeavesNothing cfg a)
    (hs : shipStep cfg s a = some s') : RefusalsEmpty s' := by
  have hsame : s'.finished = s.finished → RefusalsEmpty s' := by
    intro heq
    rw [RefusalsEmpty, heq]
    exact h
  cases a with
  | tick ns =>
    cases hs
    exact h
  | ship identity requestId role =>
    cases hs
    exact hsame (shipStatement_finished ..)
  | deliverRequest m =>
    rw [shipStep] at hs
    split_ifs at hs with hm
    cases hs
    exact hsame (onRequest_finished m)
  | finish core key body =>
    rw [shipStep, ShipState.finishStatement, Executor.finish] at hs
    cases hrunning : (s.owners core).running key with
    | none => simp [hrunning] at hs
    | some state =>
      simp only [hrunning, Option.some.injEq] at hs
      subst hs
      intro f hf
      rw [sendReply_finished] at hf
      rcases mem_cons.mp hf with rfl | hold
      · intro hrefused
        obtain ⟨refusal, hrefusal⟩ := Option.isSome_iff_exists.mp hrefused
        exact dispatch_kept hcond hrefusal
      · exact h f hold
  | deliverReply m =>
    rw [shipStep] at hs
    split_ifs at hs with hm
    cases hs
    exact h
  | wake core requestId =>
    rw [shipStep, ShipState.wakeStatement] at hs
    cases hparked : s.waiting core requestId with
    | none => simp [hparked] at hs
    | some waiter =>
      simp only [hparked] at hs
      split_ifs at hs with hsettled
      cases hs
      exact h

theorem ShipInv.answeredByItsOwn (h : ShipInv cfg s) : AnsweredByItsOwn cfg s := by
  intro told htold hok
  have hsourced := h.told told htold
  rw [hok] at hsourced
  obtain ⟨f, hf, hid, hanswer⟩ := hsourced
  obtain ⟨hline, herr⟩ := finishAnswer_ok hanswer
  exact ⟨f, hf, hid, by rw [← hid]; exact (h.finished f hf).2.1, hline, herr⟩

theorem ShipInv.refusedWithoutEffect (h : ShipInv cfg s) (hempty : RefusalsEmpty s) :
    RefusedWithoutEffect s := by
  intro told htold refusal hrefusal hknown f hf hid
  have hsourced := h.told told htold
  rw [hrefusal] at hsourced
  rcases hsourced with hunknown | hnone | ⟨g, hg, hgid, hrefused⟩
  · exact absurd hunknown hknown
  · have hinstalled := (h.started f.identity (h.finished f hf).1).1
    rw [hid, hnone] at hinstalled
    cases hinstalled
  · obtain rfl := inj_on_of_nodup_map h.finishedOnce hf hg (hid.trans hgid.symm)
    exact hempty f hf hrefused

/-- **Shipped statements.**  In every run whose duplicates arrive within the retention time and
    whose record does not overflow, a statement is executed at most once and an OK answer is the
    line its own execution produced; and where, besides, every execution of the run that is
    refused has all its rows in the trail, unwinds it, and syncs the commit record it has
    written, a refusal other than an unknown outcome means that nothing has happened. -/
theorem shipped_statements_truthful (cfg : Instance) (s : ShipState) :
    (Reach (shipStep cfg) InTime {} s → AtMostOnce s ∧ AnsweredByItsOwn cfg s) ∧
    (Reach (shipStep cfg) (fun s a => InTime s a ∧ LeavesNothing cfg a) {} s →
      AtMostOnce s ∧ AnsweredByItsOwn cfg s ∧ RefusedWithoutEffect s) := by
  refine ⟨fun hreach => ?_, fun hreach => ?_⟩
  · have h := shipInv_reach hreach
    exact ⟨h.once, h.answeredByItsOwn⟩
  · obtain ⟨h, hempty⟩ := @Reach.invariant _ _ _ _
      (fun s => ShipInv cfg s ∧ RefusalsEmpty s) _ _ hreach
      ⟨ShipInv.init, fun f hf => absurd hf (not_mem_nil)⟩
      (fun a hinv hok hs => ⟨hinv.1.step hok.1 hs, hinv.2.step hok.2 hs⟩)
    exact ⟨h.once, h.answeredByItsOwn, h.refusedWithoutEffect hempty⟩

-- A write whose sync fails

instance (s : ShipState) : (a : ShipAction) → Decidable (InTime s a)
  | .deliverRequest m => inferInstanceAs (Decidable (∀ f ∈ s.finished, f.identity = m.identity →
      s.now < f.atNs + retentionNs))
  | .finish core key _ => inferInstanceAs (Decidable ((s.owners core).overflowsOn key = false))
  | .tick _ | .ship .. | .deliverReply _ | .wake .. => .isTrue trivial

instance (cfg : Instance) : (a : ShipAction) → Decidable (LeavesNothing cfg a)
  | .finish _ _ body =>
    inferInstanceAs (Decidable (leavesNothingBehind cfg.durability body = true))
  | .tick _ | .ship .. | .deliverRequest _ | .deliverReply _ | .wake .. => .isTrue trivial

/-- An INSERT that core 1 ships to core 0. -/
def sampleInsert : Statement :=
  { ownerCore := 0, targetOid := 16, relation := "t"
    text := bytesOf "INSERT INTO t VALUES (7)" }

/-- Two cores in the strict class, every identity standing for that INSERT. -/
def sampleInstance : Instance :=
  { coreCount := 2, durability := .strict, installed := fun _ => true
    statementOf := fun _ => sampleInsert }

def sampleIdentity : Identity := ⟨1, 1, 1⟩

def sampleRequest : RequestMessage :=
  ⟨1, 0, 9, { sessionId := 1, sequence := 1, targetOid := 16, textLen := sampleInsert.text.length
              role := 1, text := padTo statementTextMax sampleInsert.text }⟩

/-- The owner's reply, its code and its text given. -/
def sampleReply (code : Option StatusCode) (text : Text) : ReplyMessage :=
  ⟨1, 9, { sessionId := 1, sequence := 1, statusCode := wireCode code, textLen := text.length
           text := padTo replyTextMax text }⟩

/-- One row placed, in the trail; the commit record is appended, and its sync answers `sync`. -/
def sampleWrite (sync : Option Refusal) : Body :=
  .write { line := bytesOf "INSERTED 1", rows := [{}], sync := sync }

/-- The statement is shipped, arrives and is executed, its request arrives a second time, and the
    reply to either wakes the client. -/
def sampleRun (sync : Option Refusal) (code : Option StatusCode) (text : Text) : List ShipAction :=
  [.ship sampleIdentity 9 .readWrite, .deliverRequest sampleRequest,
   .finish 0 (1, 1) (sampleWrite sync), .deliverRequest sampleRequest,
   .deliverReply (sampleReply code text), .wake 1 9]

theorem duplicate_answered_from_record :
    ∃ s, (Reach (shipStep sampleInstance)
        (fun s a => InTime s a ∧ LeavesNothing sampleInstance a) {} s ∧
      s.told = [⟨sampleIdentity, none, bytesOf "INSERTED 1"⟩]) ∧
      AtMostOnce s ∧ AnsweredByItsOwn sampleInstance s ∧ RefusedWithoutEffect s := by
  obtain ⟨s, hreach, htold⟩ := @exists_reach_of_runList _ _ (shipStep sampleInstance)
    (fun s a => InTime s a ∧ LeavesNothing sampleInstance a)
    (fun s a => decide (InTime s a ∧ LeavesNothing sampleInstance a))
    (fun _ _ h => of_decide_eq_true h)
    (sampleRun none none (bytesOf "INSERTED 1")) {}
    (fun s => decide (s.told = [⟨sampleIdentity, none, bytesOf "INSERTED 1"⟩]))
    (by decide +kernel)
  exact ⟨s, ⟨hreach, of_decide_eq_true htold⟩,
    (shipped_statements_truthful sampleInstance s).2 hreach⟩

/-- A commit whose sync fails is refused to the client as an ordinary error, but its record is in
    the log and its row commits. -/
theorem refused_insert_commits :
    ¬ ∀ cfg s, Reach (shipStep cfg) InTime {} s →
      AtMostOnce s ∧ AnsweredByItsOwn cfg s ∧ RefusedWithoutEffect s := by
  intro hclaim
  obtain ⟨s, hreach, hend⟩ := @exists_reach_of_runList _ _ (shipStep sampleInstance) InTime
    (fun s a => decide (InTime s a)) (fun _ _ h => of_decide_eq_true h)
    (sampleRun (some (refused .ioError "fdatasync failed")) (some .invalidArgument)
      (bytesOf "fdatasync failed")) {}
    (fun s => decide ((∃ told ∈ s.told, told.identity = sampleIdentity ∧
        told.status = some (refused .invalidArgument "fdatasync failed")) ∧
      ∃ f ∈ s.finished, f.identity = sampleIdentity ∧ f.out.kept = true))
    (by decide +kernel)
  obtain ⟨⟨told, htold, htid, hstatus⟩, f, hf, hfid, hkept⟩ := of_decide_eq_true hend
  have hempty := (hclaim sampleInstance s hreach).2.2 told htold _ hstatus (by decide) f hf
    (hfid.trans htid.symm)
  rw [hkept] at hempty
  cases hempty

end Kds.Server.Shipping
