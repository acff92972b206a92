/-
  Kds.Server.AssertionBuild

  CREATE ASSERTION and DROP ASSERTION on a relation that another core owns
  (`src/server/assertion_build_service.cpp` and `command_dispatcher.cpp`, `HandleAssertion`,
  `BeginForeignAssertionBuild`, `FinishAssertionBuild`).

  Core 0 holds `sys.assertions` and the parked statements.  It asks the owner to build, the owner
  builds and adopts the directory in one task and replies, and core 0 publishes the row and says
  `done`.  `done(aborted)` is also what DROP sends, and the answer to a successful reply whose
  statement is gone.  Every send is retried on its own until it is in the ring, so the messages in
  flight are delivered in any order and none is lost.

  The owner's side is the enforcement engine of `Kds.Exec.AssertionRuns`, one per core.

  What the run does not decide is an input of the action: the outcome of parsing and of catalog
  lookups, of the log and of the disk.  Left out: loggers, the figures only the answer prints, the
  messages of a wrong size (a build disagreeing with itself), and a core-0-owned CREATE.
-/

import Kds.Exec.AssertionBuild
import Kds.Lib.InFlight

namespace Kds.Server.AssertionBuild

open Exec

-- The wire

def kCoreRingPayloadBytes : Nat := 1024
def kAssertionBuildFixedBytes : Nat := 24
def kAssertionBuildTextMax : Nat := kCoreRingPayloadBytes - kAssertionBuildFixedBytes

/-- Core 0's park: 60 s. -/
def kAssertionBuildReplyDeadlineNs : Nat := 60 * 1000000000

/-- `varheap::kMaxValueSize`. -/
def kMaxValueSize : Nat := 8144

/-- Core 0 to the owner: the declaration verbatim, and the id core 0 issued for it. -/
structure BuildRequest where
  dstCore : Nat
  requestId : Nat
  tableOid : Oid
  assertionId : Nat
  text : List UInt8
  deriving DecidableEq

/-- The owner to core 0: the root, or why not (`none` is `kOk`). -/
structure BuildReply where
  srcCore : Nat
  requestId : Nat
  assertionId : Nat
  cabinRoot : Option PageId
  status : Option Status
  deriving DecidableEq

/-- Core 0 to the owner: the statement's end. -/
structure BuildDone where
  dstCore : Nat
  assertionId : Nat
  committed : Bool
  deriving DecidableEq

/-- `AssertionBuildRequestOf`, refusing a declaration that does not fit the slot. -/
def assertionBuildRequestOf (ownerCore requestId : Nat) (tableOid : Oid) (assertionId : Nat)
    (sourceText : List UInt8) : StatusOr BuildRequest :=
  if sourceText = [] ∨ kAssertionBuildTextMax < sourceText.length then
    .error (.unsupported ("assertion declaration of " ++ toString sourceText.length ++
      " bytes cannot be carried to its relation's owner, which takes at most " ++
      toString kAssertionBuildTextMax ++
      " (assertion_build_service.hpp: refused rather than truncated)"))
  else .ok ⟨ownerCore, requestId, tableOid, assertionId, sourceText⟩

-- Core 0's catalog rows and statements

/-- One live row of `sys.assertions`. -/
structure AssertionDef where
  id : Nat
  targetOid : Oid
  cabinRoot : Option PageId
  name : List UInt8
  sourceText : List UInt8
  deriving DecidableEq

/-- `AssertionBuildOutcome`: what a reply lands in. -/
structure BuildOutcome where
  arrived : Bool := false
  status : Option Status := none
  cabinRoot : Option PageId := none
  deadlineNs : Nat := 0
  deriving DecidableEq

/-- A CREATE ASSERTION parked on its owner's build. -/
structure PendingAssertionBuild where
  requestId : Nat
  ownerCore : Nat
  assertionId : Nat
  targetOid : Oid
  name : List UInt8
  tableName : String
  sourceText : List UInt8
  deriving DecidableEq

/-- The clauses of a CREATE ASSERTION that core 0 reads. -/
structure AssertionStmt where
  name : List UInt8
  tableName : String
  tableByteOffset : Nat
  sourceText : List UInt8

/-- Names compare without regard to ASCII case. -/
def foldAscii (c : UInt8) : UInt8 := if 65 ≤ c ∧ c ≤ 90 then c + 32 else c

def iEquals (a b : List UInt8) : Bool := a.map foldAscii = b.map foldAscii


/-- Every core's engine, core 0's catalog and statements, and the messages in flight.  A build
    task the owner has queued counts as in flight. -/
structure World where
  now : Nat
  nextRemoteRequest : Nat
  nextAssertionId : Nat
  assertions : List AssertionDef
  waiting : Nat → Option BuildOutcome
  parked : List PendingAssertionBuild
  requests : List BuildRequest
  builds : List BuildRequest
  replies : List BuildReply
  dones : List BuildDone
  owners : Nat → EngineState

namespace World

def findAssertionByName (w : World) (name : List UInt8) : Option AssertionDef :=
  w.assertions.find? fun def_ => iEquals def_.name name

/-- `AssertionBuildClient::Done`. -/
def done (w : World) (ownerCore assertionId : Nat) (committed : Bool) : World :=
  { w with dones := w.dones ++ [⟨ownerCore, assertionId, committed⟩] }

/-- `AssertionBuildClient::Close`, and the statement's end. -/
def close (w : World) (rest : List PendingAssertionBuild) (requestId : Nat) : World :=
  { w with
    parked := rest
    waiting := Function.update w.waiting requestId none }

/-- `AssertionBuildClient::Settled`. -/
def settled (w : World) (requestId : Nat) : Bool :=
  match w.waiting requestId with
  | none => true
  | some out => out.arrived || decide (out.deadlineNs ≤ w.now)

/-- The registry of one core. -/
def setLive (w : World) (core : Nat) (live : List LiveAssertion) : World :=
  { w with owners := Function.update w.owners core { w.owners core with live := live } }

end World

-- CREATE ASSERTION on core 0

/-- How the catalog writes of a publish end. -/
inductive PublishFault where
  | none
  /-- An error before the row is placed. -/
  | refused (e : Status)
  /-- The row is placed, and logging it fails. -/
  | unlogged (e : Status)

section

variable (ownerOf : Oid → Nat)

/-- `BeginForeignAssertionBuild`.  `target` is what resolving the table and the columns answers;
    an id issued for a declaration that does not fit the slot is burned. -/
def beginForeignAssertionBuild (w : World) (stmt : AssertionStmt) (target : StatusOr Oid)
    (inExplicitTxn : Bool) : World × Option Status :=
  match target with
  | .error e => (w, some e)
  | .ok oid =>
    if inExplicitTxn then
      (w, some (.unsupported ("CREATE ASSERTION on '" ++ stmt.tableName ++ "' at byte " ++
        toString stmt.tableByteOffset ++ ": the relation is owned by core " ++
        toString (ownerOf oid) ++ ", which builds and adopts the Bound Cabin before this " ++
        "statement's row exists - inside a transaction that row waits on the client's " ++
        "COMMIT; run it in autocommit (workplan-peer-writer.md PW1c-6c)")))
    else if kMaxValueSize < stmt.sourceText.length then
      (w, some (.unsupported ("assertion declaration of " ++ toString stmt.sourceText.length ++
        " bytes exceeds the " ++ toString kMaxValueSize ++
        "-byte limit on a single stored value")))
    else if (w.findAssertionByName stmt.name).isSome then
      (w, some ⟨.alreadyExists, "assertion \"" ++ textOf stmt.name ++ "\" already exists"⟩)
    else
      let id := w.nextAssertionId
      let requestId := w.nextRemoteRequest
      let w := { w with nextAssertionId := id + 1, nextRemoteRequest := requestId + 1 }
      match assertionBuildRequestOf (ownerOf oid) requestId oid id stmt.sourceText with
      | .error e => (w, some e)
      | .ok request =>
        ({ w with
            waiting := Function.update w.waiting requestId
              (some { deadlineNs := w.now + kAssertionBuildReplyDeadlineNs })
            requests := w.requests ++ [request]
            parked := w.parked ++ [⟨requestId, ownerOf oid, id, oid, stmt.name,
              stmt.tableName, stmt.sourceText⟩] }, none)

/-- What a parked statement's waiter says: the root to publish, or the refusal. -/
def verdict (build : PendingAssertionBuild) : Option BuildOutcome → StatusOr (Option PageId)
  | none => .error ⟨.ioError, "CREATE ASSERTION on '" ++ build.tableName ++
      "': the wait for core " ++ toString build.ownerCore ++
      "'s build was closed under the statement"⟩
  | some out =>
    if out.arrived then
      match out.status with
      | some e => .error (e.withContext ("CREATE ASSERTION on '" ++ build.tableName ++
          "': core " ++ toString build.ownerCore ++ " refused the build"))
      | none => .ok out.cabinRoot
    else .error (.txnConflict ("CREATE ASSERTION on '" ++ build.tableName ++ "': core " ++
        toString build.ownerCore ++ " did not reply within " ++
        toString (kAssertionBuildReplyDeadlineNs / 1000000000) ++
        " s; the build is abandoned and the owner told (workplan-peer-writer.md PW1c-6c)"))

/-- `InsertAssertion`: the publish. -/
def insertAssertion (w : World) (row : AssertionDef) (fault : PublishFault) :
    World × Option Status :=
  if kMaxValueSize < row.sourceText.length then
    (w, some (.unsupported ("assertion declaration of " ++ toString row.sourceText.length ++
      " bytes exceeds the " ++ toString kMaxValueSize ++ "-byte limit on a single stored value")))
  else if (w.findAssertionByName row.name).isSome then
    (w, some ⟨.alreadyExists, "assertion \"" ++ textOf row.name ++ "\" already exists"⟩)
  else
    match fault with
    | .refused e => (w, some e)
    | .unlogged e => ({ w with assertions := w.assertions ++ [row] }, some e)
    | .none => ({ w with assertions := w.assertions ++ [row] }, none)

/-- `FinishAssertionBuild`.  The durability wait that follows a published row moves nothing. -/
def finishAssertionBuild (w : World) (build : PendingAssertionBuild)
    (rest : List PendingAssertionBuild) (fault : PublishFault) : World :=
  let closed := w.close rest build.requestId
  match verdict build (w.waiting build.requestId) with
  | .error _ => closed.done build.ownerCore build.assertionId false
  | .ok root =>
    match insertAssertion closed ⟨build.assertionId, build.targetOid, root, build.name,
        build.sourceText⟩ fault with
    | (w', some _) => w'.done build.ownerCore build.assertionId false
    | (w', none) => w'.done build.ownerCore build.assertionId true

/-- The reply receiver.  A reply with no waiter is core 0 having given up, and a successful one is
    answered so that the owner forgets what it adopted. -/
def onReply (w : World) (reply : BuildReply) : World :=
  match w.waiting reply.requestId with
  | none =>
    match reply.status with
    | none => w.done reply.srcCore reply.assertionId false
    | some _ => w
  | some out => { w with
      waiting := Function.update w.waiting reply.requestId (some { out with
        status := reply.status
        cabinRoot := if reply.status = none then reply.cabinRoot else none
        arrived := true }) }

-- DROP ASSERTION on core 0

/-- How far the catalog half of a drop gets. -/
inductive DropFault where
  | none
  /-- `ASSERT_DROP` is refused, before the row. -/
  | emitRefused (e : Status)
  /-- The row is retired, and logging that fails. -/
  | retireUnlogged (e : Status)
  /-- The drop is logged, and the wait for its durability fails. -/
  | notDurable (e : Status)

/-- DROP ASSERTION.  `ownerRow` is what reading the relation's `sys.tables` row answers; where it
    fails the drop goes on and tells no owner. -/
def dropAssertion (w : World) (name : List UInt8) (ownerRow : Option Status)
    (fault : DropFault) : World :=
  match w.findAssertionByName name with
  | none => w
  | some def_ =>
    let owner := if ownerRow = none ∧ ownerOf def_.targetOid ≠ 0 then
      some (ownerOf def_.targetOid) else none
    let retired := { w with assertions := w.assertions.filter fun row => row.id ≠ def_.id }
    match fault with
    | .emitRefused _ => w
    | .retireUnlogged _ => retired
    | .notDurable _ => retired
    | .none =>
      let evicted := retired.setLive 0 (evict def_.id (w.owners 0).live)
      match owner with
      | some core => evicted.done core def_.id false
      | none => evicted

-- The owner

/-- `OnRequest`: refuse with a reply, or queue the build. -/
def onRequest (w : World) (request : BuildRequest) (tableRow : Option Status) : World :=
  let refuse := fun (s : Status) => { w with
    replies := w.replies ++
      [⟨request.dstCore, request.requestId, request.assertionId, none, some s⟩] }
  if request.text = [] ∨ kAssertionBuildTextMax < request.text.length then
    refuse (.invalidArgument ("assertion build request carries a declaration of " ++
      toString request.text.length ++ " bytes, which is not a length this slot holds"))
  else if request.assertionId = 0 then
    refuse (.invalidArgument "assertion build request carries assertion id 0")
  else
    match tableRow with
    | some e => refuse e
    | none =>
      if ownerOf request.tableOid ≠ request.dstCore then
        refuse (.unsupported ("relation oid " ++ toString request.tableOid ++
          " is owned by core " ++ toString (ownerOf request.tableOid) ++ ", not core " ++
          toString request.dstCore ++ "; an assertion is built by its relation's owner " ++
          "(workplan-peer-writer.md §7d)"))
      else { w with builds := w.builds ++ [request] }

end

/-- What a build task meets on the owner: what parsing the text and looking its table up answer,
    where the entries land, the chain's root, and whether the log syncs. -/
structure BuildInputs where
  declared : StatusOr (AssertionDecl × String)
  entryAt : Nat → List UInt8 → StatusOr EntryAt
  root : PageId
  synced : Option Status

section

variable (formatValue : Nat → AstValue → String)

/-- The part of `Build` before the adoption. -/
def built (owner : EngineState) (request : BuildRequest) (inputs : BuildInputs) :
    StatusOr LiveAssertion :=
  match inputs.declared with
  | .error e => .error e
  | .ok (decl, tableName) =>
    if decl.targetOid ≠ request.tableOid then
      .error (.invalidArgument ("assertion build request routed on relation oid " ++
        toString request.tableOid ++ " but its declaration names '" ++ tableName ++
        "', which is oid " ++ toString decl.targetOid))
    else
      let decl := { decl with assertionId := request.assertionId }
      match
        BoundCabin.buildBoundCabin inputs.entryAt formatValue decl tableName owner.rows 0 {} with
      | .error e => .error e
      | .ok cabin =>
        match inputs.synced with
        | some e => .error (e.withContext "making the built Bound Cabin durable")
        | none => .ok ⟨decl, cabin⟩

/-- `Build`: one task, from the scan to the adoption. -/
def build (w : World) (request : BuildRequest) (inputs : BuildInputs) : World :=
  let reply := fun (root : Option PageId) (s : Option Status) (w : World) => { w with
    replies := w.replies ++ [⟨request.dstCore, request.requestId, request.assertionId, root, s⟩] }
  match built formatValue (w.owners request.dstCore) request inputs with
  | .error e => reply none (some e) w
  | .ok live =>
    reply (some inputs.root) none
      (w.setLive request.dstCore (adopt live (w.owners request.dstCore).live))

/-- `OnDone`: `aborted` evicts; `committed` only drops a cache. -/
def onDone (w : World) (msg : BuildDone) : World :=
  if msg.committed then w
  else w.setLive msg.dstCore (evict msg.assertionId (w.owners msg.dstCore).live)

end

-- The system

inductive Action where
  | advance (ns : Nat)
  | create (stmt : AssertionStmt) (target : StatusOr Oid) (inExplicitTxn : Bool)
  | deliverRequest (i : Nat) (tableRow : Option Status)
  | runBuild (i : Nat) (inputs : BuildInputs)
  | deliverReply (i : Nat)
  | finish (i : Nat) (fault : PublishFault)
  /-- `Dispatch` off the reactor: the statement is given up at once. -/
  | abandon (i : Nat)
  | drop (name : List UInt8) (ownerRow : Option Status) (fault : DropFault)
  | deliverDone (i : Nat)
  | write (core : Nat) (act : Exec.Action)

section

variable (ownerOf : Oid → Nat) (chainAppend : Nat → Nat → StatusOr EntryAt)
  (formatValue : Nat → AstValue → String)

/-- One step; `none` where the action cannot be taken. -/
def step (w : World) : Action → Option World
  | .advance ns => some { w with now := w.now + ns }
  | .create stmt target inExplicitTxn =>
    -- a relation of core 0's own is built by the statement itself
    if target.toOption.map ownerOf = some 0 then none
    else some (beginForeignAssertionBuild ownerOf w stmt target inExplicitTxn).1
  | .deliverRequest i tableRow =>
    match Lib.deliver w.requests i with
    | some (request, rest) => some (onRequest ownerOf { w with requests := rest } request tableRow)
    | none => none
  | .runBuild i inputs =>
    match Lib.deliver w.builds i with
    | some (request, rest) => some (build formatValue { w with builds := rest } request inputs)
    | none => none
  | .deliverReply i =>
    match Lib.deliver w.replies i with
    | some (reply, rest) => some (onReply { w with replies := rest } reply)
    | none => none
  | .finish i fault =>
    match Lib.deliver w.parked i with
    | some (pending, rest) =>
      if w.settled pending.requestId then some (finishAssertionBuild w pending rest fault)
      else none
    | none => none
  | .abandon i =>
    match Lib.deliver w.parked i with
    | some (pending, rest) => some ((w.close rest pending.requestId).done pending.ownerCore
        pending.assertionId false)
    | none => none
  | .drop name ownerRow fault => some (dropAssertion ownerOf w name ownerRow fault)
  | .deliverDone i =>
    match Lib.deliver w.dones i with
    | some (msg, rest) => some (onDone { w with dones := rest } msg)
    | none => none
  | .write core act =>
    match Exec.step (chainAppend core) formatValue (w.owners core) act with
    | some owner => some { w with owners := Function.update w.owners core owner }
    | none => none

end

end Kds.Server.AssertionBuild
