/-
  Kds.Server.IndexBuild

  CREATE INDEX on a relation that another core owns (`src/server/index_build_service.cpp`,
  `PendingIndexBuilds` in `src/server/core_affinity.cpp`, and `command_dispatcher.cpp`,
  `BeginForeignIndexBuild`, `FinishIndexBuild`).

  Core 0 prepares the definition and asks the owner to build the tree.  From the request's arrival
  the owner refuses writes of the relation; the window closes on a failed build, on core 0's `done`,
  or at a ceiling.  Core 0 writes the `sys.indexes` row when the reply is in, and says `done`; the
  owner then reads its catalog from the device again.  Every send is retried on its own, so the
  messages in flight are delivered in any order and none is lost.

  What the run does not decide is an input of the action: the catalog checks, the appends and reads
  of a backfill, the log, the flush of the catalog pages.  Left out: loggers, messages of a wrong
  size, the truncation of a reply's text, root pages (a tree is named by its index oid, as its
  anchor slot names it), DROP INDEX, and a core-0-owned CREATE.
-/

import Kds.Exec.IndexedRows
import Kds.Lib.InFlight

namespace Kds.Server.IndexBuild

open Exec Exec.Indexed

-- The wire

def kMaxIndexKeyColumns : Nat := 4
def kMaxIndexCoveredColumns : Nat := 8
def kCatalogNameMax : Nat := 64

/-- Core 0's park: 60 s. -/
def kIndexBuildReplyDeadlineNs : Nat := 60 * 1000000000

/-- The owner's window: 180 s. -/
def kIndexBuildPendingCeilingNs : Nat := 180 * 1000000000

/-- Core 0 to the owner: the definition, with the oid core 0 issued for it. -/
structure BuildRequest where
  dstCore : Nat
  requestId : Nat
  def_ : IndexDef
  deriving DecidableEq

/-- The owner to core 0: built, or why not (`none` is `kOk`). -/
structure BuildReply where
  srcCore : Nat
  requestId : Nat
  indexOid : Nat
  status : Option Status
  deriving DecidableEq

/-- Core 0 to the owner: the statement's end. -/
structure BuildDone where
  dstCore : Nat
  indexOid : Nat
  committed : Bool
  deriving DecidableEq

/-- `IndexBuildRequestOf`, refusing what the wire does not hold. -/
def indexBuildRequestOf (ownerCore requestId : Nat) (def_ : IndexDef) : StatusOr BuildRequest :=
  if def_.keyCols = [] ∨ kMaxIndexKeyColumns < def_.keyCols.length ∨
      kMaxIndexCoveredColumns < def_.coveredCols.length then
    .error (.invalidArgument ("index definition names " ++ toString def_.keyCols.length ++
      " key and " ++ toString def_.coveredCols.length ++ " covered columns, not a shape the " ++
      "build request carries"))
  else if kCatalogNameMax ≤ def_.name.length then
    .error (.invalidArgument ("index name '" ++
      textOf def_.name ++ "' is " ++
      toString def_.name.length ++ " bytes; the build request carries at most " ++
      toString (kCatalogNameMax - 1)))
  else .ok ⟨ownerCore, requestId, def_⟩

-- The world

/-- `PendingIndexBuilds::Entry`. -/
structure Window where
  tableOid : Oid
  indexOid : Nat
  openedAtNs : Nat
  deriving DecidableEq

/-- One core: its rows and trees, and the windows it keeps. -/
structure OwnerCore (π ε : Type) where
  store : RowStore π ε
  windows : List Window

namespace OwnerCore

variable {π ε : Type} (owner : OwnerCore π ε)

/-- `PendingIndexBuilds::Covers`. -/
def covers (tableOid : Oid) : Bool := owner.windows.any fun e => e.tableOid == tableOid

/-- `PendingIndexBuilds::Open`. -/
def openWindow (tableOid : Oid) (indexOid now : Nat) : OwnerCore π ε :=
  { owner with windows := owner.windows ++ [⟨tableOid, indexOid, now⟩] }

/-- `PendingIndexBuilds::Close`: the first entry of the index. -/
def close (indexOid : Nat) : OwnerCore π ε :=
  { owner with windows := owner.windows.eraseP fun e => e.indexOid == indexOid }

/-- `CoreRuntime::InvalidateCatalog`, and the read of the device that follows it; a pool that
    could not be evicted keeps the pages it has. -/
def invalidateCatalog (device : List IndexDef) (evicted : Bool) : OwnerCore π ε :=
  if evicted then { owner with store := { owner.store with known := device } } else owner

end OwnerCore

/-- A window past the ceiling. -/
def Window.expired (e : Window) (now : Nat) : Bool :=
  decide (e.openedAtNs ≤ now) && decide (kIndexBuildPendingCeilingNs ≤ now - e.openedAtNs)

/-- `IndexBuildOutcome`: what a reply lands in. -/
structure BuildOutcome where
  arrived : Bool := false
  status : Option Status := none
  deadlineNs : Nat := 0
  deriving DecidableEq

/-- A CREATE INDEX parked on its owner's build. -/
structure PendingIndexBuild where
  requestId : Nat
  ownerCore : Nat
  def_ : IndexDef
  tableName : String
  deriving DecidableEq

/-- Core 0's catalog and statements, the catalog pages on the device, the messages in flight, and
    every core.  A build task the owner has queued counts as in flight. -/
structure World (π ε : Type) where
  now : Nat
  nextRemoteRequest : Nat
  nextIndexOid : Nat
  indexes : List IndexDef
  device : List IndexDef
  waiting : Nat → Option BuildOutcome
  parked : List PendingIndexBuild
  requests : List BuildRequest
  builds : List BuildRequest
  replies : List BuildReply
  dones : List BuildDone
  cores : Nat → OwnerCore π ε

section

variable {π ε : Type}

namespace World

variable (w : World π ε)

/-- `IndexBuildClient::Done`. -/
def done (ownerCore indexOid : Nat) (committed : Bool) : World π ε :=
  { w with dones := w.dones ++ [⟨ownerCore, indexOid, committed⟩] }

/-- `IndexBuildClient::Close`, and the statement's end. -/
def close (rest : List PendingIndexBuild) (requestId : Nat) : World π ε :=
  { w with
    parked := rest
    waiting := Function.update w.waiting requestId none }

/-- `IndexBuildClient::Settled`. -/
def settled (requestId : Nat) : Bool :=
  match w.waiting requestId with
  | none => true
  | some out => out.arrived || decide (out.deadlineNs ≤ w.now)

def setCore (core : Nat) (owner : OwnerCore π ε) : World π ε :=
  { w with cores := Function.update w.cores core owner }

/-- `IndexBuildServer::Reply`. -/
def reply (request : BuildRequest) (status : Option Status) : World π ε :=
  { w with
    replies := w.replies ++
      [⟨request.dstCore, request.requestId, request.def_.indexOid, status⟩] }

end World

-- CREATE INDEX on core 0

/-- How the publish of a built index ends once its definition is checked again.  `flushed`: the
    catalog pages reached the device before the owner is told. -/
inductive PublishEnd where
  | committed (flushed : Bool)
  /-- The check refuses it. -/
  | refused (e : Status)
  /-- The row is placed and its scope does not commit. -/
  | rolledBack (e : Status) (flushed : Bool)

/-- `BeginForeignIndexBuild`.  `prepared` is what `PrepareIndexDef` answers before it issues the
    oid; an oid issued for a definition that the wire refuses is burned. -/
def beginForeignIndexBuild (ownerOf : Oid → Nat) (w : World π ε) (tableName : String)
    (tableByteOffset : Nat) (ownerCore : Nat) (prepared : StatusOr IndexDef)
    (inExplicitTxn : Bool) : World π ε × Option Status :=
  if inExplicitTxn then
    (w, some (.unsupported ("CREATE INDEX on '" ++ tableName ++ "' at byte " ++
      toString tableByteOffset ++ ": the relation is owned by core " ++ toString ownerCore ++
      ", which refuses its writes from the build until this statement ends - inside a " ++
      "transaction, the client's COMMIT; run it in autocommit (workplan-peer-writer.md " ++
      "PW1c-6b-3)")))
  else
    match prepared with
    | .error e => (w, some e)
    | .ok def_ =>
      let def_ := { def_ with indexOid := w.nextIndexOid }
      let requestId := w.nextRemoteRequest
      let w := { w with
        nextIndexOid := w.nextIndexOid + 1
        nextRemoteRequest := requestId + 1 }
      match indexBuildRequestOf (ownerOf def_.tableOid) requestId def_ with
      | .error e => (w, some e)
      | .ok request =>
        ({ w with
            waiting := Function.update w.waiting requestId
              (some { deadlineNs := w.now + kIndexBuildReplyDeadlineNs })
            requests := w.requests ++ [request]
            parked := w.parked ++ [⟨requestId, ownerOf def_.tableOid, def_, tableName⟩] },
          none)

/-- What a parked statement's waiter says: publish, or the refusal. -/
def verdict (build : PendingIndexBuild) : Option BuildOutcome → StatusOr Unit
  | none => .error ⟨.ioError, "CREATE INDEX on '" ++ build.tableName ++
      "': the wait for core " ++ toString build.ownerCore ++
      "'s build was closed under the statement"⟩
  | some out =>
    if out.arrived then
      match out.status with
      | some e => .error (e.withContext ("CREATE INDEX on '" ++ build.tableName ++
          "': core " ++ toString build.ownerCore ++ " refused the build"))
      | none => .ok ()
    else .error (.txnConflict ("CREATE INDEX on '" ++ build.tableName ++ "': core " ++
        toString build.ownerCore ++ " did not reply within " ++
        toString (kIndexBuildReplyDeadlineNs / 1000000000) ++
        " s; the build is abandoned and the owner told (workplan-peer-writer.md PW1c-6b-3)"))

/-- `CreateIndex` under its DDL scope: the row, the flush its invalidation hook does, the commit. -/
def createIndex (w : World π ε) (def_ : IndexDef) (ending : PublishEnd) :
    World π ε × Option Status :=
  if w.indexes.any fun d => d.name = def_.name then
    (w, some ⟨.alreadyExists, "catalog: an index named '" ++
      textOf def_.name ++ "' already exists"⟩)
  else
    let flush := fun (flushed : Bool) => if flushed then w.indexes ++ [def_] else w.device
    match ending with
    | .refused e => (w, some e)
    | .rolledBack e flushed => ({ w with device := flush flushed }, some e)
    | .committed flushed =>
      ({ w with indexes := w.indexes ++ [def_], device := flush flushed }, none)

/-- `FinishIndexBuild`.  The durability wait that follows a published row moves nothing. -/
def finishIndexBuild (w : World π ε) (build : PendingIndexBuild) (rest : List PendingIndexBuild)
    (ending : PublishEnd) : World π ε :=
  let closed := w.close rest build.requestId
  match verdict build (w.waiting build.requestId) with
  | .error _ => closed.done build.ownerCore build.def_.indexOid false
  | .ok () =>
    match createIndex closed build.def_ ending with
    | (w', some _) => w'.done build.ownerCore build.def_.indexOid false
    | (w', none) => w'.done build.ownerCore build.def_.indexOid true

/-- The reply receiver.  A reply with no waiter is core 0 having given up, and a successful one is
    answered so that the owner's window closes. -/
def onReply (w : World π ε) (reply : BuildReply) : World π ε :=
  match w.waiting reply.requestId with
  | none =>
    match reply.status with
    | none => w.done reply.srcCore reply.indexOid false
    | some _ => w
  | some out => { w with
      waiting := Function.update w.waiting reply.requestId
        (some { out with status := reply.status, arrived := true }) }

-- The owner

/-- `OnRequest`: refuse with a reply, or open the window and queue the build. -/
def onRequest (ownerOf : Oid → Nat) (w : World π ε) (request : BuildRequest)
    (tableRow : Option Status) : World π ε :=
  let def_ := request.def_
  let owner := w.cores request.dstCore
  if def_.keyCols = [] ∨ kMaxIndexKeyColumns < def_.keyCols.length ∨
      kMaxIndexCoveredColumns < def_.coveredCols.length then
    w.reply request (some (.invalidArgument ("index build request names " ++
      toString def_.keyCols.length ++ " key and " ++ toString def_.coveredCols.length ++
      " covered columns, not a shape an index entry has")))
  else if def_.indexOid = 0 then
    w.reply request (some (.invalidArgument ("index build request carries index oid 0, which " ++
      "names the clustered root rather than an index slot")))
  else
    match tableRow with
    | some e => w.reply request (some e)
    | none =>
      if ownerOf def_.tableOid ≠ request.dstCore then
        w.reply request (some (.unsupported ("relation oid " ++ toString def_.tableOid ++
          " is owned by core " ++ toString (ownerOf def_.tableOid) ++ ", not core " ++
          toString request.dstCore ++ "; an index is built by its relation's owner " ++
          "(workplan-peer-writer.md §7c)")))
      else if owner.covers def_.tableOid then
        w.reply request (some (.txnConflict ("relation oid " ++ toString def_.tableOid ++
          " already has an index build pending on core " ++ toString request.dstCore ++
          "; retry when it ends")))
      else
        { w.setCore request.dstCore (owner.openWindow def_.tableOid def_.indexOid w.now) with
          builds := w.builds ++ [request] }

/-- What a build task meets on the owner: the checks before the tree, each row of the backfill,
    the anchor slot, the log's sync. -/
structure BuildInputs where
  checked : Option Status := none
  rows : Nat → RowFaults := fun _ => {}
  seeded : Option Status := none
  synced : Option Status := none

variable [DecidableEq ε] (entryOf : IndexDef → π → ε)

/-- The tree of a build, or why there is none. -/
def built (store : RowStore π ε) (def_ : IndexDef) (inputs : BuildInputs) :
    StatusOr (List (ε × Nat)) :=
  match inputs.checked with
  | some e => .error e
  | none =>
    match backfill (entryOf def_) def_.tableOid inputs.rows 0 store.rows [] with
    | .error e => .error e
    | .ok tree =>
      match inputs.seeded, inputs.synced with
      | some e, _ => .error (e.withContext "seeding the anchor slot")
      | none, some e => .error (e.withContext "making the built tree durable")
      | none, none => .ok tree

/-- `Build`: one task.  A failed build closes its own window. -/
def build (w : World π ε) (request : BuildRequest) (inputs : BuildInputs) : World π ε :=
  let owner := w.cores request.dstCore
  match built entryOf owner.store request.def_ inputs with
  | .error e => (w.setCore request.dstCore (owner.close request.def_.indexOid)).reply request
    (some e)
  | .ok tree =>
    (w.setCore request.dstCore { owner with store := { owner.store with
      trees := Function.update owner.store.trees request.def_.indexOid tree } }).reply request none

omit [DecidableEq ε] in
/-- `OnDone`: the window of the index closes, and `committed` drops the catalog cache; a `done`
    that matches no window is ignored. -/
def onDone (w : World π ε) (msg : BuildDone) (evicted : Bool) : World π ε :=
  let owner := w.cores msg.dstCore
  if owner.windows.any fun e => e.indexOid == msg.indexOid then
    let closed := owner.close msg.indexOid
    w.setCore msg.dstCore
      (if msg.committed then closed.invalidateCatalog w.device evicted else closed)
  else w

omit [DecidableEq ε] in
/-- `Expire`: every window past the ceiling closes, and then the cache is dropped. -/
def expire (w : World π ε) (core : Nat) (evicted : Bool) : World π ε :=
  let owner := w.cores core
  if owner.windows.any (·.expired w.now) then
    w.setCore core (OwnerCore.invalidateCatalog
      { owner with windows := owner.windows.filter fun e => !e.expired w.now } w.device evicted)
  else w

-- The system

inductive Action (π : Type) where
  | advance (ns : Nat)
  | create (tableName : String) (tableByteOffset ownerCore : Nat) (prepared : StatusOr IndexDef)
      (inExplicitTxn : Bool)
  | deliverRequest (i : Nat) (tableRow : Option Status)
  | runBuild (i : Nat) (inputs : BuildInputs)
  | deliverReply (i : Nat)
  | finish (i : Nat) (ending : PublishEnd)
  /-- `Dispatch` off the reactor: the statement is given up at once. -/
  | abandon (i : Nat)
  | deliverDone (i : Nat) (evicted : Bool)
  | tick (core : Nat) (evicted : Bool)
  /-- A later flush of the catalog pages: a checkpoint, or another DDL's. -/
  | flush
  /-- A catalog invalidation reaches a core. -/
  | invalidate (core : Nat) (evicted : Bool)
  | rows (core : Nat) (act : RowAction π)

/-- One step; `none` where the action cannot be taken. -/
def step (ownerOf : Oid → Nat) (w : World π ε) : Action π → Option (World π ε)
  | .advance ns => some { w with now := w.now + ns }
  | .create tableName tableByteOffset ownerCore prepared inExplicitTxn =>
    -- a relation of core 0's own is built by the statement itself
    if prepared.toOption.map (fun d => ownerOf d.tableOid) = some 0 then none
    else some (beginForeignIndexBuild ownerOf w tableName tableByteOffset ownerCore prepared
      inExplicitTxn).1
  | .deliverRequest i tableRow =>
    match Lib.deliver w.requests i with
    | some (request, rest) =>
      some (onRequest ownerOf { w with requests := rest } request tableRow)
    | none => none
  | .runBuild i inputs =>
    match Lib.deliver w.builds i with
    | some (request, rest) => some (build entryOf { w with builds := rest } request inputs)
    | none => none
  | .deliverReply i =>
    match Lib.deliver w.replies i with
    | some (reply, rest) => some (onReply { w with replies := rest } reply)
    | none => none
  | .finish i ending =>
    match Lib.deliver w.parked i with
    | some (pending, rest) =>
      if w.settled pending.requestId then some (finishIndexBuild w pending rest ending)
      else none
    | none => none
  | .abandon i =>
    match Lib.deliver w.parked i with
    | some (pending, rest) => some ((w.close rest pending.requestId).done pending.ownerCore
        pending.def_.indexOid false)
    | none => none
  | .deliverDone i evicted =>
    match Lib.deliver w.dones i with
    | some (msg, rest) => some (onDone { w with dones := rest } msg evicted)
    | none => none
  | .tick core evicted => some (expire w core evicted)
  | .flush => some { w with device := w.indexes }
  | .invalidate core evicted =>
    some (w.setCore core ((w.cores core).invalidateCatalog w.device evicted))
  | .rows core act =>
    match rowStep entryOf (w.cores core).covers (w.cores core).store act with
    | some store => some (w.setCore core { w.cores core with store := store })
    | none => none

end

end Kds.Server.IndexBuild
