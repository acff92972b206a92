/-
  Kds.Exec.CabinCalls

  The enforcer over its pages and its log (`src/exec/assertion_check.cpp`,
  `src/exec/assertion_build.cpp`): the same calls as `Kds.Exec.AssertionCheck`, here with the
  entry each reservation leaves on its page, the ASSERT record behind it, and every place a page
  or the log can refuse.

  * `buildBoundCabin` folds a relation's rows into a new directory;
  * `reserveInsert`, `admitAndReserveUpdate` and `reserveDelete` walk the assertions on a
    relation, each appending the entries its plan names, and stop at the first error;
  * `commitTxn` settles a transaction's entries page by page, `abortTxn` takes its reservations
    back, newest first.  Both take the list out of the pending map before anything can fail.
-/

import Kds.Exec.AssertionCheck
import Kds.Exec.CabinChain
import Mathlib.Algebra.Group.Prod

namespace Kds.Exec

open Function (update update_self update_of_ne)

-- State

/-- `LiveAssertion` with its chain. -/
structure EnforcedAssertion extends LiveAssertion where
  chain : EntryChain := {}

/-- A group's count and sum. -/
def BoundCabin.headerAt (c : BoundCabin) (key : List UInt8) : Int × Int :=
  (c.countOf key, c.sumOf key)

/-- `AssertionEnforcer`: `live_`, `by_oid_` and `pending_`. -/
structure CabinState where
  live : Nat → Option EnforcedAssertion := fun _ => none
  byOid : Oid → List Nat := fun _ => []
  pending : TxnId → List Reservation := fun _ => []
  /-- By how much the calls of a transaction have moved a header since it last settled. -/
  moved : TxnId → Nat → List UInt8 → Int × Int := fun _ _ _ => (0, 0)

namespace CabinState

def setLive (s : CabinState) (id : Nat) (a : EnforcedAssertion) : CabinState :=
  { s with live := update s.live id (some a) }

def setPending (s : CabinState) (t : TxnId) (rs : List Reservation) : CabinState :=
  { s with pending := update s.pending t rs }

@[simp] theorem setLive_self (s : CabinState) (id : Nat) (a : EnforcedAssertion) :
    (s.setLive id a).live id = some a := update_self ..

theorem setLive_of_ne (s : CabinState) {id j : Nat} (a : EnforcedAssertion) (h : j ≠ id) :
    (s.setLive id a).live j = s.live j := update_of_ne h ..

@[simp] theorem setPending_self (s : CabinState) (t : TxnId) (rs : List Reservation) :
    (s.setPending t rs).pending t = rs := update_self ..

theorem setPending_of_ne (s : CabinState) {t t' : TxnId} (rs : List Reservation) (h : t' ≠ t) :
    (s.setPending t rs).pending t' = s.pending t' := update_of_ne h ..

/-- What a header reads, zero where there is no such assertion or group. -/
def header (s : CabinState) (id : Nat) (key : List UInt8) : Int × Int :=
  match s.live id with
  | some a => a.cabin.headerAt key
  | none => (0, 0)

end CabinState

-- One entry

/-- An entry that a call is about to append. -/
structure PlannedEntry where
  key : List UInt8
  departure : Bool
  value : Int
  deriving DecidableEq

/-- The steps `ReserveOne` and the builder share: the group's id, the append, the header.  An
    arrival's group is born before the append, a departure's is looked up. -/
def EnforcedAssertion.enter (a : EnforcedAssertion) (fault : AppendFault) (reserved : Bool)
    (p : PlannedEntry) : EnforcedAssertion × StatusOr EntryAt :=
  let cabin := if p.departure then a.cabin else a.cabin.ensureGroup p.key
  let entry : CabinEntry := {
    groupId := ((cabin.find p.key).map (·.groupId)).getD 0, value := p.value
    departure := p.departure, reserved := reserved }
  let record := fun loc =>
    if reserved then AssertRecord.reserve loc entry p.key else .build loc entry p.key
  let appended := a.chain.append fault entry record
  let a₁ := { a with cabin := cabin, chain := appended.1 }
  match appended.2 with
  | .error e => (a₁, .error e)
  | .ok loc =>
    match if p.departure then cabin.applyDeparture p.key p.value loc
        else cabin.apply p.key p.value loc with
    | .error e => (a₁, .error e)
    | .ok cabin' => ({ a₁ with cabin := cabin' }, .ok loc)

/-- `ReserveOne`. -/
def reserveEntry (t : TxnId) (id : Nat) (fault : AppendFault) (p : PlannedEntry)
    (s : CabinState) : Outcome CabinState :=
  match s.live id with
  | none => (s, none)
  | some a =>
    match a.enter fault true p with
    | (a', .error e) => (s.setLive id a', some e)
    | (a', .ok loc) =>
      let r : Reservation := ⟨id, p.key, p.departure, p.value, loc⟩
      ((s.setLive id a').setPending t (s.pending t ++ [r]), none)

-- The three reserving calls

/-- Where the appends of one call stop: by assertion, and for the departure or the arrival. -/
abbrev AppendFaults := Nat → Bool → AppendFault

/-- What a call reserves under one assertion: at most one departure, then at most one arrival. -/
structure ReservePlan where
  leaves : Option (List UInt8 × Int) := none
  arrives : Option (List UInt8 × Int) := none
  deriving DecidableEq

/-- The half of a plan that leaves or arrives; an absent half reserves nothing. -/
def reserveHalf (t : TxnId) (id : Nat) (faults : AppendFaults) (departure : Bool)
    (half : Option (List UInt8 × Int)) (s : CabinState) : Outcome CabinState :=
  match half with
  | none => (s, none)
  | some (key, value) => reserveEntry t id (faults id departure) ⟨key, departure, value⟩ s

/-- One assertion's reservations: the old contribution leaves, the new one arrives. -/
def reservePlan (t : TxnId) (id : Nat) (faults : AppendFaults) (plan : ReservePlan)
    (s : CabinState) : Outcome CabinState :=
  match reserveHalf t id faults true plan.leaves s with
  | (s', some e) => (s', some e)
  | (s', none) => reserveHalf t id faults false plan.arrives s'

/-- The loop over the assertions on a relation, each with its own plan or refusal. -/
def reserveAll (t : TxnId) (faults : AppendFaults)
    (planOf : LiveAssertion → StatusOr ReservePlan) :
    List Nat → CabinState → Outcome CabinState
  | [], s => (s, none)
  | id :: rest, s =>
    match s.live id with
    | none => reserveAll t faults planOf rest s
    | some a =>
      match planOf a.toLiveAssertion with
      | .error e => (s, some e)
      | .ok plan =>
        match reservePlan t id faults plan s with
        | (s', some e) => (s', some e)
        | (s', none) => reserveAll t faults planOf rest s'

def insertPlan (values : List AstValue) (a : LiveAssertion) : StatusOr ReservePlan :=
  .ok { arrives := some (a.decl.keyFor values 1, a.decl.contributionOf values 1) }

def deletePlan (oldRow : List AstValue) (a : LiveAssertion) : StatusOr ReservePlan :=
  .ok { leaves := some (a.decl.keyFor oldRow 0, a.decl.contributionOf oldRow 0) }

/-- The checks of `AdmitAndReserveUpdate`, which move nothing. -/
def updatePlan (formatValue : Nat → AstValue → String) (oldRow newRow : List AstValue)
    (a : LiveAssertion) : StatusOr ReservePlan :=
  let oldKey := a.decl.keyFor oldRow 0
  let newKey := a.decl.keyFor newRow 0
  let oldContrib := a.decl.contributionOf oldRow 0
  let newContrib := a.decl.contributionOf newRow 0
  let move : ReservePlan :=
    { leaves := some (oldKey, oldContrib), arrives := some (newKey, newContrib) }
  if oldKey = newKey then
    if oldContrib = newContrib then .ok {}
    else
      match checkedAdd newContrib (-oldContrib) with
      | none => .error (.outOfRange ("assertion \"" ++ a.decl.name ++
          "\": SUM delta overflows int64"))
      | some delta =>
        match if 0 < delta then a.check formatValue newKey delta newRow 0 else none with
        | some e => .error e
        | none => .ok move
  else
    match a.check formatValue newKey newContrib newRow 0 with
    | some e => .error e
    | none => .ok move

/-- `ReserveInsert`. -/
def CabinState.reserveInsert (s : CabinState) (t : TxnId) (oid : Oid) (values : List AstValue)
    (faults : AppendFaults) : Outcome CabinState :=
  reserveAll t faults (insertPlan values) (s.byOid oid) s

/-- `AdmitAndReserveUpdate`. -/
def CabinState.admitAndReserveUpdate (s : CabinState) (formatValue : Nat → AstValue → String)
    (t : TxnId) (oid : Oid) (oldRow newRow : List AstValue) (faults : AppendFaults) :
    Outcome CabinState :=
  reserveAll t faults (updatePlan formatValue oldRow newRow) (s.byOid oid) s

/-- `ReserveDelete`. -/
def CabinState.reserveDelete (s : CabinState) (t : TxnId) (oid : Oid) (oldRow : List AstValue)
    (faults : AppendFaults) : Outcome CabinState :=
  reserveAll t faults (deletePlan oldRow) (s.byOid oid) s

-- Commit

/-- Where a record about entries already written stops: not logged, logged and the page not
    touched, or touched and not stamped. -/
inductive SettleFault where
  | none
  | unlogged (status : Status)
  | untouched (status : Status)
  | unstamped (status : Status)
  deriving DecidableEq

/-- One insertion into `CommitTxn`'s map from (assertion, page) to entry indexes. -/
def addToBatch (place : Nat × PageId) (index : Nat) :
    List ((Nat × PageId) × List Nat) → List ((Nat × PageId) × List Nat)
  | [] => [(place, [index])]
  | (p, indexes) :: rest =>
    if p = place then (p, indexes ++ [index]) :: rest
    else if place.1 < p.1 ∨ (place.1 = p.1 ∧ place.2 < p.2) then
      (place, [index]) :: (p, indexes) :: rest
    else (p, indexes) :: addToBatch place index rest

/-- The batches of a commit, the reservations of dropped assertions left out. -/
def batchesOf (live : Nat → Option EnforcedAssertion) :
    List Reservation → List ((Nat × PageId) × List Nat) → List ((Nat × PageId) × List Nat)
  | [], batches => batches
  | r :: rest, batches =>
    batchesOf live rest
      (if (live r.assertionId).isSome then addToBatch (r.assertionId, r.loc.1) r.loc.2 batches
        else batches)

def clearAll (page : PageId) : List Nat → CabinPages → Outcome CabinPages
  | [], pages => (pages, none)
  | index :: rest, pages =>
    match pages.clearReserved (page, index) with
    | .error e => (pages, some (e.withContext "assert commit: clearing the reserved flag"))
    | .ok pages' => clearAll page rest pages'

/-- One page of a commit: log, then clear, then stamp. -/
def settlePage (fault : SettleFault) (place : Nat × PageId) (indexes : List Nat)
    (s : CabinState) : Outcome CabinState :=
  match s.live place.1 with
  | none => (s, none)
  | some a =>
    let logged := { a.chain with log := a.chain.log ++ [.commit place.2 indexes] }
    let cleared := clearAll place.2 indexes logged.pages
    let s' := s.setLive place.1 { a with chain := { logged with pages := cleared.1 } }
    match fault with
    | .unlogged e => (s, some e)
    | .untouched e => (s.setLive place.1 { a with chain := logged }, some e)
    | .unstamped e => (s', some (cleared.2.getD e))
    | .none => (s', cleared.2)

def settlePages (faults : Nat × PageId → SettleFault) :
    List ((Nat × PageId) × List Nat) → CabinState → Outcome CabinState
  | [], s => (s, none)
  | (place, indexes) :: rest, s =>
    match settlePage (faults place) place indexes s with
    | (s', some e) => (s', some e)
    | (s', none) => settlePages faults rest s'

/-- `CommitTxn`. -/
def CabinState.commitTxn (s : CabinState) (t : TxnId) (faults : Nat × PageId → SettleFault) :
    Outcome CabinState :=
  settlePages faults (batchesOf s.live (s.pending t) []) (s.setPending t [])

-- Abort

/-- One reservation of `AbortTxn`: the header, then log, then mark, then stamp. -/
def abortEntry (fault : SettleFault) (r : Reservation) (s : CabinState) : Outcome CabinState :=
  match s.live r.assertionId with
  | none => (s, none)
  | some a =>
    match unreserve r a.cabin with
    | .error e => (s, some e)
    | .ok cabin =>
      let logged := { a.chain with
        log := a.chain.log ++ [.rollback r.loc r.value r.departure r.key] }
      let put := fun chain => s.setLive r.assertionId { a with cabin := cabin, chain := chain }
      match fault with
      | .unlogged e => (put a.chain, some e)
      | .untouched e => (put logged, some e)
      | _ =>
        match logged.pages.markOrphaned r.loc with
        | .error e => (put logged, some (e.withContext
            "assert abort: marking the entry orphaned"))
        | .ok pages =>
          (put { logged with pages := pages },
            match fault with | .unstamped e => some e | _ => none)

/-- The loop of `AbortTxn` over the reservations put in reverse order. -/
def abortEntries (faults : Nat → SettleFault) : Nat → List Reservation → CabinState →
    Outcome CabinState
  | _, [], s => (s, none)
  | n, r :: rest, s =>
    match abortEntry (faults n) r s with
    | (s', some e) => (s', some e)
    | (s', none) => abortEntries faults (n + 1) rest s'

/-- `AbortTxn`. -/
def CabinState.abortTxn (s : CabinState) (t : TxnId) (faults : Nat → SettleFault) :
    Outcome CabinState :=
  abortEntries faults 0 (s.pending t).reverse (s.setPending t [])

-- Build

/-- The backfill's loop: each row's entry appended and applied, and the bound checked after it. -/
def buildRows (formatValue : Nat → AstValue → String) (faults : Nat → AppendFault) :
    Nat → List (List AstValue) → EnforcedAssertion → StatusOr EnforcedAssertion
  | _, [], a => .ok a
  | n, row :: rest, a =>
    let key := a.decl.keyFor row 0
    match a.enter (faults n) false ⟨key, false, a.decl.contributionOf row 0⟩ with
    | (_, .error e) => .error e
    | (a', .ok _) =>
      if a.decl.bound < a'.cabin.aggregateOf a.decl.aggregate key then
        .error (refuse formatValue a.decl row 0)
      else buildRows formatValue faults (n + 1) rest a'

/-- `BuildBoundCabin` over the rows its walk reads; `root` is the outcome of `EnsureRoot`. -/
def buildBoundCabin (formatValue : Nat → AstValue → String) (d : AssertionDecl)
    (root : Option Status) (faults : Nat → AppendFault) (rows : List (List AstValue)) :
    StatusOr EnforcedAssertion :=
  match root with
  | some e => .error e
  | none => buildRows formatValue faults 0 rows { decl := d, cabin := {} }

/-- `Adopt`, of an assertion under an id of its own. -/
def CabinState.adopt (s : CabinState) (a : EnforcedAssertion) : CabinState :=
  { s with
    live := update s.live a.decl.assertionId (some a)
    byOid := update s.byOid a.decl.targetOid
      (s.byOid a.decl.targetOid ++ [a.decl.assertionId]) }

-- The system

/-- One call of the enforcer, with the faults of its pages and its log. -/
inductive CabinAction where
  | build (d : AssertionDecl) (rows : List (List AstValue)) (root : Option Status)
      (faults : Nat → AppendFault)
  | insert (t : TxnId) (oid : Oid) (values : List AstValue) (faults : AppendFaults)
  | update (t : TxnId) (oid : Oid) (oldRow newRow : List AstValue) (faults : AppendFaults)
  | delete (t : TxnId) (oid : Oid) (oldRow : List AstValue) (faults : AppendFaults)
  | commit (t : TxnId) (faults : Nat × PageId → SettleFault)
  | abort (t : TxnId) (faults : Nat → SettleFault)

namespace CabinState

/-- Charge to a transaction what a call of its moved. -/
def charge (s : CabinState) (t : TxnId) (s' : CabinState) : CabinState :=
  { s' with
    moved := update s.moved t fun id key =>
      s.moved t id key + (s'.header id key - s.header id key) }

/-- What a settled transaction moved is no longer its own. -/
def settle (t : TxnId) (s : CabinState) : CabinState :=
  { s with moved := update s.moved t fun _ _ => (0, 0) }

end CabinState

/-- One step: the call's outcome is left behind whether it succeeded or not.  A build that fails
    leaves no assertion, and one under an id already live is not a step. -/
def cabinStep (formatValue : Nat → AstValue → String) (s : CabinState) :
    CabinAction → Option CabinState
  | .build d rows root faults =>
    match s.live d.assertionId with
    | some _ => none
    | none =>
      match buildBoundCabin formatValue d root faults rows with
      | .error _ => some s
      | .ok a => some (s.adopt a)
  | .insert t oid values faults => some (s.charge t (s.reserveInsert t oid values faults).1)
  | .update t oid oldRow newRow faults =>
    some (s.charge t (s.admitAndReserveUpdate formatValue t oid oldRow newRow faults).1)
  | .delete t oid oldRow faults => some (s.charge t (s.reserveDelete t oid oldRow faults).1)
  | .commit t faults => some ((s.commitTxn t faults).1.settle t)
  | .abort t faults => some (s.charge t (s.abortTxn t faults).1)

end Kds.Exec
