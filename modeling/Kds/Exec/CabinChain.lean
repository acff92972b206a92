/-
  Kds.Exec.CabinChain

  Below the directory: the pages an assertion's entries lie on and the ASSERT records of the log
  (`src/storage/cabin_bound_page.cpp`, the chain writer of `src/exec/assertion_build.cpp`), and
  the fold that rebuilds a directory from the records (`src/exec/assertion_replay.cpp`).

  A page is the list of its entries and is numbered by its place in its assertion's chain.  The
  records are kept per assertion: each names its assertion, and the fold of one skips the others'.
  Left out of an entry are the pk and the location hint, which no header depends on.
-/

import Kds.Exec.BoundCabin
import Mathlib.Data.List.Basic
import Mathlib.Logic.Function.Basic

namespace Kds.Exec

-- Pages

/-- `BoundCabinEntry`, its flags apart. -/
structure CabinEntry where
  groupId : Nat
  value : Int
  departure : Bool := false
  reserved : Bool := false
  orphaned : Bool := false
  deriving DecidableEq

def kMaxEntriesPerPage : Nat := 254

abbrev CabinPages := PageId → List CabinEntry

namespace CabinPages

def readError (pages : CabinPages) (loc : EntryAt) : Status :=
  .outOfRange ("bound cabin entry " ++ toString loc.2 ++ " is past the page's " ++
    toString (pages loc.1).length)

/-- `BoundCabinPage::Read`. -/
def read (pages : CabinPages) (loc : EntryAt) : StatusOr CabinEntry :=
  match (pages loc.1)[loc.2]? with
  | some entry => .ok entry
  | none => .error (pages.readError loc)

/-- `BoundCabinPage::Append` on a page that is not full. -/
def append (pages : CabinPages) (page : PageId) (entry : CabinEntry) : CabinPages :=
  Function.update pages page (pages page ++ [entry])

/-- `BoundCabinPage::Write` of an entry the page holds. -/
def write (pages : CabinPages) (loc : EntryAt) (entry : CabinEntry) : CabinPages :=
  Function.update pages loc.1 ((pages loc.1).set loc.2 entry)

/-- `SetFlags`: read, move a flag, write back. -/
def setFlags (pages : CabinPages) (loc : EntryAt) (move : CabinEntry → CabinEntry) :
    StatusOr CabinPages :=
  match pages.read loc with
  | .error e => .error e
  | .ok entry => .ok (pages.write loc (move entry))

def clearReserved (pages : CabinPages) (loc : EntryAt) : StatusOr CabinPages :=
  pages.setFlags loc fun entry => { entry with reserved := false }

def markOrphaned (pages : CabinPages) (loc : EntryAt) : StatusOr CabinPages :=
  pages.setFlags loc fun entry => { entry with orphaned := true }

end CabinPages

-- The chain and its records

inductive AssertRecord where
  | build (loc : EntryAt) (entry : CabinEntry) (key : List UInt8)
  | reserve (loc : EntryAt) (entry : CabinEntry) (key : List UInt8)
  | commit (page : PageId) (indexes : List Nat)
  | rollback (loc : EntryAt) (delta : Int) (departure : Bool) (key : List UInt8)
  deriving DecidableEq

/-- An assertion's pages, the chain's last one, and the records written about them. -/
structure EntryChain where
  pages : CabinPages := fun _ => []
  tail : PageId := 0
  log : List AssertRecord := []

/-- Where an append stops: with no page to write to (the tail cannot be had, or no page can be
    allocated), with the entry on its page and no record, or with the record and the page's LSN not
    stamped. -/
inductive AppendFault where
  | none
  | unappended (status : Status)
  | unlogged (status : Status)
  | unstamped (status : Status)
  deriving DecidableEq

namespace EntryChain

/-- Where the next entry goes: behind the tail's last, or on a new page behind a full tail. -/
def next (c : EntryChain) : EntryAt :=
  if (c.pages c.tail).length < kMaxEntriesPerPage then (c.tail, (c.pages c.tail).length)
  else (c.tail + 1, (c.pages (c.tail + 1)).length)

/-- `BoundCabinChainWriter::Append`: the page, then the record `record` makes of the place, then
    the stamp. -/
def append (c : EntryChain) (fault : AppendFault) (entry : CabinEntry)
    (record : EntryAt → AssertRecord) : EntryChain × StatusOr EntryAt :=
  let placed := { c with pages := c.pages.append c.next.1 entry, tail := c.next.1 }
  let logged := { placed with log := c.log ++ [record c.next] }
  match fault with
  | .none => (logged, .ok c.next)
  | .unappended status => (c, .error status)
  | .unlogged status => (placed, .error status)
  | .unstamped status => (logged, .error status)

end EntryChain

-- Re-summing

/-- Two's complement negation of an `int64_t`: the least value is its own negative. -/
def negate64 (v : Int) : Int := if v = -2 ^ 63 then v else -v

/-- One group of `VerifyAgainstEntries`: the linked entries added up in their order. -/
def resum (pages : CabinPages) : List EntryAt → Int × Int → StatusOr (Int × Int)
  | [], total => .ok total
  | loc :: rest, (count, sum) =>
    match pages.read loc with
    | .error e => .error (e.withContext "re-summing a bound cabin group")
    | .ok entry =>
      match checkedAdd count (if entry.departure then -1 else 1) with
      | none => .error (.outOfRange "bound cabin: overflow while re-counting a group")
      | some count' =>
        match checkedAdd sum (if entry.departure then negate64 entry.value
            else entry.value) with
        | none => .error (.outOfRange "bound cabin: overflow while re-summing a group")
        | some sum' => resum pages rest (count', sum')

def disagreement (h : GroupHeader) (count sum : Int) : Status :=
  .corruption ("bound cabin: group header disagrees with its entries (header count=" ++
    toString h.count ++ " sum=" ++ toString h.sum ++ ", entries count=" ++ toString count ++
    " sum=" ++ toString sum ++ ")")

/-- `VerifyAgainstEntries`. -/
def verifyAgainstEntries (pages : CabinPages) : List GroupHeader → StatusOr Unit
  | [] => .ok ()
  | h :: rest =>
    match resum pages h.entries (0, 0) with
    | .error e => .error e
    | .ok (count, sum) =>
      if count = h.count ∧ sum = h.sum then verifyAgainstEntries pages rest
      else .error (disagreement h count sum)

-- Replay

namespace BoundCabin

/-- `FindById`. -/
def findById (c : BoundCabin) (groupId : Nat) : Option GroupHeader :=
  c.groups.find? fun h => h.groupId = groupId

/-- `RestoreGroup`. -/
def restoreGroup (c : BoundCabin) (groupId : Nat) (key : List UInt8) (count sum : Int) :
    StatusOr BoundCabin :=
  if groupId = 0 then
    .error (.invalidArgument
      "bound cabin: a snapshot named group id 0, which is the reserved 'no group' value")
  else if (c.findById groupId).isSome then
    .error (.invalidArgument ("bound cabin: snapshot names group id " ++ toString groupId ++
      " twice"))
  else if (c.find key).isSome then
    .error (.invalidArgument ("bound cabin: snapshot names the same group key twice, so one " ++
      "of them would be unreachable by key"))
  else .ok {
    groups := c.groups ++ [{ key := key, groupId := groupId, count := count, sum := sum }]
    nextGroupId := if c.nextGroupId ≤ groupId then (groupId + 1) % 2 ^ 32 else c.nextGroupId }

/-- `AdoptGroupId`: a replayed record's id decides which group its key is. -/
def adoptGroupId (c : BoundCabin) (key : List UInt8) (groupId : Nat) : StatusOr BoundCabin :=
  if groupId = 0 then
    .error (.corruption ("bound cabin: a replayed record carries group id 0, which is the " ++
      "reserved 'no group' value (docs/spec/assertion.md §5.1)"))
  else
    match c.find key with
    | some existing =>
      if existing.groupId = groupId then .ok c
      else .error (.corruption ("bound cabin: replayed record names group id " ++
        toString groupId ++ " for a group the directory holds as " ++
        toString existing.groupId))
    | none =>
      if (c.findById groupId).isSome then
        .error (.corruption ("bound cabin: replayed group id " ++ toString groupId ++
          " already belongs to a different group key"))
      else c.restoreGroup groupId key 0 0

/-- `AttachEntry`: link an entry to the group its id names. -/
def attachEntry (c : BoundCabin) (groupId : Nat) (loc : EntryAt) : StatusOr BoundCabin :=
  match c.findById groupId with
  | none => .error (.notFound ("bound cabin: no restored group carries id " ++ toString groupId))
  | some h => .ok (c.modify h.key fun h => { h with entries := h.entries ++ [loc] })

end BoundCabin

/-- What the fold rebuilds of one assertion: its directory, on pages that may have reached the
    device before the crash or not. -/
structure Replaying where
  cabin : BoundCabin := {}
  pages : CabinPages

/-- The page half of `ReplayEntry`: the entry at the append point, or rewritten where it is. -/
def replayEntryPage (pages : CabinPages) (loc : EntryAt) (entry : CabinEntry) :
    StatusOr CabinPages :=
  let count := (pages loc.1).length
  if loc.2 = count then
    if count < kMaxEntriesPerPage then .ok (pages.append loc.1 entry)
    else .error ((Status.outOfSpace ("bound cabin page is full (" ++
      toString kMaxEntriesPerPage ++ " entries)")).withContext
        "assert replay: appending the entry")
  else if loc.2 < count then .ok (pages.write loc entry)
  else .error (.corruption ("assert replay: entry index " ++ toString loc.2 ++
    " is past the append point " ++ toString count))

/-- `ReplayEntry`, which RESERVE and BUILD share. -/
def replayEntry (mustBeReserved : Bool) (loc : EntryAt) (entry : CabinEntry) (key : List UInt8)
    (s : Replaying) : StatusOr Replaying :=
  if entry.reserved ≠ mustBeReserved then
    .error (.corruption (if mustBeReserved then
      "assert replay: ASSERT_RESERVE entry is not reserved"
      else "assert replay: ASSERT_BUILD entry is reserved"))
  else if !mustBeReserved && entry.departure then
    .error (.corruption "assert replay: ASSERT_BUILD entry is a departure")
  else
    match replayEntryPage s.pages loc entry with
    | .error e => .error e
    | .ok pages =>
      match s.cabin.adoptGroupId key entry.groupId with
      | .error e => .error (e.withContext "assert replay: binding the entry's group id")
      | .ok cabin =>
        match if entry.departure then cabin.applyDeparture key entry.value loc
            else cabin.apply key entry.value loc with
        | .error e => .error (e.withContext "assert replay: applying the group delta")
        | .ok cabin => .ok { cabin := cabin, pages := pages }

/-- `ReplayCommit`: flags move, the directory does not. -/
def replayCommit (page : PageId) : List Nat → Replaying → StatusOr Replaying
  | [], s => .ok s
  | index :: rest, s =>
    match s.pages.clearReserved (page, index) with
    | .error e => .error (e.withContext "assert replay: clearing the reserved flag")
    | .ok pages => replayCommit page rest { s with pages := pages }

/-- The relinking of `ReplayRollback`: an entry the group no longer lists is put back first, for
    the compensation to take away. -/
def relink (c : BoundCabin) (loc : EntryAt) (key : List UInt8) : StatusOr BoundCabin :=
  match c.find key with
  | none => .ok c
  | some h =>
    if loc ∈ h.entries then .ok c
    else
      match c.attachEntry h.groupId loc with
      | .error e => .error (e.withContext
          "assert replay: relinking an entry the page walk skipped")
      | .ok c' => .ok c'

/-- `ReplayRollback`. -/
def replayRollback (loc : EntryAt) (delta : Int) (departure : Bool) (key : List UInt8)
    (s : Replaying) : StatusOr Replaying :=
  match s.pages.markOrphaned loc with
  | .error e => .error (e.withContext "assert replay: marking the entry orphaned")
  | .ok pages =>
    match relink s.cabin loc key with
    | .error e => .error e
    | .ok cabin =>
      match if departure then cabin.unapplyDeparture key delta loc
          else cabin.unapply key delta loc with
      | .error e => .error (e.withContext "assert replay: compensating a reservation")
      | .ok cabin => .ok { cabin := cabin, pages := pages }

/-- `ReplayAssertionRecord`. -/
def replayAssertionRecord (record : AssertRecord) (s : Replaying) : StatusOr Replaying :=
  match record with
  | .build loc entry key => replayEntry false loc entry key s
  | .reserve loc entry key => replayEntry true loc entry key s
  | .commit page indexes => replayCommit page indexes s
  | .rollback loc delta departure key => replayRollback loc delta departure key s

/-- The fold over an assertion's records, from the first on. -/
def replay : List AssertRecord → Replaying → StatusOr Replaying
  | [], s => .ok s
  | record :: rest, s =>
    match replayAssertionRecord record s with
    | .error e => .error e
    | .ok s' => replay rest s'

theorem replay_append (log log' : List AssertRecord) {s s' : Replaying}
    (h : replay log s = .ok s') : replay (log ++ log') s = replay log' s' := by
  induction log generalizing s with
  | nil =>
    cases h
    rfl
  | cons record rest ih =>
    simp only [List.cons_append, replay] at h ⊢
    cases hrec : replayAssertionRecord record s with
    | error e => simp [hrec] at h
    | ok s₁ =>
      simp only [hrec] at h ⊢
      exact ih h

end Kds.Exec
