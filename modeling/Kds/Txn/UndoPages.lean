/-
  Kds.Txn.UndoPages

  The undo log on its pages (`src/txn/undo_log.cpp`, `src/txn/undo_page.cpp`): one page takes every
  transaction's records until it is full, and the pages at the old end of the chain are used again
  once no reader can want a record of theirs.

  A pointer is the page and the offset its record was put at.  It stands here as the number of the
  record it was handed out for, from 1 on, and `address` is what it is made of; so a pointer still
  says which record it was for after another record was put at the same place.
-/

import Kds.Txn.Manager

namespace Kds.Txn

open Lib Storage

def undoRecordsOffset : Nat := 56
def undoRecordHeaderSize : Nat := 44

-- One page

/-- An undo page: where its free space starts, and the records before that by their offset. -/
structure UndoPage where
  lower : Nat := undoRecordsOffset
  records : List (Nat × UndoVersion) := []
  deriving DecidableEq

namespace UndoPage

/-- `UndoPageFreeSpace`. -/
def freeSpace (page : UndoPage) : Nat := pageSize - page.lower

/-- `CheckRecord`; a pointer that was handed out is plausible. -/
def checkRecord (version : UndoVersion) : StatusOr Unit :=
  if maxUndoImageLen < version.image.length then
    .error (.invalidArgument ("undo image of " ++ toString version.image.length ++
      " bytes exceeds the " ++ toString maxUndoImageLen ++ "-byte page capacity"))
  else if maxTrxId < version.priorTrxId then
    .error (.invalidArgument ("prior_trx_id " ++ toString version.priorTrxId ++
      " exceeds the 48-bit transaction id space"))
  else if version.type ≠ .overwrite ∧ version.image ≠ [] then
    .error (.invalidArgument "an undo record of this type carries no before-image")
  else .ok ()

/-- `UndoPageAppend`: the page, and the offset of the record. -/
def append (page : UndoPage) (version : UndoVersion) : StatusOr (UndoPage × Nat) := do
  checkRecord version
  let need := undoRecordHeaderSize + version.image.length
  if page.freeSpace < need then
    .error (.outOfSpace ("undo page has " ++ toString page.freeSpace ++ " bytes free, needs " ++
      toString need))
  else .ok (⟨page.lower + need, page.records ++ [(page.lower, version)]⟩, page.lower)

/-- `UndoPageRead`. -/
def read (page : UndoPage) (offset : Nat) : StatusOr UndoVersion :=
  match page.records.lookup offset with
  | none => .error (.corruption ("undo record at " ++ toString offset ++ " is damaged"))
  | some version => .ok version

/-- Records lie below the free space. -/
def Packed (page : UndoPage) : Prop := ∀ r ∈ page.records, r.1 < page.lower

variable {page page' : UndoPage} {version : UndoVersion} {offset : Nat}
    {records : List (Nat × UndoVersion)}

theorem append_eq_ok (h : page.append version = .ok (page', offset)) :
    offset = page.lower ∧ page.lower < page'.lower ∧
      page'.records = page.records ++ [(page.lower, version)] := by
  obtain ⟨u, -, h⟩ := bind_eq_ok.mp h
  dsimp only at h
  split_ifs at h
  cases h
  refine ⟨rfl, ?_, rfl⟩
  show page.lower < page.lower + (44 + version.image.length)
  omega

theorem lookup_append_of_some (h : records.lookup offset = some version)
    (more : List (Nat × UndoVersion)) : (records ++ more).lookup offset = some version := by
  rw [List.lookup_append, h]
  rfl

theorem lookup_eq_none_of_lt {lower : Nat} (h : ∀ r ∈ records, r.1 < lower) :
    records.lookup lower = none := by
  rw [List.lookup_eq_none_iff]
  intro r hr
  have hlt := h r hr
  simp only [bne_iff_ne, ne_eq]
  omega

theorem read_append
    (h : page.append version = .ok (page', offset)) {at' : Nat} {found : UndoVersion}
    (hread : page.read at' = .ok found) : page'.read at' = .ok found := by
  obtain ⟨-, -, hrecords⟩ := append_eq_ok h
  rw [read] at hread ⊢
  cases hlookup : page.records.lookup at' with
  | none =>
    rw [hlookup] at hread
    cases hread
  | some v =>
    rw [hlookup] at hread
    rw [hrecords, lookup_append_of_some hlookup]
    exact hread

theorem read_append_self (h : page.append version = .ok (page', offset)) (hpacked : page.Packed) :
    page'.read offset = .ok version := by
  obtain ⟨rfl, -, hrecords⟩ := append_eq_ok h
  rw [read, hrecords, List.lookup_append, lookup_eq_none_of_lt hpacked]
  simp [List.lookup_cons_self]

theorem Packed.append {page page' : UndoPage} {version : UndoVersion} {offset : Nat}
    (hpacked : page.Packed) (h : page.append version = .ok (page', offset)) : page'.Packed := by
  obtain ⟨-, hlower, hrecords⟩ := append_eq_ok h
  intro r hr
  rw [hrecords] at hr
  rcases Lib.mem_snoc.mp hr with hold | rfl
  · have := hpacked r hold
    omega
  · exact hlower

theorem packed_empty : Packed {} := fun _ hr => by cases hr

end UndoPage

-- The chain of pages

structure TrackedPage where
  pageId : Nat
  maxTrxId : Nat := 0
  deriving DecidableEq

/-- A record whose pointer was handed out: its writer, and where it was put. -/
structure UndoEntry where
  version : UndoVersion
  writer : Nat
  pageId : Nat
  offset : Nat
  deriving DecidableEq

/-- `class UndoLog` and the pages it writes.  `history` and `formattedAt` are no data of the
    source: the records in the order their pointers were handed out, and how many of them there
    were when a page was last formatted. -/
structure UndoPages where
  store : Nat → Option UndoPage := fun _ => none
  tail : Option Nat := none
  pages : List TrackedPage := []
  recycle : List Nat := []
  history : List UndoEntry := []
  formattedAt : Nat → Nat := fun _ => 0

/-- What the page store and the log answer while one record is appended. -/
structure AppendAnswers where
  getTail : Bool := true
  getRecycled : Bool := true
  logPageInit : Bool := true
  stampInit : Bool := true
  /-- The page `CreateNew` hands out. -/
  created : Option Nat := none
  getPage : Bool := true
  logUndoWrite : Bool := true
  deriving DecidableEq

namespace UndoPages

def pageFailed : Status := ⟨.ioError, "the page store could not produce the page"⟩
def logFailed : Status := ⟨.ioError, "the log record could not be appended"⟩

def firstTrxIdTooLarge (trxId : Nat) : Status :=
  .invalidArgument ("first_trx_id " ++ toString trxId ++ " exceeds the 48-bit transaction id space")

/-- `ReclaimSettledPages`: from the old end, as far as the bounds are below the horizon, and never
    the tail. -/
def reclaimSettledPages (log : UndoPages) (horizon : Nat) : UndoPages :=
  let settled := log.pages.dropLast.takeWhile (·.maxTrxId < horizon)
  { log with
    recycle := log.recycle ++ settled.map (·.pageId)
    pages := log.pages.drop settled.length }

/-- `FormatUndoPage`, of a page in hand. -/
def format (log : UndoPages) (pageId : Nat) : UndoPages :=
  { log with
    store := Function.update log.store pageId (some {})
    formattedAt := Function.update log.formattedAt pageId log.history.length }

/-- A page that is ready becomes the tail. -/
def track (log : UndoPages) (pageId : Nat) : UndoPages :=
  { log with pages := log.pages ++ [{ pageId := pageId }], tail := some pageId }

/-- `TailFor`, the reclaimed page: its `PAGE_INIT` is logged before it is wiped, and it leaves the
    recycle list only when all went well. -/
def reuse (log : UndoPages) (answers : AppendAnswers) (trxId pageId : Nat) :
    UndoPages × StatusOr Nat :=
  if !answers.getRecycled then (log, .error pageFailed)
  else if !answers.logPageInit then (log, .error logFailed)
  else if maxTrxId < trxId then (log, .error (firstTrxIdTooLarge trxId))
  else if !answers.stampInit then (log.format pageId, .error pageFailed)
  else (({ log.format pageId with recycle := log.recycle.dropLast } : UndoPages).track pageId,
    .ok pageId)

/-- `TailFor`, a new page: formatted first, then logged. -/
def create (log : UndoPages) (answers : AppendAnswers) (trxId : Nat) : UndoPages × StatusOr Nat :=
  match answers.created with
  | none => (log, .error pageFailed)
  | some pageId =>
    if maxTrxId < trxId then (log, .error (firstTrxIdTooLarge trxId))
    else if !answers.logPageInit then (log.format pageId, .error logFailed)
    else if !answers.stampInit then (log.format pageId, .error pageFailed)
    else ((log.format pageId).track pageId, .ok pageId)

/-- `TailFor`, past the tail: growth is what triggers the purge, and a reclaimed page is preferred
    to a new one. -/
def grow (log : UndoPages) (answers : AppendAnswers) (horizon trxId : Nat) :
    UndoPages × StatusOr Nat :=
  let log := log.reclaimSettledPages horizon
  match log.recycle.getLast? with
  | some pageId => log.reuse answers trxId pageId
  | none => log.create answers trxId

/-- `TailFor`. -/
def tailFor (log : UndoPages) (answers : AppendAnswers) (horizon trxId need : Nat) :
    UndoPages × StatusOr Nat :=
  match log.tail with
  | none => log.grow answers horizon trxId
  | some tail =>
    if !answers.getTail then (log, .error pageFailed)
    else
      match log.store tail with
      | none => (log, .error pageFailed)
      | some page =>
        if need ≤ page.freeSpace then (log, .ok tail) else log.grow answers horizon trxId

/-- The bound of the last page is raised to a writer's id. -/
def raise (log : UndoPages) (trxId : Nat) : UndoPages :=
  match log.pages.getLast? with
  | none => log
  | some last =>
    { log with pages := log.pages.dropLast ++
        [{ last with maxTrxId := max last.maxTrxId trxId }] }

/-- The record goes on a page; its pointer is handed out once the log has it too. -/
def place (log : UndoPages) (answers : AppendAnswers) (trxId pageId : Nat) (version : UndoVersion) :
    UndoPages × StatusOr Nat :=
  if !answers.getPage then (log, .error pageFailed)
  else
    match log.store pageId with
    | none => (log, .error pageFailed)
    | some page =>
      match page.append version with
      | .error e => (log, .error e)
      | .ok (page, offset) =>
        let log := { log with store := Function.update log.store pageId (some page) }
        if !answers.logUndoWrite then (log, .error logFailed)
        else ({ log with history := log.history ++ [⟨version, trxId, pageId, offset⟩] },
          .ok (log.history.length + 1))

/-- `UndoLog::Append`. -/
def append (log : UndoPages) (answers : AppendAnswers) (horizon trxId : Nat)
    (version : UndoVersion) : UndoPages × StatusOr Nat :=
  if maxUndoImageLen < version.image.length then
    (log, .error (.invalidArgument ("undo image of " ++ toString version.image.length ++
      " bytes exceeds the " ++ toString maxUndoImageLen ++ "-byte undo page capacity")))
  else
    match log.tailFor answers horizon trxId (undoRecordHeaderSize + version.image.length) with
    | (log, .error e) => (log, .error e)
    | (log, .ok pageId) => (log.raise trxId).place answers trxId pageId version

-- Reading

/-- The record a pointer was handed out for. -/
def entry (log : UndoPages) : Nat → Option UndoEntry
  | 0 => none
  | n + 1 => log.history[n]?

/-- The page and the offset a pointer is made of. -/
def address (log : UndoPages) (ptr : Nat) : Option (Nat × Nat) :=
  (log.entry ptr).map fun e => (e.pageId, e.offset)

/-- `UndoLog::Read`: what lies at the pointer's address now. -/
def read (log : UndoPages) (ptr : Nat) : StatusOr UndoVersion :=
  match log.address ptr with
  | none => .error (.corruption "undo_ptr names page 0, which is the superblock")
  | some (pageId, offset) =>
    match log.store pageId with
    | none => .error pageFailed
    | some page => page.read offset

/-- The record a pointer was handed out for lies on a page that was formatted after it was
    written. -/
def Recycled (log : UndoPages) (ptr : Nat) : Prop :=
  ∃ e, log.entry ptr = some e ∧ ptr ≤ log.formattedAt e.pageId

/-- `ResolveThroughUndo`, with so many steps left: the pointers it reads, and its answer. -/
def resolveThroughUndo (log : UndoPages) (view : ReadView) :
    Nat → Nat → Bytes → List Nat × StatusOr (Option Bytes)
  | 0, _, _ =>
    ([], .error (.corruption ("undo chain exceeds " ++ toString maxUndoChainLength ++
      " versions; treating it as a cycle")))
  | steps + 1, undoPtr, payload =>
    if undoPtr = noUndoPtr then ([], .ok none)
    else
      match log.read undoPtr with
      | .error e => ([undoPtr], .error e)
      | .ok version =>
        match version.type with
        | .insert => ([undoPtr], .ok none)
        | .overwrite =>
          match classify view version.priorTrxId false version.priorUndoPtr with
          | .visible => ([undoPtr], .ok (some version.image))
          | .noVersion => ([undoPtr], .ok none)
          | .needsUndoWalk =>
            let (reads, out) :=
              log.resolveThroughUndo view steps version.priorUndoPtr version.image
            (undoPtr :: reads, out)
        | .deleteMark =>
          match classify view version.priorTrxId false version.priorUndoPtr with
          | .visible => ([undoPtr], .ok (some payload))
          | .noVersion => ([undoPtr], .ok none)
          | .needsUndoWalk =>
            let (reads, out) :=
              log.resolveThroughUndo view steps version.priorUndoPtr payload
            (undoPtr :: reads, out)

/-- The version of a stored tuple that a view sees: the pointers read for it, and the answer. -/
def visibleVersion (log : UndoPages) (view : ReadView) (tuple : HeapTuple) :
    List Nat × StatusOr (Option Bytes) :=
  match classify view tuple.trxId tuple.deleted tuple.undoPtr with
  | .visible => ([], .ok (some tuple.payload))
  | .noVersion => ([], .ok none)
  | .needsUndoWalk => log.resolveThroughUndo view maxUndoChainLength tuple.undoPtr tuple.payload

/-- The `txn_prev_undo_ptr` chain from a pointer, with so many steps left. -/
def chain (log : UndoPages) : Nat → Nat → StatusOr (List UndoVersion)
  | 0, ptr =>
    if ptr = noUndoPtr then .ok []
    else .error (.corruption "undo: chain does not terminate")
  | steps + 1, ptr =>
    if ptr = noUndoPtr then .ok []
    else do
      let version ← log.read ptr
      let older ← log.chain steps version.txnPrevUndoPtr
      .ok (version :: older)

/-- The records of a writer, newest first. -/
def writtenBy (log : UndoPages) (trxId : Nat) : List UndoVersion :=
  ((log.history.filter (·.writer = trxId)).map (·.version)).reverse

/-- The log as it would be if no page were ever used again. -/
def unrecycled (log : UndoPages) : UndoLog := ⟨log.history.map (·.version)⟩

end UndoPages

end Kds.Txn
