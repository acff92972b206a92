/-
  Kds.Storage.VarHeapRuns

  Var-heap chains (`src/storage/varheap.cpp`): a chain is created with one page, an append goes
  to the tail and grows the chain by a page where the tail is full, and a value is fetched from
  the page and the slot its pointer names.  Over any run of these calls, the store's stamping of
  headers and whatever the rest of the engine does to other pages between them, a page of a chain
  holds the values that the appends to it returned slots for, in that order; so a pointer
  fetches its value ever after, and the appends written again over an earlier image of each page
  give it back.
-/

import Kds.Lib.Run
import Kds.Storage.VarHeap
import Mathlib.Data.List.Range

namespace Kds.Storage.VarHeap

open Lib Kds.Storage.Pool List
open Function (update update_self update_of_ne)

-- The store

/-- `VarHeapPtr`. -/
structure VarHeapPtr where
  pageId : PageId
  slot : Nat
  deriving DecidableEq

/-- `ChainAppendResult`. -/
structure ChainAppendResult where
  ptr : VarHeapPtr
  createdPageId : PageId
  linkedPageId : PageId
  deriving DecidableEq

def ChainAppendResult.grew (r : ChainAppendResult) : Bool := r.createdPageId != kInvalidPageId

/-- The pages a store holds. -/
abbrev Pages := PageId → Option Bytes

/-- What the store answers during one call: the reads it refuses, the page it creates. -/
structure StoreCalls where
  missing : Status
  readFails : Nat → Option Status
  getFails : Option Status
  created : StatusOr PageId
  againFails : Option Status

/-- `Get` and `GetForRead`. -/
def access (pages : Pages) (missing : Status) (fails : Option Status) (id : PageId) :
    StatusOr Bytes :=
  match fails, pages id with
  | some e, _ => .error e
  | none, some page => .ok page
  | none, none => .error missing

def kMaxChainPages : Nat := 2 ^ 20

-- The chain

/-- `CreateChain`. -/
def createChain (pages : Pages) (calls : StoreCalls) (ownerOid : Nat) : Pages × StatusOr PageId :=
  match calls.created with
  | .error e => (pages, .error e)
  | .ok id => (update pages id (some (formatPage ownerOid)), .ok id)

/-- The walk to the tail, with so many pages left to visit. -/
def walk (pages : Pages) (calls : StoreCalls) (root : PageId) : Nat → PageId → StatusOr PageId
  | 0, _ => .error (.corruption ("var-heap chain from page " ++ toString root.toNat ++
      " exceeds the maximum length; the links may form a cycle"))
  | left + 1, id => do
    let page ← access pages calls.missing (calls.readFails left) id
    let next := pageNextPageId page
    if next = kInvalidPageId then .ok id else walk pages calls root left next

/-- The growth of `ChainAppend`: a page with the value, linked last. -/
def growChain (pages : Pages) (calls : StoreCalls) (tailId : PageId) (value : Bytes)
    (ownerOid : Nat) : Pages × StatusOr ChainAppendResult :=
  match calls.created with
  | .error e => (pages, .error e)
  | .ok newId =>
    let formatted := update pages newId (some (formatPage ownerOid))
    match pageAppend (formatPage ownerOid) value with
    | .error e => (formatted, .error e)
    | .ok (page, slot) =>
      let filled := update formatted newId (some page)
      match access filled calls.missing calls.againFails tailId with
      | .error e => (filled, .error e)
      | .ok tail => (update filled tailId (some (linkPage tail newId)),
          .ok ⟨⟨newId, slot⟩, newId, tailId⟩)

def chainAppend (pages : Pages) (calls : StoreCalls) (root : PageId) (value : Bytes)
    (ownerOid : Nat) : Pages × StatusOr ChainAppendResult :=
  if root = kInvalidPageId then
    (pages, .error (.invalidArgument
      "this relation has no var-heap chain; it was created without a spillable column"))
  else if value.length > kMaxValueSize then
    (pages, .error (.unsupported ("var-heap value of " ++ toString value.length ++
      " bytes exceeds the " ++ toString kMaxValueSize ++ " a page can hold; values spanning " ++
      "pages are not supported (docs/rules/rule-fixed-length-tuple.md section 9)")))
  else
    match walk pages calls root kMaxChainPages root with
    | .error e => (pages, .error e)
    | .ok tailId =>
      match access pages calls.missing calls.getFails tailId with
      | .error e => (pages, .error e)
      | .ok tail =>
        match pageAppend tail value with
        | .ok (page, slot) => (update pages tailId (some page),
            .ok ⟨⟨tailId, slot⟩, kInvalidPageId, kInvalidPageId⟩)
        | .error e =>
          -- only a full page grows the chain
          if e.code ≠ .outOfSpace then (pages, .error e)
          else growChain pages calls tailId value ownerOid

/-- `ValidatePageHeader`, of an expected page type. -/
def validatePageHeader (page : Bytes) (expected : Nat) : StatusOr Unit :=
  let type := load 1 page 0
  let version := load 1 page 1
  let supported := maxSupportedFormatVersion type
  if type = 0 then .error (.corruption "page header: unformatted page (page_type 0)")
  else if type > kMaxAssignedPageType then
    .error (.corruption ("page header: unknown page_type " ++ toString type))
  else if version = 0 ∨ version > supported then
    .error (.corruption ("page header: format_version " ++ toString version ++
      " for page_type " ++ toString type ++ " is not supported by this build (max " ++
      toString supported ++ ")"))
  else if type ≠ expected then
    .error (.corruption ("page header: expected page_type " ++ toString expected ++ ", found " ++
      toString type))
  else .ok ()

/-- `Fetch`, where the store's read does not fail but for want of the page. -/
def fetch (pages : Pages) (missing : Status) (ptr : VarHeapPtr) : StatusOr Bytes :=
  if ptr.pageId = kInvalidPageId then
    .error (.corruption "var-heap pointer names the invalid page id")
  else do
    let page ← access pages missing none ptr.pageId
    validatePageHeader page kVarHeap
    pageRead page ptr.slot

/-- Redo of a `VARHEAP_APPEND` record: `PageWriteAt` on the page it names. -/
def redoAppend (missing : Status) (pages : Pages) (record : VarHeapPtr × Bytes) :
    StatusOr Pages := do
  let page ← access pages missing none record.1.pageId
  let written ← pageWriteAt page record.1.slot record.2
  .ok (update pages record.1.pageId (some written))

/-- The records one after another. -/
def redo (missing : Status) (pages : Pages) (log : List (VarHeapPtr × Bytes)) : StatusOr Pages :=
  log.foldlM (redoAppend missing) pages

-- The system

/-- The store, the pages that the calls reported as a chain's, and the appends that returned, as
    they are logged: the pointer and the value. -/
structure State where
  pages : Pages
  chainPages : List PageId
  log : List (VarHeapPtr × Bytes)

inductive Action where
  | createChain (calls : StoreCalls) (ownerOid : Nat)
  | append (calls : StoreCalls) (root : PageId) (value : Bytes) (ownerOid : Nat)
  | stamp (page : PageId) (offset width n : Nat)
  | elsewhere (pages : Pages)

def State.append (s : State) (calls : StoreCalls) (root : PageId) (value : Bytes)
    (ownerOid : Nat) : State :=
  match chainAppend s.pages calls root value ownerOid with
  | (pages, .error _) => { s with pages }
  | (pages, .ok r) =>
    { pages
      chainPages := if r.grew then s.chainPages ++ [r.createdPageId] else s.chainPages
      log := s.log ++ [(r.ptr, value)] }

def State.createChain (s : State) (calls : StoreCalls) (ownerOid : Nat) : State :=
  match VarHeap.createChain s.pages calls ownerOid with
  | (pages, .error _) => { s with pages }
  | (pages, .ok id) => { s with pages, chainPages := s.chainPages ++ [id] }

/-- The page's LSN, stream stamp, checksum or epoch set. -/
def State.stamp (s : State) (page : PageId) (offset width n : Nat) : State :=
  { s with
    pages := update s.pages page
      ((s.pages page).map fun bytes => storeField bytes offset width n) }

def step (s : State) : Action → Option State
  | .createChain calls ownerOid => some (s.createChain calls ownerOid)
  | .append calls root value ownerOid => some (s.append calls root value ownerOid)
  | .stamp page offset width n => some (s.stamp page offset width n)
  | .elsewhere pages => some { s with pages }

/-- A page created is one the store does not hold. -/
def Fresh (s : State) (calls : StoreCalls) : Prop :=
  ∀ id, calls.created = .ok id → id ≠ kInvalidPageId ∧ s.pages id = none

/-- What the engine promises of an action: appends name a chain, stamps stay in the common header
    behind the type and the version, and nothing else writes a chain's page. -/
def Allowed (s : State) : Action → Prop
  | .createChain calls _ => Fresh s calls
  | .append calls root _ _ => (root = kInvalidPageId ∨ root ∈ s.chainPages) ∧ Fresh s calls
  | .stamp _ offset width _ => 2 ≤ offset ∧ offset + width ≤ kVarHeapHeaderOffset
  | .elsewhere pages => ∀ p ∈ s.chainPages, pages p = s.pages p

-- What was appended to a page

section Log

variable {log more : List (VarHeapPtr × Bytes)} {p : PageId} {ptr : VarHeapPtr} {value : Bytes}

def recordsOf (log : List (VarHeapPtr × Bytes)) (p : PageId) : List (VarHeapPtr × Bytes) :=
  log.filter fun r => r.1.pageId = p

def valuesOf (log : List (VarHeapPtr × Bytes)) (p : PageId) : List Bytes :=
  (recordsOf log p).map Prod.snd

def slotsOf (log : List (VarHeapPtr × Bytes)) (p : PageId) : List Nat :=
  (recordsOf log p).map fun r => r.1.slot

@[simp] theorem valuesOf_append : valuesOf (log ++ more) p = valuesOf log p ++ valuesOf more p := by
  simp [valuesOf, recordsOf]

@[simp] theorem slotsOf_append : slotsOf (log ++ more) p = slotsOf log p ++ slotsOf more p := by
  simp [slotsOf, recordsOf]

theorem length_slotsOf : (slotsOf log p).length = (valuesOf log p).length := by
  simp [slotsOf, valuesOf]

theorem valuesOf_cons_same : valuesOf ((ptr, value) :: more) ptr.pageId =
    value :: valuesOf more ptr.pageId := by
  simp [valuesOf, recordsOf]

theorem slotsOf_cons_same : slotsOf ((ptr, value) :: more) ptr.pageId =
    ptr.slot :: slotsOf more ptr.pageId := by
  simp [slotsOf, recordsOf]

theorem valuesOf_cons_other (h : ptr.pageId ≠ p) :
    valuesOf ((ptr, value) :: more) p = valuesOf more p := by
  simp [valuesOf, recordsOf, h]

theorem slotsOf_cons_other (h : ptr.pageId ≠ p) :
    slotsOf ((ptr, value) :: more) p = slotsOf more p := by
  simp [slotsOf, recordsOf, h]

/-- The slots a page's appends returned are dense. -/
def Dense (log : List (VarHeapPtr × Bytes)) : Prop :=
  ∀ p, slotsOf log p = List.range (valuesOf log p).length

theorem Dense.slot (h : Dense (log ++ (ptr, value) :: more)) :
    ptr.slot = (valuesOf log ptr.pageId).length := by
  have hslots := h ptr.pageId
  rw [slotsOf_append, slotsOf_cons_same] at hslots
  have hat := congrArg (fun l => l[(slotsOf log ptr.pageId).length]?) hslots
  simp only [List.getElem?_append_right le_rfl, Nat.sub_self, List.getElem?_cons_zero] at hat
  obtain ⟨_, hslot⟩ := List.getElem?_eq_some_iff.mp hat.symm
  rw [getElem_range, length_slotsOf] at hslot
  exact hslot.symm

theorem Dense.concat (h : Dense log) (hslot : ptr.slot = (valuesOf log ptr.pageId).length) :
    Dense (log ++ [(ptr, value)]) := by
  intro p
  rw [slotsOf_append, valuesOf_append, h p]
  by_cases hp : ptr.pageId = p
  · subst hp
    rw [slotsOf_cons_same, valuesOf_cons_same, hslot, length_append, length_cons]
    exact range_succ.symm
  · rw [slotsOf_cons_other hp, valuesOf_cons_other hp]
    simp [slotsOf, valuesOf, recordsOf]

theorem Dense.not_mem (h : Dense log) (hslot : ptr.slot = (valuesOf log ptr.pageId).length) :
    ptr ∉ log.map Prod.fst := by
  intro hmem
  obtain ⟨r, hr, hfst⟩ := mem_map.mp hmem
  have hin : ptr.slot ∈ slotsOf log ptr.pageId :=
    mem_map.mpr ⟨r, mem_filter.mpr ⟨hr, by rw [hfst]; simp⟩, by rw [hfst]⟩
  rw [h ptr.pageId, mem_range, hslot] at hin
  omega

end Log

-- The invariant

/-- A page of a chain: it holds these values, and links to a page of a chain if to any. -/
def Chained (pages : Pages) (chainPages : List PageId) (values : List Bytes) (p : PageId) : Prop :=
  ∃ page, pages p = some page ∧ Laid page values ∧
    (pageNextPageId page = kInvalidPageId ∨ pageNextPageId page ∈ chainPages)

/-- Every page of a chain holds what was appended to it. -/
structure Inv (s : State) : Prop where
  valid : ∀ p ∈ s.chainPages, p ≠ kInvalidPageId
  chained : ∀ p ∈ s.chainPages, Chained s.pages s.chainPages (valuesOf s.log p) p
  logged : ∀ r ∈ s.log, r.1.pageId ∈ s.chainPages
  dense : Dense s.log
  distinct : (s.log.map Prod.fst).Nodup

section Invariant

variable {s : State} {pages : Pages} {calls : StoreCalls} {root p id : PageId} {value : Bytes}
  {ownerOid : Nat}

variable {page : Bytes}

theorem access_ok {missing : Status} {fails : Option Status}
    (h : access pages missing fails p = .ok page) : pages p = some page := by
  unfold access at h
  split at h
  · cases h
  · rename_i hp
    rw [hp, Except.ok.inj h]
  · cases h

variable {chainPages : List PageId} {values : List Bytes} {tail : PageId} {ptr : VarHeapPtr}

theorem Chained.mono {more : List PageId}
    (h : Chained pages chainPages values p) : Chained pages (chainPages ++ more) values p := by
  obtain ⟨page, hpage, hlaid, hnext⟩ := h
  exact ⟨page, hpage, hlaid, hnext.imp_right (mem_append_left more)⟩

theorem Chained.of_eq {pages' : Pages}
    (h : Chained pages chainPages values p) (heq : pages' p = pages p) :
    Chained pages' chainPages values p := by
  obtain ⟨page, hpage, hrest⟩ := h
  exact ⟨page, heq.trans hpage, hrest⟩

theorem walk_last (left : Nat) (hpage : pages p = some page)
    (hlast : pageNextPageId page = kInvalidPageId) (hread : calls.readFails left = none) :
    walk pages calls root (left + 1) p = .ok p := by
  have hok : access pages calls.missing (calls.readFails left) p = .ok page := by
    simp only [access, hread, hpage]
  rw [walk, hok]
  show (if pageNextPageId page = kInvalidPageId then _ else _) = _
  rw [if_pos hlast]

theorem Inv.walk_mem (h : Inv s) {left : Nat} (hp : p ∈ s.chainPages)
    (hwalk : walk s.pages calls root left p = .ok tail) : tail ∈ s.chainPages := by
  induction left generalizing p with
  | zero => cases hwalk
  | succ left ih =>
    rw [walk] at hwalk
    obtain ⟨page, hread, hwalk⟩ := bind_eq_ok.mp hwalk
    obtain ⟨page', hpage, _, hnext⟩ := h.chained p hp
    obtain rfl : page' = page := Option.some.inj (hpage.symm.trans (access_ok hread))
    by_cases hend : pageNextPageId page' = kInvalidPageId
    · rw [if_pos hend] at hwalk
      cases hwalk
      exact hp
    · rw [if_neg hend] at hwalk
      exact ih (hnext.resolve_left hend) hwalk

theorem Inv.fresh_not_mem (h : Inv s) (hfresh : s.pages id = none) : id ∉ s.chainPages := by
  intro hmem
  obtain ⟨page, hpage, _⟩ := h.chained id hmem
  rw [hfresh] at hpage
  cases hpage

theorem Inv.valuesOf_fresh (h : Inv s) (hid : id ∉ s.chainPages) : valuesOf s.log id = [] := by
  have hnone : recordsOf s.log id = [] := by
    rw [recordsOf, filter_eq_nil_iff]
    intro r hr hpage
    exact hid (of_decide_eq_true hpage ▸ h.logged r hr)
  rw [valuesOf, hnone, map_nil]

/-- What an append did to the chains' pages: nothing, where it failed; to the tail alone, where
    the tail had room; else to a page that it created and linked from the tail. -/
inductive Appended (s : State) (value : Bytes) : Pages → Option ChainAppendResult → Prop where
  | failed {pages : Pages} (h : ∀ p ∈ s.chainPages, pages p = s.pages p) :
      Appended s value pages none
  | placed {tail : PageId} {page : Bytes} (hmem : tail ∈ s.chainPages)
      (hpage : s.pages tail = some page) (hfits : Fits (valuesOf s.log tail ++ [value])) :
      Appended s value
        (update s.pages tail (some (placeValue page (readHeader page) value)))
        (some ⟨⟨tail, (valuesOf s.log tail).length⟩, kInvalidPageId, kInvalidPageId⟩)
  | grown {pages : Pages} {tail new : PageId} {page image : Bytes} (hmem : tail ∈ s.chainPages)
      (hpage : s.pages tail = some page) (hvalid : new ≠ kInvalidPageId)
      (hfresh : s.pages new = none) (hnew : pages new = some image) (himage : Laid image [value])
      (hlast : pageNextPageId image = kInvalidPageId)
      (htail : pages tail = some (linkPage page new))
      (hrest : ∀ p, p ≠ new → p ≠ tail → pages p = s.pages p) :
      Appended s value pages (some ⟨⟨new, 0⟩, new, tail⟩)

theorem fits_singleton (h : ¬value.length > kMaxValueSize) : Fits ([] ++ [value]) := by
  rw [kMaxValueSize] at h
  rw [nil_append, Fits, sizeOf_singleton, length_singleton]
  simp only [kVarHeapHeaderOffset, kHeaderSize, kSlotOnDiskSize, kNextPageIdOffset]
  omega

theorem Inv.growChain (h : Inv s) (hfresh : Fresh s calls) (hmem : tail ∈ s.chainPages)
    (hlen : ¬value.length > kMaxValueSize) :
    Appended s value (growChain s.pages calls tail value ownerOid).1
      (growChain s.pages calls tail value ownerOid).2.toOption := by
  rw [VarHeap.growChain]
  cases hcreated : calls.created with
  | error e => exact .failed fun _ _ => rfl
  | ok new =>
    obtain ⟨hvalid, hnone⟩ := hfresh new hcreated
    have hnew : new ∉ s.chainPages := h.fresh_not_mem hnone
    have hempty := laid_formatPage ownerOid
    have hfits := fits_singleton hlen
    have hne : tail ≠ new := fun heq => hnew (heq ▸ hmem)
    simp only [hempty.pageAppend hfits]
    split
    · -- the tail could not be fetched again: the page is left unlinked
      apply Appended.failed
      intro p hp
      have hpn : p ≠ new := fun heq => hnew (heq ▸ hp)
      simp [update_of_ne hpn]
    · rename_i page haccess
      have hpage := access_ok haccess
      simp only [update_of_ne hne] at hpage
      have hroom := hempty.room hfits
      refine .grown hmem hpage hvalid hnone ?_ (hempty.placeValue hfits) ?_ ?_ ?_
      · simp [update_of_ne hne.symm]
      · rw [pageNextPageId_placeValue hroom, pageNextPageId_formatPage]
      · simp
      · intro p hpn hpt
        simp [update_of_ne hpn, update_of_ne hpt]

theorem Inv.chainAppend (h : Inv s) (value : Bytes) (ownerOid : Nat)
    (hroot : root = kInvalidPageId ∨ root ∈ s.chainPages) (hfresh : Fresh s calls) :
    Appended s value (chainAppend s.pages calls root value ownerOid).1
      (chainAppend s.pages calls root value ownerOid).2.toOption := by
  rw [VarHeap.chainAppend]
  split_ifs with hinvalid hlen
  · exact .failed fun _ _ => rfl
  · exact .failed fun _ _ => rfl
  · split
    · exact .failed fun _ _ => rfl
    · rename_i tail hwalk
      have hmem := h.walk_mem (hroot.resolve_left hinvalid) hwalk
      obtain ⟨page, hpage, hlaid, _⟩ := h.chained tail hmem
      split
      · exact .failed fun _ _ => rfl
      · rename_i page' haccess
        obtain rfl : page = page' := Option.some.inj (hpage.symm.trans (access_ok haccess))
        by_cases hfits : Fits (valuesOf s.log tail ++ [value])
        · simp only [hlaid.pageAppend hfits]
          exact .placed hmem hpage hfits
        · simp only [hlaid.pageAppend_full hlen hfits]
          exact h.growChain hfresh hmem hlen

theorem Inv.record (h : Inv s) (hslot : ptr.slot = (valuesOf s.log ptr.pageId).length)
    (hvalid : ∀ p ∈ chainPages, p ≠ kInvalidPageId) (hptr : ptr.pageId ∈ chainPages)
    (hmore : ∀ p ∈ s.chainPages, p ∈ chainPages) (hchained : ∀ p ∈ chainPages,
      Chained pages chainPages (valuesOf (s.log ++ [(ptr, value)]) p) p) :
    Inv ⟨pages, chainPages, s.log ++ [(ptr, value)]⟩ := by
  refine ⟨hvalid, hchained, ?_, h.dense.concat hslot, ?_⟩
  · intro r hr
    rcases Lib.mem_snoc.mp hr with hold | rfl
    · exact hmore _ (h.logged r hold)
    · exact hptr
  · rw [map_append, map_singleton]
    have hnew := h.dense.not_mem hslot
    refine nodup_append.mpr ⟨h.distinct, by simp, ?_⟩
    intro a ha b hb heq
    have hptr' : a = ptr := heq.trans (mem_singleton.mp hb)
    exact hnew (hptr' ▸ ha)

theorem Inv.of_eq (h : Inv s) (heq : ∀ p ∈ s.chainPages, pages p = s.pages p) :
    Inv { s with pages } :=
  ⟨h.valid, fun p hp => (h.chained p hp).of_eq (heq p hp), h.logged, h.dense, h.distinct⟩

variable {log : List (VarHeapPtr × Bytes)}

theorem valuesOf_concat_same (ptr : VarHeapPtr) :
    valuesOf (log ++ [(ptr, value)]) ptr.pageId = valuesOf log ptr.pageId ++ [value] := by
  rw [valuesOf_append, valuesOf_cons_same]
  rfl

theorem valuesOf_concat_other (hp : ptr.pageId ≠ p) :
    valuesOf (log ++ [(ptr, value)]) p = valuesOf log p := by
  rw [valuesOf_append, valuesOf_cons_other hp]
  exact append_nil _

theorem Inv.placed (h : Inv s) (hmem : tail ∈ s.chainPages) (hpage : s.pages tail = some page)
    (hfits : Fits (valuesOf s.log tail ++ [value])) :
    Inv ⟨update s.pages tail (some (placeValue page (readHeader page) value)),
      s.chainPages, s.log ++ [(⟨tail, (valuesOf s.log tail).length⟩, value)]⟩ := by
  obtain ⟨page', hpage', hlaid, hnext⟩ := h.chained tail hmem
  obtain rfl : page = page' := Option.some.inj (hpage.symm.trans hpage')
  apply h.record rfl h.valid hmem fun _ hp => hp
  intro p hp
  by_cases htail : tail = p
  · subst htail
    rw [valuesOf_concat_same ⟨tail, (valuesOf s.log tail).length⟩]
    refine ⟨_, update_self .., hlaid.placeValue hfits, ?_⟩
    rw [pageNextPageId_placeValue (hlaid.room hfits)]
    exact hnext
  · rw [valuesOf_concat_other htail]
    exact (h.chained p hp).of_eq (update_of_ne (Ne.symm htail) ..)

theorem Inv.grown (h : Inv s) {new : PageId} {image : Bytes} (hmem : tail ∈ s.chainPages)
    (hpage : s.pages tail = some page) (hvalid : new ≠ kInvalidPageId) (hfresh : s.pages new = none)
    (hnew : pages new = some image) (himage : Laid image [value])
    (hlast : pageNextPageId image = kInvalidPageId) (htail : pages tail = some (linkPage page new))
    (hrest : ∀ p, p ≠ new → p ≠ tail → pages p = s.pages p) :
    Inv ⟨pages, s.chainPages ++ [new], s.log ++ [(⟨new, 0⟩, value)]⟩ := by
  have hout : new ∉ s.chainPages := h.fresh_not_mem hfresh
  have hnone := h.valuesOf_fresh hout
  have hlink : new ∈ s.chainPages ++ [new] := by simp
  apply h.record
  · rw [hnone]
    rfl
  · intro p hp
    rcases Lib.mem_snoc.mp hp with hold | rfl
    · exact h.valid p hold
    · exact hvalid
  · exact hlink
  · exact fun _ hp => mem_append_left _ hp
  · intro p hp
    rcases Lib.mem_snoc.mp hp with hold | rfl
    · have hpn : new ≠ p := fun heq => hout (heq ▸ hold)
      rw [valuesOf_concat_other hpn]
      by_cases hpt : p = tail
      · subst hpt
        obtain ⟨page', hpage', hlaid, _⟩ := h.chained p hold
        obtain rfl : page = page' := Option.some.inj (hpage.symm.trans hpage')
        refine ⟨_, htail, hlaid.linkPage new, Or.inr ?_⟩
        rw [pageNextPageId_linkPage hlaid.size]
        exact hlink
      · exact ((h.chained p hold).of_eq (hrest p hpn.symm hpt)).mono
    · rw [valuesOf_concat_same ⟨p, 0⟩]
      simp only [hnone, nil_append]
      exact ⟨image, hnew, himage, Or.inl hlast⟩

theorem Inv.append (h : Inv s) (hroot : root = kInvalidPageId ∨ root ∈ s.chainPages)
    (hfresh : Fresh s calls) : Inv (s.append calls root value ownerOid) := by
  have hdone := h.chainAppend value ownerOid hroot hfresh
  rw [State.append]
  rcases hcall : VarHeap.chainAppend s.pages calls root value ownerOid with ⟨pages, e | r⟩
  · rw [hcall] at hdone
    cases hdone with
    | failed heq => exact h.of_eq heq
  · rw [hcall] at hdone
    cases hdone with
    | placed hmem hpage hfits => exact h.placed hmem hpage hfits
    | grown hmem hpage hvalid hnone hnew himage hlast htail hrest =>
      simp only [ChainAppendResult.grew, bne_iff_ne, if_pos hvalid]
      exact h.grown hmem hpage hvalid hnone hnew himage hlast htail hrest

theorem Inv.createChain (h : Inv s) (hfresh : Fresh s calls) :
    Inv (s.createChain calls ownerOid) := by
  rw [State.createChain, VarHeap.createChain]
  cases hcreated : calls.created with
  | error e => exact h
  | ok id =>
    obtain ⟨hvalid, hnone⟩ := hfresh id hcreated
    have hout : id ∉ s.chainPages := h.fresh_not_mem hnone
    refine ⟨?_, ?_, fun r hr => mem_append_left _ (h.logged r hr), h.dense, h.distinct⟩
    · intro p hp
      rcases Lib.mem_snoc.mp hp with hold | rfl
      · exact h.valid p hold
      · exact hvalid
    · intro p hp
      rcases Lib.mem_snoc.mp hp with hold | rfl
      · have hne : p ≠ id := fun heq => hout (heq ▸ hold)
        exact ((h.chained p hold).of_eq (update_of_ne hne ..)).mono
      · refine ⟨_, update_self .., ?_, Or.inl (pageNextPageId_formatPage ownerOid)⟩
        rw [h.valuesOf_fresh hout]
        exact laid_formatPage ownerOid

theorem Inv.stamp (h : Inv s) {offset width : Nat} (n : Nat) (hlow : 2 ≤ offset)
    (hhigh : offset + width ≤ kVarHeapHeaderOffset) : Inv (s.stamp id offset width n) := by
  refine ⟨h.valid, ?_, h.logged, h.dense, h.distinct⟩
  intro p hp
  obtain ⟨page, hpage, hlaid, hnext⟩ := h.chained p hp
  by_cases hid : p = id
  · subst hid
    refine ⟨storeField page offset width n, ?_, hlaid.stamp n hlow hhigh, ?_⟩
    · simp [State.stamp, hpage]
    · rw [pageNextPageId_stamp hlaid.size n hhigh]
      exact hnext
  · exact ⟨page, (update_of_ne hid ..).trans hpage, hlaid, hnext⟩

/-- Every call on the heap keeps each page of the chain as what was appended to it. -/
theorem Inv.step {t u : State} {a : Action} (h : Inv t) (hok : Allowed t a)
    (hstep : VarHeap.step t a = some u) : Inv u := by
  cases a with
  | createChain calls ownerOid =>
    cases hstep
    exact h.createChain hok
  | append calls root value ownerOid =>
    cases hstep
    exact h.append hok.1 hok.2
  | stamp page offset width n =>
    cases hstep
    exact h.stamp n hok.1 hok.2
  | elsewhere pages =>
    cases hstep
    exact h.of_eq hok

end Invariant

-- Fetching and redo

section Redo

variable {s t : State} {pages : Pages} {missing : Status} {p : PageId} {value : Bytes}
  {ptr : VarHeapPtr}

variable {values : List Bytes} {page : Bytes}

theorem Laid.validatePageHeader (h : Laid page values) :
    validatePageHeader page kVarHeap = .ok () := by
  rw [VarHeap.validatePageHeader, h.type, h.version]
  decide

theorem fetch_of_laid (hvalid : ptr.pageId ≠ kInvalidPageId)
    (hpage : pages ptr.pageId = some page) (hlaid : Laid page values)
    (hvalue : values[ptr.slot]? = some value) : fetch pages missing ptr = .ok value := by
  have hread : access pages missing none ptr.pageId = .ok page := by
    simp only [access, hpage]
  rw [fetch, if_neg hvalid, hread]
  show (do VarHeap.validatePageHeader page kVarHeap; pageRead page ptr.slot) = _
  rw [hlaid.validatePageHeader]
  exact hlaid.pageRead hvalue

theorem Dense.getElem_slot {pre post : List (VarHeapPtr × Bytes)}
    (h : Dense (pre ++ (ptr, value) :: post)) :
    (valuesOf (pre ++ (ptr, value) :: post) ptr.pageId)[ptr.slot]? = some value := by
  rw [h.slot, valuesOf_append, valuesOf_cons_same, List.getElem?_append_right le_rfl, Nat.sub_self,
    List.getElem?_cons_zero]

theorem Inv.fetch (h : Inv s) (hmem : (ptr, value) ∈ s.log) :
    fetch s.pages missing ptr = .ok value := by
  obtain ⟨pre, post, hlog⟩ := append_of_mem hmem
  have hchain := h.logged _ hmem
  obtain ⟨page, hpage, hlaid, _⟩ := h.chained _ hchain
  apply fetch_of_laid (h.valid _ hchain) hpage hlaid
  rw [hlog]
  exact (hlog ▸ h.dense : Dense (pre ++ (ptr, value) :: post)).getElem_slot

/-- A page holds the first of these values, as many as `n` at least. -/
def HoldsFirst (pages : Pages) (values : List Bytes) (n : Nat) (p : PageId) : Prop :=
  ∃ page k, pages p = some page ∧ n ≤ k ∧ k ≤ values.length ∧ Laid page (values.take k)

theorem fits_take_succ {k : Nat} (h : Fits values)
    (hvalue : values[k]? = some value) : Fits (values.take k ++ [value]) := by
  obtain ⟨hlt, rfl⟩ := List.getElem?_eq_some_iff.mp hvalue
  rw [take_append_getElem hlt]
  rw [← take_append_drop (k + 1) values] at h
  exact h.of_append

/-- **One record redone**: on a page short of it its value is added, on any other it is there. -/
theorem redoAppend_ok (missing : Status) {pre post : List (VarHeapPtr × Bytes)}
    (hdense : Dense (pre ++ (ptr, value) :: post))
    (hfits : Fits (valuesOf (pre ++ (ptr, value) :: post) ptr.pageId))
    (hpage : HoldsFirst pages (valuesOf (pre ++ (ptr, value) :: post) ptr.pageId)
      (valuesOf pre ptr.pageId).length ptr.pageId) :
    ∃ pages', redoAppend missing pages (ptr, value) = .ok pages' ∧
      (∀ q, q ≠ ptr.pageId → pages' q = pages q) ∧
      HoldsFirst pages' (valuesOf (pre ++ (ptr, value) :: post) ptr.pageId)
        ((valuesOf pre ptr.pageId).length + 1) ptr.pageId := by
  obtain ⟨page, k, hpage, hlow, hhigh, hlaid⟩ := hpage
  have hvalue := hdense.getElem_slot
  have hslot := hdense.slot
  have hone := fits_take_succ hfits hvalue
  set values := valuesOf (pre ++ (ptr, value) :: post) ptr.pageId
  have hread : access pages missing none ptr.pageId = .ok page := by
    simp only [access, hpage]
  rcases Nat.lt_or_ge ptr.slot k with hlt | hge
  · -- the image already holds the value
    have hat : (values.take k)[ptr.slot]? = some value := by
      rw [List.getElem?_take, if_pos hlt, hvalue]
    refine ⟨update pages ptr.pageId (some page), ?_, ?_, page, k, ?_, by omega, hhigh,
      hlaid⟩
    · simp only [redoAppend, hread]
      show (do let written ← pageWriteAt page ptr.slot value; _) = _
      rw [hlaid.pageWriteAt_present hat hone.length_le]
      rfl
    · exact fun q hq => update_of_ne hq ..
    · exact update_self ..
  · -- it is the next to write
    have hk : k = ptr.slot := by omega
    have hlen : (values.take k).length = ptr.slot := by
      rw [length_take]; omega
    have hlt : ptr.slot < values.length := (List.getElem?_eq_some_iff.mp hvalue).1
    rw [← hk] at hone
    have hwritten := hlaid.pageWriteAt_next hone
    rw [hlen] at hwritten
    refine ⟨update pages ptr.pageId
      (some (placeValue page (readHeader page) value)), ?_, ?_,
      placeValue page (readHeader page) value, k + 1, ?_, by omega, by omega, ?_⟩
    · simp only [redoAppend, hread]
      show (do let written ← pageWriteAt page ptr.slot value; _) = _
      rw [hwritten]
      rfl
    · exact fun q hq => update_of_ne hq ..
    · exact update_self ..
    · have htake : values.take (k + 1) = values.take k ++ [value] := by
        rw [hk, take_add_one, hvalue]
        rfl
      rw [htake]
      exact hlaid.placeValue hone

theorem redo_ok (missing : Status) {chainPages : List PageId}
    {log : List (VarHeapPtr × Bytes)} (hdense : Dense log)
    (hlogged : ∀ r ∈ log, r.1.pageId ∈ chainPages)
    (hfits : ∀ p ∈ chainPages, Fits (valuesOf log p)) (post pre : List (VarHeapPtr × Bytes))
    (hlog : pre ++ post = log)
    (hpages : ∀ p ∈ chainPages, HoldsFirst pages (valuesOf log p) (valuesOf pre p).length p) :
    ∃ redone, redo missing pages post = .ok redone ∧
      ∀ p ∈ chainPages, ∃ page, redone p = some page ∧ Laid page (valuesOf log p) := by
  induction post generalizing pre pages with
  | nil =>
    refine ⟨pages, rfl, fun p hp => ?_⟩
    obtain ⟨page, k, hpage, hlow, hhigh, hlaid⟩ := hpages p hp
    rw [append_nil] at hlog
    subst hlog
    obtain rfl : k = (valuesOf pre p).length := by omega
    rw [take_length] at hlaid
    exact ⟨page, hpage, hlaid⟩
  | cons r post ih =>
    obtain ⟨ptr, value⟩ := r
    subst hlog
    have hmem : ptr.pageId ∈ chainPages := hlogged (ptr, value) (by simp)
    obtain ⟨pages', hredo, hother, hsame⟩ :=
      redoAppend_ok missing hdense (hfits _ hmem) (hpages _ hmem)
    have hnext : ∀ p ∈ chainPages, HoldsFirst pages'
        (valuesOf (pre ++ (ptr, value) :: post) p)
        (valuesOf (pre ++ [(ptr, value)]) p).length p := by
      intro p hp
      by_cases heq : ptr.pageId = p
      · subst heq
        rw [valuesOf_concat_same, length_append]
        exact hsame
      · rw [valuesOf_concat_other heq]
        obtain ⟨page, k, hpage, hrest⟩ := hpages p hp
        exact ⟨page, k, (hother p (Ne.symm heq)).trans hpage, hrest⟩
    obtain ⟨redone, hrest, hholds⟩ := ih (pre ++ [(ptr, value)]) (by simp) hnext
    refine ⟨redone, ?_, hholds⟩
    rw [redo, foldlM_cons, hredo]
    exact hrest

end Redo

-- Over a run

section Runs

variable {start s t : State}

/-- No chain yet, and nothing appended; the store may hold any pages. -/
def Start (s : State) : Prop := s.chainPages = [] ∧ s.log = []

theorem Start.inv (h : Start s) : Inv s := by
  obtain ⟨hchain, hlog⟩ := h
  refine ⟨?_, ?_, ?_, ?_, ?_⟩
  · rw [hchain]
    intro p hp
    cases hp
  · rw [hchain]
    intro p hp
    cases hp
  · rw [hlog]
    intro r hr
    cases hr
  · rw [hlog]
    intro p
    rfl
  · rw [hlog]
    exact nodup_nil

theorem Inv.of_reach (h : Inv start) (hreach : Reach VarHeap.step Allowed start s) : Inv s :=
  hreach.invariant h fun _ hinv hok hstep => hinv.step hok hstep

theorem log_prefix_of_step {a : Action} (h : step s a = some t) : s.log <+: t.log := by
  cases a with
  | append calls root value ownerOid =>
    cases h
    rw [State.append]
    split
    · exact prefix_refl _
    · exact prefix_append ..
  | createChain calls ownerOid =>
    cases h
    rw [State.createChain]
    split <;> exact prefix_refl _
  | stamp page offset width n =>
    cases h
    exact prefix_refl _
  | elsewhere pages =>
    cases h
    exact prefix_refl _

theorem log_prefix_of_reach (h : Reach step Allowed s t) : s.log <+: t.log := by
  induction h with
  | refl => exact prefix_refl _
  | tail _ hlast ih =>
    obtain ⟨a, _, hstep⟩ := hlast
    exact ih.trans (log_prefix_of_step hstep)

/-- An image of a page that redo may start from: the page as formatted, or as any state of the run
    showed it since it is a chain's. -/
def EarlierImage (start s : State) (p : PageId) (image : Bytes) : Prop :=
  (∃ ownerOid, image = formatPage ownerOid) ∨
    ∃ t, Reach step Allowed start t ∧ Reach step Allowed t s ∧ p ∈ t.chainPages ∧
      t.pages p = some image

theorem EarlierImage.holdsFirst {p : PageId} {image : Bytes} {images : Pages} (hinv : Inv start)
    (h : EarlierImage start s p image) (himage : images p = some image) :
    HoldsFirst images (valuesOf s.log p) 0 p := by
  rcases h with ⟨ownerOid, rfl⟩ | ⟨t, hto, hfrom, hp, hpage⟩
  · refine ⟨_, 0, himage, le_rfl, Nat.zero_le _, ?_⟩
    rw [take_zero]
    exact laid_formatPage ownerOid
  · obtain ⟨page, hpage', hlaid, _⟩ := (hinv.of_reach hto).chained p hp
    obtain rfl : image = page := Option.some.inj (hpage.symm.trans hpage')
    obtain ⟨more, hlog⟩ := log_prefix_of_reach hfrom
    have hvalues : valuesOf s.log p = valuesOf t.log p ++ valuesOf more p := by
      rw [← hlog, valuesOf_append]
    refine ⟨image, (valuesOf t.log p).length, himage, Nat.zero_le _, ?_, ?_⟩
    · rw [hvalues, length_append]
      omega
    · rw [hvalues, take_left' rfl]
      exact hlaid

/-- **Var-heap values are immutable and addressable forever.**  In every state that a run of
    chain creations, appends, header stamps and writes elsewhere reaches, the pointer of every
    append that returned fetches exactly the bytes appended, no two appends returned the same
    pointer, and the appends redone in order over any earlier image of each page succeed and give
    pages on which every pointer fetches the same bytes. -/
theorem values_immutable (hstart : Start start) (hrun : Reach step Allowed start s)
    (missing : Status) :
    (∀ r ∈ s.log, fetch s.pages missing r.1 = .ok r.2) ∧
      (s.log.map Prod.fst).Nodup ∧
      ∀ images : Pages, (∀ p ∈ s.chainPages, ∃ image, images p = some image ∧
          EarlierImage start s p image) →
        ∃ redone, redo missing images s.log = .ok redone ∧
          ∀ r ∈ s.log, fetch redone missing r.1 = .ok r.2 := by
  have h := hstart.inv.of_reach hrun
  refine ⟨fun r hr => h.fetch hr, h.distinct, fun images himages => ?_⟩
  have hfits : ∀ p ∈ s.chainPages, Fits (valuesOf s.log p) := by
    intro p hp
    obtain ⟨page, _, hlaid, _⟩ := h.chained p hp
    exact hlaid.fits
  have hfirst : ∀ p ∈ s.chainPages, HoldsFirst images (valuesOf s.log p) 0 p := by
    intro p hp
    obtain ⟨image, himage, hearlier⟩ := himages p hp
    exact hearlier.holdsFirst hstart.inv himage
  obtain ⟨redone, hredo, hholds⟩ :=
    redo_ok missing h.dense h.logged hfits s.log [] rfl hfirst
  refine ⟨redone, hredo, fun r hr => ?_⟩
  obtain ⟨pre, post, hlog⟩ := append_of_mem hr
  have hchain := h.logged r hr
  obtain ⟨page, hpage, hlaid⟩ := hholds _ hchain
  apply fetch_of_laid (h.valid _ hchain) hpage hlaid
  rw [hlog]
  exact (hlog ▸ h.dense : Dense (pre ++ (r.1, r.2) :: post)).getElem_slot

/-- A store that refuses no read, and answers this of a creation. -/
def answering (created : StatusOr PageId) : StoreCalls :=
  ⟨.notFound "no such page", fun _ => none, none, created, none⟩

/-- An empty store. -/
def empty : State := ⟨fun _ => none, [], []⟩

/-- A chain created for object 7, and two values appended to it, the second where the store has a
    page for the chain to grow by. -/
def twoAppends (first second : Bytes) : List Action :=
  [.createChain (answering (.ok 5)) 7,
    .append (answering (.error (.resourceExhausted "no page left"))) 5 first 7,
    .append (answering (.ok 6)) 5 second 7]

/-- The state after so many of the actions. -/
def afterAppends (first second : Bytes) (n : Nat) : State :=
  ((twoAppends first second).take n).foldl (fun s a => (step s a).getD s) empty

theorem walk_answering {created : StatusOr PageId} {pages : Pages} {page : Bytes}
    (hpage : pages 5 = some page) (hlast : pageNextPageId page = kInvalidPageId) :
    walk pages (answering created) 5 kMaxChainPages 5 = .ok 5 := by
  obtain ⟨left, hleft⟩ : ∃ left, kMaxChainPages = left + 1 := ⟨2 ^ 20 - 1, by decide⟩
  rw [hleft]
  exact walk_last left hpage hlast rfl

section TwoAppends

variable {first second : Bytes}

theorem afterAppends_one (second : Bytes) (hfits : Fits ([] ++ [first])) :
    ∃ page, afterAppends first second 2 =
      ⟨update (update (fun _ => none) 5 (some (formatPage 7))) 5 (some page), [5],
        [(⟨5, 0⟩, first)]⟩ ∧ Laid page [first] ∧ pageNextPageId page = kInvalidPageId := by
  have hlaid := laid_formatPage 7
  refine ⟨_, ?_, hlaid.placeValue hfits, ?_⟩
  · show State.append ⟨update (fun _ => none) 5 (some (formatPage 7)), [5], []⟩ _ 5 _ 7 = _
    rw [State.append, VarHeap.chainAppend, if_neg (by decide), if_neg hfits.length_le]
    simp only [walk_answering (update_self ..) (pageNextPageId_formatPage 7)]
    simp only [access, answering, update_self, hlaid.pageAppend hfits]
    rfl
  · rw [pageNextPageId_placeValue (hlaid.room hfits), pageNextPageId_formatPage]

theorem afterAppends_log (hfits : Fits ([] ++ [first])) (hfull : ¬ Fits ([first] ++ [second]))
    (hlen : ¬ second.length > kMaxValueSize) :
    (afterAppends first second 3).log = [(⟨5, 0⟩, first), (⟨6, 0⟩, second)] := by
  obtain ⟨page, hstate, hlaid, hlast⟩ := afterAppends_one second hfits
  have hnext : afterAppends first second 3 =
      (afterAppends first second 2).append (answering (.ok 6)) 5 second 7 := rfl
  rw [hnext, hstate, State.append, VarHeap.chainAppend, if_neg (by decide), if_neg hlen]
  simp only [walk_answering (update_self ..) hlast]
  simp only [access, answering, update_self, hlaid.pageAppend_full hlen hfull]
  simp only [VarHeap.growChain, (laid_formatPage 7).pageAppend (fits_singleton hlen)]
  rfl

theorem afterAppends_reached (second : Bytes) (hfits : Fits ([] ++ [first])) :
    Reach step Allowed empty (afterAppends first second 3) := by
  obtain ⟨page, hstate, -, -⟩ := afterAppends_one second hfits
  have hcreate : Allowed empty (.createChain (answering (.ok 5)) 7) := by
    intro id hid
    cases hid
    exact ⟨by decide, rfl⟩
  have hfirst : Allowed (afterAppends first second 1)
      (.append (answering (.error (.resourceExhausted "no page left"))) 5 first 7) :=
    ⟨.inr mem_cons_self, fun id hid => by cases hid⟩
  have hsecond : Allowed (afterAppends first second 2)
      (.append (answering (.ok 6)) 5 second 7) := by
    rw [hstate]
    refine ⟨.inr mem_cons_self, fun id hid => ?_⟩
    cases hid
    exact ⟨by decide, rfl⟩
  exact ((Relation.ReflTransGen.single ⟨_, hcreate, rfl⟩).tail ⟨_, hfirst, rfl⟩).tail
    ⟨_, hsecond, rfl⟩

end TwoAppends

/-- A value that nearly fills its page and one for which the chain grows are both there. -/
theorem values_immutable_twoAppends :
    fetch (afterAppends (replicate 8000 0x41) (replicate 200 0x42) 3).pages
        (.notFound "no such page") ⟨5, 0⟩ = .ok (replicate 8000 0x41) ∧
      fetch (afterAppends (replicate 8000 0x41) (replicate 200 0x42) 3).pages
        (.notFound "no such page") ⟨6, 0⟩ = .ok (replicate 200 0x42) := by
  generalize hfirst : replicate 8000 (0x41 : UInt8) = first
  generalize hsecond : replicate 200 (0x42 : UInt8) = second
  have hlen : first.length = 8000 := hfirst ▸ length_replicate
  have hlen' : second.length = 200 := hsecond ▸ length_replicate
  have hfits : Fits ([] ++ [first]) := fits_singleton (by rw [hlen]; decide)
  have hfull : ¬ Fits ([first] ++ [second]) := by
    rw [Fits, sizeOf_append, sizeOf_singleton, sizeOf_singleton, hlen, hlen', length_append,
      length_singleton, length_singleton]
    decide
  have hlog := afterAppends_log hfits hfull (by rw [hlen']; decide)
  have hkept := values_immutable ⟨rfl, rfl⟩ (afterAppends_reached second hfits)
    (.notFound "no such page")
  exact ⟨hkept.1 (⟨5, 0⟩, first) (hlog ▸ mem_cons_self),
    hkept.1 (⟨6, 0⟩, second) (hlog ▸ mem_cons_of_mem _ mem_cons_self)⟩

end Runs

end Kds.Storage.VarHeap
