/-
  Kds.Storage.BtreePage

  The two kinds of page of a clustered B+ tree (`src/storage/btree/btree_page.cpp`, and the
  parts of `btree.cpp` that read one leaf).

  An internal node routes: a leftmost child, and entries `(sep_key, child)` in ascending
  order, each separator the low key of the subtree it points at.  A leaf is a heap page body
  with a link to its right neighbour; its tuples carry their ids in their first word, and their
  slots are in no order of ids.
-/

import Kds.Lib.Separators
import Kds.Storage.HeapPage
import Mathlib.Data.List.Sort

namespace Kds.Storage.Btree

open Lib List

abbrev PageId := Nat

def maxTupleId : Nat := 2 ^ 40 - 1
def internalMaxEntries : Nat := 678

/-- What a leaf offers its tuples: a page less its headers and the link at its end. -/
def emptyFreeSpace : Nat := 8140

def noUndoPtr : Nat := 0

-- The internal node

/-- `InternalView`: the header and the entry array, `(sep_key, child)`. -/
structure InternalPage where
  level : Nat
  leftmostChild : PageId
  entries : List (Nat × PageId) := []
  ownerOid : Nat
  deriving DecidableEq

namespace InternalPage

/-- `CreateEmpty`. -/
def createEmpty (level : Nat) (leftmostChild : PageId) (ownerOid : Nat) :
    StatusOr InternalPage :=
  if level = 0 then .error (.invalidArgument "level 0 is a leaf, not an internal node")
  else .ok { level := level, leftmostChild := leftmostChild, ownerOid := ownerOid }

def entryCount (page : InternalPage) : Nat := page.entries.length

def isFull (page : InternalPage) : Bool := internalMaxEntries ≤ page.entryCount

/-- The binary search of `FindSlot`: `lo` ends as the count of entries not above the key. -/
def searchSlot (entries : List (Nat × PageId)) (key : Nat) : Nat → Nat → Nat → Nat
  | 0, lo, _ => lo
  | fuel + 1, lo, hi =>
    if lo < hi then
      let mid := lo + (hi - lo) / 2
      match entries[mid]? with
      | none => lo
      | some entry =>
        if entry.1 ≤ key then searchSlot entries key fuel (mid + 1) hi
        else searchSlot entries key fuel lo mid
    else lo

/-- `FindSlot`, one past the index it answers: `0` is its "none, use leftmost_child". -/
def findSlot (page : InternalPage) (key : Nat) : Nat :=
  searchSlot page.entries key page.entryCount 0 page.entryCount

/-- `ChildFor`. -/
def childFor (page : InternalPage) (key : Nat) : PageId :=
  let slot := page.findSlot key
  if slot = 0 then page.leftmostChild
  else (page.entries[slot - 1]?.map Prod.snd).getD page.leftmostChild

/-- `InsertEntry`. -/
def insertEntry (page : InternalPage) (sepKey : Nat) (child : PageId) : StatusOr InternalPage :=
  if maxTupleId < sepKey then
    .error (.invalidArgument "separator key exceeds 40-bit tuple id range")
  else if internalMaxEntries ≤ page.entryCount then
    .error (.outOfSpace ("internal node is full (" ++ toString internalMaxEntries ++ " entries)"))
  else
    let slot := page.findSlot sepKey
    if slot ≠ 0 ∧ page.entries[slot - 1]?.map Prod.fst = some sepKey then
      .error ⟨.alreadyExists, "separator key " ++ toString sepKey ++
        " is already present in this internal node"⟩
    else
      .ok { page with
        entries := page.entries.take slot ++ (sepKey, child) :: page.entries.drop slot }

/-- The loop that writes one half's entries into a fresh node. -/
def insertEntries (page : InternalPage) : List (Nat × PageId) → StatusOr InternalPage
  | [] => .ok page
  | entry :: rest =>
    match page.insertEntry entry.1 entry.2 with
    | .error s => .error s
    | .ok page' => page'.insertEntries rest

/-- `SeparatorAboveEveryEntry`: whether the cheap right-split is sound. -/
def separatorAboveEveryEntry (page : InternalPage) (sep : Nat) : Bool :=
  match page.entries.getLast? with
  | none => true
  | some highest => highest.1 ≤ sep

end InternalPage

-- The leaf

/-- A leaf: the heap page body, the right neighbour, the epoch that dates slot positions. -/
structure LeafPage where
  body : HeapPage
  nextPageId : Option PageId := none
  relayoutEpoch : Nat := 0
  ownerOid : Nat
  deriving DecidableEq

/-- `CreateEmptyAs` with the leaf's page type. -/
def LeafPage.createEmptyAs (minKey ownerOid : Nat) : StatusOr LeafPage :=
  if maxTupleId < minKey then
    .error (.invalidArgument "min_key exceeds 40-bit tuple id range")
  else .ok { body := { minKey := minKey, freeSpace := emptyFreeSpace }, ownerOid := ownerOid }

/-- The id of the tuple in a slot, or `NotFound` when it is retired. -/
def slotKeystoneId : HeapSlot → StatusOr Nat
  | .dead => .error (.notFound "slot is dead")
  | .live _ tuple => keystoneIdOfPayload tuple.payload

/-- `MaxLiveId`, from the slots not read yet and the highest id so far. -/
def maxLiveIdFrom : List HeapSlot → Nat → StatusOr Nat
  | [], maxId => .ok maxId
  | slot :: rest, maxId =>
    match slotKeystoneId slot with
    | .error s => if s.code = .notFound then maxLiveIdFrom rest maxId else .error s
    | .ok id => maxLiveIdFrom rest (if maxId < id then id else maxId)

def maxLiveId (leaf : HeapPage) : StatusOr Nat := maxLiveIdFrom leaf.slots 0

/-- "Nearest live slot at or after mid, within the window": its place and its id. -/
def nearestLive (slots : List HeapSlot) : Nat → Nat → StatusOr (Option (Nat × Nat))
  | 0, _ => .ok none
  | window + 1, probe =>
    match slots[probe]?.map slotKeystoneId with
    | none => .ok none
    | some (.ok key) => .ok (some (probe, key))
    | some (.error s) =>
      if s.code = .notFound then nearestLive slots window (probe + 1) else .error s

/-- The first pass of `FindSlotForId`: a binary search that holds when the slots are in order. -/
def searchLeaf (slots : List HeapSlot) (id : Nat) : Nat → Nat → Nat → StatusOr (Option Nat)
  | 0, _, _ => .ok none
  | fuel + 1, lo, hi =>
    if lo < hi then
      let mid := lo + (hi - lo) / 2
      match nearestLive slots (hi - mid) mid with
      | .error s => .error s
      | .ok none => searchLeaf slots id fuel lo mid
      | .ok (some (probe, key)) =>
        if key = id then .ok (some probe)
        else if key < id then searchLeaf slots id fuel (probe + 1) hi
        else searchLeaf slots id fuel lo mid
    else .ok none

/-- The second pass: linear, and right in every case. -/
def scanForId (id : Nat) : List HeapSlot → Nat → StatusOr Nat
  | [], _ => .error (.notFound "no such key in leaf")
  | slot :: rest, place =>
    match slotKeystoneId slot with
    | .error s => if s.code = .notFound then scanForId id rest (place + 1) else .error s
    | .ok key => if key = id then .ok place else scanForId id rest (place + 1)

/-- `FindSlotForId`. -/
def findSlotForId (leaf : HeapPage) (id : Nat) : StatusOr Nat :=
  match searchLeaf leaf.slots id leaf.slotCount 0 leaf.slotCount with
  | .error s => .error s
  | .ok (some slot) => .ok slot
  | .ok none => scanForId id leaf.slots 0

/-- The check an insert makes over every live slot, delete-marked ones included. -/
def checkDuplicate (leafId : PageId) (id : Nat) : List HeapSlot → Nat → StatusOr Unit
  | [], _ => .ok ()
  | slot :: rest, place =>
    match slotKeystoneId slot with
    | .error s => if s.code = .notFound then checkDuplicate leafId id rest (place + 1)
        else .error s
    | .ok existing =>
      if existing = id then
        .error ⟨.alreadyExists, "duplicate primary key " ++ toString id ++
          " already present at page " ++ toString leafId ++ " slot " ++ toString place⟩
      else checkDuplicate leafId id rest (place + 1)

/-- A live version, copied out of its leaf whole. -/
structure LeafVersion where
  key : Nat
  trxId : Nat
  undoPtr : Nat
  deleted : Bool
  bytes : Bytes
  deriving DecidableEq

/-- "Every live version on the page, copied out whole before anything is written." -/
def liveVersions : List HeapSlot → StatusOr (List LeafVersion)
  | [] => .ok []
  | .dead :: rest => liveVersions rest
  | .live _ tuple :: rest =>
    match keystoneIdOfPayload tuple.payload with
    | .error s => .error s
    | .ok key =>
      match liveVersions rest with
      | .error s => .error s
      | .ok versions => .ok (⟨key, tuple.trxId, tuple.undoPtr, tuple.deleted, tuple.payload⟩ ::
          versions)

/-- The loop that writes one half's versions into a fresh page, marks with them; on an error
    the page keeps what was written. -/
def fillLeaf (page : HeapPage) : List LeafVersion → HeapPage × StatusOr Unit
  | [] => (page, .ok ())
  | version :: rest =>
    match page.insertTuple version.bytes version.trxId version.undoPtr with
    | .error s => (page, .error s)
    | .ok (page', slot) =>
      if version.deleted then
        match page'.deleteMark slot version.trxId with
        | .error s => (page', .error s)
        | .ok marked => fillLeaf marked rest
      else fillLeaf page' rest

-- Routing

namespace InternalPage

variable {page : InternalPage} {entries : List (Nat × PageId)}

theorem searchSlot_spec {key : Nat} (hsorted : Ascending entries) :
    ∀ fuel lo hi, hi - lo ≤ fuel → lo ≤ hi → hi ≤ entries.length →
      (∀ i entry, entries[i]? = some entry → i < lo → entry.1 ≤ key) →
      (∀ i entry, entries[i]? = some entry → hi ≤ i → key < entry.1) →
      UpperBound entries key (searchSlot entries key fuel lo hi) := by
  have hmono : ∀ i j (hi : i < entries.length) (hj : j < entries.length), i ≤ j →
      (entries[i]).1 ≤ (entries[j]).1 := by
    intro i j hi hj hij
    rcases Nat.eq_or_lt_of_le hij with rfl | hlt
    · exact Nat.le_refl _
    · have hpair := pairwise_iff_getElem.mp hsorted i j
        (by rw [length_map]; exact hi) (by rw [length_map]; exact hj) hlt
      rw [getElem_map, getElem_map] at hpair
      omega
  intro fuel
  induction fuel with
  | zero =>
    intro lo hi hfuel hle hlen hbelow habove
    obtain rfl : lo = hi := by omega
    exact ⟨hlen, hbelow, habove⟩
  | succ fuel ih =>
    intro lo hi hfuel hle hlen hbelow habove
    rw [searchSlot]
    by_cases hlt : lo < hi
    · rw [if_pos hlt]
      have hmid : lo + (hi - lo) / 2 < entries.length := by omega
      show UpperBound entries key (match entries[lo + (hi - lo) / 2]? with
        | none => lo
        | some entry => _)
      rw [List.getElem?_eq_getElem hmid]
      dsimp only
      by_cases hkey : (entries[lo + (hi - lo) / 2]).1 ≤ key
      · rw [if_pos hkey]
        refine ih _ _ (by omega) (by omega) hlen (fun i entry hget hi' => ?_) habove
        obtain ⟨hi'', rfl⟩ := List.getElem?_eq_some_iff.mp hget
        exact Nat.le_trans (hmono i _ hi'' hmid (by omega)) hkey
      · rw [if_neg hkey]
        refine ih _ _ (by omega) (by omega) (by omega) hbelow (fun i entry hget hi' => ?_)
        obtain ⟨hi'', rfl⟩ := List.getElem?_eq_some_iff.mp hget
        have hge := hmono _ i hmid hi'' hi'
        omega
    · rw [if_neg hlt]
      obtain rfl : lo = hi := by omega
      exact ⟨hlen, hbelow, habove⟩

theorem findSlot_upperBound (hsorted : Ascending page.entries) (key : Nat) :
    UpperBound page.entries key (page.findSlot key) := by
  refine searchSlot_spec hsorted _ _ _ (by rw [Nat.sub_zero]) (Nat.zero_le _) (Nat.le_refl _)
    (fun i _ _ hi => absurd hi (Nat.not_lt_zero i)) (fun i entry hget hi => ?_)
  exact absurd (List.getElem?_eq_some_iff.mp hget).1 (Nat.not_lt.mpr hi)

theorem childFor_eq_route (hsorted : Ascending page.entries) (key : Nat) :
    page.childFor key = route page.leftmostChild page.entries key := by
  rw [(findSlot_upperBound hsorted key).route_eq]
  rfl

theorem insertEntry_of_new (hsorted : Ascending page.entries) {sepKey : Nat} (child : PageId)
    (hmax : sepKey ≤ maxTupleId) (hroom : page.entryCount < internalMaxEntries)
    (hnew : ∀ e ∈ page.entries, e.1 ≠ sepKey) :
    page.insertEntry sepKey child =
      .ok { page with entries := insertSep sepKey child page.entries } := by
  have hbound := findSlot_upperBound hsorted sepKey
  have hslot : ¬(page.findSlot sepKey ≠ 0 ∧
      page.entries[page.findSlot sepKey - 1]?.map Prod.fst = some sepKey) := by
    rw [← hbound.sep_mem_iff hsorted]
    rintro ⟨e, he, heq⟩
    exact hnew e he heq
  rw [insertEntry, if_neg (Nat.not_lt.mpr hmax), if_neg (Nat.not_le.mpr hroom)]
  rw [if_neg hslot, hbound.insertSep_eq hnew]

theorem insertEntry_of_dup (hsorted : Ascending page.entries) {sepKey : Nat} (child : PageId)
    (hmax : sepKey ≤ maxTupleId) (hroom : page.entryCount < internalMaxEntries)
    (hdup : ∃ e ∈ page.entries, e.1 = sepKey) :
    ∃ s, page.insertEntry sepKey child = .error s ∧ s.code = .alreadyExists := by
  have hbound := findSlot_upperBound hsorted sepKey
  rw [insertEntry, if_neg (Nat.not_lt.mpr hmax), if_neg (Nat.not_le.mpr hroom)]
  rw [if_pos ((hbound.sep_mem_iff hsorted).mp hdup)]
  exact ⟨_, rfl, rfl⟩

theorem insertEntries_spec (hsorted : Ascending (page.entries ++ entries))
    (hmax : ∀ e ∈ entries, e.1 ≤ maxTupleId)
    (hroom : page.entryCount + entries.length ≤ internalMaxEntries) :
    page.insertEntries entries = .ok { page with entries := page.entries ++ entries } := by
  induction entries generalizing page with
  | nil => rw [insertEntries, append_nil]
  | cons entry rest ih =>
    obtain ⟨hold, -, hcross⟩ := ascending_append.mp hsorted
    have hbelow : ∀ e ∈ page.entries, e.1 < entry.1 :=
      fun e he => hcross e he entry mem_cons_self
    rw [length_cons] at hroom
    have hput : page.insertEntry entry.1 entry.2 =
        .ok { page with entries := page.entries ++ [entry] } := by
      rw [insertEntry_of_new hold entry.2 (hmax entry mem_cons_self) (by omega)
        (fun e he => Nat.ne_of_lt (hbelow e he)), insertSep_of_all_lt hbelow]
    rw [insertEntries, hput]
    show ({ page with entries := page.entries ++ [entry] } : InternalPage).insertEntries rest = _
    have hassoc : page.entries ++ [entry] ++ rest = page.entries ++ entry :: rest := by
      rw [append_assoc, singleton_append]
    rw [@ih { page with entries := page.entries ++ [entry] }
      (by show Ascending (page.entries ++ [entry] ++ rest); rwa [hassoc])
      (fun e he => hmax e (mem_cons_of_mem _ he))
      (by
        show (page.entries ++ [entry]).length + rest.length ≤ internalMaxEntries
        rw [length_append, length_singleton]
        have hcount : page.entryCount = page.entries.length := rfl
        omega)]
    show Except.ok { page with entries := page.entries ++ [entry] ++ rest } = _
    rw [hassoc]

theorem separatorAboveEveryEntry_iff (hsorted : Ascending page.entries) (sep : Nat) :
    page.separatorAboveEveryEntry sep = true ↔ ∀ e ∈ page.entries, e.1 ≤ sep := by
  rw [separatorAboveEveryEntry]
  rcases eq_nil_or_concat page.entries with hnil | ⟨before, last, hlast⟩
  · rw [hnil]
    exact ⟨fun _ e he => absurd he not_mem_nil, fun _ => rfl⟩
  · rw [concat_eq_append] at hlast
    rw [hlast, List.getLast?_concat]
    rw [hlast] at hsorted
    obtain ⟨-, -, hcross⟩ := ascending_append.mp hsorted
    show decide (last.1 ≤ sep) = true ↔ _
    rw [decide_eq_true_eq]
    refine ⟨fun hle e he => ?_, fun h => h last (by simp)⟩
    rcases Lib.mem_snoc.mp he with he | he
    · exact Nat.le_trans (Nat.le_of_lt (hcross e he last (mem_singleton_self _))) hle
    · rwa [he]

end InternalPage

end Kds.Storage.Btree
