/-
  Kds.Storage.Btree

  The clustered B+ tree (`src/storage/btree/btree.cpp`): the descent, the point lookup, the
  insert with the four ways a full tree grows, and the walk over the sibling links.

  Operations take the page store and give it back; a failed insert gives back the store with
  whatever pages it had written.  An allocation always succeeds here and hands out the next
  page id; a page just allocated holds nothing until it is formatted.
-/

import Kds.Storage.BtreePage
import Mathlib.Logic.Function.Basic

namespace Kds.Storage.Btree

open Lib

/-- Deepest root-to-leaf path a descent follows. -/
def maxBtreeDepth : Nat := 16

/-- The most hops a walk over next-page links takes. -/
def maxPageWalkLength : Nat := 2 ^ 20

inductive TreePage where
  | leaf (page : LeafPage)
  | internal (page : InternalPage)
  deriving DecidableEq

/-- `PageStore`: the pages, and the id the next allocation hands out. -/
structure TreeStore where
  pages : PageId → Option TreePage
  nextPageId : PageId

namespace TreeStore

/-- `Get` and `GetForRead`. -/
def get (store : TreeStore) (pageId : PageId) : StatusOr TreePage :=
  match store.pages pageId with
  | some page => .ok page
  | none => .error (.notFound ("page " ++ toString pageId ++ " is not allocated"))

def put (store : TreeStore) (pageId : PageId) (page : TreePage) : TreeStore :=
  { store with pages := Function.update store.pages pageId (some page) }

/-- `CreateNew`: the store once the page is handed out; its id is the old `nextPageId`. -/
def createNew (store : TreeStore) : TreeStore :=
  { store with nextPageId := store.nextPageId + 1 }

end TreeStore

-- What one insert reports

structure StructuralChange where
  pageId : PageId
  isNewPage : Bool := false
  minKey : Nat := 0
  deriving DecidableEq

structure InsertPlacement where
  pageId : PageId
  slot : Nat
  newRoot : Option PageId := none
  structural : List StructuralChange := []
  deriving DecidableEq

/-- `Record`. -/
def InsertPlacement.record (out : InsertPlacement) (change : StructuralChange) :
    InsertPlacement :=
  { out with structural := out.structural ++ [change] }

-- The descent

/-- The root-to-leaf path of a descent: the internal nodes from the root down, and the leaf. -/
structure Descent where
  path : List PageId
  leafId : PageId
  leaf : LeafPage

/-- `DescendTo`, from the levels it may still go down. -/
def descendFrom (store : TreeStore) (key : Nat) : Nat → PageId → StatusOr Descent
  | 0, current =>
    .error (.corruption ("btree descent exceeded " ++ toString maxBtreeDepth ++
      " levels at page " ++ toString current ++
      "; the child pointers are cyclic or corrupt"))
  | fuel + 1, current =>
    match store.get current with
    | .error s => .error s
    | .ok (.leaf leaf) => .ok { path := [], leafId := current, leaf := leaf }
    | .ok (.internal node) =>
      match descendFrom store key fuel (node.childFor key) with
      | .error s => .error s
      | .ok descent => .ok { descent with path := current :: descent.path }

def descendTo (store : TreeStore) (root : PageId) (key : Nat) : StatusOr Descent :=
  descendFrom store key maxBtreeDepth root

-- Growing the internal levels

/-- `InternalDivision`: what one level up must be promoted. -/
structure InternalDivision where
  sep : Nat
  child : PageId

/-- `DivideInternalNode`: the median moves up, the upper half moves to a new node, the old node
    is rebuilt with its own stamp. -/
def divideInternalNode (store : TreeStore) (nodeId : PageId) (node : InternalPage) (sep : Nat)
    (child : PageId) (ownerOid : Nat) : TreeStore × StatusOr InternalDivision :=
  let before := node.entries.takeWhile (fun e => decide (e.1 < sep))
  let after := node.entries.dropWhile (fun e => decide (e.1 < sep))
  if after.head?.map Prod.fst = some sep then
    (store, .error ⟨.alreadyExists, "separator key " ++ toString sep ++
      " is already present in internal node " ++ toString nodeId⟩)
  else
    let entries := before ++ (sep, child) :: after
    let m := entries.length / 2
    match entries.drop m with
    | [] => (store, .error (.corruption "an internal division of no entries"))
    | median :: upper =>
      let rightId := store.nextPageId
      let store := store.createNew
      match (InternalPage.createEmpty node.level median.2 ownerOid).bind
          (·.insertEntries upper) with
      | .error s => (store, .error s)
      | .ok right =>
        let store := store.put rightId (.internal right)
        match (InternalPage.createEmpty node.level node.leftmostChild node.ownerOid).bind
            (·.insertEntries (entries.take m)) with
        | .error s => (store, .error s)
        | .ok rebuilt =>
          (store.put nodeId (.internal rebuilt), .ok { sep := median.1, child := rightId })

/-- `PromoteSeparator`: up the descent path, given from the leaf's parent to the root. -/
def promoteSeparator (store : TreeStore) (oldRoot : PageId) (ownerOid : Nat) :
    List PageId → Nat → Nat → PageId → InsertPlacement → TreeStore × StatusOr InsertPlacement
  | [], oldRootLevel, sep, child, out =>
    -- "The split reached past the root: grow a level."
    let newRootId := store.nextPageId
    let store := store.createNew
    match (InternalPage.createEmpty (oldRootLevel + 1) oldRoot ownerOid).bind
        (·.insertEntry sep child) with
    | .error s => (store, .error s)
    | .ok newRoot =>
      let out := out.record { pageId := newRootId }
      (store.put newRootId (.internal newRoot), .ok { out with newRoot := some newRootId })
  | parentId :: path, _, sep, child, out =>
    match store.get parentId with
    | .error s => (store, .error s)
    | .ok (.leaf _) => (store, .error (.corruption "a leaf above a leaf"))
    | .ok (.internal parent) =>
      if ¬parent.isFull then
        match parent.insertEntry sep child with
        | .error s => (store, .error s)
        | .ok parent' =>
          (store.put parentId (.internal parent'), .ok (out.record { pageId := parentId }))
      else if parent.separatorAboveEveryEntry sep then
        -- The cheap path: a node whose only child is the new one, nothing moved.
        let newNodeId := store.nextPageId
        let store := store.createNew
        match InternalPage.createEmpty parent.level child ownerOid with
        | .error s => (store, .error s)
        | .ok newNode =>
          promoteSeparator (store.put newNodeId (.internal newNode)) oldRoot ownerOid path
            parent.level sep newNodeId (out.record { pageId := newNodeId })
      else
        match divideInternalNode store parentId parent sep child ownerOid with
        | (store, .error s) => (store, .error s)
        | (store, .ok divided) =>
          promoteSeparator store oldRoot ownerOid path parent.level divided.sep
            divided.child
            ((out.record { pageId := divided.child }).record { pageId := parentId })

-- Growing the leaf level

/-- The end of `SplitLeafAndInsert`: "the incoming tuple goes to whichever half now covers it",
    and the new leaf's low key climbs. -/
def insertIntoHalf (store : TreeStore) (oldRoot : PageId) (descent : Descent) (id : Nat)
    (payload : Bytes) (trxId ownerOid splitKey : Nat) (newLeafId : PageId)
    (newLeaf rebuilt : LeafPage) : TreeStore × StatusOr InsertPlacement :=
  let leafId := descent.leafId
  let toNew : Bool := splitKey ≤ id
  match (if toNew then newLeaf.body else rebuilt.body).insertTuple payload trxId noUndoPtr with
  | .error s =>
    ((store.put newLeafId (.leaf newLeaf)).put leafId (.leaf rebuilt), .error s)
  | .ok (body, slot) =>
    let newLeaf := if toNew then { newLeaf with body := body } else newLeaf
    let rebuilt := if toNew then rebuilt else { rebuilt with body := body }
    let store := (store.put newLeafId (.leaf newLeaf)).put leafId (.leaf rebuilt)
    let out : InsertPlacement := { pageId := if toNew then newLeafId else leafId, slot := slot }
    promoteSeparator store oldRoot ownerOid descent.path.reverse 0 splitKey newLeafId
      ((out.record { pageId := newLeafId }).record { pageId := leafId })

/-- `SplitLeafAndInsert`: the upper half of the live versions, in key order, moves to a new leaf,
    and the old leaf is rebuilt from the lower half. -/
def splitLeafAndInsert (store : TreeStore) (oldRoot : PageId) (descent : Descent) (id : Nat)
    (payload : Bytes) (trxId ownerOid : Nat) : TreeStore × StatusOr InsertPlacement :=
  let leafId := descent.leafId
  let leaf := descent.leaf
  match liveVersions leaf.body.slots with
  | .error s => (store, .error s)
  | .ok live =>
    if live.length < 2 then
      (store, .error (.outOfSpace ("leaf " ++ toString leafId ++
        " is full with fewer than two live tuples; the row is too large for a leaf to hold " ++
        "two of")))
    else
      let live := live.mergeSort (fun a b => decide (a.key ≤ b.key))
      let splitAt := live.length / 2
      match live.drop splitAt with
      | [] => (store, .error (.corruption "a leaf division of no versions"))
      | median :: upper =>
        let newLeafId := store.nextPageId
        let store := store.createNew
        match LeafPage.createEmptyAs median.key ownerOid with
        | .error s => (store, .error s)
        | .ok newLeaf =>
          match fillLeaf newLeaf.body (median :: upper) with
          | (body, .error s) =>
            (store.put newLeafId (.leaf { newLeaf with body := body }), .error s)
          | (newBody, .ok ()) =>
            let store := store.put newLeafId (.leaf { newLeaf with body := newBody })
            match LeafPage.createEmptyAs leaf.body.minKey leaf.ownerOid with
            | .error s => (store, .error s)
            | .ok rebuilt =>
              match fillLeaf rebuilt.body (live.take splitAt) with
              | (body, .error s) =>
                (store.put leafId (.leaf { rebuilt with body := body }), .error s)
              | (oldBody, .ok ()) =>
                -- The sibling links: the new leaf takes the old one's neighbour.
                insertIntoHalf store oldRoot descent id payload trxId ownerOid
                  median.key newLeafId
                  { newLeaf with body := newBody, nextPageId := leaf.nextPageId }
                  { rebuilt with
                    body := oldBody
                    nextPageId := some newLeafId
                    relayoutEpoch := leaf.relayoutEpoch + 1 }

/-- The append split of `BtreeInsert`: a fresh leaf after a full one, nothing moved. -/
def appendLeafAndInsert (store : TreeStore) (oldRoot : PageId) (descent : Descent) (id : Nat)
    (payload : Bytes) (trxId ownerOid : Nat) : TreeStore × StatusOr InsertPlacement :=
  let newLeafId := store.nextPageId
  let store := store.createNew
  match LeafPage.createEmptyAs id ownerOid with
  | .error s => (store, .error s)
  | .ok newLeaf =>
    -- "Safe to publish before the tuple is in": nothing reaches this page yet.
    let newLeaf := { newLeaf with nextPageId := descent.leaf.nextPageId }
    match newLeaf.body.insertTuple payload trxId noUndoPtr with
    | .error s => (store.put newLeafId (.leaf newLeaf), .error s)
    | .ok (body, slot) =>
      let store := store.put newLeafId (.leaf { newLeaf with body := body })
      -- Sibling link last, after the tuple is in.
      let store := store.put descent.leafId
        (.leaf { descent.leaf with nextPageId := some newLeafId })
      let out : InsertPlacement := { pageId := newLeafId, slot := slot }
      promoteSeparator store oldRoot ownerOid descent.path.reverse 0 id newLeafId
        ((out.record { pageId := newLeafId, isNewPage := true, minKey := id }).record
          { pageId := descent.leafId })

-- The operations

/-- `BtreeInsert`. -/
def btreeInsert (store : TreeStore) (root : PageId) (id : Nat) (payload : Bytes)
    (trxId ownerOid : Nat) : TreeStore × StatusOr InsertPlacement :=
  match keystoneIdOfPayload payload with
  | .error s => (store, .error s)
  | .ok encodedId =>
    if encodedId ≠ id then
      (store, .error (.corruption ("tuple's Keystone id " ++ toString encodedId ++
        " does not match the id being inserted (" ++ toString id ++ ")")))
    else
      match descendTo store root id with
      | .error s => (store, .error s)
      | .ok descent =>
        if id < descent.leaf.body.minKey then
          (store, .error (.outOfRange ("id " ++ toString id ++ " is below leaf " ++
            toString descent.leafId ++ "'s min_key " ++
            toString descent.leaf.body.minKey ++
            "; the relation's id sequence has gone backwards")))
        else
          match checkDuplicate descent.leafId id descent.leaf.body.slots 0 with
          | .error s => (store, .error s)
          | .ok () =>
            match descent.leaf.body.insertTuple payload trxId noUndoPtr with
            | .ok (body, slot) =>
              (store.put descent.leafId (.leaf { descent.leaf with body := body }),
                .ok { pageId := descent.leafId, slot := slot })
            | .error s =>
              if s.code ≠ .outOfSpace then (store, .error s)
              else
                match maxLiveId descent.leaf.body with
                | .error s => (store, .error s)
                | .ok maxId =>
                  if id < maxId then
                    splitLeafAndInsert store root descent id payload trxId ownerOid
                  else
                    appendLeafAndInsert store root descent id payload trxId ownerOid

/-- `Location`. -/
structure Location where
  pageId : PageId
  slot : Nat
  deriving DecidableEq

/-- `BtreeLookup`. -/
def btreeLookup (store : TreeStore) (root : PageId) (id : Nat) : StatusOr Location :=
  match descendTo store root id with
  | .error s => .error s
  | .ok descent =>
    match findSlotForId descent.leaf.body id with
    | .ok slot => .ok { pageId := descent.leafId, slot := slot }
    | .error s =>
      if s.code ≠ .notFound then .error s
      else .error (.notFound ("no tuple with primary key " ++ toString id ++ " in leaf " ++
        toString descent.leafId))

/-- `BtreeSeekLeaf`. -/
def btreeSeekLeaf (store : TreeStore) (root : PageId) (id : Nat) : StatusOr PageId :=
  (descendTo store root id).map Descent.leafId

/-- `BtreeLeftmostLeaf`, from the levels it may still go down. -/
def leftmostFrom (store : TreeStore) : Nat → PageId → StatusOr PageId
  | 0, current =>
    .error (.corruption ("btree exceeded " ++ toString maxBtreeDepth ++ " levels at page " ++
      toString current))
  | fuel + 1, current =>
    match store.get current with
    | .error s => .error s
    | .ok (.leaf _) => .ok current
    | .ok (.internal node) => leftmostFrom store fuel node.leftmostChild

def btreeLeftmostLeaf (store : TreeStore) (root : PageId) : StatusOr PageId :=
  leftmostFrom store maxBtreeDepth root

-- The walk over the leaves

/-- `VisitControl`. -/
inductive VisitControl where
  | continue_ | stop
  deriving DecidableEq

/-- A visitor: called with a page, its body and a slot, it passes on what it has gathered. -/
abbrev Visitor (σ : Type) := σ → PageId → HeapPage → Nat → StatusOr (σ × VisitControl)

variable {σ : Type}

/-- The slots of one leaf: what was gathered, and whether to go on. -/
def visitSlots (visit : Visitor σ) (pageId : PageId) (body : HeapPage) :
    List Nat → σ → StatusOr (σ × VisitControl)
  | [], gathered => .ok (gathered, .continue_)
  | slot :: rest, gathered =>
    match visit gathered pageId body slot with
    | .error s => .error s
    | .ok (gathered, .stop) => .ok (gathered, .stop)
    | .ok (gathered, .continue_) => visitSlots visit pageId body rest gathered

/-- `BtreeVisitLeafPage`: one leaf, and the right neighbour to go on at. -/
def btreeVisitLeafPage (visit : Visitor σ) (store : TreeStore) (leafId : PageId) (gathered : σ) :
    StatusOr (σ × Option PageId) :=
  match store.get leafId with
  | .error s => .error s
  | .ok (.internal _) =>
    .error (.corruption ("page " ++ toString leafId ++ " is not a leaf"))
  | .ok (.leaf leaf) =>
    match visitSlots visit leafId leaf.body (List.range leaf.body.slotCount) gathered with
    | .error s => .error s
    | .ok (gathered, .stop) => .ok (gathered, none)
    | .ok (gathered, .continue_) => .ok (gathered, leaf.nextPageId)

/-- The loop of `BtreeVisitFrom`, from the hops its budget still allows. -/
def visitChain (visit : Visitor σ) (store : TreeStore) : Nat → PageId → σ → StatusOr σ
  | 0, current, _ =>
    .error (.corruption ("btree leaf chain at page " ++ toString current ++ " exceeds " ++
      toString maxPageWalkLength ++ " pages; the page links are cyclic or corrupt"))
  | budget + 1, current, gathered =>
    match btreeVisitLeafPage visit store current gathered with
    | .error s => .error s
    | .ok (gathered, none) => .ok gathered
    | .ok (gathered, some next) => visitChain visit store budget next gathered

/-- `BtreeVisitFrom`. -/
def btreeVisitFrom (visit : Visitor σ) (store : TreeStore) (firstLeaf : PageId) (start : σ) :
    StatusOr σ :=
  visitChain visit store maxPageWalkLength firstLeaf start

/-- `BtreeVisit`. -/
def btreeVisit (visit : Visitor σ) (store : TreeStore) (root : PageId) (start : σ) : StatusOr σ :=
  match btreeLeftmostLeaf store root with
  | .error s => .error s
  | .ok first => btreeVisitFrom visit store first start

end Kds.Storage.Btree
