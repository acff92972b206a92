/-
  Kds.Exec.OutputSort

  ORDER BY's sort (`src/exec/sort.cpp`, `include/kds/exec/pagination.hpp`): the keys a row is
  ordered by, the buffer that holds every row or, under a LIMIT the cap covers, a heap of those that
  can still reach the client, and the quota that drains it.

  The standard's heap and sort are whatever does what the standard says (`Lib.HeapAlgorithms`).
-/

import Kds.Exec.FkCheck
import Kds.Exec.StepChain
import Kds.Lib.StableSort

namespace Kds.Exec.Sort

open Lib Std List

-- Order keys

/-- `struct OrderKey`. -/
structure OrderKey where
  num : Int := 0
  str : List UInt8 := []
  isStr : Bool := false
  isNull : Bool := false
  deriving DecidableEq

/-- `OrderKey::Compare`. -/
def OrderKey.compare (a b : OrderKey) : Ordering :=
  if a.isNull || b.isNull then
    if a.isNull = b.isNull then .eq else if a.isNull then .gt else .lt
  else if a.isStr ≠ b.isStr then (if a.isStr then .gt else .lt)
  else if a.isStr then Ord.compare a.str b.str
  else Ord.compare a.num b.num

/-- `OrderKeyOf`. -/
def orderKeyOf (typeVal : TypeVal) (v : AstValue) : StatusOr OrderKey :=
  if v.type = .null then .ok { isNull := true }
  else if typeVal = typeValUint64 then
    match valueAsUint64 v with
    | some n => .ok { num := n }
    | none => .error (.invalidArgument (uint64Refusal v))
  else
    match v.type with
    | .int | .decimal => .ok { num := v.intVal }
    | .decimalWide => .ok { num := int128FromHalves v.decHi v.intVal }
    | .str => .ok { isStr := true, str := v.strVal }
    | .null | .param => .error (.corruption "cannot order a value of this kind")

/-- `struct SortKey`. -/
structure SortKey where
  ref : ColumnRef
  typeVal : TypeVal
  descending : Bool

/-- A row's keys, in the order they are written. -/
def orderKeys (frame : ColumnRef → AstValue) : List SortKey → StatusOr (List OrderKey)
  | [] => .ok []
  | key :: keys => do
    let normalized ← orderKeyOf key.typeVal (frame key.ref)
    let rest ← orderKeys frame keys
    .ok (normalized :: rest)

-- The sort

/-- `OutputSort::Row`. -/
structure OutputRow where
  keys : List OrderKey
  seq : Nat
  text : List UInt8

structure OutputSort where
  keys : List SortKey
  buffer : List OutputRow
  pending : List OrderKey
  nextSeq : Nat
  retain : Nat
  bounded : Bool
  maxRows : Nat

/-- `std::numeric_limits<std::uint64_t>::max()`. -/
def kMax : Nat := 2 ^ 64 - 1

namespace OutputSort

/-- The rows that can reach the client, saturating. -/
def wanted (limit : Option Nat) (offset : Nat) : Nat :=
  match limit with
  | none => kMax
  | some n => if kMax - n < offset then kMax else offset + n

/-- `Reset`. -/
def reset (keys : List SortKey) (limit : Option Nat) (offset maxRows : Nat) : OutputSort :=
  let bounded := decide (wanted limit offset ≤ maxRows)
  { keys := keys
    buffer := []
    pending := []
    nextSeq := 0
    retain := if bounded then wanted limit offset else maxRows
    bounded := bounded
    maxRows := maxRows }

/-- `Before`, from key number `i` on: arrival is the last key. -/
def beforeFrom (a b : OutputRow) : Nat → List SortKey → Bool
  | _, [] => a.seq < b.seq
  | i, key :: keys =>
    match (a.keys.getD i {}).compare (b.keys.getD i {}) with
    | .eq => beforeFrom a b (i + 1) keys
    | c => if key.descending then c = .gt else c = .lt

def before (keys : List SortKey) (a b : OutputRow) : Bool := beforeFrom a b 0 keys

/-- `PendingBefore`: a tie goes to the row already held. -/
def pendingBeforeFrom (pending : List OrderKey) (b : OutputRow) : Nat → List SortKey → Bool
  | _, [] => false
  | i, key :: keys =>
    match (pending.getD i {}).compare (b.keys.getD i {}) with
    | .eq => pendingBeforeFrom pending b (i + 1) keys
    | c => if key.descending then c = .gt else c = .lt

/-- `CapExceeded`. -/
def capExceeded (maxRows : Nat) : Status :=
  .resourceExhausted ("this statement's ORDER BY would hold more than sort_max_rows (" ++
    toString maxRows ++ ") rows; no partial ordering is emitted, because a truncated sort drops " ++
    "exactly the rows the statement asked to see last - raise sort_max_rows, or add a LIMIT, " ++
    "which bounds what is held at offset + limit")

/-- Whether the row whose keys are pending is to be taken. -/
def admits (s : OutputSort) : StatusOr Bool :=
  if s.bounded && s.retain ≤ s.buffer.length then
    match s.buffer with
    | [] => .ok false
    | front :: _ =>
      .ok (if s.retain = 0 then false else pendingBeforeFrom s.pending front 0 s.keys)
  else if s.maxRows ≤ s.buffer.length then .error (capExceeded s.maxRows)
  else .ok true

/-- `Admit`. -/
def admitRow (s : OutputSort) (frame : ColumnRef → AstValue) : StatusOr (OutputSort × Bool) := do
  let pending ← orderKeys frame s.keys
  let s := { s with pending := pending }
  let taken ← s.admits
  .ok (s, taken)

/-- `Take`: a full heap gives up its worst row. -/
def take (std : HeapAlgorithms OutputRow) (s : OutputSort) (text : List UInt8) : OutputSort :=
  let row : OutputRow := ⟨s.pending, s.nextSeq, text⟩
  let nextSeq := (s.nextSeq + 1) % 2 ^ 64
  if s.bounded && s.retain ≤ s.buffer.length then
    let popped := std.pop (before s.keys) s.buffer
    { s with buffer := std.push (before s.keys) (popped.dropLast ++ [row]), nextSeq := nextSeq }
  else
    let buffer := s.buffer ++ [row]
    { s with
      buffer := if s.bounded then std.push (before s.keys) buffer else buffer
      nextSeq := nextSeq }

/-- `Finish`. -/
def finish (std : HeapAlgorithms OutputRow) (s : OutputSort) : OutputSort :=
  { s with buffer := std.sort (before s.keys) s.buffer }

end OutputSort

-- The quota

/-- `enum class QuotaVerdict`. -/
inductive QuotaVerdict where
  | skip | emit | emitThenStop | stop
  deriving DecidableEq

/-- `EmissionQuota`. -/
structure EmissionQuota where
  offset : Nat
  limit : Option Nat
  skipped : Nat := 0
  emitted : Nat := 0

/-- `Note`. -/
def EmissionQuota.note (q : EmissionQuota) : EmissionQuota × QuotaVerdict :=
  if q.limit = some 0 then (q, .stop)
  else if q.skipped < q.offset then ({ q with skipped := q.skipped + 1 }, .skip)
  else
    let emitted := q.emitted + 1
    ({ q with emitted := emitted },
      match q.limit with
      | none => .emit
      | some limit => if limit ≤ emitted then .emitThenStop else .emit)

/-- `DrainSorted`: the texts that reach the client. -/
def drainSorted (q : EmissionQuota) : List OutputRow → List (List UInt8)
  | [] => []
  | row :: rows =>
    match q.note with
    | (_, .stop) => []
    | (q, .skip) => drainSorted q rows
    | (_, .emitThenStop) => [row.text]
    | (q, .emit) => row.text :: drainSorted q rows

-- A statement

/-- A row as the walk emits it, and as it would be rendered. -/
structure ArrivedRow where
  frame : ColumnRef → AstValue
  text : List UInt8

/-- The rows of the walk, in emission order; the first error ends it. -/
def OutputSort.feed (std : HeapAlgorithms OutputRow) (s : OutputSort) :
    List ArrivedRow → StatusOr OutputSort
  | [] => .ok s
  | row :: rows =>
    match s.admitRow row.frame with
    | .error e => .error e
    | .ok (s, false) => s.feed std rows
    | .ok (s, true) => (s.take std row.text).feed std rows

/-- What a sorted statement answers. -/
def sortedReply (std : HeapAlgorithms OutputRow) (keys : List SortKey) (limit : Option Nat)
    (offset maxRows : Nat) (rows : List ArrivedRow) : StatusOr (List (List UInt8)) :=
  match (OutputSort.reset keys limit offset maxRows).feed std rows with
  | .error e => .error e
  | .ok s => .ok (drainSorted { offset := offset, limit := limit } (s.finish std).buffer)

-- What it is for

/-- A row with what it is ordered by. -/
structure KeyedRow where
  keys : List OrderKey
  text : List UInt8

/-- Two rows by a statement's keys, from key number `i` on. -/
def compareKeysFrom (a b : List OrderKey) : Nat → List SortKey → Ordering
  | _, [] => .eq
  | i, key :: keys =>
    let c := (a.getD i {}).compare (b.getD i {})
    (if key.descending then c.swap else c).then (compareKeysFrom a b (i + 1) keys)

def compareRows (keys : List SortKey) (a b : KeyedRow) : Ordering :=
  compareKeysFrom a.keys b.keys 0 keys

/-- The rows up to the first whose keys cannot be read, and what that one is refused with. -/
def arrive (keys : List SortKey) : List ArrivedRow → List KeyedRow × Option Status
  | [] => ([], none)
  | row :: rows =>
    match orderKeys row.frame keys with
    | .error e => ([], some e)
    | .ok normalized =>
      (⟨normalized, row.text⟩ :: (arrive keys rows).1, (arrive keys rows).2)

/-- Sorted whole, the offset dropped, and the limit kept. -/
def plainReply (keys : List SortKey) (limit : Option Nat) (offset : Nat) (rows : List KeyedRow) :
    List (List UInt8) :=
  let kept := (stableSort (compareRows keys) rows).drop offset
  ((match limit with
    | none => kept
    | some n => kept.take n).map KeyedRow.text)

/-- The rows that a reply of so many rows is cut from. -/
def neededRows (limit : Option Nat) (offset rows : Nat) : Nat :=
  match limit with
  | none => rows
  | some n => min rows (offset + n)

-- The orders

/-- Numbers, then strings, then NULL. -/
def OrderKey.kind (a : OrderKey) : Nat := if a.isNull then 2 else if a.isStr then 1 else 0

theorem OrderKey.compare_eq (a b : OrderKey) : a.compare b =
    ((Ord.compare a.kind b.kind).then
      (Ord.compare (if a.kind = 1 then a.str else []) (if b.kind = 1 then b.str else []))).then
        (Ord.compare (if a.kind = 0 then a.num else 0) (if b.kind = 0 then b.num else 0)) := by
  obtain ⟨num, str, isStr, isNull⟩ := a
  obtain ⟨num', str', isStr', isNull'⟩ := b
  have hkinds : Ord.compare 0 1 = .lt ∧ Ord.compare 0 2 = .lt ∧ Ord.compare 1 2 = .lt ∧
      Ord.compare 1 0 = .gt ∧ Ord.compare 2 0 = .gt ∧ Ord.compare 2 1 = .gt := by decide
  cases isStr <;> cases isNull <;> cases isStr' <;> cases isNull' <;>
    simp [OrderKey.compare, OrderKey.kind, hkinds]

instance : Ord OrderKey := ⟨OrderKey.compare⟩

instance : TransOrd OrderKey := by
  have h : OrderKey.compare = compareLex (compareLex (compareOn OrderKey.kind)
      (compareOn fun a => if a.kind = 1 then a.str else []))
        (compareOn fun a => if a.kind = 0 then a.num else 0) := by
    funext a b
    exact a.compare_eq b
  change TransCmp OrderKey.compare
  rw [h]
  infer_instance

/-- A statement's keys make a preorder of the rows. -/
instance (keys : List SortKey) (i : Nat) : TransCmp fun a b => compareKeysFrom a b i keys := by
  induction keys generalizing i with
  | nil => exact { eq_swap := rfl, isLE_trans := fun _ _ => rfl }
  | cons key keys ih =>
    have hat : TransCmp (compareOn fun l : List OrderKey => l.getD i {}) := inferInstance
    have hrest := ih (i + 1)
    cases hdesc : key.descending with
    | false =>
      have h : (fun a b => compareKeysFrom a b i (key :: keys)) =
          compareLex (compareOn fun l : List OrderKey => l.getD i {})
            fun a b => compareKeysFrom a b (i + 1) keys := by
        funext a b
        rw [compareKeysFrom, hdesc]
        rfl
      rw [h]
      infer_instance
    | true =>
      have h : (fun a b => compareKeysFrom a b i (key :: keys)) =
          compareLex (fun a b => compareOn (fun l : List OrderKey => l.getD i {}) b a)
            fun a b => compareKeysFrom a b (i + 1) keys := by
        funext a b
        rw [compareKeysFrom, hdesc, compareLex]
        have hswap := hat.eq_swap (a := b) (b := a)
        rw [hswap]
        rfl
      rw [h]
      infer_instance

instance (keys : List SortKey) : TransCmp (compareRows keys) := by
  have h : compareRows keys = fun a b : KeyedRow =>
      (fun a b => compareKeysFrom a b 0 keys) a.keys b.keys := rfl
  have hkeys : TransCmp fun a b => compareKeysFrom a b 0 keys := inferInstance
  rw [h]
  exact { eq_swap := hkeys.eq_swap, isLE_trans := hkeys.isLE_trans }

/-- What the buffer knows of a row that a client would. -/
def OutputRow.keyed (row : OutputRow) : KeyedRow := ⟨row.keys, row.text⟩

/-- Rows by their keys, and then by arrival. -/
def compareArrived (keys : List SortKey) : OutputRow → OutputRow → Ordering :=
  compareLex (fun a b => compareRows keys a.keyed b.keyed) (compareOn OutputRow.seq)

instance (keys : List SortKey) : TransCmp (compareArrived keys) := by
  have hrows : TransCmp (compareRows keys) := inferInstance
  have h : TransCmp fun a b : OutputRow => compareRows keys a.keyed b.keyed :=
    { eq_swap := hrows.eq_swap, isLE_trans := hrows.isLE_trans }
  unfold compareArrived
  infer_instance

namespace OutputSort

theorem before_eq (keys : List SortKey) :
    before keys = fun a b => decide (compareArrived keys a b = .lt) := by
  funext a b
  suffices h : ∀ i, beforeFrom a b i keys =
      decide ((compareKeysFrom a.keys b.keys i keys).then (Ord.compare a.seq b.seq) = .lt) from h 0
  induction keys with
  | nil =>
    intro i
    rw [beforeFrom, compareKeysFrom]
    simp [Nat.compare_eq_lt]
  | cons key keys ih =>
    intro i
    rw [beforeFrom, compareKeysFrom]
    cases hcmp : (a.keys.getD i {}).compare (b.keys.getD i {}) with
    | eq => simp [ih]
    | lt => cases key.descending <;> simp
    | gt => cases key.descending <;> simp

theorem pendingBefore_eq (keys : List SortKey) (pending : List OrderKey) (b : OutputRow) (i : Nat) :
    pendingBeforeFrom pending b i keys =
      decide (compareKeysFrom pending b.keys i keys = .lt) := by
  induction keys generalizing i with
  | nil => rfl
  | cons key keys ih =>
    rw [pendingBeforeFrom, compareKeysFrom]
    cases hcmp : (pending.getD i {}).compare (b.keys.getD i {}) with
    | eq => simp [ih]
    | lt => cases key.descending <;> simp
    | gt => cases key.descending <;> simp

end OutputSort

-- What the buffer holds

namespace OutputSort

variable {std : HeapAlgorithms OutputRow} {s₀ s : OutputSort} {seen : List KeyedRow}
    {row : KeyedRow}

/-- The rows of the order that are held. -/
def kept (s₀ : OutputSort) (seen : List KeyedRow) : List KeyedRow :=
  if s₀.bounded then (stableSort (compareRows s₀.keys) seen).take s₀.retain
  else stableSort (compareRows s₀.keys) seen

/-- After so many rows: the buffer's, put in order, are the ones to hold, and arrival numbers tell
    them apart. -/
structure Holds (s₀ s : OutputSort) (seen : List KeyedRow) : Prop where
  keys : s.keys = s₀.keys
  retain : s.retain = s₀.retain
  bounded : s.bounded = s₀.bounded
  maxRows : s.maxRows = s₀.maxRows
  sorted : ∃ sorted : List OutputRow, sorted.Perm s.buffer ∧
    sorted.Pairwise (NotAfter (compareArrived s₀.keys)) ∧
    sorted.map OutputRow.keyed = kept s₀ seen
  nodup : (s.buffer.map OutputRow.seq).Nodup
  older : ∀ r ∈ s.buffer, r.seq < s.nextSeq
  few : s.nextSeq ≤ seen.length
  heap : s₀.bounded = true → IsHeap (before s₀.keys) s.buffer

theorem Holds.length (h : Holds s₀ s seen) : s.buffer.length = (kept s₀ seen).length := by
  obtain ⟨sorted, hperm, -, hmap⟩ := h.sorted
  rw [← hmap, length_map, hperm.length_eq]

theorem sorted_unique {keys : List SortKey} {l l' : List OutputRow} (hperm : l.Perm l')
    (hnodup : (l.map OutputRow.seq).Nodup) (h : l.Pairwise (NotAfter (compareArrived keys)))
    (h' : l'.Pairwise (NotAfter (compareArrived keys))) : l = l' := by
  apply hperm.eq_of_pairwise (fun a b ha hb hab hba => ?_) h h'
  have heq : compareArrived keys a b = .eq := OrientedCmp.isLE_antisymm hab hba
  obtain ⟨-, hseq⟩ := compareLex_eq_eq.mp heq
  have hsame : a.seq = b.seq := Nat.compare_eq_eq.mp hseq
  exact inj_on_of_nodup_map hnodup ha (hperm.mem_iff.mpr hb) hsame

theorem insert_newest {keys : List SortKey} {row : OutputRow} {l : List OutputRow}
    (hnew : ∀ r ∈ l, r.seq < row.seq) :
    (l.orderedInsert (Precedes (compareArrived keys)) row).map OutputRow.keyed =
      (l.map OutputRow.keyed).orderedInsert (Precedes (compareRows keys)) row.keyed := by
  have hsame : ∀ r ∈ l, Precedes (compareArrived keys) row r ↔
      Precedes (compareRows keys) row.keyed r.keyed := by
    intro r hr
    have hseq : Ord.compare row.seq r.seq = .gt := Nat.compare_eq_gt.mpr (hnew r hr)
    unfold Precedes compareArrived compareLex compareOn
    rw [hseq, Ordering.then_eq_lt]
    simp
  exact map_orderedInsert_of_iff OutputRow.keyed hsame

theorem kept_concat (s₀ : OutputSort) (seen : List KeyedRow) (row : KeyedRow) :
    kept s₀ (seen ++ [row]) =
      if s₀.bounded then
        ((kept s₀ seen).orderedInsert (Precedes (compareRows s₀.keys)) row).take s₀.retain
      else (kept s₀ seen).orderedInsert (Precedes (compareRows s₀.keys)) row := by
  unfold kept
  rw [stableSort_concat]
  split_ifs
  · exact take_orderedInsert _ _ _ _
  · rfl

theorem length_kept (s₀ : OutputSort) (seen : List KeyedRow) :
    (kept s₀ seen).length = if s₀.bounded then min s₀.retain seen.length else seen.length := by
  unfold kept
  split_ifs
  · rw [length_take, length_stableSort]
  · exact length_stableSort seen

theorem Holds.notAfter_front (h : Holds s₀ s seen) (hb : s₀.bounded = true) {front : OutputRow}
    {rest : List OutputRow} (hbuffer : s.buffer = front :: rest) :
    ∀ r ∈ s.buffer, NotAfter (compareArrived s₀.keys) r front := by
  have hheap := h.heap hb
  rw [before_eq, hbuffer] at hheap
  rw [hbuffer]
  exact hheap.front

/-- **What `Admit` decides**: it refuses past the cap where nothing may be discarded, declines a
    row that leaves what is held as it was, and takes any other. -/
theorem Holds.admits (h : Holds s₀ s seen) (hretain : s₀.bounded = true → s₀.retain ≤ s₀.maxRows)
    (hpending : s.pending = row.keys) :
    (s₀.bounded = false ∧ s₀.maxRows ≤ seen.length ∧
        s.admits = .error (capExceeded s₀.maxRows)) ∨
      (s₀.bounded = false → seen.length < s₀.maxRows) ∧
        (s.admits = .ok false ∧ kept s₀ (seen ++ [row]) = kept s₀ seen ∨
          s.admits = .ok true ∧ (s₀.bounded = true → s₀.retain ≤ s.buffer.length →
            ∃ front rest, s.buffer = front :: rest ∧
              Precedes (compareRows s₀.keys) row front.keyed)) := by
  have hlength := h.length
  rw [length_kept] at hlength
  unfold OutputSort.admits
  rw [h.bounded, h.retain, h.maxRows, h.keys]
  cases hb : s₀.bounded with
  | false =>
    rw [hb, if_neg (by decide)] at hlength
    rw [Bool.false_and, if_neg (by decide)]
    by_cases hcap : s₀.maxRows ≤ s.buffer.length
    · rw [if_pos hcap]
      exact .inl ⟨rfl, hlength ▸ hcap, rfl⟩
    · rw [if_neg hcap]
      exact .inr ⟨fun _ => by omega, .inr ⟨rfl, fun hfalse => (by cases hfalse)⟩⟩
  | true =>
    rw [hb, if_pos rfl] at hlength
    right
    refine ⟨fun hfalse => (by cases hfalse), ?_⟩
    by_cases hfull : s₀.retain ≤ s.buffer.length
    · rw [Bool.true_and, if_pos (decide_eq_true hfull)]
      cases hbuffer : s.buffer with
      | nil =>
        left
        have hzero : s₀.retain = 0 := by
          rw [hbuffer] at hfull
          exact Nat.le_zero.mp hfull
        refine ⟨rfl, ?_⟩
        unfold kept
        rw [hzero]
        simp [hb]
      | cons front rest =>
        have hne : s₀.retain ≠ 0 := by
          intro hzero
          rw [hzero, Nat.zero_min, hbuffer] at hlength
          cases hlength
        dsimp only
        rw [if_neg hne, pendingBefore_eq, hpending]
        by_cases hbefore : compareKeysFrom row.keys front.keys 0 s₀.keys = .lt
        · right
          rw [decide_eq_true hbefore]
          exact ⟨rfl, fun _ _ => ⟨front, rest, rfl, hbefore⟩⟩
        · left
          rw [decide_eq_false hbefore]
          refine ⟨rfl, ?_⟩
          -- Every row held is in front of the worst, and that one is not after the new row.
          obtain ⟨sorted, hperm, -, hmap⟩ := h.sorted
          have hbehind : ∀ b ∈ kept s₀ seen, ¬ Precedes (compareRows s₀.keys) row b := by
            intro b hb'
            rw [← hmap] at hb'
            obtain ⟨r, hr, rfl⟩ := mem_map.mp hb'
            have hle := h.notAfter_front hb hbuffer r (hperm.mem_iff.mp hr)
            have hkeys : NotAfter (compareRows s₀.keys) r.keyed front.keyed :=
              Ordering.isLE_left_of_isLE_then hle
            exact not_precedes.mpr (hkeys.trans (not_precedes.mp hbefore))
          have hlen : (kept s₀ seen).length = s₀.retain := by
            rw [← h.length]
            omega
          rw [kept_concat, if_pos hb, orderedInsert_eq_concat hbehind,
            take_append_of_le_length (Nat.le_of_eq hlen.symm),
            take_of_length_le (Nat.le_of_eq hlen)]
    · rw [Bool.true_and, if_neg (by simpa using hfull), if_neg (by have := hretain hb; omega)]
      exact .inr ⟨rfl, fun _ hle => absurd hle hfull⟩

theorem Holds.join {s' : OutputSort} (h : Holds s₀ s seen) {others ordered : List OutputRow}
    (hnodup : (others.map OutputRow.seq).Nodup) (holder : ∀ r ∈ others, r.seq < s.nextSeq)
    (hperm : ordered.Perm others) (hordered : ordered.Pairwise (NotAfter (compareArrived s₀.keys)))
    (hkept : kept s₀ (seen ++ [row]) =
      (ordered.map OutputRow.keyed).orderedInsert (Precedes (compareRows s₀.keys)) row)
    (hbuffer : s'.buffer.Perm (⟨row.keys, s.nextSeq, row.text⟩ :: others))
    (hsame : s'.keys = s₀.keys ∧ s'.retain = s₀.retain ∧ s'.bounded = s₀.bounded ∧
      s'.maxRows = s₀.maxRows) (hnext : s'.nextSeq = s.nextSeq + 1)
    (hheap : s₀.bounded = true → IsHeap (before s₀.keys) s'.buffer) :
    Holds s₀ s' (seen ++ [row]) := by
  obtain ⟨hkeys, hretain, hbounded, hmax⟩ := hsame
  have hmem : ∀ r ∈ s'.buffer, r.seq = s.nextSeq ∨ r ∈ others := by
    intro r hr
    rcases mem_cons.mp (hbuffer.mem_iff.mp hr) with rfl | hr
    · exact .inl rfl
    · exact .inr hr
  refine ⟨hkeys, hretain, hbounded, hmax, ?_, ?_, fun r hr => ?_, ?_, hheap⟩
  · refine ⟨ordered.orderedInsert (Precedes (compareArrived s₀.keys))
      ⟨row.keys, s.nextSeq, row.text⟩, ?_, pairwise_orderedInsert _ hordered, ?_⟩
    · exact (perm_orderedInsert _ _ _).trans ((hperm.cons _).trans hbuffer.symm)
    · rw [insert_newest fun r hr => holder r (hperm.mem_iff.mp hr), hkept]
      rfl
  · rw [(hbuffer.map OutputRow.seq).nodup_iff, map_cons, nodup_cons]
    refine ⟨fun hin => ?_, hnodup⟩
    obtain ⟨r, hr, hseq⟩ := mem_map.mp hin
    exact absurd hseq (Nat.ne_of_lt (holder r hr))
  · rw [hnext]
    rcases hmem r hr with hseq | hr
    · omega
    · have := holder r hr
      omega
  · have := h.few
    rw [hnext, length_append, length_singleton]
    omega

/-- **What `Take` leaves**: the row is among those held, in place of the worst if there is no
    room. -/
theorem Holds.take (h : Holds s₀ s seen) (hpending : s.pending = row.keys)
    (hfew : seen.length + 1 < 2 ^ 64) (hfull : s₀.bounded = true → s₀.retain ≤ s.buffer.length →
      ∃ front rest, s.buffer = front :: rest ∧ Precedes (compareRows s₀.keys) row front.keyed) :
    Holds s₀ (s.take std row.text) (seen ++ [row]) := by
  have hseq : (s.nextSeq + 1) % 2 ^ 64 = s.nextSeq + 1 := by
    have := h.few
    exact Nat.mod_eq_of_lt (by omega)
  have hlength := h.length
  rw [length_kept] at hlength
  obtain ⟨sorted, hperm, hsorted, hmap⟩ := h.sorted
  unfold OutputSort.take
  rw [h.bounded, h.retain, h.keys, hpending]
  by_cases hb : s₀.bounded = true
  · rw [hb, if_pos rfl] at hlength
    have hheap := h.heap hb
    rw [before_eq] at hheap
    by_cases hroom : s₀.retain ≤ s.buffer.length
    · rw [hb, Bool.true_and, if_pos (decide_eq_true hroom)]
      obtain ⟨front, others, hbuffer, hbefore⟩ := hfull hb hroom
      have hfront := h.notAfter_front hb hbuffer
      rw [hbuffer] at hheap
      obtain ⟨rest, hpop, hrest, hrestPerm⟩ := std.pop_spec _ _ _ hheap
      obtain ⟨hpush, hpushPerm⟩ := std.push_spec _ rest ⟨row.keys, s.nextSeq, row.text⟩ hrest
      have hpopped : (std.pop (before s₀.keys) s.buffer).dropLast = rest := by
        rw [before_eq, hbuffer, hpop, dropLast_concat]
      -- The worst row is the last of the order.
      have hordered : (stableSort (compareArrived s₀.keys) others ++ [front]).Pairwise
          (NotAfter (compareArrived s₀.keys)) := by
        rw [pairwise_append]
        refine ⟨pairwise_stableSort others, pairwise_singleton _ _, fun a ha b hb' => ?_⟩
        rw [mem_singleton.mp hb']
        apply hfront a
        rw [hbuffer]
        exact mem_cons_of_mem _ ((perm_insertionSort _ others).mem_iff.mp ha)
      have hwhole : sorted = stableSort (compareArrived s₀.keys) others ++ [front] := by
        have hall : sorted.Perm (stableSort (compareArrived s₀.keys) others ++ [front]) := by
          rw [hbuffer] at hperm
          exact hperm.trans (((perm_insertionSort _ others).symm.cons front).trans
            (perm_append_singleton front _).symm)
        apply sorted_unique hall ?_ hsorted hordered
        rw [(hperm.map OutputRow.seq).nodup_iff]
        exact h.nodup
      have hlen : (stableSort (compareArrived s₀.keys) others).length + 1 = s₀.retain := by
        have hsize := congrArg List.length hbuffer
        rw [length_cons] at hsize
        rw [length_stableSort]
        omega
      have hnodup := h.nodup
      have holder := h.older
      rw [hbuffer] at hnodup holder
      refine h.join (nodup_cons.mp hnodup).2
        (fun r hr => holder r (mem_cons_of_mem _ hr)) (perm_insertionSort _ others)
        (pairwise_stableSort others) ?_ ?_ ⟨rfl, rfl, hb.symm, h.maxRows⟩ hseq fun _ => ?_
      · rw [kept_concat, if_pos hb, ← hmap, hwhole, map_append, map_singleton,
          orderedInsert_concat hbefore]
        apply take_left'
        rw [orderedInsert_length, length_map]
        exact hlen
      · dsimp only
        rw [hpopped, before_eq]
        exact hpushPerm.trans (hrestPerm.cons _)
      · dsimp only
        rw [hpopped, before_eq]
        exact hpush
    · rw [hb, Bool.true_and, if_neg (by simpa using hroom)]
      obtain ⟨hpush, hpushPerm⟩ := std.push_spec _ s.buffer ⟨row.keys, s.nextSeq, row.text⟩ hheap
      refine h.join h.nodup h.older hperm hsorted ?_ ?_ ⟨rfl, rfl, hb.symm, h.maxRows⟩ hseq
        fun _ => ?_
      · rw [kept_concat, if_pos hb, hmap]
        apply take_of_length_le
        rw [orderedInsert_length, ← h.length]
        omega
      · dsimp only
        rw [if_pos rfl, before_eq]
        exact hpushPerm
      · dsimp only
        rw [if_pos rfl, before_eq]
        exact hpush
  · have hb' : s₀.bounded = false := by simpa using hb
    rw [hb', Bool.false_and, if_neg (by decide)]
    refine h.join h.nodup h.older hperm hsorted ?_ ?_ ⟨rfl, rfl, hb'.symm, h.maxRows⟩ hseq
      fun htrue => absurd htrue hb
    · rw [kept_concat, if_neg hb, hmap]
    · exact perm_append_singleton _ _

theorem feed_cons (s : OutputSort) (row : ArrivedRow) (rows : List ArrivedRow) :
    s.feed std (row :: rows) =
      match orderKeys row.frame s.keys with
      | .error e => .error e
      | .ok pending =>
        match ({ s with pending := pending } : OutputSort).admits with
        | .error e => .error e
        | .ok false => ({ s with pending := pending } : OutputSort).feed std rows
        | .ok true => (({ s with pending := pending } : OutputSort).take std row.text).feed std
          rows := by
  rw [OutputSort.feed, admitRow]
  cases orderKeys row.frame s.keys with
  | error e => rfl
  | ok pending =>
    cases h : ({ s with pending := pending } : OutputSort).admits with
    | error e => simp [h, bind, Except.bind]
    | ok taken => cases taken <;> simp [h, bind, Except.bind]

theorem Holds.pend (h : Holds s₀ s seen) (pending : List OrderKey) :
    Holds s₀ { s with pending := pending } seen :=
  ⟨h.keys, h.retain, h.bounded, h.maxRows, h.sorted, h.nodup, h.older, h.few, h.heap⟩

/-- What the walk comes to, having seen so many rows: more than may be held where none may be
    discarded, a row that cannot be read, or the rows to hold. -/
inductive Fed (s₀ : OutputSort) (seen : List KeyedRow) (refusal : Option Status) :
    StatusOr OutputSort → Prop
  | cap : s₀.bounded = false → s₀.maxRows < seen.length →
      Fed s₀ seen refusal (.error (capExceeded s₀.maxRows))
  | refused (e : Status) : (s₀.bounded = false → seen.length ≤ s₀.maxRows) → refusal = some e →
      Fed s₀ seen refusal (.error e)
  | held (s : OutputSort) : (s₀.bounded = false → seen.length ≤ s₀.maxRows) → refusal = none →
      Holds s₀ s seen → Fed s₀ seen refusal (.ok s)

theorem Holds.feed (std : HeapAlgorithms OutputRow) (h : Holds s₀ s seen)
    (hretain : s₀.bounded = true → s₀.retain ≤ s₀.maxRows) (hroom : s₀.bounded = false →
      seen.length ≤ s₀.maxRows)
    (rows : List ArrivedRow) (hfew : seen.length + rows.length < 2 ^ 64) :
    Fed s₀ (seen ++ (arrive s₀.keys rows).1) (arrive s₀.keys rows).2 (s.feed std rows) := by
  induction rows generalizing s seen with
  | nil =>
    rw [arrive, append_nil]
    exact .held s hroom rfl h
  | cons row rows ih =>
    rw [length_cons] at hfew
    cases hkeys : orderKeys row.frame s₀.keys with
    | error e =>
      have hkeys' : orderKeys row.frame s.keys = .error e := by rw [h.keys, hkeys]
      rw [arrive, hkeys, feed_cons, hkeys']
      dsimp only
      rw [append_nil]
      exact .refused e hroom rfl
    | ok pending =>
      have hkeys' : orderKeys row.frame s.keys = .ok pending := by rw [h.keys, hkeys]
      have hpend := h.pend pending
      have hlength : (seen ++ [(⟨pending, row.text⟩ : KeyedRow)]).length =
          seen.length + 1 := by simp
      rw [arrive, hkeys, feed_cons, hkeys']
      dsimp only
      rw [append_cons]
      have hrow : pending = KeyedRow.keys ⟨pending, row.text⟩ := rfl
      rcases hpend.admits hretain hrow with
        ⟨hb, hcap, hanswer⟩ | ⟨hnext, ⟨hanswer, hkept⟩ | ⟨hanswer, hfull⟩⟩
      · rw [hanswer]
        refine .cap hb ?_
        rw [length_append, hlength]
        omega
      · rw [hanswer]
        apply ih ?_ (fun hb => by rw [hlength]; exact hnext hb) (by rw [hlength]; omega)
        refine ⟨hpend.keys, hpend.retain, hpend.bounded, hpend.maxRows, ?_, hpend.nodup,
          hpend.older, ?_, hpend.heap⟩
        · rw [hkept]
          exact hpend.sorted
        · rw [hlength]
          exact Nat.le_succ_of_le hpend.few
      · rw [hanswer]
        apply ih ?_ (fun hb => by rw [hlength]; exact hnext hb) (by rw [hlength]; omega)
        exact hpend.take rfl (by omega) hfull

theorem holds_reset (keys : List SortKey) (limit : Option Nat) (offset maxRows : Nat) :
    Holds (reset keys limit offset maxRows) (reset keys limit offset maxRows) [] := by
  refine ⟨rfl, rfl, rfl, rfl, ⟨[], .refl _, .nil, ?_⟩, .nil, fun r hr => (by cases hr),
    Nat.le_refl 0, fun _ i p c _ hp _ => (by cases hp)⟩
  unfold kept stableSort
  simp

theorem Holds.finish (std : HeapAlgorithms OutputRow) (h : Holds s₀ s seen) :
    (s.finish std).buffer.map OutputRow.keyed = kept s₀ seen := by
  obtain ⟨sorted, hperm, hsorted, hmap⟩ := h.sorted
  obtain ⟨hsort, hpair⟩ := std.sort_spec (compareArrived s₀.keys) s.buffer
  have hsame : (s.finish std).buffer = sorted := by
    unfold OutputSort.finish
    rw [h.keys, before_eq]
    apply sorted_unique (hsort.trans hperm.symm) ?_ hpair hsorted
    rw [(hsort.map OutputRow.seq).nodup_iff]
    exact h.nodup
  rw [hsame, hmap]

end OutputSort

-- The quota over the order

theorem drainSorted_eq (offset : Nat) (limit : Option Nat) (rows : List OutputRow)
    (skipped emitted : Nat) (hskipped : skipped ≤ offset)
    (hstarted : emitted = 0 ∨ skipped = offset) (hroom : ∀ n, limit = some n → emitted < n ∨
      n = 0) :
    drainSorted ⟨offset, limit, skipped, emitted⟩ rows =
      ((match limit with
        | none => rows.drop (offset - skipped)
        | some n => (rows.drop (offset - skipped)).take (n - emitted)).map OutputRow.text) := by
  induction rows generalizing skipped emitted with
  | nil => cases limit <;> simp [drainSorted]
  | cons row rows ih =>
    rw [drainSorted, EmissionQuota.note]
    dsimp only
    by_cases hzero : limit = some 0
    · subst hzero
      simp
    · rw [if_neg hzero]
      by_cases hskip : skipped < offset
      · rw [if_pos hskip]
        dsimp only
        have hdrop : (row :: rows).drop (offset - skipped) =
          rows.drop (offset - (skipped + 1)) := by
          rw [show offset - skipped = (offset - (skipped + 1)) + 1 by omega, drop_succ_cons]
        rw [hdrop]
        exact ih (skipped + 1) emitted hskip (by omega) hroom
      · rw [if_neg hskip]
        have hdone : offset - skipped = 0 := by omega
        have hrest := ih skipped (emitted + 1) hskipped (.inr (by omega))
        rw [hdone] at hrest ⊢
        cases limit with
        | none =>
          dsimp only
          rw [hrest fun n hn => (by cases hn)]
          rfl
        | some n =>
          have hn : n ≠ 0 := fun h => hzero (by rw [h])
          have hlt := (hroom n rfl).resolve_right hn
          dsimp only
          by_cases hlast : n ≤ emitted + 1
          · rw [if_pos hlast, show n - emitted = 1 by omega]
            rfl
          · rw [if_neg hlast]
            dsimp only
            rw [hrest fun m hm => .inl (by cases hm; omega),
              show n - emitted = (n - (emitted + 1)) + 1 by omega]
            rfl

-- The sort is the plain one

theorem length_arrive_le (keys : List SortKey) (rows : List ArrivedRow) :
    (arrive keys rows).1.length ≤ rows.length := by
  induction rows with
  | nil => exact Nat.le_refl 0
  | cons row rows ih =>
    rw [arrive]
    cases orderKeys row.frame keys with
    | error e => exact Nat.zero_le _
    | ok normalized => exact Nat.succ_le_succ ih

theorem wanted_cases (limit : Option Nat) (offset : Nat) :
    OutputSort.wanted limit offset = kMax ∧ (∀ n, limit = some n → kMax < offset + n) ∨
      ∃ n, limit = some n ∧ OutputSort.wanted limit offset = offset + n := by
  cases limit with
  | none => exact .inl ⟨rfl, fun n hn => (by cases hn)⟩
  | some n =>
    unfold OutputSort.wanted
    dsimp only
    split_ifs with hbig
    · refine .inl ⟨rfl, fun m hm => ?_⟩
      cases hm
      omega
    · exact .inr ⟨n, rfl, rfl⟩

theorem cap_iff {limit : Option Nat} {offset maxRows rows : Nat} (hrows : rows ≤ kMax) :
    maxRows < neededRows limit offset rows ↔
      ¬ OutputSort.wanted limit offset ≤ maxRows ∧ maxRows < rows := by
  have hkMax : kMax = 2 ^ 64 - 1 := rfl
  unfold neededRows
  rcases wanted_cases limit offset with ⟨hwanted, hsum⟩ | ⟨n, rfl, hwanted⟩
  · cases limit with
    | none => dsimp only; omega
    | some n =>
      have hn := hsum n rfl
      dsimp only
      omega
  · dsimp only
    omega

theorem kept_cut {keys : List SortKey} {limit : Option Nat} {offset maxRows : Nat}
    {rows : List KeyedRow} (hrows : rows.length ≤ kMax) :
    ((match limit with
      | none => (OutputSort.kept (OutputSort.reset keys limit offset maxRows) rows).drop offset
      | some n => ((OutputSort.kept (OutputSort.reset keys limit offset maxRows) rows).drop
          offset).take n).map KeyedRow.text) = plainReply keys limit offset rows := by
  unfold plainReply OutputSort.kept OutputSort.reset
  dsimp only
  by_cases hbounded : OutputSort.wanted limit offset ≤ maxRows
  · rw [decide_eq_true hbounded, if_pos rfl, if_pos rfl]
    rcases wanted_cases limit offset with ⟨hwanted, -⟩ | ⟨n, rfl, hwanted⟩
    · have hall : (stableSort (compareRows keys) rows).take (OutputSort.wanted limit offset) =
          stableSort (compareRows keys) rows := by
        apply take_of_length_le
        rw [hwanted, length_stableSort]
        exact hrows
      rw [hall]
    · dsimp only
      rw [hwanted, drop_take, Nat.add_sub_cancel_left, take_take, Nat.min_self]
  · rw [decide_eq_false hbounded, if_neg Bool.false_ne_true]

/-- **The bounded sort is the plain specification**: for any keys, rows, LIMIT, OFFSET and cap, the
    statement answers the rows sorted whole and cut, the cap is refused if and only if more rows
    than it are needed, and a row that cannot be ordered ends the statement where it arrives. -/
theorem sortedReply_eq (std : HeapAlgorithms OutputRow) (keys : List SortKey) (limit : Option Nat)
    (offset maxRows : Nat) (rows : List ArrivedRow) (hrows : rows.length < 2 ^ 64) :
    sortedReply std keys limit offset maxRows rows =
      if maxRows < neededRows limit offset (arrive keys rows).1.length then
        .error (OutputSort.capExceeded maxRows)
      else
        match (arrive keys rows).2 with
        | some e => .error e
        | none => .ok (plainReply keys limit offset (arrive keys rows).1) := by
  have harrived : (arrive keys rows).1.length ≤ kMax :=
    (length_arrive_le keys rows).trans (Nat.le_pred_of_lt hrows)
  have hbounded : (OutputSort.reset keys limit offset maxRows).bounded = false ↔
      ¬ OutputSort.wanted limit offset ≤ maxRows := decide_eq_false_iff_not
  have hretain : (OutputSort.reset keys limit offset maxRows).bounded = true →
      (OutputSort.reset keys limit offset maxRows).retain ≤
        (OutputSort.reset keys limit offset maxRows).maxRows := by
    intro hb
    have hle : OutputSort.wanted limit offset ≤ maxRows := of_decide_eq_true hb
    unfold OutputSort.reset
    dsimp only
    rw [decide_eq_true hle, if_pos rfl]
    exact hle
  have hfed := (OutputSort.holds_reset keys limit offset maxRows).feed std hretain
    (fun _ => Nat.zero_le _) rows (by simpa using hrows)
  rw [nil_append] at hfed
  have hcap := @cap_iff limit offset maxRows _ harrived
  have hroomy (hroom : (OutputSort.reset keys limit offset maxRows).bounded = false →
      (arrive keys rows).1.length ≤ (OutputSort.reset keys limit offset maxRows).maxRows) :
      ¬ maxRows < neededRows limit offset (arrive keys rows).1.length := by
    intro h
    obtain ⟨hb, hmore⟩ := hcap.mp h
    exact Nat.not_lt_of_le (hroom (hbounded.mpr hb)) hmore
  unfold sortedReply
  have hkeys : (OutputSort.reset keys limit offset maxRows).keys = keys := rfl
  rw [hkeys] at hfed
  generalize (OutputSort.reset keys limit offset maxRows).feed std rows = result at hfed ⊢
  cases hfed with
  | cap hb hmore =>
    rw [if_pos (hcap.mpr ⟨hbounded.mp hb, hmore⟩)]
    rfl
  | refused e hroom hrefused =>
    rw [if_neg (hroomy hroom), hrefused]
  | held s hroom hread hholds =>
    rw [if_neg (hroomy hroom), hread]
    dsimp only
    rw [drainSorted_eq offset limit _ 0 0 (Nat.zero_le _) (.inl rfl) fun n _ => by omega,
      ← kept_cut harrived, ← hholds.finish std]
    have htext : OutputRow.text = KeyedRow.text ∘ OutputRow.keyed := rfl
    cases limit with
    | none =>
      rw [htext, ← map_map, map_drop]
      rfl
    | some n =>
      rw [htext, ← map_map, map_take, map_drop]
      rfl

/-- A row of one integer. -/
def rowOf (n : Int) (text : List UInt8) : ArrivedRow := ⟨fun _ => .ofInt n, text⟩

/-- Two of four rows are held, the largest first, ties as they arrived. -/
theorem sortedReply_topTwo :
    sortedReply (worstFirstAlgorithms OutputRow) [⟨⟨0, 0, 0⟩, typeValInt64, true⟩] (some 1) 1 2
      [rowOf 3 [97], rowOf 1 [98], rowOf 3 [99], rowOf 2 [100]] = .ok [[99]] := by
  rw [sortedReply_eq _ _ _ _ _ _ (by decide)]
  rfl

end Kds.Exec.Sort
