/-
  Kds.Txn.TrxIds

  Transaction ids: core 0's sequence, the blocks it carves for peers, and the peers' sequences that
  draw from granted blocks (`src/txn/trx_id.cpp`, `include/kds/txn/trx_id_lease.hpp`,
  `src/server/trx_id_lease_service.cpp`).

  One ceiling, `next_trx_id` in the superblock, is shared by all of them.  It is raised in memory
  first, then made durable, and is not lowered when that fails.  A mount starts from the durable
  one, raised past the ids the log names.

  Left out: the refill's low-water mark and its request message (a grant may be carved for a peer
  at any time), loggers, and the rest of the superblock.
-/

import Kds.Base.Status
import Kds.Lib.InFlight
import Mathlib.Logic.Function.Basic

namespace Kds.Txn.TrxIds

def kMaxTrxId : Nat := 2 ^ 48 - 1
def kTrxIdBlockSize : Nat := 4096
def kTrxIdLeasePerGrant : Nat := kTrxIdBlockSize
def kFirstUserTrxId : Nat := 2

/-- `TrxIdRange`: `[first, first + count)`. -/
structure TrxIdRange where
  first : Nat
  count : Nat
  deriving DecidableEq

def TrxIdRange.Holds (r : TrxIdRange) (id : Nat) : Prop := r.first ≤ id ∧ id < r.first + r.count

def exhausted (at_ : Nat) : Status :=
  .outOfRange ("transaction id space exhausted at " ++ toString at_ ++ "; ids are never wrapped")

-- The lease

/-- `TrxIdLease::Grant`: a grant that begins where the pending one ends extends it, anything else
    replaces it and burns the remainder. -/
def grant (pending : TrxIdRange) (first count : Nat) : TrxIdRange :=
  if count = 0 then pending
  else if 0 < pending.count ∧ pending.first + pending.count = first then
    { pending with count := pending.count + count }
  else ⟨first, count⟩

/-- `TrxIdLease::Take`. -/
def take (pending : TrxIdRange) : StatusOr TrxIdRange :=
  if pending.count = 0 then
    .error (.txnConflict
      "this core's transaction-id lease is spent; retry after the refill grant lands")
  else .ok pending

-- The ceiling

/-- The superblock's ceiling in memory and as last made durable. -/
structure Ceiling where
  memory : Nat
  durable : Nat
  deriving DecidableEq

/-- How the `persist` callback ends.  One that fails may have reached the device all the same. -/
inductive PersistEnd where
  | ok
  | failed (e : Status) (landed : Bool)

/-- `SuperBlock::SetNextTrxId`. -/
def setNextTrxId (c : Ceiling) (next : Nat) : StatusOr Ceiling :=
  if next < c.memory then
    .error (.invalidArgument ("superblock: next_trx_id may not move backwards, from " ++
      toString c.memory ++ " to " ++ toString next))
  else .ok { c with memory := next }

/-- `Expeditor::PersistSuperBlock`, as far as the ceiling goes. -/
def persist (c : Ceiling) : PersistEnd → Ceiling × Option Status
  | .ok => ({ c with durable := c.memory }, none)
  | .failed e landed => (if landed then { c with durable := c.memory } else c, some e)

/-- `TrxIdSequence::Carve`.  The sum of two 64-bit words wraps; the clamp sees both that and the
    top of the id space. -/
def carve (c : Ceiling) (count : Nat) (ended : PersistEnd) : Ceiling × StatusOr TrxIdRange :=
  let first := c.memory
  if kMaxTrxId < first then (c, .error (exhausted first))
  else if count = 0 then
    (c, .error (.invalidArgument "a transaction-id block of 0 ids was asked for"))
  else
    let sum := (first + count) % 2 ^ 64
    let ceiling := if kMaxTrxId + 1 < sum ∨ sum < first then kMaxTrxId + 1 else sum
    match setNextTrxId c ceiling with
    | .error e => (c, .error e)
    | .ok raised =>
      match persist raised ended with
      | (c', some e) => (c', .error e)
      | (c', none) => (c', .ok ⟨first, ceiling - first⟩)

-- The sequences

/-- `TrxIdSequence`'s own window: `next_` and `ceiling_`. -/
structure Window where
  next : Nat
  ceiling : Nat
  deriving DecidableEq

def Window.Holds (w : Window) (id : Nat) : Prop := w.next ≤ id ∧ id < w.ceiling

/-- `InstallWindow`. -/
def install (r : TrxIdRange) : Window := ⟨r.first, r.first + r.count⟩

/-- The end of `Next`, with a window that may have been filled just now. -/
def issue (w : Window) : Window × StatusOr Nat :=
  if kMaxTrxId < w.next then (w, .error (exhausted w.next))
  else ({ w with next := w.next + 1 }, .ok w.next)

/-- `Next` on core 0: a spent window is filled by carving. -/
def nextCarved (c : Ceiling) (w : Window) (ended : PersistEnd) : Ceiling × Window × StatusOr Nat :=
  if w.ceiling ≤ w.next then
    if kMaxTrxId < w.next then (c, w, .error (exhausted w.next))
    else
      match carve c kTrxIdBlockSize ended with
      | (c', .error e) => (c', w, .error e)
      | (c', .ok r) => (c', issue (install r))
  else (c, issue w)

/-- A peer: its window and its pending grant. -/
structure Peer where
  window : Window
  pending : TrxIdRange
  deriving DecidableEq

/-- `Next` on a peer: a spent window is filled from the lease, and a grant below what the core
    would issue next is refused. -/
def nextLeased (p : Peer) : Peer × StatusOr Nat :=
  if p.window.ceiling ≤ p.window.next then
    if kMaxTrxId < p.window.next then (p, .error (exhausted p.window.next))
    else
      match take p.pending with
      | .error e => (p, .error e)
      | .ok r =>
        let taken := { p with pending := ⟨0, 0⟩ }
        if r.first < p.window.next then
          (taken, .error (.corruption ("transaction-id grant starts at " ++ toString r.first ++
            ", below the " ++ toString p.window.next ++
            " this core would issue next; a block was carved out of order")))
        else
          let out := issue (install r)
          ({ taken with window := out.1 }, out.2)
  else
    let out := issue p.window
    ({ p with window := out.1 }, out.2)

-- The system

/-- A grant on its way to a peer. -/
structure Grant where
  core : Nat
  range : TrxIdRange
  deriving DecidableEq

/-- An id that `Next` returned: in which run, on which core. -/
structure Issued where
  run : Nat
  core : Nat
  id : Nat
  deriving DecidableEq

/-- The instance.  A peer is there once its runtime is open; `issued` is history, in order. -/
structure World where
  run : Nat
  ceiling : Ceiling
  core0 : Window
  peers : Nat → Option Peer
  grants : List Grant
  issued : List Issued

inductive Action where
  | next0 (ended : PersistEnd)
  | nextPeer (core : Nat)
  /-- The grant handler on core 0, on behalf of a peer. -/
  | carveFor (core count : Nat) (ended : PersistEnd)
  | deliver (i : Nat)
  /-- Page 0 is written for another reason. -/
  | publish (ended : PersistEnd)
  /-- A peer's runtime opens, over a copy of the ceiling in memory. -/
  | openPeer (core : Nat)
  /-- A crash and the mount after it, whose log names no id from `recovered` on. -/
  | restart (recovered : Nat) (ended : PersistEnd)

namespace World

def record (w : World) (core : Nat) : StatusOr Nat → World
  | .error _ => w
  | .ok id => { w with issued := w.issued ++ [⟨w.run, core, id⟩] }

/-- `Expeditor::Open` from the durable ceiling; `none` where the mount is refused. -/
def mount (w : World) (recovered : Nat) (ended : PersistEnd) : Option World :=
  let loaded : Ceiling := ⟨w.ceiling.durable, w.ceiling.durable⟩
  let mounted := fun (c : Ceiling) => ({ w with
    run := w.run + 1
    ceiling := c
    core0 := ⟨c.memory, c.memory⟩
    peers := fun _ => none
    grants := [] } : World)
  if loaded.memory < recovered then
    match setNextTrxId loaded recovered with
    | .error _ => none
    | .ok raised =>
      match persist raised ended with
      | (_, some _) => none
      | (c, none) => some (mounted c)
  else some (mounted loaded)

/-- One step; `none` where the action cannot be taken. -/
def step (w : World) : Action → Option World
  | .next0 ended =>
    let out := nextCarved w.ceiling w.core0 ended
    some (({ w with ceiling := out.1, core0 := out.2.1 } : World).record 0 out.2.2)
  | .nextPeer core =>
    match w.peers core with
    | none => none
    | some p =>
      let out := nextLeased p
      some (({ w with peers := Function.update w.peers core (some out.1) } : World).record core
        out.2)
  | .carveFor core count ended =>
    -- the count is one 64-bit word
    if core = 0 ∨ 2 ^ 64 ≤ count then none
    else
      match carve w.ceiling count ended with
      | (c, .error _) => some { w with ceiling := c }
      | (c, .ok r) => some { w with ceiling := c, grants := w.grants ++ [⟨core, r⟩] }
  | .deliver i =>
    match Lib.deliver w.grants i with
    | none => none
    | some (g, rest) =>
      match w.peers g.core with
      | none => none
      | some p => some { w with
          grants := rest
          peers := Function.update w.peers g.core
            (some { p with pending := grant p.pending g.range.first g.range.count }) }
  | .publish ended => some { w with ceiling := (persist w.ceiling ended).1 }
  | .openPeer core =>
    if core = 0 ∨ (w.peers core).isSome then none
    else some { w with
      peers := Function.update w.peers core
        (some ⟨⟨w.ceiling.memory, w.ceiling.memory⟩, ⟨0, 0⟩⟩) }
  | .restart recovered ended => w.mount recovered ended

end World

-- What the functions do

theorem persist_spec (c : Ceiling) (ended : PersistEnd) (h : c.durable ≤ c.memory) :
    (persist c ended).1.memory = c.memory ∧ c.durable ≤ (persist c ended).1.durable ∧
      (persist c ended).1.durable ≤ c.memory ∧
      ((persist c ended).2 = none → (persist c ended).1.durable = c.memory) := by
  cases ended with
  | ok => exact ⟨rfl, h, Nat.le_refl _, fun _ => rfl⟩
  | failed e landed =>
    cases landed with
    | false => exact ⟨rfl, Nat.le_refl _, h, fun hnone => by cases hnone⟩
    | true => exact ⟨rfl, h, Nat.le_refl _, fun hnone => by cases hnone⟩

/-- **`Carve`**: the ceiling only rises; a block starts at the old one, ends at the new one, and is
    durable before it is handed out. -/
theorem carve_spec (c : Ceiling) (count : Nat) (ended : PersistEnd) (h : c.durable ≤ c.memory)
    (hcount : count < 2 ^ 64) :
    c.memory ≤ (carve c count ended).1.memory ∧ c.durable ≤ (carve c count ended).1.durable ∧
      (carve c count ended).1.durable ≤ (carve c count ended).1.memory ∧
      ∀ r, (carve c count ended).2 = .ok r → r.first = c.memory ∧ 0 < r.count ∧
        r.first + r.count = (carve c count ended).1.memory ∧
        (carve c count ended).1.durable = (carve c count ended).1.memory ∧
        r.first + r.count ≤ kMaxTrxId + 1 := by
  unfold carve
  dsimp only
  split_ifs with htop hzero hclamp
  · exact ⟨Nat.le_refl _, Nat.le_refl _, h, fun r hr => by cases hr⟩
  · exact ⟨Nat.le_refl _, Nat.le_refl _, h, fun r hr => by cases hr⟩
  all_goals
    unfold setNextTrxId
  · -- clamped at the top of the id space
    have hrise : ¬ kMaxTrxId + 1 < c.memory := by omega
    rw [if_neg hrise]
    obtain ⟨hmem, hkeep, hle, hdone⟩ := persist_spec { c with memory := kMaxTrxId + 1 } ended
      (show c.durable ≤ kMaxTrxId + 1 by omega)
    dsimp only at hmem hkeep hle hdone ⊢
    split
    next c' e hp =>
      rw [hp] at hmem hkeep hle
      dsimp only at hmem hkeep hle ⊢
      exact ⟨by omega, hkeep, by omega, fun r hr => by cases hr⟩
    next c' hp =>
      rw [hp] at hmem hkeep hle hdone
      dsimp only at hmem hkeep hle hdone ⊢
      have hdur := hdone rfl
      refine ⟨by omega, hkeep, by omega, fun r hr => ?_⟩
      cases hr
      exact ⟨rfl, by dsimp only; omega, by dsimp only; omega, by omega, by dsimp only; omega⟩
  · have hsum : c.memory < (c.memory + count) % 2 ^ 64 := by
      by_contra hle
      have hmem : c.memory ≤ kMaxTrxId := by omega
      have hbig : kMaxTrxId + 1 = 2 ^ 48 := by decide
      omega
    have hrise : ¬ (c.memory + count) % 2 ^ 64 < c.memory := by omega
    rw [if_neg hrise]
    obtain ⟨hmem, hkeep, hle, hdone⟩ := persist_spec
      { c with memory := (c.memory + count) % 2 ^ 64 } ended
      (show c.durable ≤ (c.memory + count) % 2 ^ 64 by omega)
    dsimp only at hmem hkeep hle hdone ⊢
    split
    next c' e hp =>
      rw [hp] at hmem hkeep hle
      dsimp only at hmem hkeep hle ⊢
      exact ⟨by omega, hkeep, by omega, fun r hr => by cases hr⟩
    next c' hp =>
      rw [hp] at hmem hkeep hle hdone
      dsimp only at hmem hkeep hle hdone ⊢
      have hdur := hdone rfl
      refine ⟨by omega, hkeep, by omega, fun r hr => ?_⟩
      cases hr
      exact ⟨rfl, by dsimp only; omega, by dsimp only; omega, by omega, by dsimp only; omega⟩

end Kds.Txn.TrxIds
