/-
  Kds.Storage.HeapPage

  The slotted heap page (`src/storage/heap/heap_page.cpp`): a directory of slots, each dead or
  holding one tuple with its writer, its undo pointer and its delete mark.

  A slot that is retired never comes back to life: its number stays taken, and what it held is
  out of reach, so a dead slot carries nothing here.  Byte offsets inside the page are not
  modelled; its free space is, as a count.
-/

import Kds.Base.Status
import Kds.Lib.Bytes
import Mathlib.Data.List.Basic

namespace Kds.Storage

open Lib

/-- `PageView::Tuple`. -/
structure HeapTuple where
  trxId : Nat
  undoPtr : Nat
  payload : Bytes
  deleted : Bool := false
  deriving DecidableEq

/-- A slot: retired, or the reserved span (header and payload capacity) and the tuple in it. -/
inductive HeapSlot where
  | dead
  | live (length : Nat) (tuple : HeapTuple)
  deriving DecidableEq

structure HeapPage where
  minKey : Nat := 0
  slots : List HeapSlot := []
  freeSpace : Nat
  deriving DecidableEq

def pageSize : Nat := 8192
def maxTrxId : Nat := 2 ^ 48 - 1
def slotOnDiskSize : Nat := 5
def tupleHeaderOnDiskSize : Nat := 20
def keystoneWordSize : Nat := 8

/-- `KeystoneIdOfPayload`: the low 40 bits of the first word. -/
def keystoneIdOfPayload (payload : Bytes) : StatusOr Nat :=
  if payload.length < keystoneWordSize then
    .error (.corruption "payload too short for a keystone word")
  else .ok (load keystoneWordSize payload 0 % 2 ^ 40)

namespace HeapPage

def slotCount (page : HeapPage) : Nat := page.slots.length

/-- What the slot operations check first: the slot is in the directory and alive. -/
def liveSlot (page : HeapPage) (slot : Nat) : StatusOr (Nat × HeapTuple) :=
  match page.slots[slot]? with
  | none => .error (.notFound "slot index out of range")
  | some .dead => .error (.notFound "slot is dead")
  | some (.live length tuple) => .ok (length, tuple)

/-- The tuple in a slot, if it is alive. -/
def tupleAt (page : HeapPage) (slot : Nat) : Option HeapTuple :=
  match page.slots[slot]? with
  | some (.live _ tuple) => some tuple
  | _ => none

/-- `ReadTuple`: a marked tuple is returned, its mark with it. -/
def readTuple (page : HeapPage) (slot : Nat) : StatusOr HeapTuple :=
  (page.liveSlot slot).map Prod.snd

/-- `PayloadAt`. -/
def payloadAt (page : HeapPage) (slot : Nat) : StatusOr Bytes :=
  (page.readTuple slot).map HeapTuple.payload

def setSlot (page : HeapPage) (slot : Nat) (content : HeapSlot) : HeapPage :=
  { page with slots := page.slots.set slot content }

def checkTrxId (trxId : Nat) : StatusOr Unit :=
  if maxTrxId < trxId then .error (.invalidArgument "trx_id exceeds 48 bits") else .ok ()

/-- `InsertTuple`: the next slot number. -/
def insertTuple (page : HeapPage) (payload : Bytes) (trxId undoPtr : Nat) :
    StatusOr (HeapPage × Nat) :=
  if pageSize < payload.length then
    .error (.invalidArgument "payload larger than a page")
  else if maxTrxId < trxId then .error (.invalidArgument "trx_id exceeds 48 bits")
  else
    let needed := slotOnDiskSize + tupleHeaderOnDiskSize + payload.length
    if page.freeSpace < needed then
      .error (.outOfSpace "heap page has no room for this tuple")
    else
      .ok ({ page with
        slots := page.slots ++ [.live (tupleHeaderOnDiskSize + payload.length)
          { trxId := trxId, undoPtr := undoPtr, payload := payload }]
        freeSpace := page.freeSpace - needed }, page.slotCount)

/-- `OverwriteTuple`: in place, within the slot's reservation; the delete mark stays. -/
def overwriteTuple (page : HeapPage) (slot : Nat) (payload : Bytes) (trxId undoPtr : Nat) :
    StatusOr HeapPage := do
  checkTrxId trxId
  let (length, tuple) ← page.liveSlot slot
  if length < tupleHeaderOnDiskSize + payload.length then
    .error (.outOfSpace "new payload does not fit the slot's existing reservation")
  else
    .ok (page.setSlot slot (.live length
      { tuple with trxId := trxId, undoPtr := undoPtr, payload := payload }))

/-- `DeleteMark`: the deleter goes in the writer field. -/
def deleteMark (page : HeapPage) (slot : Nat) (trxId : Nat) : StatusOr HeapPage := do
  checkTrxId trxId
  let (length, tuple) ← page.liveSlot slot
  .ok (page.setSlot slot (.live length { tuple with trxId := trxId, deleted := true }))

/-- `ClearDeleteMark`. -/
def clearDeleteMark (page : HeapPage) (slot : Nat) (trxId undoPtr : Nat) : StatusOr HeapPage := do
  checkTrxId trxId
  let (length, tuple) ← page.liveSlot slot
  .ok (page.setSlot slot (.live length
    { tuple with trxId := trxId, undoPtr := undoPtr, deleted := false }))

/-- `RetireSlot`. -/
def retireSlot (page : HeapPage) (slot : Nat) : StatusOr HeapPage :=
  match page.slots[slot]? with
  | none => .error (.notFound "slot index out of range")
  | some .dead => .error (.notFound "slot is already dead")
  | some (.live _ _) => .ok (page.setSlot slot .dead)

/-- `ApplySlotRetire`: a slot that is dead already is the re-application case. -/
def applySlotRetire (page : HeapPage) (slot : Nat) : StatusOr HeapPage :=
  match page.retireSlot slot with
  | .error e => if e.code = .notFound ∧ slot < page.slotCount then .ok page else .error e
  | .ok page' => .ok page'

/-- `RedoWriteTuple`: the same bytes into the same place, or the append that came next. -/
def redoWriteTuple (page : HeapPage) (slot : Nat) (payload : Bytes) (trxId undoPtr : Nat) :
    StatusOr HeapPage :=
  if pageSize < payload.length then
    .error (.invalidArgument "payload larger than a page")
  else if maxTrxId < trxId then .error (.invalidArgument "trx_id exceeds 48 bits")
  else if page.slotCount < slot then
    .error (.corruption ("redo names slot " ++ toString slot ++ " on a page holding " ++
      toString page.slotCount ++
      "; heap slots are dense, so this record is not this page's"))
  else
    match page.slots[slot]? with
    | some .dead =>
      .error (.corruption ("redo names retired slot " ++ toString slot ++
        "; retirement follows its insert in LSN order"))
    | some (.live _ _) => page.overwriteTuple slot payload trxId undoPtr
    | none => (page.insertTuple payload trxId undoPtr).map Prod.fst

-- What the operations do to a slot

variable {page : HeapPage} {slot length : Nat} {tuple : HeapTuple}

theorem liveSlot_eq_ok :
    page.liveSlot slot = .ok (length, tuple) ↔ page.slots[slot]? = some (.live length tuple) := by
  rw [liveSlot]
  split
  · next h => simp [h]
  · next h => simp [h]
  · next l t h => simp [h]

theorem readTuple_eq_ok :
    page.readTuple slot = .ok tuple ↔ ∃ length, page.slots[slot]? = some (.live length tuple) := by
  rw [readTuple, liveSlot]
  split
  · next h => simp [h, Except.map]
  · next h => simp [h, Except.map]
  · next l t h => simp [h, Except.map]

@[simp] theorem slots_setSlot (page : HeapPage) (slot : Nat) (content : HeapSlot) :
    (page.setSlot slot content).slots = page.slots.set slot content := rfl

@[simp] theorem slotCount_setSlot (page : HeapPage) (slot : Nat) (content : HeapSlot) :
    (page.setSlot slot content).slotCount = page.slotCount := List.length_set

theorem setSlot_setSlot (page : HeapPage) (slot : Nat) (first last : HeapSlot) :
    (page.setSlot slot first).setSlot slot last = page.setSlot slot last := by
  rw [setSlot, setSlot, setSlot, List.set_set]

theorem tupleAt_eq_some :
    page.tupleAt slot = some tuple ↔ ∃ length, page.slots[slot]? = some (.live length tuple) := by
  rw [tupleAt]
  split
  · next l t h => simp [h]
  · next h =>
    refine ⟨fun hf => (by cases hf), ?_⟩
    rintro ⟨length, hlive⟩
    exact absurd hlive (h length tuple)

theorem tupleAt_setSlot_live (tuple : HeapTuple) (h : slot < page.slots.length) (other : Nat) :
    (page.setSlot slot (.live length tuple)).tupleAt other =
      if other = slot then some tuple else page.tupleAt other := by
  rw [tupleAt, slots_setSlot, List.getElem?_set]
  by_cases heq : slot = other
  · rw [if_pos heq, if_pos (heq ▸ h), if_pos heq.symm]
  · rw [if_neg heq, if_neg (Ne.symm heq), tupleAt]

theorem slot_lt_of_tupleAt (h : page.tupleAt slot = some tuple) : slot < page.slots.length := by
  obtain ⟨length, hlive⟩ := tupleAt_eq_some.mp h
  exact (List.getElem?_eq_some_iff.mp hlive).1

variable {page' : HeapPage} {payload : Bytes} {trxId undoPtr : Nat}

theorem overwriteTuple_eq_ok (h : page.overwriteTuple slot payload trxId undoPtr = .ok page') :
    ∃ length tuple, page.slots[slot]? = some (.live length tuple) ∧ trxId ≤ maxTrxId ∧
      tupleHeaderOnDiskSize + payload.length ≤ length ∧
      page' = page.setSlot slot (.live length
        { tuple with trxId := trxId, undoPtr := undoPtr, payload := payload }) := by
  rw [overwriteTuple] at h
  obtain ⟨u, hid, h⟩ := bind_eq_ok.mp h
  obtain ⟨⟨length, tuple⟩, hlive, h⟩ := bind_eq_ok.mp h
  dsimp only at h
  rw [checkTrxId] at hid
  split_ifs at h with hfit
  split_ifs at hid with hmax
  exact ⟨length, tuple, liveSlot_eq_ok.mp hlive, by omega, by omega, (Except.ok.inj h).symm⟩

theorem overwriteTuple_of_live (hslot : page.slots[slot]? = some (.live length tuple))
    (hmax : trxId ≤ maxTrxId) (hfit : tupleHeaderOnDiskSize + payload.length ≤ length) :
    page.overwriteTuple slot payload trxId undoPtr = .ok (page.setSlot slot (.live length
      { tuple with trxId := trxId, undoPtr := undoPtr, payload := payload })) := by
  rw [overwriteTuple]
  refine bind_eq_ok.mpr ⟨(), if_neg (by omega), ?_⟩
  refine bind_eq_ok.mpr ⟨(length, tuple), liveSlot_eq_ok.mpr hslot, ?_⟩
  exact if_neg (by omega)

theorem tupleAt_overwriteTuple (h : page.overwriteTuple slot payload trxId undoPtr = .ok page') :
    ∃ tuple, page.tupleAt slot = some tuple ∧ ∀ other, page'.tupleAt other =
      if other = slot then
        some { tuple with trxId := trxId, undoPtr := undoPtr, payload := payload }
      else page.tupleAt other := by
  obtain ⟨length, tuple, hlive, -, -, rfl⟩ := overwriteTuple_eq_ok h
  have htuple : page.tupleAt slot = some tuple := tupleAt_eq_some.mpr ⟨length, hlive⟩
  exact ⟨tuple, htuple, tupleAt_setSlot_live _ (slot_lt_of_tupleAt htuple)⟩

theorem deleteMark_eq_ok (h : page.deleteMark slot trxId = .ok page') :
    ∃ length tuple, page.slots[slot]? = some (.live length tuple) ∧ trxId ≤ maxTrxId ∧
      page' = page.setSlot slot (.live length { tuple with trxId := trxId, deleted := true }) := by
  rw [deleteMark] at h
  obtain ⟨u, hid, h⟩ := bind_eq_ok.mp h
  obtain ⟨⟨length, tuple⟩, hlive, h⟩ := bind_eq_ok.mp h
  rw [checkTrxId] at hid
  split_ifs at hid with hmax
  exact ⟨length, tuple, liveSlot_eq_ok.mp hlive, by omega, (Except.ok.inj h).symm⟩

theorem tupleAt_deleteMark (h : page.deleteMark slot trxId = .ok page') :
    ∃ tuple, page.tupleAt slot = some tuple ∧ ∀ other, page'.tupleAt other =
      if other = slot then some { tuple with trxId := trxId, deleted := true }
      else page.tupleAt other := by
  obtain ⟨length, tuple, hlive, -, rfl⟩ := deleteMark_eq_ok h
  have htuple : page.tupleAt slot = some tuple := tupleAt_eq_some.mpr ⟨length, hlive⟩
  exact ⟨tuple, htuple, tupleAt_setSlot_live _ (slot_lt_of_tupleAt htuple)⟩

theorem tupleAt_overwriteThenMark {page'' : HeapPage}
    (hover : page.overwriteTuple slot payload trxId undoPtr = .ok page')
    (hmark : page'.deleteMark slot trxId = .ok page'') :
    ∃ tuple, page.tupleAt slot = some tuple ∧ ∀ other, page''.tupleAt other =
      if other = slot then some ⟨trxId, undoPtr, payload, true⟩
      else page.tupleAt other := by
  obtain ⟨tuple, htuple, hslots⟩ := tupleAt_overwriteTuple hover
  obtain ⟨mid, hmid, hslots'⟩ := tupleAt_deleteMark hmark
  rw [hslots, if_pos rfl] at hmid
  cases hmid
  refine ⟨tuple, htuple, fun other => ?_⟩
  rw [hslots', hslots]
  split_ifs <;> rfl

theorem clearDeleteMark_eq_ok (h : page.clearDeleteMark slot trxId undoPtr = .ok page') :
    ∃ length tuple, page.slots[slot]? = some (.live length tuple) ∧ trxId ≤ maxTrxId ∧
      page' = page.setSlot slot (.live length
        { tuple with trxId := trxId, undoPtr := undoPtr, deleted := false }) := by
  rw [clearDeleteMark] at h
  obtain ⟨u, hid, h⟩ := bind_eq_ok.mp h
  obtain ⟨⟨length, tuple⟩, hlive, h⟩ := bind_eq_ok.mp h
  rw [checkTrxId] at hid
  split_ifs at hid with hmax
  exact ⟨length, tuple, liveSlot_eq_ok.mp hlive, by omega, (Except.ok.inj h).symm⟩

theorem clearDeleteMark_of_live (hslot : page.slots[slot]? = some (.live length tuple))
    (hmax : trxId ≤ maxTrxId) :
    page.clearDeleteMark slot trxId undoPtr = .ok (page.setSlot slot (.live length
      { tuple with trxId := trxId, undoPtr := undoPtr, deleted := false })) := by
  rw [clearDeleteMark]
  refine bind_eq_ok.mpr ⟨(), if_neg (by omega), ?_⟩
  exact bind_eq_ok.mpr ⟨(length, tuple), liveSlot_eq_ok.mpr hslot, rfl⟩

theorem tupleAt_clearDeleteMark (h : page.clearDeleteMark slot trxId undoPtr = .ok page') :
    ∃ tuple, page.tupleAt slot = some tuple ∧ ∀ other, page'.tupleAt other =
      if other = slot then
        some { tuple with trxId := trxId, undoPtr := undoPtr, deleted := false }
      else page.tupleAt other := by
  obtain ⟨length, tuple, hlive, -, rfl⟩ := clearDeleteMark_eq_ok h
  have htuple : page.tupleAt slot = some tuple := tupleAt_eq_some.mpr ⟨length, hlive⟩
  exact ⟨tuple, htuple, tupleAt_setSlot_live _ (slot_lt_of_tupleAt htuple)⟩

theorem retireSlot_eq_ok (h : page.retireSlot slot = .ok page') :
    (∃ tuple, page.tupleAt slot = some tuple) ∧ page' = page.setSlot slot .dead := by
  rw [retireSlot] at h
  split at h
  · cases h
  · cases h
  · next length tuple hlive =>
    exact ⟨⟨tuple, tupleAt_eq_some.mpr ⟨length, hlive⟩⟩, (Except.ok.inj h).symm⟩

theorem tupleAt_retireSlot (h : page.retireSlot slot = .ok page') (other : Nat) :
    page'.tupleAt other = if other = slot then none else page.tupleAt other := by
  obtain ⟨⟨tuple, htuple⟩, rfl⟩ := retireSlot_eq_ok h
  have hlt := slot_lt_of_tupleAt htuple
  rw [tupleAt, slots_setSlot, List.getElem?_set]
  by_cases heq : slot = other
  · rw [if_pos heq, if_pos (heq ▸ hlt), if_pos heq.symm]
  · rw [if_neg heq, if_neg (Ne.symm heq), tupleAt]

theorem insertTuple_eq_ok (h : page.insertTuple payload trxId undoPtr = .ok (page', slot)) :
    slot = page.slots.length ∧ trxId ≤ maxTrxId ∧ page'.slots = page.slots ++
      [.live (tupleHeaderOnDiskSize + payload.length)
        { trxId := trxId, undoPtr := undoPtr, payload := payload }] := by
  rw [insertTuple] at h
  dsimp only at h
  split_ifs at h with hsize hmax hroom
  cases h
  exact ⟨rfl, Nat.le_of_not_lt hmax, rfl⟩

theorem tupleAt_insertTuple
    (h : page.insertTuple payload trxId undoPtr = .ok (page', slot)) (other : Nat) :
    page'.tupleAt other =
      if other = slot then some { trxId := trxId, undoPtr := undoPtr, payload := payload }
      else page.tupleAt other := by
  obtain ⟨rfl, -, hslots⟩ := insertTuple_eq_ok h
  rw [tupleAt, hslots]
  by_cases heq : other = page.slots.length
  · rw [if_pos heq, heq, List.getElem?_concat_length]
  · rw [if_neg heq, tupleAt]
    by_cases hlt : other < page.slots.length
    · rw [List.getElem?_append_left hlt]
    · have hlen : page.slots.length + 1 ≤ other := by omega
      rw [List.getElem?_eq_none (by simpa using hlen), List.getElem?_eq_none (by omega)]

end HeapPage

end Kds.Storage
