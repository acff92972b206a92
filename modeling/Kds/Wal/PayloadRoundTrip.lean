/-
  Kds.Wal.PayloadRoundTrip

  What an encoder lays out its decoder reads back, whatever follows it, and no decoder leaves its
  bytes. Two encoders accept what no decoder gives back: a CHECKPOINT_BEGIN whose dirty table names
  the invalid page id, which the decoder refuses, and an ASSERT_SNAPSHOT of more groups than its
  count can say.
-/

import Mathlib.Data.List.TakeDrop
import Kds.Wal.PayloadCodecs

namespace Kds.Wal.Codecs

open Lib List

variable {α β : Type} {bytes rest : Bytes} {outSize needed : Nat} {what : String} {s : Status}
    {n : Nat} {entries : List CheckpointDirtyPage}

-- Checks

@[simp] theorem ok_bind (a : α) (f : α → Coded β) : (Except.ok a : Coded α) >>= f = f a := rfl

@[simp] theorem refuse_ne_ok (s : Status) (a : α) : ¬ (refuse s : Coded α) = .ok a := nofun

@[simp] theorem if_refuse_eq_ok {p : Prop} [Decidable p] {x : Coded α} {a : α} :
    (if p then refuse s else x) = .ok a ↔ ¬ p ∧ x = .ok a := by
  by_cases h : p <;> simp [h]

@[simp] theorem checkOutputSize_bind {f : Unit → Coded β} {b : β} :
    (checkOutputSize outSize needed what >>= f) = .ok b ↔ ¬ outSize < needed ∧ f () = .ok b := by
  unfold checkOutputSize
  by_cases h : outSize < needed
  · rw [if_pos h]
    exact ⟨nofun, fun h' => absurd h h'.1⟩
  · simp [h]

@[simp] theorem checkSize_of_le (h : needed ≤ bytes.length) :
    checkSize bytes needed what = .ok () := by
  unfold checkSize
  rw [if_neg (by omega)]

@[simp] theorem checkTxn_of_le {txnId : UInt64} (h : ¬ maxTxnId < txnId.toNat) :
    checkTxn txnId what = .ok () := by
  unfold checkTxn
  rw [if_neg h]

theorem toNat_u16 (h : ¬ 0xFFFF < n) : (UInt16.ofNat n).toNat = n :=
  UInt16.toNat_ofNat_of_lt' (Nat.lt_succ_of_le (Nat.le_of_not_lt h))

theorem toNat_u32 (h : ¬ 0xFFFFFFFF < n) : (UInt32.ofNat n).toNat = n :=
  UInt32.toNat_ofNat_of_lt' (Nat.lt_succ_of_le (Nat.le_of_not_lt h))

-- Fixed layouts

theorem decodePageInit_encode {fields : PageInitPayload}
    (h : encodePageInit outSize fields = .ok bytes) (rest : Bytes) :
    decodePageInit (bytes ++ rest) = .ok fields := by
  simp only [encodePageInit, if_refuse_eq_ok, checkOutputSize_bind, Except.ok.injEq] at h
  obtain ⟨-, hkey, htype, rfl⟩ := h
  have hpast : ∀ after : Bytes, (loadAt UInt64 (List.replicate 3 0 ++
      (scalarBytes (0 : UInt32) ++ after)) 7 : Coded UInt64) = loadAt UInt64 after 0 := by
    intro after
    rw [loadAt_append (by simp), loadAt_past _ (by simp)]
    rfl
  have hknown : isKnownPageType fields.pageType = true := by simpa using htype
  simp (disch := first | assumption | omega | (simp <;> omega) | skip) [decodePageInit, hpast,
    -List.reduceReplicate, hknown, if_neg, if_pos]

theorem decodePageHandoff_encode {fields : PageHandoffPayload}
    (h : encodePageHandoff outSize fields = .ok bytes) (rest : Bytes) :
    decodePageHandoff (bytes ++ rest) = .ok fields := by
  simp only [encodePageHandoff, checkOutputSize_bind, Except.ok.injEq] at h
  obtain ⟨-, rfl⟩ := h
  simp (disch := first | assumption | omega | (simp <;> omega) | skip) [decodePageHandoff]

theorem decodeAnchorUpdate_encode {fields : AnchorUpdatePayload}
    (h : encodeAnchorUpdate outSize fields = .ok bytes) (rest : Bytes) :
    decodeAnchorUpdate (bytes ++ rest) = .ok fields := by
  simp only [encodeAnchorUpdate, checkOutputSize_bind, Except.ok.injEq] at h
  obtain ⟨-, rfl⟩ := h
  simp (disch := first | assumption | omega | (simp <;> omega) | skip) [decodeAnchorUpdate]

theorem decodeHeapDeleteMark_encode {fields : HeapDeleteMarkPayload}
    (h : encodeHeapDeleteMark outSize fields = .ok bytes) (rest : Bytes) :
    decodeHeapDeleteMark (bytes ++ rest) = .ok fields := by
  simp only [encodeHeapDeleteMark, if_refuse_eq_ok, checkOutputSize_bind, Except.ok.injEq] at h
  obtain ⟨-, htrx, rfl⟩ := h
  simp (disch := first | assumption | omega | (simp <;> omega) | skip) [decodeHeapDeleteMark]

theorem decodeHeapDeleteUnmark_encode {fields : HeapDeleteUnmarkPayload}
    (h : encodeHeapDeleteUnmark outSize fields = .ok bytes) (rest : Bytes) :
    decodeHeapDeleteUnmark (bytes ++ rest) = .ok fields := by
  simp only [encodeHeapDeleteUnmark, if_refuse_eq_ok, checkOutputSize_bind,
    Except.ok.injEq] at h
  obtain ⟨-, htrx, rfl⟩ := h
  simp (disch := first | assumption | omega | (simp <;> omega) | skip) [decodeHeapDeleteUnmark,
    if_neg]

theorem decodeSlotRetire_encode {fields : SlotRetirePayload}
    (h : encodeSlotRetire outSize fields = .ok bytes) (rest : Bytes) :
    decodeSlotRetire (bytes ++ rest) = .ok fields := by
  simp only [encodeSlotRetire, checkOutputSize_bind, Except.ok.injEq] at h
  obtain ⟨-, rfl⟩ := h
  simp (disch := first | assumption | omega | (simp <;> omega) | skip) [decodeSlotRetire]

theorem decodePageRun_encode {fields : PageRunPayload}
    (h : encodePageRun outSize fields = .ok bytes) (rest : Bytes) :
    decodePageRun (bytes ++ rest) = .ok fields := by
  simp only [encodePageRun, if_refuse_eq_ok, checkOutputSize_bind, Except.ok.injEq] at h
  obtain ⟨-, hpages, rfl⟩ := h
  simp (disch := first | assumption | omega | (simp <;> omega) | skip) [decodePageRun, if_neg]

theorem decodeFullPageImage_encode {page : Bytes}
    (h : encodeFullPageImage outSize page = .ok bytes) (rest : Bytes) :
    page.length = pageSize ∧ bytes = page ∧
      decodeFullPageImage (bytes ++ rest) = .ok ⟨0, pageSize⟩ := by
  by_cases hlen : page.length = pageSize
  · simp only [encodeFullPageImage, hlen, ne_eq, not_true_eq_false, if_false,
      checkOutputSize_bind, Except.ok.injEq] at h
    obtain ⟨-, rfl⟩ := h
    refine ⟨hlen, rfl, ?_⟩
    simp (disch := first | assumption | omega | (simp <;> omega) | skip) [decodeFullPageImage]
  · rw [encodeFullPageImage, if_pos hlen] at h
    cases h

theorem decodeCheckpointEnd_encode {fields : CheckpointEndPayload}
    (h : encodeCheckpointEnd outSize fields = .ok bytes) (rest : Bytes) :
    decodeCheckpointEnd (bytes ++ rest) = .ok fields := by
  simp only [encodeCheckpointEnd, checkOutputSize_bind, Except.ok.injEq] at h
  obtain ⟨-, rfl⟩ := h
  simp (disch := first | assumption | omega | (simp <;> omega) | skip) [decodeCheckpointEnd]

theorem decodeAssertDrop_encode {fields : AssertDropPayload}
    (h : encodeAssertDrop outSize fields = .ok bytes) (rest : Bytes) :
    decodeAssertDrop (bytes ++ rest) = .ok fields := by
  simp only [encodeAssertDrop, checkOutputSize_bind, Except.ok.injEq] at h
  obtain ⟨-, rfl⟩ := h
  simp (disch := first | assumption | omega | (simp <;> omega) | skip) [decodeAssertDrop]

-- A fixed part and a tail

theorem decodeHeapWrite_encode {fields : HeapWritePayload} {tuple : Bytes}
    (h : encodeHeapWrite outSize fields tuple = .ok bytes) (rest : Bytes) :
    (∃ head, head.length = 20 ∧ bytes = head ++ tuple) ∧ decodeHeapWrite (bytes ++ rest) =
      .ok ⟨{ fields with tupleLen := UInt16.ofNat tuple.length }, ⟨20, tuple.length⟩⟩ := by
  simp only [encodeHeapWrite, if_refuse_eq_ok, checkOutputSize_bind, Except.ok.injEq] at h
  obtain ⟨hlen, -, htrx, rfl⟩ := h
  refine ⟨⟨scalarBytes fields.trxId ++ (scalarBytes fields.undoPtr ++ (scalarBytes fields.slot ++
    scalarBytes (UInt16.ofNat tuple.length))), by simp, by simp⟩, ?_⟩
  simp (disch := first | assumption | omega | (simp <;> omega) | skip) [decodeHeapWrite,
    toNat_u16 hlen, if_neg]

theorem decodeVarHeapAppend_encode {fields : VarHeapAppendPayload} {value : Bytes}
    (h : encodeVarHeapAppend outSize fields value = .ok bytes) (rest : Bytes) :
    (∃ head, head.length = 8 ∧ bytes = head ++ value) ∧ decodeVarHeapAppend (bytes ++ rest) =
      .ok ⟨⟨fields.slot, 0, UInt32.ofNat value.length⟩, ⟨8, value.length⟩⟩ := by
  simp only [encodeVarHeapAppend, if_refuse_eq_ok, checkOutputSize_bind, Except.ok.injEq] at h
  obtain ⟨hlen, -, rfl⟩ := h
  refine ⟨⟨scalarBytes fields.slot ++ (scalarBytes (0 : UInt16) ++
    scalarBytes (UInt32.ofNat value.length)), by simp, by simp⟩, ?_⟩
  simp (disch := first | assumption | omega | (simp <;> omega) | skip) [decodeVarHeapAppend,
    toNat_u32 hlen, if_neg]

theorem decodeIndexInsert_encode {fields : IndexInsertPayload} {entry : Bytes}
    (h : encodeIndexInsert outSize fields entry = .ok bytes) (rest : Bytes) :
    (∃ head, head.length = 4 ∧ bytes = head ++ entry) ∧ decodeIndexInsert (bytes ++ rest) =
      .ok ⟨⟨fields.slot, UInt16.ofNat entry.length⟩, ⟨4, entry.length⟩⟩ := by
  simp only [encodeIndexInsert, if_refuse_eq_ok, checkOutputSize_bind, Except.ok.injEq] at h
  obtain ⟨hlen, -, rfl⟩ := h
  have hshort : ¬ 0xFFFF < entry.length := fun hlong => hlen (.inr hlong)
  refine ⟨⟨scalarBytes fields.slot ++ scalarBytes (UInt16.ofNat entry.length), by simp, by simp⟩,
    ?_⟩
  simp (disch := first | assumption | omega | (simp <;> omega) | skip) [decodeIndexInsert,
    toNat_u16 hshort, if_neg]

theorem decodeUndoWrite_encode {fields : UndoWritePayload} {tail : Bytes}
    (h : encodeUndoWrite outSize fields tail = .ok bytes) (rest : Bytes) :
    (∃ head, head.length = 20 ∧ bytes = head ++ tail) ∧ decodeUndoWrite (bytes ++ rest) =
      .ok ⟨{ fields with tailLen := UInt16.ofNat tail.length }, ⟨20, tail.length⟩⟩ := by
  simp only [encodeUndoWrite, if_refuse_eq_ok, checkOutputSize_bind, Except.ok.injEq] at h
  obtain ⟨hlen, -, htrx, hpage, rfl⟩ := h
  refine ⟨⟨scalarBytes fields.priorTrxId ++ (scalarBytes fields.priorUndoPtr ++
    (scalarBytes fields.offset ++ scalarBytes (UInt16.ofNat tail.length))), by simp, by simp⟩, ?_⟩
  simp (disch := first | assumption | omega | (simp <;> omega) | skip) [decodeUndoWrite,
    toNat_u16 hlen, if_neg]

theorem decodeAssertEntry_encode {fields : AssertEntryPayload} {entry key : Bytes}
    (h : encodeAssertEntry outSize fields entry key = .ok bytes) (rest : Bytes) :
    (∃ head, head.length = 20 ∧ bytes = head ++ (entry ++ key)) ∧
      decodeAssertEntry (bytes ++ rest) =
      .ok ⟨⟨fields.assertionId, fields.index, UInt16.ofNat entry.length,
        UInt16.ofNat key.length, 0, fields.groupId⟩,
        ⟨20, entry.length⟩, ⟨20 + entry.length, key.length⟩⟩ := by
  simp only [encodeAssertEntry, if_refuse_eq_ok, checkOutputSize_bind, Except.ok.injEq] at h
  obtain ⟨hentry, hkey, -, rfl⟩ := h
  refine ⟨⟨scalarBytes fields.assertionId ++ (scalarBytes fields.index ++
    (scalarBytes (UInt16.ofNat entry.length) ++ (scalarBytes (UInt16.ofNat key.length) ++
      (scalarBytes (0 : UInt16) ++ scalarBytes fields.groupId)))), by simp, by simp⟩, ?_⟩
  simp (disch := first | assumption | omega | (simp <;> omega) | skip) [decodeAssertEntry,
    toNat_u16 hentry, toNat_u16 hkey]

theorem decodeAssertCommit_encode {fields : AssertCommitPayload} {indexes : List UInt16}
    (h : encodeAssertCommit outSize fields indexes = .ok bytes) (rest : Bytes) :
    (∃ head, head.length = 12 ∧ bytes = head ++ indexes.flatMap scalarBytes) ∧
      decodeAssertCommit (bytes ++ rest) =
      .ok ⟨⟨fields.assertionId, UInt16.ofNat indexes.length, 0⟩, ⟨12, indexes.length * 2⟩⟩ := by
  simp only [encodeAssertCommit, if_refuse_eq_ok, checkOutputSize_bind, Except.ok.injEq] at h
  obtain ⟨hlen, -, rfl⟩ := h
  refine ⟨⟨scalarBytes fields.assertionId ++ (scalarBytes (UInt16.ofNat indexes.length) ++
    scalarBytes (0 : UInt16)), by simp, by simp⟩, ?_⟩
  simp (disch := first | assumption | omega | (simp <;> omega) | skip) [decodeAssertCommit,
    toNat_u16 hlen]

theorem decodeAssertRollback_encode {fields : AssertRollbackPayload} {key : Bytes}
    (h : encodeAssertRollback outSize fields key = .ok bytes) (rest : Bytes) :
    (∃ head, head.length = 24 ∧ bytes = head ++ key) ∧ decodeAssertRollback (bytes ++ rest) =
      .ok ⟨{ fields with keyLen := UInt16.ofNat key.length, reserved := 0 },
        ⟨24, key.length⟩⟩ := by
  simp only [encodeAssertRollback, if_refuse_eq_ok, checkOutputSize_bind, Except.ok.injEq] at h
  obtain ⟨hlen, -, rfl⟩ := h
  refine ⟨⟨scalarBytes fields.assertionId ++ (scalarBytes fields.delta ++
    (scalarBytes fields.index ++ (scalarBytes (UInt16.ofNat key.length) ++
      scalarBytes (0 : UInt32)))), by simp, by simp⟩, ?_⟩
  simp (disch := first | assumption | omega | (simp <;> omega) | skip) [decodeAssertRollback,
    toNat_u16 hlen]

-- Tables

theorem checkActiveTxns_eq_ok {entries : List CheckpointActiveTxn}
    (h : checkActiveTxns entries = .ok ()) :
    ∀ entry ∈ entries, ¬ maxTxnId < entry.txnId.toNat := by
  induction entries with
  | nil => simp
  | cons entry entries ih =>
    rw [checkActiveTxns, if_refuse_eq_ok, if_refuse_eq_ok] at h
    obtain ⟨htxn, -, hrest⟩ := h
    simp only [forall_mem_cons]
    exact ⟨htxn, ih hrest⟩

theorem decodeActiveTxns_flatMap (before rest : Bytes) {entries : List CheckpointActiveTxn}
    (h : ∀ entry ∈ entries, ¬ maxTxnId < entry.txnId.toNat) :
    decodeActiveTxns (before ++ (entries.flatMap activeTxnBytes ++ rest)) before.length
      entries.length = .ok entries := by
  induction entries generalizing before with
  | nil => rfl
  | cons entry entries ih =>
    obtain ⟨htxn, hrest⟩ := forall_mem_cons.mp h
    have hnext := ih (before ++ activeTxnBytes entry) hrest
    have hlen : (before ++ activeTxnBytes entry).length = before.length + activeTxnEntrySize := by
      simp [activeTxnBytes, activeTxnEntrySize]
    rw [hlen, append_assoc] at hnext
    rw [flatMap_cons, length_cons, decodeActiveTxns, append_assoc, hnext,
      activeTxnBytes]
    simp [loadAt_append, htxn]

theorem decodeDirtyPages_flatMap (before rest : Bytes)
    (h : ∀ entry ∈ entries, entry.pageId ≠ kInvalidPageId) :
    decodeDirtyPages (before ++ (entries.flatMap dirtyPageBytes ++ rest)) before.length
      entries.length = .ok entries := by
  induction entries generalizing before with
  | nil => rfl
  | cons entry entries ih =>
    obtain ⟨hid, hrest⟩ := forall_mem_cons.mp h
    have hnext := ih (before ++ dirtyPageBytes entry) hrest
    have hlen : (before ++ dirtyPageBytes entry).length = before.length + dirtyEntrySize := by
      simp [dirtyPageBytes, dirtyEntrySize]
    rw [hlen, append_assoc] at hnext
    rw [flatMap_cons, length_cons, decodeDirtyPages, append_assoc, hnext,
      dirtyPageBytes]
    simp [loadAt_append, hid]

theorem decodeDirtyPages_refuses (before rest : Bytes)
    (h : ∃ entry ∈ entries, entry.pageId = kInvalidPageId) :
    decodeDirtyPages (before ++ (entries.flatMap dirtyPageBytes ++ rest)) before.length
      entries.length = refuse
        (.corruption "wal payload: CHECKPOINT_BEGIN dirty table names the invalid page id") := by
  induction entries generalizing before with
  | nil => simp at h
  | cons entry entries ih =>
    rw [flatMap_cons, length_cons, decodeDirtyPages, append_assoc]
    by_cases hid : entry.pageId = kInvalidPageId
    · rw [dirtyPageBytes]
      simp [loadAt_append, hid]
    · have hrest : ∃ entry ∈ entries, entry.pageId = kInvalidPageId := by
        simpa [hid] using h
      have hnext := ih (before ++ dirtyPageBytes entry) hrest
      have hlen : (before ++ dirtyPageBytes entry).length =
          before.length + dirtyEntrySize := by
        simp [dirtyPageBytes, dirtyEntrySize]
      rw [hlen, append_assoc] at hnext
      rw [hnext, dirtyPageBytes]
      simp [loadAt_append, hid]
      rfl

theorem decodeCheckpointBegin_encode {activeTxns : List CheckpointActiveTxn}
    {dirtyPages : List CheckpointDirtyPage}
    (h : encodeCheckpointBegin outSize activeTxns dirtyPages = .ok bytes) (rest : Bytes) :
    decodeCheckpointBegin (bytes ++ rest) =
      if ∃ entry ∈ dirtyPages, entry.pageId = kInvalidPageId then
        refuse (.corruption "wal payload: CHECKPOINT_BEGIN dirty table names the invalid page id")
      else .ok ⟨activeTxns, dirtyPages⟩ := by
  simp only [encodeCheckpointBegin, if_refuse_eq_ok, checkOutputSize_bind, not_or] at h
  obtain ⟨⟨htxns, hdirty⟩, -, h⟩ := h
  cases hcheck : checkActiveTxns activeTxns with
  | error e =>
    rw [hcheck] at h
    cases h
  | ok u =>
    rw [hcheck, ok_bind, Except.ok.injEq] at h
    subst h
    have hids := checkActiveTxns_eq_ok hcheck
    -- The two counts, then the tables behind them.
    obtain ⟨counts, hcounts⟩ : ∃ counts, counts = scalarBytes (UInt32.ofNat activeTxns.length) ++
      scalarBytes (UInt32.ofNat dirtyPages.length) := ⟨_, rfl⟩
    have hfixed : counts.length = checkpointBeginFixedSize := by
      simp [hcounts, checkpointBeginFixedSize]
    have hactive : (activeTxns.flatMap activeTxnBytes).length =
        activeTxns.length * activeTxnEntrySize := by
      simp [activeTxnBytes, activeTxnEntrySize]
    have hpages : (dirtyPages.flatMap dirtyPageBytes).length =
        dirtyPages.length * dirtyEntrySize := by
      simp [dirtyPageBytes, dirtyEntrySize]
    have hread := decodeActiveTxns_flatMap counts (dirtyPages.flatMap dirtyPageBytes ++ rest) hids
    rw [hfixed] at hread
    have hbefore : (counts ++ activeTxns.flatMap activeTxnBytes).length =
        checkpointBeginFixedSize + activeTxns.length * activeTxnEntrySize := by
      rw [length_append, hfixed, hactive]
    have hroom : ¬ (counts ++ (activeTxns.flatMap activeTxnBytes ++
        (dirtyPages.flatMap dirtyPageBytes ++ rest))).length <
          checkpointBeginSize activeTxns.length dirtyPages.length := by
      simp only [length_append, hfixed, hactive, hpages, checkpointBeginSize]
      omega
    have hwhole : scalarBytes (UInt32.ofNat activeTxns.length) ++
        (scalarBytes (UInt32.ofNat dirtyPages.length) ++
          (activeTxns.flatMap activeTxnBytes ++ dirtyPages.flatMap dirtyPageBytes)) ++ rest =
        counts ++ (activeTxns.flatMap activeTxnBytes ++
          (dirtyPages.flatMap dirtyPageBytes ++ rest)) := by
      simp [hcounts]
    have hfirst : (loadAt UInt32 (counts ++ (activeTxns.flatMap activeTxnBytes ++
        (dirtyPages.flatMap dirtyPageBytes ++ rest))) 0 : Coded UInt32) =
          .ok (UInt32.ofNat activeTxns.length) := by
      rw [hcounts, append_assoc, loadAt_zero]
    have hsecond : (loadAt UInt32 (counts ++ (activeTxns.flatMap activeTxnBytes ++
        (dirtyPages.flatMap dirtyPageBytes ++ rest))) 4 : Coded UInt32) =
          .ok (UInt32.ofNat dirtyPages.length) := by
      rw [hcounts, append_assoc, loadAt_past _ (Nat.le_refl 4)]
      exact loadAt_zero ..
    rw [hwhole, decodeCheckpointBegin, hfirst, hsecond,
      checkSize_of_le (by simp only [length_append]; omega)]
    simp only [ok_bind, toNat_u32 htxns, toNat_u32 hdirty, if_neg hroom, hread]
    by_cases hbad : ∃ entry ∈ dirtyPages, entry.pageId = kInvalidPageId
    · have hrefused := decodeDirtyPages_refuses
        (counts ++ activeTxns.flatMap activeTxnBytes) rest hbad
      rw [hbefore, append_assoc] at hrefused
      rw [hrefused, if_pos hbad]
      rfl
    · have hgood : ∀ entry ∈ dirtyPages, entry.pageId ≠ kInvalidPageId :=
        fun entry hmem hid => hbad ⟨entry, hmem, hid⟩
      have htable := decodeDirtyPages_flatMap
        (counts ++ activeTxns.flatMap activeTxnBytes) rest hgood
      rw [hbefore, append_assoc] at htable
      rw [htable, if_neg hbad]
      rfl

/-- Where the groups' keys lie, from an offset on. -/
def keyViews : Nat → List (SnapshotGroupEntry Bytes) → List (SnapshotGroupEntry View)
  | _, [] => []
  | at_, group :: groups =>
    ⟨group.groupId, group.count, group.sum, ⟨at_ + 24, group.key.length⟩⟩ ::
      keyViews (at_ + 24 + group.key.length) groups

theorem decodeSnapshotGroups_flatMap (before rest : Bytes) (n : Nat)
    {groups : List (SnapshotGroupEntry Bytes)}
    (h : ∀ group ∈ groups, ¬ 0xFFFFFFFF < group.key.length) (hn : n ≤ groups.length) :
    decodeSnapshotGroups (before ++ (groups.flatMap snapshotGroupBytes ++ rest)) before.length n =
      .ok (keyViews before.length (groups.take n)) := by
  induction n generalizing before groups with
  | zero => rfl
  | succ n ih =>
    cases groups with
    | nil => simp at hn
    | cons group groups =>
      obtain ⟨hkey, hrest⟩ := forall_mem_cons.mp h
      have hnext := ih (before ++ snapshotGroupBytes group) hrest (Nat.le_of_succ_le_succ hn)
      have hlen : (before ++ snapshotGroupBytes group).length =
          before.length + 24 + group.key.length := by
        simp [snapshotGroupBytes]
        omega
      rw [hlen, append_assoc] at hnext
      rw [flatMap_cons, decodeSnapshotGroups, append_assoc, take_succ_cons,
        keyViews]
      rw [snapshotGroupBytes] at hnext ⊢
      simp only [append_assoc] at hnext
      simp (disch := first | assumption | omega | (simp <;> omega) | skip)
        [loadAt_append, toNat_u32 hkey, hnext]

theorem sum_groupBytes_le (groups : List (SnapshotGroupEntry Bytes)) :
    (groups.flatMap snapshotGroupBytes).length =
        (groups.map fun group => assertSnapshotGroupBytes group.key.length).sum ∧
      groups.length * 24 ≤ (groups.flatMap snapshotGroupBytes).length := by
  induction groups with
  | nil => simp
  | cons group groups ih =>
    have hlen : (snapshotGroupBytes group).length =
        assertSnapshotGroupBytes group.key.length := by
      simp [snapshotGroupBytes, assertSnapshotGroupBytes]
      omega
    have hfixed : 24 ≤ assertSnapshotGroupBytes group.key.length := Nat.le_add_right 24 _
    rw [flatMap_cons, length_append, hlen, map_cons, sum_cons,
      length_cons]
    omega

theorem decodeAssertSnapshot_encode {fields : AssertSnapshotPayload}
    {groups : List (SnapshotGroupEntry Bytes)}
    (h : encodeAssertSnapshot outSize fields groups = .ok bytes) (rest : Bytes) :
    (∃ head, head.length = 16 ∧ bytes = head ++ groups.flatMap snapshotGroupBytes) ∧
      decodeAssertSnapshot (bytes ++ rest) =
        .ok ⟨⟨fields.assertionId, UInt32.ofNat groups.length, 0⟩,
        keyViews 16 (groups.take (groups.length % 2 ^ 32))⟩ := by
  simp only [encodeAssertSnapshot, if_refuse_eq_ok, checkOutputSize_bind] at h
  obtain ⟨hkeys, -, h⟩ := h
  have hshort : ∀ group ∈ groups, ¬ 0xFFFFFFFF < group.key.length := by
    intro group hmem hlong
    exact hkeys (any_eq_true.mpr ⟨group, hmem, decide_eq_true hlong⟩)
  split at h
  · cases h
  · rw [Except.ok.injEq] at h
    subst h
    refine ⟨⟨scalarBytes fields.assertionId ++ (scalarBytes (UInt32.ofNat groups.length) ++
      scalarBytes (0 : UInt32)), by simp, by simp⟩, ?_⟩
    obtain ⟨-, hroom⟩ := sum_groupBytes_le groups
    have hcount : (UInt32.ofNat groups.length).toNat = groups.length % 2 ^ 32 :=
      UInt32.toNat_ofNat'
    have hle : groups.length % 2 ^ 32 ≤ groups.length := Nat.mod_le ..
    have hread := decodeSnapshotGroups_flatMap (scalarBytes fields.assertionId ++
      (scalarBytes (UInt32.ofNat groups.length) ++ scalarBytes (0 : UInt32))) rest _ hshort hle
    have hfixed : (scalarBytes fields.assertionId ++ (scalarBytes (UInt32.ofNat groups.length) ++
      scalarBytes (0 : UInt32))).length = 16 := by simp
    rw [hfixed] at hread
    simp only [append_assoc] at hread
    have hmax : ¬ (8 + (4 + (4 + ((groups.flatMap snapshotGroupBytes).length + rest.length))) - 16)
        / 24 < groups.length % 2 ^ 32 := by
      omega
    simp only [decodeAssertSnapshot, append_assoc]
    simp (disch := first | assumption | omega | (simp <;> omega) | skip) only
      [checkSize_of_le, loadAt_zero, loadAt_past, ok_bind, hcount, hread, length_append,
        length_scalarBytes,
      width_uint64, width_uint32, if_neg hmax, Nat.reduceSub]

theorem resolve_keyViews (before rest : Bytes) (groups : List (SnapshotGroupEntry Bytes)) :
    (keyViews before.length groups).map
        (SnapshotGroupEntry.resolve (before ++ (groups.flatMap snapshotGroupBytes ++ rest))) =
      groups := by
  induction groups generalizing before with
  | nil => rfl
  | cons group groups ih =>
    have hnext := ih (before ++ snapshotGroupBytes group)
    have hlen : (before ++ snapshotGroupBytes group).length =
        before.length + 24 + group.key.length := by
      simp [snapshotGroupBytes]
      omega
    have hkey : (⟨before.length + 24, group.key.length⟩ : View).of
        (before ++ ((group :: groups).flatMap snapshotGroupBytes ++ rest)) = group.key := by
      have happend := View.of_append (before ++ (scalarBytes group.groupId ++
        (scalarBytes (UInt32.ofNat group.key.length) ++ (scalarBytes group.count ++
          scalarBytes group.sum)))) group.key (groups.flatMap snapshotGroupBytes ++ rest)
        (show before.length + 24 = _ by simp) rfl
      rw [flatMap_cons, snapshotGroupBytes]
      simpa only [append_assoc] using happend
    rw [hlen, append_assoc] at hnext
    rw [keyViews, map_cons, SnapshotGroupEntry.resolve, hkey, flatMap_cons,
      append_assoc, hnext]

theorem readIndexes_flatMap {d : DecodedAssertCommit} (before indexes : List UInt16)
    (h : d.indexes.of bytes = before.flatMap scalarBytes ++ indexes.flatMap scalarBytes) :
    d.readIndexes bytes before.length indexes.length = .ok indexes := by
  induction indexes generalizing before with
  | nil => rfl
  | cons index indexes ih =>
    have hnext := ih (before ++ [index]) (by simp [h])
    have hlen : (before.flatMap fun x : UInt16 => scalarBytes x).length = before.length * 2 := by
      simp
    rw [length_append] at hnext
    rw [length_cons, DecodedAssertCommit.readIndexes, DecodedAssertCommit.indexAt, h,
      loadAt_append (Nat.le_of_eq hlen), hlen, Nat.sub_self, flatMap_cons, loadAt_zero,
      ok_bind]
    exact congrArg (fun x : Coded (List UInt16) => x >>= fun l => .ok (index :: l)) hnext

-- Reading back

namespace Payload

/-- The dirty table names pages, and the groups are as many as their count can say. -/
def Recoverable : Payload → Prop
  | .checkpointBegin _ dirtyPages => ∀ entry ∈ dirtyPages, entry.pageId ≠ kInvalidPageId
  | .assertSnapshot _ groups => groups.length < 2 ^ 32
  | _ => True

end Payload

theorem readBack_of_decode {kind : PayloadKind} {d : Decoded} {p : Coded Payload}
    (h : decode kind bytes = .ok d) (hp : d.payload bytes = p) : readBack kind bytes = p := by
  rw [readBack, h, ok_bind, hp]

section

variable {kind : PayloadKind} {p : Payload} {x : Coded α} {d : α} {f : α → Decoded}

/-- A payload of fields only. -/
theorem readBack_fields (h : x = .ok d) (hdecode : decode kind bytes = x.map f)
    (hp : (f d).payload bytes = .ok p) (hgood : p.Recoverable) :
    readBack kind bytes = .ok p ↔ p.Recoverable := by
  refine iff_of_true (readBack_of_decode ?_ hp) hgood
  rw [hdecode, h]
  rfl

/-- A payload whose last part follows a head of `n` bytes. -/
theorem readBack_tail {part : Bytes}
    (h : (∃ head, head.length = n ∧ bytes = head ++ part) ∧ x = .ok d)
    (hdecode : decode kind (bytes ++ rest) = x.map f)
    (hp : (⟨n, part.length⟩ : View).of (bytes ++ rest) = part →
      (f d).payload (bytes ++ rest) = .ok p) (hgood : p.Recoverable) :
    readBack kind (bytes ++ rest) = .ok p ↔ p.Recoverable := by
  obtain ⟨⟨head, hhead, rfl⟩, h⟩ := h
  refine readBack_fields h hdecode (hp ?_) hgood
  rw [append_assoc]
  exact View.of_append head part rest hhead.symm rfl

end

theorem readBack_encode {p : Payload} (h : p.encode outSize = .ok bytes) (rest : Bytes) :
    readBack p.kind (bytes ++ rest) = .ok p.written ↔ p.Recoverable := by
  cases p with
  | pageInit fields => exact readBack_fields (decodePageInit_encode h rest) rfl rfl trivial
  | pageHandoff fields => exact readBack_fields (decodePageHandoff_encode h rest) rfl rfl trivial
  | anchorUpdate fields => exact readBack_fields (decodeAnchorUpdate_encode h rest) rfl rfl trivial
  | heapDeleteMark fields =>
    exact readBack_fields (decodeHeapDeleteMark_encode h rest) rfl rfl trivial
  | heapDeleteUnmark fields =>
    exact readBack_fields (decodeHeapDeleteUnmark_encode h rest) rfl rfl trivial
  | slotRetire fields => exact readBack_fields (decodeSlotRetire_encode h rest) rfl rfl trivial
  | pageRun fields => exact readBack_fields (decodePageRun_encode h rest) rfl rfl trivial
  | checkpointEnd fields =>
    exact readBack_fields (decodeCheckpointEnd_encode h rest) rfl rfl trivial
  | assertDrop fields => exact readBack_fields (decodeAssertDrop_encode h rest) rfl rfl trivial
  | heapWrite fields tuple =>
    refine readBack_tail (decodeHeapWrite_encode h rest) rfl (fun hview => ?_) trivial
    rw [Decoded.payload, hview, Payload.written]
  | varHeapAppend fields value =>
    refine readBack_tail (decodeVarHeapAppend_encode h rest) rfl (fun hview => ?_) trivial
    rw [Decoded.payload, hview, Payload.written]
  | indexInsert fields entry =>
    refine readBack_tail (decodeIndexInsert_encode h rest) rfl (fun hview => ?_) trivial
    rw [Decoded.payload, hview, Payload.written]
  | undoWrite fields tail =>
    refine readBack_tail (decodeUndoWrite_encode h rest) rfl (fun hview => ?_) trivial
    rw [Decoded.payload, hview, Payload.written]
  | assertRollback fields key =>
    refine readBack_tail (decodeAssertRollback_encode h rest) rfl (fun hview => ?_) trivial
    rw [Decoded.payload, hview, Payload.written]
  | fullPageImage page =>
    obtain ⟨hlen, rfl, hread⟩ := decodeFullPageImage_encode h rest
    refine iff_of_true (readBack_of_decode (congrArg (Except.map _) hread) ?_) trivial
    have hview := View.of_append [] bytes rest rfl hlen.symm
    exact congrArg (fun page => (.ok (.fullPageImage page) : Coded Payload)) hview
  | assertEntry fields entry key =>
    obtain ⟨⟨head, hhead, hbytes⟩, hread⟩ := decodeAssertEntry_encode h rest
    refine iff_of_true (readBack_of_decode (congrArg (Except.map _) hread) ?_) trivial
    have hentry := View.of_append head entry (key ++ rest) hhead.symm rfl
    have hafter : 20 + entry.length = (head ++ entry).length := by
      rw [length_append, hhead]
    have hkey := View.of_append (head ++ entry) key rest hafter rfl
    rw [append_assoc] at hkey
    rw [Decoded.payload, hbytes, append_assoc, append_assoc, hentry, hkey,
      Payload.written]
  | assertCommit fields indexes =>
    obtain ⟨⟨head, hhead, hbytes⟩, hread⟩ := decodeAssertCommit_encode h rest
    refine iff_of_true (readBack_of_decode (congrArg (Except.map _) hread) ?_) trivial
    have hlen : ¬ 0xFFFF < indexes.length := by
      intro hlong
      rw [Payload.encode, encodeAssertCommit, if_pos hlong] at h
      cases h
    have htail : indexes.length * 2 = (indexes.flatMap scalarBytes).length := by simp
    have hview := View.of_append head (indexes.flatMap scalarBytes) rest hhead.symm htail
    rw [← append_assoc, ← hbytes] at hview
    rw [Decoded.payload, toNat_u16 hlen]
    exact congrArg (Except.map _) (readIndexes_flatMap [] indexes hview)
  | checkpointBegin activeTxns dirtyPages =>
    have hread := decodeCheckpointBegin_encode h rest
    by_cases hbad : ∃ entry ∈ dirtyPages, entry.pageId = kInvalidPageId
    · rw [if_pos hbad] at hread
      refine iff_of_false ?_ ?_
      · rw [readBack, Payload.kind, decode, hread]
        exact nofun
      · obtain ⟨entry, hmem, hid⟩ := hbad
        exact fun hgood => hgood entry hmem hid
    · rw [if_neg hbad] at hread
      refine iff_of_true (readBack_of_decode (congrArg (Except.map _) hread) rfl) ?_
      exact fun entry hmem hid => hbad ⟨entry, hmem, hid⟩
  | assertSnapshot fields groups =>
    obtain ⟨⟨head, hhead, hbytes⟩, hread⟩ := decodeAssertSnapshot_encode h rest
    have hsplit := groups.take_append_drop (groups.length % 2 ^ 32)
    have hresolve := resolve_keyViews head
      ((groups.drop (groups.length % 2 ^ 32)).flatMap snapshotGroupBytes ++ rest)
      (groups.take (groups.length % 2 ^ 32))
    rw [← append_assoc (List.flatMap _ _), ← flatMap_append, hsplit,
      ← append_assoc, ← hbytes, hhead] at hresolve
    have hback : readBack .assertSnapshot (bytes ++ rest) =
        .ok (.assertSnapshot ⟨fields.assertionId, UInt32.ofNat groups.length, 0⟩
          (groups.take (groups.length % 2 ^ 32))) := by
      refine readBack_of_decode (congrArg (Except.map _) hread) ?_
      rw [Decoded.payload, hresolve]
    rw [Payload.kind, hback, Payload.written, Except.ok.injEq, Payload.assertSnapshot.injEq]
    have hcount : groups.take (groups.length % 2 ^ 32) = groups ↔ groups.length < 2 ^ 32 := by
      rw [take_eq_self_iff]
      omega
    exact ⟨fun h => hcount.mp h.2, fun h => ⟨rfl, hcount.mpr h⟩⟩

-- Reads that stay within the bytes

theorem stays_refuse {q : α → Prop} (s : Status) : Stays q (refuse s : Coded α) :=
  fun h => (by cases h)

theorem stays_unless {q : α → Prop} {c : Prop} [Decidable c] {x : Coded α} (h : ¬ c → Stays q x) :
    Stays q (if c then refuse s else x) := by
  by_cases hc : c
  · rw [if_pos hc]
    exact stays_refuse s
  · rw [if_neg hc]
    exact h hc

theorem stays_checkSize :
    Stays (fun _ => needed ≤ bytes.length) (checkSize bytes needed what) := by
  by_cases h : needed ≤ bytes.length
  · rw [checkSize_of_le h]
    exact h
  · unfold checkSize
    rw [if_pos (Nat.lt_of_not_le h)]
    exact stays_refuse _

theorem stays_checkTxn (txnId : UInt64) : Stays (fun _ => True) (checkTxn txnId what) := by
  unfold checkTxn
  split
  · exact stays_refuse _
  · trivial

theorem decodePageInit_stays : Stays (fun _ => True) (decodePageInit bytes) := by
  refine stays_checkSize.bind fun _ hsize => ?_
  iterate 2 refine (Stays.loadAt (by simp; omega)).bind fun _ _ => ?_
  have hchecked (minKey ownerOid : UInt64) (pageType : UInt8) : Stays (fun _ => True)
      (if kMaxKeystoneId < minKey.toNat then
        refuse (.corruption "wal payload: PAGE_INIT min_key exceeds the 40-bit id space")
      else if !isKnownPageType pageType then
        refuse (.corruption ("wal payload: PAGE_INIT page_type " ++ toString pageType.toNat ++
          " is not known to this build"))
      else .ok { minKey := minKey, pageType := pageType, ownerOid := ownerOid } :
        Coded PageInitPayload) :=
    stays_unless fun _ => stays_unless fun _ => trivial
  dsimp only
  split
  · exact (Stays.loadAt (by simp; omega)).bind fun _ _ => hchecked ..
  · exact hchecked ..

theorem decodePageHandoff_stays : Stays (fun _ => True) (decodePageHandoff bytes) := by
  refine stays_checkSize.bind fun _ hsize => ?_
  refine (Stays.loadAt (by simp; omega)).bind fun _ _ => ?_
  trivial

theorem decodeAnchorUpdate_stays : Stays (fun _ => True) (decodeAnchorUpdate bytes) := by
  refine stays_checkSize.bind fun _ hsize => ?_
  iterate 2 refine (Stays.loadAt (by simp; omega)).bind fun _ _ => ?_
  trivial

theorem decodeHeapDeleteMark_stays : Stays (fun _ => True) (decodeHeapDeleteMark bytes) := by
  refine stays_checkSize.bind fun _ hsize => ?_
  iterate 2 refine (Stays.loadAt (by simp; omega)).bind fun _ _ => ?_
  exact (stays_checkTxn _).bind fun _ _ => trivial

theorem decodeHeapDeleteUnmark_stays : Stays (fun _ => True) (decodeHeapDeleteUnmark bytes) := by
  refine stays_checkSize.bind fun _ hsize => ?_
  iterate 3 refine (Stays.loadAt (by simp; omega)).bind fun _ _ => ?_
  exact stays_unless fun _ => trivial

theorem decodeSlotRetire_stays : Stays (fun _ => True) (decodeSlotRetire bytes) := by
  refine stays_checkSize.bind fun _ hsize => ?_
  refine (Stays.loadAt (by simp; omega)).bind fun _ _ => ?_
  trivial

theorem decodePageRun_stays : Stays (fun _ => True) (decodePageRun bytes) := by
  refine stays_checkSize.bind fun _ hsize => ?_
  refine (Stays.loadAt (by simp; omega)).bind fun _ _ => ?_
  exact stays_unless fun _ => trivial

theorem decodeCheckpointEnd_stays : Stays (fun _ => True) (decodeCheckpointEnd bytes) := by
  refine stays_checkSize.bind fun _ hsize => ?_
  refine (Stays.loadAt (by simp; omega)).bind fun _ _ => ?_
  trivial

theorem decodeAssertDrop_stays : Stays (fun _ => True) (decodeAssertDrop bytes) := by
  refine stays_checkSize.bind fun _ hsize => ?_
  refine (Stays.loadAt (by simp; omega)).bind fun _ _ => ?_
  trivial

theorem decodeFullPageImage_stays :
    Stays (fun page => page.Within bytes) (decodeFullPageImage bytes) := by
  refine stays_checkSize.bind fun _ hsize => ?_
  exact Stays.subspan (by omega)

theorem decodeHeapWrite_stays : Stays (fun d => d.tuple.Within bytes) (decodeHeapWrite bytes) := by
  refine stays_checkSize.bind fun _ hsize => ?_
  iterate 4 refine (Stays.loadAt (by simp; omega)).bind fun _ _ => ?_
  refine (stays_checkTxn _).bind fun _ _ => ?_
  refine stays_unless fun hlen => ?_
  exact (Stays.subspan (by omega)).bind fun _ hview => hview

theorem decodeVarHeapAppend_stays :
    Stays (fun d => d.value.Within bytes) (decodeVarHeapAppend bytes) := by
  refine stays_checkSize.bind fun _ hsize => ?_
  iterate 3 refine (Stays.loadAt (by simp; omega)).bind fun _ _ => ?_
  refine stays_unless fun hlen => ?_
  exact (Stays.subspan (by omega)).bind fun _ hview => hview

theorem decodeIndexInsert_stays :
    Stays (fun d => d.entry.Within bytes) (decodeIndexInsert bytes) := by
  refine stays_checkSize.bind fun _ hsize => ?_
  iterate 2 refine (Stays.loadAt (by simp; omega)).bind fun _ _ => ?_
  refine stays_unless fun hlen => ?_
  exact (Stays.subspan (by omega)).bind fun _ hview => hview

theorem decodeUndoWrite_stays : Stays (fun d => d.tail.Within bytes) (decodeUndoWrite bytes) := by
  refine stays_checkSize.bind fun _ hsize => ?_
  iterate 4 refine (Stays.loadAt (by simp; omega)).bind fun _ _ => ?_
  refine (stays_checkTxn _).bind fun _ _ => ?_
  refine stays_unless fun hlen => ?_
  refine stays_unless fun _ => ?_
  exact (Stays.subspan (by omega)).bind fun _ hview => hview

theorem decodeAssertCommit_stays :
    Stays (fun d => d.indexes.Within bytes) (decodeAssertCommit bytes) := by
  refine stays_checkSize.bind fun _ hsize => ?_
  iterate 3 refine (Stays.loadAt (by simp; omega)).bind fun _ _ => ?_
  refine stays_checkSize.bind fun _ hlen => ?_
  exact (Stays.subspan (by omega)).bind fun _ hview => hview

theorem decodeAssertRollback_stays :
    Stays (fun d => d.key.Within bytes) (decodeAssertRollback bytes) := by
  refine stays_checkSize.bind fun _ hsize => ?_
  iterate 5 refine (Stays.loadAt (by simp; omega)).bind fun _ _ => ?_
  refine stays_checkSize.bind fun _ hlen => ?_
  exact (Stays.subspan (by omega)).bind fun _ hview => hview

theorem decodeAssertEntry_stays :
    Stays (fun d => d.entry.Within bytes ∧ d.key.Within bytes) (decodeAssertEntry bytes) := by
  refine stays_checkSize.bind fun _ hsize => ?_
  iterate 6 refine (Stays.loadAt (by simp; omega)).bind fun _ _ => ?_
  refine stays_checkSize.bind fun _ hlen => ?_
  refine (Stays.subspan (by omega)).bind fun _ hentry => ?_
  exact (Stays.subspan (by omega)).bind fun _ hkey => ⟨hentry, hkey⟩

theorem decodeActiveTxns_stays {at_ count : Nat}
    (h : at_ + count * activeTxnEntrySize ≤ bytes.length) :
    Stays (fun _ => True) (decodeActiveTxns bytes at_ count) := by
  induction count generalizing at_ with
  | zero => trivial
  | succ count ih =>
    have hsize : activeTxnEntrySize = 16 := rfl
    rw [Nat.succ_mul] at h
    iterate 2 refine (Stays.loadAt (by simp; omega)).bind fun _ _ => ?_
    refine (stays_checkTxn _).bind fun _ _ => ?_
    exact (ih (by omega)).bind fun _ _ => trivial

theorem decodeDirtyPages_stays {at_ count : Nat}
    (h : at_ + count * dirtyEntrySize ≤ bytes.length) :
    Stays (fun _ => True) (decodeDirtyPages bytes at_ count) := by
  induction count generalizing at_ with
  | zero => trivial
  | succ count ih =>
    have hsize : dirtyEntrySize = 12 := rfl
    rw [Nat.succ_mul] at h
    iterate 2 refine (Stays.loadAt (by simp; omega)).bind fun _ _ => ?_
    refine stays_unless fun _ => ?_
    exact (ih (by omega)).bind fun _ _ => trivial

theorem decodeCheckpointBegin_stays : Stays (fun _ => True) (decodeCheckpointBegin bytes) := by
  have hfixed : checkpointBeginFixedSize = 8 := rfl
  refine stays_checkSize.bind fun _ hsize => ?_
  iterate 2 refine (Stays.loadAt (by simp; omega)).bind fun _ _ => ?_
  refine stays_unless fun hroom => ?_
  rw [checkpointBeginSize] at hroom
  refine (decodeActiveTxns_stays (by omega)).bind fun _ _ => ?_
  exact (decodeDirtyPages_stays (by omega)).bind fun _ _ => trivial

theorem decodeSnapshotGroups_stays (at_ count : Nat) :
    Stays (fun groups => ∀ group ∈ groups, group.key.Within bytes)
      (decodeSnapshotGroups bytes at_ count) := by
  induction count generalizing at_ with
  | zero => exact fun group hmem => (by cases hmem)
  | succ count ih =>
    refine stays_checkSize.bind fun _ hsize => ?_
    iterate 4 refine (Stays.loadAt (by simp; omega)).bind fun _ _ => ?_
    refine stays_checkSize.bind fun _ hlen => ?_
    refine (Stays.subspan (by omega)).bind fun key hkey => ?_
    refine (ih _).bind fun groups hgroups => ?_
    exact forall_mem_cons.mpr ⟨hkey, hgroups⟩

theorem decodeAssertSnapshot_stays :
    Stays (fun d => ∀ group ∈ d.groups, group.key.Within bytes) (decodeAssertSnapshot bytes) := by
  refine stays_checkSize.bind fun _ hsize => ?_
  iterate 3 refine (Stays.loadAt (by simp; omega)).bind fun _ _ => ?_
  refine stays_unless fun _ => ?_
  exact (decodeSnapshotGroups_stays ..).bind fun _ hgroups => hgroups

theorem decode_stays (kind : PayloadKind) (bytes : Bytes) :
    Stays (fun d => ∀ view ∈ d.views, view.Within bytes) (decode kind bytes) := by
  cases kind with
  | pageInit => exact decodePageInit_stays.map fun _ _ => by simp [Decoded.views]
  | pageHandoff => exact decodePageHandoff_stays.map fun _ _ => by simp [Decoded.views]
  | anchorUpdate => exact decodeAnchorUpdate_stays.map fun _ _ => by simp [Decoded.views]
  | heapDeleteMark => exact decodeHeapDeleteMark_stays.map fun _ _ => by simp [Decoded.views]
  | heapDeleteUnmark => exact decodeHeapDeleteUnmark_stays.map fun _ _ => by simp [Decoded.views]
  | slotRetire => exact decodeSlotRetire_stays.map fun _ _ => by simp [Decoded.views]
  | pageRun => exact decodePageRun_stays.map fun _ _ => by simp [Decoded.views]
  | checkpointBegin => exact decodeCheckpointBegin_stays.map fun _ _ => by simp [Decoded.views]
  | checkpointEnd => exact decodeCheckpointEnd_stays.map fun _ _ => by simp [Decoded.views]
  | assertDrop => exact decodeAssertDrop_stays.map fun _ _ => by simp [Decoded.views]
  | heapWrite => exact decodeHeapWrite_stays.map fun _ h => by simpa [Decoded.views] using h
  | varHeapAppend => exact decodeVarHeapAppend_stays.map fun _ h => by simpa [Decoded.views] using h
  | indexInsert => exact decodeIndexInsert_stays.map fun _ h => by simpa [Decoded.views] using h
  | undoWrite => exact decodeUndoWrite_stays.map fun _ h => by simpa [Decoded.views] using h
  | fullPageImage => exact decodeFullPageImage_stays.map fun _ h => by simpa [Decoded.views] using h
  | assertEntry => exact decodeAssertEntry_stays.map fun _ h => by simpa [Decoded.views] using h
  | assertCommit => exact decodeAssertCommit_stays.map fun _ h => by simpa [Decoded.views] using h
  | assertRollback =>
    exact decodeAssertRollback_stays.map fun _ h => by simpa [Decoded.views] using h
  | assertSnapshot =>
    exact decodeAssertSnapshot_stays.map fun _ h => by simpa [Decoded.views] using h

/-- **The codecs.** An accepted payload is read back through any padding exactly when its dirty
    table names pages and its groups are as many as their count can say; and whatever the bytes,
    a decoder refuses them or answers views that lie within them. -/
theorem codecs_readBack_iff (outSize : Nat) (p : Payload) {bytes : Bytes}
    (h : p.encode outSize = .ok bytes) (kind : PayloadKind) (input : Bytes) :
    (∀ padding ≤ 7, (readBack p.kind (bytes ++ List.replicate padding 0) = .ok p.written ↔
      p.Recoverable)) ∧
    Stays (fun d => ∀ view ∈ d.views, view.Within input) (decode kind input) :=
  ⟨fun _ _ => readBack_encode h _, decode_stays kind input⟩

/-- A heap write of three bytes, in a record with one byte of padding. -/
def threeByteInsert : Payload := .heapWrite ⟨7, 9, 2, 0⟩ [10, 20, 30]

theorem codecs_readBack_threeBytes :
    ∃ bytes, threeByteInsert.encode 64 = .ok bytes ∧
      readBack .heapWrite (bytes ++ List.replicate 1 0) =
        .ok (.heapWrite ⟨7, 9, 2, 3⟩ [10, 20, 30]) := by
  refine ⟨_, rfl, ?_⟩
  exact ((codecs_readBack_iff 64 threeByteInsert rfl .heapWrite []).1 1 (by decide)).mpr trivial

/-- A dirty table that names the invalid page id is laid out, and refused when it is read. -/
theorem invalidPage_not_readBack :
    ∃ bytes, (Payload.checkpointBegin [] [⟨kInvalidPageId, 5⟩]).encode 64 = .ok bytes ∧
      readBack .checkpointBegin (bytes ++ List.replicate 0 0) ≠
        .ok (.checkpointBegin [] [⟨kInvalidPageId, 5⟩]) := by
  refine ⟨_, rfl, ?_⟩
  decide

end Kds.Wal.Codecs
