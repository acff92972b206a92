/-
  Kds.Wal.Manager

  The log as its writers see it (`src/wal/manager.cpp`): a full ring is drained on the appender's
  stack, and the gate syncs on its caller's.  A record's LSN is where its first byte lies, and the
  durable point is the end of what is durable, so a record is durable only below it.
-/

import Kds.Wal.Stream

namespace Kds.Wal

/-- `WalManager`: its stream, and how far the writer thread has synced (0 where there is none). -/
structure WalManager where
  stream : WalStream
  writerDurable : Nat

namespace WalManager

def appendedLsn (w : WalManager) : Nat := w.stream.appendLsn

def durableLsn (w : WalManager) : Nat := max w.stream.durableLsn w.writerDurable

/-- `WalDurability::IsDurable`. -/
def isDurable (w : WalManager) (lsn : Nat) : Bool := lsn < w.durableLsn

/-- `Append`, and the LSN of the record. -/
def append (w : WalManager) (entry : LogEntry) : WalManager × StatusOr Nat :=
  match w.stream.append entry with
  | .ok (stream, lsn) => ({ w with stream := stream }, .ok lsn)
  | .error e =>
    let left := w.stream.afterFailed entry
    if e.code = .outOfSpace then
      match left.flush with
      | .error e => ({ w with stream := left }, .error e)
      | .ok flushed =>
        match flushed.append entry with
        | .ok (stream, lsn) => ({ w with stream := stream }, .ok lsn)
        | .error e => ({ w with stream := flushed.afterFailed entry }, .error e)
    else ({ w with stream := left }, .error e)

/-- `Sync`, `failure` being what the log device answers to the sync. -/
def sync (w : WalManager) (failure : Option Status) : WalManager × Option Status :=
  match failure with
  | some e => (w, some e)
  | none =>
    match w.stream.sync with
    | .error e => (w, some e)
    | .ok stream => ({ w with stream := stream }, none)

/-- `EnsureDurable`: the record at `lsn`. -/
def ensureDurable (w : WalManager) (failure : Option Status) (lsn : Nat) :
    WalManager × Option Status :=
  if w.isDurable lsn then (w, none)
  else if w.appendedLsn ≤ lsn then
    (w, some (.invalidArgument ("WalManager: lsn " ++ toString lsn ++
      " is at or past the append point " ++ toString w.appendedLsn ++
      "; no such record was logged")))
  else w.sync failure

theorem durableLsn_sync {s s' : WalStream} (h : s.sync = .ok s') : s'.durableLsn = s.appendLsn := by
  unfold WalStream.sync at h
  obtain ⟨flushed, hflush, hout⟩ := bind_eq_ok.mp h
  cases hout
  unfold WalStream.flush at hflush
  by_cases hring : s.ring = []
  · rw [if_pos hring] at hflush
    cases hflush
    simp [WalStream.flushedLsn, hring]
  · rw [if_neg hring] at hflush
    obtain ⟨disk, -, hout⟩ := bind_eq_ok.mp hflush
    cases hout
    simp [WalStream.flushedLsn]

theorem lt_durableLsn_of_ensureDurable {w w' : WalManager} {failure : Option Status} {lsn : Nat}
    (h : w.ensureDurable failure lsn = (w', none)) : lsn < w'.durableLsn := by
  unfold ensureDurable at h
  by_cases hdurable : w.isDurable lsn = true
  · rw [if_pos hdurable] at h
    obtain ⟨rfl, -⟩ := Prod.mk.inj h
    exact of_decide_eq_true hdurable
  · rw [if_neg hdurable] at h
    by_cases hpast : w.appendedLsn ≤ lsn
    · rw [if_pos hpast] at h
      cases (Prod.mk.inj h).2
    · rw [if_neg hpast] at h
      unfold sync at h
      rcases failure with _ | e
      · dsimp only at h
        rcases hsync : w.stream.sync with e | stream
        · rw [hsync] at h
          cases (Prod.mk.inj h).2
        · rw [hsync] at h
          obtain ⟨rfl, -⟩ := Prod.mk.inj h
          have hend := durableLsn_sync hsync
          unfold appendedLsn at hpast
          unfold durableLsn
          dsimp only
          omega
      · cases (Prod.mk.inj h).2

end WalManager

end Kds.Wal
