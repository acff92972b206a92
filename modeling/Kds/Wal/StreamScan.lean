/-
  Kds.Wal.StreamScan

  Appending and scanning as inverses.  A stream that starts on an empty device is called any number
  of times, with records of any type; after a flush the scan hands out the records appended, exactly
  where none of them is typed PAD, the marker that the stream itself seals a segment with and the
  scan consumes.
-/

import Kds.Wal.StreamCrashRuns
import Mathlib.Data.List.Forall2

namespace Kds.Wal

open Lib List

-- What an append promises

namespace Appended

/-- What it takes in the log. -/
def size (a : Appended) : Nat := encodedRecordSize a.args.payload.length

/-- A scanned record is the one appended, its payload followed by zeroes. -/
structure ReadsAs (a : Appended) (r : DecodedRecord) : Prop where
  lsn : r.lsn = a.lsn
  type : r.header.type = a.args.spec.type.toRaw
  txnId : r.header.txnId = a.args.spec.txnId
  pageId : r.header.pageId = a.args.spec.pageId
  flags : r.header.flags = a.args.spec.flags
  payload : ∃ padding, r.payload = a.args.payload ++ List.replicate padding 0

/-- It lies in the body of the segment it starts in. -/
def InSegment (segmentSize : Nat) (a : Appended) : Prop :=
  a.lsn / segmentSize * segmentSize + segmentHeaderSize ≤ a.lsn ∧
    a.lsn + a.size ≤ a.lsn / segmentSize * segmentSize + segmentSize

theorem readsAs_record (a : Appended) : a.ReadsAs a.record :=
  ⟨rfl, rfl, rfl, rfl, rfl, _, rfl⟩

theorem nextLsn_record (a : Appended) : a.record.nextLsn = a.lsn + a.size := rfl

end Appended

/-- A flush of the stream succeeds, and then a scan of the log hands out exactly what was appended,
    in order, at increasing positions, none across the end of a segment. -/
def ScansBack (s : WalStream) (appended : List Appended) : Prop :=
  ∃ s' records, s.flush = .ok s' ∧ scanned s'.disk.content s'.coreId = .ok records ∧
    List.Forall₂ Appended.ReadsAs appended records ∧
    appended.Pairwise (fun a b => a.lsn < b.lsn) ∧
    ∀ a ∈ appended, a.InSegment s.segmentSize

-- What any scan hands out

section Scans

variable {dev : LogDevice} {coreId : Nat} {records : List DecodedRecord} {r : DecodedRecord}

theorem ScansBack.notPad {s : WalStream} {appended : List Appended} (h : ScansBack s appended)
    {a : Appended} (ha : a ∈ appended) : ¬ a.args.spec.IsPad := by
  obtain ⟨s', records, -, hscan, hreads, -, -⟩ := h
  obtain ⟨i, hi, rfl⟩ := mem_iff_getElem.mp ha
  have hi' : i < records.length := hreads.length_eq ▸ hi
  have hread := hreads.get hi hi'
  intro hpad
  refine scanned_notPad hscan (getElem_mem hi') ?_
  rw [DecodedRecord.type]
  exact (congrArg RecordType.ofRaw hread.type).trans hpad

end Scans

-- Runs without PADs

section Runs

variable {s s' : WalStream} {placed : List DecodedRecord} {appended : List Appended}

theorem Body.flush_ok {n : Nat} {bytes rest : Bytes} (h : Body s n bytes rest) :
    ∃ s', s.flush = .ok s' := by
  unfold WalStream.flush
  by_cases hring : s.ring = []
  · exact ⟨s, if_pos hring⟩
  · rw [if_neg hring]
    obtain ⟨block, written, after, -, -, -, hbytes, -, -⟩ := h.split
    have hroom := h.room
    obtain ⟨hdiv, hmod⟩ := h.flushedAt hbytes hring
    rw [hbytes, length_append] at hroom
    have hcount : s.disk.content.segmentCount = n + 1 := h.count
    have hsize : s.disk.content.segmentSize = s.segmentSize := rfl
    have hrange : LogDevice.checkSegmentRange n (segmentHeaderSize + written.length) s.ring.length
        s.disk.content.segmentCount s.disk.content.segmentSize = .ok () := by
      rw [LogDevice.checkSegmentRange, if_neg (by omega), if_neg (by omega)]
    rw [hdiv, hmod, LogDisk.writeAt, LogDevice.writeAt, hrange]
    exact ⟨_, rfl⟩

theorem AtWork.flush_ok (h : AtWork s placed) : ∃ s', s.flush = .ok s' := by
  rcases h with @⟨fronts, written, rest, onDisk, staged, -, htail, -, -, -, -⟩ |
    @⟨fronts, records, -, hsealed, -, -⟩
  · exact htail.body.flush_ok
  · exact ⟨s, if_pos hsealed.ring⟩

theorem AtWork.scanned (h : AtWork s placed) (hring : s.ring = []) :
    scanned s.disk.content s.coreId = .ok placed := by
  rcases h with @⟨fronts, written, rest, onDisk, staged, hgoes, htail, hblank, hwritten, -,
    hall⟩ | @⟨fronts, records, hgoes, hsealed, -, hall⟩
  · obtain ⟨read, hread, hrecords⟩ := Standing.readSegment (.inl ⟨_, htail⟩) hring
    have hzeros : rest = List.replicate rest.length 0 := by
      obtain ⟨block, written', after, hsegment, hblock, -, hbytes, -, hrest⟩ := htail.body.split
      obtain rfl : written' = written := (append_cancel_right hbytes).symm
      rw [hring, length_nil, drop_zero] at hrest
      have hbody : bodyOf s.disk.content fronts.length = written' ++ after := by
        rw [bodyOf, hsegment, drop_left' hblock]
      refine eq_replicate_iff.mpr ⟨rfl, fun b hb => ?_⟩
      rw [hrest] at hb
      exact hblank.after (htail.body.flushedLsn rfl) hbody b hb
    rw [hzeros, readRecords_zeros, append_nil] at hrecords
    have hlarge := htail.body.size
    have hsize : s.disk.content.segmentSize = s.segmentSize := rfl
    rw [hgoes.scanned (by omega) htail.body.count hread, hrecords, hall]
  · obtain ⟨read, hread, hrecords, -⟩ := hsealed.goes
    have hlarge := hsealed.size
    have hsize : s.disk.content.segmentSize = s.segmentSize := rfl
    rw [hgoes.scanned (by omega) hsealed.count hread, hrecords, hall]

theorem AtWork.scansBack (h : AtWork s (appended.map Appended.record)) (hsafe : Safe s) :
    ScansBack s appended := by
  obtain ⟨s', hflush⟩ := h.flush_ok
  obtain ⟨hwent, hring⟩ := h.flush hsafe hflush
  have hscan := hwent.work.scanned hring
  refine ⟨s', _, hflush, hscan, ?_, ?_, ?_⟩
  · rw [List.forall₂_map_right_iff]
    exact List.forall₂_same.mpr fun a _ => a.readsAs_record
  · rcases exists_stream hscan with hnil | ⟨remaining, e, hstream⟩
    · rw [map_eq_nil_iff.mp hnil]
      exact .nil
    · have hsorted := pairwise_map.mp (streamRecords_sorted hstream)
      refine hsorted.imp_of_mem fun {a b} ha _ hbefore => ?_
      obtain ⟨-, k, -, hnonempty, -⟩ := streamRecords_each hstream (Nat.le_refl _)
        (mem_map_of_mem ha)
      exact Nat.lt_of_lt_of_le hnonempty hbefore
  · intro a ha
    rcases exists_stream hscan with hnil | ⟨remaining, e, hstream⟩
    · rw [map_eq_nil_iff.mp hnil] at ha
      cases ha
    · obtain ⟨-, k, hstart, hnonempty, hstop⟩ := streamRecords_each hstream (Nat.le_refl _)
        (mem_map_of_mem ha)
      have hsize : s'.disk.content.segmentSize = s.segmentSize := hwent.size
      rw [hsize] at hstart hstop
      have hlsn : a.record.lsn = a.lsn := rfl
      rw [a.nextLsn_record] at hnonempty hstop
      rw [hlsn] at hstart hnonempty
      have hk : a.lsn / s.segmentSize = k := by
        refine Nat.div_eq_of_lt_le (by omega) ?_
        rw [Nat.succ_mul]
        omega
      rw [Appended.InSegment, hk]
      exact ⟨hstart, hstop⟩

end Runs

-- Appending and scanning

/-- **Appending and scanning are inverse**: whatever the segment size and the ring a stream opens
    with on an empty device, and whatever calls are made, a final flush succeeds and the scan hands
    out exactly the records appended, if and only if none of them is typed PAD. -/
theorem scansBack_iff {dev : LogDevice} {coreId ringCapacity : Nat} {s₀ : WalStream}
    (hempty : dev.segments = []) (hcore : coreId < 2 ^ 32)
    (hopen : WalStream.openOn dev coreId ringCapacity = .ok s₀) (calls : List StreamOp) :
    ScansBack (s₀.makeAll calls).1 (s₀.makeAll calls).2 ↔
      ∀ a ∈ (s₀.makeAll calls).2, ¬ a.args.spec.IsPad := by
  refine ⟨fun h a ha => h.notPad ha, fun hnone => ?_⟩
  obtain ⟨hnow, hsafe, rfl, -, -⟩ := AtWork.of_open hempty hcore hopen
  obtain ⟨hnow', hsafe', -, -⟩ := hnow.makeAll hsafe hcore hnone
  rw [nil_append] at hnow'
  exact hnow'.scansBack hsafe'

theorem noPage_lt : invalidPageId < 2 ^ 32 := by decide

theorem noFlags_lt : 0 < 2 ^ 8 := by decide

def beginArgs : LogEntry where
  spec := { type := .txnBegin, txnId := 9 }
  payload := [1, 2, 3]
  pageId_lt := noPage_lt
  flags_lt := noFlags_lt

/-- The seal marker, appended by a caller. -/
def padArgs : LogEntry where
  spec := { type := .pad }
  payload := []
  pageId_lt := noPage_lt
  flags_lt := noFlags_lt

/-- Three records, each in a segment of its own. -/
theorem scansBack_begins : ∃ s₀, WalStream.openOn emptyDevice 0 kMinRingCapacity = .ok s₀ ∧
    (s₀.makeAll (List.replicate 3 (.append beginArgs))).2.length = 3 ∧
    ScansBack (s₀.makeAll (List.replicate 3 (.append beginArgs))).1
      (s₀.makeAll (List.replicate 3 (.append beginArgs))).2 := by
  have hfacts : (WalStream.openOn emptyDevice 0 kMinRingCapacity).toOption.any (fun s₀ =>
      decide ((s₀.makeAll (List.replicate 3 (.append beginArgs))).2.length = 3 ∧
        ∀ a ∈ (s₀.makeAll (List.replicate 3 (.append beginArgs))).2, ¬ a.args.spec.IsPad)) =
      true := by
    decide +kernel
  rcases hopen : WalStream.openOn emptyDevice 0 kMinRingCapacity with e | s₀
  · rw [hopen] at hfacts
    cases hfacts
  · rw [hopen, Except.toOption, Option.any_some, decide_eq_true_eq] at hfacts
    obtain ⟨hthree, hnone⟩ := hfacts
    exact ⟨s₀, rfl, hthree, (scansBack_iff rfl (by decide) hopen _).mpr hnone⟩

/-- An append of a PAD is answered with its LSN, and no scan hands it out. -/
theorem pad_not_scanned : ∃ s₀, WalStream.openOn emptyDevice 0 kMinRingCapacity = .ok s₀ ∧
    (s₀.makeAll [.append padArgs]).2.map Appended.lsn = [4096] ∧
    ¬ ScansBack (s₀.makeAll [.append padArgs]).1 (s₀.makeAll [.append padArgs]).2 := by
  have hfacts : (WalStream.openOn emptyDevice 0 kMinRingCapacity).toOption.any (fun s₀ =>
      decide ((s₀.makeAll [.append padArgs]).2.map Appended.lsn = [4096] ∧
        ∃ a ∈ (s₀.makeAll [.append padArgs]).2, a.args.spec.IsPad)) = true := by
    decide +kernel
  rcases hopen : WalStream.openOn emptyDevice 0 kMinRingCapacity with e | s₀
  · rw [hopen] at hfacts
    cases hfacts
  · rw [hopen, Except.toOption, Option.any_some, decide_eq_true_eq] at hfacts
    obtain ⟨hlsn, a, ha, hpad⟩ := hfacts
    exact ⟨s₀, rfl, hlsn, fun h => h.notPad ha hpad⟩

end Kds.Wal
