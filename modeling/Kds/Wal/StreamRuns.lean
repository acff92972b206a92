/-
  Kds.Wal.StreamRuns

  A stream that is reopened and appended to, against a scan of its log: the scan hands out what it
  handed out before and then the new records, unless the segment the stream was opened on still
  holds, right behind the new records, one that reads as a record of the stream.
-/

import Kds.Wal.StreamTail

namespace Kds.Wal

open Lib List

-- Scans over segments that go on

section Scans

variable {dev dev' : LogDevice} {coreId k : Nat}

/-- Segments one after another that a scan passes over, and the records it finds in each. -/
def Fronts (dev : LogDevice) (coreId : Nat) : Nat → List (List DecodedRecord) → Prop
  | _, [] => True
  | k, records :: later => SegmentGoes dev coreId k records ∧ Fronts dev coreId (k + 1) later

theorem Fronts.append {fronts later : List (List DecodedRecord)} (h : Fronts dev coreId k fronts)
    (hlater : Fronts dev coreId (k + fronts.length) later) :
    Fronts dev coreId k (fronts ++ later) := by
  induction fronts generalizing k with
  | nil => exact hlater
  | cons records fronts ih =>
    rw [length_cons, Nat.add_comm fronts.length, ← Nat.add_assoc] at hlater
    exact ⟨h.1, ih h.2 hlater⟩

variable {fronts : List (List DecodedRecord)} {read : SegmentRead} {records : List DecodedRecord}
    {remaining : Nat}

theorem Fronts.same (h : Fronts dev coreId k fronts)
    (hsame : ∀ i, i < k + fronts.length → SameSegment dev dev' i) :
    Fronts dev' coreId k fronts := by
  induction fronts generalizing k with
  | nil => exact trivial
  | cons records fronts ih =>
    refine ⟨(hsame k ?_).goes h.1, ih h.2 fun i hi => hsame i ?_⟩
    · rw [length_cons]
      omega
    · rw [length_cons]
      omega

theorem exists_fronts {n : Nat}
    (h : ∀ i, k ≤ i → i < k + n → ∃ records, SegmentGoes dev coreId i records) :
    ∃ fronts, fronts.length = n ∧ Fronts dev coreId k fronts := by
  induction n generalizing k with
  | zero => exact ⟨[], rfl, trivial⟩
  | succ n ih =>
    obtain ⟨records, hgoes⟩ := h k (Nat.le_refl k) (by omega)
    obtain ⟨fronts, hlength, hfronts⟩ := @ih (k + 1) fun i hi hlt => h i (by omega) (by omega)
    exact ⟨records :: fronts, by rw [length_cons, hlength], hgoes, hfronts⟩

theorem SegmentGoes.goesOn (h : SegmentGoes dev coreId k records)
    (hread : readSegment dev coreId k segmentHeaderSize = .ok read)
    (hk : k + 1 < dev.segmentCount) :
    Wal.goesOn dev k segmentHeaderSize read ∧ read.records = records := by
  obtain ⟨read', hread', hrecords, hend⟩ := h
  cases hread.symm.trans hread'
  exact ⟨⟨hk, hend⟩, hrecords⟩

theorem Fronts.streamRecords (h : Fronts dev coreId k fronts)
    (hcount : k + fronts.length + (remaining + 1) = dev.segmentCount) :
    Wal.streamRecords dev coreId (fronts.length + (remaining + 1)) k segmentHeaderSize =
      (Wal.streamRecords dev coreId (remaining + 1) (k + fronts.length) segmentHeaderSize).map
        fun out => (fronts.flatten ++ out.1, out.2) := by
  induction fronts generalizing k with
  | nil =>
    rw [length_nil, Nat.zero_add, Nat.add_zero]
    rcases Wal.streamRecords dev coreId (remaining + 1) k segmentHeaderSize with e | out
    · rfl
    · rfl
  | cons records fronts ih =>
    rw [length_cons] at hcount ⊢
    obtain ⟨hgoes, hlater⟩ := h
    obtain ⟨read, hread, -⟩ := id hgoes
    obtain ⟨hgo, hrecords⟩ := hgoes.goesOn hread (by omega)
    have hrest := ih hlater (by omega)
    have hfuel : fronts.length + 1 + (remaining + 1) = fronts.length + (remaining + 1) + 1 := by
      omega
    have hstart : k + (fronts.length + 1) = k + 1 + fronts.length := by omega
    rw [hfuel, Wal.streamRecords, hread]
    show ite _ _ _ = _
    rw [if_pos hgo, hrest, hstart, hrecords]
    rcases Wal.streamRecords dev coreId (remaining + 1) (k + 1 + fronts.length)
      segmentHeaderSize with e | out
    · rfl
    · rw [flatten_cons, Except.map, Except.map, append_assoc]
      rfl

theorem streamRecords_succ (dev : LogDevice) (remaining : Nat) :
    streamRecords dev coreId (remaining + 1) k segmentHeaderSize =
      readSegment dev coreId k segmentHeaderSize >>= fun read =>
        if goesOn dev k segmentHeaderSize read then
          streamRecords dev coreId remaining (k + 1) segmentHeaderSize >>= fun out =>
            .ok (read.records ++ out.1, out.2)
        else .ok (read.records, endIn dev k segmentHeaderSize read) := rfl

theorem streamRecords_stops {remaining' n : Nat} (hsame : ∀ i, i < n → SameSegment dev dev' i)
    (hstop : ∃ i, k ≤ i ∧ i < n ∧ ¬ ∃ records, SegmentGoes dev coreId i records)
    (hn : n < dev.segmentCount) (hn' : n < dev'.segmentCount)
    (hcount : k + (remaining + 1) = dev.segmentCount)
    (hcount' : k + (remaining' + 1) = dev'.segmentCount) :
    streamRecords dev' coreId (remaining' + 1) k segmentHeaderSize =
      streamRecords dev coreId (remaining + 1) k segmentHeaderSize := by
  obtain ⟨i, hki, hin, hnot⟩ := hstop
  induction remaining generalizing k remaining' with
  | zero => omega
  | succ remaining ih =>
    obtain ⟨remaining', rfl⟩ : ∃ m, remaining' = m + 1 := ⟨remaining' - 1, by omega⟩
    have hseg := hsame k (by omega)
    rw [streamRecords_succ dev', streamRecords_succ dev, hseg.readSegment]
    rcases hread : readSegment dev coreId k segmentHeaderSize with e | read
    · rfl
    · have hiff : goesOn dev' k segmentHeaderSize read ↔ goesOn dev k segmentHeaderSize read := by
        unfold goesOn
        rw [hseg.size]
        constructor
        · exact fun h => ⟨by omega, h.2⟩
        · exact fun h => ⟨by omega, h.2⟩
      show ite _ _ _ = ite _ _ _
      by_cases hgo : goesOn dev k segmentHeaderSize read
      · have hne : k ≠ i := by
          rintro rfl
          exact hnot ⟨read.records, read, hread, rfl, hgo.2⟩
        rw [if_pos hgo, if_pos (hiff.mpr hgo),
          @ih (k + 1) remaining' (by omega) (by omega) (by omega)]
      · rw [if_neg hgo, if_neg (hiff.not.mpr hgo)]
        unfold endIn
        rw [hseg.size]

theorem scanned_eq_ok (hsize : segmentHeaderSize < dev.segmentSize)
    (hcount : dev.segmentCount = remaining + 1) :
    scanned dev coreId = .ok records ↔
      ∃ e, streamRecords dev coreId (remaining + 1) 0 segmentHeaderSize = .ok (records, e) := by
  have hfrom : ScansFrom dev 0 0 segmentHeaderSize remaining :=
    ⟨hsize, by omega, Nat.le_refl _, rfl, rfl, rfl⟩
  unfold scanned
  rw [hfrom.scanLog_eq]
  constructor
  · intro h
    rcases hscan : scanSegments dev coreId (fun records r => .ok (records ++ [r]))
        segmentHeaderSize (List.range' 0 (remaining + 1))
        { lastSegment := 0, endLsn := 0 * dev.segmentSize + segmentHeaderSize }
          [] with e | ⟨out, found⟩
    · rw [hscan] at h
      cases h
    · rw [hscan] at h
      obtain ⟨records', hstream, hfold⟩ := (scanSegments_eq_ok hfrom.count).mp ⟨out, hscan, rfl⟩
      rw [foldlM_collect, nil_append] at hfold
      obtain rfl := Except.ok.inj hfold
      have hfound : records' = records := Except.ok.inj h
      exact ⟨out.endLsn, hfound ▸ hstream⟩
  · rintro ⟨e, hstream⟩
    obtain ⟨out, hscan, -⟩ := (scanSegments_eq_ok hfrom.count).mpr
      ⟨records, hstream, foldlM_collect records []⟩
    rw [hscan]
    rfl

theorem Fronts.scanned (h : Fronts dev coreId 0 fronts)
    (hsize : segmentHeaderSize < dev.segmentSize) (hcount : dev.segmentCount = fronts.length + 1)
    (hread : readSegment dev coreId fronts.length segmentHeaderSize = .ok read) :
    Wal.scanned dev coreId = .ok (fronts.flatten ++ read.records) := by
  have hlast : ¬ Wal.goesOn dev fronts.length segmentHeaderSize read := by
    intro hgo
    have hlt := hgo.1
    omega
  have hone : Wal.streamRecords dev coreId (0 + 1) (0 + fronts.length) segmentHeaderSize =
      .ok (read.records, endIn dev fronts.length segmentHeaderSize read) := by
    rw [Nat.zero_add fronts.length, Wal.streamRecords, hread]
    show ite _ _ _ = _
    rw [if_neg hlast]
  have hstream := h.streamRecords (show 0 + fronts.length + (0 + 1) = dev.segmentCount by omega)
  rw [hone] at hstream
  exact (scanned_eq_ok hsize hcount).mpr ⟨_, hstream⟩

end Scans

-- What any scan hands out

section Found

variable {dev : LogDevice} {coreId : Nat} {records : List DecodedRecord} {r : DecodedRecord}

theorem readRecords_notPad {fuel : Nat} {reader : RecordReader}
    (hr : r ∈ (readRecords fuel reader).records) : r.type ≠ .pad := by
  induction fuel generalizing reader with
  | zero => cases hr
  | succ fuel ih =>
    rcases readRecords_cases fuel reader with hnone | ⟨record, reader', -, hne, hread⟩
    · rw [hnone] at hr
      cases hr
    · rw [hread] at hr
      rcases mem_cons.mp hr with rfl | hlater
      · exact hne
      · exact ih hlater

theorem streamRecords_each {remaining segmentNo bodyOffset e : Nat}
    (h : streamRecords dev coreId remaining segmentNo bodyOffset = .ok (records, e))
    (hheader : segmentHeaderSize ≤ bodyOffset) (hr : r ∈ records) :
    r.type ≠ .pad ∧ ∃ k, k * dev.segmentSize + segmentHeaderSize ≤ r.lsn ∧
      r.lsn < r.nextLsn ∧ r.nextLsn ≤ k * dev.segmentSize + dev.segmentSize := by
  induction remaining generalizing segmentNo bodyOffset records with
  | zero =>
    obtain ⟨rfl, -⟩ := Prod.mk.inj (Except.ok.inj h)
    cases hr
  | succ remaining ih =>
    have hhere : ∀ read, readSegment dev coreId segmentNo bodyOffset = .ok read →
        r ∈ read.records → r.type ≠ .pad ∧ ∃ k, k * dev.segmentSize + segmentHeaderSize ≤ r.lsn ∧
          r.lsn < r.nextLsn ∧ r.nextLsn ≤ k * dev.segmentSize + dev.segmentSize := by
      intro read hread hmem
      obtain ⟨hstart, -, hnonempty, hstop⟩ := readSegment_within hread hmem
      obtain ⟨-, -, -, rfl⟩ := readSegment_eq_ok.mp hread
      exact ⟨readRecords_notPad hmem, segmentNo, by omega, hnonempty, hstop⟩
    obtain ⟨read, hread, ⟨later, -, hlater, rfl⟩ | ⟨-, rfl, -⟩⟩ := streamRecords_cases h
    · rcases mem_append.mp hr with hfirst | hrest
      · exact hhere read hread hfirst
      · exact ih hlater (Nat.le_refl _) hrest
    · exact hhere read hread hr

theorem exists_stream (h : scanned dev coreId = .ok records) :
    records = [] ∨ ∃ remaining e,
      streamRecords dev coreId (remaining + 1) 0 segmentHeaderSize = .ok (records, e) := by
  by_cases hcount : dev.segmentCount = 0
  · rw [scanned, scanLog] at h
    by_cases hsize : dev.segmentSize ≤ segmentHeaderSize
    · rw [if_pos hsize] at h
      cases h
    · rw [if_neg hsize, if_pos hcount] at h
      exact .inl (Except.ok.inj h).symm
  · by_cases hsize : dev.segmentSize ≤ segmentHeaderSize
    · rw [scanned, scanLog, if_pos hsize] at h
      cases h
    · have hone : dev.segmentCount = dev.segmentCount - 1 + 1 := by omega
      exact .inr ⟨_, (scanned_eq_ok (Nat.not_le.mp hsize) hone).mp h⟩

theorem scanned_notPad (h : scanned dev coreId = .ok records) (hr : r ∈ records) :
    r.type ≠ .pad := by
  rcases exists_stream h with rfl | ⟨remaining, e, hstream⟩
  · cases hr
  · exact (streamRecords_each hstream (Nat.le_refl _) hr).1

end Found

-- Opening

section Opening

variable {dev : LogDevice} {coreId ringCapacity n : Nat} {rest : Bytes}
  {records : List DecodedRecord} {s s' : WalStream}

/-- What the last segment of a device holds from a position on. -/
def leftover (dev : LogDevice) (lsn : Nat) : Bytes :=
  (dev.segments.getD (dev.segmentCount - 1) []).drop
    (lsn - (dev.segmentCount - 1) * dev.segmentSize)

/-- The last segment holds, at a position, what reads as a record of the stream. -/
def Resurfaces (dev : LogDevice) (lsn : Nat) : Prop :=
  ∃ r, (RecordReader.next ⟨leftover dev lsn, lsn, false⟩).1 = some r ∧ r.type ≠ .pad

theorem readRecords_nil (fuel pos : Nat) (early : Bool) :
    (readRecords fuel ⟨[], pos, early⟩).records = [] := readRecords_zeros 0 pos early fuel

theorem readRecords_ne_nil (fuel : Nat) (reader : RecordReader) :
    (readRecords (fuel + 1) reader).records ≠ [] ↔
      ∃ r, reader.next.1 = some r ∧ r.type ≠ .pad := by
  rw [readRecords]
  rcases reader.next with ⟨_ | r, reader'⟩
  · refine iff_of_false (fun h => h rfl) ?_
    rintro ⟨r, hr, -⟩
    cases hr
  · dsimp only
    by_cases hpad : r.type = .pad
    · rw [if_pos hpad]
      refine iff_of_false (fun h => h rfl) ?_
      rintro ⟨r', hr, hne⟩
      rw [← Option.some.inj hr] at hne
      exact hne hpad
    · rw [if_neg hpad]
      exact iff_of_true (cons_ne_nil _ _) ⟨r, rfl, hpad⟩

/-- A stream that was opened on a device: its current segment, the records found there, and what
    lies behind them. -/
structure Opened (dev : LogDevice) (s : WalStream) (n : Nat) (rest : Bytes)
    (records : List DecodedRecord) : Prop where
  size : segmentHeaderSize + recordHeaderSize < dev.segmentSize
  sameSize : s.segmentSize = dev.segmentSize
  last : n = dev.segmentCount - 1
  standing : Standing s n rest records
  same : ∀ k, k < n → SameSegment dev s.disk.content k
  found : (dev.segmentCount = 0 ∧ records = []) ∨ (dev.segmentCount = n + 1 ∧
    ∃ read, readSegment dev s.coreId n segmentHeaderSize = .ok read ∧ read.records = records)
  start : s.appendLsn + rest.length = n * s.segmentSize + s.segmentSize
  stops : (readRecords (rest.length + 1) ⟨rest, s.appendLsn, false⟩).records = []
  beyond : ∀ t, Resurfaces dev (s.appendLsn + t) ↔
    (readRecords ((rest.drop t).length + 1) ⟨rest.drop t, s.appendLsn + t, false⟩).records ≠ []

theorem Opened.of_scanTail {t : WalStream}
    (ht : t = ⟨coreId, ringCapacity, ⟨dev, dev, []⟩, [], 0, 0, false⟩)
    (hsize : segmentHeaderSize + recordHeaderSize < dev.segmentSize)
    (hcount : dev.segmentCount = n + 1) (hs : t.scanTail n = .ok s) :
    ∃ rest records, Opened dev { s with durableLsn := s.appendLsn } n rest records := by
  obtain ⟨read, hread, hs⟩ := bind_eq_ok.mp hs
  cases hs
  subst ht
  dsimp only at hread
  have hlast : n = dev.segmentCount - 1 := by omega
  have hsame : ∀ k, k < n → SameSegment dev dev k := fun k hk => ⟨rfl, by omega, by omega, rfl⟩
  have hlength : (dev.segments.getD n []).length = dev.segmentSize := segment_length (by omega)
  have hlarge : (WalStream.segmentSize
    ⟨coreId, ringCapacity, ⟨dev, dev, []⟩, [], 0, 0, false⟩) = dev.segmentSize := rfl
  have hleft : ∀ lsn, n * dev.segmentSize ≤ lsn →
      leftover dev lsn = (dev.segments.getD n []).drop (lsn - n * dev.segmentSize) := by
    intro lsn hlsn
    unfold leftover
    rw [← hlast]
  rw [hlarge]
  by_cases hsealed : read.sealed = true
  · rw [if_pos hsealed]
    refine ⟨[], read.records, hsize, rfl, hlast, .inr ⟨⟨hcount, hsize, ⟨read, hread, rfl, ?_⟩, rfl,
      hsealed⟩, rfl⟩, hsame, .inr ⟨hcount, read, hread, rfl⟩, rfl, readRecords_nil _ _ _,
      fun t => ?_⟩
    · intro hfalse
      rw [hsealed] at hfalse
      cases hfalse
    · unfold Resurfaces
      dsimp only
      rw [readRecords_ne_nil, hleft _ (by omega), drop_eq_nil_of_le (by omega), drop_nil]
  · rw [if_neg hsealed]
    obtain ⟨⟨header, hheader⟩, -, -, hwalk⟩ := readSegment_eq_ok.mp hread
    obtain ⟨block, hblock, hvalid⟩ := bind_eq_ok.mp hheader
    obtain ⟨-, -, -, rfl⟩ := readAt_eq_ok.mp hblock
    obtain ⟨bytes, rest, hbody, hspells, hstop⟩ := readRecords_spells
      ((dev.segments.getD n []).drop segmentHeaderSize)
      (n * dev.segmentSize + segmentHeaderSize)
        false (show _ < dev.segmentSize - segmentHeaderSize + 1 by
        rw [length_drop]
        omega)
    have hread' : readRecords (dev.segmentSize - segmentHeaderSize + 1)
        ⟨(dev.segments.getD n []).drop segmentHeaderSize,
          n * dev.segmentSize + segmentHeaderSize, false⟩ = read := hwalk.symm
    rw [hread'] at hspells hstop
    have hend := hspells.recordsEnd
    have hroom : dev.segmentSize - segmentHeaderSize = bytes.length + rest.length := by
      have hcut := congrArg List.length hbody
      rw [length_drop, length_append] at hcut
      omega
    rw [hend]
    refine ⟨rest, read.records, hsize, rfl, hlast, .inl ⟨bytes, ⟨⟨hcount, hsize, ?_, rfl⟩, hspells,
      (Bool.not_eq_true _).mp hsealed⟩⟩, hsame, .inr ⟨hcount, read, hread, rfl⟩, ?_, ?_,
        fun t => ?_⟩
    · refine ⟨(dev.segments.getD n []).take segmentHeaderSize, bytes, rest, ?_, ?_, ⟨header, ?_⟩,
        (append_nil _).symm, Nat.zero_le _, drop_zero.symm⟩
      · dsimp only
        rw [← hbody, take_append_drop]
      · rw [length_take]
        omega
      · rw [drop_zero] at hvalid
        exact hvalid
    · show n * dev.segmentSize + segmentHeaderSize + bytes.length + rest.length =
        n * dev.segmentSize + dev.segmentSize
      omega
    · dsimp only
      rw [hstop]
    · unfold Resurfaces
      dsimp only
      have hcut : n * dev.segmentSize + segmentHeaderSize + bytes.length + t - n * dev.segmentSize =
          segmentHeaderSize + (bytes.length + t) := by omega
      rw [readRecords_ne_nil, hleft _ (by omega), hcut, ← drop_drop, hbody, ← drop_drop,
        drop_left]

theorem Opened.of_open (hcore : coreId < 2 ^ 32) (hs : WalStream.openOn dev coreId ringCapacity =
    .ok s) :
    ∃ n rest records, Opened dev s n rest records ∧ s.coreId = coreId ∧ s.ring = [] := by
  unfold WalStream.openOn at hs
  by_cases hring : ringCapacity < kMinRingCapacity
  · rw [if_pos hring] at hs
    cases hs
  rw [if_neg hring] at hs
  by_cases hsize : dev.segmentSize ≤ segmentHeaderSize + recordHeaderSize
  · rw [if_pos hsize] at hs
    cases hs
  rw [if_neg hsize] at hs
  by_cases halign : dev.segmentSize % recordAlignment ≠ 0
  · rw [if_pos halign] at hs
    cases hs
  rw [if_neg halign] at hs
  obtain ⟨s1, hstart, hs⟩ := bind_eq_ok.mp hs
  cases hs
  have hlarge : segmentHeaderSize + recordHeaderSize < dev.segmentSize := Nat.not_le.mp hsize
  by_cases hcount : dev.segmentCount = 0
  · -- the first segment is created
    rw [if_pos hcount] at hstart
    obtain ⟨htail, hkept⟩ := @startSegment_eq_ok
      ⟨coreId, ringCapacity, ⟨dev, dev, []⟩, [], 0, 0, false⟩ _ 0 hcount hlarge hcore hstart
    have hsame : s1.segmentSize = dev.segmentSize := hkept.size
    have hzeros : WalStream.segmentSize ⟨coreId, ringCapacity, ⟨dev, dev, []⟩, [], 0, 0, false⟩ =
      dev.segmentSize := rfl
    rw [hzeros] at htail
    have hring : s1.ring = [] := by
      obtain ⟨block, written, after, -, -, -, hnil, -, -⟩ := htail.body.split
      exact (append_eq_nil_iff.mp hnil.symm).2
    refine ⟨0, _, [], ⟨hlarge, hsame, by omega, .inl ⟨[], ⟨⟨htail.body.count, htail.body.size,
      htail.body.split, htail.body.append⟩, htail.spells, htail.unsealed⟩⟩, fun k hk => ?_,
      .inl ⟨hcount, rfl⟩, ?_, readRecords_zeros _ _ _ _, fun t => ?_⟩, hkept.coreId, hring⟩
    · omega
    · have hroom := htail.body.room
      have happend := htail.body.append
      show s1.appendLsn + _ = 0 * s1.segmentSize + s1.segmentSize
      omega
    · have hnone : leftover dev (s1.appendLsn + t) = [] := by
        have hnil : dev.segments = [] := eq_nil_of_length_eq_zero hcount
        unfold leftover
        rw [hnil]
        exact drop_nil
      unfold Resurfaces
      dsimp only
      rw [hnone, drop_replicate, readRecords_zeros]
      refine iff_of_false ?_ fun h => h rfl
      rintro ⟨r, hr, -⟩
      cases hr
  · -- the last segment is read
    rw [if_neg hcount] at hstart
    have hlast : dev.segmentCount = dev.segmentCount - 1 + 1 := by omega
    obtain ⟨rest, records, hopened⟩ := Opened.of_scanTail rfl hlarge hlast hstart
    obtain ⟨read, -, hs1⟩ := bind_eq_ok.mp hstart
    cases hs1
    exact ⟨_, rest, records, hopened, rfl, rfl⟩

end Opening

-- Runs

/-- What a call asks room for in the log. -/
def StreamOp.size : StreamOp → Nat
  | .append entry => entry.size
  | .flush => 0
  | .sync => 0

def appendedSize (ops : List StreamOp) : Nat := (ops.map StreamOp.size).sum

/-- No call appends a PAD. -/
def NoPad (ops : List StreamOp) : Prop := ∀ entry, .append entry ∈ ops → ¬ entry.spec.IsPad

/-- What records take in the log. -/
def placedSize (records : List DecodedRecord) : Nat := (records.map (·.header.totalLen)).sum

/-- Where the calls of an opened stream have brought it: the records placed so far are in the
    segment it was opened on, or have gone on into later ones. -/
inductive Reached (s₀ : WalStream) (n : Nat) (rest : Bytes) (records : List DecodedRecord)
    (s : WalStream) (placed : List DecodedRecord) : Prop where
  | here (kept : Kept s₀ s n) (fits : placedSize placed ≤ rest.length)
      (standing : Standing s n (rest.drop (placedSize placed)) (records ++ placed))
  | moved {fronts : List (List DecodedRecord)} {current : List DecodedRecord} {count : Nat}
      (kept : Kept s₀ s n) (full : rest.length < placedSize placed)
      (fronts_ne : fronts ≠ []) (goes : Fronts s.disk.content s.coreId n fronts)
      (standing : Standing s (n + fronts.length) (List.replicate count 0) current)
      (all : fronts.flatten ++ current = records ++ placed)

section Runs

variable {s₀ s s' : WalStream} {n : Nat} {rest : Bytes} {records placed more : List DecodedRecord}

theorem placedSize_append (records more : List DecodedRecord) :
    placedSize (records ++ more) = placedSize records + placedSize more := by
  unfold placedSize
  rw [map_append, sum_append]

theorem placedSize_recordOf (entry : LogEntry) (lsn : Nat) :
    placedSize [recordOf entry.spec lsn entry.payload] = entry.size := rfl

theorem Reached.kept (h : Reached s₀ n rest records s placed) : Kept s₀ s n := by
  rcases h with ⟨hkept, -, -⟩ | ⟨hkept, -, -, -, -, -⟩
  · exact hkept
  · exact hkept

theorem Reached.still (h : Reached s₀ n rest records s placed)
    (hstep : ∀ m rest' current, Standing s m rest' current →
      Standing s' m rest' current ∧ Kept s s' m) : Reached s₀ n rest records s' placed := by
  rcases h with ⟨hkept, hfits, hstanding⟩ | @⟨fronts, current, count, hkept, hfull, hne, hgoes,
    hstanding, hall⟩
  · obtain ⟨hstanding', hkept'⟩ := hstep _ _ _ hstanding
    exact .here (hkept.trans hkept' (Nat.le_refl n)) hfits hstanding'
  · obtain ⟨hstanding', hkept'⟩ := hstep _ _ _ hstanding
    have hgoes' := hgoes.same hkept'.same
    rw [← hkept'.coreId] at hgoes'
    exact .moved (hkept.trans hkept' (Nat.le_add_right n _)) hfull hne hgoes' hstanding' hall

theorem Reached.append (h : Reached s₀ n rest records s placed) (hcore : s₀.coreId < 2 ^ 32)
    {entry : LogEntry} (hpad : ¬ entry.spec.IsPad) {lsn : Nat}
    (hs : s.append entry = .ok (s', lsn)) :
    Reached s₀ n rest records s' (placed ++ [recordOf entry.spec lsn entry.payload]) := by
  have hcore' : s.coreId < 2 ^ 32 := lt_of_eq_of_lt h.kept.coreId hcore
  have hsize : placedSize (placed ++ [recordOf entry.spec lsn entry.payload]) =
      placedSize placed + entry.size := by
    rw [placedSize_append, placedSize_recordOf]
  rcases h with ⟨hkept, hfits, hstanding⟩ | @⟨fronts, current, count, hkept, hfull, hne, hgoes,
    hstanding, hall⟩
  · obtain ⟨hroom, hkept', hstanding'⟩ | ⟨hfull, hkept', hgoes, count, hstanding'⟩ :=
      hstanding.append hcore' hpad hs
    · rw [length_drop] at hroom
      rw [drop_drop, append_assoc, ← hsize] at hstanding'
      exact .here (hkept.trans hkept' (Nat.le_refl n)) (by omega) hstanding'
    · rw [length_drop] at hfull
      refine .moved (hkept.trans hkept' (Nat.le_refl n)) (by omega) (cons_ne_nil _ [])
        ⟨hgoes, trivial⟩ hstanding' ?_
      rw [flatten_cons, flatten_nil, append_nil, append_assoc]
  · obtain ⟨-, hkept', hstanding'⟩ | ⟨-, hkept', hgoes', count', hstanding'⟩ :=
      hstanding.append hcore' hpad hs
    · have hfronts := hgoes.same hkept'.same
      rw [← hkept'.coreId] at hfronts
      rw [drop_replicate] at hstanding'
      refine .moved (hkept.trans hkept' (Nat.le_add_right n _)) (by omega) hne hfronts hstanding' ?_
      rw [← append_assoc, hall, append_assoc]
    · have hfronts := hgoes.same hkept'.same
      rw [← hkept'.coreId] at hfronts
      have hlonger : Fronts s'.disk.content s'.coreId n (fronts ++ [current]) :=
        hfronts.append ⟨hgoes', trivial⟩
      have hlength : n + fronts.length + 1 = n + (fronts ++ [current]).length := by
        rw [length_append, length_singleton, Nat.add_assoc]
      rw [hlength] at hstanding'
      refine .moved (hkept.trans hkept' (Nat.le_add_right n _)) (by omega)
        (append_ne_nil_of_right_ne_nil _ (cons_ne_nil _ [])) hlonger hstanding' ?_
      rw [flatten_append, flatten_cons, flatten_nil, append_nil, hall,
        append_assoc]

theorem Reached.call (h : Reached s₀ n rest records s placed) (hcore : s₀.coreId < 2 ^ 32)
    {op : StreamOp} (hpad : ∀ entry, op = .append entry → ¬ entry.spec.IsPad)
    (hs : s.call op = .ok (s', more)) :
    Reached s₀ n rest records s' (placed ++ more) ∧ placedSize more = op.size := by
  cases op with
  | append entry =>
    obtain ⟨⟨s1, lsn⟩, happend, hout⟩ := map_eq_ok.mp hs
    cases hout
    exact ⟨h.append hcore (hpad entry rfl) happend, rfl⟩
  | flush =>
    obtain ⟨s1, hflush, hout⟩ := map_eq_ok.mp hs
    cases hout
    rw [append_nil]
    refine ⟨h.still fun m rest' current hstanding => ?_, rfl⟩
    obtain ⟨hstanding', -, hkept⟩ := hstanding.flush hflush
    exact ⟨hstanding', hkept⟩
  | sync =>
    obtain ⟨s1, hsync, hout⟩ := map_eq_ok.mp hs
    cases hout
    rw [append_nil]
    refine ⟨h.still fun m rest' current hstanding => ?_, rfl⟩
    obtain ⟨hstanding', -, hkept⟩ := hstanding.sync hsync
    exact ⟨hstanding', hkept⟩

variable {ops : List StreamOp}

theorem Reached.calls (h : Reached s₀ n rest records s placed)
    (hcore : s₀.coreId < 2 ^ 32) (hpad : NoPad ops) (hs : s.calls ops = .ok (s', more)) :
    Reached s₀ n rest records s' (placed ++ more) ∧ placedSize more = appendedSize ops := by
  induction ops generalizing s placed more with
  | nil =>
    cases hs
    rw [append_nil]
    exact ⟨h, rfl⟩
  | cons op ops ih =>
    obtain ⟨⟨s1, first⟩, hcall, hs⟩ := bind_eq_ok.mp hs
    obtain ⟨⟨s2, later⟩, hlater, hs⟩ := bind_eq_ok.mp hs
    cases hs
    obtain ⟨hreached, hfirst⟩ :=
      h.call hcore (fun entry hop => hpad entry (hop ▸ mem_cons_self)) hcall
    obtain ⟨hreached', hrest⟩ :=
      ih hreached (fun entry hmem => hpad entry (mem_cons_of_mem op hmem)) hlater
    rw [append_assoc] at hreached'
    refine ⟨hreached', ?_⟩
    rw [placedSize_append, hfirst, hrest]
    rfl

theorem mem_calls (hs : s.calls ops = .ok (s', more)) {entry : LogEntry}
    (h : .append entry ∈ ops) : ∃ lsn, recordOf entry.spec lsn entry.payload ∈ more := by
  induction ops generalizing s more with
  | nil => cases h
  | cons op ops ih =>
    obtain ⟨⟨s1, first⟩, hcall, hs⟩ := bind_eq_ok.mp hs
    obtain ⟨⟨s2, later⟩, hlater, hs⟩ := bind_eq_ok.mp hs
    cases hs
    rcases mem_cons.mp h with rfl | h
    · obtain ⟨⟨s3, lsn⟩, -, hout⟩ := map_eq_ok.mp hcall
      cases hout
      exact ⟨lsn, mem_append_left _ (mem_singleton_self _)⟩
    · obtain ⟨lsn, hmem⟩ := ih hlater h
      exact ⟨lsn, mem_append_right _ hmem⟩

theorem noPad_of_appendedSize (h : appendedSize ops = 0) : NoPad ops := by
  intro entry hmem
  have hsize : entry.size = 0 :=
    List.sum_eq_zero_iff_forall_eq_nat.mp h _ (List.mem_map_of_mem (f := StreamOp.size) hmem)
  exact absurd hsize (Nat.ne_of_gt entry.size_pos)

theorem calls_nonempty (hs : s.calls ops = .ok (s', more)) {r : DecodedRecord}
    (hr : r ∈ more) : 0 < r.header.totalLen := by
  induction ops generalizing s more with
  | nil =>
    obtain ⟨-, rfl⟩ := Prod.mk.inj (Except.ok.inj hs)
    cases hr
  | cons op ops ih =>
    obtain ⟨⟨s1, first⟩, hcall, hs⟩ := bind_eq_ok.mp hs
    obtain ⟨⟨s2, later⟩, hlater, hs⟩ := bind_eq_ok.mp hs
    cases hs
    rcases mem_append.mp hr with hfirst | hlast
    · cases op with
      | append entry =>
        obtain ⟨out, -, hout⟩ := map_eq_ok.mp hcall
        obtain ⟨-, rfl⟩ := Prod.mk.inj hout
        rw [mem_singleton.mp hfirst]
        exact entry.size_pos
      | flush =>
        obtain ⟨out, -, hout⟩ := map_eq_ok.mp hcall
        obtain ⟨-, rfl⟩ := Prod.mk.inj hout
        cases hfirst
      | sync =>
        obtain ⟨out, -, hout⟩ := map_eq_ok.mp hcall
        obtain ⟨-, rfl⟩ := Prod.mk.inj hout
        cases hfirst
    · exact ih hlater hlast

theorem eq_nil_of_placedSize (hs : s.calls ops = .ok (s', more))
    (hzero : placedSize more = 0) : more = [] := by
  cases more with
  | nil => rfl
  | cons r later =>
    have hpos := calls_nonempty hs (mem_cons_self)
    unfold placedSize at hzero
    rw [map_cons, sum_cons] at hzero
    omega

end Runs

-- What a scan sees

section Seen

variable {dev : LogDevice} {s₀ s : WalStream} {n : Nat} {rest : Bytes}
  {records placed : List DecodedRecord}

theorem Standing.count (h : Standing s n rest records) : s.segmentCount = n + 1 := by
  rcases h with ⟨bytes, htail⟩ | ⟨hsealed, -⟩
  · exact htail.body.count
  · exact hsealed.count

theorem flush_ring {s s' : WalStream} (hs : s.flush = .ok s') : s'.ring = [] := by
  unfold WalStream.flush at hs
  by_cases hring : s.ring = []
  · rw [if_pos hring] at hs
    cases hs
    exact hring
  · rw [if_neg hring] at hs
    obtain ⟨disk, -, hs⟩ := bind_eq_ok.mp hs
    cases hs
    rfl

theorem Standing.readSegment (h : Standing s n rest records) (hring : s.ring = []) :
    ∃ read, readSegment s.disk.content s.coreId n segmentHeaderSize = .ok read ∧
      read.records = records ++ (readRecords (rest.length + 1)
        ⟨rest, n * s.segmentSize + s.segmentSize - rest.length, false⟩).records := by
  rcases h with ⟨bytes, hbody, hspells, -⟩ | ⟨hsealed, rfl⟩
  · have hroom := hbody.room
    have hbody' : Body s n (bytes ++ []) rest := by
      rw [append_nil]
      exact hbody
    have hread := hbody'.readSegment hring hspells
    rw [nil_append] at hread
    have hpos : n * s.segmentSize + segmentHeaderSize + bytes.length =
        n * s.segmentSize + s.segmentSize - rest.length := by omega
    rw [hpos] at hread
    exact ⟨_, hread, rfl⟩
  · obtain ⟨read, hread, hrecords, -⟩ := hsealed.goes
    refine ⟨read, hread, ?_⟩
    rw [hrecords, readRecords_nil, append_nil]

theorem Reached.count (h : Reached s₀ n rest records s placed) :
    ∃ m, n ≤ m ∧ s.segmentCount = m + 1 := by
  rcases h with ⟨-, -, hstanding⟩ | ⟨-, -, -, -, hstanding, -⟩
  · exact ⟨n, Nat.le_refl n, hstanding.count⟩
  · exact ⟨_, Nat.le_add_right n _, hstanding.count⟩

variable {fronts : List (List DecodedRecord)}

theorem Reached.scanned (hopened : Opened dev s₀ n rest records)
    (h : Reached s₀ n rest records s placed) (hring : s.ring = []) (hlength : fronts.length = n)
    (hfronts : Fronts dev s₀.coreId 0 fronts) :
    Wal.scanned s.disk.content s₀.coreId = .ok (fronts.flatten ++ (records ++ placed) ++
      (readRecords ((rest.drop (placedSize placed)).length + 1)
        ⟨rest.drop (placedSize placed), s₀.appendLsn + placedSize placed, false⟩).records) := by
  have hkept := h.kept
  have hsize : s.disk.content.segmentSize = dev.segmentSize := hkept.size.trans hopened.sameSize
  have hlarge : segmentHeaderSize < s.disk.content.segmentSize := by
    have hopenedSize := hopened.size
    omega
  have hbefore : Fronts s.disk.content s₀.coreId 0 fronts := by
    refine hfronts.same fun i hi => ?_
    have first := hopened.same i (by omega)
    have second := hkept.same i (by omega)
    exact ⟨second.size.trans first.size, first.here, second.there, second.bytes.trans first.bytes⟩
  have hstart := hopened.start
  rcases h with ⟨-, hfits, hstanding⟩ | @⟨later, current, count, -, hfull, hne, hgoes, hstanding,
    hall⟩
  · obtain ⟨read, hread, hrecords⟩ := hstanding.readSegment hring
    have hpos : n * s.segmentSize + s.segmentSize - (rest.drop (placedSize placed)).length =
        s₀.appendLsn + placedSize placed := by
      rw [length_drop, hkept.size]
      omega
    have hcount := hstanding.count
    rw [hpos] at hrecords
    rw [hkept.coreId, ← hlength] at hread
    have hscan := hbefore.scanned hlarge (hcount.trans (by rw [hlength])) hread
    rw [hscan, hrecords, ← append_assoc]
  · obtain ⟨read, hread, hrecords⟩ := hstanding.readSegment hring
    have hcount := hstanding.count
    rw [readRecords_zeros, append_nil] at hrecords
    rw [hkept.coreId] at hgoes hread
    have hwhole : Fronts s.disk.content s₀.coreId 0 (fronts ++ later) := by
      refine hbefore.append ?_
      rw [hlength, Nat.zero_add]
      exact hgoes
    have hlong : (fronts ++ later).length = n + later.length := by
      rw [length_append, hlength]
    rw [← hlong] at hread hcount
    have hscan := hwhole.scanned hlarge hcount hread
    have hdrop : rest.drop (placedSize placed) = [] := drop_eq_nil_of_le (by omega)
    rw [hscan, hrecords, hdrop, readRecords_nil, append_nil,
      flatten_append, append_assoc, hall]

theorem Opened.scanned (h : Opened dev s₀ n rest records) (hlength : fronts.length = n)
    (hfronts : Fronts dev s₀.coreId 0 fronts) :
    Wal.scanned dev s₀.coreId = .ok (fronts.flatten ++ records) := by
  have hlarge : segmentHeaderSize < dev.segmentSize := by
    have hsize := h.size
    omega
  rcases h.found with ⟨hzero, rfl⟩ | ⟨hcount, read, hread, rfl⟩
  · have hnil : fronts = [] := by
      have hlast := h.last
      exact eq_nil_of_length_eq_zero (by omega)
    subst hnil
    unfold Wal.scanned scanLog
    rw [if_neg (by omega), if_pos hzero]
    rfl
  · rw [← hlength] at hread hcount
    exact hfronts.scanned hlarge hcount hread

end Seen

-- Appending after a torn tail

/-- **A scan of a log that was reopened, appended to and synced** hands out what it handed out
    before and then the new records exactly where nothing was appended, or no PAD was, every segment
    before the last goes on, and the last one does not hold, right behind the new records, what
    reads as a record of the stream. -/
theorem scan_extends_iff {dev : LogDevice} {coreId ringCapacity : Nat} {ops : List StreamOp}
    {s₀ s s' : WalStream} {placed : List DecodedRecord} (hcore : coreId < 2 ^ 32)
    (hopen : WalStream.openOn dev coreId ringCapacity = .ok s₀)
    (hcalls : s₀.calls ops = .ok (s, placed)) (hsync : s.sync = .ok s') :
    (∃ old, scanned dev coreId = .ok old ∧
        scanned s'.disk.content coreId = .ok (old ++ placed)) ↔
      (appendedSize ops = 0 ∧ ∃ old, scanned dev coreId = .ok old) ∨
        (NoPad ops ∧ (∀ k, k + 1 < dev.segmentCount → ∃ records, SegmentGoes dev coreId k records) ∧
          ¬ Resurfaces dev (s₀.appendLsn + appendedSize ops)) := by
  by_cases hpad : NoPad ops
  swap
  · -- a PAD is appended, and no scan hands one out
    refine iff_of_false ?_ ?_
    · rintro ⟨old, -, hnew⟩
      refine hpad fun entry hmem hisPad => ?_
      obtain ⟨lsn, hrecord⟩ := mem_calls hcalls hmem
      exact scanned_notPad hnew (mem_append_right old hrecord) hisPad
    · rintro (⟨hzero, -⟩ | ⟨hnone, -⟩)
      · exact hpad (noPad_of_appendedSize hzero)
      · exact hpad hnone
  obtain ⟨n, rest, records, hopened, rfl, hring₀⟩ := Opened.of_open hcore hopen
  have hcount : s₀.segmentCount = n + 1 := hopened.standing.count
  have hfirst : Reached s₀ n rest records s₀ [] := by
    refine .here (.of_disk hcount rfl rfl rfl) (Nat.zero_le _) ?_
    rw [append_nil]
    exact hopened.standing
  obtain ⟨hreached, hplaced⟩ := hfirst.calls hcore hpad hcalls
  have hring : s'.ring = [] := by
    obtain ⟨s1, hflush, hs1⟩ := bind_eq_ok.mp hsync
    have hstaged := flush_ring hflush
    cases hs1
    exact hstaged
  have hfinal : Reached s₀ n rest records s' placed := by
    refine hreached.still fun m rest' current hstanding => ?_
    obtain ⟨hstanding', -, hkept⟩ := hstanding.sync hsync
    exact ⟨hstanding', hkept⟩
  have hnone : appendedSize ops = 0 → placed = [] := fun hzero =>
    eq_nil_of_placedSize hcalls (hplaced.trans hzero)
  have hsame : ∀ i, i < n → SameSegment dev s'.disk.content i := fun i hi => by
    have first := hopened.same i hi
    have second := hfinal.kept.same i hi
    exact ⟨second.size.trans first.size, first.here, second.there, second.bytes.trans first.bytes⟩
  have hlast := hopened.last
  by_cases hall : ∀ k, k + 1 < dev.segmentCount → ∃ found, SegmentGoes dev s₀.coreId k found
  · obtain ⟨fronts, hlength, hfronts⟩ : ∃ fronts, fronts.length = n ∧
      Fronts dev s₀.coreId 0 fronts :=
      exists_fronts fun i _ hi => hall i (by omega)
    have hold := hopened.scanned hlength hfronts
    have hnew := hfinal.scanned hopened hring hlength hfronts
    have hbeyond := hopened.beyond (placedSize placed)
    rw [hplaced] at hnew hbeyond
    have hzero : appendedSize ops = 0 → (readRecords
        ((rest.drop (appendedSize ops)).length + 1) ⟨rest.drop (appendedSize ops),
          s₀.appendLsn + appendedSize ops, false⟩).records = [] := by
      intro hzero
      rw [hzero]
      exact hopened.stops
    generalize (readRecords ((rest.drop (appendedSize ops)).length + 1)
      ⟨rest.drop (appendedSize ops), s₀.appendLsn + appendedSize ops, false⟩).records = surfaced
      at hnew hbeyond hzero
    constructor
    · rintro ⟨old, hscan, hscan'⟩
      cases hold.symm.trans hscan
      have hequal := Except.ok.inj (hnew.symm.trans hscan')
      rw [← append_assoc, append_right_eq_self] at hequal
      exact .inr ⟨hpad, hall, fun hres => hbeyond.mp hres hequal⟩
    · intro hcond
      have hsurfaced : surfaced = [] := by
        rcases hcond with ⟨hnothing, -⟩ | ⟨-, -, hres⟩
        · exact hzero hnothing
        · exact not_not.mp (hbeyond.not.mp hres)
      rw [hsurfaced, append_nil, ← append_assoc] at hnew
      exact ⟨_, hold, hnew⟩
  · -- an earlier segment hides everything behind it, the new records included
    have hstop : ∃ i, 0 ≤ i ∧ i < n ∧ ¬ ∃ found, SegmentGoes dev s₀.coreId i found := by
      obtain ⟨k, hk⟩ := not_forall.mp hall
      obtain ⟨hlt, hnot⟩ := Classical.not_imp.mp hk
      exact ⟨k, Nat.zero_le k, by omega, hnot⟩
    obtain ⟨i, -, hi, -⟩ := id hstop
    obtain ⟨m, hm, hcount'⟩ := hfinal.count
    have hcount₀ : dev.segmentCount = n + 1 := by omega
    have hcount₁ : s'.disk.content.segmentCount = m + 1 := hcount'
    have hsize := hopened.size
    have hsize' : s'.disk.content.segmentSize = dev.segmentSize :=
      hfinal.kept.size.trans hopened.sameSize
    have hstreams := streamRecords_stops hsame hstop (by omega) (by omega)
      (show 0 + (n + 1) = dev.segmentCount by omega)
      (show 0 + (m + 1) = s'.disk.content.segmentCount by omega)
    have hscans : ∀ found, scanned s'.disk.content s₀.coreId = .ok found ↔
        scanned dev s₀.coreId = .ok found := by
      intro found
      rw [scanned_eq_ok (by omega) hcount₁, scanned_eq_ok (by omega) hcount₀, hstreams]
    constructor
    · rintro ⟨old, hscan, hscan'⟩
      have hequal := Except.ok.inj (((hscans _).mp hscan').symm.trans hscan)
      rw [append_right_eq_self] at hequal
      rw [hequal] at hplaced
      exact .inl ⟨hplaced.symm, old, hscan⟩
    · rintro (⟨hzero, old, hscan⟩ | ⟨-, hgoes, -⟩)
      · refine ⟨old, hscan, (hscans _).mpr ?_⟩
        rw [hnone hzero, append_nil]
        exact hscan
      · exact absurd hgoes hall

/-- A device of one segment, with what its body holds. -/
def oneSegment (body : Bytes) (h : body.length = 128) : LogDevice where
  segmentSize := segmentHeaderSize + 128
  segments := [encodeSegmentHeader 0 0 0 ++ body]
  sized s hs := by
    rw [mem_singleton.mp hs, length_append, h, length_encodeSegmentHeader]
  addressable := by
    rw [length_singleton]
    decide

/-- The bytes of a record without payload, at a position. -/
def begunAt (lsn : Nat) : Bytes :=
  (encodeRecord recordHeaderSize { type := .txnBegin, txnId := 7 } lsn []).toOption.getD []

/-- Two records, of which a crash lost the end of the first. -/
def tornFirst : LogDevice :=
  oneSegment ((begunAt 4096).take 24 ++ List.replicate 8 0 ++ begunAt 4128 ++
    List.replicate 64 0) (by decide +kernel)

/-- One record, and its end is lost. -/
def tornLast : LogDevice :=
  oneSegment ((begunAt 4096).take 24 ++ List.replicate 104 0) (by decide +kernel)

def begun : LogEntry where
  spec := { type := .txnBegin, txnId := 9 }
  payload := []
  pageId_lt := by decide
  flags_lt := by decide

/-- A stream that is opened on a device, appended one record and synced. -/
def reopened (dev : LogDevice) :
    StatusOr (WalStream × WalStream × List DecodedRecord × WalStream) := do
  let s₀ ← WalStream.openOn dev 0 kMinRingCapacity
  let (s, placed) ← s₀.calls [.append begun]
  let s' ← s.sync
  .ok (s₀, s, placed, s')

theorem reopened_eq_ok {dev : LogDevice} {s₀ s s' : WalStream} {placed : List DecodedRecord}
    (h : reopened dev = .ok (s₀, s, placed, s')) :
    WalStream.openOn dev 0 kMinRingCapacity = .ok s₀ ∧
      s₀.calls [.append begun] = .ok (s, placed) ∧ s.sync = .ok s' := by
  obtain ⟨s₁, hopen, h⟩ := bind_eq_ok.mp h
  obtain ⟨⟨s₂, placed'⟩, hcalls, h⟩ := bind_eq_ok.mp h
  obtain ⟨s₃, hsync, h⟩ := bind_eq_ok.mp h
  cases h
  exact ⟨hopen, hcalls, hsync⟩

theorem scan_extends_iff_tornLast : ∃ s₀ s placed s' old,
    WalStream.openOn tornLast 0 kMinRingCapacity = .ok s₀ ∧
      s₀.calls [.append begun] = .ok (s, placed) ∧ s.sync = .ok s' ∧
      scanned tornLast 0 = .ok old ∧ scanned s'.disk.content 0 = .ok (old ++ placed) := by
  have hend : ((reopened tornLast).map fun out => out.1.appendLsn).toOption = some 4096 := by
    decide +kernel
  rcases hout : reopened tornLast with e | ⟨s₀, s, placed, s'⟩
  · rw [hout] at hend
    cases hend
  · rw [hout] at hend
    obtain ⟨hopen, hcalls, hsync⟩ := reopened_eq_ok hout
    have hlsn : s₀.appendLsn = 4096 := Option.some.inj hend
    have hnone : (RecordReader.next ⟨leftover tornLast 4128, 4128, false⟩).1 = none := by
      decide +kernel
    have hbehind : ¬ Resurfaces tornLast (s₀.appendLsn + appendedSize [.append begun]) := by
      rw [hlsn]
      rintro ⟨r, hr, -⟩
      rw [show 4096 + appendedSize [.append begun] = 4128 from rfl, hnone] at hr
      cases hr
    have hpad : NoPad [.append begun] := by
      intro entry hmem
      obtain rfl := StreamOp.append.inj (mem_singleton.mp hmem)
      decide
    have honly : ∀ k, k + 1 < tornLast.segmentCount →
        ∃ records, SegmentGoes tornLast 0 k records := by
      intro k hk
      have hcount : tornLast.segmentCount = 1 := rfl
      omega
    obtain ⟨old, hold, hnew⟩ :=
      (scan_extends_iff (by decide) hopen hcalls hsync).mpr (.inr ⟨hpad, honly, hbehind⟩)
    exact ⟨s₀, s, placed, s', old, hopen, hcalls, hsync, hold, hnew⟩

/-- The record that takes the place of the torn one ends where the old intact record starts: the
    scan hands that out as well. -/
theorem staleRecordResurfaces : ∃ s₀ s placed s',
    WalStream.openOn tornFirst 0 kMinRingCapacity = .ok s₀ ∧
      s₀.calls [.append begun] = .ok (s, placed) ∧ s.sync = .ok s' ∧
      ¬ ∃ old, scanned tornFirst 0 = .ok old ∧
        scanned s'.disk.content 0 = .ok (old ++ placed) := by
  have hlengths : ((reopened tornFirst).bind fun out => (scanned tornFirst 0).bind fun old =>
      (scanned out.2.2.2.disk.content 0).map fun now =>
        (old.length, out.2.2.1.length, now.length)).toOption = some (0, 1, 2) := by
    decide +kernel
  rcases hout : reopened tornFirst with e | ⟨s₀, s, placed, s'⟩
  · rw [hout] at hlengths
    cases hlengths
  · obtain ⟨hopen, hcalls, hsync⟩ := reopened_eq_ok hout
    refine ⟨s₀, s, placed, s', hopen, hcalls, hsync, ?_⟩
    rintro ⟨old, hold, hnew⟩
    rw [hout, hold] at hlengths
    dsimp only [Except.bind] at hlengths
    rw [hnew] at hlengths
    have hparts : (old.length, placed.length, (old ++ placed).length) = (0, 1, 2) :=
      Option.some.inj hlengths
    obtain ⟨hold0, hparts⟩ := Prod.mk.inj hparts
    obtain ⟨hplaced1, htwo⟩ := Prod.mk.inj hparts
    rw [length_append] at htwo
    omega

end Kds.Wal
