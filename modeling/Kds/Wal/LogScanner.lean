/-
  Kds.Wal.LogScanner

  The walk over a log device's segments (`src/wal/log_scanner.cpp`), which analysis and redo
  both run.  A torn record ends the stream; a segment header that is not this stream's fails the
  scan; a PAD record, or a tail too short for one, seals its segment and the stream goes on in
  the next.

  The reads do not depend on the visitor, so a scan is the records of the stream
  (`streamRecords`) handed to it one after another.  Two facts about them carry what recovery
  relies on: their positions increase (`streamRecords_sorted`), and a scan that starts at one of
  them hands out exactly that record and those after it (`streamRecords_suffix`).
-/

import Kds.Wal.Record

namespace Kds.Wal

open Lib List

-- The device

/-- `class LogDevice`, its content: segments of one size, and no more of them than a 64-bit
    stream offset can address. -/
structure LogDevice where
  segmentSize : Nat
  segments : List Bytes
  sized : ∀ s ∈ segments, s.length = segmentSize
  addressable : segments.length * segmentSize < 2 ^ 64

namespace LogDevice

def segmentCount (dev : LogDevice) : Nat := dev.segments.length

/-- `CheckSegmentRange`. -/
def checkSegmentRange (segmentNo offset length count size : Nat) : StatusOr Unit :=
  if count ≤ segmentNo then
    .error (.outOfRange ("wal: segment " ++ toString segmentNo ++ " does not exist (have " ++
      toString count ++ ")"))
  else if size < offset ∨ size - offset < length then
    .error (.outOfRange ("wal: range at offset " ++ toString offset ++ " + " ++ toString length ++
      " runs past the segment end (" ++ toString size ++ ")"))
  else .ok ()

/-- `ReadAt`. -/
def readAt (dev : LogDevice) (segmentNo offset length : Nat) : StatusOr Bytes := do
  checkSegmentRange segmentNo offset length dev.segmentCount dev.segmentSize
  .ok (((dev.segments.getD segmentNo []).drop offset).take length)

end LogDevice

/-- `ValidateSegmentHeader`. -/
def validateSegmentHeader (headerBlock : Bytes) (coreId segmentNo segmentSize : Nat) :
    StatusOr SegmentHeader := do
  let header ← decodeSegmentHeader headerBlock
  if header.coreId ≠ coreId then
    .error (.corruption ("WalStream: segment " ++ toString segmentNo ++ " belongs to core " ++
      toString header.coreId ++ ", not " ++ toString coreId))
  else if header.segmentNo ≠ segmentNo ∨ header.startLsn ≠ segmentNo * segmentSize then
    .error (.corruption ("WalStream: segment " ++ toString segmentNo ++
      " is stamped as segment " ++ toString header.segmentNo ++ " at lsn " ++
      toString header.startLsn))
  else .ok header

-- One segment

/-- What the reader found in a segment's body: the records up to the seal or the end, whether a
    PAD sealed it, and whether the reader stopped on damage. -/
structure SegmentRead where
  records : List DecodedRecord := []
  sealed : Bool := false
  stoppedEarly : Bool := false

/-- The scan's inner loop over `RecordReader::Next`; every record takes bytes, so a fuel above
    their number never runs out. -/
def readRecords : Nat → RecordReader → SegmentRead
  | 0, reader => { stoppedEarly := reader.stoppedEarly }
  | fuel + 1, reader =>
    match reader.next with
    | (none, reader') => { stoppedEarly := reader'.stoppedEarly }
    | (some record, reader') =>
      -- nothing after the seal is part of the stream, whatever those bytes decode to
      if record.type = .pad then { sealed := true, stoppedEarly := reader'.stoppedEarly }
      else
        let later := readRecords fuel reader'
        { later with records := record :: later.records }

def readSegmentHeader (dev : LogDevice) (coreId segmentNo : Nat) : StatusOr SegmentHeader := do
  let headerBlock ← dev.readAt segmentNo 0 segmentHeaderSize
  validateSegmentHeader headerBlock coreId segmentNo dev.segmentSize

/-- The header check and the body of one segment, read from `bodyOffset` on. -/
def readSegment (dev : LogDevice) (coreId segmentNo bodyOffset : Nat) : StatusOr SegmentRead := do
  let _ ← readSegmentHeader dev coreId segmentNo
  let body ← dev.readAt segmentNo bodyOffset (dev.segmentSize - bodyOffset)
  .ok (readRecords (body.length + 1) ⟨body, segmentNo * dev.segmentSize + bodyOffset, false⟩)

/-- Where the accepted records of a segment end, if it was read from `from` on. -/
def recordsEnd (fromLsn : Nat) (records : List DecodedRecord) : Nat :=
  match records.getLast? with
  | none => fromLsn
  | some r => r.nextLsn

theorem recordsEnd_cons (fromLsn : Nat) (r : DecodedRecord) (later : List DecodedRecord) :
    recordsEnd fromLsn (r :: later) = recordsEnd r.nextLsn later := by
  cases later with
  | nil => rfl
  | cons q later => rw [recordsEnd, recordsEnd, List.getLast?_cons_cons]; rfl

-- The scan

/-- `struct ScanOutcome`. -/
structure ScanOutcome where
  endLsn : Nat := 0
  lastSegment : Nat := 0
  sealed : Bool := false
  stoppedEarly : Bool := false
  records : Nat := 0
  deriving DecidableEq

section Scan

variable {σ : Type} (dev : LogDevice) (coreId : Nat) (visit : σ → DecodedRecord → StatusOr σ)

/-- The loop over segments: the first is read from `bodyOffset`, the later ones whole. -/
def scanSegments : Nat → List Nat → ScanOutcome → σ → StatusOr (ScanOutcome × σ)
  | _, [], out, s => .ok (out, s)
  | bodyOffset, segmentNo :: later, out, s => do
    let startLsn := segmentNo * dev.segmentSize
    let read ← readSegment dev coreId segmentNo bodyOffset
    let s' ← read.records.foldlM visit s
    let out' : ScanOutcome := {
      endLsn := recordsEnd (startLsn + bodyOffset) read.records
      lastSegment := segmentNo
      sealed := read.sealed
      stoppedEarly := out.stoppedEarly
      records := out.records + read.records.length }
    if !read.sealed then
      -- a tail too short for a PAD is a seal as well
      if dev.segmentSize - (out'.endLsn - startLsn) < recordHeaderSize ∧
          segmentNo + 1 < dev.segmentCount then
        scanSegments segmentHeaderSize later { out' with sealed := true } s'
      else .ok ({ out' with stoppedEarly := read.stoppedEarly }, s')
    else if segmentNo + 1 = dev.segmentCount then
      .ok ({ out' with endLsn := startLsn + dev.segmentSize }, s')
    else scanSegments segmentHeaderSize later out' s'

/-- `ScanLog`. -/
def scanLog (fromLsn : Nat) (s : σ) : StatusOr (ScanOutcome × σ) :=
  if dev.segmentSize ≤ segmentHeaderSize then
    .error (.invalidArgument ("ScanLog: segment size " ++ toString dev.segmentSize ++
      " leaves no room for records"))
  else if dev.segmentCount = 0 then .ok ({ endLsn := segmentHeaderSize }, s)
  else
    let segmentNo := if fromLsn = 0 then 0 else fromLsn / dev.segmentSize
    let offset := if fromLsn = 0 then segmentHeaderSize else fromLsn % dev.segmentSize
    if dev.segmentCount ≤ segmentNo then
      .error (.invalidArgument ("ScanLog: lsn " ++ toString fromLsn ++ " names segment " ++
        toString segmentNo ++ ", past the " ++ toString dev.segmentCount ++ " that exist"))
    else if offset < segmentHeaderSize then
      .error (.invalidArgument ("ScanLog: lsn " ++ toString fromLsn ++ " points inside segment " ++
        toString segmentNo ++ "'s header block"))
    else if offset % recordAlignment ≠ 0 then
      .error (.invalidArgument ("ScanLog: lsn " ++ toString fromLsn ++ " is not " ++
        toString recordAlignment ++ "-byte aligned, so it cannot name a record"))
    else
      scanSegments dev coreId visit offset
        (List.range' segmentNo (dev.segmentCount - segmentNo))
        { lastSegment := segmentNo, endLsn := segmentNo * dev.segmentSize + offset } s

end Scan

/-- The records a scan hands its visitor, when the visitor accepts them all. -/
def scannedRecords (dev : LogDevice) (coreId : Nat) (fromLsn : Nat) : List DecodedRecord :=
  match scanLog dev coreId (fun records r => .ok (records ++ [r])) fromLsn [] with
  | .ok (_, records) => records
  | .error _ => []

-- The stream, without a visitor

/-- Whether the stream goes on in the next segment. -/
def goesOn (dev : LogDevice) (segmentNo bodyOffset : Nat) (read : SegmentRead) : Prop :=
  segmentNo + 1 < dev.segmentCount ∧
    (read.sealed = false → dev.segmentSize -
      (recordsEnd (segmentNo * dev.segmentSize + bodyOffset) read.records -
        segmentNo * dev.segmentSize) < recordHeaderSize)

instance (dev : LogDevice) (segmentNo bodyOffset : Nat) (read : SegmentRead) :
    Decidable (goesOn dev segmentNo bodyOffset read) := by
  rw [goesOn]; infer_instance

/-- Where the stream ends, if it ends in this segment. -/
def endIn (dev : LogDevice) (segmentNo bodyOffset : Nat) (read : SegmentRead) : Nat :=
  if read.sealed then segmentNo * dev.segmentSize + dev.segmentSize
  else recordsEnd (segmentNo * dev.segmentSize + bodyOffset) read.records

/-- The records of the stream over `remaining` segments from `segmentNo` on, and its end. -/
def streamRecords (dev : LogDevice) (coreId : Nat) :
    Nat → Nat → Nat → StatusOr (List DecodedRecord × Nat)
  | 0, segmentNo, bodyOffset => .ok ([], segmentNo * dev.segmentSize + bodyOffset)
  | remaining + 1, segmentNo, bodyOffset => do
    let read ← readSegment dev coreId segmentNo bodyOffset
    if goesOn dev segmentNo bodyOffset read then
      let (later, e) ← streamRecords dev coreId remaining (segmentNo + 1) segmentHeaderSize
      .ok (read.records ++ later, e)
    else .ok (read.records, endIn dev segmentNo bodyOffset read)

section Stream

variable {σ : Type} {dev : LogDevice} {coreId : Nat} {visit : σ → DecodedRecord → StatusOr σ}

variable {out : ScanOutcome} {segmentNo bodyOffset : Nat}

theorem scanSegments_reads {later : List Nat} {s : σ} {result : ScanOutcome × σ}
    (h : scanSegments dev coreId visit bodyOffset (segmentNo :: later) out s = .ok result) :
    ∃ read s₁, readSegment dev coreId segmentNo bodyOffset = .ok read ∧
      read.records.foldlM visit s = .ok s₁ := by
  rw [scanSegments] at h
  obtain ⟨read, hread, h⟩ := bind_eq_ok.mp h
  obtain ⟨s₁, hfold, -⟩ := bind_eq_ok.mp h
  exact ⟨read, s₁, hread, hfold⟩

/-- A scan reads a segment, then goes on or ends there. -/
theorem scanSegments_step (hseg : segmentNo < dev.segmentCount)
    (later : List Nat) (out : ScanOutcome) {s s₁ : σ} {read : SegmentRead}
    (hread : readSegment dev coreId segmentNo bodyOffset = .ok read)
    (hfold : read.records.foldlM visit s = .ok s₁) :
    (goesOn dev segmentNo bodyOffset read → ∃ out₁,
      scanSegments dev coreId visit bodyOffset (segmentNo :: later) out s =
        scanSegments dev coreId visit segmentHeaderSize later out₁ s₁) ∧
    (¬ goesOn dev segmentNo bodyOffset read → ∃ out₁,
      scanSegments dev coreId visit bodyOffset (segmentNo :: later) out s = .ok (out₁, s₁) ∧
        out₁.endLsn = endIn dev segmentNo bodyOffset read) := by
  rw [scanSegments, hread, goesOn, endIn]
  show (_ → ∃ out₁, (read.records.foldlM visit s >>= _) = _) ∧
    (_ → ∃ out₁, (read.records.foldlM visit s >>= _) = _ ∧ _)
  rw [hfold]
  show (_ → ∃ out₁, ite _ _ _ = _) ∧ (_ → ∃ out₁, ite _ _ _ = _ ∧ _)
  cases hsealed : read.sealed with
  | false =>
    simp only [Bool.not_false, if_true, Bool.false_eq_true, if_false]
    split_ifs with hgo
    · exact ⟨fun _ => ⟨_, rfl⟩, fun h => absurd ⟨hgo.2, fun _ => hgo.1⟩ h⟩
    · exact ⟨fun h => absurd ⟨h.2 trivial, h.1⟩ hgo, fun _ => ⟨_, rfl, rfl⟩⟩
  | true =>
    simp only [Bool.not_true, if_true, Bool.false_eq_true, if_false]
    split_ifs with hlast
    · exact ⟨fun h => by omega, fun _ => ⟨_, rfl, rfl⟩⟩
    · exact ⟨fun _ => ⟨_, rfl⟩, fun h => absurd ⟨by omega, fun h => by cases h⟩ h⟩

variable {remaining : Nat}

theorem scanSegments_eq_ok {s : σ}
    (hcount : segmentNo + (remaining + 1) = dev.segmentCount) {e : Nat} {s' : σ} :
    (∃ out', scanSegments dev coreId visit bodyOffset (List.range' segmentNo (remaining + 1))
        out s = .ok (out', s') ∧ out'.endLsn = e) ↔
      ∃ records, streamRecords dev coreId (remaining + 1) segmentNo bodyOffset = .ok (records, e) ∧
        records.foldlM visit s = .ok s' := by
  induction remaining generalizing segmentNo bodyOffset out s with
  | zero =>
    have hlast : ∀ read, ¬ goesOn dev segmentNo bodyOffset read := fun read h => by
      have := h.1
      omega
    constructor
    · rintro ⟨out', hscan, rfl⟩
      obtain ⟨read, s₁, hread, hfold⟩ := scanSegments_reads hscan
      obtain ⟨out₁, hstep, hend⟩ :=
        (scanSegments_step (by omega) [] out hread hfold).2 (hlast read)
      cases hscan.symm.trans hstep
      refine ⟨read.records, ?_, hfold⟩
      rw [streamRecords, hread, hend]
      show ite _ _ _ = _
      rw [if_neg (hlast read)]
    · rintro ⟨records, hstream, hfold⟩
      rw [streamRecords] at hstream
      obtain ⟨read, hread, hstream⟩ := bind_eq_ok.mp hstream
      rw [if_neg (hlast read)] at hstream
      cases hstream
      exact (scanSegments_step (by omega) [] out hread hfold).2 (hlast read)
  | succ remaining ih =>
    have hcount' : segmentNo + 1 + (remaining + 1) = dev.segmentCount := by omega
    constructor
    · rintro ⟨out', hscan, hend⟩
      rw [range'_succ] at hscan
      obtain ⟨read, s₁, hread, hfold⟩ := scanSegments_reads hscan
      obtain ⟨hgo, hstop⟩ := scanSegments_step (by omega) _ out hread hfold
      rw [streamRecords, hread]
      show ∃ records, ite _ _ _ = _ ∧ _
      by_cases h : goesOn dev segmentNo bodyOffset read
      · obtain ⟨out₁, hstep⟩ := hgo h
        obtain ⟨records, hstream, hfold'⟩ := (ih hcount').mp ⟨out', hstep ▸ hscan, hend⟩
        refine ⟨read.records ++ records, ?_, ?_⟩
        · rw [if_pos h, hstream]
          rfl
        · rw [foldlM_append, hfold]
          exact hfold'
      · obtain ⟨out₁, hstep, hend'⟩ := hstop h
        cases hscan.symm.trans hstep
        refine ⟨read.records, ?_, hfold⟩
        rw [if_neg h, ← hend', hend]
    · rintro ⟨records, hstream, hfold⟩
      rw [streamRecords] at hstream
      obtain ⟨read, hread, hstream⟩ := bind_eq_ok.mp hstream
      rw [range'_succ]
      by_cases h : goesOn dev segmentNo bodyOffset read
      · rw [if_pos h] at hstream
        obtain ⟨⟨later, e'⟩, hlater, hstream⟩ := bind_eq_ok.mp hstream
        cases hstream
        rw [foldlM_append] at hfold
        obtain ⟨s₁, hfold, hfold'⟩ := bind_eq_ok.mp hfold
        obtain ⟨out₁, hstep⟩ := (scanSegments_step (by omega) _ out hread hfold).1 h
        rw [hstep]
        exact (ih hcount').mpr ⟨later, hlater, hfold'⟩
      · rw [if_neg h] at hstream
        cases hstream
        exact (scanSegments_step (by omega) _ out hread hfold).2 h

-- Positions

/-- One record comes wholly before another. -/
def DecodedRecord.Before (r r' : DecodedRecord) : Prop := r.nextLsn ≤ r'.lsn

/-- A record lies in a stretch of the stream, at a position a word boundary from its start. -/
structure DecodedRecord.Within (r : DecodedRecord) (fromLsn toLsn : Nat) : Prop where
  start : fromLsn ≤ r.lsn
  aligned : (r.lsn - fromLsn) % recordAlignment = 0
  nonempty : r.lsn < r.nextLsn
  stop : r.nextLsn ≤ toLsn

theorem readRecords_cases (fuel : Nat) (reader : RecordReader) :
    (readRecords (fuel + 1) reader).records = [] ∨
      ∃ record reader', reader.next = (some record, reader') ∧ record.type ≠ .pad ∧
        readRecords (fuel + 1) reader =
          { readRecords fuel reader' with
            records := record :: (readRecords fuel reader').records } := by
  rw [readRecords]
  rcases hnext : reader.next with ⟨_ | record, reader'⟩
  · exact .inl rfl
  · by_cases hpad : record.type = .pad
    · simp only [hpad, if_true]
      exact .inl trivial
    · simp only [hpad, if_false]
      exact .inr ⟨record, reader', rfl, hpad, rfl⟩

variable {fuel : Nat} {reader : RecordReader} {fuel' : Nat} {r : DecodedRecord}

theorem readRecords_fuel (h : reader.rest.length < fuel) (h' : reader.rest.length < fuel') :
    readRecords fuel reader = readRecords fuel' reader := by
  induction fuel generalizing fuel' reader with
  | zero => omega
  | succ fuel ih =>
    obtain ⟨fuel', rfl⟩ : ∃ n, fuel' = n + 1 := ⟨fuel' - 1, by omega⟩
    rw [readRecords, readRecords]
    rcases hnext : reader.next with ⟨_ | record, reader'⟩
    · rfl
    · obtain ⟨-, hmin, -, hmax, rfl⟩ := RecordReader.next_some hnext
      have hshrinks : (reader.rest.drop record.header.totalLen).length <
          reader.rest.length := by
        have : 0 < recordHeaderSize := by decide
        rw [length_drop]
        omega
      dsimp only
      rw [@ih _ fuel' (by dsimp only; omega) (by dsimp only; omega)]

theorem readRecords_within (h : r ∈ (readRecords fuel reader).records) :
    r.Within reader.pos (reader.pos + reader.rest.length) := by
  induction fuel generalizing reader with
  | zero => cases h
  | succ fuel ih =>
    rcases readRecords_cases fuel reader with hnil | ⟨record, reader', hnext, -, hread⟩
    · rw [hnil] at h
      cases h
    · obtain ⟨hpos, hmin, halign, hmax, rfl⟩ := RecordReader.next_some hnext
      have hhead : 0 < recordHeaderSize := by decide
      have hnextLsn : record.nextLsn = record.lsn + record.header.totalLen := rfl
      rw [hread] at h
      rcases mem_cons.mp h with rfl | h
      · exact ⟨by omega, by rw [hpos, Nat.sub_self]; rfl, by omega, by omega⟩
      · obtain ⟨hstart, haligned, hnonempty, hstop⟩ := ih h
        dsimp only at hstart haligned hstop
        rw [length_drop] at hstop
        refine ⟨by omega, ?_, hnonempty, by omega⟩
        have hsplit : r.lsn - reader.pos =
            record.header.totalLen + (r.lsn - record.nextLsn) := by omega
        rw [hsplit, Nat.add_mod, halign, haligned]
        rfl

theorem readRecords_sorted (fuel : Nat) (reader : RecordReader) :
    (readRecords fuel reader).records.Pairwise DecodedRecord.Before := by
  induction fuel generalizing reader with
  | zero => exact .nil
  | succ fuel ih =>
    rcases readRecords_cases fuel reader with hnil | ⟨record, reader', hnext, -, hread⟩
    · rw [hnil]
      exact .nil
    · obtain ⟨-, -, -, -, rfl⟩ := RecordReader.next_some hnext
      rw [hread]
      exact .cons (fun r hr => (readRecords_within hr).start) (ih _)

theorem readRecords_suffix (hearly : reader.stoppedEarly = false) {pre post : List DecodedRecord}
    (h : (readRecords fuel reader).records = pre ++ r :: post) (hfuel : reader.rest.length < fuel)
    (hfuel' : (reader.rest.drop (r.lsn - reader.pos)).length < fuel') :
    readRecords fuel' ⟨reader.rest.drop (r.lsn - reader.pos), r.lsn, false⟩ =
      { readRecords fuel reader with records := r :: post } := by
  induction fuel generalizing reader pre with
  | zero => simp [readRecords] at h
  | succ fuel ih =>
    rcases readRecords_cases fuel reader with hnil | ⟨record, reader', hnext, -, hread⟩
    · rw [hnil] at h
      simp at h
    · obtain ⟨hpos, hmin, -, hmax, hreader⟩ := RecordReader.next_some hnext
      have hhead : 0 < recordHeaderSize := by decide
      have hnextLsn : record.nextLsn = record.lsn + record.header.totalLen := rfl
      cases pre with
      | nil =>
        -- the very record the reader stands at
        rw [hread] at h
        obtain ⟨rfl, hpost⟩ := List.cons.inj h
        have hsame : reader = ⟨reader.rest, record.lsn, false⟩ := by
          rw [hpos, ← hearly]
        rw [hpos, Nat.sub_self, drop_zero] at hfuel' ⊢
        rw [← hpos, ← hsame, hread, ← hpost, ← hread]
        exact readRecords_fuel hfuel' hfuel
      | cons p pre =>
        rw [hread] at h
        obtain ⟨rfl, hrest⟩ := List.cons.inj h
        have hmem : r ∈ (readRecords fuel reader').records := by
          rw [hrest]; simp
        have hbefore := (readRecords_within hmem).start
        have hdrop : reader'.rest.drop (r.lsn - reader'.pos) =
            reader.rest.drop (r.lsn - reader.pos) := by
          rw [hreader, drop_drop]
          congr 1
          rw [hreader] at hbefore
          dsimp only at hbefore ⊢
          omega
        have hshorter : reader'.rest.length < fuel := by
          rw [hreader]
          dsimp only
          rw [length_drop]
          omega
        have hagain := ih (by rw [hreader]; exact hearly) hrest hshorter (hdrop ▸ hfuel')
        rw [hdrop] at hagain
        rw [hagain, hread]

variable {offset : Nat}

theorem readAt_eq_ok {length : Nat} {bytes : Bytes} :
    dev.readAt segmentNo offset length = .ok bytes ↔
      segmentNo < dev.segmentCount ∧ offset ≤ dev.segmentSize ∧
        length ≤ dev.segmentSize - offset ∧
        bytes = ((dev.segments.getD segmentNo []).drop offset).take length := by
  rw [LogDevice.readAt, bind_eq_ok]
  constructor
  · rintro ⟨_, hrange, hbytes⟩
    rw [LogDevice.checkSegmentRange] at hrange
    split_ifs at hrange
    exact ⟨by omega, by omega, by omega, (Except.ok.inj hbytes).symm⟩
  · rintro ⟨hseg, hoffset, hlength, rfl⟩
    refine ⟨(), ?_, rfl⟩
    rw [LogDevice.checkSegmentRange, if_neg (by omega), if_neg (by omega)]

theorem segment_length (h : segmentNo < dev.segmentCount) :
    (dev.segments.getD segmentNo []).length = dev.segmentSize := by
  have hget : dev.segments.getD segmentNo [] = dev.segments[segmentNo] := by
    rw [getD_eq_getElem?_getD, List.getElem?_eq_getElem h, Option.getD_some]
  rw [hget]
  exact dev.sized _ (getElem_mem h)

/-- The reader a segment's body is read with. -/
def bodyReader (dev : LogDevice) (segmentNo bodyOffset : Nat) : RecordReader :=
  ⟨(dev.segments.getD segmentNo []).drop bodyOffset, segmentNo * dev.segmentSize + bodyOffset,
    false⟩

variable {read : SegmentRead}

theorem readSegment_eq_ok :
    readSegment dev coreId segmentNo bodyOffset = .ok read ↔
      (∃ header, readSegmentHeader dev coreId segmentNo = .ok header) ∧
        segmentNo < dev.segmentCount ∧ bodyOffset ≤ dev.segmentSize ∧
        read = readRecords (dev.segmentSize - bodyOffset + 1)
          (bodyReader dev segmentNo bodyOffset) := by
  have hwhole : segmentNo < dev.segmentCount → ((dev.segments.getD segmentNo []).drop
      bodyOffset).take (dev.segmentSize - bodyOffset) =
      (dev.segments.getD segmentNo []).drop bodyOffset := fun hseg => by
    rw [take_of_length_le]
    rw [length_drop, segment_length hseg]
  rw [readSegment, bind_eq_ok]
  constructor
  · rintro ⟨header, hheader, h⟩
    obtain ⟨body, hbody, hread⟩ := bind_eq_ok.mp h
    obtain ⟨hseg, hoffset, -, rfl⟩ := readAt_eq_ok.mp hbody
    refine ⟨⟨header, hheader⟩, hseg, hoffset, ?_⟩
    rw [← Except.ok.inj hread, hwhole hseg, length_drop, segment_length hseg, bodyReader]
  · rintro ⟨⟨header, hheader⟩, hseg, hoffset, rfl⟩
    refine ⟨header, hheader, ?_⟩
    rw [bind_eq_ok]
    refine ⟨_, readAt_eq_ok.mpr ⟨hseg, hoffset, le_refl _, rfl⟩, ?_⟩
    rw [hwhole hseg, length_drop, segment_length hseg, bodyReader]

theorem readSegment_within (h : readSegment dev coreId segmentNo bodyOffset = .ok read)
    (hr : r ∈ read.records) :
    r.Within (segmentNo * dev.segmentSize + bodyOffset)
      (segmentNo * dev.segmentSize + dev.segmentSize) := by
  obtain ⟨-, hseg, hoffset, rfl⟩ := readSegment_eq_ok.mp h
  have hwithin := readRecords_within hr
  have hlen : (bodyReader dev segmentNo bodyOffset).rest.length =
      dev.segmentSize - bodyOffset := by
    rw [bodyReader, length_drop, segment_length hseg]
  rw [hlen] at hwithin
  obtain ⟨hstart, haligned, hnonempty, hstop⟩ := hwithin
  refine ⟨hstart, haligned, hnonempty, ?_⟩
  have hpos : (bodyReader dev segmentNo bodyOffset).pos =
      segmentNo * dev.segmentSize + bodyOffset := rfl
  omega

theorem readSegment_sorted (h : readSegment dev coreId segmentNo bodyOffset = .ok read) :
    read.records.Pairwise DecodedRecord.Before := by
  obtain ⟨-, -, -, rfl⟩ := readSegment_eq_ok.mp h
  exact readRecords_sorted _ _

theorem readSegment_suffix (h : readSegment dev coreId segmentNo bodyOffset = .ok read)
    {pre post : List DecodedRecord} (hsplit : read.records = pre ++ r :: post) :
    readSegment dev coreId segmentNo (r.lsn - segmentNo * dev.segmentSize) =
      .ok { read with records := r :: post } := by
  have hwithin := readSegment_within h (r := r) (by rw [hsplit]; simp)
  obtain ⟨hstart, -, hnonempty, hstop⟩ := hwithin
  obtain ⟨hheader, hseg, hoffset, rfl⟩ := readSegment_eq_ok.mp h
  refine readSegment_eq_ok.mpr ⟨hheader, hseg, by omega, ?_⟩
  have hreader : bodyReader dev segmentNo (r.lsn - segmentNo * dev.segmentSize) =
      ⟨(bodyReader dev segmentNo bodyOffset).rest.drop
        (r.lsn - (bodyReader dev segmentNo bodyOffset).pos), r.lsn, false⟩ := by
    rw [bodyReader, bodyReader, drop_drop]
    dsimp only
    congr 2 <;> omega
  have hlen : (bodyReader dev segmentNo bodyOffset).rest.length =
      dev.segmentSize - bodyOffset := by
    rw [bodyReader, length_drop, segment_length hseg]
  have hpos : (bodyReader dev segmentNo bodyOffset).pos =
      segmentNo * dev.segmentSize + bodyOffset := rfl
  rw [hreader]
  refine (readRecords_suffix rfl hsplit (by omega) ?_).symm
  rw [length_drop]
  omega

theorem recordsEnd_suffix (fromLsn fromLsn' : Nat) (pre post : List DecodedRecord)
    (r : DecodedRecord) :
    recordsEnd fromLsn (pre ++ r :: post) = recordsEnd fromLsn' (r :: post) := by
  rw [recordsEnd, recordsEnd, List.getLast?_append]
  have hlast : (r :: post).getLast? = some ((r :: post).getLast (by simp)) :=
    List.getLast?_eq_some_getLast (by simp)
  rw [hlast]
  rfl

variable {fromLsn : Nat} {records : List DecodedRecord}

theorem le_recordsEnd (hsorted : records.Pairwise DecodedRecord.Before)
    (hwithin : ∀ r ∈ records, r.lsn < r.nextLsn) (hr : r ∈ records) :
    r.nextLsn ≤ recordsEnd fromLsn records := by
  obtain ⟨pre, post, rfl⟩ := append_of_mem hr
  rw [recordsEnd_suffix fromLsn fromLsn]
  have hpair := (pairwise_append.mp hsorted).2.1
  clear hsorted hr
  induction post generalizing r pre with
  | nil => exact le_refl _
  | cons q post ih =>
    have hq : r.nextLsn ≤ q.lsn := (pairwise_cons.mp hpair).1 q (by simp)
    have hq' := hwithin q (by simp)
    have hlater := ih (pre ++ [r]) (by simpa using hwithin) (pairwise_cons.mp hpair).2
    have hsame := recordsEnd_suffix fromLsn fromLsn [r] post q
    rw [singleton_append] at hsame
    rw [hsame]
    omega

variable {e : Nat}

theorem streamRecords_cases (h : streamRecords dev coreId (remaining + 1) segmentNo bodyOffset =
    .ok (records, e)) :
    ∃ read, readSegment dev coreId segmentNo bodyOffset = .ok read ∧
      ((∃ later, goesOn dev segmentNo bodyOffset read ∧
          streamRecords dev coreId remaining (segmentNo + 1) segmentHeaderSize = .ok (later, e) ∧
          records = read.records ++ later) ∨
        (¬ goesOn dev segmentNo bodyOffset read ∧ records = read.records ∧
          e = endIn dev segmentNo bodyOffset read)) := by
  rw [streamRecords] at h
  obtain ⟨read, hread, h⟩ := bind_eq_ok.mp h
  refine ⟨read, hread, ?_⟩
  by_cases hgo : goesOn dev segmentNo bodyOffset read
  · rw [if_pos hgo] at h
    obtain ⟨⟨later, e'⟩, hlater, h⟩ := bind_eq_ok.mp h
    cases h
    exact .inl ⟨later, hgo, hlater, rfl⟩
  · rw [if_neg hgo] at h
    cases h
    exact .inr ⟨hgo, rfl, rfl⟩

theorem endIn_bounds (h : readSegment dev coreId segmentNo bodyOffset = .ok read) :
    segmentNo * dev.segmentSize + bodyOffset ≤ endIn dev segmentNo bodyOffset read ∧
      ∀ r ∈ read.records, r.nextLsn ≤ endIn dev segmentNo bodyOffset read := by
  have hsorted := readSegment_sorted h
  have hwithin : ∀ r ∈ read.records, r.Within (segmentNo * dev.segmentSize + bodyOffset)
      (segmentNo * dev.segmentSize + dev.segmentSize) := fun r hr => readSegment_within h hr
  obtain ⟨-, -, hoffset, -⟩ := readSegment_eq_ok.mp h
  have hend : ∀ r ∈ read.records, r.nextLsn ≤
      recordsEnd (segmentNo * dev.segmentSize + bodyOffset) read.records := fun r hr =>
    le_recordsEnd hsorted (fun r hr => (hwithin r hr).nonempty) hr
  rw [endIn]
  split_ifs with hsealed
  · exact ⟨by omega, fun r hr => (hwithin r hr).stop⟩
  · refine ⟨?_, hend⟩
    cases hrecords : read.records with
    | nil => exact le_refl _
    | cons r rs =>
      have hr : r ∈ read.records := by rw [hrecords]; simp
      have hstart := (hwithin r hr).start
      have hnonempty := (hwithin r hr).nonempty
      have hlast := hend r hr
      rw [hrecords] at hlast
      omega

theorem streamRecords_within (h : streamRecords dev coreId remaining segmentNo bodyOffset =
    .ok (records, e)) :
    segmentNo * dev.segmentSize + bodyOffset ≤ e ∧
      ∀ r ∈ records, segmentNo * dev.segmentSize + bodyOffset ≤ r.lsn ∧ r.lsn < r.nextLsn ∧
        r.nextLsn ≤ e := by
  induction remaining generalizing segmentNo bodyOffset records with
  | zero =>
    cases h
    exact ⟨le_refl _, fun r hr => by cases hr⟩
  | succ remaining ih =>
    obtain ⟨read, hread, ⟨later, -, hlater, rfl⟩ | ⟨-, rfl, rfl⟩⟩ := streamRecords_cases h
    · obtain ⟨hend, hrecords⟩ := ih hlater
      have hnext : (segmentNo + 1) * dev.segmentSize =
          segmentNo * dev.segmentSize + dev.segmentSize := Nat.succ_mul ..
      obtain ⟨-, -, hoffset, -⟩ := readSegment_eq_ok.mp hread
      refine ⟨by omega, fun r hr => ?_⟩
      rcases mem_append.mp hr with hr | hr
      · obtain ⟨hstart, -, hnonempty, hstop⟩ := readSegment_within hread hr
        exact ⟨hstart, hnonempty, by omega⟩
      · obtain ⟨hstart, hnonempty, hstop⟩ := hrecords r hr
        exact ⟨by omega, hnonempty, hstop⟩
    · obtain ⟨hend, hrecords⟩ := endIn_bounds hread
      refine ⟨hend, fun r hr => ?_⟩
      obtain ⟨hstart, -, hnonempty, -⟩ := readSegment_within hread hr
      exact ⟨hstart, hnonempty, hrecords r hr⟩

theorem streamRecords_sorted (h : streamRecords dev coreId remaining segmentNo bodyOffset =
    .ok (records, e)) :
    records.Pairwise DecodedRecord.Before := by
  induction remaining generalizing segmentNo bodyOffset records with
  | zero =>
    cases h
    exact .nil
  | succ remaining ih =>
    obtain ⟨read, hread, ⟨later, -, hlater, rfl⟩ | ⟨-, rfl, rfl⟩⟩ := streamRecords_cases h
    · refine pairwise_append.mpr ⟨readSegment_sorted hread, ih hlater, ?_⟩
      intro r hr r' hr'
      have hstop := (readSegment_within hread hr).stop
      have hstart := ((streamRecords_within hlater).2 r' hr').1
      have hnext : (segmentNo + 1) * dev.segmentSize =
          segmentNo * dev.segmentSize + dev.segmentSize := Nat.succ_mul ..
      show r.nextLsn ≤ r'.lsn
      omega
    · exact readSegment_sorted hread

theorem streamRecords_suffix
    (h : streamRecords dev coreId remaining segmentNo bodyOffset = .ok (records, e))
    (hcount : segmentNo + remaining = dev.segmentCount) (hheader : segmentHeaderSize ≤ bodyOffset)
    (haligned : bodyOffset % recordAlignment = 0) {pre post : List DecodedRecord}
    (hsplit : records = pre ++ r :: post) :
    ∃ segmentNo' offset remaining', segmentNo' + (remaining' + 1) = dev.segmentCount ∧
      r.lsn = segmentNo' * dev.segmentSize + offset ∧ offset < dev.segmentSize ∧
      segmentHeaderSize ≤ offset ∧ offset % recordAlignment = 0 ∧
      streamRecords dev coreId (remaining' + 1) segmentNo' offset = .ok (r :: post, e) := by
  induction remaining generalizing segmentNo bodyOffset records pre with
  | zero =>
    obtain ⟨rfl, -⟩ := Prod.mk.inj (Except.ok.inj h)
    simp at hsplit
  | succ remaining ih =>
    -- a record of the first segment: the same segment, read from that record on
    have hhere : ∀ read, readSegment dev coreId segmentNo bodyOffset = .ok read →
        ∀ pre₁ post₁, read.records = pre₁ ++ r :: post₁ →
          (∀ later, ((goesOn dev segmentNo bodyOffset read ∧
              streamRecords dev coreId remaining (segmentNo + 1) segmentHeaderSize =
                .ok (later, e)) ∨
            (¬ goesOn dev segmentNo bodyOffset read ∧ later = [] ∧
              e = endIn dev segmentNo bodyOffset read)) → post = post₁ ++ later →
          ∃ segmentNo' offset remaining', segmentNo' + (remaining' + 1) = dev.segmentCount ∧
            r.lsn = segmentNo' * dev.segmentSize + offset ∧ offset < dev.segmentSize ∧
            segmentHeaderSize ≤ offset ∧ offset % recordAlignment = 0 ∧
            streamRecords dev coreId (remaining' + 1) segmentNo' offset = .ok (r :: post, e)) := by
      intro read hread pre₁ post₁ hrecords later hgo hpost
      have hr : r ∈ read.records := by rw [hrecords]; simp
      obtain ⟨hstart, halign, hnonempty, hstop⟩ := readSegment_within hread hr
      have hagain := readSegment_suffix hread hrecords
      have hends : recordsEnd (segmentNo * dev.segmentSize +
          (r.lsn - segmentNo * dev.segmentSize)) (r :: post₁) =
          recordsEnd (segmentNo * dev.segmentSize + bodyOffset) read.records := by
        rw [hrecords]
        exact (recordsEnd_suffix _ _ pre₁ post₁ r).symm
      have hsame : goesOn dev segmentNo (r.lsn - segmentNo * dev.segmentSize)
          { read with records := r :: post₁ } ↔ goesOn dev segmentNo bodyOffset read := by
        rw [goesOn, goesOn, hends]
      have hends' : endIn dev segmentNo (r.lsn - segmentNo * dev.segmentSize)
          { read with records := r :: post₁ } = endIn dev segmentNo bodyOffset read := by
        rw [endIn, endIn, hends]
      refine ⟨segmentNo, r.lsn - segmentNo * dev.segmentSize, remaining, hcount, by omega,
        by omega, by omega, ?_, ?_⟩
      · have hsum : r.lsn - segmentNo * dev.segmentSize =
            bodyOffset + (r.lsn - (segmentNo * dev.segmentSize + bodyOffset)) := by omega
        rw [hsum, Nat.add_mod, haligned, halign]
        rfl
      · rw [streamRecords, hagain, hpost]
        show ite _ _ _ = _
        rcases hgo with ⟨hgo, hlater⟩ | ⟨hgo, rfl, rfl⟩
        · rw [if_pos (hsame.mpr hgo), hlater]
          rfl
        · rw [if_neg (hsame.not.mpr hgo), hends', append_nil]
    obtain ⟨read, hread, ⟨later, hgo, hlater, hrecords⟩ | ⟨hgo, hrecords, hend⟩⟩ :=
      streamRecords_cases h
    · rw [hrecords] at hsplit
      rcases append_eq_append_iff.mp hsplit with ⟨mid, hpre, hmid⟩ | ⟨mid, hread', hmid⟩
      · exact ih hlater (by omega) (le_refl _) rfl hmid
      · cases mid with
        | nil =>
          rw [append_nil] at hread'
          exact ih hlater (by omega) (le_refl _) rfl (show _ = [] ++ r :: post from hmid.symm)
        | cons q mid =>
          obtain ⟨rfl, hpost⟩ := List.cons.inj hmid
          exact hhere read hread pre mid hread' later (.inl ⟨hgo, hlater⟩) hpost
    · rw [hrecords] at hsplit
      exact hhere read hread pre post hsplit [] (.inr ⟨hgo, rfl, hend⟩) (append_nil _).symm

-- Whole scans

/-- Where a scan starts: the segment and the offset `ScanLog` resolves its position to. -/
structure ScansFrom (dev : LogDevice) (fromLsn segmentNo offset remaining : Nat) : Prop where
  size : segmentHeaderSize < dev.segmentSize
  count : segmentNo + (remaining + 1) = dev.segmentCount
  header : segmentHeaderSize ≤ offset
  aligned : offset % recordAlignment = 0
  segment : (if fromLsn = 0 then 0 else fromLsn / dev.segmentSize) = segmentNo
  place : (if fromLsn = 0 then segmentHeaderSize else fromLsn % dev.segmentSize) = offset

theorem ScansFrom.scanLog_eq (h : ScansFrom dev fromLsn segmentNo offset remaining) (s : σ) :
    scanLog dev coreId visit fromLsn s =
      scanSegments dev coreId visit offset (List.range' segmentNo (remaining + 1))
        { lastSegment := segmentNo, endLsn := segmentNo * dev.segmentSize + offset } s := by
  have hsize := h.size
  have hcount := h.count
  have hheader := h.header
  rw [scanLog, if_neg (by omega), if_neg (by omega), h.segment, h.place]
  dsimp only
  rw [if_neg (by omega), if_neg (by omega), if_neg (not_not.mpr h.aligned)]
  congr 2
  omega

theorem scanLog_starts {s : σ} {result : ScanOutcome × σ}
    (h : scanLog dev coreId visit fromLsn s = .ok result) (hcount : dev.segmentCount ≠ 0) :
    ∃ segmentNo offset remaining, ScansFrom dev fromLsn segmentNo offset remaining := by
  rw [scanLog] at h
  dsimp only at h
  by_cases hsize : dev.segmentSize ≤ segmentHeaderSize
  · rw [if_pos hsize] at h
    cases h
  rw [if_neg hsize, if_neg hcount] at h
  generalize hseg : (if fromLsn = 0 then 0 else fromLsn / dev.segmentSize) = segmentNo at h
  generalize hplace : (if fromLsn = 0 then segmentHeaderSize else fromLsn % dev.segmentSize) =
    offset at h
  split_ifs at h with hpast hin halign
  exact ⟨segmentNo, offset, dev.segmentCount - segmentNo - 1, by omega, by omega, by omega,
    not_not.mp halign, hseg, hplace⟩

theorem foldlM_collect (records acc : List DecodedRecord) :
    records.foldlM (fun acc r => (.ok (acc ++ [r]) : StatusOr _)) acc = .ok (acc ++ records) := by
  induction records generalizing acc with
  | nil => rw [append_nil]; rfl
  | cons r records ih =>
    rw [foldlM_cons]
    show List.foldlM _ (acc ++ [r]) records = _
    rw [ih, append_assoc, singleton_append]

theorem ScansFrom.scannedRecords_eq (h : ScansFrom dev fromLsn segmentNo offset remaining)
    (hstream : streamRecords dev coreId (remaining + 1) segmentNo offset = .ok (records, e)) :
    scannedRecords dev coreId fromLsn = records := by
  obtain ⟨out, hscan, -⟩ := (scanSegments_eq_ok h.count).mpr
    ⟨records, hstream, foldlM_collect records []⟩
  rw [scannedRecords, h.scanLog_eq, hscan]
  rfl

/-- What a successful scan says about the records it handed out and the end it reports. -/
structure StreamOf (dev : LogDevice) (coreId : Nat) (records : List DecodedRecord)
    (endLsn : Nat) : Prop where
  endLsn_pos : 0 < endLsn
  within : ∀ r ∈ records, 0 < r.lsn ∧ r.lsn < r.nextLsn ∧ r.nextLsn ≤ endLsn
  sorted : records.Pairwise DecodedRecord.Before
  suffix : ∀ pre r post, records = pre ++ r :: post →
    scannedRecords dev coreId r.lsn = r :: post

theorem ScansFrom.of_position (hsize : segmentHeaderSize < dev.segmentSize)
    (hcount : segmentNo + (remaining + 1) = dev.segmentCount)
    (hheader : segmentHeaderSize ≤ offset) (halign : offset % recordAlignment = 0)
    (hoffset : offset < dev.segmentSize) :
    ScansFrom dev (segmentNo * dev.segmentSize + offset) segmentNo offset remaining := by
  have hpos : 0 < segmentHeaderSize := by decide
  have hnonzero : ¬ segmentNo * dev.segmentSize + offset = 0 := by omega
  refine ⟨hsize, hcount, hheader, halign, ?_, ?_⟩
  · rw [if_neg hnonzero, Nat.mul_comm, Nat.mul_add_div (by omega), Nat.div_eq_of_lt hoffset,
      Nat.add_zero]
  · rw [if_neg hnonzero, Nat.mul_comm, Nat.mul_add_mod, Nat.mod_eq_of_lt hoffset]

/-- **A successful scan** folds its visitor over the scanned records, which lie in increasing
    order before the reported end, and each of which a scan from its own position finds again,
    with everything after it. -/
theorem scanLog_spec {s s' : σ} (h : scanLog dev coreId visit fromLsn s = .ok (out, s')) :
    (scannedRecords dev coreId fromLsn).foldlM visit s = .ok s' ∧
      StreamOf dev coreId (scannedRecords dev coreId fromLsn) out.endLsn := by
  by_cases hcount : dev.segmentCount = 0
  · -- nothing was ever created
    rw [scanLog] at h
    split_ifs at h with hsize
    cases h
    have hnone : scannedRecords dev coreId fromLsn = [] := by
      rw [scannedRecords, scanLog, if_neg hsize, if_pos hcount]
    rw [hnone]
    refine ⟨rfl, by decide, fun r hr => ?_, .nil, fun pre r post hr => ?_⟩
    · cases hr
    · simp at hr
  · obtain ⟨segmentNo, offset, remaining, hfrom⟩ := scanLog_starts h hcount
    rw [hfrom.scanLog_eq] at h
    obtain ⟨records, hstream, hfold⟩ := (scanSegments_eq_ok hfrom.count).mp ⟨out, h, rfl⟩
    have hpos : 0 < segmentHeaderSize := by decide
    have hheader := hfrom.header
    obtain ⟨hend, hwithin⟩ := streamRecords_within hstream
    rw [hfrom.scannedRecords_eq hstream]
    refine ⟨hfold, by omega, fun r hr => ?_, streamRecords_sorted hstream, fun pre r post hr => ?_⟩
    · obtain ⟨hstart, hnonempty, hstop⟩ := hwithin r hr
      exact ⟨by omega, hnonempty, hstop⟩
    · obtain ⟨segmentNo', offset', remaining', hcount', hlsn, hoffset', hheader', halign',
        hagain⟩ :=
        streamRecords_suffix hstream hfrom.count hfrom.header hfrom.aligned hr
      have hfrom' := ScansFrom.of_position hfrom.size hcount' hheader' halign' hoffset'
      rw [hlsn]
      exact hfrom'.scannedRecords_eq hagain

end Stream

end Kds.Wal
