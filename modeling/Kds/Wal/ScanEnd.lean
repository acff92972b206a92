/-
  Kds.Wal.ScanEnd

  Scanning again from where a scan ended.  A scan ends inside a segment that exists, where a second
  scan finds nothing, or at the boundary after the last segment, which a second scan refuses: it
  names a segment that is not there yet (`rescan_iff`).  Redo starts at that end whenever analysis
  finds no dirty page.
-/

import Kds.Wal.Redo
import Kds.Wal.RedoStart

namespace Kds.Wal

open Lib

variable {dev : LogDevice} {coreId : Nat}

-- What is promised

/-- Whatever the visitor, a scan from the position succeeds and visits nothing. -/
def RescansEmpty (dev : LogDevice) (coreId endLsn : Nat) : Prop :=
  ∀ (σ : Type) (visit : σ → DecodedRecord → StatusOr σ) (s : σ),
    ∃ out, scanLog dev coreId visit endLsn s = .ok (out, s) ∧ out.endLsn = endLsn

/-- `Redo` over the log; `visit` is what it does with one record. -/
def redoLog (dev : LogDevice) (coreId : Nat)
    (visit : RedoState → DecodedRecord → StatusOr RedoState) (analysis : AnalysisResult)
    (store : RedoStore) : StatusOr RedoState :=
  match scanLog dev coreId visit analysis.redoStartLsn (.start store) with
  | .error e => .error e
  | .ok (_, st) =>
    match st.poisoned.min? with
    | none => .ok st
    | some pageId => .error (.corruption ("redo: page " ++ toString pageId ++
        " failed its checksum and no full page image restored it; the log cannot heal this " ++
        "page (docs/spec/page.md §10)"))

/-- Each of these segments leads to the next, and the last is sealed by a PAD or filled to its end
    by its records. -/
def FillsToEnd (dev : LogDevice) (coreId : Nat) : Nat → Nat → Nat → Prop
  | 0, segmentNo, bodyOffset => ∃ read, readSegment dev coreId segmentNo bodyOffset = .ok read ∧
      (read.sealed = true ∨ recordsEnd (segmentNo * dev.segmentSize + bodyOffset) read.records =
        (segmentNo + 1) * dev.segmentSize)
  | remaining + 1, segmentNo, bodyOffset =>
    (∃ read, readSegment dev coreId segmentNo bodyOffset = .ok read ∧
      goesOn dev segmentNo bodyOffset read) ∧
    FillsToEnd dev coreId remaining (segmentNo + 1) segmentHeaderSize

/-- The segments from a position on fill the device to its end. -/
def EndsAtBoundary (dev : LogDevice) (coreId fromLsn : Nat) : Prop :=
  let segmentNo := if fromLsn = 0 then 0 else fromLsn / dev.segmentSize
  let offset := if fromLsn = 0 then segmentHeaderSize else fromLsn % dev.segmentSize
  dev.segmentCount ≠ 0 ∧
    FillsToEnd dev coreId (dev.segmentCount - segmentNo - 1) segmentNo offset

-- Reading on from the last record

/-- The reader put where some records end. -/
def RecordReader.past (reader : RecordReader) (records : List DecodedRecord) : RecordReader :=
  ⟨reader.rest.drop (recordsEnd reader.pos records - reader.pos), recordsEnd reader.pos records,
    false⟩

theorem readRecords_recordsEnd (fuel : Nat) (reader : RecordReader) :
    reader.pos ≤ recordsEnd reader.pos (readRecords fuel reader).records ∧
      recordsEnd reader.pos (readRecords fuel reader).records ≤ reader.pos + reader.rest.length ∧
      (recordsEnd reader.pos (readRecords fuel reader).records - reader.pos) % recordAlignment =
        0 := by
  have hnone : ∀ reader : RecordReader, reader.pos ≤ recordsEnd reader.pos [] ∧
      recordsEnd reader.pos [] ≤ reader.pos + reader.rest.length ∧
      (recordsEnd reader.pos [] - reader.pos) % recordAlignment = 0 := by
    intro reader
    have hpos : recordsEnd reader.pos [] = reader.pos := rfl
    rw [hpos, Nat.sub_self]
    exact ⟨Nat.le_refl _, Nat.le_add_right _ _, rfl⟩
  induction fuel generalizing reader with
  | zero => exact hnone reader
  | succ fuel ih =>
    rcases readRecords_cases fuel reader with hnil | ⟨record, reader', hnext, -, hread⟩
    · rw [hnil]
      exact hnone reader
    · obtain ⟨hpos, hmin, halign, hmax, rfl⟩ := RecordReader.next_some hnext
      have hnextLsn : record.nextLsn = record.lsn + record.header.totalLen := rfl
      obtain ⟨hle, hge, hword⟩ := ih ⟨reader.rest.drop record.header.totalLen, record.nextLsn,
        reader.stoppedEarly⟩
      dsimp only at hle hge hword
      rw [List.length_drop] at hge
      rw [hread, recordsEnd_cons]
      refine ⟨by omega, by omega, ?_⟩
      have hsplit : recordsEnd record.nextLsn (readRecords fuel ⟨reader.rest.drop
          record.header.totalLen, record.nextLsn, reader.stoppedEarly⟩).records - reader.pos =
          record.header.totalLen + (recordsEnd record.nextLsn (readRecords fuel ⟨reader.rest.drop
            record.header.totalLen, record.nextLsn, reader.stoppedEarly⟩).records -
            record.nextLsn) := by omega
      rw [hsplit, Nat.add_mod, halign, hword]
      rfl

theorem readRecords_past {fuel fuel' : Nat} {reader : RecordReader}
    (hearly : reader.stoppedEarly = false) (hsealed : (readRecords fuel reader).sealed = false)
    (hfuel : reader.rest.length < fuel)
    (hfuel' : (reader.past (readRecords fuel reader).records).rest.length < fuel') :
    (readRecords fuel' (reader.past (readRecords fuel reader).records)).records = [] ∧
      (readRecords fuel' (reader.past (readRecords fuel reader).records)).sealed = false := by
  induction fuel generalizing reader with
  | zero => omega
  | succ fuel ih =>
    rcases readRecords_cases fuel reader with hnil | ⟨record, reader', hnext, -, hread⟩
    · have hsame : reader.past [] = reader := by
        show (⟨reader.rest.drop (reader.pos - reader.pos), reader.pos, false⟩ : RecordReader) = _
        rw [Nat.sub_self, List.drop_zero, ← hearly]
      rw [hnil, hsame] at hfuel' ⊢
      rw [readRecords_fuel hfuel' hfuel]
      exact ⟨hnil, hsealed⟩
    · obtain ⟨hpos, hmin, -, hmax, hreader⟩ := RecordReader.next_some hnext
      have hhead : 0 < recordHeaderSize := by decide
      have hnextLsn : record.nextLsn = record.lsn + record.header.totalLen := rfl
      have hpos' : reader'.pos = record.nextLsn := by rw [hreader]
      have hrest : reader'.rest = reader.rest.drop record.header.totalLen := by rw [hreader]
      have hshorter : reader'.rest.length < fuel := by
        rw [hrest, List.length_drop]
        omega
      have hle := (readRecords_recordsEnd fuel reader').1
      have hpast : reader.past (readRecords (fuel + 1) reader).records =
          reader'.past (readRecords fuel reader').records := by
        rw [hread, RecordReader.past, RecordReader.past, recordsEnd_cons, hrest, List.drop_drop,
          ← hpos']
        congr 2
        omega
      rw [hread] at hsealed
      rw [hpast] at hfuel' ⊢
      exact ih (by rw [hreader]; exact hearly) hsealed hshorter hfuel'

variable {segmentNo bodyOffset : Nat} {read : SegmentRead}

theorem readSegment_past
    (h : readSegment dev coreId segmentNo bodyOffset = .ok read) (hsealed : read.sealed = false) :
    ∃ offset again, recordsEnd (segmentNo * dev.segmentSize + bodyOffset) read.records =
        segmentNo * dev.segmentSize + offset ∧ bodyOffset ≤ offset ∧ offset ≤ dev.segmentSize ∧
      (offset - bodyOffset) % recordAlignment = 0 ∧
      readSegment dev coreId segmentNo offset = .ok again ∧ again.records = [] ∧
      again.sealed = false := by
  obtain ⟨hheader, hseg, hoffset, rfl⟩ := readSegment_eq_ok.mp h
  have hlen : (bodyReader dev segmentNo bodyOffset).rest.length = dev.segmentSize - bodyOffset := by
    rw [bodyReader, List.length_drop, segment_length hseg]
  have hpos : (bodyReader dev segmentNo bodyOffset).pos =
      segmentNo * dev.segmentSize + bodyOffset := rfl
  obtain ⟨hle, hge, hword⟩ := readRecords_recordsEnd (dev.segmentSize - bodyOffset + 1)
    (bodyReader dev segmentNo bodyOffset)
  rw [hlen] at hge
  rw [hpos] at hle hge hword
  obtain ⟨e, he⟩ : ∃ e, recordsEnd (segmentNo * dev.segmentSize + bodyOffset)
      (readRecords (dev.segmentSize - bodyOffset + 1)
        (bodyReader dev segmentNo bodyOffset)).records = e := ⟨_, rfl⟩
  have hpast : (bodyReader dev segmentNo bodyOffset).past
      (readRecords (dev.segmentSize - bodyOffset + 1)
        (bodyReader dev segmentNo bodyOffset)).records =
      bodyReader dev segmentNo (e - segmentNo * dev.segmentSize) := by
    rw [RecordReader.past, hpos, he, bodyReader, bodyReader, List.drop_drop]
    rw [he] at hle
    congr 2 <;> omega
  have hpastLen : ((bodyReader dev segmentNo bodyOffset).past
      (readRecords (dev.segmentSize - bodyOffset + 1)
        (bodyReader dev segmentNo bodyOffset)).records).rest.length <
      dev.segmentSize - (e - segmentNo * dev.segmentSize) + 1 := by
    rw [hpast, bodyReader, List.length_drop, segment_length hseg]
    omega
  have hagain := readRecords_past rfl hsealed (by omega) hpastLen
  rw [hpast] at hagain
  rw [he] at hle hge hword ⊢
  refine ⟨e - segmentNo * dev.segmentSize, _, by omega, by omega, by omega, ?_,
    readSegment_eq_ok.mpr ⟨hheader, hseg, by omega, rfl⟩, hagain⟩
  rw [← hword]
  congr 1
  omega

-- Where a stream ends

variable {remaining : Nat}

theorem fillsToEnd_succ (hread : readSegment dev coreId segmentNo bodyOffset = .ok read)
    (hgo : goesOn dev segmentNo bodyOffset read) :
    FillsToEnd dev coreId (remaining + 1) segmentNo bodyOffset ↔
      FillsToEnd dev coreId remaining (segmentNo + 1) segmentHeaderSize :=
  ⟨fun h => h.2, fun h => ⟨⟨read, hread, hgo⟩, h⟩⟩

/-- Where a stream that starts in a segment may end: inside a segment, where reading on finds
    nothing, or at the device's end, which its segments then fill. -/
def EndsProperly (dev : LogDevice) (coreId remaining segmentNo bodyOffset e : Nat) : Prop :=
  (∃ segment offset rest, segment + (rest + 1) = dev.segmentCount ∧
      e = segment * dev.segmentSize + offset ∧ segmentHeaderSize ≤ offset ∧
      offset < dev.segmentSize ∧ offset % recordAlignment = 0 ∧
      streamRecords dev coreId (rest + 1) segment offset = .ok ([], e) ∧
      ¬FillsToEnd dev coreId remaining segmentNo bodyOffset) ∨
    (e = dev.segmentCount * dev.segmentSize ∧
      FillsToEnd dev coreId remaining segmentNo bodyOffset)

theorem endsProperly_of_stop (hread : readSegment dev coreId segmentNo bodyOffset = .ok read)
    (hstop : ¬goesOn dev segmentNo bodyOffset read)
    (hcount : segmentNo + (remaining + 1) = dev.segmentCount)
    (hheader : segmentHeaderSize ≤ bodyOffset) (halign : bodyOffset % recordAlignment = 0) :
    EndsProperly dev coreId remaining segmentNo bodyOffset
      (endIn dev segmentNo bodyOffset read) := by
  have hnext : (segmentNo + 1) * dev.segmentSize = segmentNo * dev.segmentSize + dev.segmentSize :=
    Nat.succ_mul ..
  have hsame : ∀ read', readSegment dev coreId segmentNo bodyOffset = .ok read' → read' = read :=
    fun read' h => Except.ok.inj (h.symm.trans hread)
  -- A segment that stops the stream without leaving room for a header is the last.
  have hlast : (read.sealed = false → dev.segmentSize -
      (recordsEnd (segmentNo * dev.segmentSize + bodyOffset) read.records -
        segmentNo * dev.segmentSize) < recordHeaderSize) → remaining = 0 := by
    intro htail
    by_contra hmore
    exact hstop ⟨by omega, htail⟩
  rw [endIn]
  rcases hsealed : read.sealed with _ | _
  · rw [if_neg Bool.false_ne_true]
    obtain ⟨offset, again, hend, hle, hge, hword, hagain, hnone, hopen⟩ :=
      readSegment_past hread hsealed
    by_cases hfull : offset = dev.segmentSize
    · -- Filled to the last byte.
      obtain rfl : remaining = 0 := hlast fun _ => by
        rw [hend, hfull, Nat.add_sub_cancel_left, Nat.sub_self]
        decide
      have hcount' : dev.segmentCount = segmentNo + 1 := by omega
      right
      rw [hend, hfull, hcount', hnext]
      refine ⟨rfl, read, hread, .inr ?_⟩
      rw [hend, hfull, hnext]
    · left
      have hstop' : ¬goesOn dev segmentNo offset again := by
        rintro ⟨hmore, htail⟩
        refine hstop ⟨hmore, fun _ => ?_⟩
        have htail' := htail hopen
        rw [hnone] at htail'
        rw [hend]
        exact htail'
      refine ⟨segmentNo, offset, remaining, hcount, hend, by omega, by omega, ?_, ?_, ?_⟩
      · have hsum : offset = bodyOffset + (offset - bodyOffset) := by omega
        rw [hsum, Nat.add_mod, halign, hword]
        rfl
      · rw [streamRecords, hagain]
        show ite _ _ _ = _
        rw [if_neg hstop', endIn, hopen, if_neg Bool.false_ne_true, hnone, hend]
        rfl
      · intro hfills
        rcases remaining with _ | remaining
        · obtain ⟨read', hread', hcase⟩ := hfills
          obtain rfl := hsame read' hread'
          rcases hcase with hpad | hend'
          · rw [hsealed] at hpad
            cases hpad
          · rw [hend, hnext] at hend'
            omega
        · obtain ⟨⟨read', hread', hgo⟩, -⟩ := hfills
          obtain rfl := hsame read' hread'
          exact hstop hgo
  · rw [if_pos rfl]
    obtain rfl : remaining = 0 := hlast fun hopen => by
      rw [hsealed] at hopen
      cases hopen
    have hcount' : dev.segmentCount = segmentNo + 1 := by omega
    right
    rw [hcount', hnext]
    exact ⟨rfl, read, hread, .inl hsealed⟩

theorem streamRecords_end {records : List DecodedRecord}
    {e : Nat} (h : streamRecords dev coreId (remaining + 1) segmentNo bodyOffset = .ok (records, e))
    (hcount : segmentNo + (remaining + 1) = dev.segmentCount)
    (hheader : segmentHeaderSize ≤ bodyOffset) (halign : bodyOffset % recordAlignment = 0) :
    EndsProperly dev coreId remaining segmentNo bodyOffset e := by
  induction remaining generalizing segmentNo bodyOffset records with
  | zero =>
    obtain ⟨read, hread, ⟨later, hgo, -, -⟩ | ⟨hstop, -, rfl⟩⟩ := streamRecords_cases h
    · have hlt := hgo.1
      omega
    · exact endsProperly_of_stop hread hstop hcount hheader halign
  | succ remaining ih =>
    obtain ⟨read, hread, ⟨later, hgo, hlater, -⟩ | ⟨hstop, -, rfl⟩⟩ := streamRecords_cases h
    · have hends := ih hlater (by omega) (Nat.le_refl _) rfl
      rw [EndsProperly, fillsToEnd_succ hread hgo]
      exact hends
    · exact endsProperly_of_stop hread hstop hcount hheader halign

-- The second scan

section

variable {σ : Type} {visit : σ → DecodedRecord → StatusOr σ}

theorem scanLog_past_end (hsize : segmentHeaderSize < dev.segmentSize)
    (hcount : dev.segmentCount ≠ 0) (s : σ) :
    ∃ e, scanLog dev coreId visit (dev.segmentCount * dev.segmentSize) s = .error e := by
  have hpos : 0 < dev.segmentSize := by omega
  have hne : dev.segmentCount * dev.segmentSize ≠ 0 := Nat.mul_ne_zero hcount (by omega)
  have hdiv : dev.segmentCount * dev.segmentSize / dev.segmentSize = dev.segmentCount :=
    Nat.mul_div_cancel _ hpos
  rw [scanLog, if_neg (by omega), if_neg hcount, if_neg hne, hdiv]
  exact ⟨_, if_pos (Nat.le_refl _)⟩

/-- **A scan from where a scan ended** succeeds and visits nothing, or is refused: as the segments
    the first scan began in leave room on the device, or fill it to its end. -/
theorem scanLog_again {fromLsn : Nat} {s s' : σ} {out : ScanOutcome}
    (h : scanLog dev coreId visit fromLsn s = .ok (out, s')) :
    (RescansEmpty dev coreId out.endLsn ∧ ¬EndsAtBoundary dev coreId fromLsn) ∨
      ((∀ (τ : Type) (visit' : τ → DecodedRecord → StatusOr τ) (t : τ),
          ∃ e, scanLog dev coreId visit' out.endLsn t = .error e) ∧
        EndsAtBoundary dev coreId fromLsn) := by
  by_cases hcount : dev.segmentCount = 0
  · refine .inl ⟨fun τ visit' t => ?_, fun hends => hends.1 hcount⟩
    rw [scanLog] at h ⊢
    split_ifs at h ⊢ with hsize
    cases h
    exact ⟨_, rfl, rfl⟩
  · obtain ⟨segmentNo, offset, remaining, hfrom⟩ := scanLog_starts h hcount
    rw [hfrom.scanLog_eq] at h
    obtain ⟨records, hstream, -⟩ := (scanSegments_eq_ok hfrom.count).mp ⟨out, h, rfl⟩
    have hboundary : EndsAtBoundary dev coreId fromLsn ↔
        FillsToEnd dev coreId remaining segmentNo offset := by
      have hremaining : dev.segmentCount - segmentNo - 1 = remaining := by
        have hsum := hfrom.count
        omega
      rw [EndsAtBoundary, hfrom.segment, hfrom.place, hremaining]
      exact and_iff_right hcount
    rw [hboundary]
    rcases streamRecords_end hstream hfrom.count hfrom.header hfrom.aligned with
      ⟨segment, place, rest, hsum, hend, hheader, hplace, halign, hempty, hfills⟩ | ⟨hend, hfills⟩
    · refine .inl ⟨fun τ visit' t => ?_, hfills⟩
      have hagain := ScansFrom.of_position hfrom.size hsum hheader halign hplace
      rw [hend] at hempty ⊢
      obtain ⟨out', hscan, hout⟩ := (scanSegments_eq_ok hsum).mpr ⟨[], hempty, rfl⟩
      exact ⟨out', (hagain.scanLog_eq t).trans hscan, hout⟩
    · refine .inr ⟨fun τ visit' t => ?_, hfills⟩
      rw [hend]
      exact scanLog_past_end hfrom.size hcount t

end

/-- **A scan's end is a legal scan start**, where nothing is left to visit, if and only if the
    segments the scan began in do not fill the device to its end; and so redo of a log in which
    analysis found no dirty page succeeds, if and only if they do not. -/
theorem scanEnd_rescans_iff (dev : LogDevice) (coreId : Nat) :
    (∀ (σ : Type) (visit : σ → DecodedRecord → StatusOr σ) (fromLsn : Nat) (s s' : σ)
        (out : ScanOutcome), scanLog dev coreId visit fromLsn s = .ok (out, s') →
      (RescansEmpty dev coreId out.endLsn ↔ ¬EndsAtBoundary dev coreId fromLsn)) ∧
    ∀ (start : AnalysisStart) (analysis : AnalysisResult),
      analyze dev coreId start = .ok analysis → analysis.dirtyPages.entries = [] →
      ∀ (visit : RedoState → DecodedRecord → StatusOr RedoState) (store : RedoStore),
        (∃ st, redoLog dev coreId visit analysis store = .ok st) ↔
          ¬EndsAtBoundary dev coreId start.redoStartLsn := by
  constructor
  · intro σ visit fromLsn s s' out h
    rcases scanLog_again h with ⟨hempty, hends⟩ | ⟨hrefused, hends⟩
    · exact iff_of_true hempty hends
    · refine iff_of_false (fun hempty => ?_) (not_not.mpr hends)
      obtain ⟨out', hscan, -⟩ := hempty σ visit s
      obtain ⟨e, he⟩ := hrefused σ visit s
      rw [he] at hscan
      cases hscan
  · intro start analysis h hclean visit store
    obtain ⟨scan, out, hscan, -, hdirty, hstart⟩ := analyze_eq_ok h
    have hend : analysis.redoStartLsn = scan.endLsn := by
      rw [hstart, redoStartFrom, ← hdirty, hclean]
      rfl
    rw [redoLog, hend]
    rcases scanLog_again hscan with ⟨hempty, hends⟩ | ⟨hrefused, hends⟩
    · obtain ⟨out', hscan', -⟩ := hempty RedoState visit (.start store)
      rw [hscan']
      exact iff_of_true ⟨_, rfl⟩ hends
    · obtain ⟨e, he⟩ := hrefused RedoState visit (.start store)
      rw [he]
      refine iff_of_false ?_ (not_not.mpr hends)
      rintro ⟨st, hst⟩
      cases hst

/-- One segment, with some header-only records at its start. -/
def commitsDevice (commits : Nat)
    (h : (segmentBytes 4352 0 0 (List.replicate commits ({ type := .txnCommit, txnId := 7 },
      .ok []))).length = 4352) : LogDevice where
  segmentSize := 4352
  segments := [segmentBytes 4352 0 0 (List.replicate commits ({ type := .txnCommit, txnId := 7 },
    .ok []))]
  sized := fun s hs => List.mem_singleton.mp hs ▸ h
  addressable := by
    show 1 * 4352 < 2 ^ 64
    decide

def oneCommit : LogDevice := commitsDevice 1 (by decide +kernel)

/-- Eight records fill the segment. -/
def fullOfCommits : LogDevice := commitsDevice 8 (by decide +kernel)

/-- A store nothing was written to. -/
def freshRedoStore : RedoStore := ⟨fun _ => false, fun _ => .zeros, fun _ => none⟩

/-- A segment with room left: its end is scanned from again, and redo of the clean log succeeds. -/
theorem oneCommit_rescans :
    (∃ out, scanLog oneCommit 0 (fun n (_ : DecodedRecord) => .ok (n + 1)) 0 0 = .ok (out, 1) ∧
      RescansEmpty oneCommit 0 out.endLsn) ∧
    ∃ analysis, analyze oneCommit 0 {} = .ok analysis ∧ analysis.dirtyPages.entries = [] ∧
      ∃ st, redoLog oneCommit 0 (fun st _ => .ok st) analysis freshRedoStore = .ok st := by
  have hroom : ¬EndsAtBoundary oneCommit 0 0 := by
    rintro ⟨-, read, hread, hfull⟩
    have hopen : (readSegment oneCommit 0 0 4096).toOption.any (fun read =>
        !read.sealed && recordsEnd 4096 read.records != 4352) = true := by
      decide +kernel
    have hread' : readSegment oneCommit 0 0 4096 = .ok read := hread
    rw [hread'] at hopen
    obtain ⟨hsealed, hend⟩ := (Bool.and_eq_true _ _).mp hopen
    rcases hfull with hpad | hfill
    · rw [hpad] at hsealed
      cases hsealed
    · exact absurd hfill (bne_iff_ne.mp hend)
  constructor
  · have hscan : (scanLog oneCommit 0 (fun n (_ : DecodedRecord) => .ok (n + 1)) 0 0).toOption.any
        (fun r => r.2 == 1) = true := by
      decide +kernel
    rcases h : scanLog oneCommit 0 (fun n (_ : DecodedRecord) => .ok (n + 1)) 0 0 with
      e | ⟨out, n⟩
    · rw [h] at hscan
      cases hscan
    · rw [h] at hscan
      obtain rfl : n = 1 := eq_of_beq hscan
      exact ⟨out, rfl, ((scanEnd_rescans_iff oneCommit 0).1 Nat _ 0 0 1 out h).mpr hroom⟩
  · obtain ⟨analysis, hanalysis, hempty⟩ := @exists_analyze oneCommit 0 {}
      (fun a => a.dirtyPages.entries.isEmpty) (by decide +kernel)
    have hclean := List.isEmpty_iff.mp hempty
    exact ⟨analysis, hanalysis, hclean, ((scanEnd_rescans_iff oneCommit 0).2 {} analysis hanalysis
      hclean (fun st _ => .ok st) freshRedoStore).mpr hroom⟩

/-- A segment its records fill: the end of a scan is refused as the start of the next, and redo of
    the clean log with it. -/
theorem fullOfCommits_refused :
    (¬∀ (σ : Type) (visit : σ → DecodedRecord → StatusOr σ) (fromLsn : Nat) (s s' : σ)
        (out : ScanOutcome), scanLog fullOfCommits 0 visit fromLsn s = .ok (out, s') →
      RescansEmpty fullOfCommits 0 out.endLsn) ∧
      ∃ analysis, analyze fullOfCommits 0 {} = .ok analysis ∧ analysis.dirtyPages.entries = [] ∧
        ∀ visit store, ∃ e, redoLog fullOfCommits 0 visit analysis store = .error e := by
  have hcount : fullOfCommits.segmentCount ≠ 0 := by decide +kernel
  have hsize : segmentHeaderSize < fullOfCommits.segmentSize := by decide +kernel
  have hboundary : 4352 = fullOfCommits.segmentCount * fullOfCommits.segmentSize := by
    decide +kernel
  constructor
  · intro hclaim
    have hscan : (scanLog fullOfCommits 0 (fun n (_ : DecodedRecord) => .ok (n + 1))
        0 0).toOption.any (fun r => r.1.endLsn == 4352) = true := by
      decide +kernel
    rcases h : scanLog fullOfCommits 0 (fun n (_ : DecodedRecord) => .ok (n + 1)) 0 0 with
      e | ⟨out, n⟩
    · rw [h] at hscan
      cases hscan
    · rw [h] at hscan
      have hend : out.endLsn = 4352 := eq_of_beq hscan
      obtain ⟨out', hagain, -⟩ := hclaim Nat _ 0 0 n out h Nat (fun n _ => .ok n) 0
      obtain ⟨e, he⟩ := @scanLog_past_end fullOfCommits 0 Nat (fun n _ => .ok n) hsize hcount 0
      rw [hend, hboundary, he] at hagain
      cases hagain
  · obtain ⟨analysis, hanalysis, hmeets⟩ := @exists_analyze fullOfCommits 0 {}
      (fun a => a.dirtyPages.entries.isEmpty && a.redoStartLsn == 4352) (by decide +kernel)
    obtain ⟨hclean, hstart⟩ := (Bool.and_eq_true _ _).mp hmeets
    refine ⟨analysis, hanalysis, List.isEmpty_iff.mp hclean, fun visit store => ?_⟩
    obtain ⟨e, he⟩ := @scanLog_past_end fullOfCommits 0 RedoState visit hsize hcount (.start store)
    rw [redoLog, eq_of_beq hstart, hboundary, he]
    exact ⟨e, rfl⟩

end Kds.Wal
