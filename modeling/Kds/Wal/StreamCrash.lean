/-
  Kds.Wal.StreamCrash

  What a crash leaves of a log, and what a scan makes of it.  Every byte of the image is the one
  that was written or the one on the platter; the scan passes over the records that survived whole
  and stops at the first that did not, so long as the header blocks it needs are there and no torn
  record reads as one.
-/

import Mathlib.Data.List.GetD
import Kds.Wal.StreamRuns

namespace Kds.Wal

open Lib List

-- Bytes of a device

/-- One byte of a segment; zero past its end. -/
def byteAt (dev : LogDevice) (k i : Nat) : UInt8 := (dev.segments.getD k []).getD i 0

/-- What a segment holds behind its header block. -/
def bodyOf (dev : LogDevice) (k : Nat) : Bytes := (dev.segments.getD k []).drop segmentHeaderSize

/-- What a crash leaves: every byte as it was written, or as it was on the platter. -/
structure LogImage (content platter image : LogDevice) : Prop where
  size : image.segmentSize = content.segmentSize
  count : image.segmentCount = content.segmentCount
  byte : ∀ k i, byteAt image k i = byteAt content k i ∨ byteAt image k i = byteAt platter k i

/-- A record or a marker that did not survive whole does not read as one: where the walk over what
    was written comes to a record, the image has its very bytes, or nothing that reads. -/
def TearShows (body image : Bytes) (pos : Nat) : Prop :=
  ∀ (bytes rest : Bytes) (records : List DecodedRecord) (r : DecodedRecord) (reader : RecordReader),
    body = bytes ++ rest → Spells bytes pos records →
      RecordReader.next ⟨rest, pos + bytes.length, false⟩ = (some r, reader) →
        (image.drop bytes.length).take r.header.totalLen = rest.take r.header.totalLen ∨
          (RecordReader.next ⟨image.drop bytes.length, pos + bytes.length, false⟩).1 = none

-- The walk over an image

section Walk

variable {bytes tail image itail : Bytes} {pos : Nat} {records : List DecodedRecord}

theorem exists_getD_ne (hlength : image.length = bytes.length) (hne : image ≠ bytes) :
    ∃ i, i < bytes.length ∧ image.getD i 0 ≠ bytes.getD i 0 := by
  by_contra hall
  refine hne (ext_getElem hlength fun i h h' => ?_)
  have heq : image.getD i 0 = bytes.getD i 0 := by
    by_contra hdiff
    exact hall ⟨i, h', hdiff⟩
  rw [getD_eq_getElem _ _ h, getD_eq_getElem _ _ h'] at heq
  exact heq

theorem TearShows.shift (h : TearShows (bytes ++ tail) (bytes ++ itail) pos)
    (hspells : Spells bytes pos records) : TearShows tail itail (pos + bytes.length) := by
  intro bytes' rest records' r reader htail hspells' hnext
  have hpos : pos + (bytes ++ bytes').length = pos + bytes.length + bytes'.length := by
    rw [length_append, Nat.add_assoc]
  have hdrop : (bytes ++ itail).drop (bytes ++ bytes').length = itail.drop bytes'.length := by
    rw [length_append, ← drop_drop, drop_left]
  have hwhole := h (bytes ++ bytes') rest (records ++ records') r reader
    (by rw [htail, append_assoc]) (hspells.append hspells')
  rw [hpos, hdrop] at hwhole
  exact hwhole hnext

/-- Where the walk over an image stops short of the records that were written. -/
structure TornAt (body image : Bytes) (pos : Nat) (records pre : List DecodedRecord)
    (before after : Bytes) (r : DecodedRecord) (post : List DecodedRecord) (i : Nat) : Prop where
  records_eq : records = pre ++ r :: post
  image_eq : image = before ++ after
  spells : Spells before pos pre
  stops : (RecordReader.next ⟨after, pos + before.length, false⟩).1 = none
  lsn : r.lsn = pos + before.length
  header : recordHeaderSize ≤ r.header.totalLen
  fits : r.header.totalLen ≤ after.length
  from_le : before.length ≤ i
  lt_to : i < before.length + r.header.totalLen
  differs : image.getD i 0 ≠ body.getD i 0

/-- **The walk over an image** comes to the end of what was written, or stops at the first record
    that did not survive whole. -/
theorem Spells.onImage (h : Spells bytes pos records)
    (hlength : image.length = (bytes ++ tail).length)
    (hshows : TearShows (bytes ++ tail) image pos) :
    (∃ itail, image = bytes ++ itail) ∨
      ∃ pre before after r post i,
        TornAt (bytes ++ tail) image pos records pre before after r post i := by
  induction h generalizing image with
  | nil pos => exact .inl ⟨image, rfl⟩
  | @cons first later pos r records hdecodes hlsn hsize hpad hrest ih =>
    have hnext : RecordReader.next ⟨first ++ (later ++ tail), pos, false⟩ =
        (some r, ⟨later ++ tail, pos + first.length, false⟩) :=
      RecordReader.next_of_decode (hdecodes _) hlsn hsize
    have hmin := (decodeRecord_totalLen (hdecodes [])).1
    rw [append_assoc] at hlength hshows ⊢
    have hsplit : image = image.take first.length ++ image.drop first.length :=
      (take_append_drop _ _).symm
    have hcut : (image.take first.length).length = first.length := by
      rw [length_take, hlength, length_append]
      omega
    by_cases hsame : image.take first.length = first
    · -- the record survived
      rw [hsame] at hsplit
      have hspells : Spells (first ++ []) pos [r] := .cons hdecodes hlsn hsize hpad (.nil _)
      rw [append_nil] at hspells
      rw [hsplit] at hshows
      have hlength' : (image.drop first.length).length = (later ++ tail).length := by
        rw [length_drop, hlength, length_append]
        omega
      rcases ih hlength' (hshows.shift hspells) with ⟨itail, himage⟩ |
        ⟨pre, before, after, r', post, i, htorn⟩
      · refine .inl ⟨itail, ?_⟩
        rw [append_assoc, ← himage]
        exact hsplit
      · refine .inr ⟨r :: pre, first ++ before, after, r', post, first.length + i, ?_, ?_, ?_, ?_,
          ?_, htorn.header, htorn.fits, ?_, ?_, ?_⟩
        · rw [htorn.records_eq, cons_append]
        · rw [append_assoc, ← htorn.image_eq]
          exact hsplit
        · exact .cons hdecodes hlsn hsize hpad htorn.spells
        · rw [length_append, ← Nat.add_assoc]
          exact htorn.stops
        · rw [length_append, ← Nat.add_assoc]
          exact htorn.lsn
        · rw [length_append]
          exact Nat.add_le_add_left htorn.from_le _
        · rw [length_append, Nat.add_assoc]
          exact Nat.add_lt_add_left htorn.lt_to _
        · have hdiffers := htorn.differs
          rw [hsplit, getD_append_right _ _ _ _ (Nat.le_add_right _ _),
            getD_append_right _ _ _ _ (Nat.le_add_right _ _), Nat.add_sub_cancel_left]
          exact hdiffers
    · -- it did not
      have hstops : (RecordReader.next ⟨image, pos, false⟩).1 = none := by
        have hhere := hshows [] (first ++ (later ++ tail)) [] r _ rfl (.nil pos) hnext
        rw [length_nil, drop_zero, ← hsize, take_left, Nat.add_zero] at hhere
        exact hhere.resolve_left hsame
      obtain ⟨i, hi, hdiff⟩ := exists_getD_ne hcut hsame
      refine .inr ⟨[], [], image, r, records, i, rfl, rfl, .nil pos, hstops, hlsn, hmin, ?_,
        Nat.zero_le i, ?_, ?_⟩
      · rw [← hsize, hlength, length_append]
        omega
      · rw [length_nil, Nat.zero_add, ← hsize]
        exact hi
      · rw [getD_append _ _ _ _ hi]
        rw [getD_eq_getElem _ _ (by rw [hcut]; exact hi), getElem_take] at hdiff
        rw [getD_eq_getElem _ _ (by
          rw [hlength, length_append]
          omega)]
        exact hdiff

end Walk

-- One segment of an image

section Segment

variable {content image : LogDevice} {coreId k : Nat} {records : List DecodedRecord}
  {bytes tail : Bytes} {reader : RecordReader}

/-- A segment of an image that reads short of the records that were written to it: a byte did not
    survive, and the records that are missing end behind it. -/
structure ReadsShort (content image : LogDevice) (coreId k : Nat) (records : List DecodedRecord)
    (read : SegmentRead) (later : List DecodedRecord) (i : Nat) : Prop where
  reads : readSegment image coreId k segmentHeaderSize = .ok read
  stops : ¬ (read.sealed = false → image.segmentSize -
    (recordsEnd (k * image.segmentSize + segmentHeaderSize) read.records - k * image.segmentSize) <
      recordHeaderSize)
  records_eq : records = read.records ++ later
  header_le : segmentHeaderSize ≤ i
  lt_size : i < content.segmentSize
  differs : byteAt image k i ≠ byteAt content k i
  behind : ∀ r ∈ later, k * content.segmentSize + i < r.nextLsn

theorem getD_bodyOf (dev : LogDevice) (k i : Nat) :
    (bodyOf dev k).getD i 0 = byteAt dev k (segmentHeaderSize + i) := by
  unfold bodyOf byteAt
  rw [getD_eq_getElem?_getD, List.getElem?_drop, ← getD_eq_getElem?_getD]

theorem length_bodyOf (dev : LogDevice) (hk : k < dev.segmentCount) :
    (bodyOf dev k).length = dev.segmentSize - segmentHeaderSize := by
  unfold bodyOf
  rw [length_drop, segment_length hk]

theorem readSegment_of_header {dev : LogDevice} {header : SegmentHeader}
    (hheader : readSegmentHeader dev coreId k = .ok header) (hk : k < dev.segmentCount)
    (hsize : segmentHeaderSize ≤ dev.segmentSize) :
    readSegment dev coreId k segmentHeaderSize = .ok (readRecords ((bodyOf dev k).length + 1)
      ⟨bodyOf dev k, k * dev.segmentSize + segmentHeaderSize, false⟩) := by
  refine readSegment_eq_ok.mpr ⟨⟨header, hheader⟩, hk, hsize, ?_⟩
  rw [length_bodyOf dev hk]
  rfl

theorem readRecords_of_none (fuel : Nat) (h : reader.next.1 = none) :
    (readRecords fuel reader).records = [] ∧ (readRecords fuel reader).sealed = false := by
  cases fuel with
  | zero => exact ⟨rfl, rfl⟩
  | succ fuel =>
    rw [readRecords]
    rcases hnext : reader.next with ⟨_ | r, reader'⟩
    · exact ⟨rfl, rfl⟩
    · rw [hnext] at h
      cases h

theorem segment_onImage (hsize : image.segmentSize = content.segmentSize)
    (hcount : image.segmentCount = content.segmentCount) (hk : k < content.segmentCount)
    (hlarge : segmentHeaderSize ≤ content.segmentSize)
    (hheader : ∃ header, readSegmentHeader image coreId k = .ok header)
    (hbody : bodyOf content k = bytes ++ tail)
    (hspells : Spells bytes (k * content.segmentSize + segmentHeaderSize) records)
    (hshows : TearShows (bodyOf content k) (bodyOf image k)
      (k * content.segmentSize + segmentHeaderSize)) :
    (∃ itail, bodyOf image k = bytes ++ itail ∧ itail.length = tail.length ∧
        TearShows tail itail (k * content.segmentSize + segmentHeaderSize + bytes.length) ∧
        readSegment image coreId k segmentHeaderSize = .ok
          { readRecords (itail.length + 1)
              ⟨itail, k * content.segmentSize + segmentHeaderSize + bytes.length, false⟩ with
            records := records ++ (readRecords (itail.length + 1)
              ⟨itail, k * content.segmentSize + segmentHeaderSize + bytes.length,
                false⟩).records }) ∨
      ∃ read later i, ReadsShort content image coreId k records read later i := by
  obtain ⟨header, hheader⟩ := hheader
  have hlength : (bodyOf image k).length = (bytes ++ tail).length := by
    rw [← hbody, length_bodyOf image (by omega), length_bodyOf content hk, hsize]
  have hread := readSegment_of_header hheader (by omega) (by omega)
  rw [hsize] at hread
  rw [hbody] at hshows
  rcases hspells.onImage hlength hshows with ⟨itail, himage⟩ |
    ⟨pre, before, after, r, post, i, htorn⟩
  · refine .inl ⟨itail, himage, ?_, ?_, ?_⟩
    · rw [himage, length_append, length_append] at hlength
      omega
    · rw [himage] at hshows
      exact hshows.shift hspells
    · rw [hread, himage]
      exact congrArg Except.ok (hspells.readRecords itail false (Nat.lt_succ_self _)
        (Nat.lt_succ_self _))
  · have hwalk := htorn.spells.readRecords after false (Nat.lt_succ_self _)
      (Nat.lt_succ_self after.length)
    have hnone := readRecords_of_none (after.length + 1) htorn.stops
    rw [htorn.image_eq, hwalk, hnone.1, append_nil] at hread
    have hfits := htorn.fits
    have hmin := htorn.header
    have htotal : (before ++ after).length = content.segmentSize - segmentHeaderSize := by
      rw [← htorn.image_eq, length_bodyOf image (by omega), hsize]
    rw [length_append] at htotal
    have hto := htorn.lt_to
    have hfrom := htorn.from_le
    have hsorted : ∀ r' ∈ r :: post, r.nextLsn ≤ r'.nextLsn := by
      have hall := hspells.sorted
      rw [htorn.records_eq] at hall
      obtain ⟨hlater, -⟩ := pairwise_cons.mp (pairwise_append.mp hall).2.1
      intro r' hr'
      rcases mem_cons.mp hr' with rfl | hpost
      · exact Nat.le_refl _
      · have hmem : r' ∈ records := by
          rw [htorn.records_eq]
          exact mem_append_right _ (mem_cons_of_mem _ hpost)
        have hbefore : r.nextLsn ≤ r'.lsn := hlater r' hpost
        have hnonempty := (hspells.within hmem).2
        omega
    refine .inr ⟨_, r :: post, segmentHeaderSize + i, hread, ?_, htorn.records_eq,
      Nat.le_add_right _ _, by omega, ?_, fun r' hr' => ?_⟩
    · intro hgoes
      have hshort := hgoes hnone.2
      dsimp only at hshort
      rw [hsize, htorn.spells.recordsEnd] at hshort
      omega
    · have hdiffers := htorn.differs
      rw [← hbody, getD_bodyOf, getD_bodyOf] at hdiffers
      exact hdiffers
    · have hlsn := htorn.lsn
      have hnextLsn : r.nextLsn = r.lsn + r.header.totalLen := rfl
      have hbehind := hsorted r' hr'
      omega

theorem next_of_take {itail : Bytes} {pos : Nat} {r : DecodedRecord}
    (h : RecordReader.next ⟨tail, pos, false⟩ = (some r, reader))
    (hsame : itail.take r.header.totalLen = tail.take r.header.totalLen) :
    (RecordReader.next ⟨itail, pos, false⟩).1 = some r := by
  obtain ⟨hlsn, hmin, -, hmax, -⟩ := RecordReader.next_some h
  have hdecode : decodeRecord tail = .ok r := RecordReader.next_decodes h
  have hlength : (tail.take r.header.totalLen).length = r.header.totalLen := by
    rw [length_take]
    exact Nat.min_eq_left hmax
  have hwhole : decodeRecord (tail.take r.header.totalLen ++ tail.drop r.header.totalLen) =
      .ok r := by
    rw [take_append_drop]
    exact hdecode
  have himage := decodeRecord_append hwhole (Nat.le_of_eq hlength.symm)
    (itail.drop r.header.totalLen)
  have hsplit : itail = tail.take r.header.totalLen ++ itail.drop r.header.totalLen := by
    rw [← hsame, take_append_drop]
  rw [hsplit, RecordReader.next_of_decode himage hlsn hlength]

/-- A segment that a scan passes over: the bytes of its records, and then a marker or a tail too
    short for one. -/
theorem SegmentGoes.spelled (h : SegmentGoes content coreId k records) :
    k < content.segmentCount ∧ segmentHeaderSize ≤ content.segmentSize ∧
      ∃ bytes tail, bodyOf content k = bytes ++ tail ∧
        Spells bytes (k * content.segmentSize + segmentHeaderSize) records ∧
        ((∃ r reader, RecordReader.next
            ⟨tail, k * content.segmentSize + segmentHeaderSize + bytes.length, false⟩ =
              (some r, reader) ∧ r.type = .pad) ∨ tail.length < recordHeaderSize) := by
  obtain ⟨read, hread, rfl, hend⟩ := h
  obtain ⟨-, hk, hlarge, hwalk⟩ := readSegment_eq_ok.mp hread
  have hlength := length_bodyOf content hk
  obtain ⟨bytes, tail, hbody, hspells, hstop⟩ := readRecords_spells (bodyOf content k)
    (k * content.segmentSize + segmentHeaderSize) false
    (show _ < content.segmentSize - segmentHeaderSize + 1 by omega)
  have hread' : readRecords (content.segmentSize - segmentHeaderSize + 1) ⟨bodyOf content k,
      k * content.segmentSize + segmentHeaderSize, false⟩ = read := hwalk.symm
  rw [hread'] at hspells hstop
  refine ⟨hk, hlarge, bytes, tail, hbody, hspells, ?_⟩
  by_cases hsealed : read.sealed = true
  · rw [readRecords] at hstop
    rcases hnext : RecordReader.next
      ⟨tail, k * content.segmentSize + segmentHeaderSize + bytes.length, false⟩ with ⟨_ | r, reader⟩
    · rw [hnext] at hstop
      have hfalse := congrArg SegmentRead.sealed hstop
      rw [hsealed] at hfalse
      cases hfalse
    · rw [hnext] at hstop
      dsimp only at hstop
      by_cases hpad : r.type = .pad
      · exact .inl ⟨r, reader, rfl, hpad⟩
      · rw [if_neg hpad] at hstop
        cases congrArg SegmentRead.records hstop
  · have hshort := hend ((Bool.not_eq_true _).mp hsealed)
    rw [hspells.recordsEnd] at hshort
    have htotal := congrArg List.length hbody
    rw [hlength, length_append] at htotal
    exact .inr (by omega)

/-- **A sealed segment of an image** is one that a scan passes over as it did, or it reads short. -/
theorem SegmentGoes.onImage (h : SegmentGoes content coreId k records)
    (hsize : image.segmentSize = content.segmentSize)
    (hcount : image.segmentCount = content.segmentCount)
    (hheader : ∃ header, readSegmentHeader image coreId k = .ok header)
    (hshows : TearShows (bodyOf content k) (bodyOf image k)
      (k * content.segmentSize + segmentHeaderSize)) :
    SegmentGoes image coreId k records ∨
      ∃ read later i, ReadsShort content image coreId k records read later i := by
  obtain ⟨hk, hlarge, bytes, tail, hbody, hspells, hseal⟩ := h.spelled
  rcases segment_onImage hsize hcount hk hlarge hheader hbody hspells hshows with
    ⟨itail, himage, hlength, htears, hread⟩ | hshort
  · have htotal := congrArg List.length hbody
    rw [length_bodyOf content hk, length_append] at htotal
    have hend : image.segmentSize - (recordsEnd (k * image.segmentSize + segmentHeaderSize)
        records - k * image.segmentSize) = tail.length := by
      rw [hsize, hspells.recordsEnd]
      omega
    rcases hseal with ⟨r, reader, hnext, hpad⟩ | hshort
    · have hlsn := RecordReader.next_some hnext
      have hdrop := htears [] tail [] r reader rfl (.nil _) hnext
      rw [length_nil, drop_zero, Nat.add_zero] at hdrop
      by_cases hsame : itail.take r.header.totalLen = tail.take r.header.totalLen
      · -- the marker survived
        have hmarker := next_of_take hnext hsame
        have hwalk : (readRecords (itail.length + 1) ⟨itail,
            k * content.segmentSize + segmentHeaderSize + bytes.length, false⟩).records = [] ∧
            (readRecords (itail.length + 1) ⟨itail,
              k * content.segmentSize + segmentHeaderSize + bytes.length, false⟩).sealed =
                true := by
          rw [readRecords]
          rcases hnext' : RecordReader.next ⟨itail,
            k * content.segmentSize + segmentHeaderSize + bytes.length, false⟩ with ⟨_ | r',
              reader'⟩
          · rw [hnext'] at hmarker
            cases hmarker
          · rw [hnext'] at hmarker
            rw [Option.some.inj hmarker]
            dsimp only
            rw [if_pos hpad]
            exact ⟨rfl, rfl⟩
        refine .inl ⟨_, hread, ?_, fun hfalse => ?_⟩
        · dsimp only
          rw [hwalk.1, append_nil]
        · have htrue := hwalk.2
          dsimp only at hfalse
          rw [hfalse] at htrue
          cases htrue
      · -- it did not: the walk stops where it stood
        obtain ⟨hnone, hunsealed⟩ := readRecords_of_none (itail.length + 1)
          (hdrop.resolve_left hsame)
        obtain ⟨-, hmin, -, hmax, -⟩ := hlsn
        dsimp only at hmax
        have hcut : (tail.take r.header.totalLen).length = r.header.totalLen := by
          rw [length_take]
          exact Nat.min_eq_left hmax
        obtain ⟨i, hi, hdiff⟩ := exists_getD_ne (by
          rw [length_take, length_take, hlength]) hsame
        rw [hcut] at hi
        have htake : ∀ l : Bytes, l.length = tail.length →
            (l.take r.header.totalLen).getD i 0 = l.getD i 0 := by
          intro l hl
          have hlt : i < (l.take r.header.totalLen).length := by
            rw [length_take]
            omega
          rw [getD_eq_getElem _ _ hlt, getElem_take, getD_eq_getElem _ _ (by omega)]
        rw [htake itail hlength, htake tail rfl] at hdiff
        refine .inr ⟨_, [], segmentHeaderSize + (bytes.length + i), hread, ?_, ?_,
          Nat.le_add_right _ _, by omega, ?_, fun r' hr' => ?_⟩
        · intro hgoes
          have hshort := hgoes hunsealed
          dsimp only at hshort
          rw [hnone, append_nil, hend] at hshort
          omega
        · dsimp only
          rw [hnone, append_nil, append_nil]
        · rw [← getD_bodyOf, ← getD_bodyOf, himage, hbody,
            getD_append_right _ _ _ _ (Nat.le_add_right _ _),
            getD_append_right _ _ _ _ (Nat.le_add_right _ _), Nat.add_sub_cancel_left]
          exact hdiff
        · cases hr'
    · -- a tail too short for a marker
      obtain ⟨hnone, -⟩ := readRecords_short
        (show (⟨itail, k * content.segmentSize + segmentHeaderSize + bytes.length, false⟩ :
          RecordReader).rest.length < recordHeaderSize by
          rw [hlength]
          exact hshort) (itail.length + 1)
      refine .inl ⟨_, hread, ?_, fun _ => ?_⟩
      · dsimp only
        rw [hnone, append_nil]
      · dsimp only
        rw [hnone, append_nil, hend]
        exact hshort
  · exact .inr hshort

end Segment

-- The whole image

/-- The platter against what was written: each byte has reached it or is as the segment was
    created, and every byte below the durable position has. -/
structure OnPlatter (content platter : LogDevice) (durable : Nat) : Prop where
  size : platter.segmentSize = content.segmentSize
  count : platter.segmentCount = content.segmentCount
  byte : ∀ k i, byteAt platter k i = byteAt content k i ∨ byteAt platter k i = 0
  durable : ∀ k i, segmentHeaderSize ≤ i → i < content.segmentSize →
    k * content.segmentSize + i < durable → byteAt platter k i = byteAt content k i

/-- What a log holds at a moment: segments that a scan passes over, and behind them at most one
    whose body spells records and is blank beyond; the records placed since then end past the
    durable position. -/
inductive Laid (content : LogDevice) (coreId : Nat) (placed : List DecodedRecord)
    (durable : Nat) : Prop where
  | closed {fronts : List (List DecodedRecord)} (goes : Fronts content coreId 0 fronts)
      (count : content.segmentCount = fronts.length) (nonempty : fronts ≠ [])
      (all : placed = fronts.flatten)
  | opened {fronts : List (List DecodedRecord)} {written after : Bytes}
      {onDisk later : List DecodedRecord} (goes : Fronts content coreId 0 fronts)
      (count : content.segmentCount = fronts.length + 1)
      (body : bodyOf content fronts.length = written ++ after) (blank : ∀ b ∈ after, b = 0)
      (spells : Spells written (fronts.length * content.segmentSize + segmentHeaderSize) onDisk)
      (all : placed = fronts.flatten ++ (onDisk ++ later))
      (behind : ∀ r ∈ later, durable < r.nextLsn)

/-- The scan of an image comes to a segment. -/
def Reaches (image : LogDevice) (coreId k : Nat) : Prop :=
  ∀ i, i < k → ∃ records, SegmentGoes image coreId i records

/-- The header block of a segment reads as the stream's. -/
def HeaderReads (image : LogDevice) (coreId k : Nat) : Prop :=
  ∃ header, readSegmentHeader image coreId k = .ok header

/-- From a segment on, the stream of an image is what was written, up to records that end past the
    durable position. -/
def ReadsPrefix (image : LogDevice) (coreId remaining k : Nat) (written : List DecodedRecord)
    (durable : Nat) : Prop :=
  ∃ found later e, streamRecords image coreId remaining k segmentHeaderSize = .ok (found, e) ∧
    written = found ++ later ∧ ∀ r ∈ later, durable < r.nextLsn

section Image

variable {content platter image : LogDevice} {coreId k remaining durable : Nat}
  {records rest placed : List DecodedRecord} {fronts : List (List DecodedRecord)} {dev : LogDevice}
    {ringCapacity : Nat} {s₀ : WalStream}

theorem OnPlatter.of_differs (h : OnPlatter content platter durable)
    (himage : LogImage content platter image) {i : Nat} (hheader : segmentHeaderSize ≤ i)
    (hsize : i < content.segmentSize) (hdiff : byteAt image k i ≠ byteAt content k i) :
    durable ≤ k * content.segmentSize + i := by
  by_contra hlt
  have hsame := h.durable k i hheader hsize (Nat.not_le.mp hlt)
  rcases himage.byte k i with hbyte | hbyte
  · exact hdiff hbyte
  · exact hdiff (hbyte.trans hsame)

theorem Fronts.within (h : Fronts content coreId k fronts) {r : DecodedRecord}
    (hr : r ∈ fronts.flatten) : k * content.segmentSize ≤ r.lsn ∧ r.lsn < r.nextLsn := by
  induction fronts generalizing k with
  | nil => cases hr
  | cons first fronts ih =>
    obtain ⟨⟨read, hread, rfl, -⟩, hlater⟩ := h
    rw [flatten_cons] at hr
    rcases mem_append.mp hr with hr | hr
    · have hwithin := readSegment_within hread hr
      have hstart := hwithin.start
      exact ⟨by omega, hwithin.nonempty⟩
    · obtain ⟨hstart, hnonempty⟩ := ih hlater hr
      rw [Nat.succ_mul] at hstart
      exact ⟨by omega, hnonempty⟩

theorem ReadsPrefix.cons (hgoes : SegmentGoes image coreId k records)
    (hk : k + 1 < image.segmentCount)
    (hrest : ReadsPrefix image coreId remaining (k + 1) rest durable) :
    ReadsPrefix image coreId (remaining + 1) k (records ++ rest) durable := by
  obtain ⟨found, later, e, hstream, hsplit, hbehind⟩ := hrest
  obtain ⟨read, hread, -⟩ := id hgoes
  obtain ⟨hgo, rfl⟩ := hgoes.goesOn hread hk
  refine ⟨read.records ++ found, later, e, ?_, ?_, hbehind⟩
  · rw [streamRecords, hread]
    show ite _ _ _ = _
    rw [if_pos hgo, hstream]
    rfl
  · rw [hsplit, append_assoc]

theorem ReadsPrefix.stop {read : SegmentRead} (later : List DecodedRecord)
    (hread : readSegment image coreId k segmentHeaderSize = .ok read)
    (hstop : ¬ goesOn image k segmentHeaderSize read) (hsplit : records = read.records ++ later)
    (hbehind : ∀ r ∈ later, durable < r.nextLsn) :
    ReadsPrefix image coreId (remaining + 1) k records durable := by
  refine ⟨read.records, later, endIn image k segmentHeaderSize read, ?_, hsplit, hbehind⟩
  rw [streamRecords, hread]
  show ite _ _ _ = _
  rw [if_neg hstop]

/-- **Over the sealed segments of an image**: the scan passes over those that survived, and what
    is missing where it stops is past the durable position. -/
theorem Fronts.readsPrefix (h : Fronts content coreId k fronts)
    (himage : LogImage content platter image) (hplatter : OnPlatter content platter durable)
    (hreads : ∀ j, j < content.segmentCount → Reaches image coreId j → HeaderReads image coreId j)
    (hshows : ∀ j, j < content.segmentCount → Reaches image coreId j →
      TearShows (bodyOf content j) (bodyOf image j) (j * content.segmentSize + segmentHeaderSize))
    (hreached : Reaches image coreId k)
    (hcount : k + fronts.length + remaining = content.segmentCount)
    (hsome : 0 < fronts.length + remaining) (hnone : remaining = 0 → rest = [])
    (hrest : ∀ r ∈ rest, (k + fronts.length) * content.segmentSize < r.nextLsn ∨
      durable < r.nextLsn)
    (hlast : 0 < remaining → Reaches image coreId (k + fronts.length) →
      ReadsPrefix image coreId remaining (k + fronts.length) rest durable) :
    ReadsPrefix image coreId (fronts.length + remaining) k (fronts.flatten ++ rest) durable := by
  induction fronts generalizing k with
  | nil =>
    rw [length_nil, Nat.zero_add] at hsome ⊢
    exact hlast hsome hreached
  | cons first fronts ih =>
    rw [length_cons] at hcount hrest hlast ⊢
    obtain ⟨hgoes, hlater⟩ := h
    have hfuel : fronts.length + 1 + remaining = fronts.length + remaining + 1 := by omega
    have hstart : k + (fronts.length + 1) = k + 1 + fronts.length := by omega
    rw [hstart] at hrest hlast hcount
    rw [hfuel, flatten_cons, append_assoc]
    rcases hgoes.onImage himage.size himage.count (hreads k (by omega) hreached)
      (hshows k (by omega) hreached) with hgo | ⟨read, later, i, hshort⟩
    · have hreached' : Reaches image coreId (k + 1) := fun i hi => by
        by_cases hik : i = k
        · exact ⟨first, hik ▸ hgo⟩
        · exact hreached i (by omega)
      by_cases hend : fronts.length + remaining = 0
      · -- the last segment of all
        have hnil : fronts = [] := eq_nil_of_length_eq_zero (by omega)
        subst hnil
        rw [hnone (by omega), flatten_nil, append_nil, append_nil]
        obtain ⟨read, hread, hrecords, -⟩ := hgo
        refine .stop [] hread (fun hgoesOn => ?_) ?_ fun r hr => ?_
        · have hlt := hgoesOn.1
          rw [himage.count, ← hcount, length_nil] at hlt
          omega
        · rw [hrecords, append_nil]
        · cases hr
      · have hbehind := ih hlater hreached' hcount (by omega) hrest hlast
        refine .cons hgo ?_ hbehind
        rw [himage.count]
        omega
    · -- the walk stops short in this segment
      have hpast := hplatter.of_differs himage hshort.header_le hshort.lt_size hshort.differs
      have hlt := hshort.lt_size
      have hnext : (k + 1) * content.segmentSize = k * content.segmentSize + content.segmentSize :=
        Nat.succ_mul _ _
      refine .stop (later ++ (fronts.flatten ++ rest)) hshort.reads
        (fun hgoesOn => hshort.stops hgoesOn.2) ?_ fun r hr => ?_
      · rw [hshort.records_eq, append_assoc]
      · rcases mem_append.mp hr with hr | hr
        · have hbehind := hshort.behind r hr
          omega
        · rcases mem_append.mp hr with hr | hr
          · obtain ⟨hfrom, hnonempty⟩ := hlater.within hr
            omega
          · rcases hrest r hr with hfrom | hbehind
            · rw [Nat.add_mul] at hfrom
              omega
            · exact hbehind

theorem readsPrefix_opened {written after : Bytes} {onDisk later : List DecodedRecord}
    (himage : LogImage content platter image) (hplatter : OnPlatter content platter durable)
    (hlarge : segmentHeaderSize ≤ content.segmentSize) (hcount : content.segmentCount = k + 1)
    (hbody : bodyOf content k = written ++ after) (hblank : ∀ b ∈ after, b = 0)
    (hspells : Spells written (k * content.segmentSize + segmentHeaderSize) onDisk)
    (hheader : HeaderReads image coreId k)
    (hshows : TearShows (bodyOf content k) (bodyOf image k)
      (k * content.segmentSize + segmentHeaderSize))
    (hbehind : ∀ r ∈ later, durable < r.nextLsn) :
    ReadsPrefix image coreId 1 k (onDisk ++ later) durable := by
  have hend : ∀ read, ¬ goesOn image k segmentHeaderSize read := by
    intro read hgoesOn
    have hlt := hgoesOn.1
    rw [himage.count] at hlt
    omega
  rcases segment_onImage himage.size himage.count (by omega) hlarge hheader hbody hspells hshows
    with ⟨itail, hibody, hlength, -, hread⟩ | ⟨read, later', i, hshort⟩
  · -- everything written is there, and blank bytes behind
    have hzeros : itail = List.replicate itail.length 0 := by
      refine eq_replicate_iff.mpr ⟨rfl, fun b hb => ?_⟩
      obtain ⟨i, hi, rfl⟩ := mem_iff_getElem.mp hb
      have hcontent : byteAt content k (segmentHeaderSize + (written.length + i)) = 0 := by
        rw [← getD_bodyOf, hbody, getD_append_right _ _ _ _ (Nat.le_add_right _ _),
          Nat.add_sub_cancel_left, getD_eq_getElem _ _ (by omega)]
        exact hblank _ (getElem_mem _)
      have hhere : byteAt image k (segmentHeaderSize + (written.length + i)) = itail[i] := by
        rw [← getD_bodyOf, hibody, getD_append_right _ _ _ _ (Nat.le_add_right _ _),
          Nat.add_sub_cancel_left, getD_eq_getElem _ _ hi]
      rw [← hhere]
      rcases himage.byte k (segmentHeaderSize + (written.length + i)) with hbyte | hbyte
      · rw [hbyte, hcontent]
      · rw [hbyte]
        rcases hplatter.byte k (segmentHeaderSize + (written.length + i)) with hold | hold
        · rw [hold, hcontent]
        · exact hold
    refine .stop later hread (hend _) ?_ hbehind
    dsimp only
    rw [hzeros, readRecords_zeros, append_nil]
  · have hpast := hplatter.of_differs himage hshort.header_le hshort.lt_size hshort.differs
    refine .stop (later' ++ later) hshort.reads (hend _) ?_ fun r hr => ?_
    · rw [hshort.records_eq, append_assoc]
    · rcases mem_append.mp hr with hr | hr
      · have hlater := hshort.behind r hr
        omega
      · exact hbehind r hr

theorem Laid.readsPrefix (h : Laid content coreId placed durable)
    (himage : LogImage content platter image) (hplatter : OnPlatter content platter durable)
    (hlarge : segmentHeaderSize ≤ content.segmentSize)
    (hreads : ∀ j, j < content.segmentCount → Reaches image coreId j → HeaderReads image coreId j)
    (hshows : ∀ j, j < content.segmentCount → Reaches image coreId j →
      TearShows (bodyOf content j) (bodyOf image j)
        (j * content.segmentSize + segmentHeaderSize)) :
    ReadsPrefix image coreId content.segmentCount 0 placed durable := by
  have hstart : Reaches image coreId 0 := fun i hi => absurd hi (Nat.not_lt_zero i)
  rcases h with @⟨fronts, hgoes, hcount, hne, hall⟩ | @⟨fronts, written, after, onDisk, later,
    hgoes, hcount, hbody, hblank, hspells, hall, hbehind⟩
  · have hpos := length_pos_iff.mpr hne
    have hwhole := @Fronts.readsPrefix content platter image coreId 0 0 durable [] fronts hgoes
      himage hplatter hreads hshows hstart (by omega) (by omega) (fun _ => rfl)
      (fun r hr => by cases hr) (fun hlt => absurd hlt (Nat.lt_irrefl 0))
    rw [append_nil, Nat.add_zero, ← hcount, ← hall] at hwhole
    exact hwhole
  · have hrest : ∀ r ∈ onDisk ++ later,
        (0 + fronts.length) * content.segmentSize < r.nextLsn ∨ durable < r.nextLsn := by
      intro r hr
      rcases mem_append.mp hr with hr | hr
      · obtain ⟨hfrom, hnonempty⟩ := hspells.within hr
        rw [Nat.zero_add]
        exact .inl (by omega)
      · exact .inr (hbehind r hr)
    have hwhole := @Fronts.readsPrefix content platter image coreId 0 1 durable (onDisk ++ later)
      fronts hgoes himage hplatter hreads hshows hstart (by omega) (by omega)
      (fun hzero => absurd hzero Nat.one_ne_zero) hrest (fun _ hreached => by
        rw [Nat.zero_add] at hreached ⊢
        exact readsPrefix_opened himage hplatter hlarge hcount hbody hblank hspells
          (hreads _ (by omega) hreached) (hshows _ (by omega) hreached) hbehind)
    rw [← hcount, ← hall] at hwhole
    exact hwhole

theorem headerReads_of_stream {found : List DecodedRecord} {e j : Nat}
    (h : streamRecords image coreId (remaining + 1) k segmentHeaderSize = .ok (found, e))
    (hcount : k + (remaining + 1) = image.segmentCount) (hkj : k ≤ j) (hj : j < image.segmentCount)
    (hreached : Reaches image coreId j) : HeaderReads image coreId j := by
  induction remaining generalizing k found with
  | zero =>
    have hsame : j = k := by omega
    subst hsame
    obtain ⟨read, hread, -⟩ := bind_eq_ok.mp h
    exact (readSegment_eq_ok.mp hread).1
  | succ remaining ih =>
    obtain ⟨read, hread, ⟨later, -, hlater, -⟩ | ⟨hstop, -, -⟩⟩ := streamRecords_cases h
    · by_cases hsame : j = k
      · subst hsame
        exact (readSegment_eq_ok.mp hread).1
      · exact ih hlater (by omega) (by omega)
    · by_cases hsame : j = k
      · subst hsame
        exact (readSegment_eq_ok.mp hread).1
      · obtain ⟨records, hgoes⟩ := hreached k (by omega)
        exact absurd (hgoes.goesOn hread (by omega)).1 hstop

theorem openOn_iff (hopen : WalStream.openOn dev coreId ringCapacity = .ok s₀)
    (hsize : image.segmentSize = dev.segmentSize) (hcount : image.segmentCount ≠ 0) :
    (∃ s, WalStream.openOn image coreId ringCapacity = .ok s) ↔
      HeaderReads image coreId (image.segmentCount - 1) := by
  unfold WalStream.openOn at hopen ⊢
  rw [hsize]
  by_cases hring : ringCapacity < kMinRingCapacity
  · rw [if_pos hring] at hopen
    cases hopen
  rw [if_neg hring] at hopen ⊢
  by_cases hsmall : dev.segmentSize ≤ segmentHeaderSize + recordHeaderSize
  · rw [if_pos hsmall] at hopen
    cases hopen
  rw [if_neg hsmall]
  by_cases halign : dev.segmentSize % recordAlignment ≠ 0
  · rw [if_neg hsmall, if_pos halign] at hopen
    cases hopen
  rw [if_neg halign]
  have hlarge : segmentHeaderSize ≤ image.segmentSize := by omega
  constructor
  · rintro ⟨s, hs⟩
    obtain ⟨s1, hstart, -⟩ := bind_eq_ok.mp hs
    rw [if_neg hcount] at hstart
    obtain ⟨read, hread, -⟩ := bind_eq_ok.mp hstart
    exact (readSegment_eq_ok.mp hread).1
  · rintro ⟨header, hheader⟩
    have hread := readSegment_of_header hheader (by omega) hlarge
    obtain ⟨s1, hscan⟩ : ∃ s1, WalStream.scanTail
        ⟨coreId, ringCapacity, ⟨image, image, []⟩, [], 0, 0, false⟩ (image.segmentCount - 1) =
          .ok s1 := ⟨_, bind_eq_ok.mpr ⟨_, hread, rfl⟩⟩
    refine ⟨{ s1 with durableLsn := s1.appendLsn }, bind_eq_ok.mpr ⟨s1, ?_, rfl⟩⟩
    rw [if_neg hcount]
    exact hscan

/-- What a reopening after a crash is to find: the stream opens, and a scan hands out a prefix of
    the records that were appended, with every one that was reported durable. -/
structure Recovers (image : LogDevice) (coreId ringCapacity : Nat) (placed : List DecodedRecord)
    (durable : Nat) : Prop where
  opens : ∃ s, WalStream.openOn image coreId ringCapacity = .ok s
  scans : ∃ found, scanned image coreId = .ok found ∧ found <+: placed ∧
    ∀ r ∈ placed, r.nextLsn ≤ durable → r ∈ found

/-- **An image recovers** exactly where the header block of its last segment, and of every segment
    the scan comes to, reached the platter. -/
theorem Laid.recovers_iff (h : Laid content coreId placed durable)
    (himage : LogImage content platter image) (hplatter : OnPlatter content platter durable)
    (hopen : WalStream.openOn dev coreId ringCapacity = .ok s₀)
    (hsize : content.segmentSize = dev.segmentSize)
    (hlarge : segmentHeaderSize < content.segmentSize)
    (hshows : ∀ j, j < content.segmentCount → Reaches image coreId j →
      TearShows (bodyOf content j) (bodyOf image j)
        (j * content.segmentSize + segmentHeaderSize)) :
    Recovers image coreId ringCapacity placed durable ↔
      HeaderReads image coreId (image.segmentCount - 1) ∧
        ∀ k, k < image.segmentCount → Reaches image coreId k → HeaderReads image coreId k := by
  have hcount : ∃ n, content.segmentCount = n + 1 := by
    rcases h with ⟨-, hcount, hne, -⟩ | ⟨-, hcount, -, -, -, -, -⟩
    · have hpos := length_pos_iff.mpr hne
      exact ⟨content.segmentCount - 1, by omega⟩
    · exact ⟨_, hcount⟩
  obtain ⟨n, hn⟩ := hcount
  have hn' : image.segmentCount = n + 1 := himage.count.trans hn
  have hlarge' : segmentHeaderSize < image.segmentSize := by
    rw [himage.size]
    exact hlarge
  have hopens := openOn_iff hopen (himage.size.trans hsize) (by omega)
  constructor
  · rintro ⟨hstream, found, hscan, -, -⟩
    obtain ⟨e, hrecords⟩ := (scanned_eq_ok hlarge' hn').mp hscan
    exact ⟨hopens.mp hstream, fun k hk hreached =>
      headerReads_of_stream hrecords (by omega) (Nat.zero_le k) hk hreached⟩
  · rintro ⟨hlast, hreads⟩
    obtain ⟨found, later, e, hstream, hsplit, hbehind⟩ := h.readsPrefix himage hplatter
      (Nat.le_of_lt hlarge) (fun j hj => hreads j (by omega)) hshows
    rw [hn] at hstream
    refine ⟨hopens.mpr hlast, found, (scanned_eq_ok hlarge' hn').mpr ⟨e, hstream⟩, ?_, ?_⟩
    · rw [hsplit]
      exact prefix_append found later
    · intro r hr hdurable
      rw [hsplit] at hr
      rcases mem_append.mp hr with hr | hr
      · exact hr
      · have hpast := hbehind r hr
        omega

end Image

end Kds.Wal
