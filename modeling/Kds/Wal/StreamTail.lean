/-
  Kds.Wal.StreamTail

  The current segment of a stream: what it holds up to the append point spells the records of the
  segment, staged bytes included, and what lies beyond is as it was found.  Each call of the stream
  keeps this (`Tail`), and a roll leaves behind a segment that a scan passes over (`SegmentGoes`).
-/

import Kds.Wal.Stream

namespace Kds.Wal

open Lib List

-- Segments that a scan passes over

section Segments

variable {dev dev' : LogDevice} {coreId k n : Nat} {bytes : Bytes} {offset : Nat}

/-- A segment's header is this stream's, its body reads as these records, and the stream goes on in
    the next. -/
def SegmentGoes (dev : LogDevice) (coreId k : Nat) (records : List DecodedRecord) : Prop :=
  ∃ read, readSegment dev coreId k segmentHeaderSize = .ok read ∧ read.records = records ∧
    (read.sealed = false → dev.segmentSize -
      (recordsEnd (k * dev.segmentSize + segmentHeaderSize) read.records - k * dev.segmentSize) <
        recordHeaderSize)

/-- Two devices that have the same segment there. -/
structure SameSegment (dev dev' : LogDevice) (k : Nat) : Prop where
  size : dev'.segmentSize = dev.segmentSize
  here : k < dev.segmentCount
  there : k < dev'.segmentCount
  bytes : dev'.segments.getD k [] = dev.segments.getD k []

theorem SameSegment.readAt (h : SameSegment dev dev' k) (offset length : Nat) :
    dev'.readAt k offset length = dev.readAt k offset length := by
  have hhere : ¬ dev.segmentCount ≤ k := Nat.not_le.mpr h.here
  have hthere : ¬ dev'.segmentCount ≤ k := Nat.not_le.mpr h.there
  unfold LogDevice.readAt LogDevice.checkSegmentRange
  rw [h.size, h.bytes, if_neg hhere, if_neg hthere]

theorem SameSegment.readSegment (h : SameSegment dev dev' k) (bodyOffset : Nat) :
    readSegment dev' coreId k bodyOffset = readSegment dev coreId k bodyOffset := by
  unfold Wal.readSegment readSegmentHeader
  rw [h.readAt, h.size, h.readAt]

theorem SameSegment.goes (h : SameSegment dev dev' k) {records : List DecodedRecord}
    (hgoes : SegmentGoes dev coreId k records) : SegmentGoes dev' coreId k records := by
  obtain ⟨read, hread, hrecords, hend⟩ := hgoes
  refine ⟨read, (h.readSegment _).trans hread, hrecords, ?_⟩
  rw [h.size]
  exact hend

-- Writes

theorem overlay_append {before after : Bytes} (hoffset : before.length = offset)
    (hfits : bytes.length ≤ after.length) :
    overlay (before ++ after) offset bytes = before ++ bytes ++ after.drop bytes.length := by
  unfold overlay
  rw [take_left' hoffset, drop_append, length_append, take_of_length_le,
    drop_eq_nil_of_le, nil_append]
  · congr 2
    omega
  · omega
  · omega

theorem getD_overlayAt (dev : LogDevice) (n offset : Nat) (bytes : Bytes) (k : Nat)
    (hn : n < dev.segmentCount) : (dev.overlayAt n offset bytes).segments.getD k [] =
      if n = k then overlay (dev.segments.getD n []) offset bytes else dev.segments.getD k [] := by
  unfold LogDevice.overlayAt
  dsimp only
  rw [getD_eq_getElem?_getD, List.getElem?_modify, getD_eq_getElem?_getD,
    getD_eq_getElem?_getD]
  by_cases hk : n = k
  · subst hk
    rw [if_pos rfl, List.getElem?_eq_getElem hn, Option.map_eq_map, Option.map_some, if_pos rfl]
    rfl
  · rw [if_neg hk]
    simp [hk]

theorem writeAt_eq_ok (h : dev.writeAt n offset bytes = .ok dev') : n < dev.segmentCount ∧
      dev' = dev.overlayAt n offset bytes := by
  unfold LogDevice.writeAt at h
  obtain ⟨u, hrange, h⟩ := bind_eq_ok.mp h
  unfold LogDevice.checkSegmentRange at hrange
  split_ifs at hrange with hseg hbounds
  exact ⟨by omega, (Except.ok.inj h).symm⟩

theorem segmentCount_overlayAt (dev : LogDevice) (n offset : Nat) (bytes : Bytes) :
    (dev.overlayAt n offset bytes).segmentCount = dev.segmentCount := length_modify _ _ _

theorem sameSegment_overlayAt (hn : n < dev.segmentCount) (hk : k < dev.segmentCount)
    (hne : k ≠ n) :
    SameSegment dev (dev.overlayAt n offset bytes) k where
  size := rfl
  here := hk
  there := by
    rw [segmentCount_overlayAt]
    exact hk
  bytes := by
    rw [getD_overlayAt dev n offset bytes k hn, if_neg (Ne.symm hne)]

theorem createSegment_eq_ok (h : dev.createSegment n = .ok dev') : n = dev.segmentCount ∧
    dev'.segmentSize = dev.segmentSize ∧
      dev'.segments = dev.segments ++ [List.replicate dev.segmentSize 0] ∧
      (n + 1) * dev.segmentSize < 2 ^ 64 := by
  unfold LogDevice.createSegment at h
  split_ifs at h with hn haddr
  have hn' : n = dev.segmentCount := not_not.mp hn
  cases h
  refine ⟨hn', rfl, rfl, ?_⟩
  rw [hn']
  exact haddr

theorem sameSegment_createSegment (h : dev.createSegment n = .ok dev') (hk : k < n) :
    SameSegment dev dev' k := by
  obtain ⟨hn, hsize, hsegments, -⟩ := createSegment_eq_ok h
  have hk' : k < dev.segments.length := Nat.lt_of_lt_of_eq hk hn
  refine ⟨hsize, hk', ?_, ?_⟩
  · unfold LogDevice.segmentCount
    rw [hsegments, length_append]
    omega
  · rw [hsegments, getD_eq_getElem?_getD, List.getElem?_append_left hk',
      ← getD_eq_getElem?_getD]

theorem length_encodeSegmentHeader (coreId n startLsn : Nat) :
    (encodeSegmentHeader coreId n startLsn).length = segmentHeaderSize := by
  unfold encodeSegmentHeader
  simp only [length_append, length_storeLE]
  rw [length_replicate]
  rfl

theorem validate_encodeSegmentHeader {size : Nat} (hcore : coreId < 2 ^ 32)
    (haddr : (n + 1) * size < 2 ^ 64) (hsize : 0 < size) :
    ∃ header, validateSegmentHeader (encodeSegmentHeader coreId n (n * size)) coreId n size =
      .ok header := by
  have hskip : ∀ (w k m o : Nat) (later : Bytes),
      load w (storeLE k m ++ later) (o + k) = load w later o := by
    intro w k m o later
    rw [load_append_right w (by rw [length_storeLE]; omega), length_storeLE, Nat.add_sub_cancel]
  have hstart : n * size < 2 ^ 64 := by
    rw [Nat.succ_mul] at haddr
    omega
  have hn : n < 2 ^ 64 := Nat.lt_of_le_of_lt (Nat.le_mul_of_pos_right n hsize) hstart
  let covered := storeLE 8 segmentMagic ++ storeLE 4 segmentFormatVersion ++ storeLE 4 coreId ++
    storeLE 8 n ++ storeLE 8 (n * size)
  let tail := List.replicate (segmentHeaderSize - segmentCrcOffset - 4) (0 : UInt8)
  have hblock : encodeSegmentHeader coreId n (n * size) = storeLE 8 segmentMagic ++
      (storeLE 4 segmentFormatVersion ++ (storeLE 4 coreId ++ (storeLE 8 n ++
        (storeLE 8 (n * size) ++ (storeLE 4 (Storage.crc32c covered) ++ tail))))) := by
    unfold encodeSegmentHeader
    simp only [append_assoc]
    rfl
  have hlength := length_encodeSegmentHeader coreId n (n * size)
  have hmagic : load 8 (encodeSegmentHeader coreId n (n * size)) 0 = segmentMagic := by
    rw [hblock, load_storeLE]
    rfl
  have hversion : load 4 (encodeSegmentHeader coreId n (n * size)) 8 = segmentFormatVersion := by
    rw [hblock, hskip 4 8 _ 0, load_storeLE]
    rfl
  have hcoreId : load 4 (encodeSegmentHeader coreId n (n * size)) 12 = coreId := by
    rw [hblock, hskip 4 8 _ 4, hskip 4 4 _ 0, load_storeLE]
    exact Nat.mod_eq_of_lt hcore
  have hsegment : load 8 (encodeSegmentHeader coreId n (n * size)) 16 = n := by
    rw [hblock, hskip 8 8 _ 8, hskip 8 4 _ 4, hskip 8 4 _ 0, load_storeLE]
    exact Nat.mod_eq_of_lt hn
  have hstartLsn : load 8 (encodeSegmentHeader coreId n (n * size)) 24 = n * size := by
    rw [hblock, hskip 8 8 _ 16, hskip 8 4 _ 12, hskip 8 4 _ 8, hskip 8 8 _ 0, load_storeLE]
    exact Nat.mod_eq_of_lt hstart
  have hcrc : load 4 (encodeSegmentHeader coreId n (n * size)) segmentCrcOffset =
      Storage.crc32c ((encodeSegmentHeader coreId n (n * size)).take segmentCrcOffset) := by
    have hcovered : (encodeSegmentHeader coreId n (n * size)).take segmentCrcOffset = covered := by
      have hcut : covered.length = segmentCrcOffset := by
        simp only [covered, length_append, length_storeLE]
        rfl
      unfold encodeSegmentHeader
      rw [append_assoc, take_left' hcut]
    rw [hcovered, hblock]
    have hoffset : segmentCrcOffset = 24 + 8 := rfl
    rw [hoffset, hskip 4 8 _ 24, hskip 4 4 _ 20, hskip 4 4 _ 16, hskip 4 8 _ 8, hskip 4 8 _ 0,
      load_storeLE]
    exact Nat.mod_eq_of_lt (Storage.crc32c_lt _)
  unfold validateSegmentHeader
  refine ⟨⟨segmentMagic, segmentFormatVersion, coreId, n, n * size,
    Storage.crc32c ((encodeSegmentHeader coreId n (n * size)).take segmentCrcOffset)⟩,
    bind_eq_ok.mpr ⟨⟨segmentMagic, segmentFormatVersion, coreId, n, n * size,
    Storage.crc32c ((encodeSegmentHeader coreId n (n * size)).take segmentCrcOffset)⟩, ?_, ?_⟩⟩
  · unfold decodeSegmentHeader
    dsimp only
    rw [hmagic, hversion, hcoreId, hsegment, hstartLsn, hcrc, if_neg (by rw [hlength]; omega),
      if_neg (not_not_intro rfl), if_neg (not_not_intro rfl)]
    rfl
  · dsimp only
    rw [if_neg (not_not_intro rfl), if_neg (by simp)]

end Segments

-- The current segment

/-- The last segment: its header, what it holds up to the append point, the staged bytes
    included, and the bytes beyond. -/
structure Body (s : WalStream) (n : Nat) (bytes rest : Bytes) : Prop where
  count : s.segmentCount = n + 1
  size : segmentHeaderSize + recordHeaderSize < s.segmentSize
  split : ∃ block written after, s.disk.content.segments.getD n [] = block ++ (written ++ after) ∧
    block.length = segmentHeaderSize ∧
    (∃ header, validateSegmentHeader block s.coreId n s.segmentSize = .ok header) ∧
    bytes = written ++ s.ring ∧ s.ring.length ≤ after.length ∧ rest = after.drop s.ring.length
  append : s.appendLsn = n * s.segmentSize + segmentHeaderSize + bytes.length

/-- A segment that is appended to: its bytes spell its records. -/
structure Tail (s : WalStream) (n : Nat) (bytes rest : Bytes) (records : List DecodedRecord) :
    Prop where
  body : Body s n bytes rest
  spells : Spells bytes (n * s.segmentSize + segmentHeaderSize) records
  unsealed : s.sealed = false

/-- A segment that a scan passes over, and nothing staged. -/
structure Sealed (s : WalStream) (n : Nat) (records : List DecodedRecord) : Prop where
  count : s.segmentCount = n + 1
  size : segmentHeaderSize + recordHeaderSize < s.segmentSize
  goes : SegmentGoes s.disk.content s.coreId n records
  ring : s.ring = []
  sealed : s.sealed = true

/-- What a call leaves alone: the segments before the current one. -/
structure Kept (s s' : WalStream) (n : Nat) : Prop where
  coreId : s'.coreId = s.coreId
  ringCapacity : s'.ringCapacity = s.ringCapacity
  size : s'.segmentSize = s.segmentSize
  same : ∀ k, k < n → SameSegment s.disk.content s'.disk.content k

section Calls

variable {s s' s'' : WalStream} {n m : Nat} {bytes rest extra : Bytes}
  {records : List DecodedRecord}

theorem Kept.trans (h : Kept s s' n) (h' : Kept s' s'' m) (hle : n ≤ m) : Kept s s'' n where
  coreId := h'.coreId.trans h.coreId
  ringCapacity := h'.ringCapacity.trans h.ringCapacity
  size := h'.size.trans h.size
  same k hk := by
    have first := h.same k hk
    have second := h'.same k (by omega)
    exact ⟨second.size.trans first.size, first.here, second.there,
      second.bytes.trans first.bytes⟩

theorem Kept.of_disk (hcount : s.segmentCount = n + 1) (hdisk : s'.disk = s.disk)
    (hcore : s'.coreId = s.coreId) (hcap : s'.ringCapacity = s.ringCapacity) : Kept s s' n where
  coreId := hcore
  ringCapacity := hcap
  size := by
    unfold WalStream.segmentSize
    rw [hdisk]
  same k hk := by
    have hcount' : s.disk.content.segmentCount = n + 1 := hcount
    rw [hdisk]
    exact ⟨rfl, by omega, by omega, rfl⟩

theorem Body.room (h : Body s n bytes rest) :
    segmentHeaderSize + (bytes.length + rest.length) = s.segmentSize := by
  obtain ⟨block, written, after, hsegment, hblock, -, rfl, hring, rfl⟩ := h.split
  have hcount : s.disk.content.segmentCount = n + 1 := h.count
  have hlength : (s.disk.content.segments.getD n []).length = s.disk.content.segmentSize :=
    segment_length (by omega)
  have hsize : s.segmentSize = s.disk.content.segmentSize := rfl
  rw [hsegment, length_append, length_append] at hlength
  rw [length_append, length_drop]
  omega

theorem Body.remaining (h : Body s n bytes rest) : s.segmentRemaining = rest.length := by
  have hroom := h.room
  have hhead : 0 < segmentHeaderSize := by decide
  unfold WalStream.segmentRemaining
  rw [h.append, Nat.add_assoc]
  dsimp only
  by_cases hfull : rest.length = 0
  · have hend : segmentHeaderSize + bytes.length = s.segmentSize := by omega
    rw [hend, Nat.add_mod_right, Nat.mul_mod_left, if_pos rfl, hfull]
  · have hlt : segmentHeaderSize + bytes.length < s.segmentSize := by omega
    rw [Nat.mul_add_mod_self_right, Nat.mod_eq_of_lt hlt, if_neg (by omega)]
    omega

variable {written : Bytes}

theorem Body.flushedLsn (h : Body s n bytes rest) (hbytes : bytes = written ++ s.ring) :
    s.flushedLsn = n * s.segmentSize + (segmentHeaderSize + written.length) := by
  unfold WalStream.flushedLsn
  rw [h.append, hbytes, length_append]
  omega

/-- A flush goes behind what the segment holds on the device. -/
theorem Body.flushedAt (h : Body s n bytes rest) (hbytes : bytes = written ++ s.ring)
    (hring : s.ring ≠ []) : s.flushedLsn / s.segmentSize = n ∧
      s.flushedLsn % s.segmentSize = segmentHeaderSize + written.length := by
  have hroom := h.room
  have hringLength : 0 < s.ring.length := length_pos_iff.mpr hring
  have hlt : segmentHeaderSize + written.length < s.segmentSize := by
    rw [hbytes, length_append] at hroom
    omega
  rw [h.flushedLsn hbytes, Nat.mul_comm, Nat.mul_add_div (by omega), Nat.div_eq_of_lt hlt,
    Nat.add_zero, Nat.mul_add_mod, Nat.mod_eq_of_lt hlt]
  exact ⟨rfl, rfl⟩

theorem Body.flush_eq (h : Body s n bytes rest) (hbytes : bytes = written ++ s.ring)
    (hring : s.ring ≠ []) (hs : s.flush = .ok s') : n < s.disk.content.segmentCount ∧ s' = { s with
      disk := ⟨s.disk.content.overlayAt n (segmentHeaderSize + written.length) s.ring,
        s.disk.platter, s.disk.moments⟩
      ring := [] } := by
  unfold WalStream.flush at hs
  rw [if_neg hring] at hs
  obtain ⟨disk, hdisk, hs⟩ := bind_eq_ok.mp hs
  obtain ⟨content, hwrite, hdisk⟩ := bind_eq_ok.mp hdisk
  cases hdisk
  cases hs
  obtain ⟨hdiv, hmod⟩ := h.flushedAt hbytes hring
  rw [hdiv, hmod] at hwrite
  obtain ⟨hn, rfl⟩ := writeAt_eq_ok hwrite
  exact ⟨hn, rfl⟩

theorem Body.flush (h : Body s n bytes rest) (hs : s.flush = .ok s') :
    Body s' n bytes rest ∧ s'.ring = [] ∧ s'.appendLsn = s.appendLsn ∧ s'.sealed = s.sealed ∧
      Kept s s' n := by
  by_cases hring : s.ring = []
  · unfold WalStream.flush at hs
    rw [if_pos hring] at hs
    cases hs
    exact ⟨h, hring, rfl, rfl, .of_disk h.count rfl rfl rfl⟩
  · obtain ⟨block, written, after, hsegment, hblock, hheader, hbytes, hle, hrest⟩ := h.split
    obtain ⟨hn, rfl⟩ := h.flush_eq hbytes hring hs
    have hcount : s.disk.content.segmentCount = n + 1 := h.count
    refine ⟨⟨?_, h.size, ?_, h.append⟩, rfl, rfl, rfl, ⟨rfl, rfl, rfl, fun k hk => ?_⟩⟩
    · exact (segmentCount_overlayAt _ _ _ _).trans h.count
    · refine ⟨block, written ++ s.ring, after.drop s.ring.length, ?_, hblock, hheader, ?_, ?_, ?_⟩
      · dsimp only
        rw [getD_overlayAt _ _ _ _ _ hn, if_pos rfl, hsegment, ← append_assoc,
          overlay_append (by rw [length_append, hblock]) hle, append_assoc,
          append_assoc, append_assoc]
      · rw [hbytes, append_nil]
      · exact Nat.zero_le _
      · rw [hrest]
        rfl
    · exact sameSegment_overlayAt hn (by omega) (by omega)

theorem Body.stage (h : Body s n bytes rest) {spec : RecordSpec} {payload : Bytes}
    (hs : s.stage spec payload = .ok s')
    (hfits : encodedRecordSize payload.length ≤ rest.length) :
    ∃ encoded, encodeRecord s.ringFree spec s.appendLsn payload = .ok encoded ∧
      encoded.length = encodedRecordSize payload.length ∧
      Body s' n (bytes ++ encoded) (rest.drop encoded.length) ∧ s'.sealed = s.sealed ∧
      Kept s s' n := by
  obtain ⟨encoded, hencode, hs⟩ := bind_eq_ok.mp hs
  cases hs
  have hlength := (encodeRecord_eq_ok hencode).2.2.2.2
  obtain ⟨block, written, after, hsegment, hblock, hheader, hbytes, hle, hrest⟩ := h.split
  have hroom : encoded.length ≤ after.length - s.ring.length := by
    rw [hrest, length_drop] at hfits
    omega
  refine ⟨encoded, hencode, hlength, ⟨h.count, h.size, ?_, ?_⟩, rfl, .of_disk h.count rfl rfl rfl⟩
  · refine ⟨block, written, after, hsegment, hblock, hheader, ?_, ?_, ?_⟩
    · rw [hbytes, append_assoc]
    · dsimp only
      rw [length_append]
      omega
    · dsimp only
      rw [hrest, drop_drop, length_append]
  · dsimp only
    rw [h.append, length_append, Nat.add_assoc]
    rfl

theorem Body.readSegment (h : Body s n (bytes ++ extra) rest) (hring : s.ring = [])
    (hspells : Spells bytes (n * s.segmentSize + segmentHeaderSize) records) :
    readSegment s.disk.content s.coreId n segmentHeaderSize = .ok
      { readRecords ((extra ++ rest).length + 1)
          ⟨extra ++ rest, n * s.segmentSize + segmentHeaderSize + bytes.length, false⟩ with
        records := records ++ (readRecords ((extra ++ rest).length + 1)
          ⟨extra ++ rest, n * s.segmentSize + segmentHeaderSize + bytes.length, false⟩).records
            } := by
  obtain ⟨block, written, after, hsegment, hblock, ⟨header, hheader⟩, hbytes, -, hrest⟩ := h.split
  have hcount : s.disk.content.segmentCount = n + 1 := h.count
  have hsize : s.segmentSize = s.disk.content.segmentSize := rfl
  have hlarge := h.size
  rw [hring, append_nil] at hbytes
  rw [hring, length_nil, drop_zero] at hrest
  have hbody : (s.disk.content.segments.getD n []).drop segmentHeaderSize =
      bytes ++ (extra ++ rest) := by
    rw [hsegment, drop_left' hblock, ← hbytes, hrest, append_assoc]
  refine readSegment_eq_ok.mpr ⟨⟨header, ?_⟩, by omega, by omega, ?_⟩
  · refine bind_eq_ok.mpr ⟨block, readAt_eq_ok.mpr ⟨by omega, Nat.zero_le _, by omega, ?_⟩, hheader⟩
    rw [drop_zero, hsegment, take_left' hblock]
  · unfold bodyReader
    rw [hbody]
    refine (hspells.readRecords (extra ++ rest) false ?_ (Nat.lt_succ_self _)).symm
    have hlength : (s.disk.content.segments.getD n []).length = s.disk.content.segmentSize :=
    segment_length (by omega)
    have hcut := congrArg List.length hbody
    rw [length_drop] at hcut
    omega

-- Where a scan stops

theorem Spells.recordsEnd {pos : Nat} (h : Spells bytes pos records) :
    Wal.recordsEnd pos records = pos + bytes.length := by
  induction h with
  | nil pos => rfl
  | @cons first later pos r records hdecodes hlsn hlength hpad hrest ih =>
    have hnext : r.nextLsn = pos + first.length := by
      rw [DecodedRecord.nextLsn, hlsn, hlength]
    rw [recordsEnd_cons, hnext, ih, length_append, Nat.add_assoc]

theorem readRecords_short {reader : RecordReader} (h : reader.rest.length < recordHeaderSize)
    (fuel : Nat) : (readRecords fuel reader).records = [] ∧
      (readRecords fuel reader).sealed = false := by
  cases fuel with
  | zero => exact ⟨rfl, rfl⟩
  | succ fuel =>
    rw [readRecords]
    rcases hnext : reader.next with ⟨_ | r, reader'⟩
    · exact ⟨rfl, rfl⟩
    · obtain ⟨-, hmin, -, hmax, -⟩ := RecordReader.next_some hnext
      omega

theorem readRecords_zeros (count pos : Nat) (early : Bool) (fuel : Nat) :
    (readRecords fuel ⟨List.replicate count 0, pos, early⟩).records = [] := by
  cases fuel with
  | zero => rfl
  | succ fuel =>
    have hnone : (RecordReader.next ⟨List.replicate count 0, pos, early⟩) =
        (none, ⟨List.replicate count 0, pos, early⟩) := by
      unfold RecordReader.next
      by_cases hnil : List.replicate count (0 : UInt8) = []
      · rw [if_pos hnil]
      · rw [if_neg hnil, if_pos]
        rw [take_replicate, all_eq_true]
        exact fun b hb => decide_eq_true (eq_of_mem_replicate hb)
    rw [readRecords, hnone]

-- Sealing and rolling

theorem Tail.sealSegment (h : Tail s n bytes rest records) (hs : s.sealSegment = .ok s') :
    Sealed s' n records ∧ Kept s s' n := by
  unfold WalStream.sealSegment at hs
  rw [h.unsealed, if_neg Bool.false_ne_true] at hs
  obtain ⟨s1, hpad, hs⟩ := bind_eq_ok.mp hs
  obtain ⟨s2, hflush, hs⟩ := bind_eq_ok.mp hs
  cases hs
  unfold WalStream.stagePad at hpad
  rw [h.body.remaining] at hpad
  have hroom := h.body.room
  by_cases hshort : rest.length < recordHeaderSize
  · -- the tail has no room for a PAD
    rw [if_pos hshort] at hpad
    cases hpad
    obtain ⟨hbody, hring, -, -, hkept⟩ := h.body.flush hflush
    have hspells := h.spells
    rw [← hkept.size] at hspells
    have hbody' : Body s2 n (bytes ++ []) rest := by
      rw [append_nil]
      exact hbody
    have hread := hbody'.readSegment hring hspells
    have hnone : (readRecords (([] ++ rest).length + 1) ⟨[] ++ rest,
        n * s2.segmentSize + segmentHeaderSize + bytes.length, false⟩).records = [] :=
      (readRecords_short hshort _).1
    rw [hnone, append_nil] at hread
    refine ⟨⟨hbody.count, hbody.size, ⟨_, hread, rfl, fun _ => ?_⟩, hring, rfl⟩,
      ⟨hkept.coreId, hkept.ringCapacity, hkept.size, hkept.same⟩⟩
    have hsize : s2.disk.content.segmentSize = s2.segmentSize := rfl
    have hroom' := hbody.room
    dsimp only
    rw [hsize, hspells.recordsEnd]
    omega
  · rw [if_neg hshort] at hpad
    obtain ⟨s0, hfree, hstage⟩ := bind_eq_ok.mp hpad
    have hstart : Body s0 n bytes rest ∧ Kept s s0 n := by
      by_cases hfull : s.ringFree < recordHeaderSize
      · rw [if_pos hfull] at hfree
        obtain ⟨hbody, -, -, -, hkept⟩ := h.body.flush hfree
        exact ⟨hbody, hkept⟩
      · rw [if_neg hfull] at hfree
        cases hfree
        exact ⟨h.body, .of_disk h.body.count rfl rfl rfl⟩
    obtain ⟨hbody0, hkept0⟩ := hstart
    have hpadSize : encodedRecordSize ([] : Bytes).length = recordHeaderSize := by decide
    obtain ⟨encoded, hencode, hlength, hbody1, -, hkept1⟩ :=
      hbody0.stage hstage (by rw [hpadSize]; omega)
    obtain ⟨hbody2, hring, -, -, hkept2⟩ := hbody1.flush hflush
    have hkept := (hkept0.trans hkept1 (Nat.le_refl n)).trans hkept2 (Nat.le_refl n)
    have hspells := h.spells
    rw [← hkept.size] at hspells
    have hread := hbody2.readSegment hring hspells
    -- the walk meets the PAD
    have hlsn : s0.appendLsn = n * s2.segmentSize + segmentHeaderSize + bytes.length := by
      rw [hbody0.append, hkept2.size, hkept1.size]
    have haddr := s2.disk.content.addressable
    have hsize : s2.disk.content.segmentSize = s2.segmentSize := rfl
    have hcount : s2.disk.content.segments.length = n + 1 := hbody2.count
    have hroom2 := hbody2.room
    rw [hcount, hsize, Nat.succ_mul] at haddr
    rw [length_append] at hroom2
    have hnext : RecordReader.next ⟨encoded ++ rest.drop encoded.length,
        n * s2.segmentSize + segmentHeaderSize + bytes.length, false⟩ =
        (some (recordOf { type := .pad } s0.appendLsn []), ⟨rest.drop encoded.length,
          n * s2.segmentSize + segmentHeaderSize + bytes.length + encoded.length, false⟩) := by
      refine RecordReader.next_of_decode (decodeRecord_encodeRecord hencode ?_ ?_ ?_ _) hlsn hlength
      · omega
      · exact Nat.lt_of_le_of_lt (Nat.le_refl invalidPageId) (by decide)
      · exact Nat.two_pow_pos 8
    have hsealed : readRecords ((encoded ++ rest.drop encoded.length).length + 1)
        ⟨encoded ++ rest.drop encoded.length,
          n * s2.segmentSize + segmentHeaderSize + bytes.length, false⟩ =
        { sealed := true, stoppedEarly := false } := by
      rw [readRecords, hnext]
      rfl
    rw [hsealed, append_nil] at hread
    refine ⟨⟨hbody2.count, hbody2.size, ⟨_, hread, rfl, fun hfalse => ?_⟩, hring, rfl⟩,
      ⟨hkept.coreId, hkept.ringCapacity, hkept.size, hkept.same⟩⟩
    cases hfalse

theorem startSegment_eq_ok (hcount : s.segmentCount = n)
    (hlarge : segmentHeaderSize + recordHeaderSize < s.segmentSize) (hcore : s.coreId < 2 ^ 32)
    (hs : s.startSegment n = .ok s') :
    Tail s' n [] (List.replicate (s.segmentSize - segmentHeaderSize) 0) [] ∧ Kept s s' n := by
  obtain ⟨created, hcreate, hs⟩ := bind_eq_ok.mp hs
  obtain ⟨disk, hwrite, hs⟩ := bind_eq_ok.mp hs
  cases hs
  obtain ⟨content, hcontent, hcreate⟩ := bind_eq_ok.mp hcreate
  obtain ⟨platter, hplatter, hcreate⟩ := bind_eq_ok.mp hcreate
  cases hcreate
  obtain ⟨written, hwritten, hdisk⟩ := bind_eq_ok.mp hwrite
  cases hdisk
  obtain ⟨-, hsize, hsegments, haddr⟩ := createSegment_eq_ok hcontent
  dsimp only at hwritten
  obtain ⟨hn, rfl⟩ := writeAt_eq_ok hwritten
  have hhead : 0 < recordHeaderSize := by decide
  have hlength : s.disk.content.segments.length = n := hcount
  have hsize' : content.segmentSize = s.segmentSize := hsize
  have hnew : content.segments.getD n [] = List.replicate s.segmentSize 0 := by
    rw [hsegments, getD_eq_getElem?_getD, ← hlength, List.getElem?_concat_length]
    rfl
  have hpositive : 0 < s.disk.content.segmentSize := Nat.lt_of_le_of_lt (Nat.zero_le _) hlarge
  obtain ⟨header, hheader⟩ := validate_encodeSegmentHeader hcore haddr hpositive
  have hblock := length_encodeSegmentHeader s.coreId n (n * s.segmentSize)
  refine ⟨⟨⟨?_, ?_, ?_, ?_⟩, .nil _, rfl⟩, ⟨rfl, rfl, hsize, fun k hk => ?_⟩⟩
  · unfold WalStream.segmentCount
    dsimp only
    rw [segmentCount_overlayAt, LogDevice.segmentCount, hsegments, length_append, hlength]
    rfl
  · exact Nat.lt_of_lt_of_eq hlarge hsize.symm
  · refine ⟨encodeSegmentHeader s.coreId n (n * s.segmentSize), [],
      List.replicate (s.segmentSize - segmentHeaderSize) 0, ?_, hblock, ⟨header, ?_⟩, rfl,
      Nat.zero_le _, drop_zero.symm⟩
    · dsimp only
      rw [getD_overlayAt _ _ _ _ _ hn, if_pos rfl, hnew]
      have hfits : (encodeSegmentHeader s.coreId n (n * s.segmentSize)).length ≤
          (List.replicate s.segmentSize (0 : UInt8)).length := by
        rw [hblock, length_replicate]
        omega
      have hsplit := overlay_append length_nil hfits
      rw [nil_append, nil_append, hblock, drop_replicate] at hsplit
      rw [nil_append, hsplit]
    · have hsize'' : content.segmentSize = s.segmentSize := hsize
      unfold WalStream.segmentSize LogDevice.overlayAt
      dsimp only
      rw [hsize'']
      exact hheader
  · unfold WalStream.segmentSize LogDevice.overlayAt
    dsimp only
    rw [hsize', length_nil, Nat.add_zero]
    rfl
  · have first := sameSegment_createSegment hcontent hk
    have second : SameSegment content (content.overlayAt n 0
        (encodeSegmentHeader s.coreId n (n * s.segmentSize))) k :=
      sameSegment_overlayAt hn first.there (Nat.ne_of_lt hk)
    exact ⟨second.size.trans first.size, first.here, second.there,
      second.bytes.trans first.bytes⟩

theorem Sealed.roll (h : Sealed s n records) (hcore : s.coreId < 2 ^ 32) (hs : s.roll = .ok s') :
    Tail s' (n + 1) [] (List.replicate (s.segmentSize - segmentHeaderSize) 0) [] ∧
      Kept s s' (n + 1) := by
  unfold WalStream.roll at hs
  obtain ⟨s1, hflush, hs⟩ := bind_eq_ok.mp hs
  unfold WalStream.flush at hflush
  rw [if_pos h.ring] at hflush
  cases hflush
  rw [h.count] at hs
  exact startSegment_eq_ok h.count h.size hcore hs

-- Calls

/-- Where a stream stands: in a segment that it appends to, or behind a sealed one. -/
def Standing (s : WalStream) (n : Nat) (rest : Bytes) (records : List DecodedRecord) : Prop :=
  (∃ bytes, Tail s n bytes rest records) ∨ (Sealed s n records ∧ rest = [])

theorem Tail.stage (h : Tail s n bytes rest records) {entry : LogEntry}
    (hpad : ¬ entry.spec.IsPad) (hs : s.stage entry.spec entry.payload = .ok s')
      (hfits : entry.size ≤ rest.length) :
    Standing s' n (rest.drop entry.size)
      (records ++ [recordOf entry.spec s.appendLsn entry.payload]) ∧ Kept s s' n := by
  obtain ⟨encoded, hencode, hlength, hbody, hsealed, hkept⟩ := h.body.stage hs hfits
  have happend := h.body.append
  have hroom := h.body.room
  have haddr := s.disk.content.addressable
  have hcount : s.disk.content.segments.length = n + 1 := h.body.count
  have hsize : s.disk.content.segmentSize = s.segmentSize := rfl
  rw [hcount, hsize, Nat.succ_mul] at haddr
  have hhead := entry.size_pos
  have hrecord := spells_encodeRecord hpad hencode (by omega)
  rw [happend] at hrecord
  have hspells := h.spells.append hrecord
  have hcut : encoded.length = entry.size := hlength
  rw [hcut] at hbody
  refine ⟨.inl ⟨bytes ++ encoded, hbody, ?_, hsealed.trans h.unsealed⟩, hkept⟩
  rw [hkept.size, happend]
  exact hspells

theorem Standing.flush (h : Standing s n rest records) (hs : s.flush = .ok s') :
    Standing s' n rest records ∧ s'.ring = [] ∧ Kept s s' n := by
  rcases h with ⟨bytes, htail⟩ | ⟨hsealed, hrest⟩
  · obtain ⟨hbody, hring, -, hflag, hkept⟩ := htail.body.flush hs
    refine ⟨.inl ⟨bytes, hbody, ?_, hflag.trans htail.unsealed⟩, hring, hkept⟩
    rw [hkept.size]
    exact htail.spells
  · unfold WalStream.flush at hs
    rw [if_pos hsealed.ring] at hs
    cases hs
    exact ⟨.inr ⟨hsealed, hrest⟩, hsealed.ring, .of_disk hsealed.count rfl rfl rfl⟩

theorem Standing.sync (h : Standing s n rest records) (hs : s.sync = .ok s') :
    Standing s' n rest records ∧ s'.ring = [] ∧ Kept s s' n := by
  obtain ⟨s1, hflush, hs⟩ := bind_eq_ok.mp hs
  cases hs
  obtain ⟨hstands, hring, hkept⟩ := h.flush hflush
  refine ⟨?_, hring, ⟨hkept.coreId, hkept.ringCapacity, hkept.size, hkept.same⟩⟩
  rcases hstands with ⟨bytes, hbody, hspells, hflag⟩ | ⟨hsealed, hrest⟩
  · exact .inl ⟨bytes, ⟨hbody.count, hbody.size, hbody.split, hbody.append⟩, hspells, hflag⟩
  · exact .inr ⟨⟨hsealed.count, hsealed.size, hsealed.goes, hsealed.ring, hsealed.sealed⟩, hrest⟩

theorem Standing.sealSegment (h : Standing s n rest records) (hs : s.sealSegment = .ok s') :
    Sealed s' n records ∧ Kept s s' n := by
  rcases h with ⟨bytes, htail⟩ | ⟨hsealed, -⟩
  · exact htail.sealSegment hs
  · unfold WalStream.sealSegment at hs
    rw [if_pos hsealed.sealed] at hs
    cases hs
    exact ⟨hsealed, .of_disk hsealed.count rfl rfl rfl⟩

/-- What an append that is answered has done before it stages its record. -/
theorem append_eq_ok {entry : LogEntry} {lsn : Nat} (hs : s.append entry = .ok (s', lsn)) :
    entry.size ≤ s.segmentSize - segmentHeaderSize ∧ ∃ s1,
      s1.stage entry.spec entry.payload = .ok s' ∧ lsn = s1.appendLsn ∧
        ((s.sealed = true ∨ s.segmentRemaining < entry.size) ∧
            (∃ s0, s.sealSegment = .ok s0 ∧ s0.roll = .ok s1) ∨
          ¬ s.sealed = true ∧ entry.size ≤ s.segmentRemaining ∧ s1 = s) := by
  unfold WalStream.append WalStream.appendRecord at hs
  dsimp only at hs
  have hsize : encodedRecordSize entry.payload.length = entry.size := rfl
  rw [hsize] at hs
  split_ifs at hs with hsegment hring hmoves
  all_goals
    obtain ⟨s1, hroll, hs⟩ := bind_eq_ok.mp hs
    split_ifs at hs
    obtain ⟨s2, hstage, hs⟩ := bind_eq_ok.mp hs
    cases hs
    refine ⟨Nat.not_lt.mp hsegment, s1, hstage, rfl, ?_⟩
  · exact .inl ⟨hmoves, bind_eq_ok.mp hroll⟩
  · cases hroll
    rw [not_or] at hmoves
    exact .inr ⟨hmoves.1, Nat.not_lt.mp hmoves.2, rfl⟩

/-- **A record goes behind what the segment holds, or into the next segment** where it does not
    fit; the segment left behind is one that a scan passes over. -/
theorem Standing.append (h : Standing s n rest records) (hcore : s.coreId < 2 ^ 32)
    {entry : LogEntry} {lsn : Nat} (hpad : ¬ entry.spec.IsPad)
    (hs : s.append entry = .ok (s', lsn)) :
    (entry.size ≤ rest.length ∧ Kept s s' n ∧ Standing s' n (rest.drop entry.size)
        (records ++ [recordOf entry.spec lsn entry.payload])) ∨
      (rest.length < entry.size ∧ Kept s s' n ∧
        SegmentGoes s'.disk.content s'.coreId n records ∧
        ∃ count, Standing s' (n + 1) (List.replicate count 0)
          [recordOf entry.spec lsn entry.payload]) := by
  obtain ⟨hsegment, s1, hstage, rfl, ⟨hmoves, s0, hseal, hroll⟩ | ⟨hunsealed, hroom, rfl⟩⟩ :=
    append_eq_ok hs
  · obtain ⟨hsealed, hkept0⟩ := h.sealSegment hseal
    obtain ⟨htail, hkept1⟩ := hsealed.roll (lt_of_eq_of_lt hkept0.coreId hcore) hroll
    have hfits : entry.size ≤ (List.replicate (s0.segmentSize - segmentHeaderSize)
        (0 : UInt8)).length := by
      rw [length_replicate, hkept0.size]
      exact hsegment
    obtain ⟨hstands, hkept2⟩ := htail.stage hpad hstage hfits
    have hfrom := hkept1.trans hkept2 (Nat.le_refl _)
    have hgoes := (hfrom.same n (Nat.lt_succ_self n)).goes hsealed.goes
    rw [← hfrom.coreId] at hgoes
    rw [drop_replicate, nil_append] at hstands
    refine .inr ⟨?_, hkept0.trans hfrom (Nat.le_succ n), hgoes, _, hstands⟩
    rcases h with ⟨bytes, htail'⟩ | ⟨hsealed', hnil⟩
    · rcases hmoves with hflag | hshort
      · rw [htail'.unsealed] at hflag
        cases hflag
      · exact lt_of_eq_of_lt htail'.body.remaining.symm hshort
    · rw [hnil]
      exact entry.size_pos
  · rcases h with ⟨bytes, htail⟩ | ⟨hsealed, -⟩
    · have hfits : entry.size ≤ rest.length := le_of_le_of_eq hroom htail.body.remaining
      obtain ⟨hstands, hkept⟩ := htail.stage hpad hstage hfits
      exact .inl ⟨hfits, hkept, hstands⟩
    · exact absurd hsealed.sealed hunsealed

end Calls

end Kds.Wal
