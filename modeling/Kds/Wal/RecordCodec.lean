/-
  Kds.Wal.RecordCodec

  A record read back is the record written: what `DecodeRecord` answers on the bytes of
  `EncodeRecord`, whatever follows them, and the walk of `RecordReader` over such bytes.

  A stretch of a segment *spells* records at a position when the reader passes over it record by
  record, whatever comes after; a reader's walk over a body is such a stretch and a place where it
  stops.
-/

import Kds.Wal.LogScanner

namespace Kds.Wal

open Lib List

-- What a caller appends

/-- `static_cast<RecordType>(type) == RecordType::kPad`: the marker that seals a segment. -/
def RecordSpec.IsPad (spec : RecordSpec) : Prop := RecordType.ofRaw spec.type.toRaw = .pad

instance (spec : RecordSpec) : Decidable spec.IsPad := inferInstanceAs (Decidable (_ = _))

/-- A record that a caller hands to the log, of any type, with the field widths of its type. -/
structure LogEntry where
  spec : RecordSpec
  payload : Bytes
  pageId_lt : spec.pageId < 2 ^ 32
  flags_lt : spec.flags < 2 ^ 8

/-- Its bytes before the length and the checksum. -/
def coveredBytes (spec : RecordSpec) (lsn : Nat) (payload : Bytes) : Bytes :=
  storeLE 8 lsn ++ storeLE 8 spec.txnId ++ storeLE 1 spec.type.toRaw ++ storeLE 1 spec.flags ++
    storeLE 2 0 ++ storeLE 4 spec.pageId ++ payload ++
      List.replicate (encodedRecordSize payload.length - recordHeaderSize - payload.length) 0

/-- What reading the record back answers: the payload with its padding. -/
def recordOf (spec : RecordSpec) (lsn : Nat) (payload : Bytes) : DecodedRecord where
  header := {
    totalLen := encodedRecordSize payload.length
    crc32c := Storage.crc32c (coveredBytes spec lsn payload)
    lsn := lsn
    txnId := spec.txnId
    type := spec.type.toRaw
    flags := spec.flags
    reserved := 0
    pageId := spec.pageId }
  payload := payload ++
    List.replicate (encodedRecordSize payload.length - recordHeaderSize - payload.length) 0

theorem encodedRecordSize_spec (payloadSize : Nat) :
    recordHeaderSize + payloadSize ≤ encodedRecordSize payloadSize ∧
      encodedRecordSize payloadSize % recordAlignment = 0 := by
  unfold encodedRecordSize alignUp recordAlignment
  refine ⟨by omega, Nat.mul_mod_left _ _⟩

/-- What the record takes in the log. -/
def LogEntry.size (entry : LogEntry) : Nat := encodedRecordSize entry.payload.length

theorem LogEntry.size_pos (entry : LogEntry) : 0 < entry.size := by
  have hmin := (encodedRecordSize_spec entry.payload.length).1
  have hhead : 0 < recordHeaderSize := by decide
  unfold LogEntry.size
  omega

theorem length_coveredBytes (spec : RecordSpec) (lsn : Nat) (payload : Bytes) :
    (coveredBytes spec lsn payload).length = encodedRecordSize payload.length - 8 := by
  have hsize := (encodedRecordSize_spec payload.length).1
  unfold coveredBytes
  simp only [length_append, length_storeLE, length_replicate]
  unfold recordHeaderSize at hsize ⊢
  omega

variable {outSize lsn : Nat} {bytes : Bytes} {payload rest : Bytes} {spec : RecordSpec}

theorem encodeRecord_eq_ok (h : encodeRecord outSize spec lsn payload = .ok bytes) :
    spec.type.isAssigned = true ∧ spec.txnId ≤ maxTxnId ∧
      encodedRecordSize payload.length ≤ 0xFFFFFFFF ∧
      bytes = storeLE 4 (encodedRecordSize payload.length) ++
        storeLE 4 (Storage.crc32c (coveredBytes spec lsn payload)) ++
          coveredBytes spec lsn payload ∧
      bytes.length = encodedRecordSize payload.length := by
  have hsize := (encodedRecordSize_spec payload.length).1
  unfold encodeRecord at h
  dsimp only at h
  split_ifs at h with hassigned htxn hlarge hroom
  have hbytes : bytes = storeLE 4 (encodedRecordSize payload.length) ++
      storeLE 4 (Storage.crc32c (coveredBytes spec lsn payload)) ++
        coveredBytes spec lsn payload := (Except.ok.inj h).symm
  refine ⟨by simpa using hassigned, by omega, by omega, hbytes, ?_⟩
  rw [hbytes, length_append, length_append, length_storeLE, length_storeLE,
    length_coveredBytes]
  unfold recordHeaderSize at hsize
  omega

theorem toRaw_le {type : RecordType} (h : type.isAssigned = true) : type.toRaw ≤ 26 :=
  of_decide_eq_true (Bool.and_eq_true_iff.mp h).2

-- One record read back

theorem decodeRecord_encodeRecord (h : encodeRecord outSize spec lsn payload = .ok bytes)
    (hlsn : lsn < 2 ^ 64) (hpage : spec.pageId < 2 ^ 32) (hflags : spec.flags < 2 ^ 8)
    (rest : Bytes) : decodeRecord (bytes ++ rest) = .ok (recordOf spec lsn payload) := by
  obtain ⟨hassigned, htxn, hlarge, hbytes, hlength⟩ := encodeRecord_eq_ok h
  obtain ⟨hsize, halign⟩ := encodedRecordSize_spec payload.length
  have hraw := toRaw_le hassigned
  generalize htotal : encodedRecordSize payload.length = total at *
  generalize hpad : List.replicate (total - recordHeaderSize - payload.length) (0 : UInt8) = pad
  have hlist : bytes ++ rest = storeLE 4 total ++ (storeLE 4
      (Storage.crc32c (coveredBytes spec lsn payload)) ++ (storeLE 8 lsn ++ (storeLE 8 spec.txnId ++
        (storeLE 1 spec.type.toRaw ++ (storeLE 1 spec.flags ++ (storeLE 2 0 ++
          (storeLE 4 spec.pageId ++ (payload ++ (pad ++ rest))))))))) := by
    rw [hbytes, ← hpad, ← htotal]
    unfold coveredBytes
    simp only [append_assoc]
  have hskip : ∀ (w k n m : Nat) (later : Bytes),
      load w (storeLE k n ++ later) (m + k) = load w later m := by
    intro w k n m later
    rw [load_append_right w (by rw [length_storeLE]; omega), length_storeLE, Nat.add_sub_cancel]
  have hlen : recordHeaderSize ≤ total := by omega
  have hl : load 4 (bytes ++ rest) 0 = total := by
    rw [hlist, load_storeLE]
    exact Nat.mod_eq_of_lt (by omega)
  have hc : load 4 (bytes ++ rest) 4 = Storage.crc32c (coveredBytes spec lsn payload) := by
    rw [hlist, hskip 4 4 total 0, load_storeLE]
    exact Nat.mod_eq_of_lt (Storage.crc32c_lt _)
  have hlsn' : load 8 (bytes ++ rest) 8 = lsn := by
    rw [hlist, hskip 8 4 total 4, hskip 8 4 _ 0, load_storeLE]
    exact Nat.mod_eq_of_lt hlsn
  have htxn' : load 8 (bytes ++ rest) 16 = spec.txnId := by
    rw [hlist, hskip 8 4 total 12, hskip 8 4 _ 8, hskip 8 8 _ 0, load_storeLE]
    unfold maxTxnId at htxn
    exact Nat.mod_eq_of_lt (by omega)
  have htype' : load 1 (bytes ++ rest) 24 = spec.type.toRaw := by
    rw [hlist, hskip 1 4 total 20, hskip 1 4 _ 16, hskip 1 8 _ 8, hskip 1 8 _ 0, load_storeLE]
    exact Nat.mod_eq_of_lt (by omega)
  have hflags' : load 1 (bytes ++ rest) 25 = spec.flags := by
    rw [hlist, hskip 1 4 total 21, hskip 1 4 _ 17, hskip 1 8 _ 9, hskip 1 8 _ 1, hskip 1 1 _ 0,
      load_storeLE]
    exact Nat.mod_eq_of_lt (by omega)
  have hres' : load 2 (bytes ++ rest) 26 = 0 := by
    rw [hlist, hskip 2 4 total 22, hskip 2 4 _ 18, hskip 2 8 _ 10, hskip 2 8 _ 2, hskip 2 1 _ 1,
      hskip 2 1 _ 0, load_storeLE]
    rfl
  have hpage' : load 4 (bytes ++ rest) 28 = spec.pageId := by
    rw [hlist, hskip 4 4 total 24, hskip 4 4 _ 20, hskip 4 8 _ 12, hskip 4 8 _ 4, hskip 4 1 _ 3,
      hskip 4 1 _ 2, hskip 4 2 _ 0, load_storeLE]
    exact Nat.mod_eq_of_lt (by omega)
  have hcovered : ((bytes ++ rest).drop recordCrcCoverageOffset).take
      (total - recordCrcCoverageOffset) = coveredBytes spec lsn payload := by
    have hcut : (coveredBytes spec lsn payload).length = total - recordCrcCoverageOffset := by
      rw [length_coveredBytes, htotal]
      rfl
    rw [hbytes, append_assoc, drop_left' (by
      rw [length_append, length_storeLE, length_storeLE]
      rfl), take_left' hcut]
  have hpayload : ((bytes ++ rest).drop recordHeaderSize).take (total - recordHeaderSize) =
      payload ++ pad := by
    have hheader : bytes ++ rest = (storeLE 4 total ++ (storeLE 4
        (Storage.crc32c (coveredBytes spec lsn payload)) ++ (storeLE 8 lsn ++
          (storeLE 8 spec.txnId ++ (storeLE 1 spec.type.toRaw ++ (storeLE 1 spec.flags ++
            (storeLE 2 0 ++ storeLE 4 spec.pageId))))))) ++ ((payload ++ pad) ++ rest) := by
      rw [hlist]
      simp only [append_assoc]
    have hcut : (payload ++ pad).length = total - recordHeaderSize := by
      rw [length_append, ← hpad, length_replicate]
      omega
    rw [hheader, drop_left' (by
      simp only [length_append, length_storeLE]
      rfl), take_left' hcut]
  have hfits : ¬ (bytes ++ rest).length < total := by
    rw [length_append]
    omega
  have hshort : ¬ (bytes ++ rest).length < recordHeaderSize := by
    rw [length_append]
    omega
  have hpossible : ¬ (total < recordHeaderSize ∨ total % recordAlignment ≠ 0 ∨
      (bytes ++ rest).length < total) := by
    rw [not_or, not_or, not_not]
    exact ⟨by omega, halign, hfits⟩
  unfold decodeRecord recordOf
  rw [if_neg hshort]
  dsimp only
  rw [hl, if_neg hpossible, hc, hcovered, if_neg (not_not_intro rfl), hlsn', htxn', htype', hflags',
    hres', hpage', hpayload, htotal, hpad]

variable {r : DecodedRecord}

theorem decodeRecord_append (h : decodeRecord (bytes ++ rest) = .ok r)
    (hfits : r.header.totalLen ≤ bytes.length) (rest' : Bytes) :
    decodeRecord (bytes ++ rest') = .ok r := by
  obtain ⟨hmin, halign, -⟩ := decodeRecord_totalLen h
  have hheader : recordHeaderSize ≤ bytes.length := by omega
  have hload : ∀ (w o : Nat) (later : Bytes), o + w ≤ recordHeaderSize →
      load w (bytes ++ later) o = load w bytes o :=
    fun w o later hwo => load_append_left (by omega)
  have htotal : r.header.totalLen = load 4 bytes 0 := by
    rw [← hload 4 0 rest (by decide)]
    unfold decodeRecord at h
    dsimp only at h
    split_ifs at h
    rw [← Except.ok.inj h]
  have hcut : ∀ (o : Nat) (later : Bytes), o ≤ bytes.length →
      ((bytes ++ later).drop o).take (load 4 bytes 0 - o) =
        (bytes.drop o).take (load 4 bytes 0 - o) := by
    intro o later ho
    rw [drop_append_of_le_length ho, take_append_of_le_length]
    rw [length_drop]
    omega
  have hsame : ∀ later, ¬ (bytes ++ later).length < recordHeaderSize ∧
      (load 4 bytes 0 < recordHeaderSize ∨ load 4 bytes 0 % recordAlignment ≠ 0 ∨
        (bytes ++ later).length < load 4 bytes 0 ↔ False) := by
    intro later
    rw [length_append]
    refine ⟨by omega, iff_false_intro ?_⟩
    rw [not_or, not_or, not_not, ← htotal]
    exact ⟨by omega, halign, by omega⟩
  have hall : ∀ later, decodeRecord (bytes ++ later) =
      if load 4 bytes 4 ≠ Storage.crc32c ((bytes.drop recordCrcCoverageOffset).take
          (load 4 bytes 0 - recordCrcCoverageOffset)) then
        .error (.corruption "wal record: crc mismatch")
      else .ok {
        header := {
          totalLen := load 4 bytes 0
          crc32c := load 4 bytes 4
          lsn := load 8 bytes 8
          txnId := load 8 bytes 16
          type := load 1 bytes 24
          flags := load 1 bytes 25
          reserved := load 2 bytes 26
          pageId := load 4 bytes 28 }
        payload := (bytes.drop recordHeaderSize).take (load 4 bytes 0 - recordHeaderSize) } := by
    intro later
    unfold decodeRecord
    rw [if_neg (hsame later).1]
    dsimp only
    rw [hload 4 0 later (by decide), if_neg (hsame later).2.mp, hload 4 4 later (by decide),
      hcut recordCrcCoverageOffset later
        (by unfold recordCrcCoverageOffset; unfold recordHeaderSize at hheader; omega),
      hload 8 8 later (by decide), hload 8 16 later (by decide), hload 1 24 later (by decide),
      hload 1 25 later (by decide), hload 2 26 later (by decide), hload 4 28 later (by decide),
      hcut recordHeaderSize later hheader]
  rw [hall rest', ← hall rest]
  exact h

/-- **A damaged record is refused**: bytes that a record was read from are none once up to four
    adjacent bytes behind its length and its checksum have changed. -/
theorem decodeRecord_burst {damaged : Bytes} (hok : decodeRecord bytes = .ok r)
    (hlen : damaged.length = bytes.length)
    (hfront : damaged.take recordCrcCoverageOffset = bytes.take recordCrcCoverageOffset)
    (hburst : Storage.Burst
      ((bytes.drop recordCrcCoverageOffset).take (r.header.totalLen - recordCrcCoverageOffset))
      ((damaged.drop recordCrcCoverageOffset).take (r.header.totalLen - recordCrcCoverageOffset))) :
    ∃ e, decodeRecord damaged = .error e ∧ e.code = .corruption := by
  have hfield : ∀ offset, offset + 4 ≤ 8 → load 4 damaged offset = load 4 bytes offset := by
    intro offset hwithin
    have hcut : ∀ b : Bytes, load 4 b offset = leNat (((b.take 8).drop offset).take 4) := by
      intro b
      rw [drop_take, take_take, Nat.min_eq_left (by omega)]
      rfl
    rw [hcut, hcut, show damaged.take 8 = bytes.take 8 from hfront]
  unfold decodeRecord at hok ⊢
  rw [hlen, hfield 0 (by decide), hfield 4 (by decide)]
  dsimp only at hok ⊢
  split_ifs at hok with hshort himpossible hcrc
  cases hok
  rw [if_neg hshort, if_neg himpossible, if_pos]
  · exact ⟨_, rfl, rfl⟩
  · rw [not_not.mp hcrc]
    exact hburst.crc32cExtend_ne (by decide)

-- The reader over records

theorem leNat_zeros (h : bytes.all (· = 0) = true) : leNat bytes = 0 := by
  induction bytes with
  | nil => rfl
  | cons b rest ih =>
    obtain ⟨hb, hrest⟩ := Bool.and_eq_true_iff.mp h
    have hzero : b = 0 := of_decide_eq_true hb
    rw [leNat, ih hrest, hzero]
    rfl

variable {pos : Nat}

theorem RecordReader.next_of_decode {early : Bool} (h : decodeRecord (bytes ++ rest) = .ok r)
    (hlsn : r.header.lsn = pos) (hlength : bytes.length = r.header.totalLen) :
    RecordReader.next ⟨bytes ++ rest, pos, early⟩ =
      (some r, ⟨rest, pos + bytes.length, early⟩) := by
  obtain ⟨hmin, -, -⟩ := decodeRecord_totalLen h
  have hpos : 0 < recordHeaderSize := by decide
  have htotal : load 4 (bytes ++ rest) 0 = r.header.totalLen := by
    unfold decodeRecord at h
    dsimp only at h
    split_ifs at h
    rw [← Except.ok.inj h]
  have hne : ¬ bytes ++ rest = [] := by
    intro hnil
    have hlen := congrArg List.length hnil
    rw [length_append, length_nil] at hlen
    omega
  have hcontent : ¬ ((bytes ++ rest).take recordHeaderSize).all (· = 0) = true := by
    intro hzero
    have hfour : (((bytes ++ rest).take recordHeaderSize).take 4).all (· = 0) = true := by
      rw [all_eq_true] at hzero ⊢
      exact fun b hb => hzero b (mem_of_mem_take hb)
    rw [take_take] at hfour
    have hload : load 4 (bytes ++ rest) 0 = 0 := leNat_zeros hfour
    omega
  unfold RecordReader.next
  rw [if_neg hne, if_neg hcontent, h]
  dsimp only
  rw [if_neg (not_not_intro hlsn), ← hlength, drop_left]

theorem RecordReader.next_decodes {reader reader' : RecordReader}
    (h : reader.next = (some r, reader')) : decodeRecord reader.rest = .ok r := by
  unfold RecordReader.next at h
  split_ifs at h
  · cases h
  · cases h
  · rcases hout : decodeRecord reader.rest with e | r'
    · rw [hout] at h
      cases h
    · rw [hout] at h
      dsimp only at h
      split_ifs at h
      · cases h
      · rw [Option.some.inj (Prod.mk.inj h).1]

/-- Bytes that the reader passes over, record by record, whatever follows them. -/
inductive Spells : Bytes → Nat → List DecodedRecord → Prop where
  | nil (pos : Nat) : Spells [] pos []
  | cons {bytes later : Bytes} {pos : Nat} {r : DecodedRecord} {records : List DecodedRecord}
      (decodes : ∀ rest, decodeRecord (bytes ++ rest) = .ok r) (lsn : r.header.lsn = pos)
      (length : bytes.length = r.header.totalLen) (notPad : r.type ≠ .pad)
      (rest : Spells later (pos + bytes.length) records) :
      Spells (bytes ++ later) pos (r :: records)

theorem Spells.append {bytes bytes' : Bytes} {pos : Nat} {records records' : List DecodedRecord}
    (h : Spells bytes pos records) (h' : Spells bytes' (pos + bytes.length) records') :
    Spells (bytes ++ bytes') pos (records ++ records') := by
  induction h with
  | nil pos => exact h'
  | @cons first later pos r records hdecodes hlsn hlength hpad hrest ih =>
    rw [append_assoc, cons_append]
    refine .cons hdecodes hlsn hlength hpad (ih ?_)
    rw [length_append, ← Nat.add_assoc] at h'
    exact h'

variable {records : List DecodedRecord}

theorem Spells.within (h : Spells bytes pos records) (hr : r ∈ records) :
    pos ≤ r.lsn ∧ r.lsn < r.nextLsn := by
  induction h with
  | nil pos => cases hr
  | @cons first later pos r' records hdecodes hlsn hlength hpad hrest ih =>
    have hmin := (decodeRecord_totalLen (hdecodes [])).1
    have hhead : 0 < recordHeaderSize := by decide
    rcases mem_cons.mp hr with rfl | hr
    · have hnext : r.nextLsn = r.lsn + r.header.totalLen := rfl
      have hstart : r.lsn = pos := hlsn
      exact ⟨Nat.le_of_eq hstart.symm, by omega⟩
    · obtain ⟨hstart, hnonempty⟩ := ih hr
      exact ⟨by omega, hnonempty⟩

theorem Spells.sorted (h : Spells bytes pos records) : records.Pairwise DecodedRecord.Before := by
  induction h with
  | nil pos => exact .nil
  | @cons first later pos r records hdecodes hlsn hlength hpad hrest ih =>
    refine .cons (fun r' hr' => ?_) ih
    have hstart := (hrest.within hr').1
    have hnext : r.nextLsn = r.lsn + r.header.totalLen := rfl
    have hpos : r.lsn = pos := hlsn
    show r.nextLsn ≤ r'.lsn
    omega

theorem Spells.readRecords
    (h : Spells bytes pos records) (rest : Bytes) (early : Bool) {fuel fuel' : Nat}
    (hfuel : (bytes ++ rest).length < fuel) (hfuel' : rest.length < fuel') :
    Wal.readRecords fuel ⟨bytes ++ rest, pos, early⟩ =
      { Wal.readRecords fuel' ⟨rest, pos + bytes.length, early⟩ with
        records :=
          records ++ (Wal.readRecords fuel' ⟨rest, pos + bytes.length, early⟩).records } := by
  induction h generalizing fuel with
  | nil pos => exact readRecords_fuel hfuel hfuel'
  | @cons first later pos r records hdecodes hlsn hlength hpad hrest ih =>
    obtain ⟨fuel, rfl⟩ : ∃ n, fuel = n + 1 := ⟨fuel - 1, by omega⟩
    have hmin := (decodeRecord_totalLen (hdecodes [])).1
    have hpos : 0 < recordHeaderSize := by decide
    have hnext : RecordReader.next ⟨first ++ later ++ rest, pos, early⟩ =
        (some r, ⟨later ++ rest, pos + first.length, early⟩) := by
      rw [append_assoc]
      exact RecordReader.next_of_decode (hdecodes _) hlsn hlength
    have hshorter : (later ++ rest).length < fuel := by
      rw [append_assoc, length_append] at hfuel
      omega
    rw [Wal.readRecords, hnext]
    dsimp only
    rw [if_neg hpad, ih hshorter, length_append, ← Nat.add_assoc, cons_append]

/-- **A walk over a body** is bytes that spell the records it found, and a place where it stops. -/
theorem readRecords_spells (body : Bytes) (pos : Nat) (early : Bool) {fuel : Nat}
    (hfuel : body.length < fuel) :
    ∃ bytes rest, body = bytes ++ rest ∧
      Spells bytes pos (readRecords fuel ⟨body, pos, early⟩).records ∧
      readRecords (rest.length + 1) ⟨rest, pos + bytes.length, early⟩ =
        { readRecords fuel ⟨body, pos, early⟩ with records := [] } := by
  induction fuel generalizing body pos with
  | zero => omega
  | succ fuel ih =>
    rcases readRecords_cases fuel ⟨body, pos, early⟩ with hnil | ⟨r, reader', hnext, hpad, hread⟩
    · refine ⟨[], body, rfl, ?_, ?_⟩
      · rw [hnil]
        exact .nil pos
      · have hsame : readRecords (body.length + 1) ⟨body, pos, early⟩ =
            readRecords (fuel + 1) ⟨body, pos, early⟩ :=
          readRecords_fuel (Nat.lt_succ_self _) hfuel
        have hnone : ∀ read : SegmentRead, read.records = [] →
            read = { read with records := [] } := by
          rintro ⟨records, sealed, early⟩ rfl
          rfl
        exact hsame.trans (hnone _ hnil)
    · obtain ⟨hpos, hmin, -, hmax, hreader⟩ := RecordReader.next_some hnext
      dsimp only at hpos hmax hreader
      have hhead : 0 < recordHeaderSize := by decide
      have hdecode : decodeRecord body = .ok r := RecordReader.next_decodes hnext
      have hlength : (body.take r.header.totalLen).length = r.header.totalLen := by
        rw [length_take]
        omega
      have hshorter : (body.drop r.header.totalLen).length < fuel := by
        rw [length_drop]
        omega
      subst hreader
      obtain ⟨bytes, rest, hbody, hspells, hstop⟩ :=
        ih (body.drop r.header.totalLen) r.nextLsn hshorter
      have hnextLsn : r.nextLsn = pos + r.header.totalLen := by
        rw [← hpos]
        rfl
      refine ⟨body.take r.header.totalLen ++ bytes, rest, ?_, ?_, ?_⟩
      · rw [append_assoc, ← hbody, take_append_drop]
      · rw [hread]
        refine .cons (fun later => ?_) hpos hlength hpad ?_
        · have hwhole : decodeRecord (body.take r.header.totalLen ++
              body.drop r.header.totalLen) = .ok r := by
            rw [take_append_drop]
            exact hdecode
          exact decodeRecord_append hwhole (Nat.le_of_eq hlength.symm) later
        · rw [hlength, ← hnextLsn]
          exact hspells
      · rw [length_append, hlength, ← Nat.add_assoc, ← hnextLsn, hstop, hread]

theorem spells_encodeRecord {entry : LogEntry} (hpad : ¬ entry.spec.IsPad)
    (h : encodeRecord outSize entry.spec lsn entry.payload = .ok bytes) (hlsn : lsn < 2 ^ 64) :
    Spells bytes lsn [recordOf entry.spec lsn entry.payload] := by
  have hspells : Spells (bytes ++ []) lsn [recordOf entry.spec lsn entry.payload] :=
    .cons (decodeRecord_encodeRecord h hlsn entry.pageId_lt entry.flags_lt) rfl
      (encodeRecord_eq_ok h).2.2.2.2 hpad (.nil _)
  rw [append_nil] at hspells
  exact hspells

-- Damage

theorem Spells.split {pre post : List DecodedRecord} (h : Spells bytes pos (pre ++ post)) :
    ∃ first later, bytes = first ++ later ∧ Spells first pos pre ∧
      Spells later (pos + first.length) post := by
  induction pre generalizing bytes pos with
  | nil => exact ⟨[], bytes, rfl, .nil pos, h⟩
  | cons r pre ih =>
    cases h with
    | @cons head tail _ _ _ hdecodes hlsn hlength hpad hrest =>
      obtain ⟨first, later, rfl, hfirst, hlater⟩ := ih hrest
      refine ⟨head ++ first, later, (append_assoc _ _ _).symm,
        .cons hdecodes hlsn hlength hpad hfirst, ?_⟩
      rw [length_append, ← Nat.add_assoc]
      exact hlater

theorem load_of_decodeRecord (h : decodeRecord bytes = .ok r) :
    load 4 bytes 0 = r.header.totalLen := by
  unfold decodeRecord at h
  dsimp only at h
  split_ifs at h
  rw [← Except.ok.inj h]

theorem RecordReader.next_of_bad {reader : RecordReader} {e : Status}
    (hbad : decodeRecord reader.rest = .error e) (hcontent : load 4 reader.rest 0 ≠ 0) :
    reader.next = (none, { reader with stoppedEarly := true }) := by
  have hne : ¬ reader.rest = [] := fun hnil => hcontent (by rw [hnil]; rfl)
  have hnotSlack : ¬ (reader.rest.take recordHeaderSize).all (· = 0) = true := by
    intro hzero
    have hfour : ((reader.rest.take recordHeaderSize).take 4).all (· = 0) = true := by
      rw [all_eq_true] at hzero ⊢
      exact fun b hb => hzero b (mem_of_mem_take hb)
    rw [take_take] at hfour
    exact hcontent (leNat_zeros hfour)
  unfold RecordReader.next
  rw [if_neg hne, if_neg hnotSlack, hbad]

/-- **A damaged record ends the scan**: with up to four adjacent bytes changed behind the length
    and the checksum of a record, the walk over the body hands over the records before it, and
    reports the damage. -/
theorem readRecords_burst {body damaged : Bytes} {pos fuel : Nat} {pre post : List DecodedRecord}
    {r : DecodedRecord}
    (hscan : (readRecords (body.length + 1) ⟨body, pos, false⟩).records = pre ++ r :: post)
    (hlen : damaged.length = body.length)
    (hsame : damaged.take (r.lsn - pos + recordCrcCoverageOffset) =
      body.take (r.lsn - pos + recordCrcCoverageOffset))
    (hburst : Storage.Burst
      ((body.drop (r.lsn - pos + recordCrcCoverageOffset)).take
        (r.header.totalLen - recordCrcCoverageOffset))
      ((damaged.drop (r.lsn - pos + recordCrcCoverageOffset)).take
        (r.header.totalLen - recordCrcCoverageOffset))) (hfuel : damaged.length < fuel) :
    readRecords fuel ⟨damaged, pos, false⟩ = ⟨pre, false, true⟩ := by
  obtain ⟨bytes, rest, rfl, hspells, -⟩ :=
    readRecords_spells body pos false (Nat.lt_succ_self body.length)
  rw [hscan] at hspells
  obtain ⟨first, later, rfl, hfirst, hlater⟩ := hspells.split
  cases hlater with
  | @cons head tail _ _ _ hdecodes hlsn hlength hpad hrest =>
    have hat : r.lsn - pos = first.length := by
      rw [show r.lsn = pos + first.length from hlsn, Nat.add_sub_cancel_left]
    have hdecode : decodeRecord (head ++ (tail ++ rest)) = .ok r := hdecodes _
    obtain ⟨hmin, -, hmax⟩ := decodeRecord_totalLen hdecode
    generalize hrecord : head ++ (tail ++ rest) = record at hdecode hmax
    have hbody : first ++ (head ++ tail) ++ rest = first ++ record := by
      rw [← hrecord]
      simp only [append_assoc]
    rw [hbody] at hlen hsame hburst
    rw [hat] at hsame hburst
    have hfront : damaged.take first.length = first := by
      have hcut := congrArg (List.take first.length) hsame
      rw [take_take, take_take, Nat.min_eq_left (Nat.le_add_right _ _),
        take_left] at hcut
      exact hcut
    obtain ⟨torn, rfl⟩ : first <+: damaged := hfront ▸ List.take_prefix first.length damaged
    rw [length_append, length_append] at hlen
    rw [take_length_add_append, take_length_add_append] at hsame
    rw [drop_length_add_append, drop_length_add_append] at hburst
    have hheader := append_cancel_left hsame
    obtain ⟨e, hbad, -⟩ :=
      decodeRecord_burst hdecode (Nat.add_left_cancel hlen) hheader hburst
    -- its length is still there, so what follows is content and no slack
    have htotal : load 4 torn 0 = r.header.totalLen := by
      rw [← load_of_decodeRecord hdecode]
      have hcut := congrArg (fun b : Bytes => leNat (b.take 4)) hheader
      simp only [take_take] at hcut
      exact hcut
    have hnext : RecordReader.next ⟨torn, pos + first.length, false⟩ =
        (none, ⟨torn, pos + first.length, true⟩) :=
      RecordReader.next_of_bad hbad (by
        have hhead : 0 < recordHeaderSize := by decide
        show load 4 torn 0 ≠ 0
        omega)
    rw [hfirst.readRecords torn false hfuel (Nat.lt_succ_self torn.length), readRecords, hnext]
    simp

/-- Two records of nothing but an LSN, the second with some byte in it. -/
def twoRecords (b : UInt8) : Bytes :=
  [32, 0, 0, 0, 238, 236, 251, 132] ++ List.replicate 24 0 ++
    ([32, 0, 0, 0, 233, 146, 65, 138, 32, b] ++ List.replicate 22 0)

theorem readRecords_burst_second :
    readRecords 65 ⟨twoRecords 1, 0, false⟩ =
      ⟨[⟨⟨32, 2231102702, 0, 0, 0, 0, 0, 0⟩, []⟩], false, true⟩ := by
  have hscan : (readRecords ((twoRecords 0).length + 1) ⟨twoRecords 0, 0, false⟩).records =
      [⟨⟨32, 2231102702, 0, 0, 0, 0, 0, 0⟩, []⟩] ++
        ⟨⟨32, 2319553257, 32, 0, 0, 0, 0, 0⟩, []⟩ :: [] := by decide +kernel
  exact readRecords_burst hscan rfl (by decide +kernel)
    ⟨[32], [0], [1], List.replicate 22 0, by decide +kernel, by decide +kernel, rfl, by decide,
      by decide⟩ (by decide +kernel)

end Kds.Wal
