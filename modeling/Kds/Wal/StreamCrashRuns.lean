/-
  Kds.Wal.StreamCrashRuns

  Every moment of every run of a stream that was started on an empty device: the log is laid out as
  `Laid` says, and the platter is behind it as `OnPlatter` says.  A crash at any of them is then
  survived exactly where the header blocks that the reopening needs have reached the platter.
-/

import Kds.Wal.StreamCrash

namespace Kds.Wal

open Lib List

-- Bytes and writes

section Writes

variable {dev dev' : LogDevice} {n k i offset : Nat} {bytes : Bytes}

theorem byteAt_overlayAt (hn : n < dev.segmentCount)
    (hfits : offset + bytes.length ≤ dev.segmentSize)
    (hout : k ≠ n ∨ i < offset ∨ offset + bytes.length ≤ i) :
    byteAt (dev.overlayAt n offset bytes) k i = byteAt dev k i := by
  unfold byteAt
  rw [getD_overlayAt dev n offset bytes k hn]
  by_cases hk : n = k
  · subst hk
    have hlength : (dev.segments.getD n []).length = dev.segmentSize := segment_length hn
    have hsplit : dev.segments.getD n [] = (dev.segments.getD n []).take offset ++
        (dev.segments.getD n []).drop offset := (take_append_drop _ _).symm
    have hbefore : ((dev.segments.getD n []).take offset).length = offset := by
      rw [length_take]
      omega
    have hafter : bytes.length ≤ ((dev.segments.getD n []).drop offset).length := by
      rw [length_drop]
      omega
    have hover := overlay_append hbefore hafter
    rw [← hsplit] at hover
    rw [if_pos rfl, hover]
    rcases hout with hne | hlt | hle
    · exact absurd rfl hne
    · rw [append_assoc, getD_append _ _ _ _ (by omega)]
      conv_rhs => rw [hsplit]
      rw [getD_append _ _ _ _ (by omega)]
    · rw [getD_append_right _ _ _ _ (by rw [length_append]; omega), length_append,
        hbefore, getD_eq_getElem?_getD, List.getElem?_drop, List.getElem?_drop,
        ← getD_eq_getElem?_getD]
      congr 1
      omega
  · rw [if_neg hk]

theorem byteAt_createSegment (h : dev.createSegment n = .ok dev') (k i : Nat) :
    byteAt dev' k i = byteAt dev k i := by
  obtain ⟨hn, -, hsegments, -⟩ := createSegment_eq_ok h
  unfold byteAt
  rw [hsegments]
  rcases Nat.lt_or_ge k dev.segments.length with hlt | hge
  · rw [getD_append _ _ _ _ hlt]
  · rw [getD_append_right _ _ _ _ hge, getD_eq_default dev.segments _ hge, getD_nil]
    rcases Nat.eq_zero_or_pos (k - dev.segments.length) with hzero | hpos
    · rw [hzero, getD_cons_zero, getD_eq_getElem?_getD]
      exact List.getElem?_getD_replicate_default_eq _ _ _
    · rw [getD_eq_default [List.replicate dev.segmentSize 0] _ hpos, getD_nil]

theorem byteAt_of_count_le (h : dev.segmentCount ≤ k) (i : Nat) : byteAt dev k i = 0 := by
  unfold byteAt
  rw [getD_eq_default _ _ h, getD_nil]

end Writes

-- The stream at work

/-- The platter is behind what was written, and the durable position behind what was flushed. -/
structure Safe (s : WalStream) : Prop where
  platter : OnPlatter s.disk.content s.disk.platter s.durableLsn
  durable_le : s.durableLsn ≤ s.flushedLsn

/-- Nothing lies behind what was flushed to the current segment. -/
def Blank (s : WalStream) (n : Nat) : Prop :=
  ∀ i, s.flushedLsn ≤ n * s.segmentSize + i → byteAt s.disk.content n i = 0

theorem Blank.after {s : WalStream} {n : Nat} (h : Blank s n) {written after : Bytes}
    (hflushed : s.flushedLsn = n * s.segmentSize + (segmentHeaderSize + written.length))
    (hbody : bodyOf s.disk.content n = written ++ after) : ∀ b ∈ after, b = 0 := by
  intro b hb
  obtain ⟨i, hi, rfl⟩ := mem_iff_getElem.mp hb
  have hbyte := h (segmentHeaderSize + (written.length + i)) (by omega)
  rw [← getD_bodyOf, hbody, getD_append_right _ _ _ _ (Nat.le_add_right _ _),
    Nat.add_sub_cancel_left, getD_eq_getElem _ _ hi] at hbyte
  exact hbyte

/-- A log that a stream has written from its start: sealed segments, and a current one whose
    flushed part and staged part each spell records. -/
inductive AtWork (s : WalStream) (placed : List DecodedRecord) : Prop where
  | tail {fronts : List (List DecodedRecord)} {written rest : Bytes}
      {onDisk staged : List DecodedRecord}
      (goes : Fronts s.disk.content s.coreId 0 fronts)
      (tail : Tail s fronts.length (written ++ s.ring) rest (onDisk ++ staged))
      (blank : Blank s fronts.length)
      (spells : Spells written (fronts.length * s.segmentSize + segmentHeaderSize) onDisk)
      (ring : Spells s.ring
        (fronts.length * s.segmentSize + segmentHeaderSize + written.length) staged)
      (all : placed = fronts.flatten ++ (onDisk ++ staged))
  | sealed {fronts : List (List DecodedRecord)} {records : List DecodedRecord}
      (goes : Fronts s.disk.content s.coreId 0 fronts)
      (sealed : Sealed s fronts.length records)
      (append : s.appendLsn ≤ fronts.length * s.segmentSize + s.segmentSize)
      (all : placed = fronts.flatten ++ records)

/-- What a crash at a moment is survived from. -/
def MomentOk (size coreId : Nat) (placed : List DecodedRecord) (durable : Nat)
    (m : LogDevice × LogDevice) : Prop :=
  m.1.segmentSize = size ∧ Laid m.1 coreId placed durable ∧ OnPlatter m.1 m.2 durable

/-- A device goes from one state to another, through moments that each have a property. -/
def Passes (d d' : LogDisk) (good : LogDevice × LogDevice → Prop) : Prop :=
  ∃ more, d'.past = d.past ++ more ∧ (∀ m ∈ more, good m) ∧ good (d'.content, d'.platter)

section Work

variable {s s' : WalStream} {placed : List DecodedRecord} {n : Nat} {bytes rest : Bytes}

variable {d : LogDisk} {good : LogDevice × LogDevice → Prop}

theorem Passes.refl (h : good (d.content, d.platter)) : Passes d d good :=
  ⟨[], (append_nil _).symm, (fun m hm => by cases hm), h⟩

theorem Passes.trans {d' d'' : LogDisk}
    (h : Passes d d' good) (h' : Passes d' d'' good) : Passes d d'' good := by
  obtain ⟨more, hpast, hmore, -⟩ := h
  obtain ⟨more', hpast', hmore', hend⟩ := h'
  refine ⟨more ++ more', ?_, fun m hm => ?_, hend⟩
  · rw [hpast', hpast, append_assoc]
  · rcases mem_append.mp hm with hm | hm
    · exact hmore m hm
    · exact hmore' m hm

theorem Passes.single {d' : LogDisk} (hpast : d'.past = d.moments) (h : good (d.content, d.platter))
    (h' : good (d'.content, d'.platter)) : Passes d d' good :=
  ⟨[(d.content, d.platter)], hpast, (fun m hm => by
    rw [mem_singleton.mp hm]
    exact h), h'⟩

theorem AtWork.laid (h : AtWork s placed) (hsafe : Safe s) :
    Laid s.disk.content s.coreId placed s.durableLsn := by
  rcases h with @⟨fronts, written, rest, onDisk, staged, hgoes, htail, hblank, hwritten, hstaged,
    hall⟩ | @⟨fronts, records, hgoes, hsealed, -, hall⟩
  · obtain ⟨block, written', after, hsegment, hblock, -, hbytes, -, -⟩ := htail.body.split
    have hsame : written' = written := (append_cancel_right hbytes).symm
    subst hsame
    have hflushed := htail.body.flushedLsn rfl
    have hbody : bodyOf s.disk.content fronts.length = written' ++ after := by
      unfold bodyOf
      rw [hsegment, drop_left' hblock]
    refine .opened hgoes htail.body.count hbody (fun b hb => ?_) hwritten hall fun r hr => ?_
    · exact hblank.after hflushed hbody b hb
    · obtain ⟨hfrom, hnonempty⟩ := hstaged.within hr
      have hdurable := hsafe.durable_le
      omega
  · have hlonger : Fronts s.disk.content s.coreId 0 (fronts ++ [records]) := by
      refine hgoes.append ⟨?_, trivial⟩
      rw [Nat.zero_add]
      exact hsealed.goes
    refine .closed hlonger ?_ (append_ne_nil_of_right_ne_nil _ (cons_ne_nil _ [])) ?_
    · rw [length_append, length_singleton]
      exact hsealed.count
    · rw [hall, flatten_append, flatten_cons, flatten_nil, append_nil]

theorem AtWork.moment (h : AtWork s placed) (hsafe : Safe s) :
    MomentOk s.segmentSize s.coreId placed s.durableLsn (s.disk.content, s.disk.platter) :=
  ⟨rfl, h.laid hsafe, hsafe.platter⟩

-- Flushing

theorem OnPlatter.overlayAt {content platter : LogDevice} {durable offset : Nat}
    (h : OnPlatter content platter durable) (hn : n < content.segmentCount)
    (hfits : offset + bytes.length ≤ content.segmentSize)
    (hblank : ∀ i, offset ≤ i → i < offset + bytes.length → byteAt content n i = 0)
    (hpast : ∀ i, segmentHeaderSize ≤ i → offset ≤ i → i < offset + bytes.length →
      durable ≤ n * content.segmentSize + i) :
    OnPlatter (content.overlayAt n offset bytes) platter durable where
  size := h.size
  count := by
    rw [segmentCount_overlayAt]
    exact h.count
  byte k i := by
    by_cases hin : k = n ∧ offset ≤ i ∧ i < offset + bytes.length
    · obtain ⟨rfl, hle, hlt⟩ := hin
      rcases h.byte k i with hbyte | hbyte
      · exact .inr (hbyte.trans (hblank i hle hlt))
      · exact .inr hbyte
    · rw [byteAt_overlayAt hn hfits (by omega)]
      exact h.byte k i
  durable k i hheader hsize hlt := by
    have hout : k ≠ n ∨ i < offset ∨ offset + bytes.length ≤ i := by
      by_contra hin
      have hk : k = n := by omega
      subst hk
      have hdurable := hpast i hheader (by omega) (by omega)
      have hlt' : k * content.segmentSize + i < durable := hlt
      omega
    rw [byteAt_overlayAt hn hfits hout]
    exact h.durable k i hheader hsize hlt

theorem Safe.flush (hsafe : Safe s) (hbody : Body s n bytes rest) (hblank : Blank s n)
    (hs : s.flush = .ok s') : Safe s' ∧ Blank s' n ∧ s'.durableLsn = s.durableLsn ∧
      (s'.disk = s.disk ∨ s'.disk.past = s.disk.moments) := by
  by_cases hring : s.ring = []
  · unfold WalStream.flush at hs
    rw [if_pos hring] at hs
    cases hs
    exact ⟨hsafe, hblank, rfl, .inl rfl⟩
  · obtain ⟨block, written, after, hsegment, hblock, -, hbytes, hle, -⟩ := hbody.split
    have hflushed := hbody.flushedLsn hbytes
    have hroom := hbody.room
    obtain ⟨hn, rfl⟩ := hbody.flush_eq hbytes hring hs
    have hdurable := hsafe.durable_le
    have hsize : s.disk.content.segmentSize = s.segmentSize := rfl
    have hfits : segmentHeaderSize + written.length + s.ring.length ≤
      s.disk.content.segmentSize := by
      rw [hbytes, length_append] at hroom
      omega
    have happend := hbody.append
    rw [hbytes, length_append] at happend
    refine ⟨⟨?_, ?_⟩, fun i hi => ?_, rfl, .inr rfl⟩
    · refine hsafe.platter.overlayAt hn hfits (fun i hle' _ => hblank i (by omega))
        fun i _ hle' _ => ?_
      rw [hsize]
      show s.durableLsn ≤ _
      omega
    · show s.durableLsn ≤ s.appendLsn - 0
      omega
    · have hi' : s.appendLsn - 0 ≤ n * s.segmentSize + i := hi
      show byteAt (s.disk.content.overlayAt n _ s.ring) n i = 0
      rw [byteAt_overlayAt hn hfits (.inr (.inr (by omega)))]
      exact hblank i (by omega)

/-- A part of a call that places no record. -/
structure Went (s s' : WalStream) (placed : List DecodedRecord) : Prop where
  work : AtWork s' placed
  safe : Safe s'
  coreId : s'.coreId = s.coreId
  size : s'.segmentSize = s.segmentSize
  durable : s'.durableLsn = s.durableLsn
  passes : Passes s.disk s'.disk (MomentOk s.segmentSize s.coreId placed s.durableLsn)

theorem Went.refl (h : AtWork s placed) (hsafe : Safe s) : Went s s placed :=
  ⟨h, hsafe, rfl, rfl, rfl, .refl (h.moment hsafe)⟩

theorem Went.trans {s'' : WalStream} (h : Went s s' placed) (h' : Went s' s'' placed) :
    Went s s'' placed where
  work := h'.work
  safe := h'.safe
  coreId := h'.coreId.trans h.coreId
  size := h'.size.trans h.size
  durable := h'.durable.trans h.durable
  passes := by
    have hlater := h'.passes
    rw [h.size, h.coreId, h.durable] at hlater
    exact h.passes.trans hlater

theorem Passes.of_work (h : AtWork s placed) (hsafe : Safe s) (h' : AtWork s' placed)
    (hsafe' : Safe s') (hcore : s'.coreId = s.coreId) (hsize : s'.segmentSize = s.segmentSize)
    (hdurable : s'.durableLsn = s.durableLsn)
    (hdisk : s'.disk = s.disk ∨ s'.disk.past = s.disk.moments) :
    Passes s.disk s'.disk (MomentOk s.segmentSize s.coreId placed s.durableLsn) := by
  have hstart := h.moment hsafe
  have hend := h'.moment hsafe'
  rw [hsize, hcore, hdurable] at hend
  rcases hdisk with hsame | hpast
  · rw [hsame]
    exact .refl hstart
  · exact .single hpast hstart hend

theorem AtWork.flush (h : AtWork s placed) (hsafe : Safe s) (hs : s.flush = .ok s') :
    Went s s' placed ∧ s'.ring = [] := by
  have hempty := flush_ring hs
  rcases id h with @⟨fronts, written, rest, onDisk, staged, hgoes, htail, hblank, hwritten, hstaged,
    hall⟩ | @⟨fronts, records, hgoes, hsealed, happend, hall⟩
  · obtain ⟨hsafe', hblank', hdurable, hdisk⟩ := hsafe.flush htail.body hblank hs
    obtain ⟨hbody, -, happend, hflag, hkept⟩ := htail.body.flush hs
    have hgoes' := hgoes.same fun i hi => hkept.same i (by omega)
    rw [← hkept.coreId] at hgoes'
    have hnow : AtWork s' placed := by
      refine @AtWork.tail s' placed fronts (written ++ s.ring) rest (onDisk ++ staged) [] hgoes'
        ⟨?_, ?_, hflag.trans htail.unsealed⟩ hblank' ?_ ?_ ?_
      · rw [hempty, append_nil]
        exact hbody
      · rw [hempty, append_nil, append_nil, hkept.size]
        exact htail.spells
      · rw [hkept.size]
        exact htail.spells
      · rw [hempty]
        exact .nil _
      · rw [append_nil]
        exact hall
    exact ⟨⟨hnow, hsafe', hkept.coreId, hkept.size, hdurable,
      .of_work h hsafe hnow hsafe' hkept.coreId hkept.size hdurable hdisk⟩, hempty⟩
  · unfold WalStream.flush at hs
    rw [if_pos hsealed.ring] at hs
    cases hs
    exact ⟨.refl h hsafe, hempty⟩

-- Sealing and rolling

theorem AtWork.sealSegment (h : AtWork s placed) (hsafe : Safe s) (hs : s.sealSegment = .ok s') :
    Went s s' placed ∧ s'.sealed = true := by
  rcases id h with @⟨fronts, written, rest, onDisk, staged, hgoes, htail, hblank, hwritten, hstaged,
    hall⟩ | @⟨fronts, records, hgoes, hsealed, happend, hall⟩
  · obtain ⟨hsealed, hkept⟩ := htail.sealSegment hs
    have hgoes' := hgoes.same fun i hi => hkept.same i (by omega)
    rw [← hkept.coreId] at hgoes'
    unfold WalStream.sealSegment at hs
    rw [htail.unsealed, if_neg Bool.false_ne_true] at hs
    obtain ⟨s1, hpad, hs⟩ := bind_eq_ok.mp hs
    obtain ⟨s2, hflush, hs⟩ := bind_eq_ok.mp hs
    cases hs
    unfold WalStream.stagePad at hpad
    rw [htail.body.remaining] at hpad
    -- what the last flush is made from
    have hlast : ∃ s0 bytes1 rest1, Went s s0 placed ∧ Safe s1 ∧
      Body s1 fronts.length bytes1 rest1 ∧
        Blank s1 fronts.length ∧ s1.disk = s0.disk ∧ s1.durableLsn = s0.durableLsn ∧
        s1.coreId = s0.coreId := by
      by_cases hshort : rest.length < recordHeaderSize
      · rw [if_pos hshort] at hpad
        cases hpad
        exact ⟨s, _, _, .refl h hsafe, hsafe, htail.body, hblank, rfl, rfl, rfl⟩
      · rw [if_neg hshort] at hpad
        obtain ⟨s0, hfree, hstage⟩ := bind_eq_ok.mp hpad
        have hstart : Went s s0 placed ∧ Body s0 fronts.length (written ++ s.ring) rest ∧
            Blank s0 fronts.length := by
          by_cases hfull : s.ringFree < recordHeaderSize
          · rw [if_pos hfull] at hfree
            exact ⟨(h.flush hsafe hfree).1, (htail.body.flush hfree).1,
              (hsafe.flush htail.body hblank hfree).2.1⟩
          · rw [if_neg hfull] at hfree
            cases hfree
            exact ⟨.refl h hsafe, htail.body, hblank⟩
        obtain ⟨hwent, hbody0, hblank0⟩ := hstart
        have hpadSize : encodedRecordSize ([] : Bytes).length = recordHeaderSize := by decide
        obtain ⟨encoded, -, -, hbody1, -, -⟩ := hbody0.stage hstage (by rw [hpadSize]; omega)
        obtain ⟨encoded', -, hstage⟩ := bind_eq_ok.mp hstage
        cases hstage
        have hflushed : WalStream.flushedLsn { s0 with
            ring := s0.ring ++ encoded', appendLsn := s0.appendLsn + encoded'.length } =
            s0.flushedLsn := by
          unfold WalStream.flushedLsn
          dsimp only
          rw [length_append]
          have hring : s0.ring.length ≤ s0.appendLsn := by
            obtain ⟨block, written0, after, -, -, -, hbytes0, -, -⟩ := hbody0.split
            rw [hbody0.append, hbytes0, length_append]
            omega
          omega
        refine ⟨s0, _, _, hwent, ⟨hwent.safe.platter, ?_⟩, hbody1, fun i hi => ?_, rfl, rfl, rfl⟩
        · rw [hflushed]
          exact hwent.safe.durable_le
        · rw [hflushed] at hi
          exact hblank0 i hi
    obtain ⟨s0, bytes1, rest1, hwent, hsafe1, hbody1, hblank1, hdisk, hdurable, hcore⟩ := hlast
    obtain ⟨hsafe2, -, hdurable2, hdisk2⟩ := hsafe1.flush hbody1 hblank1 hflush
    obtain ⟨hbody2, hring2, -, -, hkept2⟩ := hbody1.flush hflush
    have hsafe' : Safe { s2 with sealed := true } := ⟨hsafe2.platter, hsafe2.durable_le⟩
    have hnow : AtWork { s2 with sealed := true } placed := by
      refine .sealed hgoes' hsealed ?_ hall
      have happend := hbody2.append
      have hroom := hbody2.room
      show s2.appendLsn ≤ fronts.length * s2.segmentSize + s2.segmentSize
      omega
    refine ⟨⟨hnow, hsafe', hkept.coreId, hkept.size, (hdurable2.trans hdurable).trans hwent.durable,
      hwent.passes.trans ?_⟩, rfl⟩
    have hlater := Passes.of_work hwent.work hwent.safe hnow hsafe'
      (hkept2.coreId.trans hcore) (hkept.size.trans hwent.size.symm)
      (hdurable2.trans hdurable) (by
        rw [← hdisk]
        exact hdisk2)
    rw [hwent.size, hwent.coreId, hwent.durable] at hlater
    exact hlater
  · unfold WalStream.sealSegment at hs
    rw [if_pos hsealed.sealed] at hs
    cases hs
    exact ⟨.refl h hsafe, hsealed.sealed⟩

theorem OnPlatter.createSegment {content platter content' platter' : LogDevice} {durable : Nat}
    (h : OnPlatter content platter durable) (hcontent : content.createSegment n = .ok content')
    (hplatter : platter.createSegment n = .ok platter') :
    OnPlatter content' platter' durable := by
  obtain ⟨-, hsize, hsegments, -⟩ := createSegment_eq_ok hcontent
  obtain ⟨-, hsize', hsegments', -⟩ := createSegment_eq_ok hplatter
  refine ⟨?_, ?_, fun k i => ?_, fun k i hheader hlt hdurable => ?_⟩
  · rw [hsize, hsize', h.size]
  · have hcount : platter.segments.length = content.segments.length := h.count
    unfold LogDevice.segmentCount
    rw [hsegments, hsegments', length_append, length_append, hcount]
    rfl
  · rw [byteAt_createSegment hcontent, byteAt_createSegment hplatter]
    exact h.byte k i
  · rw [byteAt_createSegment hcontent, byteAt_createSegment hplatter]
    rw [hsize] at hlt hdurable
    exact h.durable k i hheader hlt hdurable

theorem startSegment_disk (hs : s.startSegment n = .ok s') : ∃ content platter,
    s.disk.content.createSegment n = .ok content ∧ s.disk.platter.createSegment n = .ok platter ∧
      n < content.segmentCount ∧
      s'.disk = ⟨content.overlayAt n 0
        (encodeSegmentHeader s.coreId n (n * s.segmentSize)), platter,
        LogDisk.moments ⟨content, platter, s.disk.moments⟩⟩ ∧
      s'.appendLsn = n * s.segmentSize + segmentHeaderSize ∧ s'.durableLsn = s.durableLsn ∧
      s'.ring = [] := by
  obtain ⟨created, hcreate, hs⟩ := bind_eq_ok.mp hs
  obtain ⟨disk, hwrite, hs⟩ := bind_eq_ok.mp hs
  cases hs
  obtain ⟨content, hcontent, hcreate⟩ := bind_eq_ok.mp hcreate
  obtain ⟨platter, hplatter, hcreate⟩ := bind_eq_ok.mp hcreate
  cases hcreate
  obtain ⟨written, hwritten, hdisk⟩ := bind_eq_ok.mp hwrite
  cases hdisk
  dsimp only at hwritten
  obtain ⟨hn, rfl⟩ := writeAt_eq_ok hwritten
  exact ⟨content, platter, hcontent, hplatter, hn, rfl, rfl, rfl, rfl⟩

/-- **Starting a segment**, behind sealed ones: with its header block on the way it is laid out,
    before and after. -/
theorem startSegment_atWork {fronts : List (List DecodedRecord)} (hlength : fronts.length = n)
    (hcount : s.segmentCount = n) (hlarge : segmentHeaderSize + recordHeaderSize < s.segmentSize)
    (hcore : s.coreId < 2 ^ 32) (hgoes : Fronts s.disk.content s.coreId 0 fronts)
    (hplatter : OnPlatter s.disk.content s.disk.platter s.durableLsn)
    (hdurable : s.durableLsn ≤ n * s.segmentSize + segmentHeaderSize)
    (hs : s.startSegment n = .ok s') :
    AtWork s' fronts.flatten ∧ Safe s' ∧ s'.coreId = s.coreId ∧ s'.segmentSize = s.segmentSize ∧
      s'.durableLsn = s.durableLsn ∧ ∃ created : LogDisk, created.past = s.disk.moments ∧
        s'.disk.past = created.moments ∧
          MomentOk s.segmentSize s.coreId fronts.flatten s.durableLsn (created.content,
            created.platter) := by
  obtain ⟨htail, hkept⟩ := startSegment_eq_ok hcount hlarge hcore hs
  obtain ⟨content, platter, hcontent, hplatter', hn, hdisk, happend, hdurable', hring⟩ :=
    startSegment_disk hs
  obtain ⟨-, hsize, hsegments, -⟩ := createSegment_eq_ok hcontent
  have hcreated := hplatter.createSegment hcontent hplatter'
  have hhead : 0 < recordHeaderSize := by decide
  have hsize' : content.segmentSize = s.segmentSize := hsize
  have hblank : ∀ i, byteAt content n i = 0 := fun i => by
    rw [byteAt_createSegment hcontent]
    exact byteAt_of_count_le (Nat.le_of_eq hcount) i
  have hheader := length_encodeSegmentHeader s.coreId n (n * s.segmentSize)
  have hgoes' := hgoes.same fun i hi => hkept.same i (by omega)
  rw [← hkept.coreId] at hgoes'
  have hfits : 0 + (encodeSegmentHeader s.coreId n (n * s.segmentSize)).length ≤
      content.segmentSize := by
    rw [hheader, hsize']
    omega
  subst hlength
  refine ⟨?_, ⟨?_, ?_⟩, hkept.coreId, hkept.size, hdurable',
    ⟨content, platter, s.disk.moments⟩, rfl, ?_, hsize', ?_, hcreated⟩
  · refine @AtWork.tail s' fronts.flatten fronts []
      (List.replicate (s.segmentSize - segmentHeaderSize) 0) [] [] hgoes' ?_ (fun i hi => ?_)
        (.nil _) ?_ ?_
    · rw [hring]
      exact htail
    · have hflushed : s'.flushedLsn = s'.appendLsn := by
        unfold WalStream.flushedLsn
        rw [hring]
        rfl
      rw [hflushed, happend, hkept.size] at hi
      rw [hdisk]
      dsimp only
      rw [byteAt_overlayAt hn hfits (.inr (.inr (by omega)))]
      exact hblank i
    · rw [hring]
      exact .nil _
    · rw [append_nil, append_nil]
  · rw [hdisk, hdurable']
    refine hcreated.overlayAt hn hfits (fun i _ _ => hblank i) fun i hle _ hlt => ?_
    rw [hheader] at hlt
    omega
  · have hflushed : s'.flushedLsn = s'.appendLsn := by
      unfold WalStream.flushedLsn
      rw [hring]
      rfl
    rw [hdurable', hflushed, happend]
    exact hdurable
  · rw [hdisk]
  · -- the new segment without its header block
    have hfronts : Fronts content s.coreId 0 fronts :=
      hgoes.same fun i hi => sameSegment_createSegment hcontent (by omega)
    have hnew : content.segments.getD fronts.length [] = List.replicate s.segmentSize 0 := by
      have hlast : s.disk.content.segments.length = fronts.length := hcount
      rw [hsegments, getD_eq_getElem?_getD, ← hlast, List.getElem?_concat_length]
      rfl
    refine @Laid.opened content s.coreId fronts.flatten s.durableLsn fronts []
      (bodyOf content fronts.length) [] [] hfronts ?_ (nil_append _).symm (fun b hb => ?_)
      (.nil _) ?_ (fun r hr => by cases hr)
    · unfold LogDevice.segmentCount
      rw [hsegments, length_append, length_singleton]
      exact congrArg (· + 1) hcount
    · unfold bodyOf at hb
      rw [hnew, drop_replicate] at hb
      exact eq_of_mem_replicate hb
    · rw [append_nil, append_nil]

theorem AtWork.roll (h : AtWork s placed) (hsafe : Safe s) (hsealed : s.sealed = true)
    (hcore : s.coreId < 2 ^ 32) (hs : s.roll = .ok s') : Went s s' placed := by
  rcases id h with @⟨fronts, written, rest, onDisk, staged, hgoes, htail, -, -, -, -⟩ |
    @⟨fronts, records, hgoes, hclosed, happend, hall⟩
  · rw [htail.unsealed] at hsealed
    cases hsealed
  · unfold WalStream.roll at hs
    obtain ⟨s1, hflush, hs⟩ := bind_eq_ok.mp hs
    unfold WalStream.flush at hflush
    rw [if_pos hclosed.ring] at hflush
    cases hflush
    rw [hclosed.count] at hs
    have hlonger : Fronts s.disk.content s.coreId 0 (fronts ++ [records]) := by
      refine hgoes.append ⟨?_, trivial⟩
      rw [Nat.zero_add]
      exact hclosed.goes
    have hlength : (fronts ++ [records]).length = fronts.length + 1 := by
      rw [length_append, length_singleton]
    have hflat : (fronts ++ [records]).flatten = placed := by
      rw [hall, flatten_append, flatten_cons, flatten_nil, append_nil]
    have hdurable : s.durableLsn ≤ (fronts.length + 1) * s.segmentSize + segmentHeaderSize := by
      have hle := hsafe.durable_le
      have hflushed : s.flushedLsn ≤ s.appendLsn := Nat.sub_le _ _
      rw [Nat.succ_mul]
      omega
    obtain ⟨hnow, hsafe', hcoreId, hsize, hdurable', created, hpast, hpast', hmiddle⟩ :=
      startSegment_atWork hlength hclosed.count hclosed.size hcore hlonger hsafe.platter hdurable hs
    rw [hflat] at hnow hmiddle
    have hend := hnow.moment hsafe'
    rw [hsize, hcoreId, hdurable'] at hend
    exact ⟨hnow, hsafe', hcoreId, hsize, hdurable',
      (Passes.single hpast (h.moment hsafe) hmiddle).trans (.single hpast' hmiddle hend)⟩

-- Calls

/-- A call that was made: what it left, and the moments it went through. -/
structure Called (s s' : WalStream) (placed placed' : List DecodedRecord) : Prop where
  work : AtWork s' placed'
  safe : Safe s'
  coreId : s'.coreId = s.coreId
  size : s'.segmentSize = s.segmentSize
  passes : Passes s.disk s'.disk (MomentOk s.segmentSize s.coreId placed s.durableLsn)

theorem Went.called (h : Went s s' placed) : Called s s' placed placed :=
  ⟨h.work, h.safe, h.coreId, h.size, h.passes⟩

theorem AtWork.stage (h : AtWork s placed) (hsafe : Safe s) (hunsealed : ¬ s.sealed = true)
    {entry : LogEntry} (hpad : ¬ entry.spec.IsPad) (hfits : entry.size ≤ s.segmentRemaining)
    (hs : s.stage entry.spec entry.payload = .ok s') :
    AtWork s' (placed ++ [recordOf entry.spec s.appendLsn entry.payload]) ∧ Safe s' ∧
      s'.coreId = s.coreId ∧ s'.disk = s.disk := by
  rcases h with @⟨fronts, written, rest, onDisk, staged, hgoes, htail, hblank, hwritten, hstaged,
    hall⟩ | @⟨fronts, records, hgoes, hsealed, happend, hall⟩
  · rw [htail.body.remaining] at hfits
    obtain ⟨encoded, hencode, -, hbody, hflag, -⟩ := htail.body.stage hs hfits
    obtain ⟨encoded', hencode', hs⟩ := bind_eq_ok.mp hs
    cases hencode.symm.trans hencode'
    cases hs
    have happend := htail.body.append
    have hroom := htail.body.room
    have haddr := s.disk.content.addressable
    have hcount : s.disk.content.segments.length = fronts.length + 1 := htail.body.count
    have hsize : s.disk.content.segmentSize = s.segmentSize := rfl
    rw [hcount, hsize, Nat.succ_mul] at haddr
    have hpos := entry.size_pos
    have hrecord := spells_encodeRecord hpad hencode (by omega)
    have hflushed : WalStream.flushedLsn { s with
        ring := s.ring ++ encoded, appendLsn := s.appendLsn + encoded.length } = s.flushedLsn := by
      unfold WalStream.flushedLsn
      dsimp only
      rw [happend, length_append, length_append]
      omega
    have hspells' : Spells (written ++ (s.ring ++ encoded))
        (fronts.length * s.segmentSize + segmentHeaderSize)
        (onDisk ++ (staged ++ [recordOf entry.spec s.appendLsn entry.payload])) := by
      rw [← append_assoc written, ← append_assoc onDisk]
      refine htail.spells.append ?_
      rw [← happend]
      exact hrecord
    have hring : Spells (s.ring ++ encoded)
        (fronts.length * s.segmentSize + segmentHeaderSize + written.length)
        (staged ++ [recordOf entry.spec s.appendLsn entry.payload]) := by
      refine hstaged.append ?_
      rw [length_append, ← Nat.add_assoc] at happend
      rw [← happend]
      exact hrecord
    refine ⟨@AtWork.tail _ _ fronts written (rest.drop encoded.length) onDisk _ hgoes
      ⟨?_, hspells', hflag.trans htail.unsealed⟩ (fun i hi => ?_) hwritten hring ?_,
      ⟨hsafe.platter, ?_⟩, rfl, rfl⟩
    · rw [← append_assoc]
      exact hbody
    · rw [hflushed] at hi
      exact hblank i hi
    · rw [hall, append_assoc, append_assoc]
    · rw [hflushed]
      exact hsafe.durable_le
  · exact absurd hsealed.sealed hunsealed

theorem AtWork.rolled (h : AtWork s placed) (hsealed : s.sealed = true) (hcore : s.coreId < 2 ^ 32)
    (hs : s.roll = .ok s') :
    s'.segmentRemaining = s.segmentSize - segmentHeaderSize ∧ ¬ s'.sealed = true := by
  rcases h with @⟨fronts, written, rest, onDisk, staged, -, htail, -, -, -, -⟩ |
    @⟨fronts, records, -, hclosed, -, -⟩
  · rw [htail.unsealed] at hsealed
    cases hsealed
  · obtain ⟨htail, -⟩ := hclosed.roll hcore hs
    rw [htail.body.remaining, length_replicate]
    refine ⟨rfl, ?_⟩
    rw [htail.unsealed]
    exact Bool.false_ne_true

/-- An append that is answered has its record staged in a segment with room for it, the next one
    where the segment it found had none. -/
theorem AtWork.ready (h : AtWork s placed) (hsafe : Safe s) (hcore : s.coreId < 2 ^ 32)
    {entry : LogEntry} {lsn : Nat} (hs : s.append entry = .ok (s', lsn)) :
    ∃ s1, Went s s1 placed ∧ ¬ s1.sealed = true ∧ entry.size ≤ s1.segmentRemaining ∧
      s1.stage entry.spec entry.payload = .ok s' ∧ lsn = s1.appendLsn := by
  obtain ⟨hsegment, s1, hstage, hlsn, ⟨-, s0, hseal, hroll⟩ | ⟨hunsealed, hfits, rfl⟩⟩ :=
    append_eq_ok hs
  · obtain ⟨hwent, hsealed⟩ := h.sealSegment hsafe hseal
    have hcore' : s0.coreId < 2 ^ 32 := lt_of_eq_of_lt hwent.coreId hcore
    obtain ⟨hremaining, hunsealed⟩ := hwent.work.rolled hsealed hcore' hroll
    refine ⟨s1, hwent.trans (hwent.work.roll hwent.safe hsealed hcore' hroll), hunsealed, ?_,
      hstage, hlsn⟩
    rw [hremaining, hwent.size]
    exact hsegment
  · exact ⟨s1, .refl h hsafe, hunsealed, hfits, hstage, hlsn⟩

theorem AtWork.append (h : AtWork s placed) (hsafe : Safe s) (hcore : s.coreId < 2 ^ 32)
    {entry : LogEntry} (hpad : ¬ entry.spec.IsPad) {lsn : Nat}
    (hs : s.append entry = .ok (s', lsn)) :
    Called s s' placed (placed ++ [recordOf entry.spec lsn entry.payload]) := by
  obtain ⟨s1, hwent, hunsealed, hfits, hstage, rfl⟩ := h.ready hsafe hcore hs
  obtain ⟨hnow, hsafe', hcoreId, hdisk⟩ := hwent.work.stage hwent.safe hunsealed hpad hfits hstage
  have hsize' : s'.segmentSize = s1.segmentSize := by
    unfold WalStream.segmentSize
    rw [hdisk]
  refine ⟨hnow, hsafe', hcoreId.trans hwent.coreId, hsize'.trans hwent.size, ?_⟩
  rw [hdisk]
  exact hwent.passes

theorem AtWork.afterRefused (h : AtWork s placed) (hsafe : Safe s) (hcore : s.coreId < 2 ^ 32)
    (total : Nat) : Went s (s.afterRefused total) placed := by
  unfold WalStream.afterRefused
  by_cases hlarge : s.segmentSize - segmentHeaderSize < total ∨ s.ringCapacity < total
  · rw [if_pos hlarge]
    exact .refl h hsafe
  rw [if_neg hlarge]
  by_cases hmoves : s.sealed = true ∨ s.segmentRemaining < total
  · rw [if_pos hmoves]
    rcases hseal : s.sealSegment with e | s0
    · exact .refl h hsafe
    · obtain ⟨hwent, hsealed⟩ := h.sealSegment hsafe hseal
      rcases hroll : s0.roll with e | s1
      · dsimp only
        rw [hroll]
        exact hwent
      · dsimp only
        rw [hroll]
        exact hwent.trans (hwent.work.roll hwent.safe hsealed
          (lt_of_eq_of_lt hwent.coreId hcore) hroll)
  · rw [if_neg hmoves]
    exact .refl h hsafe

/-- What is on the platter, and up to where it is durable, is not part of the work. -/
theorem AtWork.synced (h : AtWork s placed) (hcontent : s'.disk.content = s.disk.content)
    (hcoreId : s'.coreId = s.coreId) (hring : s'.ring = s.ring)
    (happend : s'.appendLsn = s.appendLsn) (hsealed : s'.sealed = s.sealed) :
    AtWork s' placed := by
  obtain ⟨coreId, ringCapacity, ⟨content, platter, past⟩, ring, appendLsn, durableLsn, flag⟩ := s
  obtain ⟨coreId', ringCapacity', ⟨content', platter', past'⟩, ring', appendLsn', durableLsn',
    flag'⟩ := s'
  dsimp only at hcontent hcoreId hring happend hsealed
  subst hcontent hcoreId hring happend hsealed
  rcases h with @⟨fronts, written, rest, onDisk, staged, hgoes, htail, hblank, hwritten,
    hstaged, hall⟩ | @⟨fronts, records, hgoes, hsealed, happend, hall⟩
  · exact .tail hgoes ⟨⟨htail.body.count, htail.body.size, htail.body.split, htail.body.append⟩,
      htail.spells, htail.unsealed⟩ hblank hwritten hstaged hall
  · exact .sealed hgoes ⟨hsealed.count, hsealed.size, hsealed.goes, hsealed.ring, hsealed.sealed⟩
      happend hall

theorem AtWork.sync (h : AtWork s placed) (hsafe : Safe s) (hs : s.sync = .ok s') :
    Called s s' placed placed := by
  obtain ⟨s1, hflush, hs⟩ := bind_eq_ok.mp hs
  cases hs
  obtain ⟨hwent, hempty⟩ := h.flush hsafe hflush
  have hplatter : ∀ durable, OnPlatter s1.disk.content s1.disk.content durable := fun durable =>
    ⟨rfl, rfl, fun k i => .inl rfl, fun k i _ _ _ => rfl⟩
  refine ⟨?_, ⟨hplatter _, Nat.le_refl _⟩, hwent.coreId, hwent.size, ?_⟩
  · exact hwent.work.synced rfl rfl rfl rfl rfl
  · have hlaid := hwent.work.laid hwent.safe
    rw [hwent.coreId, hwent.durable] at hlaid
    have hstart := hwent.work.moment hwent.safe
    rw [hwent.size, hwent.coreId, hwent.durable] at hstart
    exact hwent.passes.trans (.single rfl hstart ⟨hwent.size, hlaid, hplatter _⟩)

theorem AtWork.make (h : AtWork s placed) (hsafe : Safe s) (hcore : s.coreId < 2 ^ 32)
    {call : StreamOp} (hnone : ∀ a ∈ (s.make call).2, ¬ a.args.spec.IsPad) :
    Called s (s.make call).1 placed (placed ++ (s.make call).2.map Appended.record) := by
  have hstill : Called s s placed (placed ++ ([] : List Appended).map Appended.record) := by
    rw [map_nil, append_nil]
    exact (Went.refl h hsafe).called
  cases call with
  | append args =>
    rcases happend : s.appendRecord args.spec args.payload with e | ⟨s', lsn⟩
    · have hmake : s.make (.append args) =
          (s.afterRefused (encodedRecordSize args.payload.length), []) := by
        rw [WalStream.make, happend]
      rw [hmake, map_nil, append_nil]
      exact (h.afterRefused hsafe hcore _).called
    · have hmake : s.make (.append args) = (s', [⟨args, lsn⟩]) := by
        rw [WalStream.make, happend]
      rw [hmake] at hnone ⊢
      rw [map_singleton, Appended.record]
      exact h.append hsafe hcore (hnone ⟨args, lsn⟩ (mem_singleton.mpr rfl)) happend
  | flush =>
    rcases hflush : s.flush with e | s'
    · have hmake : s.make .flush = (s, []) := by rw [WalStream.make, hflush]
      rw [hmake]
      exact hstill
    · have hmake : s.make .flush = (s', []) := by rw [WalStream.make, hflush]
      rw [hmake, map_nil, append_nil]
      exact (h.flush hsafe hflush).1.called
  | sync =>
    rcases hsync : s.sync with e | s'
    · have hmake : s.make .sync = (s, []) := by rw [WalStream.make, hsync]
      rw [hmake]
      exact hstill
    · have hmake : s.make .sync = (s', []) := by rw [WalStream.make, hsync]
      rw [hmake, map_nil, append_nil]
      exact h.sync hsafe hsync

/-- Whatever is appended, a PAD too, the moments a call goes through are good ones. -/
theorem AtWork.passes (h : AtWork s placed) (hsafe : Safe s) (hcore : s.coreId < 2 ^ 32)
    (call : StreamOp) :
    Passes s.disk (s.make call).1.disk (MomentOk s.segmentSize s.coreId placed s.durableLsn) := by
  cases call with
  | append args =>
    rw [WalStream.make]
    rcases happend : s.appendRecord args.spec args.payload with e | ⟨s', lsn⟩
    · exact (h.afterRefused hsafe hcore _).passes
    · obtain ⟨s1, hwent, -, -, hstage, -⟩ := h.ready hsafe hcore happend
      obtain ⟨encoded, -, hstage⟩ := bind_eq_ok.mp hstage
      cases hstage
      exact hwent.passes
  | flush =>
    have hnothing : (s.make .flush).2 = [] := by
      rw [WalStream.make]
      split <;> rfl
    refine (@AtWork.make _ _ h hsafe hcore .flush fun a ha => ?_).passes
    rw [hnothing] at ha
    cases ha
  | sync =>
    have hnothing : (s.make .sync).2 = [] := by
      rw [WalStream.make]
      split <;> rfl
    refine (@AtWork.make _ _ h hsafe hcore .sync fun a ha => ?_).passes
    rw [hnothing] at ha
    cases ha

theorem AtWork.makeAll (h : AtWork s placed) (hsafe : Safe s) (hcore : s.coreId < 2 ^ 32)
    {calls : List StreamOp} (hnone : ∀ a ∈ (s.makeAll calls).2, ¬ a.args.spec.IsPad) :
    AtWork (s.makeAll calls).1 (placed ++ (s.makeAll calls).2.map Appended.record) ∧
      Safe (s.makeAll calls).1 ∧ (s.makeAll calls).1.coreId = s.coreId ∧
        (s.makeAll calls).1.segmentSize = s.segmentSize := by
  induction calls generalizing s placed with
  | nil =>
    have hnil : s.makeAll [] = (s, []) := rfl
    rw [hnil, map_nil, append_nil]
    exact ⟨h, hsafe, rfl, rfl⟩
  | cons call calls ih =>
    have hcons : s.makeAll (call :: calls) = (((s.make call).1.makeAll calls).1,
        (s.make call).2 ++ ((s.make call).1.makeAll calls).2) := rfl
    rw [hcons] at hnone ⊢
    have hcalled := h.make hsafe hcore fun a ha => hnone a (mem_append_left _ ha)
    obtain ⟨hnow, hsafe', hcoreId, hsize⟩ := ih hcalled.work hcalled.safe
      (lt_of_eq_of_lt hcalled.coreId hcore) fun a ha => hnone a (mem_append_right _ ha)
    rw [append_assoc, ← map_append] at hnow
    exact ⟨hnow, hsafe', hcoreId.trans hcalled.coreId, hsize.trans hcalled.size⟩

theorem AtWork.of_open {dev : LogDevice} {coreId ringCapacity : Nat} {s₀ : WalStream}
    (hempty : dev.segments = []) (hcore : coreId < 2 ^ 32)
    (hopen : WalStream.openOn dev coreId ringCapacity = .ok s₀) :
    AtWork s₀ [] ∧ Safe s₀ ∧ s₀.coreId = coreId ∧ s₀.segmentSize = dev.segmentSize ∧
      segmentHeaderSize < dev.segmentSize := by
  have hzero : dev.segmentCount = 0 := by
    unfold LogDevice.segmentCount
    rw [hempty]
    rfl
  unfold WalStream.openOn at hopen
  by_cases hring : ringCapacity < kMinRingCapacity
  · rw [if_pos hring] at hopen
    cases hopen
  rw [if_neg hring] at hopen
  by_cases hsmall : dev.segmentSize ≤ segmentHeaderSize + recordHeaderSize
  · rw [if_pos hsmall] at hopen
    cases hopen
  rw [if_neg hsmall] at hopen
  by_cases halign : dev.segmentSize % recordAlignment ≠ 0
  · rw [if_pos halign] at hopen
    cases hopen
  rw [if_neg halign] at hopen
  obtain ⟨s1, hstart, hopen⟩ := bind_eq_ok.mp hopen
  cases hopen
  rw [if_pos hzero] at hstart
  have hplatter : OnPlatter dev dev 0 := ⟨rfl, rfl, fun k i => .inl rfl, fun k i _ _ _ => rfl⟩
  obtain ⟨hnow, hsafe, hcoreId, hsize, -, -⟩ := @startSegment_atWork
    ⟨coreId, ringCapacity, ⟨dev, dev, []⟩, [], 0, 0, false⟩ s1 0 [] rfl hzero (Nat.not_le.mp hsmall)
    hcore trivial hplatter (Nat.zero_le _) hstart
  obtain ⟨content, platter, -, -, -, -, happend, -, hnothing⟩ := startSegment_disk hstart
  refine ⟨?_, ⟨⟨hsafe.platter.size, hsafe.platter.count, hsafe.platter.byte, ?_⟩, ?_⟩, hcoreId,
    hsize, by omega⟩
  · exact hnow.synced rfl rfl rfl rfl rfl
  · intro k i hheader hlt hdurable
    have hbelow : k * s1.disk.content.segmentSize + i < s1.appendLsn := hdurable
    omega
  · show s1.appendLsn ≤ s1.appendLsn - s1.ring.length
    rw [hnothing]
    exact Nat.le_refl _

end Work

-- Crashes

/-- **The log across a crash**: at every moment of every run of a stream that was started on an
    empty device and appended no PAD to, and for every set of surviving bytes in which a tear shows,
    the stream reopens and a scan hands out a prefix of the records with every durable one in it
    exactly where the header block of the last segment, and of every segment the scan comes to,
    survived. -/
theorem log_survives_crash_iff {dev : LogDevice} {coreId ringCapacity : Nat} {s₀ : WalStream}
    {ops : List StreamOp} {op : StreamOp} {content platter image : LogDevice}
    (hempty : dev.segments = []) (hcore : coreId < 2 ^ 32)
    (hopen : WalStream.openOn dev coreId ringCapacity = .ok s₀)
    (hnone : ∀ a ∈ (s₀.makeAll ops).2, ¬ a.args.spec.IsPad)
    (hmoment : (content, platter) ∈
      ((s₀.makeAll ops).1.make op).1.disk.momentsSince (s₀.makeAll ops).1.disk)
    (himage : LogImage content platter image)
    (hshows : ∀ k, k < content.segmentCount → Reaches image coreId k → TearShows
      (bodyOf content k) (bodyOf image k) (k * content.segmentSize + segmentHeaderSize)) :
    Recovers image coreId ringCapacity ((s₀.makeAll ops).2.map Appended.record)
        (s₀.makeAll ops).1.durableLsn ↔
      HeaderReads image coreId (image.segmentCount - 1) ∧
        ∀ k, k < image.segmentCount → Reaches image coreId k → HeaderReads image coreId k := by
  obtain ⟨hnow, hsafe, rfl, hsize, hlarge⟩ := AtWork.of_open hempty hcore hopen
  obtain ⟨hnow', hsafe', hcoreId, hsize'⟩ := hnow.makeAll hsafe hcore hnone
  rw [nil_append] at hnow'
  obtain ⟨more, hpast, hmore, hend⟩ := hnow'.passes hsafe' (lt_of_eq_of_lt hcoreId hcore) op
  have hgood : MomentOk dev.segmentSize s₀.coreId ((s₀.makeAll ops).2.map Appended.record)
      (s₀.makeAll ops).1.durableLsn (content, platter) := by
    rw [← hcoreId, ← hsize, ← hsize']
    unfold LogDisk.momentsSince LogDisk.moments at hmoment
    rw [hpast, append_assoc, drop_left] at hmoment
    rcases Lib.mem_snoc.mp hmoment with hm | hm
    · exact hmore _ hm
    · rw [hm]
      exact hend
  obtain ⟨hsame, hlaid, hplatter⟩ := hgood
  dsimp only at hsame hlaid hplatter
  exact hlaid.recovers_iff himage hplatter hopen hsame (by omega) hshows

theorem LogDisk.mem_momentsSince {disk earlier : LogDisk}
    (h : earlier.past.length ≤ disk.past.length) :
    (disk.content, disk.platter) ∈ disk.momentsSince earlier := by
  unfold LogDisk.momentsSince LogDisk.moments
  rw [drop_append_of_le_length h]
  exact mem_concat_self

theorem tearShows_self (body : Bytes) (pos : Nat) : TearShows body body pos := by
  intro bytes rest records r reader hbody _ _
  rw [hbody, drop_left]
  exact .inl rfl

/-- An empty device, with room for two records in a segment. -/
def emptyDevice : LogDevice where
  segmentSize := segmentHeaderSize + 64
  segments := []
  sized s hs := by cases hs
  addressable := by decide

/-- A segment filled with synced records. -/
def fillSegment : List StreamOp := [.append begun, .append begun, .sync]

/-- The device right after the append that rolls. -/
def rolledDisk (s₀ : WalStream) : LogDisk :=
  ((s₀.makeAll fillSegment).1.make (.append begun)).1.disk

/-- What is read off it. -/
def afterRoll (s₀ : WalStream) : Bool :=
  decide ((∀ a ∈ (s₀.makeAll fillSegment).2, ¬ a.args.spec.IsPad) ∧
    (s₀.makeAll fillSegment).1.disk.past.length ≤ (rolledDisk s₀).past.length ∧
    (rolledDisk s₀).platter.segmentSize = emptyDevice.segmentSize ∧
    (rolledDisk s₀).content.segmentSize = emptyDevice.segmentSize ∧
    (rolledDisk s₀).platter.segmentCount = 2 ∧ (rolledDisk s₀).content.segmentCount = 2 ∧
    (readSegmentHeader (rolledDisk s₀).platter 0 1).toOption.isNone = true ∧
    (readSegmentHeader (rolledDisk s₀).content 0 0).toOption.isSome = true ∧
    (readSegmentHeader (rolledDisk s₀).content 0 1).toOption.isSome = true)

theorem headerReads_of_isSome {dev : LogDevice} {coreId k : Nat} :
    HeaderReads dev coreId k ↔ (readSegmentHeader dev coreId k).toOption.isSome = true := by
  unfold HeaderReads
  rcases readSegmentHeader dev coreId k with e | header
  · refine iff_of_false ?_ Bool.false_ne_true
    rintro ⟨header, h⟩
    cases h
  · exact iff_of_true ⟨header, rfl⟩ rfl

theorem exists_afterRoll :
    ∃ s₀, WalStream.openOn emptyDevice 0 kMinRingCapacity = .ok s₀ ∧ afterRoll s₀ = true := by
  have hrun : (WalStream.openOn emptyDevice 0 kMinRingCapacity).toOption.any afterRoll = true := by
    decide +kernel
  obtain ⟨s₀, hopen, hfacts⟩ := (Option.any_eq_true _ _).mp hrun
  rcases hout : WalStream.openOn emptyDevice 0 kMinRingCapacity with e | s
  · rw [hout] at hopen
    cases hopen
  · rw [hout] at hopen
    obtain rfl := Option.some.inj hopen
    exact ⟨s, rfl, hfacts⟩

theorem log_survives_crash_iff_whole : ∃ s₀ content platter,
    WalStream.openOn emptyDevice 0 kMinRingCapacity = .ok s₀ ∧
      (content, platter) ∈ (rolledDisk s₀).momentsSince (s₀.makeAll fillSegment).1.disk ∧
      LogImage content platter content ∧
      Recovers content 0 kMinRingCapacity ((s₀.makeAll fillSegment).2.map Appended.record)
        (s₀.makeAll fillSegment).1.durableLsn := by
  obtain ⟨s₀, hopen, hfacts⟩ := exists_afterRoll
  have hfacts' := of_decide_eq_true hfacts
  obtain ⟨disk, hdisk⟩ : ∃ disk, rolledDisk s₀ = disk := ⟨_, rfl⟩
  rw [hdisk] at hfacts'
  obtain ⟨hnone, hpast, -, -, -, hcount, -, hfirst, hsecond⟩ := hfacts'
  have hmoment := LogDisk.mem_momentsSince hpast
  have himage : LogImage disk.content disk.platter disk.content :=
    ⟨rfl, rfl, fun k i => .inl rfl⟩
  refine ⟨s₀, disk.content, disk.platter, hopen, ?_, himage, ?_⟩
  · rw [hdisk]
    exact hmoment
  · have hrun : (disk.content, disk.platter) ∈
        ((s₀.makeAll fillSegment).1.make (.append begun)).1.disk.momentsSince
          (s₀.makeAll fillSegment).1.disk := by
      rw [rolledDisk] at hdisk
      rw [hdisk]
      exact hmoment
    refine (log_survives_crash_iff rfl (by decide) hopen hnone hrun himage
      fun k _ _ => tearShows_self _ _).mpr ?_
    rw [hcount]
    refine ⟨headerReads_of_isSome.mpr hsecond, fun k hk _ => ?_⟩
    obtain rfl | rfl : k = 0 ∨ k = 1 := by omega
    · exact headerReads_of_isSome.mpr hfirst
    · exact headerReads_of_isSome.mpr hsecond

/-- The roll has created the next segment for good, and its header block is lost: the stream does
    not open any more, and the synced records of the segment before cannot be read. -/
theorem headerLostAfterRoll : ∃ s₀ content platter image,
    WalStream.openOn emptyDevice 0 kMinRingCapacity = .ok s₀ ∧
      (content, platter) ∈ (rolledDisk s₀).momentsSince (s₀.makeAll fillSegment).1.disk ∧
      LogImage content platter image ∧
      ¬ Recovers image 0 kMinRingCapacity ((s₀.makeAll fillSegment).2.map Appended.record)
        (s₀.makeAll fillSegment).1.durableLsn := by
  obtain ⟨s₀, hopen, hfacts⟩ := exists_afterRoll
  obtain ⟨-, hpast, hsize, hsize', hcount, hcount', hnone, -, -⟩ := of_decide_eq_true hfacts
  refine ⟨s₀, (rolledDisk s₀).content, (rolledDisk s₀).platter, (rolledDisk s₀).platter, hopen,
    LogDisk.mem_momentsSince hpast, ?_, fun hrecovers => ?_⟩
  · exact ⟨hsize.trans hsize'.symm, hcount.trans hcount'.symm, fun k i => .inr rfl⟩
  · have hreads := (openOn_iff hopen hsize (by omega)).mp hrecovers.opens
    have hlast : (rolledDisk s₀).platter.segmentCount - 1 = 1 := by omega
    rw [hlast, headerReads_of_isSome] at hreads
    rw [Option.isNone_iff_eq_none] at hnone
    rw [hnone] at hreads
    cases hreads

end Kds.Wal
